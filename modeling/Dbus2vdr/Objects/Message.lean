import Dbus2vdr.CString
import Dbus2vdr.Lib.Answer

/-!
# Calls and their replies

The parameters of a method call are D-Bus values of the types the object declares; a variant may
have any content. A handler puts its reply together from numbers, strings and lists of them. A
string without a value is a `NULL` pointer, which the builder of the reply does not take: a reply is
`Complete` when there is none in it.
-/

namespace Dbus2vdr

inductive Variant where
  | string (s : Bytes)
  | int32 (n : Int)
  | int64 (n : Int)
  | uint64 (n : Nat)
  | boolean (b : Bool)
  | strings (s : List Bytes)
  | variant (v : Variant)
  | other
  deriving Repr

inductive ArgType where
  | string
  | int32
  | uint64
  | boolean
  | strings
  | variant
  deriving DecidableEq, Repr

inductive Variant.HasType : Variant → ArgType → Prop where
  | string (s : Bytes) : HasType (.string s) .string
  | int32 (n : Int) : HasType (.int32 n) .int32
  | uint64 (n : Nat) : HasType (.uint64 n) .uint64
  | boolean (b : Bool) : HasType (.boolean b) .boolean
  | strings (s : List Bytes) : HasType (.strings s) .strings
  | variant (v : Variant) : HasType (.variant v) .variant

/-- `g_variant_get_child_value(value, 0)` for a value that is a variant. -/
def Variant.content : Variant → Variant
  | .variant v => v
  | v => v

abbrev Params := List Variant

namespace Params

/-! What `g_variant_get` stores; a variable is left as it is when the value has another type. -/

def string (params : Params) (i : Nat) : Option Bytes :=
  match params[i]? with
  | some (.string s) => some s
  | _ => none

def int32 (params : Params) (i : Nat) (n : Int) : Int :=
  match params[i]? with
  | some (.int32 m) => m
  | _ => n

def uint64 (params : Params) (i : Nat) (n : Nat) : Nat :=
  match params[i]? with
  | some (.uint64 m) => m
  | _ => n

def boolean (params : Params) (i : Nat) (b : Bool) : Bool :=
  match params[i]? with
  | some (.boolean c) => c
  | _ => b

def strings (params : Params) (i : Nat) : List Bytes :=
  match params[i]? with
  | some (.strings s) => s
  | _ => []

def child (params : Params) (i : Nat) : Variant := params.getD i .other

end Params

/-- What a reply is made of; `double` keeps the bits of the number. -/
inductive Value where
  | int (n : Int)
  | double (bits : UInt64)
  | boolean (b : Bool)
  | string (s : Option Bytes)
  | tuple (fields : List Value)
  | array (elements : List Value)
  | variant (v : Value)

inductive Value.Complete : Value → Prop where
  | int (n : Int) : Complete (.int n)
  | double (bits : UInt64) : Complete (.double bits)
  | boolean (b : Bool) : Complete (.boolean b)
  | string (s : Bytes) : Complete (.string (some s))
  | tuple {fields : List Value} : (∀ v ∈ fields, Complete v) → Complete (.tuple fields)
  | array {elements : List Value} : (∀ v ∈ elements, Complete v) → Complete (.array elements)
  | variant {v : Value} : Complete v → Complete (.variant v)

/-- An element of a dictionary. -/
def keyValue (key : Bytes) (value : Value) : Value := .tuple [.string (some key), .variant value]

/-- `if (c != NULL) AddKeyValue(arr, key, "s", ...)` -/
def optionalString (key : String) (c : Option Bytes) : List Value :=
  (c.map fun s => keyValue (ascii key) (.string (some s))).toList

inductive Reply where
  | value (body : List Value)
  | error (message : Bytes)

def Reply.Complete : Reply → Prop
  | .value body => ∀ v ∈ body, v.Complete
  | .error _ => True

/-- What the handlers make VDR do, and the plugin's own variables they set. -/
inductive VdrCall where
  | setEnabled (enabled : Bool)
  | callPlugin (name : Bytes)
  | put (key : Nat)
  | openMenu (title : Bytes) (items : List Bytes)
  | switchTo (number : Int)
  | switchBy (delta : Int)
  | setVolume (volume : Int) (absolute : Bool)
  | toggleMute
  | requestPrimaryDevice (index : Int)
  | setPrimaryDevice (n : Int)
  | createOsdProvider
  | deleteOsdProvider
  | setDisableUntil (time : Int)
  | cleanupSchedule (channel : Bytes)
  | clearSchedules
  | readSchedules (data : Bytes)
  | updateRecordings
  | replay (fileName : Option Bytes) (position : Int)
  | changeName (fileName : Option Bytes) (newName : Bytes)
  | addExtraVideoDirectory (dir : Bytes)
  | delExtraVideoDirectory (dir : Bytes)
  | clearExtraVideoDirectories
  | setCurrentSkin (name : Bytes)
  | loadTheme (name : Bytes)
  | updateOsdSize
  | queueMessage (text : Bytes)
  | runHooks (command : Bytes)
  | setUserInactive
  | addTimer (option : Bytes)
  | deleteTimer (number : Int)
  | skipTimer (number : Int)
  | setString (name value : Bytes) (maxLength : Int)
  | setNumber (name : Bytes) (value : Int)
  | storeLine (plugin : Option Bytes) (name value : Bytes)
  | setupStore (plugin name value : Bytes)
  | deleteLine (plugin : Option Bytes) (name : Bytes)
  | saveSetup
  | service (plugin id data : Bytes)

abbrev Trace := List (Answer.Act Reply VdrCall)

/-- **The promise of every method**: one reply, put together from strings that exist. -/
def Answered (trace : Trace) : Prop := Answer.Once Reply.Complete trace

/-- There is one reply, by `SendReply` with the code. -/
def RepliesCode (trace : Trace) (code : Int) : Prop :=
  ∃ message, Answer.replies trace = [.value [.int code, .string message]]

/-- `cDBusHelper::SendReply` -/
def sendReply (replyCode : Int) (replyMessage : Option Bytes) : Trace :=
  [.reply (.value [.int replyCode, .string replyMessage])]

/-! ### Complete values -/

attribute [simp] Value.Complete.int Value.Complete.double Value.Complete.boolean
  Value.Complete.string

namespace Value

@[simp]
theorem complete_string_iff {s : Option Bytes} : (Value.string s).Complete ↔ s ≠ none := by
  constructor
  · rintro ⟨⟩
    simp
  · intro hs
    obtain ⟨t, rfl⟩ := Option.ne_none_iff_exists'.mp hs
    exact .string t

@[simp]
theorem complete_tuple_iff {fields : List Value} :
    (tuple fields).Complete ↔ ∀ v ∈ fields, v.Complete :=
  ⟨fun h => by cases h with | tuple h => exact h, .tuple⟩

@[simp]
theorem complete_array_iff {elements : List Value} :
    (array elements).Complete ↔ ∀ v ∈ elements, v.Complete :=
  ⟨fun h => by cases h with | array h => exact h, .array⟩

/-- Most lists in a reply have one value for each entry of a list of VDR. -/
theorem complete_map {α : Type} {f : α → Value} {l : List α} (hf : ∀ a, (f a).Complete) :
    (array (l.map f)).Complete := by
  simp only [complete_array_iff, List.forall_mem_map]
  exact fun a _ => hf a

@[simp]
theorem complete_variant_iff {v : Value} : (variant v).Complete ↔ v.Complete :=
  ⟨fun h => by cases h with | variant h => exact h, .variant⟩

end Value

@[simp]
theorem keyValue_complete_iff {key : Bytes} {value : Value} :
    (keyValue key value).Complete ↔ value.Complete := by simp [keyValue]

@[simp]
theorem optionalString_complete {key : String} {c : Option Bytes} :
    ∀ v ∈ optionalString key c, v.Complete := by
  cases c <;> simp [optionalString]

@[simp]
theorem Reply.complete_value_iff {body : List Value} :
    (Reply.value body).Complete ↔ ∀ v ∈ body, v.Complete := Iff.rfl

@[simp]
theorem Reply.complete_error {message : Bytes} : (Reply.error message).Complete := trivial

@[simp]
theorem answered_reply {r : Reply} : Answered [.reply r] ↔ r.Complete := Answer.once_reply

@[simp]
theorem not_answered_crash : ¬ Answered [.crash] := Answer.not_once_crash

@[simp]
theorem answered_did_cons {c : VdrCall} {trace : Trace} :
    Answered (.did c :: trace) ↔ Answered trace := Answer.once_did_cons

@[simp]
theorem answered_did_append {calls : List VdrCall} {trace : Trace} :
    Answered (calls.map .did ++ trace) ↔ Answered trace := Answer.once_did_append calls

@[simp]
theorem answered_append_did {calls : List VdrCall} {trace : Trace} :
    Answered (trace ++ calls.map .did) ↔ Answered trace := Answer.once_append_did calls

@[simp]
theorem repliesCode_sendReply {code code' : Int} {message : Option Bytes} :
    RepliesCode (sendReply code message) code' ↔ code = code' := by
  simp [RepliesCode, sendReply]

@[simp]
theorem repliesCode_did_cons {c : VdrCall} {trace : Trace} {code : Int} :
    RepliesCode (.did c :: trace) code ↔ RepliesCode trace code := by simp [RepliesCode]

@[simp]
theorem repliesCode_did_append {calls : List VdrCall} {trace : Trace} {code : Int} :
    RepliesCode (calls.map .did ++ trace) code ↔ RepliesCode trace code := by simp [RepliesCode]

@[simp]
theorem answered_sendReply {code : Int} {message : Option Bytes} :
    Answered (sendReply code message) ↔ message ≠ none := by
  simp [sendReply]

end Dbus2vdr

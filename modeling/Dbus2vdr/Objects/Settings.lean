import Dbus2vdr.Plugin
import Dbus2vdr.Objects.Message
import Dbus2vdr.Setup.Store

/-!
# Settings and skins

The methods of `/Setup` and `/Skin`. A setting has a binding to a variable of VDR, belongs to a
plugin that is loaded, or has a line of `setup.conf` and nothing else; for the last kind `Get` and
`Set` are those of `Setup`. Setting the theme takes the current skin for granted,
`set_answered_iff`.
-/

namespace Dbus2vdr

structure Skin where
  index : Int
  name : Bytes
  description : Bytes
  /-- The skin has a theme, and the name is that of one of its themes. -/
  hasTheme : Bytes → Bool

structure Skins where
  current : Option Skin
  list : List Skin
  setCurrent : Bytes → Bool

namespace SkinHelper

def buildSkin : Option Skin → Value
  | some skin => .tuple [.int skin.index, .string (some skin.name), .string (some skin.description)]
  | none => .tuple [.int (-1), .string (some []), .string (some [])]

def currentSkin (skins : Skins) : Trace := [.reply (.value [.int 900, buildSkin skins.current])]

def listSkins (skins : Skins) : Trace :=
  [.reply (.value [.int 900, .array (skins.list.map fun skin => buildSkin (some skin))])]

def setSkin (skins : Skins) (params : Params) : Trace :=
  let name := (params.string 0).getD []
  if name = [] then sendReply 501 (some (ascii "no skin name given"))
  else if !skins.setCurrent name then
    sendReply 550 (some (ascii "can't set skin to '" ++ name ++ ascii "'"))
  else
    .did (.setCurrentSkin name) ::
      sendReply 900 (some (ascii "set skin to '" ++ name ++ ascii "'"))

def queueMessage (params : Params) : Trace :=
  match params.string 0 with
  | none => sendReply 501 (some (ascii "Missing message"))
  | some messageText =>
      if messageText = [] then sendReply 501 (some (ascii "Missing message"))
      else .did (.queueMessage messageText) :: sendReply 250 (some (ascii "Message queued"))

@[simp]
theorem buildSkin_complete (skin : Option Skin) : (buildSkin skin).Complete := by
  cases skin <;> simp [buildSkin]

theorem currentSkin_answered (skins : Skins) : Answered (currentSkin skins) := by
  simp [currentSkin]

theorem listSkins_answered (skins : Skins) : Answered (listSkins skins) := by simp [listSkins]

theorem setSkin_answered (skins : Skins) (params : Params) : Answered (setSkin skins params) := by
  unfold setSkin
  dsimp only
  split_ifs <;> simp

theorem queueMessage_answered (params : Params) : Answered (queueMessage params) := by
  unfold queueMessage
  split
  · simp
  · split_ifs <;> simp

end SkinHelper

/-! ### Bindings -/

inductive BindingValue where
  | string (s : Bytes) (maxLength : Int)
  | int32 (n minValue maxValue : Int)
  | timeT (n : Int)

structure SetupBinding where
  name : Bytes
  value : BindingValue

/-- The settings as the methods find them; `load` and `save` are what VDR makes of a line of the
file and of the lines, `parseLine` is `cSetupLine::Parse`, and `setupParse` what a plugin says to a
name and a value. -/
structure Settings where
  bindings : List SetupBinding
  setup : Setup
  load : Bytes → Option SetupLine
  save : List SetupLine → List SetupLine
  parseLine : Bytes → Option SetupLine
  setupParse : Bytes → Bytes → Bytes → Bool

namespace SetupHelper

open SetupLine (fullName isLine)

def find (settings : Settings) (name : Bytes) : Option SetupBinding :=
  settings.bindings.find? fun b => strcaseeq b.name name

/-- What `Setup` is given of VDR. -/
def vdr (settings : Settings) (plugins : LoadedPlugins) : Vdr where
  bound := fun name => (find settings name).isSome
  loaded := fun name => (plugins.getPlugin name).isSome
  parse := settings.load
  save := settings.save

def listedValue : BindingValue → Value
  | .string s maxLength => .tuple [.string (some s), .int maxLength]
  | .int32 n minValue maxValue => .tuple [.int n, .int minValue, .int maxValue]
  | .timeT n => .int n

/-- "output all plugins and unknown settings" -/
def listedLines (settings : Settings) : List SetupLine :=
  settings.setup.lines.filter fun line =>
    !(line.plugin.isNone && (find settings line.name).isSome)

def list (settings : Settings) : Trace :=
  [.reply (.value [.array (
    (settings.bindings.map fun b => keyValue b.name (listedValue b.value)) ++
    (listedLines settings).map fun line =>
      keyValue (fullName line.plugin line.name) (.tuple [.string (some line.value), .int (-1)]))])]

def getReply (value : Value) (replyCode : Int) (replyMessage : Bytes) : Trace :=
  [.reply (.value [.variant value, .int replyCode, .string (some replyMessage)])]

def boundValue : BindingValue → Value
  | .string s _ => .string (some s)
  | .int32 n _ _ => .int n
  | .timeT n => .int n

def get (settings : Settings) (plugins : LoadedPlugins) (params : Params) : Trace :=
  match params.string 0 with
  | none => getReply (.string (some [])) 501 (ascii "missing arguments")
  | some name =>
      match find settings name, settings.setup.get (vdr settings plugins) name with
      | some b, _ => getReply (boundValue b.value) 900 (ascii "getting " ++ name)
      | none, some reply => getReply (.string (some reply.value)) reply.code reply.message
      -- `Setup.get` has a reply for every name that is not bound
      | none, none => []

/-- "special handling of some setup values": what is done for them and whether it changes how VDR
looks, or nothing when `Skins.Current()` is `NULL`. -/
def appearance (skins : Skins) (name str : Bytes) : Option (List VdrCall × Bool) :=
  if strcaseeq name (ascii "OSDLanguage") ∨ strcaseeq name (ascii "FontOsd") ∨
      strcaseeq name (ascii "FontSml") ∨ strcaseeq name (ascii "FontFix") then some ([], true)
  else if strcaseeq name (ascii "OSDSkin") then some ([.setCurrentSkin str], true)
  else if strcaseeq name (ascii "OSDTheme") then
    skins.current.map fun skin =>
      if skin.hasTheme str then ([.loadTheme str], true) else ([], false)
  else some ([], false)

/-- `Setup.Save()` and what follows it. -/
def saved (modifiedAppearance : Bool) : List VdrCall :=
  .saveSetup :: if modifiedAppearance then [.updateOsdSize] else []

def wrongArgument (name : Bytes) (problem : String) : Trace :=
  sendReply 501 (some (ascii "argument for " ++ name ++ ascii " is " ++ ascii problem))

def setting (name value : Bytes) : Bytes := ascii "setting " ++ name ++ ascii " = " ++ value

def setBound (skins : Skins) (name : Bytes) (b : SetupBinding) (child : Variant) : Trace :=
  match b.value with
  | .string _ maxLength =>
      match child with
      | .string str =>
          .did (.setString b.name str maxLength) ::
            match appearance skins name str with
            | none => [.crash]
            | some (calls, modifiedAppearance) =>
                (calls ++ saved modifiedAppearance).map .did ++
                  sendReply 900 (some (setting name str))
      | _ => wrongArgument name "not a string"
  | .int32 _ minValue maxValue =>
      match child with
      | .int32 i32 =>
          if i32 < minValue ∨ maxValue < i32 then wrongArgument name "out of range"
          else
            .did (.setNumber b.name i32) ::
              ((saved (strcaseeq name (ascii "AntiAlias"))).map .did ++
                sendReply 900 (some (setting name (decimal i32))))
      | _ => wrongArgument name "not a 32bit-integer"
  | .timeT _ =>
      match child with
      | .int64 i64 =>
          .did (.setNumber b.name i64) ::
            ((saved false).map .did ++ sendReply 900 (some (setting name (decimal i64))))
      | _ => wrongArgument name "not a 64bit-integer"

def setUnbound (settings : Settings) (plugins : LoadedPlugins) (name : Bytes) (child : Variant) :
    Trace :=
  let vdr := vdr settings plugins
  let (pluginName, key) := Setup.splitName name
  match child with
  | .string value =>
      match settings.setup.set vdr name (.string value) with
      | some (_, reply) =>
          .did (.storeLine pluginName key value) :: sendReply reply.code (some reply.message)
      | none =>
          -- the plugin is loaded
          let pluginName := pluginName.getD []
          if settings.setupParse pluginName key value then
            .did (.setupStore pluginName key value) :: .did .saveSetup ::
              sendReply 900 (some (ascii "storing " ++ name ++ ascii " = " ++ value))
          else
            sendReply 501 (some (ascii "plugin " ++ pluginName ++ ascii " can't parse " ++ key ++
              ascii " = " ++ value))
  | _ => wrongArgument name "not a string"

def set (settings : Settings) (plugins : LoadedPlugins) (skins : Skins) (params : Params) : Trace :=
  let child := (params.child 1).content
  match params.string 0 with
  | none => sendReply 501 (some (ascii "missing arguments"))
  | some name =>
      match find settings name with
      | none => setUnbound settings plugins name child
      | some b => setBound skins name b child

def del (settings : Settings) (params : Params) : Trace :=
  let name := (params.string 0).getD []
  if endswith name (ascii ".*") then
    let plugin := name.take (name.length - 2)
    ((settings.setup.lines.filter fun line => line.plugin.any fun p => strcaseeq p plugin).map
      fun line => VdrCall.deleteLine line.plugin line.name).map .did ++
      .did .saveSetup ::
        sendReply 900 (some (ascii "deleted all settings for plugin " ++ plugin))
  else
    match settings.parseLine (name ++ ascii "=") with
    | none => sendReply 501 (some (ascii "can't parse " ++ name))
    | some delLine =>
        match settings.setup.lines.find? (isLine delLine.name delLine.plugin) with
        | some line =>
            .did (.deleteLine line.plugin line.name) :: .did .saveSetup ::
              sendReply 900 (some (name ++ ascii " deleted from setup.conf"))
        | none => sendReply 550 (some (name ++ ascii " not found in setup.conf"))

/-! ### Which of them answer -/

theorem list_answered (settings : Settings) : Answered (list settings) := by
  have hbinding : ∀ value, (listedValue value).Complete := by
    intro value
    cases value <;> simp [listedValue]
  simp only [list, answered_reply, Reply.complete_value_iff, List.forall_mem_singleton,
    Value.complete_array_iff, List.forall_mem_append, List.forall_mem_map, keyValue_complete_iff]
  exact ⟨fun b _ => hbinding b.value, fun line _ => by simp⟩

theorem getReply_answered_iff {value : Value} {replyCode : Int} {replyMessage : Bytes} :
    Answered (getReply value replyCode replyMessage) ↔ value.Complete := by simp [getReply]

theorem get_answered (settings : Settings) (plugins : LoadedPlugins) (params : Params) :
    Answered (get settings plugins params) := by
  have hbound : ∀ value, (boundValue value).Complete := by
    intro value
    cases value <;> simp [boundValue]
  unfold get
  cases params.string 0 with
  | none => simp [getReply]
  | some name =>
      dsimp only
      cases hfind : find settings name with
      | some b => exact getReply_answered_iff.mpr (hbound b.value)
      | none =>
          have hunbound : (vdr settings plugins).bound name = false := by simp [vdr, hfind]
          have hreply := Setup.get_code_value settings.setup hunbound
          cases hget : settings.setup.get (vdr settings plugins) name with
          | some reply => exact getReply_answered_iff.mpr (by simp)
          | none => simp [hget] at hreply

theorem strcaseeq_inj {s t u : Bytes} (ht : strcaseeq s t) (hu : strcaseeq s u) :
    t.map tolower = u.map tolower := by
  simp only [strcaseeq, beq_iff_eq] at ht hu
  rw [← ht, hu]

theorem appearance_eq_none_iff (skins : Skins) (name str : Bytes) :
    appearance skins name str = none ↔
      strcaseeq name (ascii "OSDTheme") ∧ skins.current = none := by
  unfold appearance
  by_cases htheme : strcaseeq name (ascii "OSDTheme")
  · have hother : ∀ other, (ascii "OSDTheme").map tolower ≠ other.map tolower →
        ¬ strcaseeq name other := fun other hne heq => hne (strcaseeq_inj htheme heq)
    have hnames := hother (ascii "OSDLanguage") (by decide)
    have hosd := hother (ascii "FontOsd") (by decide)
    have hsml := hother (ascii "FontSml") (by decide)
    have hfix := hother (ascii "FontFix") (by decide)
    have hskin := hother (ascii "OSDSkin") (by decide)
    simp [htheme, hnames, hosd, hsml, hfix, hskin]
  · simp only [htheme, Bool.false_eq_true, if_false, false_and, iff_false]
    split_ifs <;> simp

theorem wrongArgument_answered (name : Bytes) (problem : String) :
    Answered (wrongArgument name problem) := by simp [wrongArgument]

/-- The theme is to be set, and there is no skin it could be one of. -/
def ThemeOfNoSkin (skins : Skins) (name : Bytes) (b : SetupBinding) (child : Variant) : Prop :=
  (∃ s maxLength, b.value = .string s maxLength) ∧ (∃ str, child = .string str) ∧
    strcaseeq name (ascii "OSDTheme") ∧ skins.current = none

theorem setBound_answered_iff (skins : Skins) (name : Bytes) (b : SetupBinding) (child : Variant) :
    Answered (setBound skins name b child) ↔ ¬ ThemeOfNoSkin skins name b child := by
  unfold setBound ThemeOfNoSkin
  cases b.value with
  | string s maxLength =>
      cases child with
      | string str =>
          dsimp only
          rw [answered_did_cons, ← appearance_eq_none_iff skins name str]
          cases appearance skins name str with
          | none => simp
          | some changes =>
              dsimp only
              rw [answered_did_append, answered_sendReply]
              simp
      | _ => exact iff_of_true (wrongArgument_answered ..) (by simp)
  | int32 n minValue maxValue =>
      refine iff_of_true ?_ (by simp)
      dsimp only
      split
      · split_ifs
        · exact wrongArgument_answered ..
        · rw [answered_did_cons, answered_did_append]
          simp
      · exact wrongArgument_answered ..
  | timeT n =>
      refine iff_of_true ?_ (by simp)
      dsimp only
      split
      · rw [answered_did_cons, answered_did_append]
        simp
      · exact wrongArgument_answered ..

theorem setUnbound_answered (settings : Settings) (plugins : LoadedPlugins) (name : Bytes)
    (child : Variant) : Answered (setUnbound settings plugins name child) := by
  unfold setUnbound
  dsimp only
  split
  · split
    · simp
    · split_ifs <;> simp
  · exact wrongArgument_answered ..

theorem set_answered_iff (settings : Settings) (plugins : LoadedPlugins) (skins : Skins)
    (params : Params) :
    Answered (set settings plugins skins params) ↔
      ¬ ∃ name b, params.string 0 = some name ∧ find settings name = some b ∧
        ThemeOfNoSkin skins name b (params.child 1).content := by
  unfold set
  dsimp only
  cases params.string 0 with
  | none => simp
  | some name =>
      cases hfind : find settings name with
      | none => simp [hfind, setUnbound_answered]
      | some b => simp [hfind, setBound_answered_iff]

theorem del_answered (settings : Settings) (params : Params) : Answered (del settings params) := by
  unfold del
  dsimp only
  split_ifs
  · rw [answered_did_append]
    simp
  · split
    · simp
    · split <;> simp

end SetupHelper

end Dbus2vdr

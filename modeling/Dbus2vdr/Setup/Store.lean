import Dbus2vdr.CString
import Dbus2vdr.Lib.LineFile
import Dbus2vdr.Lib.Machine

/-!
# The settings without a binding

`setup.Get` and `setup.Set` of `setup.c` for a name that is neither one of the bindings nor a
setting of a loaded plugin: all that knows such a setting is the line of `setup.conf`. `Set` appends
a new line in memory; the line that is there is replaced in the file, with the file as VDR reads it
back.

VDR saves a line as `Name = Value` or `Plugin.Name = Value`. What it makes of a line of the file is
a parameter, `parse` of `Vdr`; `SetupLine.parse` is how it is taken to read a line where one is
needed. So is `save`, what `Setup.Save()` makes of the lines before it writes them: VDR keeps its
settings in variables and stores these in the lines first.
-/

namespace Dbus2vdr

structure SetupLine where
  plugin : Option Bytes
  name : Bytes
  value : Bytes
  deriving DecidableEq, Repr

/-- The part of VDR that the two methods rely on. -/
structure Vdr where
  /-- `cSetupBinding::Find(_bindings, name) != NULL` -/
  bound : Bytes → Bool
  /-- `cPluginManager::GetPlugin(name) != NULL` -/
  loaded : Bytes → Bool
  /-- What `Load` with comments allowed makes of a line of the file. -/
  parse : Bytes → Option SetupLine
  /-- The lines once `Setup.Save()` has stored VDR's variables. -/
  save : List SetupLine → List SetupLine

structure Setup where
  lines : List SetupLine := []
  file : Bytes := []
  deriving DecidableEq, Repr

structure SetReply where
  code : Int
  message : Bytes
  deriving DecidableEq, Repr

structure GetReply where
  value : Bytes
  code : Int
  message : Bytes
  deriving DecidableEq, Repr

/-- The content of the variant that `Set` is given. -/
inductive SetArgument where
  | string (value : Bytes)
  | other
  deriving DecidableEq, Repr

namespace SetupLine

def dot : UInt8 := 46

/-- `Plugin.Name` or `Name`. -/
def fullName (plugin : Option Bytes) (name : Bytes) : Bytes :=
  match plugin with
  | some plugin => plugin ++ dot :: name
  | none => name

/-- `cSetupLine::Save` -/
def text (line : SetupLine) : Bytes :=
  fullName line.plugin line.name ++ ascii " = " ++ line.value

/-- Splits at the first `=`, compacts white space on both sides, and splits the name at its first
dot. `#` starts a comment. -/
def parse (s : Bytes) : Option SetupLine :=
  let s := s.takeWhile (· ≠ 35)
  let name := compactspace (s.takeWhile (· ≠ 61))
  let value := compactspace (s.dropWhile (· ≠ 61)).tail
  if 61 ∉ s ∨ name = [] then none
  else if dot ∈ name then
    some
      { plugin := some (name.takeWhile (· ≠ dot))
        name := (name.dropWhile (· ≠ dot)).tail
        value }
  else some { plugin := none, name, value }

/-- The condition of `FindSetupLine`. -/
def isLine (name : Bytes) (plugin : Option Bytes) (line : SetupLine) : Bool :=
  match line.plugin, plugin with
  | none, none => strcaseeq line.name name
  | some linePlugin, some plugin => strcaseeq linePlugin plugin && strcaseeq line.name name
  | _, _ => false

/-- The plugin and the name in any letter case. -/
def caseless (line : SetupLine) : Option Bytes × Bytes :=
  (line.plugin.map fun plugin => plugin.map tolower, line.name.map tolower)

theorem isLine_iff {name : Bytes} {plugin : Option Bytes} {line : SetupLine} :
    isLine name plugin line ↔
      line.caseless = (plugin.map fun plugin => plugin.map tolower, name.map tolower) := by
  unfold isLine caseless
  cases line.plugin <;> cases plugin <;> simp [strcaseeq_iff]

/-- `FindSetupLine` looks for a key. -/
theorem isLine_eq (name : Bytes) (plugin : Option Bytes) :
    isLine name plugin = fun line =>
    decide (line.caseless = (⟨plugin, name, []⟩ : SetupLine).caseless) := by
  funext line
  rw [Bool.eq_iff_iff, decide_eq_true_iff]
  exact isLine_iff

end SetupLine

open SetupLine (isLine fullName)

namespace Vdr

def format (vdr : Vdr) : LineFile.Format SetupLine UInt8 where
  lineEnd := 10
  text := SetupLine.text
  parse := fun line => vdr.parse (readLine line)

end Vdr

namespace Setup

/-- How `Get` and `Set` take a name apart: without a dot it is the name as it is. -/
def splitName (name : Bytes) : Option Bytes × Bytes :=
  if SetupLine.dot ∈ name then
    let pluginName := compactspace name
    (some (pluginName.takeWhile (· ≠ SetupLine.dot)),
      (pluginName.dropWhile (· ≠ SetupLine.dot)).tail)
  else (none, name)

def findSetupLine (lines : List SetupLine) (name : Bytes) (plugin : Option Bytes) :
    Option SetupLine :=
  lines.find? (isLine name plugin)

/-- The loop of `Get` has the tests of `FindSetupLine` one by one. -/
def getLoop (key : Bytes) (plugin : Option Bytes) : List SetupLine → Option Bytes
  | [] => none
  | line :: lines =>
      if line.plugin.isNone ≠ plugin.isNone then getLoop key plugin lines
      else if plugin.isSome ∧ !(plugin.any fun p => line.plugin.any fun q => strcaseeq p q) then
        getLoop key plugin lines
      else if !strcaseeq key line.name then getLoop key plugin lines
      else some line.value

variable (vdr : Vdr)

def get (s : Setup) (name : Bytes) : Option GetReply :=
  if vdr.bound name then none
  else
    let (plugin, key) := splitName name
    match getLoop key plugin s.lines with
    | none => some { value := [], code := 501, message := name ++ ascii " not found in setup.conf" }
    | some value => some { value, code := 900, message := ascii "getting " ++ name }

/-- `Setup.Save()` writes the lines it has stored the variables in. -/
def save (s : Setup) : Setup :=
  { lines := vdr.save s.lines, file := vdr.format.save (vdr.save s.lines) }

/-- "save vdr-setup, load it in own Setup-container; adjust value, save as setup.conf, reload
vdr-setup" -/
def store (s : Setup) (plugin : Option Bytes) (key value : Bytes) : Setup :=
  let newLine : SetupLine := { plugin, name := key, value }
  if (findSetupLine s.lines key plugin).isSome then
    let s := s.save vdr
    let tmpSetup := vdr.format.load s.file
    if (findSetupLine tmpSetup key plugin).isSome then
      let tmpSetup := LineFile.replaceFirst (isLine key plugin) newLine tmpSetup
      let file := vdr.format.save tmpSetup
      { lines := vdr.format.load file, file }
    else s
  else { s with lines := s.lines ++ [newLine] }.save vdr

/-- The branch for a name that has no binding and, if there is a plugin part, no loaded plugin. -/
def set (s : Setup) (name : Bytes) (argument : SetArgument) : Option (Setup × SetReply) :=
  if vdr.bound name then none
  else
    match argument with
    | .other =>
        some (s, ⟨501, ascii "argument for " ++ name ++ ascii " is not a string"⟩)
    | .string value =>
        let (plugin, key) := splitName name
        if plugin.any vdr.loaded then none
        else
          some (s.store vdr plugin key value,
            ⟨900, ascii "storing " ++ fullName plugin key ++ ascii " = " ++ value⟩)

end Setup

inductive SetupEvent where
  | load (file : Bytes)
  | set (name : Bytes) (argument : SetArgument)
  deriving DecidableEq, Repr

namespace Setup

variable (vdr : Vdr)

def step : Machine.Step Setup SetupEvent
  | _, .load file => some { lines := vdr.format.load file, file }
  | s, .set name argument => (s.set vdr name argument).map (·.1)

/-! ### What `Set` and `Get` come to -/

theorem getLoop_eq (key : Bytes) (plugin : Option Bytes) (lines : List SetupLine) :
    getLoop key plugin lines = (findSetupLine lines key plugin).map (·.value) := by
  induction lines with
  | nil => rfl
  | cons line lines ih =>
      have hcomm : ∀ t u : Bytes, strcaseeq t u = strcaseeq u t := fun _ _ => strcaseeq_comm
      unfold findSetupLine at ih ⊢
      unfold getLoop
      cases hplugin : line.plugin <;> cases plugin <;>
        simp_all [isLine, List.find?_cons]
      all_goals split_ifs <;> simp_all

variable {vdr}

theorem get_code_value (s : Setup) {name : Bytes} (hunbound : vdr.bound name = false) :
    (s.get vdr name).map (fun r => (r.code, r.value)) =
      some (((findSetupLine s.lines (splitName name).2 (splitName name).1).map
        fun line => ((900 : Int), line.value)).getD (501, [])) := by
  simp only [get, hunbound, Bool.false_eq_true, if_false, getLoop_eq]
  cases findSetupLine s.lines (splitName name).2 (splitName name).1 <;> rfl

theorem set_eq {s : Setup} {name value : Bytes} (hunbound : vdr.bound name = false)
    (hunloaded : ∀ plugin ∈ (splitName name).1, vdr.loaded plugin = false) :
    s.set vdr name (.string value) =
      some (s.store vdr (splitName name).1 (splitName name).2 value,
        ⟨900, ascii "storing " ++ fullName (splitName name).1 (splitName name).2 ++ ascii " = " ++
          value⟩) := by
  have hany : (splitName name).1.any vdr.loaded = false := by
    cases hplugin : (splitName name).1 with
    | none => rfl
    | some plugin => exact hunloaded plugin hplugin
  simp [set, hunbound, hany]

theorem store_cases (vdr : Vdr) (s : Setup) (plugin : Option Bytes) (key value : Bytes) :
    (findSetupLine s.lines key plugin = none ∧
      s.store vdr plugin key value =
        { s with lines := s.lines ++ [SetupLine.mk plugin key value] }.save vdr) ∨
    ((findSetupLine s.lines key plugin).isSome ∧
      findSetupLine (vdr.format.reload (vdr.save s.lines)) key plugin = none ∧
        s.store vdr plugin key value = s.save vdr) ∨
    ((findSetupLine s.lines key plugin).isSome ∧
      (findSetupLine (vdr.format.reload (vdr.save s.lines)) key plugin).isSome ∧
        s.store vdr plugin key value =
          { lines := vdr.format.reload (LineFile.replaceFirst (isLine key plugin)
              (SetupLine.mk plugin key value) (vdr.format.reload (vdr.save s.lines)))
            file := vdr.format.save (LineFile.replaceFirst (isLine key plugin)
              (SetupLine.mk plugin key value) (vdr.format.reload (vdr.save s.lines))) }) := by
  unfold store
  by_cases hline : (findSetupLine s.lines key plugin).isSome
  · rw [if_pos hline]
    by_cases htmp : (findSetupLine (vdr.format.reload (vdr.save s.lines)) key plugin).isSome
    · exact .inr (.inr ⟨hline, htmp, if_pos htmp⟩)
    · exact .inr (.inl ⟨hline, by simpa using htmp, if_neg htmp⟩)
  · rw [if_neg hline]
    exact .inl ⟨by simpa using hline, rfl⟩

end Setup

/-! ### VDR's variables -/

/-- What `Setup.Save()` is known to do: each of VDR's variables is stored in a line of its own,
which takes the place of the first one of that name; all other lines are kept, in whichever
order. -/
def Vdr.Stores (vdr : Vdr) (vars : List SetupLine) : Prop :=
  ∀ lines, (vdr.save lines).Perm (vars.foldl (LineFile.put SetupLine.caseless) lines)

/-- A name of one of the variables. -/
def Owns (vars : List SetupLine) (plugin : Option Bytes) (key : Bytes) : Prop :=
  ∃ v ∈ vars, isLine key plugin v

instance (vars : List SetupLine) (plugin : Option Bytes) (key : Bytes) :
    Decidable (Owns vars plugin key) :=
  inferInstanceAs (Decidable (∃ v ∈ vars, isLine key plugin v = true))

section Variables

variable {vdr : Vdr} {vars : List SetupLine} {plugin : Option Bytes} {key : Bytes}

theorem isLine_self (plugin : Option Bytes) (key value : Bytes) :
    isLine key plugin ⟨plugin, key, value⟩ := by
  cases plugin <;> simp [isLine, strcaseeq_refl]

theorem not_owns_iff :
    ¬ Owns vars plugin key ↔ (vars.filter (isLine key plugin)).getLast? = none := by
  rw [List.getLast?_eq_none_iff, List.filter_eq_nil_iff]
  simp [Owns]

theorem filter_of_new {lines : List SetupLine}
    (hnew : Setup.findSetupLine lines key plugin = none) :
    lines.filter (isLine key plugin) = [] := by
  rw [Setup.findSetupLine, List.find?_eq_none] at hnew
  exact List.filter_eq_nil_iff.mpr hnew

theorem filter_append_new {lines : List SetupLine} (value : Bytes)
    (hnew : lines.filter (isLine key plugin) = []) :
    (lines ++ [SetupLine.mk plugin key value]).filter (isLine key plugin) =
      [SetupLine.mk plugin key value] := by
  rw [List.filter_append, hnew, List.nil_append]
  exact List.filter_cons_of_pos (isLine_self plugin key value)

/-- A line whose name is in the store only once keeps its place, unless it is that of a variable. -/
theorem Vdr.Stores.filter_save (hsave : vdr.Stores vars) {lines : List SetupLine}
    (hone : (lines.filter (isLine key plugin)).length ≤ 1) :
    (vdr.save lines).filter (isLine key plugin) =
      match (vars.filter (isLine key plugin)).getLast? with
      | some v => [v]
      | none => lines.filter (isLine key plugin) := by
  have hperm := (hsave lines).filter (isLine key plugin)
  rw [SetupLine.isLine_eq] at hone hperm ⊢
  rw [LineFile.filter_foldl_put vars hone] at hperm
  cases hlast : (vars.filter fun line =>
      decide (line.caseless = (⟨plugin, key, []⟩ : SetupLine).caseless)).getLast? with
  | some v =>
      rw [hlast] at hperm
      exact List.perm_singleton.mp hperm
  | none =>
      rw [hlast] at hperm
      dsimp only at hperm ⊢
      cases hlines : lines.filter fun line =>
          decide (line.caseless = (⟨plugin, key, []⟩ : SetupLine).caseless) with
      | nil =>
          rw [hlines] at hperm
          exact List.perm_nil.mp hperm
      | cons line rest =>
          rw [hlines, List.length_cons] at hone
          rw [hlines, List.length_eq_zero_iff.mp (show rest.length = 0 by omega)] at hperm
          rw [List.length_eq_zero_iff.mp (show rest.length = 0 by omega)]
          exact List.perm_singleton.mp hperm

/-- A line more of one name makes no difference to the lines of other names. -/
theorem Vdr.Stores.others_save_append (hsave : vdr.Stores vars) (lines : List SetupLine)
    (value : Bytes) :
    (LineFile.others (isLine key plugin) (vdr.save (lines ++ [⟨plugin, key, value⟩]))).Perm
      (LineFile.others (isLine key plugin) (vdr.save lines)) := by
  have hown : LineFile.others (isLine key plugin) [⟨plugin, key, value⟩] = [] :=
    LineFile.others_eq_nil_iff.mpr (by simpa using isLine_self plugin key value)
  have hsame : LineFile.others (isLine key plugin) (lines ++ [⟨plugin, key, value⟩]) =
      LineFile.others (isLine key plugin) lines := by
    rw [LineFile.others_append, hown, List.append_nil]
  have hlines := LineFile.others_perm (p := isLine key plugin) (hsave lines)
  have hmore :=
    LineFile.others_perm (p := isLine key plugin) (hsave (lines ++ [⟨plugin, key, value⟩]))
  rw [SetupLine.isLine_eq] at hsame hlines hmore ⊢
  rw [LineFile.others_foldl_put_congr vars hsame] at hmore
  exact hmore.trans hlines.symm

/-- `Save` changes the lines of variables only. -/
theorem Vdr.Stores.others_save (hsave : vdr.Stores vars) (lines : List SetupLine)
    {q : SetupLine → Bool}
    (hvariables : ∀ v ∈ vars, ∀ x : SetupLine, x.caseless = v.caseless → q x) :
    (LineFile.others q (vdr.save lines)).Perm (LineFile.others q lines) := by
  have hperm := LineFile.others_perm (p := q) (hsave lines)
  rwa [LineFile.others_foldl_put_of_keys vars hvariables] at hperm

end Variables

end Dbus2vdr

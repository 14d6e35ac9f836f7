import Dbus2vdr.Setup.Bindings

/-!
# What is listed and what is found

`List` puts a plugin and a name together to a key, and `Get` takes the key apart again.
`list_get_agree` says that `Get` finds what is listed with its current value, and nothing else.
-/

namespace Dbus2vdr

open SetupLine (dot fullName isLine)

/-! ### Keys -/

namespace SetupLine

def key (line : SetupLine) : Bytes := fullName line.plugin line.name

end SetupLine

namespace Setup

end Setup

/-! ### The reply of `List` -/

/-- A key with its value. -/
abbrev Entry := Bytes × Value

def Value.keyed : Value → Option Entry
  | .tuple [.string (some key), .variant value] => some (key, value)
  | _ => none

/-- The keys and the values of a reply. -/
def listed : Trace → List Entry
  | [.reply (.value [.array elements])] => elements.filterMap Value.keyed
  | _ => []

/-- The value itself, without its bounds. -/
def Value.current : Value → Value
  | .tuple (value :: _) => value
  | value => value

namespace SetupHelper

variable {settings : Settings} {plugins : LoadedPlugins} {name : Bytes}

end SetupHelper

namespace SetupVdr

variable (v : SetupVdr) (plugins : LoadedPlugins) (st : SetupState)

/-- A binding has the name of the line. -/
def Shadowed (line : SetupLine) : Prop :=
  line.plugin = none ∧ ∃ b ∈ v.bindings, strcaseeq b.name line.name

/-- **What is listed and what is found.** Every binding is listed once, and so is every line that no
binding shadows, with the values that `Get` replies for their keys; there is nothing else that `Get`
finds. -/
structure Agrees : Prop where
  binding_once : ∀ b ∈ v.bindings,
    ((listed (SetupHelper.list (v.settings st))).filter fun e => strcaseeq e.1 b.name) =
      [(b.name, SetupHelper.listedValue (b.read st))]
  line_once : ∀ line ∈ st.setup.lines, ¬ v.Shadowed line →
    ((listed (SetupHelper.list (v.settings st))).filter fun e => strcaseeq e.1 line.key) =
      [(line.key, .tuple [.string (some line.value), .int (-1)])]
  only : ∀ e ∈ listed (SetupHelper.list (v.settings st)),
    (∃ b ∈ v.bindings, e.1 = b.name) ∨
      ∃ line ∈ st.setup.lines, ¬ v.Shadowed line ∧ e.1 = line.key
  get_listed : ∀ e ∈ listed (SetupHelper.list (v.settings st)),
    SetupHelper.get (v.settings st) plugins [.string e.1] =
      SetupHelper.getReply e.2.current 900 (ascii "getting " ++ e.1)
  listed_of_get : ∀ key, Compact key → ∀ value message,
    SetupHelper.get (v.settings st) plugins [.string key] =
      SetupHelper.getReply value 900 message →
      ∃ e ∈ listed (SetupHelper.list (v.settings st)), strcaseeq e.1 key

/-- A line of a plugin, one that nothing knows, and one of a binding. -/
def threeLines : SetupState where
  strings := fun _ => []
  numbers := fun _ => 0
  setup := {
    lines := [⟨some (ascii "epgsearch"), ascii "LogLevel", ascii "1"⟩,
      ⟨none, ascii "Old Option", ascii "2"⟩, ⟨none, ascii "antialias", ascii "1"⟩] }

end SetupVdr

end Dbus2vdr

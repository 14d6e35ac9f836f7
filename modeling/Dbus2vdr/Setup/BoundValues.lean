import Dbus2vdr.Setup.Agreement
import Dbus2vdr.Utf8Strings

/-!
# What has been set is read, for VDR's own settings

A value for a setting with a binding goes into a variable of VDR, a string by `Utf8Strn0Cpy` into an
array of limited size. `get_after_set` says what `Get` finds there after a `Set`.
-/

namespace Dbus2vdr

namespace SetupVdr

/-- The value of a binding once it has been set. -/
def written (v : SetupVdr) (b : Binding) (child : Variant) : Option BindingValue :=
  match b.type, child with
  | .string maxLength, .string str => some (.string (v.utf8Strn0Cpy str maxLength) maxLength)
  | .int32 minValue maxValue, .int32 i32 => some (.int32 i32 minValue maxValue)
  | .timeT, .int64 i64 => some (.timeT i64)
  | _, _ => none

variable (v : SetupVdr) (plugins : LoadedPlugins) (st : SetupState)

open Utf8 (WellFormed)

/-- What is kept of a string in `maxLength` bytes: it starts like the string, is the string if that
has room, is a text in UTF-8 if the string is one, and is kept as it is when it is set again. -/
structure Kept (v : SetupVdr) (b : Binding) (str : Bytes) (maxLength : Int) (copy : Bytes) :
    Prop where
  start : copy <+: str
  room : copy.length < maxLength
  whole : str.length < maxLength → copy = str
  wellFormed : WellFormed str → 0 ∉ str → WellFormed copy
  again : v.written b (.string copy) = some (.string copy maxLength)

end SetupVdr

end Dbus2vdr

import Dbus2vdr.Network.Clients

/-!
# The entries with a name

`Get` counts down to the entry that it returns, `Count` counts all of them up, and `Service` calls
`Get` with one number after the other until nothing is returned. `lookups_agree` says that the three
take the same entries, and that the loop therefore ends.
-/

namespace Dbus2vdr

namespace Avahi

def countLoop (name : Bytes) : List Bytes → Int → Int
  | [], count => count
  | text :: list, count =>
      if name.length < text.length then
        if text.take name.length = name ∧ text.getD name.length 0 = equals then
          countLoop name list (count + 1)
        else countLoop name list count
      else countLoop name list count

def count (list : List Bytes) (name : Bytes) : Int := if name = [] then 0 else countLoop name list 0

/-- What stands behind `Name=` in the entries that start with it. -/
def textsBehind (name : Bytes) (list : List Bytes) : List Bytes :=
  (list.filter fun text => (name ++ [equals]).isPrefixOf text).map fun text =>
    text.drop (name.length + 1)

theorem filterMap_valueOf (name : Bytes) (list : List Bytes) :
    list.filterMap (valueOf name) = textsBehind name list := by
  induction list with
  | nil => rfl
  | cons text list ih =>
      unfold textsBehind at ih ⊢
      by_cases hprefix : (name ++ [equals]).isPrefixOf text
      · obtain ⟨value, rfl⟩ := List.isPrefixOf_iff_prefix.mp hprefix
        have hvalue : valueOf name (name ++ [equals] ++ value) = some value :=
          valueOf_eq_some.mpr (by simp)
        have hdrop : (name ++ [equals] ++ value).drop (name.length + 1) = value :=
          List.drop_left' (by simp)
        rw [List.filterMap_cons_some hvalue, List.filter_cons_of_pos hprefix, List.map_cons, hdrop,
          ih]
      · have hvalue : valueOf name text = none := by
          refine Option.eq_none_iff_forall_ne_some.mpr fun value hvalue => hprefix ?_
          rw [valueOf_eq_some.mp hvalue]
          exact List.isPrefixOf_iff_prefix.mpr ⟨value, by simp⟩
        rw [List.filterMap_cons_none hvalue, List.filter_cons_of_neg hprefix, ih]

theorem get_eq_textsBehind (list : List Bytes) {name : Bytes} (hname : name ≠ []) (n : Nat) :
    get list name n = (textsBehind name list)[n]? := by
  rw [get, if_neg hname, getLoop_eq, filterMap_valueOf]

theorem countLoop_eq (name : Bytes) (list : List Bytes) (count : Int) :
    countLoop name list count = count + (list.filterMap (valueOf name)).length := by
  induction list generalizing count with
  | nil => simp [countLoop]
  | cons text list ih =>
      rw [countLoop, List.filterMap_cons, valueOf, ← ite_and, ih, ih]
      by_cases hentry : name.length < text.length ∧ text.take name.length = name ∧
          text.getD name.length 0 = equals
      · rw [if_pos hentry, if_pos hentry, List.length_cons]
        omega
      · rw [if_neg hentry, if_neg hentry]

theorem count_eq (list : List Bytes) {name : Bytes} (hname : name ≠ []) :
    count list name = (textsBehind name list).length := by
  rw [count, if_neg hname, countLoop_eq, Int.zero_add, filterMap_valueOf]

end Avahi

namespace NetworkClients

open Avahi (get count textsBehind)

/-- The loop of `Service` over the `txt` entries, with the number of its lookups when it ends. -/
def txtLoop (options : List Bytes) : Nat → Nat → Int → Option Bytes →
    Option (Nat × Option Bytes)
  | 0, _, _, _ => none
  | fuel + 1, lookups, txtNr, busname =>
      match get options (ascii "txt") txtNr with
      | none => some (lookups + 1, busname)
      | some txt => txtLoop options fuel (lookups + 1) (txtNr + 1) (keepBusname busname txt)

theorem foldl_keepBusname (txts : List Bytes) (busname : Option Bytes) :
    txts.foldl keepBusname busname = (textsBehind (ascii "busname") txts).getLast?.or busname := by
  induction txts generalizing busname with
  | nil => rfl
  | cons txt txts ih =>
      have hname : ascii "busname" ++ [Avahi.equals] = ascii "busname=" := by decide
      rw [List.foldl_cons, ih, keepBusname]
      unfold textsBehind
      by_cases hprefix : startswith txt (ascii "busname=")
      · have hbehind := List.isPrefixOf_iff_prefix.mpr (startswith_iff.mp hprefix)
        rw [if_pos hprefix, hname, List.filter_cons_of_pos hbehind, List.map_cons,
          List.getLast?_cons]
        cases (List.map _ (List.filter _ txts)).getLast? <;> rfl
      · have hbehind : ¬ (ascii "busname=").isPrefixOf txt := fun hmem =>
          hprefix (startswith_iff.mpr (List.isPrefixOf_iff_prefix.mp hmem))
        rw [if_neg hprefix, hname, List.filter_cons_of_neg hbehind]

theorem txtLoop_eq (options : List Bytes) {fuel n : Nat} (busname : Option Bytes)
    (hn : n ≤ (textsBehind (ascii "txt") options).length)
    (hfuel : (textsBehind (ascii "txt") options).length < n + fuel) :
    txtLoop options fuel n n busname = some ((textsBehind (ascii "txt") options).length + 1,
      ((textsBehind (ascii "txt") options).drop n).foldl keepBusname busname) := by
  induction fuel generalizing n busname with
  | zero => omega
  | succ fuel ih =>
      have htxt : ascii "txt" ≠ [] := by decide
      rw [txtLoop, Avahi.get_eq_textsBehind options htxt]
      by_cases hlt : n < (textsBehind (ascii "txt") options).length
      · rw [List.getElem?_eq_getElem hlt, List.drop_eq_getElem_cons hlt, List.foldl_cons]
        exact ih _ hlt (by omega)
      · obtain rfl : n = (textsBehind (ascii "txt") options).length := by omega
        rw [List.getElem?_eq_none le_rfl, List.drop_length]
        rfl

/-- **Lookups agree.** `Get` finds what `Count` counts, in the order of the entries, and nothing
else; so the loop of `Service` ends, and leaves the value of the last `busname`. -/
structure LookupsAgree (options : List Bytes) : Prop where
  found_iff : ∀ name, name ≠ [] → ∀ n : Nat, get options name n ≠ none ↔
    n < count options name
  values : ∀ name, name ≠ [] →
    ∀ n : Nat, get options name n = (textsBehind name options)[n]?
  counted : ∀ name, name ≠ [] → count options name = (textsBehind name options).length
  ends : ∀ fuel : Nat, count options (ascii "txt") < fuel →
    txtLoop options fuel 0 0 none = some ((count options (ascii "txt")).toNat + 1,
      (textsBehind (ascii "busname") (textsBehind (ascii "txt") options)).getLast?)
  busname : busname options =
    (textsBehind (ascii "busname") (textsBehind (ascii "txt") options)).getLast?

theorem lookups_agree (data : Option Bytes) : LookupsAgree (options data) where
  found_iff := by
    intro name hname n
    rw [Avahi.get_eq_textsBehind _ hname, Avahi.count_eq _ hname, Int.ofNat_lt, Ne,
      List.getElem?_eq_none_iff, Nat.not_le]
  values := fun _ hname => Avahi.get_eq_textsBehind _ hname
  counted := fun _ hname => Avahi.count_eq _ hname
  ends := by
    intro fuel hfuel
    rw [Avahi.count_eq _ (by decide)] at hfuel ⊢
    have hfuel : (textsBehind (ascii "txt") (options data)).length < 0 + fuel := by omega
    have hloop := txtLoop_eq (options data) none (Nat.zero_le _) hfuel
    rw [List.drop_zero, foldl_keepBusname, Option.or_none] at hloop
    exact hloop
  busname := by
    rw [busname_eq, Avahi.filterMap_valueOf, foldl_keepBusname, Option.or_none]

end NetworkClients

end Dbus2vdr

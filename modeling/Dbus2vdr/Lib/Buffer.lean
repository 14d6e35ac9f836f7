import Mathlib.Data.List.Basic

/-!
# Buffers

A buffer is the list of its cells. An access outside of it has no result, so a program with a result
has stayed inside of its buffers.
-/

namespace Buffer

universe u

variable {β : Type u}

def read (s : List β) (i : Int) : Option β := if 0 ≤ i then s[i.toNat]? else none

def write (s : List β) (i : Int) (b : β) : Option (List β) :=
  if 0 ≤ i ∧ i < s.length then some (s.set i.toNat b) else none

/-- The `n` cells from `src` on are moved to `dst`. -/
def move (s : List β) (dst src n : Nat) : Option (List β) :=
  if dst + n ≤ s.length ∧ src + n ≤ s.length then
    some (s.take dst ++ (s.drop src).take n ++ s.drop (dst + n))
  else none

/-- What stands from `i` on in front of a `nul`. -/
def text [DecidableEq β] (nul : β) (s : List β) (i : Nat) : Option (List β) :=
  if nul ∈ s.drop i then some ((s.drop i).takeWhile (· ≠ nul)) else none

/-- The new cells may hold anything. -/
def resize (junk : Nat → β) (s : List β) (n : Nat) : List β :=
  (List.range n).map fun i => s.getD i (junk i)

theorem read_of_lt {s : List β} {i : Nat} (hi : i < s.length) (b : β) :
    read s i = some (s.getD i b) := by
  unfold read
  rw [if_pos (Int.natCast_nonneg i), Int.toNat_natCast, List.getD_eq_getElem?_getD,
    List.getElem?_eq_getElem hi, Option.getD_some]

theorem write_of_lt {s : List β} {i : Nat} (hi : i < s.length) (b : β) :
    write s i b = some (s.set i b) := by
  unfold write
  rw [if_pos ⟨Int.natCast_nonneg i, Int.ofNat_lt.mpr hi⟩, Int.toNat_natCast]

theorem write_append (front : List β) (a b : β) (back : List β) :
    write (front ++ a :: back) front.length b = some (front ++ b :: back) := by
  have hi : front.length < (front ++ a :: back).length := by simp
  rw [write_of_lt hi, List.set_append_right _ _ (Nat.le_refl _), Nat.sub_self, List.set_cons_zero]

theorem text_of_mem [DecidableEq β] {nul : β} {s : List β} {i : Nat} (hmem : nul ∈ s.drop i) :
    text nul s i = some ((s.drop i).takeWhile (· ≠ nul)) := if_pos hmem

@[simp]
theorem length_resize (junk : Nat → β) (s : List β) (n : Nat) :
    (resize junk s n).length = n := by
  simp [resize]

theorem resize_of_le (junk : Nat → β) {s : List β} {n : Nat} (hn : s.length ≤ n) :
    ∃ new, resize junk s n = s ++ new := by
  have htake : (resize junk s n).take s.length = s := by
    apply List.ext_getElem
    · rw [List.length_take, length_resize, Nat.min_eq_left hn]
    · intro i hi hs
      simp [resize, hs]
  exact ⟨(resize junk s n).drop s.length, by
    conv_lhs => rw [← List.take_append_drop s.length (resize junk s n), htake]⟩

end Buffer

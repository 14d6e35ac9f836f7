import Mathlib.Data.List.Basic

/-!
# Escaping

Escaping puts a mark before every special letter. It is stated over any alphabet, so that every
reader of marked text can be compared with the same function.
-/

namespace Escape

universe u

variable {α : Type u} [DecidableEq α]

/-- One letter, with the mark before it when it is special. -/
def letter (mark : α) (special : List α) (a : α) : List α :=
  if a ∈ special then [mark, a] else [a]

def escape (mark : α) (special : List α) (s : List α) : List α :=
  s.flatMap (letter mark special)

variable {mark : α} {special : List α}

@[simp]
theorem escape_nil : escape mark special [] = [] := rfl

theorem escape_cons_of_mem {a : α} (ha : a ∈ special) (s : List α) :
    escape mark special (a :: s) = mark :: a :: escape mark special s := by
  rw [escape, List.flatMap_cons, letter, if_pos ha]
  rfl

theorem escape_cons_of_notMem {a : α} (ha : a ∉ special) (s : List α) :
    escape mark special (a :: s) = a :: escape mark special s := by
  rw [escape, List.flatMap_cons, letter, if_neg ha]
  rfl

theorem escape_append (s t : List α) :
    escape mark special (s ++ t) = escape mark special s ++ escape mark special t :=
  List.flatMap_append

theorem escape_of_disjoint {s : List α} (hs : ∀ a ∈ s, a ∉ special) :
    escape mark special s = s := by
  induction s with
  | nil => rfl
  | cons a s ih =>
      rw [escape_cons_of_notMem (hs a List.mem_cons_self),
        ih fun b hb => hs b (List.mem_cons_of_mem a hb)]

theorem mem_escape {s : List α} {a : α} (ha : a ∈ escape mark special s) :
    a = mark ∨ a ∈ s := by
  obtain ⟨b, hb, hletter⟩ := List.mem_flatMap.mp ha
  unfold letter at hletter
  split_ifs at hletter
  · rcases List.mem_cons.mp hletter with hmark | hmem
    · exact Or.inl hmark
    · exact Or.inr (List.mem_singleton.mp hmem ▸ hb)
  · exact Or.inr (List.mem_singleton.mp hletter ▸ hb)

end Escape

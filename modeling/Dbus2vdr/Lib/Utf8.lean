import Mathlib.Data.List.Basic
import Mathlib.Data.UInt

/-!
# UTF-8

A well-formed text is a sequence of encoded characters; a character is a Unicode scalar value, so
the standard encoding leaves out overlong forms, surrogates and everything above U+10FFFF. What a
scanner of bytes relies on is the shape of an encoding: a first byte that tells how many
continuation bytes follow, and these.
-/

namespace Utf8

def WellFormed (text : List UInt8) : Prop :=
  ∃ characters : List Char, text = characters.flatMap String.utf8EncodeChar

def Continuation (b : UInt8) : Prop := b &&& 0xc0 = 0x80

instance : DecidablePred Continuation := fun b => inferInstanceAs (Decidable (b &&& 0xc0 = 0x80))

theorem Continuation.ne_zero {b : UInt8} (h : Continuation b) : b ≠ 0 := by
  rintro rfl
  exact absurd h (by decide)

/-- How many continuation bytes follow a byte that begins a character. -/
def following (b : UInt8) : Option Nat :=
  if b &&& 0x80 = 0x00 then some 0
  else if b &&& 0xe0 = 0xc0 then some 1
  else if b &&& 0xf0 = 0xe0 then some 2
  else if b &&& 0xf8 = 0xf0 then some 3
  else none

/-! ### The shape of an encoding -/

theorem continuation_ofNat {n : Nat} (hn : n < 64) : Continuation (UInt8.ofNat (n + 0x80)) :=
  (by decide : ∀ n < 64, Continuation (UInt8.ofNat (n + 0x80))) n hn

theorem following_zero {n : Nat} (hn : n ≤ 0x7f) : following (UInt8.ofNat n) = some 0 :=
  (by decide : ∀ n < 128, following (UInt8.ofNat n) = some 0) n (by omega)

theorem following_one {n : Nat} (hn : n < 32) : following (UInt8.ofNat (n + 0xc0)) = some 1 :=
  (by decide : ∀ n < 32, following (UInt8.ofNat (n + 0xc0)) = some 1) n hn

theorem following_two {n : Nat} (hn : n < 16) : following (UInt8.ofNat (n + 0xe0)) = some 2 :=
  (by decide : ∀ n < 16, following (UInt8.ofNat (n + 0xe0)) = some 2) n hn

theorem following_three {n : Nat} (hn : n < 8) : following (UInt8.ofNat (n + 0xf0)) = some 3 :=
  (by decide : ∀ n < 8, following (UInt8.ofNat (n + 0xf0)) = some 3) n hn

theorem utf8EncodeChar_shape (c : Char) :
    ∃ first rest, String.utf8EncodeChar c = first :: rest ∧
    following first = some rest.length ∧
      ∀ b ∈ rest, Continuation b := by
  have hlow : ∀ n, Continuation (UInt8.ofNat (n % 0x40 + 0x80)) := fun n =>
    continuation_ofNat (Nat.mod_lt n (by decide))
  unfold String.utf8EncodeChar
  dsimp only
  split
  · next hone => exact ⟨_, [], rfl, following_zero hone, by simp⟩
  · split
    · refine ⟨_, _, rfl, following_one (Nat.mod_lt _ (by decide)), ?_⟩
      simp only [List.mem_singleton, forall_eq]
      exact hlow _
    · split
      · refine ⟨_, _, rfl, following_two (Nat.mod_lt _ (by decide)), ?_⟩
        simp only [List.mem_cons, List.not_mem_nil, or_false, forall_eq_or_imp, forall_eq]
        exact ⟨hlow _, hlow _⟩
      · refine ⟨_, _, rfl, following_three (Nat.mod_lt _ (by decide)), ?_⟩
        simp only [List.mem_cons, List.not_mem_nil, or_false, forall_eq_or_imp, forall_eq]
        exact ⟨hlow _, hlow _, hlow _⟩

/-- Every byte of a well-formed text begins a character or continues one. -/
theorem WellFormed.byte {text : List UInt8} (h : WellFormed text) {b : UInt8} (hb : b ∈ text) :
    Continuation b ∨ following b ≠ none := by
  obtain ⟨characters, rfl⟩ := h
  obtain ⟨c, -, hc⟩ := List.mem_flatMap.mp hb
  obtain ⟨first, rest, hencode, hfollowing, hrest⟩ := utf8EncodeChar_shape c
  rw [hencode] at hc
  cases List.mem_cons.mp hc with
  | inl hfirst =>
      rw [hfirst, hfollowing]
      exact .inr (Option.some_ne_none _)
  | inr hmem => exact .inl (hrest b hmem)

end Utf8

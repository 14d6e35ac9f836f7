import Mathlib.Data.List.Nodup
import Mathlib.Data.List.Perm.Basic
import Mathlib.Order.Nat

/-!
# Work cut into batches

A stream of items, numbered as they come, is cut into batches, and each batch is worked off from its
front while others are. `Cut` is what any interleaving of that keeps: the first `n` items are in a
batch or done, each once, and inside a batch they are in order. From it follows that an item can
only be overtaken by one of another batch, and that the items below some number are all done exactly
when no batch has one of them left.
-/

namespace Batches

universe u

section Items

variable {α : Type u}

theorem perm_take (batches : List (List α)) {i : Nat} {x : α} {rest : List α}
    (hbatch : batches[i]? = some (x :: rest)) :
    batches.flatten.Perm (x :: (batches.set i rest).flatten) := by
  induction batches generalizing i with
  | nil => cases hbatch
  | cons batch batches ih =>
      cases i with
      | zero =>
          rw [List.getElem?_cons_zero, Option.some.injEq] at hbatch
          rw [hbatch, List.set_cons_zero, List.flatten_cons, List.flatten_cons, List.cons_append]
      | succ i =>
          rw [List.getElem?_cons_succ] at hbatch
          rw [List.set_cons_succ, List.flatten_cons, List.flatten_cons]
          exact ((ih hbatch).append_left batch).trans List.perm_middle

theorem flatten_eraseIdx (batches : List (List α)) {i : Nat} (hbatch : batches[i]? = some []) :
    (batches.eraseIdx i).flatten = batches.flatten := by
  induction batches generalizing i with
  | nil => cases hbatch
  | cons batch batches ih =>
      cases i with
      | zero =>
          rw [List.getElem?_cons_zero, Option.some.injEq] at hbatch
          rw [hbatch, List.eraseIdx_cons_zero, List.flatten_cons, List.nil_append]
      | succ i =>
          rw [List.getElem?_cons_succ] at hbatch
          rw [List.eraseIdx_cons_succ, List.flatten_cons, List.flatten_cons, ih hbatch]

/-- `x` and `y` wait in two different batches. -/
def Apart (batches : List (List α)) (x y : α) : Prop :=
  ∃ i j : Fin batches.length, i ≠ j ∧ x ∈ batches.get i ∧ y ∈ batches.get j

instance decidableApart [DecidableEq α] (batches : List (List α)) (x y : α) :
    Decidable (Apart batches x y) :=
  inferInstanceAs
    (Decidable (∃ i j : Fin batches.length, i ≠ j ∧ x ∈ batches.get i ∧
      y ∈ batches.get j))

theorem apart_of_mem {batches : List (List α)} {x y : α} {j : Nat} {batch : List α}
    (hx : x ∈ batches.flatten) (hbatch : batches[j]? = some batch) (hy : y ∈ batch)
    (hnot : x ∉ batch) : Apart batches x y := by
  obtain ⟨other, hother, hmem⟩ := List.mem_flatten.mp hx
  obtain ⟨i, rfl⟩ := List.get_of_mem hother
  obtain ⟨hj, rfl⟩ := List.getElem?_eq_some_iff.mp hbatch
  refine ⟨i, ⟨j, hj⟩, ?_, hmem, hy⟩
  rintro rfl
  exact hnot hmem

end Items

/-- The items below `n` are in one of the batches or done, and every batch is in order. -/
structure Cut (batches : List (List Nat)) (done : List Nat) (n : Nat) : Prop where
  conserved : (batches.flatten ++ done).Perm (List.range n)
  increasing : ∀ batch ∈ batches, batch.Pairwise (· < ·)

namespace Cut

variable {batches : List (List Nat)} {done : List Nat} {n : Nat}

theorem nil : Cut [] [] 0 := ⟨.refl [], by simp⟩

/-! ### What happens to batches -/

theorem add (h : Cut batches done n) (k : Nat) : Cut (List.range' n k :: batches) done (n + k) := by
  constructor
  · calc (List.range' n k :: batches).flatten ++ done
        = List.range' n k ++ (batches.flatten ++ done) := by simp
      List.Perm _ (List.range' n k ++ List.range n) := h.conserved.append_left _
      List.Perm _ (List.range n ++ List.range' n k) := List.perm_append_comm
      _ = List.range (n + k) := by
        rw [List.range_eq_range', List.range_eq_range', ← List.range'_append_1, Nat.zero_add]
  · intro batch hbatch
    rcases List.mem_cons.mp hbatch with rfl | hmem
    · exact List.pairwise_lt_range'
    · exact h.increasing batch hmem

theorem perm (h : Cut batches done n) {batches' : List (List Nat)} (hperm : batches'.Perm batches) :
    Cut batches' done n :=
  ⟨(hperm.flatten.append_right done).trans h.conserved,
    fun batch hbatch => h.increasing batch (hperm.mem_iff.mp hbatch)⟩

theorem turn (h : Cut batches done n) {i x : Nat} {rest : List Nat}
    (hbatch : batches[i]? = some (x :: rest)) : Cut (batches.set i rest) (done ++ [x]) n := by
  constructor
  · calc (batches.set i rest).flatten ++ (done ++ [x])
        = ((batches.set i rest).flatten ++ done) ++ [x] := (List.append_assoc ..).symm
      List.Perm _ ([x] ++ ((batches.set i rest).flatten ++ done)) := List.perm_append_comm
      List.Perm _ (batches.flatten ++ done) := (perm_take batches hbatch).symm.append_right done
      List.Perm _ (List.range n) := h.conserved
  · intro batch hmem
    rcases List.mem_or_eq_of_mem_set hmem with hmem | rfl
    · exact h.increasing batch hmem
    · exact (h.increasing _ (List.mem_of_getElem? hbatch)).of_cons

theorem drop (h : Cut batches done n) {i : Nat} (hbatch : batches[i]? = some []) :
    Cut (batches.eraseIdx i) done n := by
  refine ⟨?_, fun batch hmem => h.increasing batch (List.mem_of_mem_eraseIdx hmem)⟩
  rw [flatten_eraseIdx batches hbatch]
  exact h.conserved

/-! ### What follows for the items -/

theorem mem_iff (h : Cut batches done n) {x : Nat} :
    x ∈ batches.flatten ∨ x ∈ done ↔ x < n := by
  rw [← List.mem_append, h.conserved.mem_iff, List.mem_range]

theorem nodup (h : Cut batches done n) : (batches.flatten ++ done).Nodup :=
  h.conserved.nodup_iff.mpr List.nodup_range

theorem done_nodup (h : Cut batches done n) : done.Nodup := (List.nodup_append.mp h.nodup).2.1

/-- When an item's turn has come, all items before it are done or wait in other batches. -/
theorem done_or_apart (h : Cut batches done n) {i x y : Nat} {rest : List Nat}
    (hbatch : batches[i]? = some (y :: rest)) (hlt : x < y) : x ∈ done ∨ Apart batches x y := by
  have hy : y ∈ batches.flatten :=
    List.mem_flatten.mpr ⟨_, List.mem_of_getElem? hbatch, List.mem_cons_self⟩
  have hyn : y < n := h.mem_iff.mp (Or.inl hy)
  rcases h.mem_iff.mpr (hlt.trans hyn) with hx | hx
  · refine Or.inr (apart_of_mem hx hbatch List.mem_cons_self fun hin => ?_)
    -- inside its own batch nothing smaller stands behind `y`
    have hsorted := List.pairwise_cons.mp (h.increasing _ (List.mem_of_getElem? hbatch))
    rcases List.mem_cons.mp hin with rfl | hin
    · exact lt_irrefl x hlt
    · exact lt_asymm hlt (hsorted.1 x hin)
  · exact Or.inl hx

/-- The items below `k` are done exactly if none of them is left in a batch. -/
theorem all_done_iff (h : Cut batches done n) {k : Nat} (hk : k ≤ n) :
    (∀ x < k, x ∈ done) ↔ ∀ batch ∈ batches, ∀ x ∈ batch, k ≤ x := by
  constructor
  · intro hdone batch hbatch x hx
    by_contra hearly
    have hwaits : x ∈ batches.flatten := List.mem_flatten.mpr ⟨batch, hbatch, hx⟩
    exact (List.nodup_append.mp h.nodup).2.2 x hwaits x (hdone x (Nat.not_le.mp hearly)) rfl
  · intro hlate x hx
    rcases h.mem_iff.mpr (hx.trans_le hk) with hwaits | hdone
    · obtain ⟨batch, hbatch, hmem⟩ := List.mem_flatten.mp hwaits
      exact absurd (hlate batch hbatch x hmem) (Nat.not_le.mpr hx)
    · exact hdone

end Cut

end Batches

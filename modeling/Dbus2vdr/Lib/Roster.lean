import Mathlib.Data.List.Nodup

/-!
# Tables that follow notices

Notices say of keys that they have come or gone. A table follows them when each key is in it at most
once, and is in it exactly when the last notice about it said that it had come. The table itself
only knows how to append an entry and how to remove the first one of a key, so a key that comes
twice is in it twice.

A history has its newest notice first.
-/

namespace Roster

universe u v

variable {α : Type u} {κ : Type v} [DecidableEq κ]

inductive Notice (κ : Type v) where
  | came (k : κ)
  | gone (k : κ)
  deriving DecidableEq, Repr

def Notice.key : Notice κ → κ
  | .came k | .gone k => k

/-- The last notice about `k` said that it had come. -/
def present (history : List (Notice κ)) (k : κ) : Bool :=
  match history.find? fun n => n.key = k with
  | some (.came _) => true
  | _ => false

@[simp]
theorem present_nil (k : κ) : present ([] : List (Notice κ)) k = false := rfl

@[simp]
theorem present_came (history : List (Notice κ)) (k k' : κ) :
    present (.came k :: history) k' = (decide (k = k') || present history k') := by
  by_cases hkey : k = k'
  · simp [present, Notice.key, hkey]
  · simp [present, Notice.key, hkey]

@[simp]
theorem present_gone (history : List (Notice κ)) (k k' : κ) :
    present (.gone k :: history) k' = (!decide (k = k') && present history k') := by
  by_cases hkey : k = k'
  · simp [present, Notice.key, hkey]
  · simp [present, Notice.key, hkey]

variable (key : α → κ)

def removeFirst (k : κ) (table : List α) : List α :=
  table.eraseP fun a => key a = k

theorem map_removeFirst (k : κ) (table : List α) :
    (removeFirst key k table).map key = (table.map key).erase k := by
  induction table with
  | nil => rfl
  | cons a table ih =>
      by_cases hkey : key a = k
      · simp [removeFirst, hkey]
      · rw [removeFirst, List.eraseP_cons_of_neg (by simpa using hkey), List.map_cons,
          List.map_cons, List.erase_cons_tail (by simpa using hkey)]
        exact congrArg _ ih

theorem removeFirst_of_notMem {k : κ} {table : List α} (hk : k ∉ table.map key) :
    removeFirst key k table = table := by
  apply List.eraseP_of_forall_not
  intro a ha hkey
  exact hk (List.mem_map.mpr ⟨a, ha, of_decide_eq_true hkey⟩)

structure Follows (table : List α) (history : List (Notice κ)) : Prop where
  nodup : (table.map key).Nodup
  mem_iff : ∀ k, k ∈ table.map key ↔ present history k

theorem follows_nil : Follows key [] ([] : List (Notice κ)) := ⟨List.nodup_nil, by simp⟩

variable {key} {table : List α} {history : List (Notice κ)}

theorem Follows.came_iff (h : Follows key table history) (a : α) :
    Follows key (table ++ [a]) (.came (key a) :: history) ↔ key a ∉ table.map key := by
  constructor
  · intro hnew hmem
    have hnodup := hnew.nodup
    rw [List.map_append, List.nodup_append] at hnodup
    exact hnodup.2.2 (key a) hmem (key a) (by simp) rfl
  · intro hfresh
    constructor
    · rw [List.map_append, List.nodup_append]
      refine ⟨h.nodup, List.nodup_singleton _, ?_⟩
      intro k hk k' hk' heq
      rw [List.map_singleton, List.mem_singleton] at hk'
      exact hfresh (hk' ▸ heq ▸ hk)
    · intro k
      rw [List.map_append, List.mem_append, h.mem_iff k, present_came, Bool.or_eq_true,
        decide_eq_true_eq, List.map_singleton, List.mem_singleton, or_comm, eq_comm]

theorem Follows.gone (h : Follows key table history) (k : κ) :
    Follows key (removeFirst key k table) (.gone k :: history) := by
  constructor
  · rw [map_removeFirst]
    exact h.nodup.erase k
  · intro k'
    rw [map_removeFirst, h.nodup.mem_erase_iff, h.mem_iff k', present_gone, Bool.and_eq_true,
      Bool.not_eq_true', decide_eq_false_iff_not, ne_comm]

/-- An entry is removed behind the back of the notices. -/
theorem Follows.dropped_iff (h : Follows key table history) (k : κ) :
    Follows key (removeFirst key k table) history ↔ k ∉ table.map key := by
  constructor
  · intro hnew hmem
    have hstill := (hnew.mem_iff k).mpr ((h.mem_iff k).mp hmem)
    rw [map_removeFirst, h.nodup.mem_erase_iff] at hstill
    exact hstill.1 rfl
  · intro hmem
    rw [removeFirst_of_notMem key hmem]
    exact h

end Roster

import Mathlib.Data.List.Basic

/-!
# Handlers that answer

What a handler does with a call is a list of acts: it replies, it does something that is no reply,
or it crashes, and then there is nothing more it can do. `Once P` says that the call gets one reply,
which meets `P`, from a handler that survives.

A handler is chosen from a table by its name; a call that no entry is for gets the reply of the
table.
-/

namespace Answer

universe u v w x

inductive Act (ρ : Type u) (κ : Type v) where
  | reply (r : ρ)
  | did (c : κ)
  | crash

variable {ρ : Type u} {κ : Type v}

def Act.reply? : Act ρ κ → Option ρ
  | .reply r => some r
  | _ => none

def replies (acts : List (Act ρ κ)) : List ρ := acts.filterMap Act.reply?

def Once (P : ρ → Prop) (acts : List (Act ρ κ)) : Prop :=
  .crash ∉ acts ∧ ∃ r, replies acts = [r] ∧ P r

/-- `table` is searched from its first entry on. -/
def dispatch {μ : Type w} {η : Type x} [DecidableEq μ] (table : List (μ × η)) (otherwise : η)
    (name : μ) : η :=
  match table.find? fun entry => entry.1 = name with
  | some entry => entry.2
  | none => otherwise

variable {P : ρ → Prop} {acts : List (Act ρ κ)}

@[simp]
theorem replies_reply (r : ρ) : replies [(.reply r : Act ρ κ)] = [r] := rfl

@[simp]
theorem replies_did_cons (c : κ) : replies (.did c :: acts) = replies acts := rfl

@[simp]
theorem replies_did_append (calls : List κ) : replies (calls.map .did ++ acts) = replies acts := by
  simp [replies, Act.reply?, Function.comp_def]

@[simp]
theorem once_reply {r : ρ} : Once P [(.reply r : Act ρ κ)] ↔ P r := by
  simp [Once, replies, Act.reply?]

@[simp]
theorem not_once_crash : ¬ Once P [(.crash : Act ρ κ)] := by simp [Once]

@[simp]
theorem once_did_append (calls : List κ) : Once P (calls.map .did ++ acts) ↔ Once P acts := by
  simp [Once, replies, Act.reply?, Function.comp_def]

@[simp]
theorem once_append_did (calls : List κ) : Once P (acts ++ calls.map .did) ↔ Once P acts := by
  simp [Once, replies, Act.reply?, Function.comp_def]

@[simp]
theorem once_did_cons {c : κ} : Once P (.did c :: acts) ↔ Once P acts :=
  once_did_append [c]

section Dispatch

variable {μ : Type w} {η : Type x} [DecidableEq μ] {table : List (μ × η)} {otherwise : η}
    {name : μ}

theorem dispatch_of_notMem (hname : name ∉ table.map (·.1)) :
    dispatch table otherwise name = otherwise := by
  have hnone : table.find? (fun entry => decide (entry.1 = name)) = none := by
    rw [List.find?_eq_none]
    intro entry hentry hequal
    exact hname (List.mem_map.mpr ⟨entry, hentry, of_decide_eq_true hequal⟩)
  rw [dispatch, hnone]

/-- Where every entry answers and the table does, every call is answered. -/
theorem dispatch_induction {Q : η → Prop}
    (hentries : ∀ entry ∈ table, entry.1 = name → Q entry.2)
    (hotherwise : name ∉ table.map (·.1) → Q otherwise) :
    Q (dispatch table otherwise name) := by
  by_cases hname : name ∈ table.map (·.1)
  · unfold dispatch
    cases hfind : table.find? fun entry => decide (entry.1 = name) with
    | some entry =>
        exact hentries entry (List.mem_of_find?_eq_some hfind)
          (of_decide_eq_true (List.find?_some (p := fun e : μ × η => decide (e.1 = name)) hfind))
    | none =>
        obtain ⟨entry, hentry, hequal⟩ := List.mem_map.mp hname
        exact absurd (decide_eq_true hequal) (List.find?_eq_none.mp hfind entry hentry)
  · rw [dispatch_of_notMem hname]
    exact hotherwise hname

end Dispatch

end Answer

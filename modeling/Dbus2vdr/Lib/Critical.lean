import Dbus2vdr.Lib.Machine
import Mathlib.Algebra.GroupWithZero.Nat
import Mathlib.Data.List.Perm.Basic

/-!
# Critical sections

Calls that share some state and take a mutex before they touch it. The steps of a call within its
section are steps of their own, so a call may be interrupted between any two of them; still, what
all of them leave behind, and what each of them has found, is as if they had been made one after the
other (`serial_of_run`). A property that holds along each section alone holds all the time
(`invariant_of_run`), and no call waits for ever (`inevitably_left`).
-/

namespace Critical

open Machine

universe u v w

/-- Calls of kind `κ`, on a shared `σ`, with variables `ρ` of their own. -/
structure Sections (κ : Type u) (σ : Type v) (ρ : Type w) where
  start : κ → ρ
  body : κ → List (σ → ρ → σ × ρ)

inductive Place (σ : Type v) (ρ : Type w) where
  | waiting
  | inside (rest : List (σ → ρ → σ × ρ)) (own : ρ)
  | left (own : ρ)

structure State (κ : Type u) (σ : Type v) (ρ : Type w) where
  shared : σ
  holder : Option Nat := none
  calls : List (κ × Place σ ρ) := []
  /-- The calls that have left, in the order of their sections. -/
  order : List (κ × ρ) := []

inductive Event (κ : Type u) where
  | call (k : κ)
  | turn (i : Nat)

variable {κ : Type u} {σ : Type v} {ρ : Type w}

def Event.IsTurn : Event κ → Prop
  | .call _ => False
  | .turn _ => True

namespace Place

def IsInside : Place σ ρ → Prop
  | inside _ _ => True
  | _ => False

def result : Place σ ρ → Option ρ
  | left own => some own
  | _ => none

end Place

def perform (steps : List (σ → ρ → σ × ρ)) (p : σ × ρ) : σ × ρ :=
  steps.foldl (fun p f => f p.1 p.2) p

namespace Sections

variable (c : Sections κ σ ρ)

def step (s : State κ σ ρ) : Event κ → Option (State κ σ ρ)
  | .call k => some { s with calls := s.calls ++ [(k, .waiting)] }
  | .turn i =>
      match s.calls[i]? with
      | some (k, .waiting) =>
          if s.holder = none then
            some { s with
              holder := some i
              calls := s.calls.set i (k, .inside (c.body k) (c.start k)) }
          else none
      | some (k, .inside (f :: rest) own) =>
          some { s with
            shared := (f s.shared own).1
            calls := s.calls.set i (k, .inside rest (f s.shared own).2) }
      | some (k, .inside [] own) =>
          some { s with
            holder := none
            calls := s.calls.set i (k, .left own)
            order := s.order ++ [(k, own)] }
      | _ => none

/-- A whole section, out of `x`. -/
def whole (x : σ) (k : κ) : σ × ρ := perform (c.body k) (x, c.start k)

/-- What is shared when the sections of `ks` have been run in turn. -/
def shared (x : σ) (ks : List κ) : σ := ks.foldl (fun x k => (c.whole x k).1) x

/-- The same, with what each of them has in its own variables at its end. -/
def results : σ → List κ → List (κ × ρ)
  | _, [] => []
  | x, k :: ks => (k, (c.whole x k).2) :: results (c.whole x k).1 ks

end Sections

@[simp]
theorem perform_nil (p : σ × ρ) : perform [] p = p := rfl

theorem perform_concat (steps : List (σ → ρ → σ × ρ)) (f : σ → ρ → σ × ρ)
    (p : σ × ρ) :
    perform (steps ++ [f]) p = f (perform steps p).1 (perform steps p).2 := by
  rw [perform, List.foldl_append]
  rfl

theorem exists_split {α : Type u} {l : List α} {i : Nat} {a : α} (h : l[i]? = some a) :
    ∃ front back, l = front ++ a :: back ∧ front.length = i := by
  obtain ⟨hlt, rfl⟩ := List.getElem?_eq_some_iff.mp h
  refine ⟨l.take i, l.drop (i + 1), ?_, List.length_take_of_le (Nat.le_of_lt hlt)⟩
  rw [List.getElem_cons_drop, List.take_append_drop]

theorem set_split {α : Type u} (front : List α) (a b : α) (back : List α) :
    (front ++ a :: back).set front.length b = front ++ b :: back := by
  rw [List.set_append_right _ _ (Nat.le_refl _), Nat.sub_self, List.set_cons_zero]

theorem getElem?_concat_cases {α : Type u} {l : List α} {a b : α} {i : Nat}
    (h : (l ++ [a])[i]? = some b) : l[i]? = some b ∨ b = a := by
  rcases Nat.lt_or_ge i l.length with hlt | hge
  · exact .inl ((List.getElem?_append_left hlt).symm.trans h)
  · rw [List.getElem?_append_right hge, List.getElem?_singleton] at h
    split at h
    · exact .inr (Option.some.inj h).symm
    · cases h

theorem getElem?_set_cases {α : Type u} {l : List α} {a b : α} {i j : Nat}
    (h : (l.set i a)[j]? = some b) : (j = i ∧ b = a) ∨ (j ≠ i ∧ l[j]? = some b) := by
  rw [List.getElem?_set] at h
  split_ifs at h with hij hlt
  · exact .inl ⟨hij.symm, (Option.some.inj h).symm⟩
  · exact .inr ⟨fun heq => hij heq.symm, h⟩

namespace Sections

variable {c : Sections κ σ ρ} {s s' : State κ σ ρ} {x : σ}

theorem results_concat (x : σ) (ks : List κ) (k : κ) :
    c.results x (ks ++ [k]) = c.results x ks ++ [(k, (c.whole (c.shared x ks) k).2)] := by
  induction ks generalizing x with
  | nil => rfl
  | cons k' ks ih => exact congrArg ((k', (c.whole x k').2) :: ·) (ih _)

theorem shared_concat (x : σ) (ks : List κ) (k : κ) :
    c.shared x (ks ++ [k]) = (c.whole (c.shared x ks) k).1 := by
  rw [shared, List.foldl_append]
  rfl

theorem results_split {ks : List κ} {front back : List (κ × ρ)} {k : κ} {own : ρ}
    (h : c.results x ks = front ++ (k, own) :: back) :
    own = (c.whole (c.shared x (front.map Prod.fst)) k).2 := by
  induction ks generalizing x front with
  | nil => exact absurd h (by simp [Sections.results])
  | cons k' ks ih =>
      cases front with
      | nil =>
          obtain ⟨hhead, -⟩ := List.cons.inj h
          obtain ⟨rfl, rfl⟩ := Prod.mk.inj hhead
          rfl
      | cons p front =>
          obtain ⟨rfl, htail⟩ := List.cons.inj h
          have hown := ih htail
          exact hown

/-- What the calls that have left have found. -/
def found (calls : List (κ × Place σ ρ)) : List (κ × ρ) :=
  calls.filterMap fun p => p.2.result.map (p.1, ·)

theorem found_append (calls calls' : List (κ × Place σ ρ)) :
    found (calls ++ calls') = found calls ++ found calls' := List.filterMap_append ..

/-- The calls so far have been made one after the other, as far as anyone can tell. -/
structure Serial (c : Sections κ σ ρ) (x : σ) (s : State κ σ ρ) : Prop where
  order : s.order = c.results x (s.order.map Prod.fst)
  found : (found s.calls).Perm s.order
  outside : ∀ i k place, s.calls[i]? = some (k, place) → place.IsInside → s.holder = some i
  free : s.holder = none → s.shared = c.shared x (s.order.map Prod.fst)
  inside : ∀ i, s.holder = some i → ∃ k done rest own,
    s.calls[i]? = some (k, .inside rest own) ∧ c.body k = done ++ rest ∧
      (s.shared, own) = perform done (c.shared x (s.order.map Prod.fst), c.start k)

theorem serial_initial (c : Sections κ σ ρ) (x : σ) : c.Serial x { shared := x } where
  order := rfl
  found := .nil
  outside i k place hcall := by simp at hcall
  free _ := rfl
  inside i hholder := by cases hholder

theorem Serial.call (h : c.Serial x s) (k : κ) :
    c.Serial x { s with calls := s.calls ++ [(k, .waiting)] } where
  order := h.order
  found := by
    rw [found_append]
    exact (List.append_nil _).symm ▸ h.found
  outside i k' place hcall hinside := by
    rcases getElem?_concat_cases hcall with hold | hnew
    · exact h.outside i k' place hold hinside
    · obtain ⟨-, rfl⟩ := Prod.mk.inj hnew
      exact False.elim hinside
  free := h.free
  inside i hholder := by
    obtain ⟨k', done, rest, own, hcall, hbody, hshared⟩ := h.inside i hholder
    have hlt := (List.getElem?_eq_some_iff.mp hcall).1
    exact ⟨k', done, rest, own, (List.getElem?_append_left hlt).trans hcall, hbody, hshared⟩

theorem found_set {calls : List (κ × Place σ ρ)} {i : Nat} {k : κ} {place place' : Place σ ρ}
    (hcall : calls[i]? = some (k, place)) (hresult : place.result = none) :
    (found (calls.set i (k, place'))).Perm
      (found calls ++ (place'.result.map (k, ·)).toList) := by
  obtain ⟨front, back, rfl, rfl⟩ := exists_split hcall
  have hmid : ∀ p : Place σ ρ,
      found [(k, p)] = (p.result.map (k, ·)).toList := fun p => by cases p <;> rfl
  have hcons : ∀ (p : Place σ ρ) (l : List (κ × Place σ ρ)), (k, p) :: l = [(k, p)] ++ l :=
    fun p l => rfl
  rw [set_split, hcons, hcons place, found_append, found_append, found_append, found_append, hmid,
    hmid, hresult, List.append_assoc]
  exact List.perm_append_comm.append_left _

theorem Serial.enter (h : c.Serial x s) {i : Nat} {k : κ}
    (hcall : s.calls[i]? = some (k, .waiting)) (hfree : s.holder = none) :
    c.Serial x { s with
      holder := some i
      calls := s.calls.set i (k, .inside (c.body k) (c.start k)) } where
  order := h.order
  found := by
    refine (found_set hcall rfl).trans ?_
    exact (List.append_nil _).symm ▸ h.found
  outside j k' place hcall' hinside := by
    rcases getElem?_set_cases hcall' with ⟨rfl, -⟩ | ⟨-, hold⟩
    · rfl
    · exact absurd (hfree.symm.trans (h.outside j k' place hold hinside)) (by simp)
  free hnone := by cases hnone
  inside j hj := by
    cases hj
    refine ⟨k, [], c.body k, c.start k, ?_, rfl, by rw [h.free hfree]; rfl⟩
    exact List.getElem?_set_self (List.getElem?_eq_some_iff.mp hcall).1

theorem Serial.within (h : c.Serial x s) {i : Nat} {k : κ} {rest : List (σ → ρ → σ × ρ)}
    {own : ρ} (hcall : s.calls[i]? = some (k, .inside rest own)) :
    s.holder = some i ∧ ∃ done, c.body k = done ++ rest ∧
      (s.shared, own) = perform done (c.shared x (s.order.map Prod.fst), c.start k) := by
  have hholder := h.outside i k _ hcall trivial
  obtain ⟨k', done, rest', own', hcall', hbody, hshared⟩ := h.inside i hholder
  rw [hcall, Option.some.injEq, Prod.mk.injEq, Place.inside.injEq] at hcall'
  obtain ⟨rfl, rfl, rfl⟩ := hcall'
  exact ⟨hholder, done, hbody, hshared⟩

theorem Serial.go (h : c.Serial x s) {i : Nat} {k : κ} {f : σ → ρ → σ × ρ}
    {rest : List (σ → ρ → σ × ρ)} {own : ρ}
    (hcall : s.calls[i]? = some (k, .inside (f :: rest) own)) :
    c.Serial x { s with
      shared := (f s.shared own).1
      calls := s.calls.set i (k, .inside rest (f s.shared own).2) } := by
  obtain ⟨hholder, done, hbody, hshared⟩ := h.within hcall
  refine ⟨h.order, ?_, ?_, ?_, ?_⟩
  · refine (found_set hcall rfl).trans ?_
    exact (List.append_nil _).symm ▸ h.found
  · intro j k' place hcall' hinside
    rcases getElem?_set_cases hcall' with ⟨rfl, -⟩ | ⟨-, hold⟩
    · exact hholder
    · exact h.outside j k' place hold hinside
  · intro hnone
    exact absurd (hholder.symm.trans hnone) (by simp)
  · intro j hj
    obtain rfl : i = j := Option.some.inj (hholder.symm.trans hj)
    refine ⟨k, done ++ [f], rest, (f s.shared own).2, ?_, ?_, ?_⟩
    · exact List.getElem?_set_self (List.getElem?_eq_some_iff.mp hcall).1
    · rw [hbody, List.append_assoc]
      rfl
    · rw [perform_concat, ← hshared]

theorem Serial.leave (h : c.Serial x s) {i : Nat} {k : κ} {own : ρ}
    (hcall : s.calls[i]? = some (k, .inside [] own)) :
    c.Serial x { s with
      holder := none
      calls := s.calls.set i (k, .left own)
      order := s.order ++ [(k, own)] } := by
  obtain ⟨hholder, done, hbody, hshared⟩ := h.within hcall
  rw [List.append_nil] at hbody
  have hwhole : (s.shared, own) = c.whole (c.shared x (s.order.map Prod.fst)) k := by
    rw [hshared, ← hbody]
    rfl
  refine ⟨?_, ?_, ?_, ?_, ?_⟩
  · rw [List.map_append, List.map_singleton, results_concat, ← hwhole, ← h.order]
  · exact (found_set hcall rfl).trans (h.found.append_right _)
  · intro j k' place hcall' hinside
    rcases getElem?_set_cases hcall' with ⟨-, hnew⟩ | ⟨hne, hold⟩
    · obtain ⟨-, rfl⟩ := Prod.mk.inj hnew
      exact False.elim hinside
    · have hj := h.outside j k' place hold hinside
      exact absurd (Option.some.inj (hj.symm.trans hholder)) hne
  · intro _
    rw [List.map_append, List.map_singleton, shared_concat, ← hwhole]
  · intro j hj
    cases hj

theorem Serial.step (h : c.Serial x s) {e : Event κ} (hstep : c.step s e = some s') :
    c.Serial x s' := by
  cases e with
  | call k =>
      obtain rfl := Option.some.inj hstep
      exact h.call k
  | turn i =>
      unfold Sections.step at hstep
      dsimp only at hstep
      split at hstep
      · next k hcall =>
          split_ifs at hstep with hfree
          obtain rfl := Option.some.inj hstep
          exact h.enter hcall hfree
      · next k f rest own hcall =>
          obtain rfl := Option.some.inj hstep
          exact h.go hcall
      · next k own hcall =>
          obtain rfl := Option.some.inj hstep
          exact h.leave hcall
      · cases hstep

/-- **One after the other.** -/
theorem serial_of_run {es : List (Event κ)} (hrun : run c.step { shared := x } es = some s) :
    c.Serial x s :=
  run_invariant (fun _ _ _ h hstep => h.step hstep) hrun (serial_initial c x)

/-! ### Properties of what is shared -/

theorem shared_keeps {I : σ → Prop} (hwhole : ∀ k x, I x → I (c.whole x k).1) (hx : I x)
    (ks : List κ) : I (c.shared x ks) := by
  induction ks generalizing x with
  | nil => exact hx
  | cons k ks ih => exact ih (hwhole k x hx)

/-- `Q` holds before the steps, after them and between any two of them. -/
def Through (Q : σ → Prop) : List (σ → ρ → σ × ρ) → σ × ρ → Prop
  | [], p => Q p.1
  | f :: rest, p => Q p.1 ∧ Through Q rest (f p.1 p.2)

theorem Through.perform {Q : σ → Prop} {done rest : List (σ → ρ → σ × ρ)} {p : σ × ρ}
    (h : Through Q (done ++ rest) p) : Q (perform done p).1 := by
  induction done generalizing p with
  | nil =>
      cases rest with
      | nil => exact h
      | cons f rest => exact h.1
  | cons f done ih => exact ih h.2

/-- **Sections alone.** When every section, run alone, leads from `I` to `I` through states with
`Q`, then `Q` holds all the time, and `I` whenever the mutex is free. -/
theorem invariant_of_run {I Q : σ → Prop} (hwhole : ∀ k x, I x → I (c.whole x k).1)
    (hfree : ∀ x, I x → Q x) (hthrough : ∀ k x, I x → Through Q (c.body k) (x, c.start k))
    {es : List (Event κ)} (hrun : run c.step { shared := x } es = some s) (hx : I x) :
    Q s.shared ∧ (s.holder = none → I s.shared) := by
  have h := serial_of_run hrun
  have hbase : I (c.shared x (s.order.map Prod.fst)) := shared_keeps hwhole hx _
  cases hholder : s.holder with
  | none =>
      rw [h.free hholder]
      exact ⟨hfree _ hbase, fun _ => hbase⟩
  | some i =>
      obtain ⟨k, done, rest, own, -, hbody, hshared⟩ := h.inside i hholder
      have hQ := (hbody ▸ hthrough k _ hbase).perform
      rw [← hshared] at hQ
      exact ⟨hQ, fun hnone => by cases hnone⟩

/-! ### Everybody gets through -/

/-- How many turns a call has left. -/
def toGo (c : Sections κ σ ρ) : κ × Place σ ρ → Nat
  | (k, .waiting) => (c.body k).length + 2
  | (_, .inside rest _) => rest.length + 1
  | (_, .left _) => 0

theorem sum_toGo_set {calls : List (κ × Place σ ρ)} {i : Nat} {p p' : κ × Place σ ρ}
    (hcall : calls[i]? = some p) (hless : c.toGo p' < c.toGo p) :
    ((calls.set i p').map c.toGo).sum < (calls.map c.toGo).sum := by
  obtain ⟨front, back, rfl, rfl⟩ := exists_split hcall
  rw [set_split, List.map_append, List.map_append, List.sum_append, List.sum_append, List.map_cons,
    List.map_cons, List.sum_cons, List.sum_cons]
  omega

theorem turn_less {i : Nat} (hstep : c.step s (.turn i) = some s') :
    (s'.calls.map c.toGo).sum < (s.calls.map c.toGo).sum := by
  unfold Sections.step at hstep
  dsimp only at hstep
  split at hstep
  · next k hcall =>
      split_ifs at hstep with hfree
      obtain rfl := Option.some.inj hstep
      exact sum_toGo_set hcall (by simp [toGo])
  · next k f rest own hcall =>
      obtain rfl := Option.some.inj hstep
      exact sum_toGo_set hcall (by simp [toGo])
  · next k own hcall =>
      obtain rfl := Option.some.inj hstep
      exact sum_toGo_set hcall (by simp [toGo])
  · cases hstep

theorem step_waiting {i : Nat} {k : κ} (hcall : s.calls[i]? = some (k, .waiting))
    (hfree : s.holder = none) :
    c.step s (.turn i) = some { s with
      holder := some i
      calls := s.calls.set i (k, .inside (c.body k) (c.start k)) } := by
  simp [Sections.step, hcall, hfree]

theorem step_inside {i : Nat} {k : κ} {rest : List (σ → ρ → σ × ρ)} {own : ρ}
    (hcall : s.calls[i]? = some (k, .inside rest own)) : ∃ s', c.step s (.turn i) = some s' := by
  cases rest <;> simp [Sections.step, hcall]

theorem Serial.exists_turn (h : c.Serial x s) {p : κ × Place σ ρ} (hp : p ∈ s.calls)
    (hleft : p.2.result = none) : ∃ i s', c.step s (.turn i) = some s' := by
  cases hholder : s.holder with
  | some i =>
      obtain ⟨k, done, rest, own, hcall, -, -⟩ := h.inside i hholder
      exact ⟨i, step_inside hcall⟩
  | none =>
      obtain ⟨i, hi⟩ := List.mem_iff_getElem?.mp hp
      obtain ⟨k, place⟩ := p
      cases place with
      | waiting => exact ⟨i, _, step_waiting hi hholder⟩
      | inside rest own =>
          exact absurd (hholder.symm.trans (h.outside i k _ hi trivial)) (by simp)
      | left own => cases hleft

/-- **No call waits for ever.** Whichever calls go on, all of them have left in the end. -/
theorem inevitably_left {es : List (Event κ)} (hrun : run c.step { shared := x } es = some s) :
    Inevitably c.step Event.IsTurn (fun s => ∀ p ∈ s.calls, p.2.result ≠ none) s := by
  refine Inevitably.of_measure (I := c.Serial x) (fun s => (s.calls.map c.toGo).sum) ?_ ?_
    (serial_of_run hrun)
  · intro s h hnot
    simp only [not_forall, not_not] at hnot
    obtain ⟨p, hp, hleft⟩ := hnot
    obtain ⟨i, s', hstep⟩ := h.exists_turn hp hleft
    exact ⟨.turn i, s', trivial, hstep⟩
  · intro s e s' h _ hturn hstep
    cases e with
    | call k => exact False.elim hturn
    | turn i => exact ⟨h.step hstep, turn_less hstep⟩

end Sections

end Critical

import Mathlib.Data.List.Basic

/-!
# Machines that may refuse an event

A machine is a partial step function: `step s e` is the state after event `e`, or `none` when `e`
cannot happen in `s`. Whatever may interleave is an event of its own, so an interleaving is a list
of events and a property of every interleaving is a property of every run.

Properties of runs are proved by the rules at the end: an invariant holds throughout; an invariant
kept by the steps that meet a condition holds along every run whose steps meet it; and when a step
keeps a property exactly if it meets the condition, the property holds throughout exactly if the
condition is met all along.
-/

namespace Machine

universe u v

variable {σ : Type u} {ε : Type v}

abbrev Step (σ : Type u) (ε : Type v) := σ → ε → Option σ

variable (step : Step σ ε)

/-- The state after a list of events, when each of them can happen in its turn. -/
def run : σ → List ε → Option σ
  | s, [] => some s
  | s, e :: es => (step s e).bind fun s' => run s' es

/-- Every step of a run is taken in a state and with an event that meet `P`. -/
def Along (P : σ → ε → Prop) : σ → List ε → Prop
  | _, [] => True
  | s, e :: es => P s e ∧ ∀ s', step s e = some s' → Along P s' es

/-- `Q` holds in every state a run visits, its first and its last one included. -/
def Throughout (Q : σ → Prop) : σ → List ε → Prop
  | s, [] => Q s
  | s, e :: es => Q s ∧ ∀ s', step s e = some s' → Throughout Q s' es

def Leads (p : ε → Prop) (s s' : σ) : Prop :=
  ∃ es, (∀ e ∈ es, p e) ∧ run step s es = some s'

/-- Whichever steps of kind `p` are taken, `Q` comes, and until then there is such a step. -/
inductive Inevitably (p : ε → Prop) (Q : σ → Prop) : σ → Prop
  | now {s : σ} (h : Q s) : Inevitably p Q s
  | next {s : σ} (hsome : ∃ e s', p e ∧ step s e = some s')
      (hall : ∀ e s', p e → step s e = some s' → Inevitably p Q s') : Inevitably p Q s

variable {step}

@[simp]
theorem run_nil (s : σ) : run step s [] = some s := rfl

theorem run_cons (s : σ) (e : ε) (es : List ε) :
    run step s (e :: es) = (step s e).bind fun s' => run step s' es := rfl

theorem run_cons_eq_some {s s'' : σ} {e : ε} {es : List ε} :
    run step s (e :: es) = some s'' ↔
    ∃ s', step s e = some s' ∧ run step s' es = some s'' := by
  rw [run_cons, Option.bind_eq_some_iff]

theorem run_append (s : σ) (es es' : List ε) :
    run step s (es ++ es') = (run step s es).bind fun s' => run step s' es' := by
  induction es generalizing s with
  | nil => rfl
  | cons e es ih =>
      rw [List.cons_append, run_cons, run_cons]
      cases step s e with
      | none => rfl
      | some s' => exact ih s'

theorem run_append_eq_some {s s'' : σ} {es es' : List ε} :
    run step s (es ++ es') = some s'' ↔
      ∃ s', run step s es = some s' ∧ run step s' es' = some s'' := by
  rw [run_append, Option.bind_eq_some_iff]

theorem run_concat_eq_some {s s'' : σ} {es : List ε} {e : ε} :
    run step s (es ++ [e]) = some s'' ↔
    ∃ s', run step s es = some s' ∧ step s' e = some s'' := by
  simp [run_append_eq_some, run_cons_eq_some]

/-- Whether a concrete run meets a decidable condition can be computed. -/
instance decidableAlong {P : σ → ε → Prop} [∀ s e, Decidable (P s e)] :
    (s : σ) → (es : List ε) → Decidable (Along step P s es)
  | _, [] => isTrue trivial
  | s, e :: es =>
      match hstep : step s e with
      | none => decidable_of_iff (P s e)
          ⟨fun hP => ⟨hP, fun s' h => by simp [hstep] at h⟩, fun h => h.1⟩
      | some s' =>
          have := decidableAlong (P := P) s' es
          decidable_of_iff (P s e ∧ Along step P s' es)
            ⟨fun h => ⟨h.1, fun next hnext => by
                rw [hstep, Option.some.injEq] at hnext
                exact hnext ▸ h.2⟩,
              fun h => ⟨h.1, h.2 s' hstep⟩⟩

instance decidableThroughout {Q : σ → Prop} [DecidablePred Q] :
    (s : σ) → (es : List ε) → Decidable (Throughout step Q s es)
  | s, [] => inferInstanceAs (Decidable (Q s))
  | s, e :: es =>
      match hstep : step s e with
      | none => decidable_of_iff (Q s)
          ⟨fun hQ => ⟨hQ, fun s' h => by simp [hstep] at h⟩, fun h => h.1⟩
      | some s' =>
          have := decidableThroughout (Q := Q) s' es
          decidable_of_iff (Q s ∧ Throughout step Q s' es)
            ⟨fun h => ⟨h.1, fun next hnext => by
                rw [hstep, Option.some.injEq] at hnext
                exact hnext ▸ h.2⟩,
              fun h => ⟨h.1, h.2 s' hstep⟩⟩

/-! ### Leading from one state to another -/

theorem Leads.refl {p : ε → Prop} (s : σ) : Leads step p s s := ⟨[], by simp, rfl⟩

theorem Leads.head {p : ε → Prop} {s s' s'' : σ} {e : ε} (hp : p e)
    (hstep : step s e = some s') (hleads : Leads step p s' s'') : Leads step p s s'' := by
  obtain ⟨es, hall, hrun⟩ := hleads
  refine ⟨e :: es, ?_, run_cons_eq_some.mpr ⟨s', hstep, hrun⟩⟩
  intro e' he'
  rcases List.mem_cons.mp he' with rfl | hmem
  · exact hp
  · exact hall e' hmem

theorem Leads.keeps {p : ε → Prop} {I : σ → Prop}
    (hkeep : ∀ s e s', I s → p e → step s e = some s' → I s') {s s' : σ}
    (hleads : Leads step p s s') (hs : I s) : I s' := by
  obtain ⟨es, hall, hrun⟩ := hleads
  induction es generalizing s with
  | nil =>
      rw [run_nil, Option.some.injEq] at hrun
      exact hrun ▸ hs
  | cons e es ih =>
      obtain ⟨mid, hstep, hrest⟩ := run_cons_eq_some.mp hrun
      exact ih (hkeep s e mid hs (hall e List.mem_cons_self) hstep)
        (fun e' he' => hall e' (List.mem_cons_of_mem _ he')) hrest

theorem Inevitably.after {p : ε → Prop} {Q : σ → Prop}
    (hkeep : ∀ s e s', Q s → p e → step s e = some s' → Q s') {s s' : σ} {e : ε}
    (h : Inevitably step p Q s) (hp : p e) (hstep : step s e = some s') :
    Inevitably step p Q s' := by
  cases h with
  | now hQ => exact .now (hkeep s e s' hQ hp hstep)
  | next hsome hall => exact hall e s' hp hstep

/-- **Measures.** `Q` comes when, until then, a step of kind `p` can be taken and each of them makes
`μ` smaller. -/
theorem Inevitably.of_measure {p : ε → Prop} {Q I : σ → Prop} (μ : σ → Nat)
    (hsome : ∀ s, I s → ¬ Q s → ∃ e s', p e ∧ step s e = some s')
    (hless : ∀ s e s', I s → ¬ Q s → p e → step s e = some s' → I s' ∧ μ s' < μ s)
    {s : σ} (hs : I s) :
    Inevitably step p Q s := by
  induction hn : μ s using Nat.strongRecOn generalizing s with
  | _ n ih =>
      by_cases hQ : Q s
      · exact .now hQ
      · refine .next (hsome s hs hQ) fun e s' hp hstep => ?_
        obtain ⟨hs', hlt⟩ := hless s e s' hs hQ hp hstep
        exact ih (μ s') (hn ▸ hlt) hs' rfl

/-- **Traps.** From states without `Q` that can always be left for another of them, `Q` need not
come. -/
theorem Inevitably.not_trap {p : ε → Prop} {Q T : σ → Prop} (hout : ∀ s, T s → ¬ Q s)
    (hstay : ∀ s, T s → ∃ e s', p e ∧ step s e = some s' ∧ T s') {s : σ}
    (h : Inevitably step p Q s) : ¬ T s := by
  induction h with
  | now hQ => exact fun hT => hout _ hT hQ
  | next hsome hall ih =>
      intro hT
      obtain ⟨e, s', hp, hstep, hT'⟩ := hstay _ hT
      exact ih e s' hp hstep hT'

/-! ### Rules for runs -/

/-- **Invariants.** What every step keeps holds at the end of every run. -/
theorem run_invariant {I : σ → Prop} (hkeep : ∀ s e s', I s → step s e = some s' → I s')
    {s s' : σ} {es : List ε} (hrun : run step s es = some s') (hs : I s) : I s' := by
  induction es generalizing s with
  | nil =>
      rw [run_nil, Option.some.injEq] at hrun
      exact hrun ▸ hs
  | cons e es ih =>
      obtain ⟨mid, hstep, hrest⟩ := run_cons_eq_some.mp hrun
      exact ih hrest (hkeep s e mid hs hstep)

/-- **Guarded invariants.** What the steps that meet `P` keep holds at the end of every run all of
whose steps meet `P`. -/
theorem run_guarded_invariant {I : σ → Prop} {P : σ → ε → Prop}
    (hkeep : ∀ s e s', I s → P s e → step s e = some s' → I s')
    {s s' : σ} {es : List ε} (hrun : run step s es = some s') (halong : Along step P s es)
    (hs : I s) : I s' := by
  induction es generalizing s with
  | nil =>
      rw [run_nil, Option.some.injEq] at hrun
      exact hrun ▸ hs
  | cons e es ih =>
      obtain ⟨mid, hstep, hrest⟩ := run_cons_eq_some.mp hrun
      exact ih hrest (halong.2 mid hstep) (hkeep s e mid hs halong.1 hstep)

/-- **Once.** Let the steps of kind `p` lead from `I` to `J` and all others that meet `q` keep both.
Then a run of steps that meet `q`, at most one of them of that kind, ends in `I` without it and in
`J` with it. -/
theorem run_once {I J : σ → Prop} {q : ε → Prop} {p : ε → Bool}
    (hbefore : ∀ s e s', I s → q e → ¬ p e → step s e = some s' → I s')
    (hfirst : ∀ s e s', I s → q e → p e → step s e = some s' → J s')
    (hafter : ∀ s e s', J s → q e → ¬ p e → step s e = some s' → J s')
    {s s' : σ} {es : List ε} (hrun : run step s es = some s') (hall : ∀ e ∈ es, q e)
    (honce : es.countP p ≤ 1) (hs : I s) :
    (es.countP p = 0 ∧ I s') ∨ (es.countP p = 1 ∧ J s') := by
  induction es generalizing s with
  | nil =>
      rw [run_nil, Option.some.injEq] at hrun
      exact .inl ⟨rfl, hrun ▸ hs⟩
  | cons e es ih =>
      obtain ⟨mid, hstep, hrest⟩ := run_cons_eq_some.mp hrun
      have hq := hall e List.mem_cons_self
      have hqs : ∀ e ∈ es, q e := fun e' he' => hall e' (List.mem_cons_of_mem e he')
      by_cases hp : p e
      · rw [List.countP_cons_of_pos hp] at honce ⊢
        have hnone : es.countP p = 0 := by omega
        have hleads : Leads step (fun e => q e ∧ ¬ p e) mid s' :=
          ⟨es, fun e' he' => ⟨hqs e' he', List.countP_eq_zero.mp hnone e' he'⟩, hrest⟩
        refine .inr ⟨by omega, hleads.keeps ?_ (hfirst s e mid hs hq hp hstep)⟩
        exact fun t e' t' ht he' => hafter t e' t' ht he'.1 he'.2
      · rw [List.countP_cons_of_neg hp] at honce ⊢
        exact ih hrest hqs honce (hbefore s e mid hs hq hp hstep)

theorem along_of_mem {q : ε → Prop} {P : σ → ε → Prop} (hP : ∀ s e, q e → P s e)
    {s : σ} {es : List ε} (hall : ∀ e ∈ es, q e) : Along step P s es := by
  induction es generalizing s with
  | nil => trivial
  | cons e es ih =>
      exact ⟨hP s e (hall e List.mem_cons_self),
        fun s' _ => ih fun e' he' => hall e' (List.mem_cons_of_mem e he')⟩

theorem Along.imp {P P' : σ → ε → Prop} (himp : ∀ s e, P s e → P' s e) {s : σ}
    {es : List ε} (h : Along step P s es) : Along step P' s es := by
  induction es generalizing s with
  | nil => trivial
  | cons e es ih => exact ⟨himp s e h.1, fun s' hstep => ih (h.2 s' hstep)⟩

theorem Along.front {P : σ → ε → Prop} {s : σ} {es es' : List ε}
    (h : Along step P s (es ++ es')) :
    Along step P s es := by
  induction es generalizing s with
  | nil => trivial
  | cons e es ih => exact ⟨h.1, fun s' hstep => ih (h.2 s' hstep)⟩

/-- **Laws of steps.** When, under an invariant of the steps that meet `P`, each of them meets `Q`,
all steps of a run meet `Q` if they meet `P`. -/
theorem along_of_guarded {I : σ → Prop} {P Q : σ → ε → Prop}
    (hkeep : ∀ s e s', I s → P s e → step s e = some s' → I s')
    (hlaw : ∀ s e, I s → P s e → Q s e) {s : σ} {es : List ε} (halong : Along step P s es)
    (hs : I s) : Along step Q s es := by
  induction es generalizing s with
  | nil => trivial
  | cons e es ih =>
      exact ⟨hlaw s e hs halong.1,
        fun s' hstep => ih (halong.2 s' hstep) (hkeep s e s' hs halong.1 hstep)⟩

/-- Conditions that are the same under an invariant of the steps that meet `P` are met by the same
runs. -/
theorem along_iff_along_of_kept {I : σ → Prop} {P Q : σ → ε → Prop}
    (hkeep : ∀ s e s', I s → P s e → step s e = some s' → I s')
    (hiff : ∀ s e s', I s → step s e = some s' → (Q s e ↔ P s e)) {s s' : σ} {es : List ε}
    (hrun : run step s es = some s') (hs : I s) : Along step Q s es ↔ Along step P s es := by
  induction es generalizing s with
  | nil => exact Iff.rfl
  | cons e es ih =>
      obtain ⟨mid, hstep, hrest⟩ := run_cons_eq_some.mp hrun
      have hfirst := hiff s e mid hs hstep
      have htail : P s e → (Along step Q mid es ↔ Along step P mid es) := fun hP =>
        ih hrest (hkeep s e mid hs hP hstep)
      have honly : ∀ next, step s e = some next → next = mid := fun next hnext =>
        Option.some.inj (hnext.symm.trans hstep)
      constructor
      · rintro ⟨hQ, hall⟩
        have hP := hfirst.mp hQ
        exact ⟨hP, fun next hnext => honly next hnext ▸ (htail hP).mp (hall mid hstep)⟩
      · rintro ⟨hP, hall⟩
        exact ⟨hfirst.mpr hP, fun next hnext =>
          honly next hnext ▸ (htail hP).mpr (hall mid hstep)⟩

/-- The one step of kind `p` is taken out of a state with `I`. -/
theorem along_once {I : σ → Prop} {q : ε → Prop} {p : ε → Bool}
    (hbefore : ∀ s e s', I s → q e → ¬ p e → step s e = some s' → I s') {s : σ}
    {es : List ε} (hall : ∀ e ∈ es, q e) (honce : es.countP p ≤ 1) (hs : I s) :
    Along step (fun s e => q e ∧ (p e → I s)) s es := by
  induction es generalizing s with
  | nil => trivial
  | cons e es ih =>
      have hq := hall e List.mem_cons_self
      have hqs : ∀ e ∈ es, q e := fun e' he' => hall e' (List.mem_cons_of_mem e he')
      refine ⟨⟨hq, fun _ => hs⟩, fun s' hstep => ?_⟩
      by_cases hp : p e
      · rw [List.countP_cons_of_pos hp] at honce
        have hnone : es.countP p = 0 := by omega
        apply along_of_mem (q := fun e => q e ∧ ¬ p e)
        · exact fun t e' he' => ⟨he'.1, fun hp' => absurd hp' he'.2⟩
        · exact fun e' he' => ⟨hqs e' he', List.countP_eq_zero.mp hnone e' he'⟩
      · rw [List.countP_cons_of_neg hp] at honce
        exact ih hqs honce (hbefore s e s' hs hq hp hstep)

theorem Throughout.start {Q : σ → Prop} {s : σ} {es : List ε} (h : Throughout step Q s es) :
    Q s := by
  cases es with
  | nil => exact h
  | cons e es => exact h.1

/-- `Throughout` speaks of the state after every prefix of the run. -/
theorem throughout_iff_front {Q : σ → Prop} {s : σ} {es : List ε} :
    Throughout step Q s es ↔
      ∀ front back s', es = front ++ back → run step s front = some s' → Q s' := by
  induction es generalizing s with
  | nil =>
      constructor
      · intro h front back s' hsplit hrun
        obtain ⟨rfl, rfl⟩ := List.append_eq_nil_iff.mp hsplit.symm
        rw [run_nil, Option.some.injEq] at hrun
        exact hrun ▸ h
      · intro h
        exact h [] [] s rfl rfl
  | cons e es ih =>
      constructor
      · rintro ⟨hs, hrest⟩ front back s' hsplit hrun
        cases front with
        | nil =>
            rw [run_nil, Option.some.injEq] at hrun
            exact hrun ▸ hs
        | cons e' front =>
            rw [List.cons_append, List.cons.injEq] at hsplit
            obtain ⟨rfl, rfl⟩ := hsplit
            obtain ⟨mid, hstep, hfront⟩ := run_cons_eq_some.mp hrun
            exact ih.mp (hrest mid hstep) front back s' rfl hfront
      · intro h
        refine ⟨h [] (e :: es) s rfl rfl, fun mid hstep => ih.mpr ?_⟩
        intro front back s' hsplit hrun
        exact h (e :: front) back s' (by rw [hsplit, List.cons_append])
          (run_cons_eq_some.mpr ⟨mid, hstep, hrun⟩)

theorem Throughout.imp {Q Q' : σ → Prop} (himp : ∀ s, Q s → Q' s) {s : σ} {es : List ε}
    (h : Throughout step Q s es) : Throughout step Q' s es := by
  induction es generalizing s with
  | nil => exact himp s h
  | cons e es ih => exact ⟨himp s h.1, fun s' hstep => ih (h.2 s' hstep)⟩

theorem throughout_of_invariant {Q : σ → Prop}
    (hkeep : ∀ s e s', Q s → step s e = some s' → Q s') {s : σ} (es : List ε) (hs : Q s) :
    Throughout step Q s es := by
  induction es generalizing s with
  | nil => exact hs
  | cons e es ih => exact ⟨hs, fun s' hstep => ih (hkeep s e s' hs hstep)⟩

theorem throughout_of_guarded {I Q : σ → Prop} {P : σ → ε → Prop}
    (hkeep : ∀ s e s', I s → P s e → step s e = some s' → I s') (hsafe : ∀ s, I s → Q s)
    {s : σ} {es : List ε} (halong : Along step P s es) (hs : I s) : Throughout step Q s es := by
  induction es generalizing s with
  | nil => exact hsafe s hs
  | cons e es ih =>
      exact ⟨hsafe s hs, fun s' hstep =>
        ih (halong.2 s' hstep) (hkeep s e s' hs halong.1 hstep)⟩

theorem Throughout.last {Q : σ → Prop} {s s' : σ} {es : List ε} (h : Throughout step Q s es)
    (hrun : run step s es = some s') : Q s' :=
  throughout_iff_front.mp h es [] s' (List.append_nil es).symm hrun

/-- What holds throughout a run justifies its steps. -/
theorem Throughout.along {Q : σ → Prop} {P : σ → ε → Prop} {s s' : σ} {es : List ε}
    (h : Throughout step Q s es) (hP : ∀ s e s', Q s → step s e = some s' → P s e)
    (hrun : run step s es = some s') : Along step P s es := by
  induction es generalizing s with
  | nil => trivial
  | cons e es ih =>
      obtain ⟨mid, hstep, hrest⟩ := run_cons_eq_some.mp hrun
      refine ⟨hP s e mid h.1 hstep, fun next hnext => ?_⟩
      obtain rfl : next = mid := Option.some.inj (hnext.symm.trans hstep)
      exact ih (h.2 next hstep) hrest

/-- **No way back.** When a step that does not meet `P` leads into `D`, and no step leads out of
`D`, then all steps of a run that ends outside of `D` meet `P`. -/
theorem along_of_absorbing {I D : σ → Prop} {P : σ → ε → Prop}
    (hkeep : ∀ s e s', I s → step s e = some s' → I s')
    (henter : ∀ s e s', I s → ¬ P s e → step s e = some s' → D s')
    (hstay : ∀ s e s', D s → step s e = some s' → D s')
    {s s' : σ} {es : List ε} (hrun : run step s es = some s') (hI : I s) (hend : ¬ D s') :
    Along step P s es := by
  induction es generalizing s with
  | nil => trivial
  | cons e es ih =>
      obtain ⟨mid, hstep, hrest⟩ := run_cons_eq_some.mp hrun
      by_cases hP : P s e
      · refine ⟨hP, fun next hnext => ?_⟩
        obtain rfl : next = mid := Option.some.inj (hnext.symm.trans hstep)
        exact ih hrest (hkeep s e next hI hstep)
      · have hmid := henter s e mid hI hP hstep
        exact absurd (run_invariant hstay hrest hmid) hend

/-- **Exact conditions, of guarded steps.** When, under an invariant of the steps that meet `G`,
such a step out of a state with `Q` ends in a state with `Q` exactly if it meets `P`, then on a run
of them `Q` holds throughout exactly if all its steps meet `P`. -/
theorem throughout_iff_along_of_guarded {I Q : σ → Prop} {G P : σ → ε → Prop}
    (hkeep : ∀ s e s', I s → G s e → step s e = some s' → I s')
    (hexact : ∀ s e s', I s → Q s → G s e → step s e = some s' → (Q s' ↔ P s e))
    {s s' : σ} {es : List ε} (hrun : run step s es = some s') (hguard : Along step G s es)
    (hI : I s) (hQ : Q s) : Throughout step Q s es ↔ Along step P s es := by
  induction es generalizing s with
  | nil => exact ⟨fun _ => trivial, fun _ => hQ⟩
  | cons e es ih =>
      obtain ⟨mid, hstep, hrest⟩ := run_cons_eq_some.mp hrun
      have honly : ∀ next, step s e = some next → next = mid := fun next hnext =>
        Option.some.inj (hnext.symm.trans hstep)
      have hfirst := hexact s e mid hI hQ hguard.1 hstep
      have hmidI := hkeep s e mid hI hguard.1 hstep
      constructor
      · rintro ⟨-, hthrough⟩
        have hmid := hthrough mid hstep
        refine ⟨hfirst.mp hmid.start, fun next hnext => ?_⟩
        rw [honly next hnext]
        exact (ih hrest (hguard.2 mid hstep) hmidI hmid.start).mp hmid
      · rintro ⟨hP, halong⟩
        refine ⟨hQ, fun next hnext => ?_⟩
        rw [honly next hnext]
        exact (ih hrest (hguard.2 mid hstep) hmidI (hfirst.mpr hP)).mpr (halong mid hstep)

/-- **Exact conditions, of good steps.** The same when only the steps that meet `P` keep the
invariant. -/
theorem throughout_iff_along_of_kept {I Q : σ → Prop} {P : σ → ε → Prop}
    (hkeep : ∀ s e s', I s → P s e → step s e = some s' → I s') (hsafe : ∀ s, I s → Q s)
    (hfail : ∀ s e s', I s → ¬ P s e → step s e = some s' → ¬ Q s')
    {s s' : σ} {es : List ε} (hrun : run step s es = some s') (hI : I s) :
    Throughout step Q s es ↔ Along step P s es := by
  induction es generalizing s with
  | nil => exact ⟨fun _ => trivial, fun _ => hsafe s hI⟩
  | cons e es ih =>
      obtain ⟨mid, hstep, hrest⟩ := run_cons_eq_some.mp hrun
      have honly : ∀ next, step s e = some next → next = mid := fun next hnext =>
        Option.some.inj (hnext.symm.trans hstep)
      constructor
      · rintro ⟨-, hthrough⟩
        have hmid := hthrough mid hstep
        have hP : P s e := by
          by_contra hnot
          exact hfail s e mid hI hnot hstep hmid.start
        refine ⟨hP, fun next hnext => ?_⟩
        rw [honly next hnext]
        exact (ih hrest (hkeep s e mid hI hP hstep)).mp hmid
      · rintro ⟨hP, halong⟩
        refine ⟨hsafe s hI, fun next hnext => ?_⟩
        rw [honly next hnext]
        exact (ih hrest (hkeep s e mid hI hP hstep)).mpr (halong mid hstep)

theorem along_of_forall {P : σ → ε → Prop} (hP : ∀ s e, P s e) (s : σ) (es : List ε) :
    Along step P s es := by
  induction es generalizing s with
  | nil => trivial
  | cons e es ih => exact ⟨hP s e, fun s' _ => ih s'⟩

/-- **Exact conditions.** The same when every step keeps the invariant. -/
theorem throughout_iff_along {I Q : σ → Prop} {P : σ → ε → Prop}
    (hkeep : ∀ s e s', I s → step s e = some s' → I s')
    (hexact : ∀ s e s', I s → Q s → step s e = some s' → (Q s' ↔ P s e))
    {s s' : σ} {es : List ε} (hrun : run step s es = some s') (hI : I s) (hQ : Q s) :
    Throughout step Q s es ↔ Along step P s es :=
  throughout_iff_along_of_guarded (G := fun _ _ => True) (fun s e s' hI _ => hkeep s e s' hI)
    (fun s e s' hI hQ _ => hexact s e s' hI hQ) hrun (along_of_forall (fun _ _ => trivial) s es)
    hI hQ

theorem run_of_total (htotal : ∀ s e, ∃ s', step s e = some s') (s : σ) (es : List ε) :
    ∃ s', run step s es = some s' := by
  induction es generalizing s with
  | nil => exact ⟨s, rfl⟩
  | cons e es ih =>
      obtain ⟨mid, hstep⟩ := htotal s e
      obtain ⟨s', hrun⟩ := ih mid
      exact ⟨s', run_cons_eq_some.mpr ⟨mid, hstep, hrun⟩⟩

/-- The same for a machine that refuses nothing and needs no invariant. -/
theorem throughout_iff_along_of_total {Q : σ → Prop} {P : σ → ε → Prop}
    (htotal : ∀ s e, ∃ s', step s e = some s')
    (hexact : ∀ s e s', Q s → step s e = some s' → (Q s' ↔ P s e))
    {s : σ} {es : List ε} (hQ : Q s) : Throughout step Q s es ↔ Along step P s es := by
  obtain ⟨s', hrun⟩ := run_of_total htotal s es
  exact throughout_iff_along (I := fun _ => True) (fun _ _ _ _ _ => trivial)
    (fun s e s' _ => hexact s e s') hrun trivial hQ

/-! ### Simulations

A machine simulates another one when each step below is matched by at most one step above.
-/

section Simulation

universe w x

variable {τ : Type w} {δ : Type x} {up : Step τ δ}

/-- What a run performs, when `label s e` is what the step with `e` out of `s` does. -/
def performed (step : Step σ ε) (label : σ → ε → Option δ) : σ → List ε → List δ
  | _, [] => []
  | s, e :: es =>
      (label s e).toList ++
        match step s e with
        | none => []
        | some s' => performed step label s' es

theorem performed_cons {label : σ → ε → Option δ} {s s' : σ} {e : ε}
    (hstep : step s e = some s') (es : List ε) :
    performed step label s (e :: es) = (label s e).toList ++ performed step label s' es := by
  rw [performed, hstep]

/-- **Simulations.** When the steps that meet `P` keep the relation to a state of the machine above
that does what they are labelled with, then so does every run of them. -/
theorem run_simulates {R : σ → τ → Prop} {P : σ → ε → Prop}
    {label : σ → ε → Option δ}
    (hsim : ∀ s e s' t, R s t → P s e → step s e = some s' →
      ∃ t', run up t (label s e).toList = some t' ∧ R s' t')
    {s s' : σ} {t : τ} {es : List ε} (hrun : run step s es = some s')
    (halong : Along step P s es) (hR : R s t) :
    ∃ t', run up t (performed step label s es) = some t' ∧ R s' t' := by
  induction es generalizing s t with
  | nil =>
      rw [run_nil, Option.some.injEq] at hrun
      exact ⟨t, rfl, hrun ▸ hR⟩
  | cons e es ih =>
      obtain ⟨mid, hstep, hrest⟩ := run_cons_eq_some.mp hrun
      obtain ⟨u, hu, hmid⟩ := hsim s e mid t hR halong.1 hstep
      obtain ⟨t', ht', hR'⟩ := ih hrest (halong.2 mid hstep) hmid
      refine ⟨t', ?_, hR'⟩
      rw [performed_cons hstep, run_append_eq_some]
      exact ⟨u, hu, ht'⟩

end Simulation

end Machine

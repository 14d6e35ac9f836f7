import Dbus2vdr.Lib.Monitor

/-!
# `cMutex` and `cCondVar`

A `cMutex` counts in `locked` how often its thread has locked it, on top of a mutex of pthread that
a thread can have only once; `cCondVar` puts the count aside while it waits. All of that is read and
written with no other protection than the mutex itself. `refines_of_paired` says that it is a
monitor nevertheless, as long as a thread only unlocks, and only waits with, what it has locked.
-/

namespace Dbus2vdr.Threads

open Machine

universe u

/-- Where a thread is in `Lock`, `Unlock`, `Wait` or `TimedWait`. -/
inductive Place where
  | outside
  /-- In `Lock`, behind `pthread_mutex_lock`. -/
  | locked
  /-- At the end of `locked++`. -/
  | counting (locked : Int)
  /-- At the end of `--locked`. -/
  | uncounting (locked : Int)
  /-- At `pthread_mutex_unlock`. -/
  | unlocking
  /-- Has found `Mutex.locked` set. -/
  | tested (timed : Bool)
  | saved (locked : Int) (timed : Bool)
  /-- At `pthread_cond_wait` or `pthread_cond_timedwait`. -/
  | cleared (locked : Int) (timed : Bool)
  /-- Asleep in there. -/
  | blocked (locked : Int) (timed : Bool)
  /-- Woken up in there, but without the mutex; `r` is what `TimedWait` will return. -/
  | woken (locked : Int) (r : Bool)
  | returned (locked : Int) (r : Bool)
  deriving DecidableEq, Repr

/-- A `cMutex` with the `cCondVar` that is used with it, and the threads. -/
structure Mutex (θ : Type u) where
  /-- Who has the mutex of pthread. -/
  owner : Option θ := none
  locked : Int := 0
  place : θ → Place := fun _ => .outside
  /-- How many of its calls of `Lock` a thread has not undone yet. -/
  opened : θ → Nat := fun _ => 0

inductive Event (θ : Type u) where
  /-- A call of `Lock`, until `pthread_mutex_lock` is left. -/
  | lock (t : θ)
  | unlock (t : θ)
  /-- A call of `TimedWait`, or of `Wait`. -/
  | wait (t : θ) (timed : Bool)
  | broadcast (t : θ)
  | turn (t : θ)
  /-- `GetAbsTime` fails. -/
  | noTime (t : θ)
  /-- `pthread_cond_wait` may end at any time. -/
  | wakeUp (t : θ)
  | timeOut (t : θ)
  deriving DecidableEq, Repr

namespace Place

def wakeUp (r : Bool) : Place → Place
  | blocked n _ => woken n r
  | place => place

def isBlocked : Place → Bool
  | blocked _ _ => true
  | _ => false

def isTimed : Place → Bool
  | tested timed | saved _ timed | cleared _ timed | blocked _ timed => timed
  | _ => false

/-- What the next step is to the monitor. -/
def performs {θ : Type u} (t : θ) : Place → Option (Monitor.Op θ)
  | counting _ => some (.enter t)
  | uncounting _ => some (.leave t)
  | cleared _ _ => some (.sleep t)
  | woken _ r => some (.resume t r)
  | _ => none

end Place

variable {θ : Type u} [DecidableEq θ]

namespace Mutex

def goto (s : Mutex θ) (t : θ) (place : Place) : Mutex θ :=
  { s with place := Function.update s.place t place }

/-- The mutex reports a thread that locks it twice as an error, and lets it go on. -/
def Enabled (s : Mutex θ) : Event θ → Prop
  | .lock t => s.place t = .outside ∧ (s.owner = none ∨ s.owner = some t)
  | .unlock t | .wait t _ | .broadcast t => s.place t = .outside
  | .turn t =>
      match s.place t with
      | .outside | .blocked _ _ => False
      | .woken _ _ => s.owner = none
      | _ => True
  | .noTime t => s.place t = .tested true
  | .wakeUp t => (s.place t).isBlocked
  | .timeOut t => (s.place t).isBlocked ∧ (s.place t).isTimed

def turn (s : Mutex θ) (t : θ) : Mutex θ :=
  match s.place t with
  | .locked => s.goto t (.counting s.locked)
  | .counting locked => { s.goto t .outside with locked := locked + 1 }
  | .uncounting locked =>
      { s.goto t (if locked = 0 then .unlocking else .outside) with locked := locked }
  | .unlocking =>
      { s.goto t .outside with owner := if s.owner = some t then none else s.owner }
  | .tested timed => s.goto t (.saved s.locked timed)
  | .saved locked timed => { s.goto t (.cleared locked timed) with locked := 0 }
  | .cleared locked timed =>
      -- without the mutex, pthread refuses to wait
      if s.owner = some t then { s.goto t (.blocked locked timed) with owner := none }
      else s.goto t (.returned locked true)
  | .woken locked r => { s.goto t (.returned locked r) with owner := some t }
  | .returned locked _ => { s.goto t .outside with locked := locked }
  | .outside | .blocked _ _ => s

def after (s : Mutex θ) : Event θ → Mutex θ
  | .lock t =>
      { s.goto t .locked with
        owner := some t
        opened := Function.update s.opened t (s.opened t + 1) }
  | .unlock t =>
      { s.goto t (.uncounting (s.locked - 1)) with
        opened := Function.update s.opened t (s.opened t - 1) }
  | .wait t timed => if s.locked ≠ 0 then s.goto t (.tested timed) else s
  | .broadcast _ => { s with place := fun t => (s.place t).wakeUp true }
  | .turn t => s.turn t
  | .noTime t => s.goto t .outside
  | .wakeUp t => s.goto t ((s.place t).wakeUp true)
  | .timeOut t => s.goto t ((s.place t).wakeUp false)

instance (s : Mutex θ) (e : Event θ) : Decidable (s.Enabled e) := by
  cases e <;> simp only [Enabled] <;> try infer_instance
  split <;> infer_instance

def step (s : Mutex θ) (e : Event θ) : Option (Mutex θ) :=
  if s.Enabled e then some (s.after e) else none

/-- `Unlock`, `Wait` and `TimedWait` are called between a `Lock` and the `Unlock` of it. -/
def Paired (s : Mutex θ) : Event θ → Prop
  | .unlock t | .wait t _ => 0 < s.opened t
  | _ => True

instance (s : Mutex θ) (e : Event θ) : Decidable (s.Paired e) := by
  cases e <;> simp only [Paired] <;> infer_instance

def performs (s : Mutex θ) : Event θ → Option (Monitor.Op θ)
  | .turn t => (s.place t).performs t
  | .broadcast _ => some .wakeAll
  | .wakeUp t => some (.wake t true)
  | .timeOut t => some (.wake t false)
  | _ => none

theorem step_eq_some {s s' : Mutex θ} {e : Event θ} (h : step s e = some s') :
    s.Enabled e ∧ s' = s.after e := by
  unfold step at h
  split at h
  · next henabled => exact ⟨henabled, (Option.some.inj h).symm⟩
  · exact absurd h (by simp)

/-! ### The monitor above -/

/-- What holds for the thread that has the mutex of pthread; `inside` and `depth` are those of the
monitor. -/
def Owner (locked : Int) (inside : Option θ) (depth : Nat) (t : θ) (opened : Nat) : Place → Prop
  | .outside => inside = some t ∧ locked = depth ∧ opened = depth
  | .locked => (inside = none ∨ inside = some t) ∧ locked = depth ∧ opened = depth + 1
  | .counting n =>
      (inside = none ∨ inside = some t) ∧ locked = depth ∧ opened = depth + 1 ∧ n = locked
  | .uncounting n => inside = some t ∧ locked = depth ∧ opened + 1 = depth ∧ n + 1 = locked
  | .unlocking => inside = none ∧ locked = 0 ∧ opened = 0
  | .tested _ => inside = some t ∧ locked = depth ∧ opened = depth ∧ 0 < opened
  | .saved n _ => inside = some t ∧ locked = depth ∧ opened = depth ∧ 0 < opened ∧ n = depth
  | .cleared n _ => inside = some t ∧ locked = 0 ∧ opened = depth ∧ 0 < opened ∧ n = depth
  | .returned n _ => inside = some t ∧ locked = 0 ∧ opened = depth ∧ n = depth
  | .blocked _ _ | .woken _ _ => False

/-- What holds for the others. -/
def Other (asleep : Option Monitor.Sleep) (opened : Nat) : Place → Prop
  | .outside => asleep = none ∧ opened = 0
  | .blocked n _ =>
      ∃ sleep, asleep = some sleep ∧ sleep.woken = none ∧
        opened = sleep.depth ∧ n = sleep.depth
  | .woken n r =>
      ∃ sleep, asleep = some sleep ∧ sleep.woken = some r ∧
        opened = sleep.depth ∧ n = sleep.depth
  | _ => False

structure Refines (s : Mutex θ) (m : Monitor.State θ) : Prop where
  free : s.owner = none → m.inside = none ∧ s.locked = 0
  owner : ∀ t, s.owner = some t →
    m.asleep t = none ∧ Owner s.locked m.inside m.depth t (s.opened t) (s.place t)
  other : ∀ t, s.owner ≠ some t → Other (m.asleep t) (s.opened t) (s.place t)

variable {s s' : Mutex θ} {m m' : Monitor.State θ} {t : θ}

omit [DecidableEq θ] in
theorem refines_initial : Refines ({} : Mutex θ) Monitor.State.empty where
  free _ := ⟨rfl, rfl⟩
  owner t ht := by cases ht
  other t _ := ⟨rfl, rfl⟩

theorem Owner.outside (h : Refines s m) (hplace : s.place t = .outside) (hopened : 0 < s.opened t) :
    s.owner = some t ∧ m.inside = some t ∧ s.locked = m.depth ∧ s.opened t = m.depth := by
  by_cases howner : s.owner = some t
  · have hat := (h.owner t howner).2
    rw [hplace] at hat
    exact ⟨howner, hat⟩
  · have hat := h.other t howner
    rw [hplace] at hat
    have := hat.2
    omega

/-- A thread within a call, unless it waits for the mutex, has it. -/
theorem Refines.owner_of_place (h : Refines s m) (houtside : s.place t ≠ .outside)
    (hblocked : ∀ n timed, s.place t ≠ .blocked n timed)
    (hwoken : ∀ n r, s.place t ≠ .woken n r) :
    s.owner = some t := by
  by_contra howner
  have hat := h.other t howner
  revert hat
  unfold Other
  split
  · next hplace => exact absurd hplace houtside
  · next n timed hplace => exact absurd hplace (hblocked n timed)
  · next n r hplace => exact absurd hplace (hwoken n r)
  · exact id

omit [DecidableEq θ] in
theorem Owner.inside {locked : Int} {inside : Option θ} {depth opened : Nat} {p : Place}
    (h : Owner locked inside depth t opened p) : inside = none ∨ inside = some t := by
  cases p with
  | outside => exact .inr h.1
  | locked => exact h.1
  | counting n => exact h.1
  | uncounting n => exact .inr h.1
  | unlocking => exact .inl h.1
  | tested timed => exact .inr h.1
  | saved n timed => exact .inr h.1
  | cleared n timed => exact .inr h.1
  | blocked n timed => exact False.elim h
  | woken n r => exact False.elim h
  | returned n r => exact .inr h.1

omit [DecidableEq θ] in
theorem Refines.owner_of_inside (h : Refines s m) (hinside : m.inside = some t) :
    s.owner = some t := by
  cases howner : s.owner with
  | none => exact absurd ((h.free howner).1.symm.trans hinside) (by simp)
  | some u =>
      rcases (h.owner u howner).2.inside with hnone | hsome
      · exact absurd (hnone.symm.trans hinside) (by simp)
      · exact hsome.symm.trans hinside

/-- **Frame.** A step of `t` that leaves the mutex with `t`, or free, says nothing about the
others. -/
theorem Refines.frame (h : Refines s m) (howner : s.owner = none ∨ s.owner = some t)
    (howner' : s'.owner = none ∨ s'.owner = some t)
    (hsame : ∀ u, u ≠ t → s'.place u = s.place u ∧ s'.opened u = s.opened u ∧
      m'.asleep u = m.asleep u)
    (hfree : s'.owner = none →
      m'.inside = none ∧ s'.locked = 0 ∧ Other (m'.asleep t) (s'.opened t) (s'.place t))
    (hself : s'.owner = some t →
      m'.asleep t = none ∧ Owner s'.locked m'.inside m'.depth t (s'.opened t) (s'.place t)) :
    Refines s' m' where
  free hnone := ⟨(hfree hnone).1, (hfree hnone).2.1⟩
  owner u hu := by
    rcases howner' with hnone | hsome
    · rw [hnone] at hu
      cases hu
    · obtain rfl : t = u := Option.some.inj (hsome.symm.trans hu)
      exact hself hsome
  other u hu := by
    by_cases hut : u = t
    · subst hut
      rcases howner' with hnone | hsome
      · exact (hfree hnone).2.2
      · exact absurd hsome hu
    · obtain ⟨hplace, hopened, hasleep⟩ := hsame u hut
      rw [hplace, hopened, hasleep]
      apply h.other
      rcases howner with hnone | hsome
      · rw [hnone]
        simp
      · rw [hsome]
        exact fun heq => hut (Option.some.inj heq).symm

/-- **Frame, for the thread with the mutex.** It goes on within a call and keeps the mutex. -/
theorem Refines.keep (h : Refines s m) (howner : s.owner = some t) {p : Place} {n : Int}
    (hmonitor : m'.asleep = m.asleep) (hself : Owner n m'.inside m'.depth t (s.opened t) p) :
    Refines { s.goto t p with locked := n } m' := by
  have hasleep := (h.owner t howner).1
  refine h.frame (t := t) (.inr howner) (.inr howner) ?_ ?_ ?_
  · intro u hu
    exact ⟨Function.update_of_ne hu _ _, rfl, congrFun hmonitor u⟩
  · intro hnone
    exact absurd (howner.symm.trans hnone) (by simp)
  · intro _
    refine ⟨by rw [hmonitor, hasleep], ?_⟩
    change Owner n m'.inside m'.depth t (s.opened t) (Function.update s.place t p t)
    rw [Function.update_self]
    exact hself

/-! ### The steps of a thread in a call -/

theorem Refines.turn_locked (h : Refines s m) (howner : s.owner = some t)
    (hplace : s.place t = .locked) : Refines (s.turn t) m := by
  obtain ⟨-, hat⟩ := h.owner t howner
  rw [hplace] at hat
  obtain ⟨hinside, hlocked, hopened⟩ := hat
  rw [turn, hplace]
  exact h.keep howner (n := s.locked) rfl ⟨hinside, hlocked, hopened, rfl⟩

theorem Refines.turn_counting (h : Refines s m) (howner : s.owner = some t) {n : Int}
    (hplace : s.place t = .counting n) :
    Monitor.step m (.enter t) = some (m.enter t) ∧ Refines (s.turn t) (m.enter t) := by
  obtain ⟨-, hat⟩ := h.owner t howner
  rw [hplace] at hat
  obtain ⟨hinside, hlocked, hopened, rfl⟩ := hat
  refine ⟨if_pos hinside, ?_⟩
  rw [turn, hplace]
  refine h.keep howner rfl ⟨rfl, ?_, hopened⟩
  rw [hlocked]
  rfl

theorem Refines.turn_uncounting (h : Refines s m) (howner : s.owner = some t) {n : Int}
    (hplace : s.place t = .uncounting n) :
    Monitor.step m (.leave t) = some m.leave ∧ Refines (s.turn t) m.leave := by
  obtain ⟨-, hat⟩ := h.owner t howner
  rw [hplace] at hat
  obtain ⟨hinside, hlocked, hopened, hn⟩ := hat
  have hdepth : m.leave.depth = m.depth - 1 := rfl
  have hleft : m.leave.inside = if m.depth - 1 = 0 then none else m.inside := rfl
  refine ⟨if_pos hinside, ?_⟩
  rw [turn, hplace]
  refine h.keep howner rfl ?_
  rw [hdepth, hleft]
  split_ifs with hlast hzero hzero
  · exact ⟨rfl, hzero, by omega⟩
  · omega
  · omega
  · exact ⟨hinside, by omega, by omega⟩

theorem Refines.turn_tested (h : Refines s m) (howner : s.owner = some t) {timed : Bool}
    (hplace : s.place t = .tested timed) : Refines (s.turn t) m := by
  obtain ⟨-, hat⟩ := h.owner t howner
  rw [hplace] at hat
  obtain ⟨hinside, hlocked, hopened, hpos⟩ := hat
  rw [turn, hplace]
  exact h.keep howner (n := s.locked) rfl ⟨hinside, hlocked, hopened, hpos, hlocked⟩

theorem Refines.turn_saved (h : Refines s m) (howner : s.owner = some t) {n : Int} {timed : Bool}
    (hplace : s.place t = .saved n timed) : Refines (s.turn t) m := by
  obtain ⟨-, hat⟩ := h.owner t howner
  rw [hplace] at hat
  obtain ⟨hinside, hlocked, hopened, hpos, hn⟩ := hat
  rw [turn, hplace]
  exact h.keep howner rfl ⟨hinside, rfl, hopened, hpos, hn⟩

theorem Refines.turn_returned (h : Refines s m) (howner : s.owner = some t) {n : Int} {r : Bool}
    (hplace : s.place t = .returned n r) : Refines (s.turn t) m := by
  obtain ⟨-, hat⟩ := h.owner t howner
  rw [hplace] at hat
  obtain ⟨hinside, hlocked, hopened, hn⟩ := hat
  rw [turn, hplace]
  exact h.keep howner rfl ⟨hinside, hn, hopened⟩

theorem Refines.turn_unlocking (h : Refines s m) (howner : s.owner = some t)
    (hplace : s.place t = .unlocking) : Refines (s.turn t) m := by
  obtain ⟨hasleep, hat⟩ := h.owner t howner
  rw [hplace] at hat
  obtain ⟨hinside, hlocked, hopened⟩ := hat
  rw [turn, hplace]
  dsimp only
  rw [if_pos howner]
  refine h.frame (t := t) (.inr howner) (.inl rfl) ?_ ?_ ?_
  · intro u hu
    exact ⟨Function.update_of_ne hu _ _, rfl, rfl⟩
  · intro _
    refine ⟨hinside, hlocked, ?_⟩
    change Other (m.asleep t) (s.opened t) (Function.update s.place t .outside t)
    rw [Function.update_self]
    exact ⟨hasleep, hopened⟩
  · intro hsome
    cases hsome

theorem Refines.turn_cleared (h : Refines s m) (howner : s.owner = some t) {n : Int}
    {timed : Bool} (hplace : s.place t = .cleared n timed) :
    ∃ m', Monitor.step m (.sleep t) = some m' ∧ Refines (s.turn t) m' := by
  obtain ⟨-, hat⟩ := h.owner t howner
  rw [hplace] at hat
  obtain ⟨hinside, hlocked, hopened, hpos, hn⟩ := hat
  have hdepth : 0 < m.depth := hopened ▸ hpos
  refine ⟨m.sleep t hdepth, dif_pos ⟨hinside, hdepth⟩, ?_⟩
  rw [turn, hplace]
  dsimp only
  rw [if_pos howner]
  refine h.frame (t := t) (.inr howner) (.inl rfl) ?_ ?_ ?_
  · intro u hu
    exact ⟨Function.update_of_ne hu _ _, rfl, Function.update_of_ne hu _ _⟩
  · intro _
    refine ⟨rfl, hlocked, ?_⟩
    change Other (Function.update m.asleep t _ t) (s.opened t) (Function.update s.place t _ t)
    rw [Function.update_self, Function.update_self]
    exact ⟨_, rfl, rfl, hopened, hn⟩
  · intro hsome
    cases hsome

theorem Refines.turn_woken (h : Refines s m) (howner : s.owner = none) {n : Int} {r : Bool}
    (hplace : s.place t = .woken n r) :
    ∃ m', Monitor.step m (.resume t r) = some m' ∧ Refines (s.turn t) m' := by
  have hat := h.other t (by simp [howner])
  rw [hplace] at hat
  obtain ⟨sleep, hasleep, hwoken, hopened, hn⟩ := hat
  obtain ⟨hinside, hlocked⟩ := h.free howner
  have hstep : Monitor.step m (.resume t r) = some (m.resume t sleep) := by
    simp [Monitor.step, hasleep, hinside, hwoken]
  refine ⟨_, hstep, ?_⟩
  rw [turn, hplace]
  refine h.frame (t := t) (.inl howner) (.inr rfl) ?_ ?_ ?_
  · intro u hu
    exact ⟨Function.update_of_ne hu _ _, rfl, Function.update_of_ne hu _ _⟩
  · intro hnone
    cases hnone
  · intro _
    refine ⟨Function.update_self _ _ _, ?_⟩
    change Owner s.locked (some t) sleep.depth t (s.opened t) (Function.update s.place t _ t)
    rw [Function.update_self]
    exact ⟨rfl, hlocked, hopened, hn⟩

theorem Refines.turn (h : Refines s m) (henabled : s.Enabled (.turn t)) :
    ∃ m', run Monitor.step m (s.performs (.turn t)).toList = some m' ∧
    Refines (s.turn t) m' := by
  have hat : ∀ {p : Place}, s.place t = p → p ≠ .outside →
    (∀ n timed, p ≠ .blocked n timed) →
      (∀ n r, p ≠ .woken n r) → s.owner = some t := by
    rintro p rfl houtside hblocked hwoken
    exact h.owner_of_place houtside hblocked hwoken
  have one : ∀ {op : Monitor.Op θ} {m' : Monitor.State θ}, Monitor.step m op = some m' →
      run Monitor.step m [op] = some m' := fun hop => run_cons_eq_some.mpr ⟨_, hop, rfl⟩
  unfold Enabled at henabled
  change ∃ m', run Monitor.step m ((s.place t).performs t).toList = some m' ∧
    Refines (s.turn t) m'
  cases hplace : s.place t with
  | outside => simp [hplace] at henabled
  | blocked n timed => simp [hplace] at henabled
  | woken n r =>
      have hfree : s.owner = none := by simpa [hplace] using henabled
      obtain ⟨m', hop, hnext⟩ := h.turn_woken hfree hplace
      exact ⟨m', one hop, hnext⟩
  | locked =>
      have howner := hat hplace (by simp) (by simp) (by simp)
      exact ⟨m, rfl, h.turn_locked howner hplace⟩
  | counting n =>
      have howner := hat hplace (by simp) (by simp) (by simp)
      obtain ⟨hop, hnext⟩ := h.turn_counting howner hplace
      exact ⟨_, one hop, hnext⟩
  | uncounting n =>
      have howner := hat hplace (by simp) (by simp) (by simp)
      obtain ⟨hop, hnext⟩ := h.turn_uncounting howner hplace
      exact ⟨_, one hop, hnext⟩
  | unlocking =>
      have howner := hat hplace (by simp) (by simp) (by simp)
      exact ⟨m, rfl, h.turn_unlocking howner hplace⟩
  | tested timed =>
      have howner := hat hplace (by simp) (by simp) (by simp)
      exact ⟨m, rfl, h.turn_tested howner hplace⟩
  | saved n timed =>
      have howner := hat hplace (by simp) (by simp) (by simp)
      exact ⟨m, rfl, h.turn_saved howner hplace⟩
  | cleared n timed =>
      have howner := hat hplace (by simp) (by simp) (by simp)
      obtain ⟨m', hop, hnext⟩ := h.turn_cleared howner hplace
      exact ⟨m', one hop, hnext⟩
  | returned n r =>
      have howner := hat hplace (by simp) (by simp) (by simp)
      exact ⟨m, rfl, h.turn_returned howner hplace⟩

/-! ### The calls -/

theorem Refines.lock (h : Refines s m) (hplace : s.place t = .outside)
    (hfree : s.owner = none ∨ s.owner = some t) : Refines (s.after (.lock t)) m := by
  refine h.frame (t := t) hfree (.inr rfl) ?_ ?_ ?_
  · intro u hu
    exact ⟨Function.update_of_ne hu _ _, Function.update_of_ne hu _ _, rfl⟩
  · intro hnone
    cases hnone
  · intro _
    change m.asleep t = none ∧ Owner s.locked m.inside m.depth t
      (Function.update s.opened t (s.opened t + 1) t) (Function.update s.place t .locked t)
    rw [Function.update_self, Function.update_self]
    rcases hfree with hnone | hown
    · obtain ⟨hinside, hlocked⟩ := h.free hnone
      have hat := h.other t (by simp [hnone])
      rw [hplace] at hat
      obtain ⟨hasleep, hopened⟩ := hat
      have hdepth := m.entered.mp hinside
      exact ⟨hasleep, .inl hinside, by omega, by omega⟩
    · obtain ⟨hasleep, hat⟩ := h.owner t hown
      rw [hplace] at hat
      exact ⟨hasleep, .inr hat.1, hat.2.1, by rw [hat.2.2]⟩

theorem Refines.unlock (h : Refines s m) (hplace : s.place t = .outside)
    (hopened : 0 < s.opened t) :
    Refines (s.after (.unlock t)) m := by
  obtain ⟨howner, hinside, hlocked, hdepth⟩ := Owner.outside h hplace hopened
  refine h.frame (t := t) (.inr howner) (.inr howner) ?_ ?_ ?_
  · intro u hu
    exact ⟨Function.update_of_ne hu _ _, Function.update_of_ne hu _ _, rfl⟩
  · intro hnone
    exact absurd (howner.symm.trans hnone) (by simp)
  · intro _
    refine ⟨(h.owner t howner).1, ?_⟩
    change Owner s.locked m.inside m.depth t (Function.update s.opened t (s.opened t - 1) t)
      (Function.update s.place t (.uncounting (s.locked - 1)) t)
    rw [Function.update_self, Function.update_self]
    exact ⟨hinside, hlocked, by omega, by omega⟩

theorem Refines.wait (h : Refines s m) (hplace : s.place t = .outside) (hopened : 0 < s.opened t)
    (timed : Bool) : Refines (s.after (.wait t timed)) m := by
  obtain ⟨howner, hinside, hlocked, hdepth⟩ := Owner.outside h hplace hopened
  have hset : s.locked ≠ 0 := by omega
  unfold after
  dsimp only
  rw [if_pos hset]
  exact h.keep howner (n := s.locked) rfl ⟨hinside, hlocked, hdepth, hopened⟩

theorem Refines.noTime (h : Refines s m) (hplace : s.place t = .tested true) :
    Refines (s.after (.noTime t)) m := by
  have howner : s.owner = some t :=
    h.owner_of_place (by simp [hplace]) (by simp [hplace]) (by simp [hplace])
  obtain ⟨-, hat⟩ := h.owner t howner
  rw [hplace] at hat
  exact h.keep howner (n := s.locked) rfl ⟨hat.1, hat.2.1, hat.2.2.1⟩

omit [DecidableEq θ] in
theorem Owner.wakeUp {locked : Int} {inside : Option θ} {depth opened : Nat} {p : Place} (r : Bool)
    (h : Owner locked inside depth t opened p) :
    Owner locked inside depth t opened (p.wakeUp r) := by
  unfold Place.wakeUp
  split
  · exact False.elim h
  · exact h

theorem Other.wakeUp {asleep : Option Monitor.Sleep} {opened : Nat} {p : Place} (r : Bool)
    (h : Other asleep opened p) :
    Other (asleep.map (Monitor.Sleep.wake r)) opened (p.wakeUp r) := by
  cases p with
  | outside => exact ⟨by rw [h.1, Option.map_none], h.2⟩
  | blocked n timed =>
      obtain ⟨sleep, hasleep, hwoken, hopened, hn⟩ := h
      refine ⟨sleep.wake r, by rw [hasleep, Option.map_some], ?_, hopened, hn⟩
      rw [Monitor.Sleep.wake, hwoken, Option.none_or]
  | woken n r' =>
      obtain ⟨sleep, hasleep, hwoken, hopened, hn⟩ := h
      refine ⟨sleep.wake r, by rw [hasleep, Option.map_some], ?_, hopened, hn⟩
      rw [Monitor.Sleep.wake, hwoken, Option.some_or]
  | _ => exact False.elim h

theorem Refines.broadcast (h : Refines s m) :
    ∃ m', Monitor.step m .wakeAll = some m' ∧ Refines (s.after (.broadcast t)) m' := by
  refine ⟨_, rfl, h.free, fun u hu => ?_, fun u hu => (h.other u hu).wakeUp true⟩
  obtain ⟨hasleep, hat⟩ := h.owner u hu
  exact ⟨by simp [hasleep], hat.wakeUp true⟩

theorem Refines.wakeUp (h : Refines s m) (r : Bool) (hblocked : (s.place t).isBlocked) :
    ∃ m', Monitor.step m (.wake t r) = some m' ∧
    Refines (s.goto t ((s.place t).wakeUp r)) m' := by
  have hother : s.owner ≠ some t := by
    intro howner
    have hat := (h.owner t howner).2
    revert hblocked hat
    unfold Place.isBlocked
    split
    · next hplace =>
        rw [hplace]
        exact fun _ hfalse => hfalse
    · exact fun hfalse => absurd hfalse (by simp)
  refine ⟨_, rfl, h.free, fun u hu => ?_, fun u hu => ?_⟩
  · have hut : u ≠ t := fun heq => hother (heq ▸ hu)
    obtain ⟨hasleep, hat⟩ := h.owner u hu
    exact ⟨(Function.update_of_ne hut _ _).trans hasleep, by simpa [goto, hut] using hat⟩
  · by_cases hut : u = t
    · subst hut
      simpa [goto] using (h.other u hu).wakeUp r
    · simpa [goto, hut] using h.other u hu

/-! ### Runs -/

theorem Refines.after (h : Refines s m) {e : Event θ} (hpaired : s.Paired e)
    (henabled : s.Enabled e) :
    ∃ m', run Monitor.step m (s.performs e).toList = some m' ∧ Refines (s.after e) m' := by
  have one : ∀ {op : Monitor.Op θ} {s' : Mutex θ},
      (∃ m', Monitor.step m op = some m' ∧ Refines s' m') →
      ∃ m', run Monitor.step m [op] = some m' ∧ Refines s' m' := by
    rintro op s' ⟨m', hop, hnext⟩
    exact ⟨m', run_cons_eq_some.mpr ⟨m', hop, rfl⟩, hnext⟩
  cases e with
  | lock t => exact ⟨m, rfl, h.lock henabled.1 henabled.2⟩
  | unlock t => exact ⟨m, rfl, h.unlock henabled hpaired⟩
  | wait t timed => exact ⟨m, rfl, h.wait henabled hpaired timed⟩
  | broadcast t => exact one h.broadcast
  | turn t => exact h.turn henabled
  | noTime t => exact ⟨m, rfl, h.noTime henabled⟩
  | wakeUp t => exact one (h.wakeUp true henabled)
  | timeOut t => exact one (h.wakeUp false henabled.1)

/-- What the threads see of the monitor. -/
structure Shows (s : Mutex θ) (m : Monitor.State θ) : Prop where
  /-- A thread outside of the calls is as deep inside as it has calls of `Lock` to undo. -/
  depth : ∀ t, s.place t = .outside → m.depthOf t = s.opened t
  /-- No other thread is, then. -/
  alone : ∀ t, s.place t = .outside → 0 < s.opened t →
    s.owner = some t ∧ s.locked = s.opened t
  free : (∀ t, s.place t = .outside ∧ s.opened t = 0) → s.owner = none ∧ s.locked = 0
  /-- pthread is never asked to unlock a mutex that the thread does not have. -/
  owned : ∀ t,
    s.place t = .unlocking ∨ (∃ n timed, s.place t = .cleared n timed) → s.owner = some t

theorem Refines.shows (h : Refines s m) : Shows s m where
  depth t hplace := by
    unfold Monitor.State.depthOf
    by_cases howner : s.owner = some t
    · have hat := (h.owner t howner).2
      rw [hplace] at hat
      rw [if_pos hat.1, hat.2.2]
    · have hat := h.other t howner
      rw [hplace] at hat
      rw [hat.2, if_neg fun hinside => howner (h.owner_of_inside hinside)]
  alone t hplace hopened := by
    obtain ⟨howner, -, hlocked, hdepth⟩ := Owner.outside h hplace hopened
    exact ⟨howner, by omega⟩
  free hall := by
    cases howner : s.owner with
    | none => exact ⟨rfl, (h.free howner).2⟩
    | some t =>
        have hat := (h.owner t howner).2
        rw [(hall t).1] at hat
        obtain ⟨hinside, -, hdepth⟩ := hat
        have hout := m.entered.mpr (hdepth.symm.trans (hall t).2)
        exact absurd (hinside.symm.trans hout) (by simp)
  owned t hplace := by
    rcases hplace with hplace | ⟨n, timed, hplace⟩
    · exact h.owner_of_place (by simp [hplace]) (by simp [hplace]) (by simp [hplace])
    · exact h.owner_of_place (by simp [hplace]) (by simp [hplace]) (by simp [hplace])

theorem refines_step (hR : Refines s m) (e : Event θ) (hpaired : s.Paired e)
    (hstep : step s e = some s') :
    ∃ m', run Monitor.step m (s.performs e).toList = some m' ∧ Refines s' m' := by
  obtain ⟨henabled, rfl⟩ := step_eq_some hstep
  exact hR.after hpaired henabled

/-- **`cMutex` and `cCondVar` are a monitor**, in every order of the steps of any number of threads
that call `Unlock`, `Wait` and `TimedWait` between a `Lock` and its `Unlock` only. -/
theorem refines_of_paired {es : List (Event θ)} (hrun : run step {} es = some s)
    (hpaired : Along step Paired {} es) :
    ∃ m, run Monitor.step Monitor.State.empty (performed step performs {} es) = some m ∧
      s.Shows m := by
  obtain ⟨m, hm, hR⟩ :=
    run_simulates (fun s e s' m hR hP hstep => refines_step hR e hP hstep) hrun
    hpaired refines_initial
  exact ⟨m, hm, hR.shows⟩

/-- A thread that waits while it is two deep inside, and another one that is inside meanwhile. -/
def waiting : List (Event Bool) :=
  [.lock false, .turn false, .turn false, .lock false, .turn false, .turn false,
    .wait false true, .turn false, .turn false, .turn false,
    .lock true, .turn true, .turn true, .broadcast true, .unlock true, .turn true, .turn true,
    .turn false, .turn false]

theorem refines_of_paired_waiting :
    ∃ s m, run step {} waiting = some s ∧
      run Monitor.step Monitor.State.empty (performed step performs {} waiting) = some m ∧
      m.depthOf false = 2 := by
  have hpaired : Along step Paired {} waiting := by decide
  obtain ⟨s, hrun⟩ : ∃ s, run step {} waiting = some s ∧ s.place false = .outside ∧
      s.opened false = 2 := ⟨_, rfl, rfl, rfl⟩
  obtain ⟨m, hm, hshows⟩ := refines_of_paired hrun.1 hpaired
  exact ⟨s, m, hrun.1, hm, (hshows.depth false hrun.2.1).trans hrun.2.2⟩

end Mutex

end Dbus2vdr.Threads

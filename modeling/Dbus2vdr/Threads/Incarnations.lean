import Dbus2vdr.Lib.Machine

/-!
# `cThread`

A `cThread` may be started again and again. Its two flags are all that its owner and the thread know
of each other: both clear them, the owner to make the thread end, the thread when it has ended.
`apart_of_run` says that no two threads of the object are there at once, as long as `Cancel` never
gives up waiting; a thread that has been given up clears the flags of the next one.
-/

namespace Dbus2vdr.Threads.Incarnations

open Machine

/-- Where a thread is in `StartThread`. -/
inductive Stage where
  | created
  | acting
  /-- Behind `Action`. -/
  | acted
  /-- Has cleared `running`. -/
  | stopped
  /-- Has cleared `active`. -/
  | ending
  | gone
  deriving DecidableEq, Repr

structure Thread where
  stage : Stage := .created
  /-- Has been given to `pthread_cancel`. -/
  cancelled : Bool := false
  deriving DecidableEq, Repr

/-- Where the owner is in `Start`, `Active` or `Cancel`. -/
inductive Caller where
  | idle
  | start
  /-- Has found `running` cleared. -/
  | checkActive
  /-- In the loop that waits for the previous thread. -/
  | waiting
  /-- At the second test of `active`. -/
  | test
  | setRunning
  | setActive
  | create
  | active
  /-- At `pthread_kill`. -/
  | probe
  | cancel (waitSeconds : Int)
  | cancelActive (waitSeconds : Int)
  /-- At the end of the loop in `Cancel`. -/
  | deadline
  /-- In `Active`, called by `Cancel`. -/
  | cancelTest
  | cancelProbe
  | giveUp
  deriving DecidableEq, Repr

inductive Outcome where
  | started (new : Bool)
  | failed
  | alive (b : Bool)
  /-- `Cancel` has seen the thread end, or there was none. -/
  | stopped
  /-- `Cancel(-1)` does not wait. -/
  | unawaited
  | gaveUp
  deriving DecidableEq, Repr

structure State where
  active : Bool := false
  running : Bool := false
  childTid : Option Nat := none
  /-- All threads the object has had. -/
  threads : List Thread := []
  caller : Caller := .idle
  last : Option Outcome := none
  /-- `Cancel` has been called since the last start. -/
  asked : Bool := false
  deriving DecidableEq, Repr

inductive Event where
  | start
  | active
  | cancel (waitSeconds : Int)
  /-- The owner's next step. `choice` says that the time is up, or that there is a new thread. -/
  | turn (choice : Bool)
  | child (k : Nat)
  /-- A thread that has been cancelled ends where it is. -/
  | cancelled (k : Nat)
  deriving DecidableEq, Repr

namespace Stage

/-- The thread still has to clear `active`. -/
def Live : Stage → Prop
  | created | acting | acted | stopped => True
  | _ => False

/-- The thread still has to clear `running`. -/
def Runs : Stage → Prop
  | created | acting | acted => True
  | _ => False

instance (stage : Stage) : Decidable stage.Live := by
  cases stage <;> unfold Live <;> infer_instance

instance (stage : Stage) : Decidable stage.Runs := by
  cases stage <;> unfold Runs <;> infer_instance

theorem Runs.live {stage : Stage} (h : stage.Runs) : stage.Live := by
  cases stage <;> trivial

def next : Stage → Stage
  | created => acting
  | acting => acted
  | acted => stopped
  | stopped => ending
  | _ => gone

end Stage

/-- The owner has made sure that there is no thread. -/
def Caller.Starting : Caller → Prop
  | setRunning | setActive | create => True
  | _ => False

namespace State

def Enabled (s : State) : Event → Prop
  | .start | .active | .cancel _ => s.caller = .idle
  | .turn _ => s.caller ≠ .idle
  | .child k => ∃ t ∈ s.threads[k]?, t.stage ≠ .gone
  | .cancelled k => ∃ t ∈ s.threads[k]?, t.cancelled = true

instance (s : State) (e : Event) : Decidable (s.Enabled e) := by
  cases e <;> simp only [Enabled] <;> infer_instance

/-- What `pthread_kill` finds. -/
def threadExists (s : State) : Bool :=
  match s.childTid with
  | none => false
  | some k => s.threads[k]?.any fun t => t.stage ≠ .gone

def goto (s : State) (caller : Caller) : State := { s with caller }

def finish (s : State) (outcome : Outcome) : State :=
  { s with caller := .idle, last := some outcome }

def clear (s : State) : State := { s with active := false, running := false }

def turn (s : State) (choice : Bool) : State :=
  match s.caller with
  | .idle => s
  | .start => if s.running then s.finish (.started false) else s.goto .checkActive
  | .checkActive => if s.active then s.goto .waiting else s.goto .test
  | .waiting => if !s.running && s.active && !choice then s else s.goto .test
  | .test => if s.active then s.finish (.started false) else s.goto .setRunning
  | .setRunning => { s.goto .setActive with running := true, asked := false }
  | .setActive => { s.goto .create with active := true }
  | .create =>
      if choice then
        { s.finish (.started true) with
          threads := s.threads ++ [{}]
          childTid := some s.threads.length }
      else
        s.clear.finish .failed
  | .active => if s.active then s.goto .probe else s.finish (.alive false)
  | .probe =>
      if s.threadExists then s.finish (.alive true)
      else { s.clear.finish (.alive false) with childTid := none }
  | .cancel waitSeconds =>
      { s.goto (.cancelActive waitSeconds) with running := false, asked := true }
  | .cancelActive waitSeconds =>
      if s.active then
        if -1 < waitSeconds then
          if 0 < waitSeconds then s.goto .deadline else s.goto .giveUp
        else
          s.finish .unawaited
      else
        s.finish .stopped
  | .deadline => if choice then s.goto .giveUp else s.goto .cancelTest
  | .cancelTest => if s.active then s.goto .cancelProbe else s.finish .stopped
  | .cancelProbe =>
      if s.threadExists then s.goto .deadline
      else { s.clear.finish .stopped with childTid := none }
  | .giveUp =>
      { s.finish .gaveUp with
        threads := match s.childTid with
          | none => s.threads
          | some k => s.threads.modify k ({ · with cancelled := true })
        childTid := none
        active := false }

/-- What a thread clears with its next step. -/
def writes (s : State) : Stage → State
  | .acted => { s with running := false }
  | .stopped => { s with active := false }
  | _ => s

def childStep (s : State) (k : Nat) : State :=
  match s.threads[k]? with
  | none => s
  | some t =>
      { s.writes t.stage with threads := s.threads.modify k ({ · with stage := t.stage.next }) }

def after (s : State) : Event → State
  | .start => s.goto .start
  | .active => s.goto .active
  | .cancel waitSeconds => s.goto (.cancel waitSeconds)
  | .turn choice => s.turn choice
  | .child k => s.childStep k
  | .cancelled k => { s with threads := s.threads.modify k ({ · with stage := .gone }) }

def step (s : State) (e : Event) : Option State := if s.Enabled e then some (s.after e) else none

/-- `Cancel` does not give up. -/
def Patient (s : State) : Event → Prop
  | .turn _ => s.caller ≠ .giveUp
  | _ => True

instance (s : State) (e : Event) : Decidable (s.Patient e) := by
  cases e <;> simp only [Patient] <;> infer_instance

theorem step_eq_some {s s' : State} {e : Event} (h : step s e = some s') :
    s.Enabled e ∧ s' = s.after e := by
  unfold step at h
  split at h
  · next henabled => exact ⟨henabled, (Option.some.inj h).symm⟩
  · exact absurd h (by simp)

end State

/-! ### One thread at a time -/

structure Sound (s : State) : Prop where
  uncancelled : ∀ t ∈ s.threads, t.cancelled = false
  live : ∀ (k : Nat) (t : Thread), s.threads[k]? = some t → t.stage.Live →
    s.childTid = some k ∧ s.active = true ∧ ¬ s.caller.Starting
  running : s.running = true →
    s.caller = .setActive ∨ s.caller = .create ∨ ∃ t ∈ s.threads, t.stage.Runs
  prepared : s.caller = .setActive ∨ s.caller = .create → s.running = true
  activated : s.caller = .create → s.active = true
  present : s.active = true → s.caller = .create ∨ ∃ t ∈ s.threads, t.stage.Live
  kept : ∀ t ∈ s.threads, t.stage.Runs → s.asked = false → s.running = true
  asked : s.asked = true → s.running = false
  stopped : s.caller = .idle → s.last = some .stopped → ∀ t ∈ s.threads, ¬ t.stage.Live

theorem sound_initial : Sound {} where
  uncancelled t ht := by simp at ht
  live k t ht := by simp at ht
  running h := by simp at h
  prepared h := by simp at h
  activated h := by simp at h
  present h := by simp at h
  kept t ht := by simp at ht
  asked h := by simp at h
  stopped _ h := by simp at h

variable {s s' : State} {e : Event}

theorem Sound.live_of_mem (h : Sound s) {t : Thread} (ht : t ∈ s.threads) (hlive : t.stage.Live) :
    s.active = true ∧ ¬ s.caller.Starting := by
  obtain ⟨k, hk⟩ := List.mem_iff_getElem?.mp ht
  exact (h.live k t hk hlive).2

theorem Sound.none_of_starting (h : Sound s) (hstarting : s.caller.Starting) :
    ∀ t ∈ s.threads, ¬ t.stage.Live := fun _ ht hlive =>
  (h.live_of_mem ht hlive).2 hstarting

theorem Sound.none_of_inactive (h : Sound s) (hactive : s.active = false) :
    ∀ t ∈ s.threads, ¬ t.stage.Live := fun _ ht hlive =>
  absurd (hactive.symm.trans (h.live_of_mem ht hlive).1) Bool.false_ne_true

theorem Sound.present_of_not_starting (h : Sound s) (hs : ¬ s.caller.Starting)
    (hactive : s.active = true) :
    ∃ t ∈ s.threads, t.stage.Live :=
  (h.present hactive).resolve_left fun heq => hs (heq ▸ trivial)

/-- The owner goes on, and neither starts a thread now nor before. -/
theorem Sound.calm (h : Sound s) {caller : Caller} {last : Option Outcome}
    (hs : ¬ s.caller.Starting) (hcaller : ¬ caller.Starting)
    (hlast : caller = .idle → last = some .stopped → ∀ t ∈ s.threads, ¬ t.stage.Live) :
    Sound { s with caller, last } where
  uncancelled := h.uncancelled
  live k t ht hlive := ⟨(h.live k t ht hlive).1, (h.live k t ht hlive).2.1, hcaller⟩
  running hrunning := by
    rcases h.running hrunning with heq | heq | hruns
    · exact absurd (heq ▸ trivial) hs
    · exact absurd (heq ▸ trivial) hs
    · exact Or.inr (Or.inr hruns)
  prepared hstarting := by
    rcases hstarting with rfl | rfl <;> exact absurd trivial hcaller
  activated hcreate := by
    subst hcreate
    exact absurd trivial hcaller
  present hactive := Or.inr (h.present_of_not_starting hs hactive)
  kept := h.kept
  asked := h.asked
  stopped := hlast

theorem Sound.goto (h : Sound s) {caller : Caller} (hs : ¬ s.caller.Starting)
    (hcaller : ¬ caller.Starting) (hidle : caller ≠ .idle) : Sound (s.goto caller) :=
  h.calm hs hcaller fun heq => absurd heq hidle

theorem Sound.finish (h : Sound s) {outcome : Outcome} (hs : ¬ s.caller.Starting)
    (houtcome : outcome ≠ .stopped) : Sound (s.finish outcome) :=
  h.calm hs id fun _ heq => absurd (Option.some.inj heq) houtcome

theorem Sound.finish_stopped (h : Sound s) (hs : ¬ s.caller.Starting)
    (hactive : s.active = false) :
    Sound (s.finish .stopped) :=
  h.calm hs id fun _ _ => h.none_of_inactive hactive

/-- There is no thread, and both flags are cleared. -/
theorem sound_of_none {threads : List Thread}
    (huncancelled : ∀ t ∈ threads, t.cancelled = false)
    (hnone : ∀ t ∈ threads, ¬ t.stage.Live) (childTid : Option Nat) (last : Option Outcome)
    (asked : Bool) : Sound ⟨false, false, childTid, threads, .idle, last, asked⟩ where
  uncancelled := huncancelled
  live k t ht hlive := absurd hlive (hnone t (List.mem_of_getElem? ht))
  running hrunning := absurd hrunning Bool.false_ne_true
  prepared hstarting := by simp at hstarting
  activated hcreate := by simp at hcreate
  present hactive := absurd hactive Bool.false_ne_true
  kept t ht hruns := absurd hruns.live (hnone t ht)
  asked _ := rfl
  stopped _ _ := hnone

/-- `pthread_kill` only fails when no thread is left. -/
theorem Sound.none_of_not_exists (h : Sound s) (hnot : s.threadExists = false) :
    ∀ t ∈ s.threads, ¬ t.stage.Live := by
  intro t ht hlive
  obtain ⟨k, hk⟩ := List.mem_iff_getElem?.mp ht
  have hne : t.stage ≠ .gone := fun heq => by
    rw [heq] at hlive
    exact hlive
  have hexists : s.threadExists = true := by
    unfold State.threadExists
    rw [(h.live k t hk hlive).1]
    dsimp only
    rw [hk, Option.any_some]
    exact decide_eq_true hne
  exact absurd (hnot.symm.trans hexists) Bool.false_ne_true

theorem Sound.create (h : Sound s) (hcaller : s.caller = .create) (choice : Bool) :
    Sound (s.turn choice) := by
  have hnone := h.none_of_starting (by rw [hcaller]; trivial)
  unfold State.turn
  rw [hcaller]
  dsimp only
  cases choice with
  | false => exact sound_of_none h.uncancelled hnone _ _ _
  | true =>
      rw [if_pos rfl]
      refine ⟨fun t ht => ?_, fun k t ht hlive => ?_, fun _ =>
        Or.inr (Or.inr ⟨{}, by simp, trivial⟩), ?_, ?_,
        fun _ => Or.inr ⟨{}, by simp, trivial⟩, fun t ht hruns _ =>
        h.prepared (Or.inr hcaller), h.asked, ?_⟩
      · cases List.mem_append.mp ht with
        | inl hold => exact h.uncancelled t hold
        | inr hnew =>
            rw [List.mem_singleton.mp hnew]
      · have hk : k = s.threads.length := by
          dsimp only at ht
          rw [List.getElem?_append] at ht
          split_ifs at ht with hlt
          · exact absurd hlive (hnone t (List.mem_of_getElem? ht))
          · rw [List.getElem?_singleton] at ht
            split_ifs at ht
            omega
        exact ⟨congrArg some hk.symm, h.activated hcaller, id⟩
      · rintro (heq | heq) <;> cases heq
      · rintro heq
        cases heq
      · rintro - heq
        cases heq

theorem Sound.setRunning (h : Sound s) (hcaller : s.caller = .setRunning) :
    Sound { s.goto .setActive with running := true, asked := false } where
  uncancelled := h.uncancelled
  live k t ht hlive :=
    absurd hlive (h.none_of_starting (by rw [hcaller]; trivial) t (List.mem_of_getElem? ht))
  running _ := Or.inl rfl
  prepared _ := rfl
  activated heq := absurd heq (by simp [State.goto])
  present hactive := Or.inr ((h.present hactive).resolve_left (by simp [hcaller]))
  kept _ _ _ _ := rfl
  asked hasked := absurd hasked Bool.false_ne_true
  stopped heq := absurd heq (by simp [State.goto])

theorem Sound.setActive (h : Sound s) (hcaller : s.caller = .setActive) :
    Sound { s.goto .create with active := true } where
  uncancelled := h.uncancelled
  live k t ht hlive :=
    absurd hlive (h.none_of_starting (by rw [hcaller]; trivial) t (List.mem_of_getElem? ht))
  running _ := Or.inr (Or.inl rfl)
  prepared _ := h.prepared (Or.inl hcaller)
  activated _ := rfl
  present _ := Or.inl rfl
  kept := h.kept
  asked := h.asked
  stopped heq := absurd heq (by simp [State.goto])

theorem Sound.test (h : Sound s) (hs : ¬ s.caller.Starting) (hactive : s.active = false) :
    Sound (s.goto .setRunning) where
  uncancelled := h.uncancelled
  live k t ht hlive := absurd hlive (h.none_of_inactive hactive t (List.mem_of_getElem? ht))
  running hrunning := by
    rcases h.running hrunning with heq | heq | ⟨t, ht, hruns⟩
    · exact absurd (heq ▸ trivial) hs
    · exact absurd (heq ▸ trivial) hs
    · exact absurd hruns.live (h.none_of_inactive hactive t ht)
  prepared heq := absurd heq (by simp [State.goto])
  activated heq := absurd heq (by simp [State.goto])
  present hactive' := absurd (hactive.symm.trans hactive') Bool.false_ne_true
  kept := h.kept
  asked := h.asked
  stopped heq := absurd heq (by simp [State.goto])

theorem Sound.cancel (h : Sound s) (hs : ¬ s.caller.Starting) (waitSeconds : Int) :
    Sound { s.goto (.cancelActive waitSeconds) with running := false, asked := true } where
  uncancelled := h.uncancelled
  live k t ht hlive := ⟨(h.live k t ht hlive).1, (h.live k t ht hlive).2.1, id⟩
  running hrunning := absurd hrunning Bool.false_ne_true
  prepared heq := absurd heq (by simp [State.goto])
  activated heq := absurd heq (by simp [State.goto])
  present hactive := Or.inr (h.present_of_not_starting hs hactive)
  kept _ _ _ hasked := absurd hasked (by simp)
  asked _ := rfl
  stopped heq := absurd heq (by simp [State.goto])

theorem Sound.turn (h : Sound s) (hpatient : s.caller ≠ .giveUp) (choice : Bool) :
    Sound (s.turn choice) := by
  have hs : ¬ s.caller.Starting ∨ s.caller = .setRunning ∨ s.caller = .setActive ∨
      s.caller = .create := by
    cases s.caller <;> simp [Caller.Starting]
  unfold State.turn
  rcases hs with hs | hcaller | hcaller | hcaller
  · cases hcaller : s.caller with
    | idle => exact h
    | start =>
        dsimp only
        split_ifs
        · exact h.finish hs (by simp)
        · exact h.goto hs id (by simp)
    | checkActive =>
        dsimp only
        split_ifs
        · exact h.goto hs id (by simp)
        · exact h.goto hs id (by simp)
    | waiting =>
        dsimp only
        split_ifs
        · exact h
        · exact h.goto hs id (by simp)
    | test =>
        dsimp only
        split_ifs with hactive
        · exact h.finish hs (by simp)
        · exact h.test hs (Bool.eq_false_iff.mpr hactive)
    | active =>
        dsimp only
        split_ifs
        · exact h.goto hs id (by simp)
        · exact h.finish hs (by simp)
    | probe =>
        dsimp only
        split_ifs with hexists
        · exact h.finish hs (by simp)
        · exact sound_of_none h.uncancelled (h.none_of_not_exists (Bool.eq_false_iff.mpr hexists))
            _ _ _
    | cancel waitSeconds => exact h.cancel hs waitSeconds
    | cancelActive waitSeconds =>
        dsimp only
        split_ifs with hactive
        · exact h.goto hs id (by simp)
        · exact h.goto hs id (by simp)
        · exact h.finish hs (by simp)
        · exact h.finish_stopped hs (Bool.eq_false_iff.mpr hactive)
    | deadline =>
        dsimp only
        split_ifs
        · exact h.goto hs id (by simp)
        · exact h.goto hs id (by simp)
    | cancelTest =>
        dsimp only
        split_ifs with hactive
        · exact h.goto hs id (by simp)
        · exact h.finish_stopped hs (Bool.eq_false_iff.mpr hactive)
    | cancelProbe =>
        dsimp only
        split_ifs with hexists
        · exact h.goto hs id (by simp)
        · exact sound_of_none h.uncancelled (h.none_of_not_exists (Bool.eq_false_iff.mpr hexists))
            _ _ _
    | giveUp => exact absurd hcaller hpatient
    | setRunning =>
        rw [hcaller] at hs
        exact absurd trivial hs
    | setActive =>
        rw [hcaller] at hs
        exact absurd trivial hs
    | create =>
        rw [hcaller] at hs
        exact absurd trivial hs
  · rw [hcaller]
    exact h.setRunning hcaller
  · rw [hcaller]
    exact h.setActive hcaller
  · exact h.create hcaller choice

/-! ### A thread goes on -/

theorem getElem?_next {threads : List Thread} {k j : Nat} {t t' : Thread}
    (ht : threads[k]? = some t)
    (ht' : (threads.modify k ({ · with stage := t.stage.next }))[j]? = some t') :
    j = k ∧ t' = { t with stage := t.stage.next } ∨ j ≠ k ∧ threads[j]? = some t' := by
  rw [List.getElem?_modify] at ht'
  rcases eq_or_ne k j with rfl | hne
  · rw [ht] at ht'
    simp only [if_true] at ht'
    exact Or.inl ⟨rfl, (Option.some.inj ht').symm⟩
  · simp only [if_neg hne] at ht'
    exact Or.inr ⟨hne.symm, by simpa using ht'⟩

theorem getElem?_next_self {threads : List Thread} {k : Nat} {t : Thread}
    (ht : threads[k]? = some t) :
    (threads.modify k ({ · with stage := t.stage.next }))[k]? =
      some { t with stage := t.stage.next } := by
  rw [List.getElem?_modify, ht]
  simp

theorem getElem?_next_other {threads : List Thread} {k j : Nat} {t t' : Thread} (hne : j ≠ k)
    (ht' : threads[j]? = some t') :
    (threads.modify k ({ · with stage := t.stage.next }))[j]? = some t' := by
  rw [List.getElem?_modify]
  simpa [hne.symm] using ht'

theorem Stage.live_of_next {stage : Stage} (h : stage.next.Live) :
    stage.Live ∧ stage ≠ .stopped := by
  cases stage <;> simp_all [Stage.next, Stage.Live]

theorem Stage.runs_of_next {stage : Stage} (h : stage.next.Runs) :
    stage.Runs ∧ stage ≠ .acted := by
  cases stage <;> simp_all [Stage.next, Stage.Runs]

theorem Stage.next_runs {stage : Stage} (h : stage.Runs) (hne : stage ≠ .acted) :
    stage.next.Runs := by
  cases stage <;> simp_all [Stage.next, Stage.Runs]

theorem Stage.next_live {stage : Stage} (h : stage.Live) (hne : stage ≠ .stopped) :
    stage.next.Live := by
  cases stage <;> simp_all [Stage.next, Stage.Live]

namespace State

theorem writes_running (s : State) {stage : Stage} (hne : stage ≠ .acted) :
    (s.writes stage).running = s.running := by
  cases stage <;> first | rfl | exact absurd rfl hne

theorem writes_active (s : State) {stage : Stage} (hne : stage ≠ .stopped) :
    (s.writes stage).active = s.active := by
  cases stage <;> first | rfl | exact absurd rfl hne

theorem writes_eq (s : State) (stage : Stage) :
    s.writes stage =
      { s with running := (s.writes stage).running, active := (s.writes stage).active } := by
  cases stage <;> rfl

end State

theorem Sound.live_unique (h : Sound s) {k j : Nat} {t t' : Thread} (ht : s.threads[k]? = some t)
    (ht' : s.threads[j]? = some t') (hlive : t.stage.Live) (hlive' : t'.stage.Live) : j = k :=
  Option.some.inj ((h.live j t' ht' hlive').1.symm.trans (h.live k t ht hlive).1)

theorem Sound.child (h : Sound s) (k : Nat) : Sound (s.childStep k) := by
  unfold State.childStep
  cases ht : s.threads[k]? with
  | none => exact h
  | some t =>
      have hmem : t ∈ s.threads := List.mem_of_getElem? ht
      dsimp only
      rw [s.writes_eq t.stage]
      refine ⟨fun t' ht' => ?_, fun j t' ht' hlive' => ?_, fun hrunning => ?_, fun hcaller => ?_,
        fun hcaller => ?_, fun hactive => ?_, fun t' ht' hruns hasked => ?_, fun hasked => ?_,
        fun hidle hlast t' ht' hlive' => ?_⟩
      · obtain ⟨j, hj⟩ := List.mem_iff_getElem?.mp ht'
        rcases getElem?_next ht hj with ⟨-, rfl⟩ | ⟨-, hj⟩
        · exact h.uncancelled t hmem
        · exact h.uncancelled t' (List.mem_of_getElem? hj)
      · rcases getElem?_next ht ht' with ⟨rfl, rfl⟩ | ⟨hne, hj⟩
        · obtain ⟨hlive, hstopped⟩ := Stage.live_of_next hlive'
          exact ⟨(h.live j t ht hlive).1,
            (s.writes_active hstopped).trans (h.live j t ht hlive).2.1,
            (h.live j t ht hlive).2.2⟩
        · have hstopped : t.stage ≠ .stopped := fun heq =>
            hne (h.live_unique ht hj (by rw [heq]; trivial) hlive')
          exact ⟨(h.live j t' hj hlive').1,
            (s.writes_active hstopped).trans (h.live j t' hj hlive').2.1,
            (h.live j t' hj hlive').2.2⟩
      · have hacted : t.stage ≠ .acted := fun heq => by
          rw [heq] at hrunning
          exact Bool.false_ne_true hrunning
        rcases h.running ((s.writes_running hacted).symm.trans hrunning)
          with heq | heq | ⟨t', ht', hruns⟩
        · exact Or.inl heq
        · exact Or.inr (Or.inl heq)
        · obtain ⟨j, hj⟩ := List.mem_iff_getElem?.mp ht'
          refine Or.inr (Or.inr ?_)
          rcases eq_or_ne j k with rfl | hne
          · cases ht.symm.trans hj
            exact ⟨_, List.mem_of_getElem? (getElem?_next_self ht),
              Stage.next_runs hruns hacted⟩
          · exact ⟨t', List.mem_of_getElem? (getElem?_next_other hne hj), hruns⟩
      · have hacted : t.stage ≠ .acted := fun heq =>
          (h.live k t ht (by rw [heq]; trivial)).2.2
            (by rcases hcaller with heq | heq <;> rw [heq] <;> trivial)
        exact (s.writes_running hacted).trans (h.prepared hcaller)
      · have hstopped : t.stage ≠ .stopped := fun heq =>
          (h.live k t ht (by rw [heq]; trivial)).2.2
            (by rw [show s.caller = .create from hcaller]; trivial)
        exact (s.writes_active hstopped).trans (h.activated hcaller)
      · have hstopped : t.stage ≠ .stopped := fun heq => by
          rw [heq] at hactive
          exact Bool.false_ne_true hactive
        rcases h.present ((s.writes_active hstopped).symm.trans hactive)
          with heq | ⟨t', ht', hlive⟩
        · exact Or.inl heq
        · obtain ⟨j, hj⟩ := List.mem_iff_getElem?.mp ht'
          refine Or.inr ?_
          rcases eq_or_ne j k with rfl | hne
          · cases ht.symm.trans hj
            exact ⟨_, List.mem_of_getElem? (getElem?_next_self ht),
              Stage.next_live hlive hstopped⟩
          · exact ⟨t', List.mem_of_getElem? (getElem?_next_other hne hj), hlive⟩
      · obtain ⟨j, hj⟩ := List.mem_iff_getElem?.mp ht'
        rcases getElem?_next ht hj with ⟨rfl, rfl⟩ | ⟨hne, hj⟩
        · obtain ⟨hruns, hacted⟩ := Stage.runs_of_next hruns
          exact (s.writes_running hacted).trans (h.kept t hmem hruns hasked)
        · have hacted : t.stage ≠ .acted := fun heq =>
            hne (h.live_unique ht hj (by rw [heq]; trivial) hruns.live)
          exact (s.writes_running hacted).trans (h.kept t' (List.mem_of_getElem? hj) hruns hasked)
      · rcases eq_or_ne t.stage .acted with heq | hacted
        · rw [heq]
          rfl
        · exact (s.writes_running hacted).trans (h.asked hasked)
      · obtain ⟨j, hj⟩ := List.mem_iff_getElem?.mp ht'
        rcases getElem?_next ht hj with ⟨rfl, rfl⟩ | ⟨-, hj⟩
        · exact h.stopped hidle hlast t hmem (Stage.live_of_next hlive').1
        · exact h.stopped hidle hlast t' (List.mem_of_getElem? hj) hlive'

/-! ### Every interleaving -/

theorem sound_step (s : State) (e : Event) (s' : State) (h : Sound s) (hpatient : s.Patient e)
    (hstep : State.step s e = some s') : Sound s' := by
  obtain ⟨henabled, rfl⟩ := State.step_eq_some hstep
  have hcalm : s.caller = .idle → ¬ s.caller.Starting := fun hidle hstarting => by
    rw [hidle] at hstarting
    exact hstarting
  cases e with
  | start => exact h.goto (hcalm henabled) id (by simp)
  | active => exact h.goto (hcalm henabled) id (by simp)
  | cancel waitSeconds => exact h.goto (hcalm henabled) id (by simp)
  | turn choice => exact h.turn hpatient choice
  | child k => exact h.child k
  | cancelled k =>
      obtain ⟨t, ht, hcancelled⟩ := henabled
      exact absurd ((h.uncancelled t (List.mem_of_getElem? ht)).symm.trans hcancelled)
        Bool.false_ne_true

/-- **One thread at a time.** Whatever the owner and the threads do, as long as no `Cancel` gives
up: no two threads are there; between two calls `active` says whether there is one, and there is
none when the last call was a `Cancel` that has waited; and a thread is told to go on until `Cancel`
is called. -/
theorem apart_of_run {es : List Event} {s : State} (hrun : run State.step {} es = some s)
    (hpatient : Along State.step State.Patient {} es) :
    (∀ (k j : Nat) (t t' : Thread), s.threads[k]? = some t →
      s.threads[j]? = some t' → t.stage.Live →
      t'.stage.Live → k = j) ∧
    (s.caller = .idle → (s.active = true ↔ ∃ t ∈ s.threads, t.stage.Live)) ∧
    (s.caller = .idle → s.last = some .stopped → ∀ t ∈ s.threads, ¬ t.stage.Live) ∧
    ∀ t ∈ s.threads, t.stage.Runs → (s.running = true ↔ s.asked = false) := by
  have h : Sound s := run_guarded_invariant sound_step hrun hpatient sound_initial
  refine ⟨fun k j t t' ht ht' hlive hlive' => (h.live_unique ht ht' hlive hlive').symm,
    fun hidle => ⟨fun hactive => ?_, fun ⟨t, ht, hlive⟩ => (h.live_of_mem ht hlive).1⟩,
    h.stopped, fun t ht hruns => ⟨fun hrunning => ?_, h.kept t ht hruns⟩⟩
  · exact (h.present hactive).resolve_left (by simp [hidle])
  · cases hasked : s.asked with
    | false => rfl
    | true => exact absurd ((h.asked hasked).symm.trans hrunning) Bool.false_ne_true

/-- A thread is started, cancelled, waited for and started again. -/
def restarted : List Event :=
  [.start] ++ List.replicate 6 (.turn true) ++
    [.child 0, .cancel 3, .turn true, .turn true, .turn false,
    .child 0, .turn true, .turn true, .child 0, .child 0, .turn false, .turn true, .start] ++
    List.replicate 6 (.turn true) ++ [.child 1]

theorem apart_of_run_restarted :
    ∃ s, run State.step {} restarted = some s ∧
    s.threads = [⟨.ending, false⟩, ⟨.acting, false⟩] ∧
      (∀ t ∈ s.threads, t.stage.Runs → (s.running = true ↔ s.asked = false)) :=
  have hrun := Option.eq_some_of_isSome (o := run State.step {} restarted) (by decide)
  ⟨_, hrun, by decide, (apart_of_run hrun (by decide)).2.2.2⟩

/-- After `Cancel` has given up, a second thread is started. The first one, which still acts, clears
the flags of the second. -/
def overlapped : List Event :=
  [.start] ++ List.replicate 6 (.turn true) ++
    [.child 0, .cancel 3, .turn true, .turn true, .turn true,
    .turn true, .start] ++ List.replicate 6 (.turn true) ++ [.child 1, .child 0, .child 0]

example : (run State.step {} overlapped).map (fun s => (s.threads, s.running, s.asked)) =
    some ([⟨.stopped, true⟩, ⟨.acting, false⟩], false, false) := by decide

end Dbus2vdr.Threads.Incarnations

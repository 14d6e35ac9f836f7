import Dbus2vdr.Lib.Machine

/-!
# Main loops in threads of their own

The constructor of `cDBusMainLoop` waits until its thread has started, not until there is a loop
that can be quit. The destructor quits the loop only when `_loop` is set, and `g_main_loop_run`
forgets a quit that was too early. `ends_iff_inRun` says that the destructor has to come when the
loop is running.
-/

namespace Dbus2vdr.MainLoop

open Machine

/-- The thread that has the `cDBusMainLoop`. -/
inductive Creator where
  /-- In the constructor, with `_started_mutex`. -/
  | locked
  /-- At `while (!_started)`, with `_started_mutex`. -/
  | starting
  /-- In `g_cond_wait`, which has unlocked the mutex. -/
  | waiting
  | constructed
  /-- The destructor has found `_loop` set. -/
  | quitting
  | joining
  | joined
  deriving DecidableEq, Repr

/-- The thread of `do_loop`. -/
inductive Thread where
  | absent
  | created
  /-- Has set `_started`, with `_started_mutex`. -/
  | signalling
  | started
  /-- Has set `_loop`. -/
  | entering
  | inRun
  | left
  | unreffed
  | ended
  deriving DecidableEq, Repr

structure State where
  creator : Creator := .locked
  thread : Thread := .absent
  started : Bool := false
  /-- `_loop != NULL` -/
  loop : Bool := false
  /-- The flag of the `GMainLoop` that `g_main_loop_run` sets and `g_main_loop_quit` clears. -/
  isRunning : Bool := false
  deriving DecidableEq, Repr

inductive Event where
  | newThread
  | condWait
  | wake
  | leaveConstructor
  | checkLoop
  | quit
  | join
  | signal
  | unlock
  | newLoop (made : Bool)
  | run
  | iterate
  | leaveRun
  | unref
  | clearLoop
  deriving DecidableEq, Repr

def Event.inThread : Event → Prop
  | .newThread | .condWait | .wake | .leaveConstructor | .checkLoop | .quit | .join => False
  | _ => True

namespace State

def mutexFree (s : State) : Prop :=
  s.creator ≠ .locked ∧ s.creator ≠ .starting ∧ s.thread ≠ .signalling

instance (s : State) : Decidable s.mutexFree := inferInstanceAs (Decidable (_ ∧ _ ∧ _))

/-- A `wake` may be spurious. An iteration that is under way when the loop is quit is woken up. -/
def Enabled (s : State) : Event → Prop
  | .newThread => s.creator = .locked
  | .condWait => s.creator = .starting ∧ s.started = false
  | .wake => s.creator = .waiting ∧ s.mutexFree
  | .leaveConstructor => s.creator = .starting ∧ s.started = true
  | .checkLoop => s.creator = .constructed
  | .quit => s.creator = .quitting
  | .join => s.creator = .joining ∧ s.thread = .ended
  | .signal => s.thread = .created ∧ s.mutexFree
  | .unlock => s.thread = .signalling
  | .newLoop _ => s.thread = .started
  | .run => s.thread = .entering
  | .iterate => s.thread = .inRun ∧ s.isRunning = true
  | .leaveRun => s.thread = .inRun ∧ s.isRunning = false
  | .unref => s.thread = .left
  | .clearLoop => s.thread = .unreffed

def after (s : State) : Event → State
  | .newThread => { s with creator := .starting, thread := .created }
  | .condWait => { s with creator := .waiting }
  | .wake => { s with creator := .starting }
  | .leaveConstructor => { s with creator := .constructed }
  | .checkLoop => if s.loop then { s with creator := .quitting } else { s with creator := .joining }
  | .quit => { s with creator := .joining, isRunning := false }
  | .join => { s with creator := .joined }
  | .signal => { s with thread := .signalling, started := true }
  | .unlock => { s with thread := .started }
  | .newLoop made =>
      if made then { s with thread := .entering, loop := true } else { s with thread := .ended }
  | .run => { s with thread := .inRun, isRunning := true }
  | .iterate => s
  | .leaveRun => { s with thread := .left }
  | .unref => { s with thread := .unreffed }
  | .clearLoop => { s with thread := .ended, loop := false }

instance decidableEnabled (s : State) : DecidablePred s.Enabled := by
  intro e
  cases e <;> unfold Enabled <;> infer_instance

def step : Step State Event := fun s e => if s.Enabled e then some (s.after e) else none

theorem step_eq_some {s s' : State} {e : Event} :
    step s e = some s' ↔ s.Enabled e ∧ s.after e = s' := by
  unfold step
  split_ifs with henabled <;> simp [henabled]

end State

/-! ### Who is where -/

def Thread.hasSignalled : Thread → Bool
  | .absent | .created => false
  | _ => true

def Thread.hasLoop : Thread → Bool
  | .entering | .inRun | .left | .unreffed => true
  | _ => false

/-- Without the destructor, the thread gets into the run of its loop and no further. -/
def Thread.upToRun : Thread → Bool
  | .started | .entering | .inRun | .ended => true
  | _ => false

def Creator.meets : Creator → Thread → Bool
  | .locked, thread => thread = .absent
  | .starting, thread => thread = .created || thread.upToRun
  | .waiting, thread => thread = .created || thread = .signalling || thread.upToRun
  | .constructed, thread => thread.upToRun
  | .quitting, thread => thread = .entering || thread = .inRun
  | .joining, thread => thread.hasSignalled && thread ≠ .signalling
  | .joined, thread => thread = .ended

namespace State

structure Handshake (s : State) : Prop where
  started : s.started = s.thread.hasSignalled
  loop : s.loop = s.thread.hasLoop
  meets : s.creator.meets s.thread
  /-- Nobody but the destructor quits the loop. -/
  running : s.thread = .inRun → s.creator ≠ .joining → s.isRunning = true

theorem handshake_initial : Handshake {} := ⟨rfl, rfl, rfl, fun h => by cases h⟩

section Meets

variable {creator : Creator} {thread : Thread}

theorem Creator.meets_joining (h : thread.upToRun = true) :
    Creator.joining.meets thread = true := by
  cases thread <;> first | rfl | cases h

theorem Creator.meets_of_started (h : creator.meets .started = true)
    (hthread : thread.upToRun = true) :
    creator.meets thread = true := by
  cases creator with
  | starting | waiting => simp [Creator.meets, hthread]
  | constructed => exact hthread
  | joining => exact meets_joining hthread
  | locked | quitting | joined => cases h

theorem Creator.meets_inRun (h : creator.meets .entering = true) : creator.meets .inRun = true := by
  cases creator <;> first | rfl | cases h

theorem Creator.waiting_of_created (h : creator.meets .created = true)
    (hlocked : creator ≠ .locked) (hstarting : creator ≠ .starting) : creator = .waiting := by
  cases creator <;> first | rfl | contradiction

theorem Creator.waiting_of_signalling (h : creator.meets .signalling = true) :
    creator = .waiting := by
  cases creator <;> first | rfl | cases h

theorem Creator.joining_of_left (h : creator.meets .left = true) : creator = .joining := by
  cases creator <;> first | rfl | cases h

theorem Creator.joining_of_unreffed (h : creator.meets .unreffed = true) : creator = .joining := by
  cases creator <;> first | rfl | cases h

end Meets

theorem Handshake.after_creator {s : State} {e : Event} (hs : s.Handshake) (he : s.Enabled e)
    (hout : ¬ e.inThread) : (s.after e).Handshake := by
  obtain ⟨creator, thread, started, loop, isRunning⟩ := s
  obtain ⟨hstarted, hloop, hmeets, hrunning⟩ := hs
  dsimp only at hstarted hloop hmeets hrunning
  subst hstarted hloop
  cases e with
  | newThread =>
      obtain rfl := he
      obtain rfl := of_decide_eq_true hmeets
      exact ⟨rfl, rfl, rfl, fun h => by cases h⟩
  | condWait =>
      obtain ⟨rfl, hnot⟩ := he
      refine ⟨rfl, rfl, ?_, fun hrun _ => hrunning hrun (by simp)⟩
      cases thread <;> simp_all [Creator.meets, State.after]
  | wake =>
      obtain ⟨rfl, -, -, hfree⟩ := he
      refine ⟨rfl, rfl, ?_, fun hrun _ => hrunning hrun (by simp)⟩
      cases thread <;> simp_all [Creator.meets, State.after]
  | leaveConstructor =>
      obtain ⟨rfl, hsignalled⟩ := he
      refine ⟨rfl, rfl, ?_, fun hrun _ => hrunning hrun (by simp)⟩
      cases thread <;> simp_all [Creator.meets, State.after, Thread.hasSignalled]
  | checkLoop =>
      obtain rfl := he
      rw [State.after]
      split
      · refine ⟨rfl, rfl, ?_, fun hrun _ => hrunning hrun (by simp)⟩
        cases thread <;> simp_all [Creator.meets, Thread.hasLoop, Thread.upToRun]
      · exact ⟨rfl, rfl, Creator.meets_joining hmeets, fun _ hne => absurd rfl hne⟩
  | quit =>
      obtain rfl := he
      have hrun : thread.upToRun = true := by
        cases thread <;> simp_all [Creator.meets, Thread.upToRun]
      exact ⟨rfl, rfl, Creator.meets_joining hrun, fun _ hne => absurd rfl hne⟩
  | join =>
      obtain ⟨rfl, rfl⟩ := he
      exact ⟨rfl, rfl, rfl, fun h => by cases h⟩
  | signal | unlock | newLoop | run | iterate | leaveRun | unref | clearLoop =>
      exact absurd trivial hout

theorem Handshake.after_thread {s : State} {e : Event} (hs : s.Handshake) (he : s.Enabled e)
    (hin : e.inThread) : (s.after e).Handshake := by
  obtain ⟨creator, thread, started, loop, isRunning⟩ := s
  obtain ⟨hstarted, hloop, hmeets, hrunning⟩ := hs
  dsimp only at hstarted hloop hmeets hrunning
  subst hstarted hloop
  cases e with
  | signal =>
      obtain ⟨rfl, hlocked, hstarting, -⟩ := he
      obtain rfl := Creator.waiting_of_created hmeets hlocked hstarting
      exact ⟨rfl, rfl, rfl, fun h => by cases h⟩
  | unlock =>
      obtain rfl := he
      obtain rfl := Creator.waiting_of_signalling hmeets
      exact ⟨rfl, rfl, rfl, fun h => by cases h⟩
  | newLoop made =>
      obtain rfl := he
      rw [State.after]
      split
      · exact ⟨rfl, rfl, Creator.meets_of_started hmeets rfl, fun h => by cases h⟩
      · exact ⟨rfl, rfl, Creator.meets_of_started hmeets rfl, fun h => by cases h⟩
  | run =>
      obtain rfl := he
      exact ⟨rfl, rfl, Creator.meets_inRun hmeets, fun _ _ => rfl⟩
  | iterate => exact ⟨rfl, rfl, hmeets, hrunning⟩
  | leaveRun =>
      obtain ⟨rfl, hquit⟩ := he
      obtain rfl : creator = .joining := by
        by_contra hne
        cases hquit.symm.trans (hrunning rfl hne)
      exact ⟨rfl, rfl, rfl, fun h => by cases h⟩
  | unref =>
      obtain rfl := he
      obtain rfl := Creator.joining_of_left hmeets
      exact ⟨rfl, rfl, rfl, fun h => by cases h⟩
  | clearLoop =>
      obtain rfl := he
      obtain rfl := Creator.joining_of_unreffed hmeets
      exact ⟨rfl, rfl, rfl, fun h => by cases h⟩
  | newThread | condWait | wake | leaveConstructor | checkLoop | quit | join => cases hin

theorem handshake_step (s : State) (e : Event) (s' : State) (hs : s.Handshake)
    (hstep : step s e = some s') : s'.Handshake := by
  obtain ⟨he, rfl⟩ := step_eq_some.mp hstep
  by_cases hin : e.inThread
  · exact hs.after_thread he hin
  · exact hs.after_creator he hin

/-! ### The end of the thread -/

def Left (s : State) : Prop := s.thread = .left ∨ s.thread = .unreffed ∨ s.thread = .ended

/-- Whatever the thread does, it gets behind `g_main_loop_run`. -/
def WillLeave (s : State) : Prop := Inevitably step Event.inThread Left s

/-- When the destructor waits for the thread, this has left the run of its loop or will leave it. -/
def Ends (s : State) : Prop := s.creator = .joining → s.WillLeave

/-- The destructor looks at `_loop` when it has been set, and quits the loop when it is running. -/
def InRun (s : State) : Event → Prop
  | .checkLoop => s.thread ≠ .started
  | .quit => s.thread = .inRun
  | _ => True

/-- The thread is at its loop or in front of it, and nobody is left who could quit it. -/
def Forgotten (s : State) : Prop :=
  s.thread = .started ∨ s.thread = .entering ∨ (s.thread = .inRun ∧ s.isRunning = true)

theorem Left.after {s : State} {e : Event} (hs : s.Left) (he : s.Enabled e) (hin : e.inThread) :
    (s.after e).Left := by
  cases e with
  | unref => exact Or.inr (Or.inl rfl)
  | clearLoop => exact Or.inr (Or.inr rfl)
  | signal | iterate | leaveRun =>
      rcases hs with hthread | hthread | hthread <;> cases hthread.symm.trans he.1
  | unlock | newLoop | run =>
      rcases hs with hthread | hthread | hthread <;> cases hthread.symm.trans he
  | newThread | condWait | wake | leaveConstructor | checkLoop | quit | join => cases hin

theorem Forgotten.not_willLeave {s : State} (hs : s.Forgotten) : ¬ s.WillLeave := by
  intro hleave
  refine hleave.not_trap ?_ ?_ hs
  · rintro s (hthread | hthread | ⟨hthread, -⟩) <;> simp [Left, hthread]
  · rintro s (hthread | hthread | ⟨hthread, hrunning⟩)
    · exact ⟨.newLoop true, _, trivial, step_eq_some.mpr ⟨hthread, rfl⟩,
        Or.inr (Or.inl rfl)⟩
    · exact ⟨.run, _, trivial, step_eq_some.mpr ⟨hthread, rfl⟩,
        Or.inr (Or.inr ⟨rfl, rfl⟩)⟩
    · exact ⟨.iterate, s, trivial, step_eq_some.mpr ⟨⟨hthread, hrunning⟩, rfl⟩,
        Or.inr (Or.inr ⟨hthread, hrunning⟩)⟩

theorem willLeave_of_quit {s : State} (hthread : s.thread = .inRun) (hquit : s.isRunning = false) :
    s.WillLeave := by
  refine .next ⟨.leaveRun, _, trivial, step_eq_some.mpr ⟨⟨hthread, hquit⟩, rfl⟩⟩ ?_
  intro e s' hin hstep
  obtain ⟨he, rfl⟩ := step_eq_some.mp hstep
  refine .now ?_
  cases e <;> simp_all [Enabled, Event.inThread, after, Left]

theorem Forgotten.not_ends {s : State} (hs : s.Forgotten) (hjoining : s.creator = .joining) :
    ¬ s.Ends := fun hends => hs.not_willLeave (hends hjoining)

theorem Handshake.ends_iff_of_checkLoop {s : State} (hs : s.Handshake) (he : s.Enabled .checkLoop) :
    (s.after .checkLoop).Ends ↔ s.InRun .checkLoop := by
  have hmeets := hs.meets
  rw [he] at hmeets
  rw [after]
  cases hloop : s.loop with
  | true =>
      have hthread : s.thread ≠ .started := by
        intro hstarted
        rw [hs.loop, hstarted] at hloop
        cases hloop
      exact iff_of_true (fun hjoining => by cases hjoining) hthread
  | false =>
      by_cases hstarted : s.thread = .started
      · exact iff_of_false (Forgotten.not_ends (Or.inl hstarted) rfl) fun hnot => hnot hstarted
      · have hended : s.thread = .ended := by
          rw [hs.loop] at hloop
          cases hthread : s.thread <;> simp_all [Creator.meets, Thread.upToRun, Thread.hasLoop]
        exact iff_of_true (fun _ => .now (Or.inr (Or.inr hended))) hstarted

theorem Handshake.ends_iff_of_quit {s : State} (hs : s.Handshake) (he : s.Enabled .quit) :
    (s.after .quit).Ends ↔ s.InRun .quit := by
  have hmeets := hs.meets
  rw [he] at hmeets
  rcases Bool.or_eq_true_iff.mp hmeets with hentering | hrunning
  · have hthread := of_decide_eq_true hentering
    refine iff_of_false (Forgotten.not_ends (Or.inr (Or.inl hthread)) rfl) fun hinRun => ?_
    cases hthread.symm.trans hinRun
  · have hthread := of_decide_eq_true hrunning
    exact iff_of_true (fun _ => willLeave_of_quit hthread rfl) hthread

theorem Handshake.ends_iff {s : State} {e : Event} (hs : s.Handshake) (hends : s.Ends)
    (he : s.Enabled e) : (s.after e).Ends ↔ s.InRun e := by
  have hother : (s.after e).creator ≠ .joining → ((s.after e).Ends ↔ True) := fun hne =>
    iff_of_true (fun hjoining => absurd hjoining hne) trivial
  have hthread : e.inThread → (s.after e).creator = s.creator →
      ((s.after e).Ends ↔ True) := by
    intro hin hcreator
    refine iff_of_true (fun hjoining => ?_) trivial
    rw [hcreator] at hjoining
    exact (hends hjoining).after (fun t e' t' ht hin' hstep => by
      obtain ⟨he', rfl⟩ := step_eq_some.mp hstep
      exact ht.after he' hin') hin (step_eq_some.mpr ⟨he, rfl⟩)
  cases e with
  | newThread | condWait | wake | leaveConstructor | join => exact hother (by simp [after])
  | checkLoop => exact hs.ends_iff_of_checkLoop he
  | quit => exact hs.ends_iff_of_quit he
  | newLoop made => exact hthread trivial (by rw [after]; split <;> rfl)
  | signal | unlock | run | iterate | leaveRun | unref | clearLoop => exact hthread trivial rfl

/-- **The end of a main loop.** In a run, whenever the destructor waits for the thread, this has
left `g_main_loop_run` or will leave it, exactly when the destructor always finds `_loop` and quits
a loop that is running. -/
theorem ends_iff_inRun {s : State} {es : List Event} (hrun : run step {} es = some s) :
    Throughout step Ends {} es ↔ Along step InRun {} es :=
  throughout_iff_along handshake_step
    (fun _ _ _ hs hends hstep => by
      obtain ⟨he, rfl⟩ := step_eq_some.mp hstep
      exact hs.ends_iff hends he)
    hrun handshake_initial fun hjoining => by cases hjoining

def untilStarted : List Event :=
  [.newThread, .condWait, .signal, .unlock, .wake, .leaveConstructor]

def quitInRun : List Event :=
  untilStarted ++
    [.newLoop true, .run, .iterate, .checkLoop, .quit, .leaveRun, .unref, .clearLoop, .join]

theorem ends_iff_inRun_quit :
    (run step {} quitInRun).isSome ∧
      (Throughout step Ends {} quitInRun ↔ Along step InRun {} quitInRun) :=
  ⟨by decide, ends_iff_inRun (Option.eq_some_of_isSome (by decide))⟩

/-- The destructor comes between the signal and `g_main_loop_new`, as when a network is stopped at
once. -/
theorem not_forall_ends :
    ¬ ∀ es s, run step {} es = some s → Throughout step Ends {} es := by
  intro h
  have hrun : run step {} (untilStarted ++ [.checkLoop]) =
      some { creator := .joining, thread := .started, started := true } := by decide
  exact Forgotten.not_ends (Or.inl rfl) rfl ((h _ _ hrun).last hrun)

end State

end Dbus2vdr.MainLoop

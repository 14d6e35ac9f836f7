import Dbus2vdr.CString
import Dbus2vdr.Lib.Machine

/-!
# The messages of the OSDs

`SendMessage` puts a message on the queue of its provider, and the thread of the provider takes it,
emits it as a signal and deletes it; the directory of an OSD goes with the message `Close`. The
thread stays until it has been cancelled and has found the queue empty. `delivered_iff_inTime` says
that no message is lost or overtaken, unless it comes after that.
-/

namespace Dbus2vdr.Osd

open Machine

inductive Action where
  | Open
  | Display
  | Close
  deriving DecidableEq, Repr

/-- `cDbusOsdMsg` -/
structure Msg where
  action : Action
  file : Bytes
  left : Int
  top : Int
  vx : Int
  vy : Int
  deriving DecidableEq, Repr

/-- A signal with a string and some numbers for its parameters. -/
structure Signal where
  name : Bytes
  file : Bytes
  numbers : List Int
  deriving DecidableEq, Repr

inductive Act where
  | emitSignal (signal : Signal)
  | removeDir (dir : Bytes)
  deriving DecidableEq, Repr

namespace Msg

/-- What the builder of `Action` makes of a message. -/
def signal (dbmsg : Msg) : Signal :=
  match dbmsg.action with
  | .Open => { name := ascii "Open", file := dbmsg.file, numbers := [dbmsg.left, dbmsg.top] }
  | .Display =>
      { name := ascii "Display"
        file := dbmsg.file
        numbers := [dbmsg.left, dbmsg.top, dbmsg.vx, dbmsg.vy] }
  | .Close => { name := ascii "Close", file := dbmsg.file, numbers := [] }

/-- `~cDbusOsdMsg` -/
def delete (dbmsg : Msg) : List Act :=
  if dbmsg.action = .Close then [.removeDir dbmsg.file] else []

def handled (dbmsg : Msg) : List Act := .emitSignal dbmsg.signal :: dbmsg.delete

end Msg

/-- Where the thread is in `Action`, with its `dbmsg`. -/
inductive Place where
  | atRunning
  /-- Has found `Running()` false. -/
  | atCount
  | atTake
  | emitting (dbmsg : Msg)
  | deleting (dbmsg : Msg)
  | atWait
  | waiting
  | left
  deriving DecidableEq, Repr

/-- A `cDBusOsdProvider` with an `_object`. -/
structure Provider where
  running : Bool := true
  msgQueue : List Msg := []
  place : Place := .atRunning
  /-- The members have been destroyed. -/
  destroyed : Bool := false
  /-- The messages of all calls of `SendMessage`, in their order. -/
  sent : List Msg := []
  acts : List Act := []
  deriving DecidableEq, Repr

inductive Event where
  | sendMessage (msg : Msg)
  /-- `Cancel` in the destructor. -/
  | cancel
  /-- The next step of the thread; a call of `TimedWait` may always end. -/
  | turn
  | destroy
  deriving DecidableEq, Repr

namespace Provider

def Enabled (s : Provider) : Event → Prop
  | .sendMessage _ => s.destroyed = false
  | .cancel => True
  | .turn => s.place ≠ .left
  | .destroy => s.running = false ∧ s.place = .left ∧ s.destroyed = false

def turn (s : Provider) : Provider :=
  match s.place with
  | .atRunning => if s.running then { s with place := .atTake } else { s with place := .atCount }
  | .atCount =>
      if 0 < s.msgQueue.length then { s with place := .atTake } else { s with place := .left }
  | .atTake =>
      match s.msgQueue with
      | [] => { s with place := .atWait }
      | dbmsg :: msgQueue => { s with msgQueue, place := .emitting dbmsg }
  | .emitting dbmsg =>
      { s with acts := s.acts ++ [.emitSignal dbmsg.signal], place := .deleting dbmsg }
  | .deleting dbmsg => { s with acts := s.acts ++ dbmsg.delete, place := .atWait }
  | .atWait =>
      if s.msgQueue.length = 0 then { s with place := .waiting } else { s with place := .atRunning }
  | .waiting => { s with place := .atRunning }
  | .left => s

def after (s : Provider) : Event → Provider
  | .sendMessage msg => { s with msgQueue := s.msgQueue ++ [msg], sent := s.sent ++ [msg] }
  | .cancel => { s with running := false }
  | .turn => s.turn
  | .destroy =>
      { s with destroyed := true, msgQueue := [], acts := s.acts ++ s.msgQueue.flatMap Msg.delete }

instance decidableEnabled (s : Provider) : DecidablePred s.Enabled := by
  intro e
  cases e <;> unfold Enabled <;> infer_instance

def step : Step Provider Event := fun s e => if s.Enabled e then some (s.after e) else none

theorem step_eq_some {s s' : Provider} {e : Event} :
    step s e = some s' ↔ s.Enabled e ∧ s.after e = s' := by
  unfold step
  split_ifs with henabled <;> simp [henabled]

end Provider

/-! ### What becomes of the messages -/

def signals (acts : List Act) : List Signal :=
  acts.filterMap fun act => match act with
    | .emitSignal signal => some signal
    | .removeDir _ => none

theorem signals_append (acts acts' : List Act) :
    signals (acts ++ acts') = signals acts ++ signals acts' :=
  List.filterMap_append

theorem signals_delete (dbmsg : Msg) : signals dbmsg.delete = [] := by
  unfold Msg.delete
  split <;> rfl

theorem signals_handled (dbmsgs : List Msg) :
    signals (dbmsgs.flatMap Msg.handled) = dbmsgs.map Msg.signal := by
  induction dbmsgs with
  | nil => rfl
  | cons dbmsg dbmsgs ih =>
      rw [List.flatMap_cons, signals_append, ih, List.map_cons]
      calc signals dbmsg.handled ++ dbmsgs.map Msg.signal
          = dbmsg.signal :: (signals dbmsg.delete ++ dbmsgs.map Msg.signal) := rfl
        _ = dbmsg.signal :: dbmsgs.map Msg.signal := by rw [signals_delete, List.nil_append]

/-- A directory is removed behind the signals of its message and of all messages before. -/
theorem removeDir_mem {dbmsgs : List Msg} {rest before behind : List Act} {dir : Bytes}
    (hrest : .removeDir dir ∉ rest)
    (hacts : dbmsgs.flatMap Msg.handled ++ rest = before ++ .removeDir dir :: behind) :
    ∃ front dbmsg back, dbmsgs = front ++ dbmsg :: back ∧ dbmsg.action = .Close ∧
    dbmsg.file = dir ∧
      before = front.flatMap Msg.handled ++ [.emitSignal dbmsg.signal] := by
  induction dbmsgs generalizing before with
  | nil =>
      rw [List.flatMap_nil, List.nil_append] at hacts
      exact absurd (hacts ▸ List.mem_append_right _ List.mem_cons_self) hrest
  | cons dbmsg dbmsgs ih =>
      rw [List.flatMap_cons, List.append_assoc] at hacts
      cases before with
      | nil => cases hacts
      | cons act before =>
          rw [Msg.handled, List.cons_append, List.cons_append, List.cons.injEq] at hacts
          obtain ⟨rfl, hacts⟩ := hacts
          by_cases hclose : dbmsg.action = .Close
          · rw [Msg.delete, if_pos hclose, List.singleton_append] at hacts
            cases before with
            | nil =>
                injection hacts with hdir
                injection hdir with hdir
                exact ⟨[], dbmsg, dbmsgs, rfl, hclose, hdir, rfl⟩
            | cons act before =>
                rw [List.cons_append, List.cons.injEq] at hacts
                obtain ⟨rfl, hacts⟩ := hacts
                obtain ⟨front, last, back, rfl, hlast, hdir, rfl⟩ := ih hacts
                refine ⟨dbmsg :: front, last, back, rfl, hlast, hdir, ?_⟩
                simp [Msg.handled, Msg.delete, hclose]
          · rw [Msg.delete, if_neg hclose, List.nil_append] at hacts
            obtain ⟨front, last, back, rfl, hlast, hdir, rfl⟩ := ih hacts
            refine ⟨dbmsg :: front, last, back, rfl, hlast, hdir, ?_⟩
            simp [Msg.handled, Msg.delete, hclose]

/-- The message that the thread has taken. -/
def Place.dbmsg : Place → List Msg
  | .emitting dbmsg | .deleting dbmsg => [dbmsg]
  | _ => []

def Place.begun : Place → List Act
  | .deleting dbmsg => [.emitSignal dbmsg.signal]
  | _ => []

namespace Provider

def emitted (s : Provider) : List Signal := signals s.acts

/-- The messages `done` have been handled, and the others are still to come in their order. -/
structure Ordered (s : Provider) (done : List Msg) : Prop where
  sent : s.sent = done ++ (s.place.dbmsg ++ s.msgQueue)
  acts : s.acts = done.flatMap Msg.handled ++ s.place.begun

structure Kept (s : Provider) : Prop where
  ordered : ∃ done, s.Ordered done
  drained : s.place = .left → s.msgQueue = []

theorem kept_initial : Kept {} := ⟨⟨[], rfl, rfl⟩, fun h => by cases h⟩

section Kept

variable {s : Provider} {e : Event}

theorem Ordered.emitted {done : List Msg} (h : s.Ordered done) :
    s.emitted = done.map Msg.signal ++ signals s.place.begun := by
  rw [Provider.emitted, h.acts, signals_append, signals_handled]

theorem Ordered.of_acts {done : List Msg} {s' : Provider} (h : s.Ordered done)
    (hsent : s'.sent = s.sent) (hacts : s'.acts = s.acts) (hbegun : s'.place.begun = s.place.begun)
    (hwaiting : s'.place.dbmsg ++ s'.msgQueue = s.place.dbmsg ++ s.msgQueue) : s'.Ordered done :=
  ⟨by rw [hsent, hwaiting, h.sent], by rw [hacts, hbegun, h.acts]⟩

theorem Ordered.turn {done : List Msg} (h : s.Ordered done) : ∃ done', s.turn.Ordered done' := by
  obtain ⟨running, msgQueue, place, destroyed, sent, acts⟩ := s
  obtain ⟨hsent, hacts⟩ := h
  dsimp only at hsent hacts
  subst hsent hacts
  cases place with
  | atRunning => cases running <;> exact ⟨done, rfl, rfl⟩
  | atCount => cases msgQueue <;> exact ⟨done, rfl, rfl⟩
  | atTake => cases msgQueue <;> exact ⟨done, rfl, rfl⟩
  | emitting dbmsg => exact ⟨done, rfl, by simp [Provider.turn, Place.begun]⟩
  | deleting dbmsg =>
      refine ⟨done ++ [dbmsg], ?_, ?_⟩
      · simp [Provider.turn, Place.dbmsg]
      · simp [Provider.turn, Place.begun, Msg.handled]
  | atWait => cases msgQueue <;> exact ⟨done, rfl, rfl⟩
  | waiting => exact ⟨done, rfl, rfl⟩
  | left => exact ⟨done, rfl, rfl⟩

theorem turn_sent (s : Provider) : s.turn.sent = s.sent := by
  unfold turn
  split
  all_goals first | rfl | (split <;> rfl)

theorem turn_left (h : s.turn.place = .left) (hplace : s.place ≠ .left) :
    s.place = .atCount ∧ s.msgQueue = [] ∧ s.turn.msgQueue = [] := by
  obtain ⟨running, msgQueue, place, destroyed, sent, acts⟩ := s
  cases place with
  | atCount =>
      cases msgQueue with
      | nil => exact ⟨rfl, rfl, rfl⟩
      | cons dbmsg msgQueue => cases h
  | atRunning => cases running <;> cases h
  | atTake | atWait => cases msgQueue <;> cases h
  | emitting | deleting | waiting => cases h
  | left => exact absurd rfl hplace

end Kept

/-- The thread is there when a message is sent. -/
def InTime (s : Provider) : Event → Prop
  | .sendMessage _ => s.place ≠ .left
  | _ => True

theorem Kept.after {s : Provider} {e : Event} (hs : s.Kept) (he : s.Enabled e) (hin : s.InTime e) :
    (s.after e).Kept := by
  obtain ⟨⟨done, hordered⟩, hdrained⟩ := hs
  cases e with
  | sendMessage msg =>
      refine ⟨⟨done, ?_, hordered.acts⟩, fun hleft => absurd hleft hin⟩
      simp only [Provider.after, hordered.sent, List.append_assoc]
  | cancel => exact ⟨⟨done, hordered.sent, hordered.acts⟩, hdrained⟩
  | turn => exact ⟨hordered.turn, fun hleft => (turn_left hleft he).2.2⟩
  | destroy =>
      refine ⟨⟨done, ?_⟩, fun _ => rfl⟩
      have hempty := hdrained he.2.1
      apply hordered.of_acts <;> simp [Provider.after, hempty]

def Stopped (s : Provider) : Prop := s.place = .atCount ∨ s.place = .left → s.running = false

theorem stopped_step (s : Provider) (e : Event) (s' : Provider) (hs : s.Stopped)
    (hstep : step s e = some s') : s'.Stopped := by
  obtain ⟨he, rfl⟩ := step_eq_some.mp hstep
  obtain ⟨running, msgQueue, place, destroyed, sent, acts⟩ := s
  cases e with
  | sendMessage msg => exact hs
  | cancel => exact fun _ => rfl
  | destroy => exact hs
  | turn =>
      cases place with
      | atRunning =>
          cases running with
          | true => rintro (h | h) <;> cases h
          | false => exact fun _ => rfl
      | atCount =>
          have hrunning : running = false := hs (Or.inl rfl)
          cases msgQueue <;> exact fun _ => hrunning
      | atTake | atWait => cases msgQueue <;> rintro (h | h) <;> cases h
      | emitting | deleting | waiting => rintro (h | h) <;> cases h
      | left => exact absurd rfl he

/-- The thread leaves its loop only when it has been cancelled and the queue is empty. -/
def LeavesEmpty (s : Provider) (e : Event) : Prop :=
  s.place ≠ .left → (s.after e).place = .left → s.running = false ∧ s.msgQueue = []

theorem Stopped.leavesEmpty {s : Provider} {e : Event} (hs : s.Stopped) : s.LeavesEmpty e := by
  intro hplace hleft
  cases e with
  | turn =>
      obtain ⟨hcount, hempty, -⟩ := turn_left hleft hplace
      exact ⟨hs (Or.inl hcount), hempty⟩
  | sendMessage msg => exact absurd hleft hplace
  | cancel => exact absurd hleft hplace
  | destroy => exact absurd hleft hplace

/-! ### Every message comes -/

/-- Whatever the thread does from here on, all messages that have been sent are emitted. -/
def WillEmit (s : Provider) : Prop :=
  Inevitably step (fun e => e = .turn) (fun s' => s.sent.map Msg.signal <+: s'.emitted) s

theorem Ordered.emitted_prefix {s : Provider} {done : List Msg} (h : s.Ordered done) :
    s.emitted <+: s.sent.map Msg.signal := by
  have hbegun : signals s.place.begun <+: (s.place.dbmsg ++ s.msgQueue).map Msg.signal := by
    cases s.place with
    | deleting dbmsg => exact List.prefix_append [dbmsg.signal] _
    | _ => exact List.nil_prefix
  rw [h.emitted, h.sent, List.map_append]
  exact (List.prefix_append_right_inj _).mpr hbegun

theorem Ordered.emitted_all {s : Provider} {done : List Msg} (h : s.Ordered done)
    (hqueue : s.msgQueue = []) (hplace : ∀ dbmsg, s.place ≠ .emitting dbmsg) :
    s.sent.map Msg.signal = s.emitted := by
  have hbegun : s.place.dbmsg.map Msg.signal = signals s.place.begun := by
    cases hat : s.place with
    | emitting dbmsg => exact absurd hat (hplace dbmsg)
    | _ => rfl
  rw [h.emitted, h.sent, hqueue, List.append_nil, List.map_append, hbegun]

/-- How many turns a thread is away from taking a message, or seven for one it is about to emit. -/
def turnsLeft : Place → Nat
  | .left => 0
  | .atTake => 1
  | .atCount => 2
  | .atRunning => 3
  | .waiting => 4
  | .atWait => 5
  | .deleting _ => 6
  | .emitting _ => 7

theorem turn_closer {s : Provider}
    (hpending : s.msgQueue ≠ [] ∧ s.place ≠ .left ∨ ∃ dbmsg, s.place = .emitting dbmsg) :
    7 * s.turn.msgQueue.length + turnsLeft s.turn.place <
      7 * s.msgQueue.length + turnsLeft s.place := by
  obtain ⟨running, msgQueue, place, destroyed, sent, acts⟩ := s
  cases place with
  | atRunning => cases running <;> simp [turn, turnsLeft]
  | left => simp at hpending
  | atCount | atTake | atWait =>
      cases msgQueue with
      | nil => simp at hpending
      | cons dbmsg msgQueue =>
          simp only [turn, List.length_cons, Nat.succ_pos, if_true, Nat.succ_ne_zero, if_false,
            turnsLeft]
          omega
  | emitting | deleting | waiting => simp [turn, turnsLeft]

theorem Kept.willEmit {s : Provider} (hs : s.Kept) : s.WillEmit := by
  have hpending : ∀ s' : Provider, s'.Kept ∧ s'.sent = s.sent →
      ¬ s.sent.map Msg.signal <+: s'.emitted →
      s'.msgQueue ≠ [] ∧ s'.place ≠ .left ∨ ∃ dbmsg, s'.place = .emitting dbmsg := by
    rintro s' ⟨⟨⟨done, hordered⟩, hdrained⟩, hsent⟩ hnot
    by_contra hnone
    rw [not_or, not_exists, not_and_not_right] at hnone
    have hempty : s'.msgQueue = [] := by
      by_contra hqueue
      exact hqueue (hdrained (hnone.1 hqueue))
    have hall := hordered.emitted_all hempty hnone.2
    rw [hsent] at hall
    exact hnot (hall ▸ List.prefix_rfl)
  refine Inevitably.of_measure (I := fun s' => s'.Kept ∧ s'.sent = s.sent)
    (fun s' => 7 * s'.msgQueue.length + turnsLeft s'.place) ?_ ?_ ⟨hs, rfl⟩
  · intro s' hs' hnot
    refine ⟨.turn, s'.turn, rfl, step_eq_some.mpr ⟨?_, rfl⟩⟩
    rcases hpending s' hs' hnot with ⟨-, hplace⟩ | ⟨dbmsg, hplace⟩
    · exact hplace
    · exact fun hleft => by cases hplace.symm.trans hleft
  · rintro s' e s'' ⟨hkept, hsent⟩ hnot rfl hstep
    obtain ⟨he, rfl⟩ := step_eq_some.mp hstep
    exact ⟨⟨hkept.after he trivial, (turn_sent s').trans hsent⟩,
      turn_closer (hpending s' ⟨hkept, hsent⟩ hnot)⟩

/-- What is promised of the messages. -/
structure Delivered (s : Provider) : Prop where
  inOrder : s.emitted <+: s.sent.map Msg.signal
  removed : ∀ before dir behind, s.acts = before ++ .removeDir dir :: behind →
    ∃ front dbmsg back, s.sent = front ++ dbmsg :: back ∧ dbmsg.action = .Close ∧
      dbmsg.file = dir ∧
      signals before = (front ++ [dbmsg]).map Msg.signal
  comes : s.WillEmit

theorem Kept.delivered {s : Provider} (hs : s.Kept) : s.Delivered := by
  obtain ⟨done, hordered⟩ := hs.ordered
  refine ⟨hordered.emitted_prefix, ?_, hs.willEmit⟩
  intro before dir behind hacts
  have hbegun : .removeDir dir ∉ s.place.begun := by
    cases s.place with
    | deleting dbmsg => simp [Place.begun]
    | _ => simp [Place.begun]
  obtain ⟨front, dbmsg, back, hdone, hclose, hdir, hbefore⟩ :=
    removeDir_mem hbegun (hordered.acts.symm.trans hacts)
  refine ⟨front, dbmsg, back ++ (s.place.dbmsg ++ s.msgQueue), ?_, hclose, hdir, ?_⟩
  · rw [hordered.sent, hdone, List.append_assoc, List.cons_append]
  · rw [hbefore, signals_append, signals_handled, List.map_append]
    rfl

theorem Kept.not_delivered {s : Provider} {e : Event} (hs : s.Kept) (hin : ¬ s.InTime e) :
    ¬ (s.after e).Delivered := by
  cases e with
  | sendMessage msg =>
      have hleft : s.place = .left := not_not.mp hin
      obtain ⟨done, hordered⟩ := hs.ordered
      intro hdelivered
      cases hdelivered.comes with
      | now hall =>
          have hshort : s.emitted.length ≤ s.sent.length := by
            simpa using hordered.emitted_prefix.length_le
          have hlong : ((s.sent ++ [msg]).map Msg.signal).length ≤ s.emitted.length :=
            hall.length_le
          rw [List.length_map, List.length_append, List.length_singleton] at hlong
          exact absurd (hlong.trans hshort) (Nat.not_succ_le_self _)
      | next hsome hall =>
          obtain ⟨e', s', rfl, hstep⟩ := hsome
          exact (step_eq_some.mp hstep).1 hleft
  | cancel => exact absurd trivial hin
  | turn => exact absurd trivial hin
  | destroy => exact absurd trivial hin

/-- **Messages.** In every run the thread leaves its loop only when it has been cancelled and the
queue is empty. Every message is emitted once and in order, and a directory is removed behind the
signals of all earlier messages, exactly when no message is sent after the thread has left. -/
theorem delivered_iff_inTime {s : Provider} {es : List Event} (hrun : run step {} es = some s) :
    (Throughout step Delivered {} es ∧ Along step LeavesEmpty {} es) ↔
    Along step InTime {} es := by
  have hleaves : Along step LeavesEmpty {} es := by
    refine along_of_guarded (P := fun _ _ => True) (fun s e s' hs _ => stopped_step s e s' hs)
      (fun s e hs _ => hs.leavesEmpty) (along_of_forall (fun _ _ => trivial) _ es) ?_
    rintro (h | h) <;> cases h
  rw [and_iff_left hleaves]
  refine throughout_iff_along_of_kept ?_ (fun s hs => hs.delivered) ?_ hrun kept_initial
  · intro s e s' hs hin hstep
    obtain ⟨he, rfl⟩ := step_eq_some.mp hstep
    exact hs.after he hin
  · intro s e s' hs hin hstep
    obtain ⟨he, rfl⟩ := step_eq_some.mp hstep
    exact hs.not_delivered hin

def opened : Msg :=
  { action := .Open, file := ascii "/tmp/dbus2vdr/dbusosd-0000", left := 10, top := 20, vx := 0,
    vy := 0 }

def closed : Msg :=
  { action := .Close, file := ascii "/tmp/dbus2vdr/dbusosd-0000", left := 0, top := 0, vx := 0,
    vy := 0 }

/-- The provider is cancelled with the second message on the queue. -/
def cancelled : List Event :=
  [.sendMessage opened, .turn, .turn, .turn, .sendMessage closed, .cancel] ++
    List.replicate 11 .turn ++ [.destroy]

theorem delivered_iff_inTime_cancelled :
    (run step {} cancelled).isSome ∧
      ((Throughout step Delivered {} cancelled ∧ Along step LeavesEmpty {} cancelled) ↔
        Along step InTime {} cancelled) :=
  ⟨by decide, delivered_iff_inTime (Option.eq_some_of_isSome (by decide))⟩

/-- An OSD is closed while the destructor of its provider still waits in `Cancel`. -/
theorem not_forall_delivered :
    ¬ ∀ es s, run step {} es = some s →
      Throughout step Delivered {} es ∧ Along step LeavesEmpty {} es := by
  intro h
  have hlate : run step {} [.cancel, .turn, .turn, .sendMessage closed] =
      some { running := false, msgQueue := [closed], place := .left, sent := [closed] } := by decide
  have hkept : Kept { running := false, place := .left } := ⟨⟨[], rfl, rfl⟩, fun _ => rfl⟩
  have hnot := hkept.not_delivered (e := .sendMessage closed) fun hin => hin rfl
  exact hnot ((h _ _ hlate).1.last hlate)

end Provider

end Dbus2vdr.Osd

import Dbus2vdr.Connection.Handlers
import Dbus2vdr.Connection.Wakeup
import Dbus2vdr.Lib.Batches

/-!
# What becomes of a queued signal

A signal moves from the queue into a batch and from the batch to GDBus. Whatever happens to the bus
connection meanwhile, `Mail.Sound` holds: the queue holds the signals accepted last, everything
accepted before is in one unfinished batch or has been emitted, and the batches are in order inside.
The results are read off from it: in which order signals are emitted, that none is lost or emitted
twice, and what `Flush` may rely on.
-/

namespace Dbus2vdr

open Batches (Cut)

def Hand.batches : Hand → List (List Nat)
  | .free => []
  | .taken batch | .working batch => [batch]

namespace Link

/-- What `do_emit_signal` checks, and that nobody has closed the bus connection. -/
def Up (l : Link) : Prop :=
  3 ≤ l.connectStatus ∧ ∀ conn ∈ l.connection, conn ∉ l.closed

instance (l : Link) : Decidable l.Up := inferInstanceAs (Decidable (_ ∧ _))

/-- The steps that close, clear or replace `_connection`, or start all over. -/
def takesBus (l : Link) : LinkEvent → Bool
  | .connect _ | .onBusGet _ | .onNameLost _ | .onNameLostClose | .doDisconnect
  | .onDisconnectClose => true
  | .busClosed conn => l.connection == some conn
  | _ => false

theorem Up.after {l : Link} {e : LinkEvent} (hl : l.Up) (hkeeps : l.takesBus e = false) :
    (l.after e).Up := by
  obtain ⟨hstatus, hopen⟩ := hl
  cases e with
  | connect | onBusGet | onNameLost | onNameLostClose | doDisconnect | onDisconnectClose =>
      cases hkeeps
  | busClosed closed =>
      refine ⟨hstatus, fun conn hconn hmem => ?_⟩
      rcases List.mem_append.mp hmem with hold | hnew
      · exact hopen conn hconn hold
      · obtain rfl := List.mem_singleton.mp hnew
        simp only [takesBus, beq_eq_false_iff_ne, ne_eq] at hkeeps
        exact hkeeps hconn
  | disconnectAttach =>
      simp only [Link.after, disconnectAttach, if_pos hstatus]
      exact ⟨hstatus, hopen⟩
  | doConnect =>
      simp only [Link.after, Link.doConnect, if_neg (show ¬ l.connectStatus = 0 by omega)]
      exact ⟨hstatus, hopen⟩
  | doReconnect =>
      simp only [Link.after, Link.doReconnect, endReconnect,
        if_neg (show ¬ l.connectStatus = 1 by omega),
        if_neg (show ¬ l.connectStatus = 2 by omega)]
      split_ifs
      · exact ⟨hstatus, hopen⟩
      · exact ⟨Nat.le_succ 3, hopen⟩
      · exact ⟨hstatus, hopen⟩
  | doFlush =>
      simp only [Link.after, doFlush]
      split_ifs <;> exact ⟨hstatus, hopen⟩
  | onFlush =>
      simp only [Link.after, onFlush]
      split_ifs <;> exact ⟨hstatus, hopen⟩
  | disconnectEnter | disconnectMark | disconnectReturn | addObject | addWatcher | watch |
      unwatch =>
      exact ⟨hstatus, hopen⟩

end Link

namespace Mail

/-- The batches that wait for a thread, are being worked on, or are in the hand of the main loop. -/
def unfinished (m : Mail) : List (List Nat) := m.pool ++ m.workers ++ m.hand.batches

def emittedSignals (m : Mail) : List Nat := m.emitted.map (·.signal)

def taken (m : Mail) : Nat := m.accepted - m.signals.length

/-- What every step of the send queues keeps. -/
structure Sound (m : Mail) : Prop where
  bound : m.signals.length ≤ m.accepted
  queue : m.signals = List.range' m.taken m.signals.length
  cut : Cut m.unfinished m.emittedSignals m.taken
  posted : m.called ++ m.methodCalls.map (·.number) = List.range m.posted
  flushes : ∀ f ∈ m.flushCalls, f.signals ≤ m.accepted ∧ f.calls ≤ m.posted

theorem sound_new : ({} : Mail).Sound :=
  { bound := Nat.le_refl 0
    queue := rfl
    cut := Cut.nil
    posted := rfl
    flushes := by simp }

theorem Sound.taken_add {m : Mail} (hm : m.Sound) : m.taken + m.signals.length = m.accepted :=
  Nat.sub_add_cancel hm.bound

theorem Sound.range_accepted {m : Mail} (hm : m.Sound) :
    List.range m.accepted = List.range m.taken ++ m.signals := by
  conv_rhs => rw [hm.queue]
  rw [List.range_eq_range', List.range_eq_range', ← hm.taken_add, ← List.range'_append_1,
    Nat.zero_add]

/-! ### Where a batch stands among the unfinished ones -/

theorem worker_lt {m : Mail} {i : Nat} {batch : List Nat} (hworker : m.workers[i]? = some batch) :
    m.pool.length + i < (m.pool ++ m.workers).length := by
  obtain ⟨hi, -⟩ := List.getElem?_eq_some_iff.mp hworker
  rw [List.length_append]
  exact Nat.add_lt_add_left hi _

theorem unfinished_workers {m : Mail} {i : Nat} {batch : List Nat}
    (hworker : m.workers[i]? = some batch) :
    m.unfinished[m.pool.length + i]? = some batch := by
  rw [unfinished, List.getElem?_append_left (worker_lt hworker),
    List.getElem?_append_right (Nat.le_add_right ..), Nat.add_sub_cancel_left]
  exact hworker

theorem unfinished_working {m : Mail} {batch : List Nat} (hhand : m.hand = .working batch) :
    m.unfinished[(m.pool ++ m.workers).length]? = some batch := by
  rw [unfinished, hhand, List.getElem?_append_right (Nat.le_refl _), Nat.sub_self]
  rfl

/-! ### The steps -/

theorem Sound.emitSignal {m : Mail} (hm : m.Sound) : m.emitSignal.Sound := by
  have htaken : m.emitSignal.taken = m.taken := by
    simp only [taken, Mail.emitSignal, List.length_append, List.length_singleton]
    omega
  refine { hm with bound := ?_, queue := ?_, cut := ?_, flushes := ?_ }
  · simp only [Mail.emitSignal, List.length_append, List.length_singleton]
    exact Nat.succ_le_succ hm.bound
  · rw [htaken]
    simp only [Mail.emitSignal, List.length_append, List.length_singleton]
    rw [List.range'_concat, ← hm.queue, Nat.one_mul, hm.taken_add]
  · rw [htaken]
    exact hm.cut
  · intro f hf
    have := hm.flushes f hf
    exact ⟨Nat.le_succ_of_le this.1, this.2⟩

theorem Sound.callMethod {m : Mail} (hm : m.Sound) (reply : Bool) : (m.callMethod reply).Sound := by
  refine { hm with posted := ?_, flushes := ?_ }
  · simp only [Mail.callMethod, List.map_append, List.map_cons, List.map_nil]
    rw [← List.append_assoc, hm.posted, ← List.range_succ]
  · intro f hf
    have := hm.flushes f hf
    exact ⟨this.1, Nat.le_succ_of_le this.2⟩

theorem Sound.flushCall {m : Mail} (hm : m.Sound) (l : Link) : (m.flushCall l).Sound := by
  unfold Mail.flushCall
  split_ifs
  · exact hm
  · refine { hm with flushes := ?_ }
    intro f hf
    rcases List.mem_append.mp hf with hf | hf
    · exact hm.flushes f hf
    · obtain rfl := List.mem_singleton.mp hf
      exact ⟨Nat.le_refl m.accepted, Nat.le_refl m.posted⟩

theorem Sound.flushReturn {m : Mail} (hm : m.Sound) (i : Nat) : (m.flushReturn i).Sound :=
  { hm with flushes := fun f hf => hm.flushes f (List.mem_of_mem_eraseIdx hf) }

theorem Sound.doEmitSignal {m : Mail} (hm : m.Sound) (l : Link) (hfree : m.hand = .free) :
    (m.doEmitSignal l).Sound := by
  unfold Mail.doEmitSignal
  split_ifs
  · exact { hm with }
  · exact hm
  · exact { hm with }
  · refine { hm with bound := Nat.zero_le _, queue := rfl, cut := ?_ }
    have hcut := hm.cut.add m.signals.length
    rw [← hm.queue, hm.taken_add] at hcut
    have hunfinished : m.unfinished = m.pool ++ m.workers := by
      rw [unfinished, hfree]
      exact List.append_nil _
    apply hcut.perm
    rw [hunfinished]
    exact List.perm_append_singleton _ _

theorem Sound.handOver {m : Mail} (hm : m.Sound) (poolOk : Bool) : (m.handOver poolOk).Sound := by
  unfold Mail.handOver
  split
  · rename_i batch hhand
    have hunfinished : m.unfinished = m.pool ++ m.workers ++ [batch] := by
      rw [unfinished, hhand]
      rfl
    split_ifs
    · refine { hm with cut := hm.cut.perm ?_ }
      rw [hunfinished]
      calc m.pool ++ [batch] ++ m.workers ++ []
          = m.pool ++ ([batch] ++ m.workers) := by rw [List.append_nil, List.append_assoc]
        List.Perm _ (m.pool ++ (m.workers ++ [batch])) := List.perm_append_comm.append_left _
        _ = m.pool ++ m.workers ++ [batch] := (List.append_assoc ..).symm
    · refine { hm with cut := ?_ }
      have hcut := hm.cut
      rwa [hunfinished] at hcut
  · exact hm

theorem Sound.directEmit {m : Mail} (hm : m.Sound) (l : Link) : (m.directEmit l).Sound := by
  unfold Mail.directEmit
  split
  · rename_i signal rest hhand
    have hturn := hm.cut.turn (unfinished_working hhand)
    rw [unfinished, hhand, List.set_append_right _ _ (Nat.le_refl _), Nat.sub_self] at hturn
    refine { hm with cut := ?_ }
    rw [emittedSignals, List.map_append]
    exact hturn
  · exact hm

theorem Sound.directFinish {m : Mail} (hm : m.Sound) (hdone : m.hand = .working []) :
    m.directFinish.Sound := by
  have hdrop := hm.cut.drop (unfinished_working hdone)
  rw [unfinished, hdone, List.eraseIdx_append_of_length_le (Nat.le_refl _), Nat.sub_self] at hdrop
  exact { hm with cut := hdrop }

theorem Sound.doCallMethod {m : Mail} (hm : m.Sound) (l : Link) : (m.doCallMethod l).Sound := by
  unfold Mail.doCallMethod
  split_ifs
  · exact { hm with }
  · exact hm
  · exact { hm with posted := (List.append_nil _).trans hm.posted }

theorem Sound.workerStart {m : Mail} (hm : m.Sound) : m.workerStart.Sound := by
  refine { hm with cut := hm.cut.perm ?_ }
  apply List.Perm.append_right
  unfold Mail.workerStart
  cases hpool : m.pool with
  | nil => simp
  | cons batch rest =>
      rw [List.tail_cons, List.head?_cons, Option.toList_some, ← List.append_assoc]
      exact List.perm_append_comm

theorem Sound.workerEmit {m : Mail} (hm : m.Sound) (l : Link) (i : Nat) :
    (m.workerEmit l i).Sound := by
  unfold Mail.workerEmit
  split
  · rename_i signal rest hworker
    have hturn := hm.cut.turn (unfinished_workers hworker)
    rw [unfinished, List.set_append_left _ _ (worker_lt hworker),
      List.set_append_right _ _ (Nat.le_add_right ..), Nat.add_sub_cancel_left] at hturn
    refine { hm with cut := ?_ }
    rw [emittedSignals, List.map_append]
    exact hturn
  · exact hm

theorem Sound.workerFinish {m : Mail} (hm : m.Sound) {i : Nat} (hdone : m.workers[i]? = some []) :
    (m.workerFinish i).Sound := by
  have hdrop := hm.cut.drop (unfinished_workers hdone)
  rw [unfinished, List.eraseIdx_append_of_lt_length (worker_lt hdone),
    List.eraseIdx_append_of_length_le (Nat.le_add_right ..), Nat.add_sub_cancel_left] at hdrop
  exact { hm with cut := hdrop }

theorem Sound.after {m : Mail} {l : Link} {e : MailEvent} (hm : m.Sound)
    (henabled : m.Enabled l e) : (m.after l e).Sound := by
  cases e with
  | emitSignal => exact hm.emitSignal
  | callMethod reply => exact hm.callMethod reply
  | flushCall => exact hm.flushCall l
  | flushReturn i => exact hm.flushReturn i
  | doEmitSignal => exact hm.doEmitSignal l henabled.2.2
  | handOver poolOk => exact hm.handOver poolOk
  | directEmit => exact hm.directEmit l
  | directFinish => exact hm.directFinish henabled
  | doCallMethod => exact hm.doCallMethod l
  | doCallReply call => exact { hm with }
  | workerStart => exact hm.workerStart
  | workerEmit i => exact hm.workerEmit l i
  | workerFinish i => exact hm.workerFinish henabled

def passed (m : Mail) : MailEvent → Option Nat
  | .workerEmit i => m.workers[i]?.bind (·.head?)
  | .directEmit => m.hand.signal?
  | _ => none

theorem emitted_after (l : Link) (m : Mail) (e : MailEvent) :
    (m.after l e).emitted = m.emitted ++ ((m.passed e).map (emission l)).toList := by
  have hsame : (m.after l e).emitted = m.emitted → m.passed e = none →
      (m.after l e).emitted = m.emitted ++ ((m.passed e).map (emission l)).toList := by
    intro hemitted hpassed
    rw [hemitted, hpassed, Option.map_none, Option.toList_none, List.append_nil]
  cases e with
  | workerEmit i =>
      simp only [Mail.after, Mail.workerEmit, passed]
      split
      · rename_i signal rest hworker
        rw [hworker]
        rfl
      · rename_i hworker
        cases hbatch : m.workers[i]? with
        | none => simp
        | some batch =>
            cases batch with
            | nil => simp
            | cons signal rest => exact absurd hbatch (hworker signal rest)
  | directEmit =>
      simp only [Mail.after, Mail.directEmit, passed]
      split
      · rename_i signal rest hhand
        rw [hhand]
        rfl
      · rename_i hhand
        cases hbatch : m.hand with
        | free | taken => simp [Hand.signal?]
        | working batch =>
            cases batch with
            | nil => simp [Hand.signal?]
            | cons signal rest => exact absurd hbatch (hhand signal rest)
  | flushCall =>
      apply hsame _ rfl
      simp only [Mail.after, Mail.flushCall]
      split_ifs <;> rfl
  | doEmitSignal =>
      apply hsame _ rfl
      simp only [Mail.after, Mail.doEmitSignal]
      split_ifs <;> rfl
  | handOver poolOk =>
      apply hsame _ rfl
      simp only [Mail.after, Mail.handOver]
      split
      · split_ifs <;> rfl
      · rfl
  | doCallMethod =>
      apply hsame _ rfl
      simp only [Mail.after, Mail.doCallMethod]
      split_ifs <;> rfl
  | emitSignal | callMethod | flushReturn | directFinish | doCallReply | workerStart
  | workerFinish => exact hsame rfl rfl

theorem emittedSignals_after (l : Link) (m : Mail) (e : MailEvent) :
    (m.after l e).emittedSignals = m.emittedSignals ++ (m.passed e).toList := by
  rw [emittedSignals, emitted_after, List.map_append]
  cases m.passed e <;> rfl

theorem unfinished_of_passed {m : Mail} {e : MailEvent} {t : Nat} (ht : m.passed e = some t) :
    ∃ (i : Nat) (rest : List Nat), m.unfinished[i]? = some (t :: rest) := by
  cases e with
  | workerEmit i =>
      obtain ⟨batch, hbatch, hhead⟩ := Option.bind_eq_some_iff.mp ht
      obtain ⟨rest, rfl⟩ := List.head?_eq_some_iff.mp hhead
      exact ⟨_, rest, unfinished_workers hbatch⟩
  | directEmit =>
      change m.hand.signal? = some t at ht
      cases hhand : m.hand with
      | free | taken =>
          rw [hhand] at ht
          cases ht
      | working batch =>
          rw [hhand] at ht
          obtain ⟨rest, rfl⟩ := List.head?_eq_some_iff.mp ht
          exact ⟨_, rest, unfinished_working hhand⟩
  | emitSignal | callMethod | flushCall | flushReturn | doEmitSignal | handOver | directFinish
  | doCallMethod | doCallReply | workerStart | workerFinish => cases ht

theorem taken_after (l : Link) (m : Mail) {e : MailEvent} (hother : e ≠ .doEmitSignal) :
    (m.after l e).taken = m.taken := by
  cases e with
  | doEmitSignal => exact absurd rfl hother
  | emitSignal =>
      simp only [taken, Mail.after, Mail.emitSignal, List.length_append, List.length_singleton]
      omega
  | flushCall =>
      simp only [Mail.after, Mail.flushCall]
      split_ifs <;> rfl
  | handOver poolOk =>
      simp only [Mail.after, Mail.handOver]
      split
      · split_ifs <;> rfl
      · rfl
  | directEmit =>
      simp only [Mail.after, Mail.directEmit]
      split <;> rfl
  | doCallMethod =>
      simp only [Mail.after, Mail.doCallMethod]
      split_ifs <;> rfl
  | workerEmit i =>
      simp only [Mail.after, Mail.workerEmit]
      split <;> rfl
  | callMethod | flushReturn | directFinish | doCallReply | workerStart | workerFinish => rfl

/-- Only `do_emit_signal` puts signals into a batch. -/
theorem Sound.unfinished_after {m : Mail} {l : Link} {e : MailEvent} (hm : m.Sound)
    (henabled : m.Enabled l e) (hother : e ≠ .doEmitSignal) :
    (m.after l e).unfinished.flatten ⊆ m.unfinished.flatten := by
  intro n hn
  have hcut := (hm.after henabled).cut
  rw [taken_after l m hother] at hcut
  refine (hm.cut.mem_iff.mpr (hcut.mem_iff.mp (.inl hn))).resolve_right fun hdone => ?_
  -- what has been emitted is not in a batch any more
  have hdone' : n ∈ (m.after l e).emittedSignals := by
    rw [emittedSignals_after]
    exact List.mem_append_left _ hdone
  exact (List.nodup_append.mp hcut.nodup).2.2 n hn n hdone' rfl

/-- Every signal so far was passed to an open bus connection. -/
def WellPassed (m : Mail) : Prop :=
  ∀ emission ∈ m.emitted, emission.handle.isSome ∧ emission.isOpen

theorem wellPassed_after_iff {l : Link} {m : Mail} {e : MailEvent} (hm : m.WellPassed) :
    (m.after l e).WellPassed ↔ ((m.passed e).isSome → l.handleOpen) := by
  have hsome : l.handleOpen → l.connection.isSome := by
    unfold Link.handleOpen
    cases l.connection <;> simp
  unfold WellPassed
  rw [emitted_after]
  cases hpassed : m.passed e with
  | none => simpa [WellPassed] using hm
  | some signal =>
      rw [Option.map_some, Option.toList_some, Option.isSome_some, forall_prop_of_true rfl]
      constructor
      · intro hall
        exact (hall _ (List.mem_append_right _ List.mem_cons_self)).2
      · intro hopen em hem
        rcases List.mem_append.mp hem with hem | hem
        · exact hm em hem
        · obtain rfl := List.mem_singleton.mp hem
          exact ⟨hsome hopen, hopen⟩

end Mail

namespace Conn

theorem mailSound_of_run {target : BusTarget} {named : Bool} {es : List Event} {c : Conn}
    (hrun : Machine.run step (new target named) es = some c) : c.mail.Sound :=
  Machine.run_invariant (I := fun c => c.mail.Sound)
    (fun _ _ _ ht hstep => mail_invariant (fun _ _ _ hm henabled => hm.after henabled) ht hstep)
    hrun Mail.sound_new

/-- When a signal is passed on, the check that `do_emit_signal` made for its batch would succeed
again, and nobody has closed the bus connection. -/
def EmitsWhileUp (c : Conn) : Event → Prop
  | .mail e => (c.mail.passed e).isSome → c.link.Up
  | .link _ => True

instance decidableEmitsWhileUp (c : Conn) : DecidablePred c.EmitsWhileUp
  | .mail e => inferInstanceAs (Decidable ((c.mail.passed e).isSome → c.link.Up))
  | .link _ => inferInstanceAs (Decidable True)

/-- `do_emit_signal` takes no batch on a bus that is closed already, and the bus is not taken away
until all batches are worked off. -/
def LossesApart (c : Conn) : Event → Prop
  | .link e => c.link.takesBus e → c.mail.unfinished.flatten = []
  | .mail .doEmitSignal => ∀ conn ∈ c.link.connection, conn ∉ c.link.closed
  | .mail _ => True

instance decidableLossesApart (c : Conn) : (e : Event) → Decidable (c.LossesApart e)
  | .link e => inferInstanceAs (Decidable (c.link.takesBus e → c.mail.unfinished.flatten = []))
  | .mail .doEmitSignal =>
      inferInstanceAs (Decidable (∀ conn ∈ c.link.connection, conn ∉ c.link.closed))
  | .mail .emitSignal | .mail (.callMethod _) | .mail .flushCall | .mail (.flushReturn _)
  | .mail (.handOver _) | .mail .directEmit | .mail .directFinish | .mail .doCallMethod
  | .mail (.doCallReply _) | .mail .workerStart | .mail (.workerEmit _) | .mail (.workerFinish _) =>
      inferInstanceAs (Decidable True)

theorem handleOpen_of_up {l : Link} (hl : l.HandleSound) (hup : l.Up) : l.handleOpen := by
  obtain ⟨conn, hconn⟩ := Option.isSome_iff_exists.mp (hl.up hup.1)
  simp [Link.handleOpen, hconn, hup.2 conn hconn]

/-- The bus is there as long as a batch is. -/
structure BatchesUp (c : Conn) : Prop where
  mail : c.mail.Sound
  up : c.mail.unfinished.flatten ≠ [] → c.link.Up

theorem BatchesUp.step {c c' : Conn} {e : Event} (hc : c.BatchesUp) (hloss : c.LossesApart e)
    (hstep : step c e = some c') : c'.BatchesUp := by
  obtain ⟨henabled, rfl⟩ := step_eq_some.mp hstep
  cases e with
  | link e =>
      refine ⟨hc.mail, fun hbatch => (hc.up hbatch).after ?_⟩
      by_contra htakes
      exact hbatch (hloss (by simpa using htakes))
  | mail e =>
      refine ⟨hc.mail.after henabled, fun hbatch => ?_⟩
      by_cases htake : e = .doEmitSignal
      · subst htake
        by_cases hup : 3 ≤ c.link.connectStatus
        · exact ⟨hup, hloss⟩
        · apply hc.up
          simp only [after, Mail.after, Mail.doEmitSignal, if_pos (Nat.not_le.mp hup)] at hbatch
          split_ifs at hbatch <;> exact hbatch
      · apply hc.up
        exact fun hnil =>
          hbatch (List.subset_nil.mp (hnil ▸ hc.mail.unfinished_after henabled htake))

/-- The check of `do_emit_signal` holds good for the thread that works on the batch. -/
theorem emitsWhileUp_of_lossesApart {target : BusTarget} {named : Bool} {es : List Event}
    (halong : Machine.Along step LossesApart (new target named) es) :
    Machine.Along step EmitsWhileUp (new target named) es := by
  refine Machine.along_of_guarded (I := BatchesUp) (fun _ _ _ ht hloss hstep => ht.step hloss hstep)
    (fun t e ht _ => ?_) halong ⟨Mail.sound_new, fun hbatch => absurd rfl hbatch⟩
  cases e with
  | link e => trivial
  | mail e =>
      intro hpassed
      obtain ⟨n, hn⟩ := Option.isSome_iff_exists.mp hpassed
      obtain ⟨i, rest, hbatch⟩ := Mail.unfinished_of_passed hn
      refine ht.up (List.ne_nil_of_mem (a := n) ?_)
      exact List.mem_flatten.mpr ⟨_, List.mem_of_getElem? hbatch, List.mem_cons_self⟩

theorem wellPassed_of_run {target : BusTarget} {named : Bool} {es : List Event} {c : Conn}
    (hrun : Machine.run step (new target named) es = some c)
    (halong : Machine.Along step EmitsWhileUp (new target named) es) : c.mail.WellPassed := by
  refine (Machine.run_guarded_invariant (P := EmitsWhileUp)
    (I := fun d => d.link.HandleSound ∧ d.mail.WellPassed) (fun d e d' hd hup hstep => ?_)
    hrun halong ⟨Link.handleSound_new _ _, by simp [new, Mail.WellPassed]⟩).2
  refine ⟨link_invariant (fun _ _ hl _ => hl.after) hd.1 hstep, ?_⟩
  obtain ⟨-, rfl⟩ := step_eq_some.mp hstep
  cases e with
  | link e => exact hd.2
  | mail e => exact (Mail.wellPassed_after_iff hd.2).mpr fun hne => handleOpen_of_up hd.1 (hup hne)

/-- **No signal is lost or doubled.** In every state of every run each accepted signal is once in
the queue, in a batch or among the emitted ones. As long as signals are passed on while the bus is
there, each is passed to an open bus connection; and so it is when the bus is not taken away between
the check of `do_emit_signal` and the end of the batch. -/
theorem signals_handed_over {target : BusTarget} {named : Bool} {es : List Event} {c : Conn}
    (hrun : Machine.run step (new target named) es = some c) :
    (c.mail.signals ++ c.mail.unfinished.flatten ++ c.mail.emittedSignals).Perm
        (List.range c.mail.accepted) ∧
      (Machine.Along step EmitsWhileUp (new target named) es → c.mail.WellPassed) ∧
      (Machine.Along step LossesApart (new target named) es → c.mail.WellPassed) := by
  have hsound := mailSound_of_run hrun
  refine ⟨?_, wellPassed_of_run hrun, fun hloss =>
    wellPassed_of_run hrun (emitsWhileUp_of_lossesApart hloss)⟩
  calc c.mail.signals ++ c.mail.unfinished.flatten ++ c.mail.emittedSignals
      = c.mail.signals ++ (c.mail.unfinished.flatten ++ c.mail.emittedSignals) :=
        List.append_assoc ..
    List.Perm _ (c.mail.signals ++ List.range c.mail.taken) := hsound.cut.conserved.append_left _
    List.Perm _ (List.range c.mail.taken ++ c.mail.signals) := List.perm_append_comm
    _ = List.range c.mail.accepted := hsound.range_accepted.symm

def ConnectsWhileDown (c : Conn) : Event → Prop
  | .link (.connect _) => c.link.connection = none
  | _ => True

theorem handleOpen_closeConnection (l : Link) : l.closeConnection.handleOpen = false := by
  unfold Link.handleOpen Link.closeConnection
  cases l.connection with
  | none => rfl
  | some conn => simp

theorem handleOpen_onNameLostClose (l : Link) : l.onNameLostClose.handleOpen = false := by
  unfold Link.onNameLostClose
  cases l.reconnect <;> simp [Link.handleOpen, Link.connect]

theorem handleOpen_onDisconnectClose (l : Link) : l.onDisconnectClose.handleOpen = false := by
  unfold Link.onDisconnectClose Link.handleOpen
  cases hconnection : l.connection <;> simp [hconnection]

theorem up_after_of_handleOpen {l : Link} {e : LinkEvent}
    (hl : l.handleOpen → 3 ≤ l.connectStatus)
    (hconnect : ∀ autoReconnect, e = .connect autoReconnect → l.connection = none) :
    (l.after e).handleOpen → 3 ≤ (l.after e).connectStatus := by
  have hdown : ∀ n, l.connectStatus < 3 → l.handleOpen → 3 ≤ n :=
    fun _ hstatus hopen => absurd (hl hopen) (Nat.not_le.mpr hstatus)
  have hshut : ∀ t : Link, t.handleOpen = false → t.handleOpen → 3 ≤ t.connectStatus :=
    fun t hshut hopen => absurd hopen (by rw [hshut]; exact Bool.false_ne_true)
  have hrelease : ∀ t : Link, (t.handleOpen → 3 ≤ t.connectStatus) →
      t.release.handleOpen → 3 ≤ t.release.connectStatus := by
    intro t ht
    rw [Link.release_eq]
    exact ht
  cases e with
  | connect autoReconnect =>
      intro hopen
      have hnone := hconnect autoReconnect rfl
      simp [Link.after, Link.connect, Link.handleOpen, hnone] at hopen
  | disconnectEnter | disconnectMark | disconnectReturn | addObject | addWatcher | watch
  | unwatch => exact hl
  | busClosed conn =>
      intro hopen
      apply hl
      unfold Link.handleOpen at hopen ⊢
      cases hconnection : l.connection with
      | none => simp [Link.after, hconnection] at hopen
      | some own =>
          simp only [Link.after, hconnection, Option.any_some, decide_eq_true_eq] at hopen ⊢
          exact fun hmem => hopen (List.mem_append_left _ hmem)
  | disconnectAttach =>
      simp only [Link.after, Link.disconnectAttach]
      split_ifs <;> exact hl
  | doFlush =>
      simp only [Link.after, Link.doFlush]
      split_ifs <;> exact hl
  | onFlush =>
      simp only [Link.after, Link.onFlush]
      split_ifs <;> exact hl
  | onBusGet ok =>
      cases ok with
      | true =>
          intro _
          simp only [Link.after, Link.onBusGet]
          split_ifs <;> exact Nat.le_refl 3
      | false => exact fun hopen => by cases hopen
  | doConnect =>
      simp only [Link.after, Link.doConnect, Link.requestBus]
      split_ifs with hstatus
      · exact hdown _ (by omega)
      · exact hdown _ (by omega)
      · exact hl
  | doReconnect =>
      simp only [Link.after, Link.doReconnect, Link.requestBus, Link.endReconnect]
      split_ifs
      · exact hl
      · exact fun _ => Nat.le_succ 3
      · exact hdown _ (by omega)
      · exact hdown _ (by omega)
      · exact hl
      · exact hl
  | onNameLost owner =>
      simp only [Link.after, Link.onNameLost]
      split_ifs
      · exact hshut _ (handleOpen_closeConnection _)
      · exact hrelease _ hl
      · exact hshut _ (handleOpen_onNameLostClose _)
  | onNameLostClose => exact hshut _ (handleOpen_onNameLostClose _)
  | doDisconnect =>
      simp only [Link.after, Link.doDisconnect]
      split_ifs
      · exact hshut _ (handleOpen_closeConnection _)
      · exact hrelease _ hl
      · exact hshut _ (handleOpen_onDisconnectClose _)
  | onDisconnectClose => exact hshut _ (handleOpen_onDisconnectClose _)

/-- Nothing less will do: where the owner does not call `Connect` on a connection that is up, every
signal is passed to an open bus connection exactly if all are passed on while the bus is there. -/
theorem well_passed_iff {target : BusTarget} {named : Bool} {es : List Event} {c : Conn}
    (hrun : Machine.run step (new target named) es = some c)
    (hconnects : Machine.Along step ConnectsWhileDown (new target named) es) :
    Machine.Throughout step (fun d => d.mail.WellPassed) (new target named) es ↔
      Machine.Along step EmitsWhileUp (new target named) es := by
  refine Machine.throughout_iff_along_of_guarded
    (I := fun d => d.link.HandleSound ∧ (d.link.handleOpen → 3 ≤ d.link.connectStatus))
    (fun d e d' hd hdown hstep => ?_) (fun d e d' hd hwell _ hstep => ?_) hrun hconnects
    ⟨Link.handleSound_new _ _, fun hopen => by cases hopen⟩ (by simp [new, Mail.WellPassed])
  · refine ⟨link_invariant (fun _ _ hl _ => hl.after) hd.1 hstep, ?_⟩
    obtain ⟨-, rfl⟩ := step_eq_some.mp hstep
    cases e with
    | link e => exact up_after_of_handleOpen hd.2 fun autoReconnect he => by subst he; exact hdown
    | mail e => exact hd.2
  · obtain ⟨-, rfl⟩ := step_eq_some.mp hstep
    cases e with
    | link e => exact iff_of_true hwell trivial
    | mail e =>
        refine (Mail.wellPassed_after_iff hwell).trans (imp_congr_right fun _ => ?_)
        refine ⟨fun hopen => ⟨hd.2 hopen, fun conn hconn => ?_⟩, handleOpen_of_up hd.1⟩
        rw [Link.handleOpen, hconn] at hopen
        simpa using hopen

theorem handed_over_before_loss :
    ∃ es c, Machine.run step (new .address true) es = some c ∧
      (c.mail.signals ++ c.mail.unfinished.flatten ++ c.mail.emittedSignals).Perm
        (List.range c.mail.accepted) ∧ c.mail.WellPassed := by
  have hrun : Machine.run step (new .address true) (bringUp ++ [.mail .emitSignal,
    .mail .doEmitSignal, .mail (.handOver true), .mail .workerStart, .mail (.workerEmit 0),
    .mail .emitSignal, .link (.busClosed 0), .link (.onNameLost 0),
    .link .onNameLostClose]) = some _ := rfl
  have hresult := signals_handed_over hrun
  exact ⟨_, _, hrun, hresult.1, hresult.2.2 (by decide)⟩

/-- The bus is lost between the hand-over of the batch and the thread that works on it. -/
theorem passed_to_null :
    ¬ ∀ (target : BusTarget) (named : Bool) (es : List Event) (c : Conn),
      Machine.run step (new target named) es = some c → .link .disconnectEnter ∉ es →
        c.mail.WellPassed := by
  intro hall
  have hwell := hall .address true (bringUp ++ [.mail .emitSignal, .mail .doEmitSignal,
    .mail (.handOver true), .link (.onNameLost 0), .link .onNameLostClose, .mail .workerStart,
    .mail (.workerEmit 0)]) _ rfl (by decide)
  exact absurd (hwell _ List.mem_cons_self).1 (by decide)

end Conn

end Dbus2vdr

import Dbus2vdr.Connection.Handlers
import Dbus2vdr.Connection.Reconnect

/-!
# Whether `Flush` waits in vain

`Flush` returns at once when `_connect_status` is 0 and waits otherwise. With auto-reconnect it is
right to wait: the connection is up and the handlers are attached, or an attempt is under way or
will be made. Without auto-reconnect, status 1 is the end: the request has failed or the bus is
lost, and nothing will try again. `Flush` does not tell that status from the others, and so whoever
calls it then with something queued never comes back, the destructor included.
-/

namespace Dbus2vdr

namespace Link

/-- An attempt to connect is under way or will be made. -/
def AttemptPending (l : Link) : Prop :=
  (l.connectStatus = 0 ∧ 0 < l.doConnectSources ∧ l.target ≠ .nowhere) ∨
    (l.connectStatus = 1 ∧ l.reconnect = true ∧ 0 < l.doReconnectSources ∧
      l.target ≠ .nowhere) ∨
      0 < l.busGets

/-- Nothing will connect any more: an attempt has failed or the bus is lost and auto-reconnect is
off, or there is no bus to connect to. -/
def GaveUp (l : Link) : Prop :=
  (l.connectStatus = 1 ∧ l.reconnect = false) ∨ l.target = .nowhere

/-- The callbacks that give up. -/
def GivesUp (l : Link) : LinkEvent → Prop
  | .onBusGet ok => ok = false ∧ l.reconnect = false
  | .onNameLost _ => l.target ≠ .address ∧ l.reconnect = false
  | .onNameLostClose => l.reconnect = false
  | _ => False

instance (l : Link) : Decidable l.AttemptPending := inferInstanceAs (Decidable (_ ∨ _ ∨ _))

instance (l : Link) : Decidable l.GaveUp := inferInstanceAs (Decidable (_ ∨ _))

instance decidableGivesUp (l : Link) : DecidablePred l.GivesUp
  | .onBusGet ok => inferInstanceAs (Decidable (ok = false ∧ l.reconnect = false))
  | .onNameLost _ => inferInstanceAs (Decidable (l.target ≠ .address ∧ l.reconnect = false))
  | .onNameLostClose => inferInstanceAs (Decidable (l.reconnect = false))
  | .connect _ | .disconnectEnter | .disconnectMark | .disconnectAttach | .disconnectReturn
  | .doConnect | .doReconnect | .doFlush | .onFlush | .doDisconnect | .onDisconnectClose |
      .busClosed _
  | .addObject | .addWatcher _ | .watch _ | .unwatch _ => inferInstanceAs (Decidable False)

theorem Running.pending_iff {l : Link} (hl : l.Running) (hdown : l.connectStatus < 3) :
    l.AttemptPending ↔ ¬ l.GaveUp := by
  constructor
  · rintro (⟨hzero, -, htarget⟩ | ⟨-, hreconnect, -, htarget⟩ | hrequest)
      (⟨hone, hquiet⟩ | hnowhere)
    · omega
    · exact htarget hnowhere
    · cases hreconnect.symm.trans hquiet
    · exact htarget hnowhere
    · have := hl.coherent.status_of_request hrequest
      omega
    · exact hl.coherent.target_of_request hrequest hnowhere
  · intro hkeeps
    obtain ⟨hgo, htarget⟩ := not_or.mp hkeeps
    obtain hzero | hone | htwo : l.connectStatus = 0 ∨ l.connectStatus = 1 ∨
        l.connectStatus = 2 := by
      omega
    · exact .inl ⟨hzero, hl.lively.start hzero, htarget⟩
    · have hreconnect : l.reconnect = true := by simpa [hone] using hgo
      exact .inr
        (.inl ⟨hone, hreconnect, hl.lively.retry hreconnect htarget (.inl hone), htarget⟩)
    · refine .inr (.inr ?_)
      rw [hl.coherent.request, if_pos ⟨htwo, htarget⟩]
      exact Nat.one_pos

/-- With a bus address `on_name_lost` closes first, and `on_name_lost_close` gives up later. -/
theorem Running.gaveUp_after_onNameLost_iff {l : Link} {owner : Nat} (hl : l.Running)
    (he : l.Enabled (.onNameLost owner)) :
    (l.after (.onNameLost owner)).connectStatus = 1 ∧ l.reconnect = false ↔
      l.target ≠ .address ∧ l.reconnect = false := by
  have hup : 3 ≤ l.connectStatus := by
    by_contra hdown
    exact List.ne_nil_of_mem he (hl.coherent.owned_eq_nil (by omega))
  refine and_congr_left fun hquiet => ?_
  have hreleased := hl.lively.release.onNameLostClose_status_iff
  simp only [release_eq] at hreleased
  simp only [Link.after, onNameLost, release_eq]
  by_cases haddress : l.target = .address
  · refine iff_of_false ?_ (not_not_intro haddress)
    rw [if_pos haddress]
    split_ifs
    all_goals
      simp only [closeConnection]
      omega
  · rw [if_neg haddress]
    exact iff_of_true (hreleased.mpr hquiet) haddress

/-- **Giving up.** While it has not given up, a step gives up exactly if it is one of the callbacks
that do. -/
theorem Running.gaveUp_after_iff {l : Link} {e : LinkEvent} (hl : l.Running) (he : l.Enabled e)
    (hkeeps : ¬ l.GaveUp) (hother : ¬ e.isConnect) (hkept : e ≠ .disconnectEnter) :
    (l.after e).GaveUp ↔ l.GivesUp e := by
  obtain ⟨hstays, htarget⟩ := not_or.mp hkeeps
  have hafter : (l.after e).GaveUp ↔ (l.after e).connectStatus = 1 ∧ l.reconnect = false := by
    unfold GaveUp
    rw [after_target, after_reconnect hother (hl.not_marking he)]
    exact or_iff_left htarget
  have haway := hl.away
  obtain ⟨-, hidle⟩ := hl.chain.outside (by simp [haway]) (by simp [haway])
  unfold carriers at hidle
  rw [hafter]
  cases e with
  | connect => exact absurd rfl hother
  | disconnectEnter => exact absurd rfl hkept
  | disconnectMark | disconnectAttach | disconnectReturn => simp [Enabled, haway] at he
  | doFlush | onFlush | doDisconnect | onDisconnectClose =>
      simp only [Enabled] at he
      omega
  | busClosed | addObject | addWatcher | watch | unwatch => exact iff_of_false hstays id
  | doConnect =>
      refine iff_of_false ?_ id
      simp only [Link.after, doConnect, requestBus]
      split_ifs
      · simp
      · exact hstays
  | doReconnect =>
      refine iff_of_false ?_ id
      rintro ⟨hstatus, hquiet⟩
      rw [Link.after, doReconnect, if_pos (by simp [hquiet])] at hstatus
      exact hstays ⟨hstatus, hquiet⟩
  | onBusGet ok =>
      refine and_congr_left fun _ => ?_
      cases ok with
      | true =>
          simp only [Link.after, onBusGet, registerObjects, registerWatchers, ownName, if_true]
          split_ifs <;> simp
      | false => simp [Link.after, onBusGet]
  | onNameLost owner => exact hl.gaveUp_after_onNameLost_iff he
  | onNameLostClose =>
      refine and_iff_right_of_imp fun hquiet => ?_
      have hdispatch : Lively { l with nameLostCloses := l.nameLostCloses - 1 } :=
        { hl.lively with }
      exact hdispatch.onNameLostClose_status_iff.mpr hquiet

end Link

def Event.isConnect : Event → Bool
  | .link e => e.isConnect
  | .mail _ => false

/-- What the main loop does: its callbacks, and what is left of a `do_emit_signal` it is inside
of. -/
def Event.inMainLoop : Event → Bool
  | .link e => e.dispatched
  | .mail (.handOver _) | .mail .directEmit | .mail .directFinish => true
  | .mail _ => false

namespace Conn

/-- A thread is in `Flush`, and something is queued. -/
def Waiting (c : Conn) : Prop :=
  c.mail.flushCalls ≠ [] ∧ (c.mail.signals ≠ [] ∨ c.mail.methodCalls ≠ [])

/-- The connection is up, with a handler for each queue that is not empty. -/
def Established (c : Conn) : Prop :=
  3 ≤ c.link.connectStatus ∧ c.mail.Served

/-- The main loop can get there. -/
def CanEstablish (c : Conn) : Prop :=
  ∃ c', Machine.Leads step (fun e => e.inMainLoop) c c' ∧ c'.Established

/-- What `Flush` waits for will come: the connection is up, or an attempt is pending that the main
loop can carry through. -/
def FlushServed (c : Conn) : Prop :=
  c.Established ∨ (c.link.AttemptPending ∧ c.CanEstablish)

section Attempt

variable {c : Conn}

theorem CanEstablish.of_step {e : Event} (hloop : e.inMainLoop) (henabled : c.Enabled e)
    (h : (c.after e).CanEstablish) : c.CanEstablish := by
  obtain ⟨c', hleads, hup⟩ := h
  exact ⟨c', hleads.head hloop (step_eq_some.mpr ⟨henabled, rfl⟩), hup⟩

theorem canEstablish_of_request (hrequest : 0 < c.link.busGets) (hserved : c.mail.Served)
    (hfree : c.mail.hand = .free) : c.CanEstablish := by
  apply CanEstablish.of_step (e := .link (.onBusGet true)) rfl ⟨hrequest, fun _ => hfree⟩
  refine ⟨_, Machine.Leads.refl _, ?_, hserved⟩
  simp only [after, Link.after, Link.onBusGet, Link.registerObjects, Link.registerWatchers,
    Link.ownName, if_true]
  split_ifs <;> exact Nat.le_refl 3

theorem canEstablish_of_pending (hpending : c.link.AttemptPending) (hserved : c.mail.Served)
    (hfree : c.mail.hand = .free) : c.CanEstablish := by
  rcases hpending
    with ⟨hstatus, hsource, htarget⟩ | ⟨hstatus, hreconnect, hsource, htarget⟩ |
    hrequest
  · apply CanEstablish.of_step (e := .link .doConnect) rfl ⟨hsource, fun _ => hfree⟩
    refine canEstablish_of_request (c := c.after _) ?_ hserved hfree
    simp [after, Link.after, Link.doConnect, Link.requestBus, hstatus, htarget]
  · apply CanEstablish.of_step (e := .link .doReconnect) rfl ⟨hsource, fun _ => hfree⟩
    refine canEstablish_of_request (c := c.after _) ?_ hserved hfree
    simp [after, Link.after, Link.doReconnect, Link.requestBus, hstatus, hreconnect, htarget]
  · exact canEstablish_of_request hrequest hserved hfree

theorem served_after_other {e : MailEvent} (hserved : c.mail.Served) (hother : ¬ e.queues) :
    (c.after (.mail e)).mail.Served :=
  Mail.Served.after_other (l := c.link) hserved hother

theorem canEstablish_of_working {batch : List Nat} (hpending : c.link.AttemptPending)
    (hserved : c.mail.Served) (hhand : c.mail.hand = .working batch) : c.CanEstablish := by
  induction batch generalizing c with
  | nil =>
      apply CanEstablish.of_step (e := .mail .directFinish) rfl hhand
      exact canEstablish_of_pending (c := c.after (.mail .directFinish)) hpending
        (served_after_other hserved (by decide)) rfl
  | cons signal rest ih =>
      apply CanEstablish.of_step (e := .mail .directEmit) rfl
      · simp [Enabled, Mail.Enabled, hhand, Hand.signal?]
      · apply ih (c := c.after (.mail .directEmit)) hpending
          (served_after_other hserved (by decide))
        simp [after, Mail.after, Mail.directEmit, hhand]

/-- **An attempt that is pending can succeed**, after what `do_emit_signal` still has in hand. -/
theorem canEstablish (hpending : c.link.AttemptPending) (hserved : c.mail.Served) :
    c.CanEstablish := by
  cases hhand : c.mail.hand with
  | free => exact canEstablish_of_pending hpending hserved hhand
  | working batch => exact canEstablish_of_working hpending hserved hhand
  | taken batch =>
      apply CanEstablish.of_step (e := .mail (.handOver true)) rfl
      · simp [Enabled, Mail.Enabled, hhand, Hand.isTaken]
      · apply canEstablish_of_pending (c := c.after (.mail (.handOver true))) hpending
          (served_after_other hserved (by decide))
        simp [after, Mail.after, Mail.handOver, hhand]

end Attempt

/-- What holds in a run in which the owner calls `Connect` once at most and `Disconnect` never. -/
structure Waitable (c : Conn) : Prop where
  chain : c.link.ChainSound
  phase : (c.link.Fresh ∧ c.link.caller = .away ∧ c.mail.flushCalls = []) ∨ c.link.Running
  handlers : c.mail.HandlerSound
  served : c.mail.Served

theorem waitable_new (target : BusTarget) (named : Bool) : (new target named).Waitable where
  chain := Link.chainSound_new target named
  phase := .inl ⟨Link.fresh_new target named, rfl, rfl⟩
  handlers := Mail.handlerSound_new
  served := Mail.handlerSound_new.served_iff.mpr fun h => h.elim not_lost_nil not_lost_nil

theorem Waitable.away {c : Conn} (hc : c.Waitable) : c.link.caller = .away := by
  rcases hc.phase with ⟨-, haway, -⟩ | hrunning
  · exact haway
  · exact hrunning.away

theorem Waitable.steady {c : Conn} (hc : c.Waitable) : c.link.disconnectStatus = 0 :=
  (hc.chain.outside (by simp [hc.away]) (by simp [hc.away])).1

theorem Waitable.flushServed_iff {c : Conn} (hc : c.Waitable) (hwaiting : c.Waiting) :
    c.FlushServed ↔ ¬ c.link.GaveUp := by
  have hrunning : c.link.Running := hc.phase.resolve_left fun hfresh => hwaiting.1 hfresh.2.2
  by_cases hup : 3 ≤ c.link.connectStatus
  · refine iff_of_true (.inl ⟨hup, hc.served⟩) ?_
    rintro (⟨hstatus, -⟩ | hnowhere)
    · omega
    · have := hrunning.lively.nowhere hnowhere
      omega
  · rw [← hrunning.pending_iff (by omega)]
    constructor
    · rintro (hestablished | hpending)
      · exact absurd hestablished.1 hup
      · exact hpending.1
    · intro hpending
      exact .inr ⟨hpending, canEstablish hpending hc.served⟩

/-- The owner's calls: one `Connect`, on a connection nobody has started yet, and no
`Disconnect`. -/
def OwnerConnects (c : Conn) (e : Event) : Prop :=
  e ≠ .link .disconnectEnter ∧ (e.isConnect → c.link.Fresh)

theorem after_flushCalls (c : Conn) {e : MailEvent} (hcall : e ≠ .flushCall)
    (hreturn : ∀ i, e ≠ .flushReturn i) :
    (c.after (.mail e)).mail.flushCalls = c.mail.flushCalls := by
  cases e with
  | flushCall => exact absurd rfl hcall
  | flushReturn i => exact absurd rfl (hreturn i)
  | doEmitSignal =>
      simp only [after, Mail.after, Mail.doEmitSignal]
      split_ifs <;> rfl
  | doCallMethod =>
      simp only [after, Mail.after, Mail.doCallMethod]
      split_ifs <;> rfl
  | handOver poolOk =>
      simp only [after, Mail.after, Mail.handOver]
      split
      · split_ifs <;> rfl
      · rfl
  | directEmit =>
      simp only [after, Mail.after, Mail.directEmit]
      split <;> rfl
  | workerEmit i =>
      simp only [after, Mail.after, Mail.workerEmit]
      split <;> rfl
  | emitSignal | callMethod | directFinish | doCallReply | workerStart | workerFinish => rfl

/-- `Flush` returns at once while the status is 0. -/
theorem no_flushCall {c : Conn} {e : MailEvent} (hdown : c.link.connectStatus = 0)
    (hnone : c.mail.flushCalls = []) : (c.after (.mail e)).mail.flushCalls = [] := by
  by_cases hcall : e = .flushCall
  · subst hcall
    simp [after, Mail.after, Mail.flushCall, hdown, hnone]
  · by_cases hreturn : ∃ i, e = .flushReturn i
    · obtain ⟨i, rfl⟩ := hreturn
      simp [after, Mail.after, Mail.flushReturn, hnone]
    · rw [after_flushCalls c hcall (not_exists.mp hreturn)]
      exact hnone

theorem Waitable.step {c c' : Conn} {e : Event} (hc : c.Waitable) (howner : c.OwnerConnects e)
    (hstep : step c e = some c') : c'.Waitable := by
  have hhandlers := handlerSound_step hc.handlers hstep
  have hserved : c'.mail.Served := by
    rw [hhandlers.served_iff, stranded_step_iff hc.handlers hstep, not_or, not_not]
    refine ⟨hc.handlers.served_iff.mp hc.served, ?_⟩
    cases e with
    | link e => trivial
    | mail e => cases e <;> first | exact hc.steady | trivial
  have hchain : c'.link.ChainSound :=
    link_invariant (fun _ _ hl henabled => hl.after henabled) hc.chain hstep
  refine ⟨hchain, ?_, hhandlers, hserved⟩
  obtain ⟨henabled, rfl⟩ := step_eq_some.mp hstep
  cases e with
  | mail e =>
      apply hc.phase.imp_left
      rintro ⟨hfresh, haway, hnone⟩
      exact ⟨hfresh, haway, no_flushCall hfresh.status hnone⟩
  | link e =>
      have hkept : e ≠ .disconnectEnter := fun h => howner.1 (congrArg Event.link h)
      by_cases hconnect : e.isConnect
      · have hfresh := howner.2 hconnect
        cases e with
        | connect autoReconnect =>
            exact .inr (Link.Running.connect hfresh hc.chain autoReconnect henabled.1)
        | _ => cases hconnect
      · refine hc.phase.imp ?_ fun hrunning => hrunning.after henabled.1 hconnect hkept
        rintro ⟨hfresh, haway, hnone⟩
        exact ⟨hfresh.after henabled.1 hconnect, Link.away_after haway henabled.1 hkept, hnone⟩

/-- No thread is left waiting for a connection that has given up: none waits when it gives up, none
calls `Flush` afterwards with something queued, and nothing is queued while one is in `Flush`. -/
def GivesUpUnwaited (c : Conn) : Event → Prop
  | .link e => c.link.GivesUp e → ¬ c.Waiting
  | .mail .flushCall => c.link.GaveUp → c.link.connectStatus ≠ 0 →
      c.mail.signals = [] ∧ c.mail.methodCalls = []
  | .mail .emitSignal | .mail (.callMethod _) => c.link.GaveUp → c.mail.flushCalls = []
  | .mail _ => True

instance (c : Conn) : Decidable c.Waiting := inferInstanceAs (Decidable (_ ∧ _))

instance decidableGivesUpUnwaited (c : Conn) : DecidablePred c.GivesUpUnwaited
  | .link e => inferInstanceAs (Decidable (c.link.GivesUp e → ¬ c.Waiting))
  | .mail .flushCall => inferInstanceAs (Decidable (c.link.GaveUp → c.link.connectStatus ≠ 0 →
      c.mail.signals = [] ∧ c.mail.methodCalls = []))
  | .mail .emitSignal | .mail (.callMethod _) =>
      inferInstanceAs (Decidable (c.link.GaveUp → c.mail.flushCalls = []))
  | .mail (.flushReturn _) | .mail .doEmitSignal | .mail (.handOver _) | .mail .directEmit
  | .mail .directFinish | .mail .doCallMethod | .mail (.doCallReply _) | .mail .workerStart
  | .mail (.workerEmit _) | .mail (.workerFinish _) => inferInstanceAs (Decidable True)

theorem waiting_after_other {c : Conn} {e : MailEvent} (hother : ¬ e.queues)
    (hcall : e ≠ .flushCall) (hreturn : ∀ i, e ≠ .flushReturn i) :
    (c.after (.mail e)).Waiting ↔ c.Waiting := by
  obtain ⟨hsignals, hcalls, -, -⟩ := Mail.after_queues c.link c.mail hother
  unfold Waiting
  rw [after_flushCalls c hcall hreturn, after, hsignals, hcalls]

/-- What the other threads and the two handlers can add once the connection has given up and nobody
waits. -/
theorem waiting_after_iff {c : Conn} {e : MailEvent} (henabled : c.Enabled (.mail e))
    (hgaveUp : c.link.GaveUp) (hnot : ¬ c.Waiting) :
    ¬ (c.after (.mail e)).Waiting ↔ c.GivesUpUnwaited (.mail e) := by
  have hidle : c.mail.flushCalls = [] ∨ (c.mail.signals = [] ∧ c.mail.methodCalls = []) := by
    unfold Waiting at hnot
    tauto
  cases e with
  | flushCall =>
      simp only [after, Mail.after, Mail.flushCall, Waiting, GivesUpUnwaited]
      split_ifs with hzero
      · simp only [hzero]
        tauto
      · simp [hgaveUp, hzero]
  | flushReturn i =>
      refine iff_of_true ?_ trivial
      rintro ⟨-, hsome | hsome⟩
      · exact hsome henabled.2.1
      · exact hsome henabled.2.2
  | emitSignal => simp [after, Mail.after, Mail.emitSignal, Waiting, GivesUpUnwaited, hgaveUp]
  | callMethod reply =>
      simp [after, Mail.after, Mail.callMethod, Waiting, GivesUpUnwaited, hgaveUp]
  | doEmitSignal =>
      refine iff_of_true ?_ trivial
      simp only [after, Mail.after, Mail.doEmitSignal, Waiting]
      split_ifs <;> simp only [ne_eq] <;> tauto
  | doCallMethod =>
      refine iff_of_true ?_ trivial
      simp only [after, Mail.after, Mail.doCallMethod, Waiting]
      split_ifs <;> simp only [ne_eq] <;> tauto
  | handOver | directEmit | directFinish | doCallReply | workerStart | workerEmit | workerFinish =>
      refine iff_of_true ?_ trivial
      rw [waiting_after_other (by simp [MailEvent.queues]) (by simp) (by simp)]
      exact hnot

theorem Waitable.waits_after_iff {c : Conn} {e : Event} (hc : c.Waitable)
    (howner : c.OwnerConnects e) (henabled : c.Enabled e)
    (hwell : c.Waiting → ¬ c.link.GaveUp) :
    ((c.after e).Waiting → ¬ (c.after e).link.GaveUp) ↔ c.GivesUpUnwaited e := by
  cases e with
  | mail e =>
      by_cases hgaveUp : c.link.GaveUp
      · rw [← waiting_after_iff henabled hgaveUp fun hwaiting => hwell hwaiting hgaveUp]
        exact ⟨fun h hwaiting => h hwaiting hgaveUp, fun h hwaiting => absurd hwaiting h⟩
      · refine iff_of_true (fun _ => hgaveUp) ?_
        cases e <;> first | trivial | exact fun h => absurd h hgaveUp
  | link e =>
      by_cases hwaiting : c.Waiting
      · have hrunning : c.link.Running := hc.phase.resolve_left fun hfresh => hwaiting.1 hfresh.2.2
        have hother : ¬ e.isConnect := fun hconnect => by
          have hfresh := howner.2 hconnect
          have := hrunning.lively.start hfresh.status
          have := hfresh.doConnect
          omega
        have hkept : e ≠ .disconnectEnter := fun h => howner.1 (congrArg Event.link h)
        have hiff := hrunning.gaveUp_after_iff henabled.1 (hwell hwaiting) hother hkept
        constructor
        · intro h hgivesUp
          exact absurd (hiff.mpr hgivesUp) (h hwaiting)
        · intro h _ hgaveUp
          exact h (hiff.mp hgaveUp) hwaiting
      · exact iff_of_true (fun h => absurd h hwaiting) fun _ => hwaiting

/-- **`Flush` waits in vain** for exactly one reason. In a run in which the owner calls `Connect`
once at most and `Disconnect` never, a thread in `Flush` with something queued always finds the
connection up or an attempt pending that can bring it up, if and only if nobody is left waiting for
a connection that has given up. -/
theorem flush_served_iff {target : BusTarget} {named : Bool} {es : List Event} {c : Conn}
    (hrun : Machine.run step (new target named) es = some c)
    (honce : es.countP Event.isConnect ≤ 1) (hkept : .link .disconnectEnter ∉ es) :
    Machine.Throughout step (fun t => t.Waiting → t.FlushServed) (new target named) es ↔
      Machine.Along step GivesUpUnwaited (new target named) es := by
  have hnew := waitable_new target named
  have howner : Machine.Along step OwnerConnects (new target named) es := by
    apply Machine.along_once (I := fun t : Conn => t.link.Fresh) ?_
      (fun e he => ne_of_mem_of_not_mem he hkept) honce (Link.fresh_new target named)
    intro t e t' hfresh _ hother hstep
    obtain ⟨henabled, rfl⟩ := step_eq_some.mp hstep
    cases e with
    | mail e => exact hfresh
    | link e => exact hfresh.after henabled.1 hother
  refine Machine.throughout_iff_along_of_guarded (I := Waitable) (G := OwnerConnects)
    (fun t e t' => Waitable.step) (fun t e t' ht hwell hguard hstep => ?_) hrun howner hnew
    fun hwaiting => absurd rfl hwaiting.1
  rw [forall_congr' ((ht.step hguard hstep).flushServed_iff)]
  obtain ⟨henabled, rfl⟩ := step_eq_some.mp hstep
  exact ht.waits_after_iff hguard henabled fun hwaiting =>
    (ht.flushServed_iff hwaiting).mp (hwell hwaiting)

theorem flush_served_over_loss :
    Machine.Throughout step (fun t => t.Waiting → t.FlushServed) (new .address true)
      [.link (.connect true), .link .doConnect, .mail .emitSignal, .mail .flushCall,
        .link (.onBusGet false), .link .doReconnect, .link (.onBusGet true),
        .link (.onNameLost 0), .link .onNameLostClose] :=
  (flush_served_iff rfl (by decide) (by decide)).mpr (by decide)

/-- The first attempt of `Connect(FALSE)` fails, and a signal is flushed. -/
theorem flush_of_failed_connect :
    ¬ ∀ (target : BusTarget) (named : Bool) (es : List Event) (c : Conn),
      Machine.run step (new target named) es = some c → es.countP Event.isConnect ≤ 1 →
        .link .disconnectEnter ∉ es → c.Waiting → c.FlushServed := by
  intro hall
  have hserved := hall .address true [.link (.connect false), .link .doConnect,
    .link (.onBusGet false), .mail .emitSignal, .mail .flushCall] _ rfl (by decide) (by decide)
    ⟨by decide, .inl (by decide)⟩
  rcases hserved with hup | hpending
  · exact absurd hup.1 (by decide)
  · exact absurd hpending.1 (by decide)

end Conn

end Dbus2vdr

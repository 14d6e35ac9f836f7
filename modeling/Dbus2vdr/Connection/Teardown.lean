import Dbus2vdr.Connection.Status
import Dbus2vdr.Connection.Mail

/-!
# What `Disconnect` leaves behind

After `Disconnect` the owner deletes the connection, so nothing that carries its pointer may be left
in the main loop. `Disconnect` waits for its own flush and close, and for nothing else: it returns
at once when `_connect_status` is 0, which `Connect` sets too, and neither the `do_reconnect` timer
nor a bus request, a close from `on_name_lost`, an unanswered call or the source of a send queue is
ended by it. So it is left to the owner to call it when none of these is under way, and to the
others not to start one any more; `settled_after_disconnect` says that this is enough.
-/

namespace Dbus2vdr

/-- The steps of the main loop: its callbacks, and what is left of a `do_emit_signal` it is in. -/
def Event.dispatched : Event → Bool
  | .link e => e.dispatched
  | .mail .doEmitSignal | .mail (.handOver _) | .mail .directEmit | .mail .directFinish
  | .mail .doCallMethod | .mail (.doCallReply _) => true
  | .mail _ => false

/-! ### Nothing under way -/

namespace Link

/-- Neither an attempt to connect nor a loss of the connection is under way. -/
def Idle (l : Link) : Prop :=
  l.doConnectSources = 0 ∧ l.doReconnectSources = 0 ∧ l.busGets = 0 ∧ l.nameLostCloses = 0

instance (l : Link) : Decidable l.Idle := inferInstanceAs (Decidable (_ ∧ _ ∧ _ ∧ _))

/-- `on_name_lost` is the only callback that would start something, a close or a `Connect`. -/
theorem Idle.after {l : Link} {e : LinkEvent} (hl : l.Idle) (he : l.Enabled e)
    (hother : ¬ e.isConnect)
    (hlost : ∀ owner, e = .onNameLost owner → l.target ≠ .address ∧ l.reconnect = false) :
    (l.after e).Idle := by
  obtain ⟨hdoConnect, hdoReconnect, hbusGet, hnameLost⟩ := hl
  cases e with
  | connect => exact absurd rfl hother
  | doConnect | doReconnect | onBusGet | onNameLostClose =>
      simp only [Enabled] at he
      omega
  | onNameLost owner =>
      obtain ⟨htarget, hreconnect⟩ := hlost owner rfl
      simp only [Link.after, onNameLost, release_eq, if_neg htarget, onNameLostClose, hreconnect]
      exact ⟨hdoConnect, hdoReconnect, hbusGet, hnameLost⟩
  | disconnectAttach =>
      simp only [Link.after, disconnectAttach]
      split_ifs <;> exact ⟨hdoConnect, hdoReconnect, hbusGet, hnameLost⟩
  | doFlush =>
      simp only [Link.after, doFlush]
      split_ifs <;> exact ⟨hdoConnect, hdoReconnect, hbusGet, hnameLost⟩
  | onFlush =>
      simp only [Link.after, onFlush]
      split_ifs <;> exact ⟨hdoConnect, hdoReconnect, hbusGet, hnameLost⟩
  | doDisconnect =>
      simp only [Link.after, doDisconnect, release_eq, closeConnection, onDisconnectClose]
      split_ifs <;> exact ⟨hdoConnect, hdoReconnect, hbusGet, hnameLost⟩
  | onDisconnectClose =>
      simp only [Link.after, onDisconnectClose]
      split_ifs <;> exact ⟨hdoConnect, hdoReconnect, hbusGet, hnameLost⟩
  | disconnectEnter | disconnectMark | disconnectReturn | busClosed | addObject | addWatcher | watch
  | unwatch => exact ⟨hdoConnect, hdoReconnect, hbusGet, hnameLost⟩

/-- Only the answer to a bus request sets `_connection`. -/
theorem connection_after_eq_none {l : Link} {e : LinkEvent} (hnone : l.connection = none)
    (hother : ∀ ok, e ≠ .onBusGet ok) : (l.after e).connection = none := by
  cases e with
  | onBusGet ok => exact absurd rfl (hother ok)
  | _ =>
      simp only [Link.after, connect, disconnectEnter, disconnectMark, disconnectAttach,
        disconnectReturn, doConnect, doReconnect, requestBus, endReconnect, onNameLost,
        onNameLostClose, doFlush, onFlush, doDisconnect, onDisconnectClose, release_eq,
        closeConnection, addObject, addWatcher, watch, unwatch]
      try split_ifs
      all_goals first | exact hnone | rfl

theorem Coherent.connect {s : Link} (hs : s.Coherent) (hdown : s.connection = none)
    (hidle : s.Idle) (hclose : s.disconnectCloses = 0) (autoReconnect : Bool) :
    (s.after (.connect autoReconnect)).Coherent := by
  obtain ⟨hdoConnect, -, hbusGet, hnameLost⟩ := hidle
  exact
    { hs with
      range := Nat.zero_le 4
      up := by simp [Link.after, Link.connect, hdown]
      request := by simp [Link.after, Link.connect, hbusGet]
      start := .inr ⟨by simp [Link.after, Link.connect, hdoConnect], rfl⟩
      closing := fun hclosing => by
        simp [Link.after, Link.connect, hnameLost, hclose] at hclosing }

/-- A connection that was never started, or whose status can be relied on. -/
def Known (l : Link) : Prop :=
  l.Fresh ∨ l.Coherent

theorem Known.after {l : Link} {e : LinkEvent} (hl : l.Known) (hchain : l.ChainSound)
    (he : l.Enabled e)
    (hconnect : e.isConnect → l.connection = none ∧ l.Idle) : (l.after e).Known := by
  by_cases hother : e.isConnect
  · cases e with
    | connect autoReconnect =>
        obtain ⟨hdown, hidle⟩ := hconnect rfl
        rcases hl with hfresh | hcoherent
        · exact .inr (hfresh.connect autoReconnect)
        · have hnone := (hchain.idle he).2
          exact .inr (hcoherent.connect hdown hidle (by omega) autoReconnect)
    | _ => cases hother
  · exact hl.imp (fun hfresh => hfresh.after he hother)
      fun hcoherent => hcoherent.after hchain he hother

theorem Known.of_down {l : Link} (hl : l.Known) (hdown : l.connection = none) :
    l.connectStatus < 3 ∧ l.owned = [] := by
  rcases hl with hfresh | hcoherent
  · exact ⟨by rw [hfresh.status]; decide, hfresh.owned⟩
  · have hstatus : l.connectStatus < 3 := by
      by_contra hup
      have := hcoherent.up.mpr (by omega)
      rw [hdown] at this
      cases this
    exact ⟨hstatus, hcoherent.owned_eq_nil hstatus⟩

end Link

namespace Mail

/-- No source of the send queues is attached, and no answer of a method call is to come. -/
def Idle (m : Mail) : Prop :=
  m.doEmitSignalSources = 0 ∧ m.doCallMethodSources = 0 ∧ m.replies = []

instance (m : Mail) : Decidable m.Idle := inferInstanceAs (Decidable (_ ∧ _ ∧ _))

theorem Idle.after {l : Link} {m : Mail} {e : MailEvent} (hm : m.Idle) (he : m.Enabled l e)
    (hemit : e ≠ .emitSignal) (hcall : ∀ reply, e ≠ .callMethod reply) :
    (m.after l e).Idle := by
  obtain ⟨hsignals, hcalls, hreplies⟩ := hm
  cases e with
  | emitSignal => exact absurd rfl hemit
  | callMethod reply => exact absurd rfl (hcall reply)
  | doEmitSignal | doCallMethod =>
      have := he.1
      omega
  | doCallReply call => simp [Enabled, hreplies] at he
  | handOver poolOk =>
      simp only [Mail.after, handOver]
      split
      · split_ifs <;> exact ⟨hsignals, hcalls, hreplies⟩
      · exact ⟨hsignals, hcalls, hreplies⟩
  | directEmit =>
      simp only [Mail.after, directEmit]
      split <;> exact ⟨hsignals, hcalls, hreplies⟩
  | flushCall =>
      simp only [Mail.after, flushCall]
      split_ifs <;> exact ⟨hsignals, hcalls, hreplies⟩
  | workerEmit i =>
      simp only [Mail.after, workerEmit]
      split <;> exact ⟨hsignals, hcalls, hreplies⟩
  | flushReturn | directFinish | workerStart | workerFinish =>
      exact ⟨hsignals, hcalls, hreplies⟩

/-- The main loop gets a batch in hand only while the connection is up. -/
theorem hand_after {l : Link} {m : Mail} {e : MailEvent} (hbusy : (m.after l e).hand ≠ .free) :
    m.hand ≠ .free ∨ 3 ≤ l.connectStatus := by
  by_contra hnot
  obtain ⟨hfree, hdown⟩ := not_or.mp hnot
  rw [not_not] at hfree
  apply hbusy
  cases e with
  | doEmitSignal =>
      simp only [Mail.after, doEmitSignal, if_pos (Nat.not_le.mp hdown)]
      split_ifs <;> exact hfree
  | doCallMethod =>
      simp only [Mail.after, doCallMethod, if_pos (Nat.not_le.mp hdown)]
      split_ifs <;> exact hfree
  | handOver poolOk => simp only [Mail.after, handOver, hfree]
  | directEmit => simp only [Mail.after, directEmit, hfree]
  | flushCall =>
      simp only [Mail.after, flushCall]
      split_ifs <;> exact hfree
  | workerEmit i =>
      simp only [Mail.after, workerEmit]
      split <;> exact hfree
  | directFinish => rfl
  | emitSignal | callMethod | flushReturn | doCallReply | workerStart | workerFinish => exact hfree

end Mail

namespace Conn

/-- Nothing of the main loop carries the connection's pointer any more, be it a source, the timer, a
GDBus call or a callback it is inside of, and GDBus has no name to report on. -/
structure Quiet (c : Conn) : Prop where
  doConnect : c.link.doConnectSources = 0
  doReconnect : c.link.doReconnectSources = 0
  busGet : c.link.busGets = 0
  nameLostClose : c.link.nameLostCloses = 0
  doFlush : c.link.doFlushSources = 0
  flush : c.link.flushes = 0
  doDisconnect : c.link.doDisconnectSources = 0
  disconnectClose : c.link.disconnectCloses = 0
  owned : c.link.owned = []
  doEmitSignal : c.mail.doEmitSignalSources = 0
  doCallMethod : c.mail.doCallMethodSources = 0
  hand : c.mail.hand = .free
  replies : c.mail.replies = []

/-- The connection is down, nothing pending carries its pointer, and so no step of the main loop can
touch it. -/
structure Settled (c : Conn) : Prop where
  quiet : c.Quiet
  down : c.link.connection = none
  silent : ∀ e : Event, e.dispatched → ¬ c.Enabled e

theorem Quiet.silent {c : Conn} (hc : c.Quiet) (e : Event) (hdispatched : e.dispatched) :
    ¬ c.Enabled e := by
  obtain ⟨_, _, _, _, _, _, _, _, howned, _, _, hhand, hreplies⟩ := hc
  cases e with
  | link e =>
      refine fun henabled => absurd henabled.1 ?_
      cases e with
      | connect | disconnectEnter | disconnectMark | disconnectAttach | disconnectReturn
      | busClosed | addObject | addWatcher | watch | unwatch => cases hdispatched
      | onNameLost owner => simp [Link.Enabled, howned]
      | _ =>
          simp only [Link.Enabled]
          omega
  | mail e =>
      cases e with
      | doEmitSignal | doCallMethod =>
          simp only [Enabled, Mail.Enabled]
          omega
      | handOver | directEmit | directFinish =>
          simp [Enabled, Mail.Enabled, hhand, Hand.isTaken, Hand.signal?]
      | doCallReply => simp [Enabled, Mail.Enabled, hreplies]
      | _ => cases hdispatched

/-- `Connect` is called only on a connection that is down, and like `Disconnect` only when nothing
is under way. Nobody queues anything from the call of `Disconnect` to the next `Connect`, and when
the name is lost in between, `on_name_lost` has neither a connection to close nor one to make. -/
def Orderly (c : Conn) : Event → Prop
  | .link (.connect _) => c.link.connection = none ∧ c.link.Idle
  | .link .disconnectEnter => c.link.Idle ∧ c.mail.Idle
  | .link (.onNameLost _) =>
      c.link.caller = .away ∨ (c.link.target ≠ .address ∧ c.link.reconnect = false)
  | .mail .emitSignal | .mail (.callMethod _) => c.link.caller = .away
  | _ => True

instance decidableOrderly (c : Conn) : (e : Event) → Decidable (c.Orderly e)
  | .link (.connect _) => inferInstanceAs (Decidable (c.link.connection = none ∧ c.link.Idle))
  | .link .disconnectEnter => inferInstanceAs (Decidable (c.link.Idle ∧ c.mail.Idle))
  | .link (.onNameLost _) => inferInstanceAs
      (Decidable (c.link.caller = .away ∨
        (c.link.target ≠ .address ∧ c.link.reconnect = false)))
  | .mail .emitSignal | .mail (.callMethod _) =>
      inferInstanceAs (Decidable (c.link.caller = .away))
  | .link .disconnectMark | .link .disconnectAttach | .link .disconnectReturn | .link .doConnect
  | .link .doReconnect | .link (.onBusGet _) | .link .onNameLostClose | .link .doFlush
  | .link .onFlush | .link .doDisconnect | .link .onDisconnectClose | .link (.busClosed _)
  | .link .addObject | .link (.addWatcher _) | .link (.watch _) | .link (.unwatch _)
  | .mail .flushCall | .mail (.flushReturn _) | .mail .doEmitSignal | .mail (.handOver _)
  | .mail .directEmit | .mail .directFinish | .mail .doCallMethod | .mail (.doCallReply _)
  | .mail .workerStart | .mail (.workerEmit _) | .mail (.workerFinish _) =>
      inferInstanceAs (Decidable True)

/-- What orderly steps keep. From the call of `Disconnect` on nothing is under way but its own flush
and close, and `on_disconnect_close` leaves no connection behind. -/
structure Orderable (c : Conn) : Prop where
  chain : c.link.ChainSound
  handle : c.link.HandleSound
  known : c.link.Known
  busy : c.mail.hand ≠ .free → 3 ≤ c.link.connectStatus
  idle : c.link.caller ≠ .away → c.link.Idle ∧ c.mail.Idle
  woken : c.link.disconnectStatus = 2 → c.link.connection = none
  down : c.link.caller = .returned → c.link.connection = none

theorem orderable_new (target : BusTarget) (named : Bool) : (new target named).Orderable where
  chain := Link.chainSound_new target named
  handle := Link.handleSound_new target named
  known := .inl (Link.fresh_new target named)
  busy hbusy := absurd rfl hbusy
  idle haway := absurd rfl haway
  woken htwo := by cases htwo
  down hreturned := by cases hreturned

theorem Orderable.settled {c : Conn} (hc : c.Orderable) (hreturned : c.link.caller = .returned) :
    c.Settled := by
  have hdown := hc.down hreturned
  obtain ⟨hstatus, howned⟩ := hc.known.of_down hdown
  obtain ⟨⟨hdoConnect, hdoReconnect, hbusGet, hnameLost⟩, hsignals, hcalls, hreplies⟩ :=
    hc.idle (by simp [hreturned])
  have hnone := (hc.chain.idle (.inr hreturned)).2
  unfold Link.carriers at hnone
  have hquiet : c.Quiet :=
    { doConnect := hdoConnect
      doReconnect := hdoReconnect
      busGet := hbusGet
      nameLostClose := hnameLost
      doFlush := by omega
      flush := by omega
      doDisconnect := by omega
      disconnectClose := by omega
      owned := howned
      doEmitSignal := hsignals
      doCallMethod := hcalls
      hand := by
        by_contra hbusy
        have := hc.busy hbusy
        omega
      replies := hreplies }
  exact ⟨hquiet, hdown, hquiet.silent⟩

/-- Outside of the call and the return of `Disconnect` its caller stays inside or outside of it. -/
theorem caller_before {l : Link} {e : LinkEvent} (he : l.Enabled e)
    (henter : e ≠ .disconnectEnter) (haway : (l.after e).caller ≠ .away) :
    ¬ e.isConnect ∧ l.caller ≠ .away := by
  cases e with
  | connect => exact absurd rfl haway
  | disconnectEnter => exact absurd rfl henter
  | disconnectMark | disconnectAttach =>
      simp only [Link.Enabled] at he
      exact ⟨Bool.false_ne_true, by simp [he]⟩
  | disconnectReturn => exact ⟨Bool.false_ne_true, by simp [he.1]⟩
  | busClosed | addObject | addWatcher | watch | unwatch => exact ⟨Bool.false_ne_true, haway⟩
  | _ =>
      rw [Link.after_caller_of_dispatched rfl] at haway
      exact ⟨Bool.false_ne_true, haway⟩

theorem Orderable.idle_after {c : Conn} {e : LinkEvent} (hc : c.Orderable)
    (horderly : c.Orderly (.link e)) (he : c.link.Enabled e)
    (haway : (c.link.after e).caller ≠ .away) : (c.link.after e).Idle ∧ c.mail.Idle := by
  by_cases henter : e = .disconnectEnter
  · subst henter
    exact horderly
  · obtain ⟨hother, hinside⟩ := caller_before he henter haway
    obtain ⟨hlink, hmail⟩ := hc.idle hinside
    refine ⟨hlink.after he hother fun owner howner => ?_, hmail⟩
    subst howner
    exact horderly.resolve_left hinside

/-- A connection is gone when `on_disconnect_close` reports, and there is none to come. -/
theorem Orderable.woken_after {c : Conn} {e : LinkEvent} (hc : c.Orderable)
    (he : c.link.Enabled e) (hwoken : (c.link.after e).disconnectStatus = 2) :
    (c.link.after e).connection = none := by
  by_cases hbefore : c.link.disconnectStatus = 2
  · apply Link.connection_after_eq_none (hc.woken hbefore)
    rintro ok rfl
    have haway : c.link.caller ≠ .away := fun haway => by
      have := (hc.chain.idle (.inl haway)).1
      omega
    have hidle := (hc.idle haway).1.2.2.1
    have hrequest : 0 < c.link.busGets := he
    omega
  · have hclosed (l : Link) : l.onDisconnectClose.connection = none := by
      unfold Link.onDisconnectClose
      cases hconnection : l.connection <;> simp [hconnection]
    cases e with
    | onDisconnectClose => exact hclosed _
    | doDisconnect =>
        simp only [Link.after, Link.doDisconnect] at hwoken ⊢
        split_ifs at hwoken ⊢
        · simp only [Link.release_eq, Link.closeConnection] at hwoken
          exact absurd hwoken hbefore
        · simp only [Link.release_eq] at hwoken
          exact absurd hwoken hbefore
        · exact hclosed _
    | disconnectMark | disconnectReturn => cases hwoken
    | _ =>
        -- no other step touches `_disconnect_status`
        refine absurd ?_ hbefore
        rw [← hwoken]
        simp only [Link.after, Link.connect, Link.disconnectEnter, Link.disconnectAttach,
          Link.doConnect, Link.doReconnect, Link.requestBus, Link.endReconnect, Link.onBusGet,
          Link.registerObjects, Link.registerWatchers, Link.ownName, Link.onNameLost,
          Link.onNameLostClose, Link.doFlush, Link.onFlush, Link.release_eq, Link.closeConnection,
          Link.addObject, Link.addWatcher, Link.watch, Link.unwatch]
        try split_ifs <;> rfl

theorem Orderable.down_after {c : Conn} {e : LinkEvent} (hc : c.Orderable)
    (horderly : c.Orderly (.link e)) (he : c.Enabled (.link e))
    (hreturned : (c.link.after e).caller = .returned) : (c.link.after e).connection = none := by
  cases e with
  | disconnectEnter =>
      have hidle : c.link.Idle := horderly.1
      by_cases hstatus : c.link.connectStatus = 0
      · refine (hc.handle.down hstatus).resolve_right ?_
        rw [hidle.1]
        exact Nat.lt_irrefl 0
      · simp [Link.after, Link.disconnectEnter, hstatus] at hreturned
  | disconnectReturn =>
      obtain ⟨hwaiting, hwoken⟩ := he.1
      obtain ⟨-, hchain⟩ := hc.chain.waiting hwaiting
      exact hc.woken (by omega)
  | connect | disconnectMark => cases hreturned
  | disconnectAttach =>
      simp only [Link.after, Link.disconnectAttach] at hreturned
      split_ifs at hreturned
  | busClosed | addObject | addWatcher | watch | unwatch => exact hc.down hreturned
  | _ =>
      -- in a settled connection no callback runs
      rw [Link.after_caller_of_dispatched rfl] at hreturned
      exact absurd he ((hc.settled hreturned).silent _ rfl)

theorem Orderable.busy_after {c : Conn} {e : LinkEvent} (hc : c.Orderable)
    (horderly : c.Orderly (.link e)) (he : c.Enabled (.link e)) (hbusy : c.mail.hand ≠ .free) :
    3 ≤ (c.link.after e).connectStatus := by
  have hup := hc.busy hbusy
  cases e with
  | connect =>
      have := (hc.known.of_down horderly.1).1
      omega
  | disconnectAttach =>
      simp only [Link.after, Link.disconnectAttach, if_pos hup]
      exact hup
  | disconnectEnter | disconnectMark | disconnectReturn | busClosed | addObject | addWatcher | watch
  | unwatch => exact hup
  | _ => exact absurd (he.2 rfl) hbusy

theorem Orderable.step {c c' : Conn} {e : Event} (hc : c.Orderable) (horderly : c.Orderly e)
    (hstep : step c e = some c') : c'.Orderable := by
  obtain ⟨henabled, rfl⟩ := step_eq_some.mp hstep
  cases e with
  | link e =>
      exact
        { chain := hc.chain.after henabled.1
          handle := hc.handle.after
          known := hc.known.after hc.chain henabled.1 fun hconnect => by
            cases e with
            | connect => exact horderly
            | _ => cases hconnect
          busy := hc.busy_after horderly henabled
          idle := hc.idle_after horderly henabled.1
          woken := hc.woken_after henabled.1
          down := hc.down_after horderly henabled }
  | mail e =>
      refine { hc with busy := fun hbusy => ?_, idle := fun haway => ?_ }
      · exact (Mail.hand_after hbusy).elim hc.busy id
      · obtain ⟨hlink, hmail⟩ := hc.idle haway
        refine ⟨hlink, hmail.after henabled ?_ ?_⟩
        · rintro rfl
          exact haway horderly
        · rintro reply rfl
          exact haway horderly

/-- **After `Disconnect`.** In every run of orderly steps, with any number of `Connect`s: from each
return of `Disconnect` to the next `Connect` the connection is down, nothing pending carries its
pointer, and no step of the main loop can touch it. -/
theorem settled_after_disconnect {target : BusTarget} {named : Bool} {es : List Event}
    (halong : Machine.Along step Orderly (new target named) es) :
    Machine.Throughout step (fun t => t.link.caller = .returned → t.Settled)
    (new target named) es :=
  Machine.throughout_of_guarded (I := Orderable) (fun _ _ _ ht horderly hstep =>
    ht.step horderly hstep) (fun _ ht hreturned => ht.settled hreturned) halong
    (orderable_new target named)

/-- The destructor's sequence, after the timer has ticked, on a connection that comes up once
more. -/
theorem settled_after_tick :
    ∃ es c, Machine.run step (new .address true) es = some c ∧ c.link.caller = .returned ∧
      Machine.Throughout step (fun t => t.link.caller = .returned → t.Settled)
        (new .address true) es := by
  have hrun : Machine.run step (new .address true) (bringUp ++ [.link .doReconnect,
    .mail .emitSignal, .mail .flushCall, .mail .doEmitSignal, .mail (.flushReturn 0),
    .link .disconnectEnter, .mail (.handOver true), .link .disconnectMark, .link .disconnectAttach,
    .mail .workerStart, .link .doFlush, .mail (.workerEmit 0), .link .onFlush, .link .doDisconnect,
    .link .onDisconnectClose, .link .disconnectReturn] ++ bringUp ++ [.link .doReconnect,
    .link .disconnectEnter, .link .disconnectMark, .link .disconnectAttach, .link .doFlush,
    .link .onFlush, .link .doDisconnect, .link .onDisconnectClose,
    .link .disconnectReturn]) = some _ := rfl
  exact ⟨_, _, hrun, rfl, settled_after_disconnect (by decide)⟩

/-- A connection that is given up within the second its timer takes leaves `do_reconnect` with the
pointer of what is deleted next. -/
theorem timer_left_behind :
    ¬ ∀ (target : BusTarget) (named : Bool) (es : List Event) (c : Conn),
      Machine.run step (new target named) es = some c → c.link.caller = .returned →
        c.link.doReconnectSources = 0 := by
  intro hall
  have hzero := hall .address true
    [.link (.connect true), .link .doConnect, .link (.onBusGet true), .link .disconnectEnter,
      .link .disconnectMark, .link .disconnectAttach, .link .doFlush, .link .onFlush,
      .link .doDisconnect, .link .onDisconnectClose, .link .disconnectReturn] _ rfl rfl
  exact absurd hzero (by decide)

end Conn

end Dbus2vdr

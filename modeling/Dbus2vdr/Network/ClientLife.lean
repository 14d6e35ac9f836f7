import Dbus2vdr.Connection.Waiting
import Dbus2vdr.Network.Clients

/-!
# What outlives a network client

A `cDBusNetworkClient` hands its address to three things: to its connection, which calls `OnConnect`
when the bus is there, to the signal it subscribes to then, and to each call of `List` that a
`TimerChange` makes. Its destructor frees its strings and nothing else. The connection goes on to
connect, the signal stays subscribed and the calls are answered, whether the client is still there
or not. `callbacks_alive` says when a client can be deleted without harm: when its attempt to
connect is over, its bus is gone and no call is left.
-/

namespace Dbus2vdr

structure Client where
  data : NetworkClient
  deleted : Bool := false
  connection : Conn
  /-- `_signal_timer_change`, as the `GDBusConnection` it was subscribed on. -/
  signalTimerChange : Option Nat := none

/-- The callbacks of the connection, and the loss of its bus: all that happens to a connection whose
owner makes no further calls. -/
def LinkEvent.unasked : LinkEvent → Bool
  | .busClosed _ => true
  | e => e.dispatched

/-- What the main loop does for one client, dead or alive. -/
inductive ClientEvent where
  | link (e : LinkEvent)
  | onSignal
  | doCallMethod
  | doCallReply (call : Nat)
  deriving DecidableEq, Repr

namespace Client

/-- The constructor: `new cDBusConnection(NULL, ...)` and `Connect(FALSE)`. -/
def new (data : NetworkClient) : Client where
  data := data
  connection := (Conn.new .address false).after (.link (.connect false))

/-- Which of `OnConnect`, `OnDisconnect`, `OnTimerChange` and `OnTimerList` are called, that is
whether the address of the client is used. -/
def callsBack : ClientEvent → Bool
  | .link (.onBusGet ok) => ok
  | .link (.onNameLost _) => true
  | .link _ => false
  | .onSignal => true
  | .doCallMethod => false
  | .doCallReply _ => true

def onConnect (c : Client) : Client :=
  if c.signalTimerChange = none then
    { c with signalTimerChange := c.connection.link.connection }
  else c

def onDisconnect (c : Client) : Client :=
  { c with signalTimerChange := none }

def Enabled (c : Client) : ClientEvent → Prop
  | .link e => e.unasked ∧ c.connection.Enabled (.link e)
  | .onSignal => ∃ conn ∈ c.signalTimerChange, conn ∉ c.connection.link.closed
  | .doCallMethod => c.connection.Enabled (.mail .doCallMethod)
  | .doCallReply call => c.connection.Enabled (.mail (.doCallReply call))

instance decidableEnabled (c : Client) : DecidablePred c.Enabled
  | .link e => inferInstanceAs (Decidable (e.unasked = true ∧ c.connection.Enabled (.link e)))
  | .onSignal => inferInstanceAs
      (Decidable (∃ conn ∈ c.signalTimerChange, conn ∉ c.connection.link.closed))
  | .doCallMethod => inferInstanceAs (Decidable (c.connection.Enabled (.mail .doCallMethod)))
  | .doCallReply call =>
      inferInstanceAs (Decidable (c.connection.Enabled (.mail (.doCallReply call))))

def link (c : Client) (e : LinkEvent) : Client :=
  let c := { c with connection := c.connection.after (.link e) }
  match e with
  | .onBusGet true => c.onConnect
  | .onNameLost _ => c.onDisconnect
  | _ => c

/-- `OnTimerChange` -/
def onTimerChange (c : Client) : Client :=
  { c with connection := c.connection.after (.mail (.callMethod true)) }

def after (c : Client) : ClientEvent → Client
  | .link e => c.link e
  | .onSignal => c.onTimerChange
  | .doCallMethod => { c with connection := c.connection.after (.mail .doCallMethod) }
  | .doCallReply call => { c with connection := c.connection.after (.mail (.doCallReply call)) }

def step : Machine.Step Client ClientEvent :=
  fun c e => if c.Enabled e then some (c.after e) else none

theorem step_eq_some {c c' : Client} {e : ClientEvent} :
    step c e = some c' ↔ c.Enabled e ∧ c.after e = c' := by
  unfold step
  split_ifs with henabled <;> simp [henabled]

end Client

/-! ### The connection of a client -/

namespace Link

/-- Without a bus name and without auto-reconnect a connection is tried once, and once it is there
it stays. -/
structure TriedOnce (l : Link) : Prop where
  running : l.Running
  target : l.target = .address
  unnamed : l.named = false
  noReconnect : l.reconnect = false
  noLoss : l.nameLostCloses = 0

theorem unasked_ne {e : LinkEvent} (hunasked : e.unasked) :
    ¬ e.isConnect ∧ e ≠ .disconnectEnter ∧ e ≠ .disconnectMark := by
  cases e <;> simp_all [LinkEvent.unasked, LinkEvent.dispatched, LinkEvent.isConnect]

theorem TriedOnce.owned_eq_nil {l : Link} (hl : l.TriedOnce) : l.owned = [] := by
  rw [hl.running.coherent.owned, (hl.running.coherent.unnamed hl.unnamed).1, Option.toList_none]

/-- A step brings no new attempt, loses no connection and opens no closed bus again. -/
structure Progress (l l' : Link) : Prop where
  named : l'.named = l.named
  noLoss : l'.nameLostCloses = 0
  up : 3 ≤ l.connectStatus → 3 ≤ l'.connectStatus
  attempt : l'.AttemptPending → l.AttemptPending
  closed : l.closed ⊆ l'.closed

theorem TriedOnce.progress {l : Link} {e : LinkEvent} (hl : l.TriedOnce) (hunasked : e.unasked)
    (he : l.Enabled e) : l.Progress (l.after e) := by
  have haway := hl.running.away
  obtain ⟨-, hidle⟩ := hl.running.chain.outside (by simp [haway]) (by simp [haway])
  unfold carriers at hidle
  have hloss := hl.noLoss
  have hgaveUp := hl.noReconnect
  cases e with
  | connect | disconnectEnter | disconnectMark | disconnectAttach | disconnectReturn | addObject
  | addWatcher | watch | unwatch => cases hunasked
  | doFlush | onFlush | doDisconnect | onDisconnectClose | onNameLostClose =>
      simp only [Enabled] at he
      omega
  | onNameLost owner => simp [Enabled, hl.owned_eq_nil] at he
  | busClosed conn => exact ⟨rfl, hloss, id, id, List.subset_append_left _ _⟩
  | doConnect =>
      have hzero : l.connectStatus = 0 := by
        have := hl.running.coherent.start
        simp only [Enabled] at he
        omega
      have htarget : l.target ≠ .nowhere := by
        rw [hl.target]
        decide
      simp only [Link.after, doConnect, requestBus, if_pos hzero, if_neg htarget]
      exact
        { named := rfl
          noLoss := hloss
          up := fun hup => absurd hup (by omega)
          attempt := fun _ => .inl ⟨hzero, he, htarget⟩
          closed := List.Subset.refl _ }
  | doReconnect =>
      rw [Link.after, doReconnect, if_pos (by simp [hgaveUp])]
      exact
        { named := rfl
          noLoss := hloss
          up := id
          attempt := .imp_right (.imp_left fun h => by cases h.2.1.symm.trans hgaveUp)
          closed := List.Subset.refl _ }
  | onBusGet ok =>
      have htwo := (hl.running.coherent.status_of_request he).1
      simp only [Link.after, onBusGet, hl.unnamed, Bool.false_eq_true, if_false]
      split_ifs
      · exact
          { named := hl.unnamed.symm
            noLoss := hloss
            up := fun _ => Nat.le_refl 3
            attempt := fun _ => .inr (.inr he)
            closed := List.Subset.refl _ }
      · exact
          { named := hl.unnamed.symm
            noLoss := hloss
            up := fun hup => absurd hup (by omega)
            attempt := fun _ => .inr (.inr he)
            closed := List.Subset.refl _ }

theorem TriedOnce.after {l : Link} {e : LinkEvent} (hl : l.TriedOnce) (hunasked : e.unasked)
    (he : l.Enabled e) : (l.after e).TriedOnce := by
  obtain ⟨hother, hkept, hmark⟩ := unasked_ne hunasked
  have hprogress := hl.progress hunasked he
  exact
    { running := hl.running.after he hother hkept
      target := by rw [after_target, hl.target]
      unnamed := by rw [hprogress.named, hl.unnamed]
      noReconnect := by rw [after_reconnect hother hmark, hl.noReconnect]
      noLoss := hprogress.noLoss }

end Link

/-- What an event of a client is to its connection. -/
def ClientEvent.onConnection : ClientEvent → Event
  | .link e => .link e
  | .onSignal => .mail (.callMethod true)
  | .doCallMethod => .mail .doCallMethod
  | .doCallReply call => .mail (.doCallReply call)

namespace Client

/-- Of the client itself an event changes the subscription alone. -/
theorem after_eq (c : Client) (e : ClientEvent) :
    ∃ signalTimerChange, c.after e =
      { c with connection := c.connection.after e.onConnection, signalTimerChange } := by
  cases e with
  | onSignal | doCallMethod | doCallReply => exact ⟨_, rfl⟩
  | link e =>
      simp only [after, link]
      split
      · unfold onConnect
        split_ifs <;> exact ⟨_, rfl⟩
      · exact ⟨_, rfl⟩
      · exact ⟨_, rfl⟩

theorem after_connection (c : Client) (e : ClientEvent) :
    (c.after e).connection = c.connection.after e.onConnection := by
  obtain ⟨signalTimerChange, hafter⟩ := c.after_eq e
  rw [hafter]

theorem after_deleted (c : Client) (e : ClientEvent) : (c.after e).deleted = c.deleted := by
  obtain ⟨signalTimerChange, hafter⟩ := c.after_eq e
  rw [hafter]

theorem connection_enabled {c : Client} {e : ClientEvent} (he : c.Enabled e) :
    c.connection.Enabled e.onConnection := by
  cases e with
  | link e => exact he.2
  | onSignal => trivial
  | doCallMethod | doCallReply => exact he

/-- What holds of every client, deleted or not. -/
structure Sound (c : Client) : Prop where
  link : c.connection.link.TriedOnce
  waitable : c.connection.Waitable
  silent : c.connection.mail.hand = .free
  asked : ∀ call ∈ c.connection.mail.methodCalls, call.reply = true
  subscribed : c.signalTimerChange.isSome → 3 ≤ c.connection.link.connectStatus
  calling : c.connection.mail.methodCalls ≠ [] → 3 ≤ c.connection.link.connectStatus

/-- Nothing is left that will use the address of the client. -/
structure Finished (c : Client) : Prop where
  noAttempt : ¬ c.connection.link.AttemptPending
  noSignal : ∀ conn ∈ c.signalTimerChange, conn ∈ c.connection.link.closed
  noCall : c.connection.mail.methodCalls = []
  noReply : c.connection.mail.replies = []

instance (c : Client) : Decidable c.Finished :=
  decidable_of_iff (¬ c.connection.link.AttemptPending ∧
      (∀ conn ∈ c.signalTimerChange, conn ∈ c.connection.link.closed) ∧
        c.connection.mail.methodCalls = [] ∧ c.connection.mail.replies = [])
    ⟨fun ⟨h₁, h₂, h₃, h₄⟩ => ⟨h₁, h₂, h₃, h₄⟩,
      fun ⟨h₁, h₂, h₃, h₄⟩ => ⟨h₁, h₂, h₃, h₄⟩⟩

theorem sound_new (data : NetworkClient) : (new data).Sound := by
  have hfresh := Link.fresh_new .address false
  have hchain := Link.chainSound_new .address false
  have howner : (Conn.new .address false).OwnerConnects (.link (.connect false)) :=
    ⟨by simp, fun _ => hfresh⟩
  exact
    { link :=
        { running := Link.Running.connect hfresh hchain false (.inl rfl)
          target := rfl
          unnamed := rfl
          noReconnect := rfl
          noLoss := rfl }
      waitable := (Conn.waitable_new .address false).step howner rfl
      silent := rfl
      asked := by simp [new, Conn.after, Conn.new]
      subscribed := fun hsome => by cases hsome
      calling := fun hne => absurd rfl hne }

theorem Sound.steady {c : Client} (hc : c.Sound) : c.connection.link.disconnectStatus = 0 :=
  hc.waitable.steady

/-- Where a client subscribes and what it calls, after a callback of its connection. -/
theorem link_signalTimerChange {c : Client} {e : LinkEvent} :
    (c.link e).signalTimerChange = c.signalTimerChange ∨ (c.link e).signalTimerChange = none ∨
      e = .onBusGet true := by
  unfold link
  split
  · exact .inr (.inr rfl)
  · exact .inr (.inl rfl)
  · exact .inl rfl

theorem Sound.waitable_after {c : Client} {e : ClientEvent} (hc : c.Sound) (he : c.Enabled e) :
    (c.after e).connection.Waitable := by
  rw [after_connection]
  refine hc.waitable.step ?_ (Conn.step_eq_some.mpr ⟨connection_enabled he, rfl⟩)
  cases e with
  | link e =>
      obtain ⟨hother, hkept, -⟩ := Link.unasked_ne he.1
      exact ⟨fun h => hkept (Event.link.inj h), fun h => absurd h hother⟩
  | onSignal | doCallMethod | doCallReply =>
      exact ⟨by simp [ClientEvent.onConnection], fun h => by cases h⟩

theorem Sound.after_link {c : Client} {e : LinkEvent} (hc : c.Sound) (he : c.Enabled (.link e)) :
    (c.after (.link e)).Sound := by
  have hprogress := hc.link.progress he.1 he.2.1
  have hconn := after_connection c (.link e)
  refine ⟨?_, hc.waitable_after he, ?_, ?_, ?_, ?_⟩
  · rw [hconn]
    exact hc.link.after he.1 he.2.1
  · rw [hconn]
    exact hc.silent
  · rw [hconn]
    exact hc.asked
  · rw [hconn]
    intro hsome
    rcases link_signalTimerChange (c := c) (e := e) with hkept | hnone | rfl
    · exact hprogress.up (hc.subscribed (hkept ▸ hsome))
    · rw [Client.after, hnone] at hsome
      cases hsome
    · simp [ClientEvent.onConnection, Conn.after, Link.after, Link.onBusGet, hc.link.unnamed]
  · rw [hconn]
    exact fun hne => hprogress.up (hc.calling hne)

/-- `do_call_method` takes calls from the queue, and a client sends its calls from there only. -/
theorem Sound.after_doCallMethod {c : Client} (hc : c.Sound) (he : c.Enabled .doCallMethod) :
    (c.after .doCallMethod).Sound := by
  have hsteady : ¬ 0 < c.connection.link.disconnectStatus := by
    have := hc.steady
    omega
  obtain ⟨hfree, hsubset⟩ : (c.connection.mail.doCallMethod c.connection.link).hand = .free ∧
      (c.connection.mail.doCallMethod c.connection.link).methodCalls ⊆
        c.connection.mail.methodCalls := by
    unfold Mail.doCallMethod
    split_ifs
    · exact ⟨hc.silent, List.Subset.refl _⟩
    · exact ⟨hc.silent, List.nil_subset _⟩
  exact
    { hc with
      waitable := hc.waitable_after he
      silent := hfree
      asked := fun call hcall => hc.asked call (hsubset hcall)
      calling := fun hne => hc.calling fun hnil => by
        rw [hnil, List.subset_nil] at hsubset
        exact hne hsubset }

theorem Sound.after {c : Client} {e : ClientEvent} (hc : c.Sound) (he : c.Enabled e) :
    (c.after e).Sound := by
  cases e with
  | link e => exact hc.after_link he
  | onSignal =>
      obtain ⟨conn, hconn, -⟩ := id he
      refine
        { hc with
          waitable := hc.waitable_after he
          asked := fun call hcall => ?_
          calling := fun _ => hc.subscribed (Option.isSome_of_mem hconn) }
      rcases List.mem_append.mp hcall with hold | hnew
      · exact hc.asked call hold
      · rw [List.mem_singleton.mp hnew]
  | doCallMethod => exact hc.after_doCallMethod he
  | doCallReply call => exact { hc with waitable := hc.waitable_after he }

/-! ### Finished clients -/

/-- **The end of a client.** Once nothing is left, nothing comes again and no callback uses it. -/
theorem Finished.after {c : Client} {e : ClientEvent} (hc : c.Sound) (hdone : c.Finished)
    (he : c.Enabled e) : (c.after e).Finished ∧ ¬ callsBack e := by
  obtain ⟨hattempt, hsignal, hcall, hreply⟩ := hdone
  cases e with
  | onSignal =>
      obtain ⟨conn, hconn, hopen⟩ := he
      exact absurd (hsignal conn hconn) hopen
  | doCallReply call =>
      have hmem := he.1
      rw [hreply] at hmem
      cases hmem
  | doCallMethod =>
      refine ⟨⟨hattempt, hsignal, ?_, ?_⟩, by simp [callsBack]⟩
      · simp only [Client.after, Conn.after, Mail.after, Mail.doCallMethod]
        split_ifs <;> first | exact hcall | rfl
      · simp only [Client.after, Conn.after, Mail.after, Mail.doCallMethod, hcall]
        split_ifs <;> simp [hreply]
  | link e =>
      have hprogress := hc.link.progress he.1 he.2.1
      have hconn := after_connection c (.link e)
      have hfailed : e ≠ .onBusGet true := by
        rintro rfl
        exact hattempt (.inr (.inr he.2.1))
      have hquiet : ¬ callsBack (.link e) := by
        cases e with
        | onBusGet ok => cases ok <;> simp_all [callsBack]
        | onNameLost owner =>
            have howner := he.2.1
            simp [Link.Enabled, hc.link.owned_eq_nil] at howner
        | _ => simp [callsBack]
      refine ⟨⟨?_, ?_, ?_, ?_⟩, hquiet⟩
      · rw [hconn]
        exact fun hpending => hattempt (hprogress.attempt hpending)
      · rw [hconn]
        intro conn hmem
        rcases link_signalTimerChange (c := c) (e := e) with hkept | hnone | htrue
        · exact hprogress.closed (hsignal conn (hkept ▸ hmem))
        · rw [Client.after, hnone] at hmem
          cases hmem
        · exact absurd htrue hfailed
      · rw [hconn]
        exact hcall
      · rw [hconn]
        exact hreply

/-- The main loop can get to a callback that uses the address of the client. -/
def CanCall (c : Client) : Prop :=
  ∃ c' e, Machine.Leads step (fun _ => True) c c' ∧ c'.Enabled e ∧ callsBack e

theorem CanCall.of_enabled {c : Client} {e : ClientEvent} (he : c.Enabled e)
    (hcalls : callsBack e) :
    c.CanCall := ⟨c, e, Machine.Leads.refl c, he, hcalls⟩

theorem CanCall.of_step {c : Client} {e : ClientEvent} (he : c.Enabled e)
    (h : (c.after e).CanCall) : c.CanCall := by
  obtain ⟨c', e', hleads, he', hcalls⟩ := h
  exact ⟨c', e', hleads.head trivial (step_eq_some.mpr ⟨he, rfl⟩), he', hcalls⟩

theorem canCall_of_request {c : Client} (hrequest : 0 < c.connection.link.busGets)
    (hfree : c.connection.mail.hand = .free) : c.CanCall :=
  CanCall.of_enabled (e := .link (.onBusGet true)) ⟨rfl, hrequest, fun _ => hfree⟩ rfl

theorem canCall_of_replies {c : Client} (hreplies : c.connection.mail.replies ≠ [])
    (hfree : c.connection.mail.hand = .free) : c.CanCall := by
  obtain ⟨call, hcall⟩ := List.exists_mem_of_ne_nil _ hreplies
  exact CanCall.of_enabled (e := .doCallReply call) ⟨hcall, hfree⟩ rfl

/-- **The other way round.** What is left of a client that is not finished can lead to a
callback. -/
theorem Sound.canCall {c : Client} (hc : c.Sound) (hleft : ¬ c.Finished) : c.CanCall := by
  have hfree := hc.silent
  have haway := hc.waitable.away
  by_cases hattempt : c.connection.link.AttemptPending
  · rcases hattempt with ⟨hstatus, hsource, htarget⟩ | ⟨-, hreconnect, -⟩ | hrequest
    · apply CanCall.of_step (e := .link .doConnect) ⟨rfl, hsource, fun _ => hfree⟩
      refine canCall_of_request ?_ hfree
      rw [after_connection]
      simp [ClientEvent.onConnection, Conn.after, Link.after, Link.doConnect, Link.requestBus,
        hstatus, htarget]
    · rw [hc.link.noReconnect] at hreconnect
      cases hreconnect
    · exact canCall_of_request hrequest hfree
  by_cases hsignal : ∃ conn ∈ c.signalTimerChange, conn ∉ c.connection.link.closed
  · exact CanCall.of_enabled (e := .onSignal) hsignal rfl
  by_cases hreplies : c.connection.mail.replies = []
  · have hcalls : c.connection.mail.methodCalls ≠ [] := by
      intro hnil
      refine hleft ⟨hattempt, fun conn hconn => ?_, hnil, hreplies⟩
      by_contra hopen
      exact hsignal ⟨conn, hconn, hopen⟩
    have hsource := hc.waitable.served.call hcalls
    have hup := hc.calling hcalls
    have hsteady := hc.steady
    have hdo : c.Enabled .doCallMethod := ⟨by omega, by simp [haway], hfree⟩
    apply CanCall.of_step hdo
    refine canCall_of_replies ?_ (hc.after hdo).silent
    have hasked : c.connection.mail.methodCalls.filter (·.reply) = c.connection.mail.methodCalls :=
      List.filter_eq_self.mpr hc.asked
    rw [Client.after, Conn.after, Mail.after, Mail.doCallMethod, if_neg (by omega),
      if_neg (by omega), hasked]
    simp [hcalls]
  · exact canCall_of_replies hreplies hfree

end Client

/-! ### All clients -/

theorem forall_mem_modify {α : Type} {P : α → Prop} {l : List α} {i : Nat} {f : α → α}
    (hl : ∀ a ∈ l, P a) (hf : ∀ a ∈ l[i]?, P (f a)) : ∀ a ∈ l.modify i f, P a := by
  intro b hb
  obtain ⟨j, hj⟩ := List.mem_iff_getElem?.mp hb
  rw [List.getElem?_modify] at hj
  obtain ⟨a, ha, rfl⟩ := Option.map_eq_some_iff.mp hj
  by_cases hij : i = j
  · subst hij
    rw [if_pos rfl]
    exact hf a ha
  · rw [if_neg hij]
    exact hl a (List.mem_of_getElem? ha)

/-- Every client ever made, in the order they were made. Those not deleted are `_clients`. -/
abbrev ClientHeap := List Client

inductive HeapEvent where
  | new (data : NetworkClient)
  | callback (i : Nat) (e : ClientEvent)
  | removeClient (name : Option Bytes)
  | stopClients
  deriving DecidableEq, Repr

def HeapEvent.isCallback : HeapEvent → Bool
  | .callback _ _ => true
  | _ => false

namespace ClientHeap

def clients (s : ClientHeap) : List NetworkClient :=
  (s.filter fun c => !c.deleted).map (·.data)

/-- The destructor frees the strings of the client and nothing else. -/
def delete (c : Client) : Client :=
  { c with deleted := true }

def named (name : Option Bytes) (c : Client) : Bool :=
  !c.deleted && some c.data.name == name

def removeClient (s : ClientHeap) (name : Option Bytes) : ClientHeap :=
  s.modify (s.findIdx (named name)) delete

def stopClients (s : ClientHeap) : ClientHeap :=
  s.map delete

def Enabled (s : ClientHeap) : HeapEvent → Prop
  | .callback i e => ∃ c ∈ s[i]?, c.Enabled e
  | .new _ | .removeClient _ | .stopClients => True

instance decidableEnabled (s : ClientHeap) : DecidablePred s.Enabled
  | .callback i e => inferInstanceAs (Decidable (∃ c ∈ s[i]?, c.Enabled e))
  | .new _ | .removeClient _ | .stopClients => inferInstanceAs (Decidable True)

def after (s : ClientHeap) : HeapEvent → ClientHeap
  | .new data => s ++ [Client.new data]
  | .callback i e => s.modify i (·.after e)
  | .removeClient name => s.removeClient name
  | .stopClients => s.stopClients

def step : Machine.Step ClientHeap HeapEvent :=
  fun s e => if s.Enabled e then some (s.after e) else none

theorem step_eq_some {s s' : ClientHeap} {e : HeapEvent} :
    step s e = some s' ↔ s.Enabled e ∧ s.after e = s' := by
  unfold step
  split_ifs with henabled <;> simp [henabled]

/-- The callback that comes next uses the address of no deleted client. -/
def CallsAlive (s : ClientHeap) : HeapEvent → Prop
  | .callback i e => Client.callsBack e → ∀ c ∈ s[i]?, ¬ c.deleted
  | .new _ | .removeClient _ | .stopClients => True

/-- Whatever the main loop goes on to do, it calls no deleted client. -/
def Safe (s : ClientHeap) : Prop :=
  ∀ s', Machine.Leads step (fun e => e.isCallback) s s' →
    ∀ e, s'.Enabled e → s'.CallsAlive e

/-- A client is deleted only when it is finished. -/
def DeletesFinished (s : ClientHeap) : HeapEvent → Prop
  | .removeClient name => ∀ c ∈ s[s.findIdx (named name)]?, c.Finished
  | .stopClients => ∀ c ∈ s, ¬ c.deleted → c.Finished
  | .new _ | .callback _ _ => True

instance decidableCallsAlive (s : ClientHeap) : DecidablePred s.CallsAlive
  | .callback i e =>
  inferInstanceAs (Decidable (Client.callsBack e → ∀ c ∈ s[i]?, ¬ c.deleted))
  | .new _ | .removeClient _ | .stopClients => inferInstanceAs (Decidable True)

instance decidableDeletesFinished (s : ClientHeap) : DecidablePred s.DeletesFinished
  | .removeClient name =>
  inferInstanceAs (Decidable (∀ c ∈ s[s.findIdx (named name)]?, c.Finished))
  | .stopClients => inferInstanceAs (Decidable (∀ c ∈ s, ¬ c.deleted → c.Finished))
  | .new _ | .callback _ _ => inferInstanceAs (Decidable True)

theorem mem_modify_of_getElem? {s : ClientHeap} {i : Nat} {f : Client → Client} {c : Client}
    (hc : c ∈ s[i]?) : f c ∈ s.modify i f := by
  apply List.mem_of_getElem? (i := i)
  rw [List.getElem?_modify_eq, Option.mem_def.mp hc]
  rfl

/-! ### `_clients` -/

theorem clients_removeClient (s : ClientHeap) (name : Option Bytes) (t : NetworkClients)
    (ht : t.clients = s.clients) :
    (s.removeClient name).clients = (t.removeClient name).clients := by
  rw [NetworkClients.removeClient, ht]
  clear ht
  induction s with
  | nil => rfl
  | cons c s ih =>
      unfold removeClient at ih ⊢
      by_cases hnamed : named name c
      · have hlive : c.deleted = false ∧ some c.data.name = name := by simpa [named] using hnamed
        simp [clients, List.findIdx_cons, hnamed, delete, hlive]
      · have hnamed' : named name c = false := by simpa using hnamed
        rw [List.findIdx_cons, hnamed', cond_false, List.modify_succ_cons]
        by_cases hdeleted : c.deleted
        · simpa [clients, hdeleted] using ih
        · have hother : some c.data.name ≠ name := by simpa [named, hdeleted] using hnamed'
          simpa [clients, hdeleted, hother] using ih

/-! ### Steps of all clients -/

theorem sound_step {s s' : ClientHeap} {e : HeapEvent} (hs : ∀ c ∈ s, c.Sound)
    (hstep : step s e = some s') : ∀ c ∈ s', c.Sound := by
  obtain ⟨henabled, rfl⟩ := step_eq_some.mp hstep
  have hdelete : ∀ c ∈ s, (delete c).Sound := fun c hc =>
    have hc := hs c hc
    ⟨hc.link, hc.waitable, hc.silent, hc.asked, hc.subscribed, hc.calling⟩
  cases e with
  | new data =>
      intro c hc
      rcases List.mem_append.mp hc with hold | hnew
      · exact hs c hold
      · rw [List.mem_singleton.mp hnew]
        exact Client.sound_new data
  | callback i e =>
      obtain ⟨c, hc, he⟩ := henabled
      apply forall_mem_modify hs
      intro c' hc'
      obtain rfl : c = c' := Option.mem_unique hc hc'
      exact (hs c (List.mem_of_getElem? hc)).after he
  | removeClient name =>
      exact forall_mem_modify hs fun c hc => hdelete c (List.mem_of_getElem? hc)
  | stopClients => exact List.forall_mem_map.mpr hdelete

/-- A client that was deleted is finished. -/
def DeadFinished (s : ClientHeap) : Prop :=
  ∀ c ∈ s, c.deleted → c.Finished

theorem deadFinished_step_iff {s s' : ClientHeap} {e : HeapEvent} (hs : ∀ c ∈ s, c.Sound)
    (hdead : s.DeadFinished) (hstep : step s e = some s') :
    s'.DeadFinished ↔ s.DeletesFinished e := by
  obtain ⟨henabled, rfl⟩ := step_eq_some.mp hstep
  have hdelete : ∀ c : Client, (delete c).Finished ↔ c.Finished := fun c =>
    ⟨fun h => ⟨h.1, h.2, h.3, h.4⟩, fun h => ⟨h.1, h.2, h.3, h.4⟩⟩
  cases e with
  | new data =>
      refine iff_of_true ?_ trivial
      intro c hc hdeleted
      rcases List.mem_append.mp hc with hold | hnew
      · exact hdead c hold hdeleted
      · rw [List.mem_singleton.mp hnew] at hdeleted
        cases hdeleted
  | callback i e =>
      obtain ⟨c, hc, he⟩ := henabled
      refine iff_of_true (forall_mem_modify hdead ?_) trivial
      intro c' hc' hdeleted
      obtain rfl : c = c' := Option.mem_unique hc hc'
      have hmem := List.mem_of_getElem? hc
      rw [Client.after_deleted] at hdeleted
      exact ((hdead c hmem hdeleted).after (hs c hmem) he).1
  | removeClient name =>
      constructor
      · intro h c hc
        exact (hdelete c).mp (h _ (mem_modify_of_getElem? hc) rfl)
      · intro h
        exact forall_mem_modify hdead fun c hc _ => (hdelete c).mpr (h c hc)
  | stopClients =>
      constructor
      · intro h c hc _
        exact (hdelete c).mp (h _ (List.mem_map_of_mem hc) rfl)
      · intro h
        refine List.forall_mem_map.mpr fun c hc _ => ?_
        rw [hdelete]
        by_cases hdeleted : c.deleted
        · exact hdead c hc hdeleted
        · exact h c hc hdeleted

theorem leads_callbacks {i : Nat} {c c' : Client}
    (hleads : Machine.Leads Client.step (fun _ => True) c c') {s : ClientHeap}
    (hc : s[i]? = some c) :
    ∃ s', Machine.Leads step (fun e => e.isCallback) s s' ∧ s'[i]? = some c' := by
  obtain ⟨es, -, hrun⟩ := hleads
  induction es generalizing c s with
  | nil =>
      rw [Machine.run_nil, Option.some.injEq] at hrun
      exact ⟨s, Machine.Leads.refl s, hrun ▸ hc⟩
  | cons e es ih =>
      obtain ⟨mid, hstep, hrest⟩ := Machine.run_cons_eq_some.mp hrun
      obtain ⟨he, rfl⟩ := Client.step_eq_some.mp hstep
      have hmid : (s.after (.callback i e))[i]? = some (c.after e) := by
        rw [after, List.getElem?_modify_eq, hc]
        rfl
      obtain ⟨s', hleads, hc'⟩ := ih hmid hrest
      have hfirst : step s (.callback i e) = some (s.after (.callback i e)) :=
        step_eq_some.mpr ⟨⟨c, hc, he⟩, rfl⟩
      exact ⟨s', hleads.head rfl hfirst, hc'⟩

/-- **Safety.** It is safe to go on exactly if every deleted client is finished. -/
theorem safe_iff {s : ClientHeap} (hs : ∀ c ∈ s, c.Sound) : s.Safe ↔ s.DeadFinished := by
  constructor
  · intro hsafe c hc hdeleted
    by_contra hleft
    obtain ⟨c', e, hleads, he, hcalls⟩ := (hs c hc).canCall hleft
    have hdeleted' : c'.deleted := by
      refine hleads.keeps (I := fun t => t.deleted) (fun t e t' ht _ hstep => ?_) hdeleted
      obtain ⟨-, rfl⟩ := Client.step_eq_some.mp hstep
      rw [Client.after_deleted]
      exact ht
    obtain ⟨i, hi⟩ := List.mem_iff_getElem?.mp hc
    obtain ⟨s', hleads', hi'⟩ := leads_callbacks hleads hi
    exact hsafe s' hleads' (.callback i e) ⟨c', hi', he⟩ hcalls c' hi' hdeleted'
  · intro hdead s' hleads e he
    obtain ⟨hs', hdead'⟩ : (∀ c ∈ s', c.Sound) ∧ s'.DeadFinished := by
      refine hleads.keeps (I := fun t => (∀ c ∈ t, c.Sound) ∧ t.DeadFinished)
        (fun t e t' ht hcallback hstep => ⟨sound_step ht.1 hstep, ?_⟩) ⟨hs, hdead⟩
      rw [deadFinished_step_iff ht.1 ht.2 hstep]
      cases e with
      | callback => trivial
      | _ => cases hcallback
    cases e with
    | new | removeClient | stopClients => trivial
    | callback i e =>
        intro hcalls c hc hdeleted
        obtain ⟨c', hc', he⟩ := he
        obtain rfl : c = c' := Option.mem_unique hc hc'
        have hmem := List.mem_of_getElem? hc
        exact ((hdead' c hmem hdeleted).after (hs' c hmem) he).2 hcalls

/-- **Callbacks of deleted clients.** When clients are deleted only once they are finished, no
callback is called for a deleted client. Only then is it safe at all times to go on: a client that
is deleted before can still be called. -/
theorem callbacks_alive {es : List HeapEvent} {s : ClientHeap}
    (hrun : Machine.run step [] es = some s) :
    (Machine.Along step DeletesFinished [] es → Machine.Along step CallsAlive [] es) ∧
      (Machine.Throughout step Safe [] es ↔ Machine.Along step DeletesFinished [] es) := by
  have hnil : ∀ c ∈ ([] : ClientHeap), c.Sound := List.forall_mem_nil _
  have hexact : Machine.Throughout step Safe [] es ↔
      Machine.Along step DeletesFinished [] es := by
    refine Machine.throughout_iff_along (I := fun t => ∀ c ∈ t, c.Sound)
      (fun t e t' => sound_step) (fun t e t' ht hsafe hstep => ?_) hrun hnil
      ((safe_iff hnil).mpr (List.forall_mem_nil _))
    rw [safe_iff (sound_step ht hstep)]
    exact deadFinished_step_iff ht ((safe_iff ht).mp hsafe) hstep
  refine ⟨fun halong => ?_, hexact⟩
  refine (hexact.mpr halong).along (fun t e t' hsafe hstep => ?_) hrun
  exact hsafe t (Machine.Leads.refl t) e (step_eq_some.mp hstep).1

def livingRoom : NetworkClient :=
  { name := ascii "living room", host := ascii "vdr.local", address := ascii "192.168.0.7",
    port := 7413, busname := ascii "de.tvdr.vdr" }

/-- The client is removed when its call has been answered and its bus is gone. -/
theorem callbacks_of_finished_client :
    Machine.Along step CallsAlive []
      [.new livingRoom, .callback 0 (.link .doConnect), .callback 0 (.link (.onBusGet true)),
        .callback 0 .onSignal, .callback 0 .doCallMethod, .callback 0 (.doCallReply 0),
        .callback 0 (.link (.busClosed 0)), .removeClient (some (ascii "living room")),
        .callback 0 (.link .doReconnect)] :=
  (callbacks_alive rfl).1 (by decide)

/-- The connection of a removed client goes on to connect, and calls `OnConnect`. -/
theorem connect_of_removed_client :
    ¬ ∀ (es : List HeapEvent) (s : ClientHeap), Machine.run step [] es = some s →
      Machine.Along step CallsAlive [] es := by
  intro hall
  have halive := hall [.new livingRoom, .removeClient (some (ascii "living room")),
    .callback 0 (.link .doConnect), .callback 0 (.link (.onBusGet true))] _ rfl
  exact absurd halive (by decide)

end ClientHeap

end Dbus2vdr

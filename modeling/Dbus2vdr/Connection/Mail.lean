import Dbus2vdr.Connection.Link

/-!
# The send queues of a `cDBusConnection` and its worker threads

`EmitSignal` and `CallMethod` only queue. `do_emit_signal` takes the whole `_signals` queue at once,
wakes `Flush`, and then hands the batch to a pool of at most ten threads, where `do_work` passes its
signals to GDBus one by one; when no pool can be made, it calls `do_work` itself. `do_call_method`
calls the methods itself. All of this reads the state of the bus connection and none of it changes
that, so a step of `Mail` takes the `Link` it runs under, and `Conn` puts the two together.

Signals and calls are known by their number in the order of the calls of `EmitSignal` and
`CallMethod`, which `_flush_mutex` makes a total order.
-/

namespace Dbus2vdr

/-- A call of `g_dbus_connection_emit_signal`: what `_connection` was when the worker read it, and
whether it was open. -/
structure Emission where
  signal : Nat
  handle : Option Nat
  isOpen : Bool
  deriving DecidableEq, Repr

structure MethodCall where
  number : Nat
  reply : Bool
  deriving DecidableEq, Repr

/-- A thread inside `Flush`: how much had been queued when it called. -/
structure FlushCall where
  signals : Nat
  calls : Nat
  deriving DecidableEq, Repr

/-- What `do_emit_signal` has in hand between the unlocking of `_flush_mutex` and its return: the
batch it is going to push, or what is left of it when it has called `do_work` instead. -/
inductive Hand where
  | free
  | taken (batch : List Nat)
  | working (batch : List Nat)
  deriving DecidableEq, Repr

def Hand.isTaken : Hand → Bool
  | .taken _ => true
  | _ => false

def Hand.signal? : Hand → Option Nat
  | .working batch => batch.head?
  | _ => none

structure Mail where
  /-- The calls of `EmitSignal` that have returned; the next signal's number. -/
  accepted : Nat := 0
  posted : Nat := 0
  signals : List Nat := []
  methodCalls : List MethodCall := []
  doEmitSignalSources : Nat := 0
  doCallMethodSources : Nat := 0
  hand : Hand := .free
  hasPool : Bool := false
  pool : List (List Nat) := []
  /-- What is left of the batches the threads are at work on. -/
  workers : List (List Nat) := []
  emitted : List Emission := []
  called : List Nat := []
  /-- The calls whose `do_call_reply` has not run yet. -/
  replies : List Nat := []
  flushCalls : List FlushCall := []
  deriving DecidableEq, Repr

inductive MailEvent where
  -- any thread
  | emitSignal
  | callMethod (reply : Bool)
  | flushCall
  | flushReturn (i : Nat)
  -- the main loop; `poolOk` stands for a pool that another connection has made or that
  -- `g_thread_pool_new` makes now
  | doEmitSignal
  | handOver (poolOk : Bool)
  | directEmit
  | directFinish
  | doCallMethod
  | doCallReply (call : Nat)
  -- the threads of the pool
  | workerStart
  | workerEmit (i : Nat)
  | workerFinish (i : Nat)
  deriving DecidableEq, Repr

def maxThreads : Nat := 10

/-- `_connection` is a `GDBusConnection` nobody has closed. -/
def Link.handleOpen (l : Link) : Bool :=
  l.connection.any fun conn => decide (conn ∉ l.closed)

namespace Mail

def emission (l : Link) (signal : Nat) : Emission :=
  { signal, handle := l.connection, isOpen := l.handleOpen }

def emitSignal (m : Mail) : Mail :=
  { m with
    accepted := m.accepted + 1
    signals := m.signals ++ [m.accepted]
    doEmitSignalSources := m.doEmitSignalSources + if m.signals.length = 0 then 1 else 0 }

def callMethod (m : Mail) (reply : Bool) : Mail :=
  { m with
    posted := m.posted + 1
    methodCalls := m.methodCalls ++ [⟨m.posted, reply⟩]
    doCallMethodSources := m.doCallMethodSources + if m.methodCalls.length = 0 then 1 else 0 }

/-- `Flush` goes on to wait unless `_connect_status` is 0, when it returns `false`. -/
def flushCall (l : Link) (m : Mail) : Mail :=
  if l.connectStatus = 0 then m
  else { m with flushCalls := m.flushCalls ++ [⟨m.accepted, m.posted⟩] }

def flushReturn (m : Mail) (i : Nat) : Mail :=
  { m with flushCalls := m.flushCalls.eraseIdx i }

/-- `do_emit_signal` up to the unlocking of `_flush_mutex`. -/
def doEmitSignal (l : Link) (m : Mail) : Mail :=
  if 0 < l.disconnectStatus then
    { m with doEmitSignalSources := m.doEmitSignalSources - 1 }
  else if l.connectStatus < 3 then m
  else if m.signals = [] then
    { m with doEmitSignalSources := m.doEmitSignalSources - 1 }
  else
    { m with
      doEmitSignalSources := m.doEmitSignalSources - 1
      signals := []
      hand := .taken m.signals }

/-- The rest of `do_emit_signal`: the pool is made when there is none, and gets the batch; should
that fail, `do_work` is called right here. -/
def handOver (m : Mail) (poolOk : Bool) : Mail :=
  match m.hand with
  | .taken batch =>
      if m.hasPool || poolOk then
        { m with hasPool := true, pool := m.pool ++ [batch], hand := .free }
      else { m with hand := .working batch }
  | _ => m

def directEmit (l : Link) (m : Mail) : Mail :=
  match m.hand with
  | .working (signal :: rest) =>
      { m with hand := .working rest, emitted := m.emitted ++ [emission l signal] }
  | _ => m

def directFinish (m : Mail) : Mail :=
  { m with hand := .free }

def doCallMethod (l : Link) (m : Mail) : Mail :=
  if 0 < l.disconnectStatus then
    { m with doCallMethodSources := m.doCallMethodSources - 1 }
  else if l.connectStatus < 3 then m
  else
    { m with
      doCallMethodSources := m.doCallMethodSources - 1
      methodCalls := []
      called := m.called ++ m.methodCalls.map (·.number)
      replies := m.replies ++ (m.methodCalls.filter (·.reply)).map (·.number) }

def doCallReply (m : Mail) (call : Nat) : Mail :=
  { m with replies := m.replies.erase call }

def workerStart (m : Mail) : Mail :=
  { m with pool := m.pool.tail, workers := m.workers ++ m.pool.head?.toList }

def workerEmit (l : Link) (m : Mail) (i : Nat) : Mail :=
  match m.workers[i]? with
  | some (signal :: rest) =>
      { m with
        workers := m.workers.set i rest
        emitted := m.emitted ++ [emission l signal] }
  | _ => m

def workerFinish (m : Mail) (i : Nat) : Mail :=
  { m with workers := m.workers.eraseIdx i }

/-- When an event can happen. The two handlers lock `_disconnect_mutex`, and no callback runs while
`do_emit_signal` has a batch in hand; `Flush` returns when it finds both queues empty. -/
def Enabled (l : Link) (m : Mail) : MailEvent → Prop
  | .emitSignal | .callMethod _ | .flushCall => True
  | .flushReturn i => i < m.flushCalls.length ∧ m.signals = [] ∧ m.methodCalls = []
  | .doEmitSignal => 0 < m.doEmitSignalSources ∧ l.caller ≠ .holding ∧ m.hand = .free
  | .handOver _ => m.hand.isTaken
  | .directEmit => m.hand.signal?.isSome
  | .directFinish => m.hand = .working []
  | .doCallMethod => 0 < m.doCallMethodSources ∧ l.caller ≠ .holding ∧ m.hand = .free
  | .doCallReply call => call ∈ m.replies ∧ m.hand = .free
  | .workerStart => m.pool ≠ [] ∧ m.workers.length < maxThreads
  | .workerEmit i => ∃ batch ∈ m.workers[i]?, batch ≠ []
  | .workerFinish i => [] ∈ m.workers[i]?

instance decidableEnabled (l : Link) (m : Mail) : DecidablePred (m.Enabled l)
  | .emitSignal | .callMethod _ | .flushCall => inferInstanceAs (Decidable True)
  | .flushReturn i => inferInstanceAs
      (Decidable (i < m.flushCalls.length ∧ m.signals = [] ∧ m.methodCalls = []))
  | .doEmitSignal => inferInstanceAs
      (Decidable (0 < m.doEmitSignalSources ∧ l.caller ≠ .holding ∧ m.hand = .free))
  | .handOver _ => inferInstanceAs (Decidable (m.hand.isTaken = true))
  | .directEmit => inferInstanceAs (Decidable (m.hand.signal?.isSome = true))
  | .directFinish => inferInstanceAs (Decidable (m.hand = .working []))
  | .doCallMethod => inferInstanceAs
      (Decidable (0 < m.doCallMethodSources ∧ l.caller ≠ .holding ∧ m.hand = .free))
  | .doCallReply call => inferInstanceAs (Decidable (call ∈ m.replies ∧ m.hand = .free))
  | .workerStart => inferInstanceAs (Decidable (m.pool ≠ [] ∧ m.workers.length < maxThreads))
  | .workerEmit i => inferInstanceAs (Decidable (∃ batch ∈ m.workers[i]?, batch ≠ []))
  | .workerFinish i => inferInstanceAs (Decidable ([] ∈ m.workers[i]?))

def after (l : Link) (m : Mail) : MailEvent → Mail
  | .emitSignal => m.emitSignal
  | .callMethod reply => m.callMethod reply
  | .flushCall => m.flushCall l
  | .flushReturn i => m.flushReturn i
  | .doEmitSignal => m.doEmitSignal l
  | .handOver poolOk => m.handOver poolOk
  | .directEmit => m.directEmit l
  | .directFinish => m.directFinish
  | .doCallMethod => m.doCallMethod l
  | .doCallReply call => m.doCallReply call
  | .workerStart => m.workerStart
  | .workerEmit i => m.workerEmit l i
  | .workerFinish i => m.workerFinish i

end Mail

structure Conn where
  link : Link
  mail : Mail := {}
  deriving DecidableEq, Repr

inductive Event where
  | link (e : LinkEvent)
  | mail (e : MailEvent)
  deriving DecidableEq, Repr

namespace Conn

def new (target : BusTarget) (named : Bool) : Conn :=
  { link := Link.new target named }

/-- While the main loop is inside of `do_emit_signal`, it dispatches nothing. -/
def Enabled (c : Conn) : Event → Prop
  | .link e => c.link.Enabled e ∧ (e.dispatched → c.mail.hand = .free)
  | .mail e => c.mail.Enabled c.link e

instance decidableEnabled (c : Conn) : DecidablePred c.Enabled
  | .link e => inferInstanceAs
      (Decidable (c.link.Enabled e ∧ (e.dispatched → c.mail.hand = .free)))
  | .mail e => Mail.decidableEnabled c.link c.mail e

def after (c : Conn) : Event → Conn
  | .link e => { c with link := c.link.after e }
  | .mail e => { c with mail := c.mail.after c.link e }

def step : Machine.Step Conn Event :=
  fun c e => if c.Enabled e then some (c.after e) else none

theorem step_eq_some {c c' : Conn} {e : Event} :
    step c e = some c' ↔ c.Enabled e ∧ c.after e = c' := by
  unfold step
  split_ifs with henabled <;> simp [henabled]

def bringUp : List Event :=
  [.link (.connect true), .link .doConnect, .link (.onBusGet true)]

theorem link_invariant {I : Link → Prop}
    (hkeep : ∀ (l : Link) (e : LinkEvent), I l → l.Enabled e → I (l.after e))
    {c c' : Conn} {e : Event} (hI : I c.link) (hstep : step c e = some c') : I c'.link := by
  obtain ⟨henabled, rfl⟩ := step_eq_some.mp hstep
  cases e with
  | link e => exact hkeep c.link e hI henabled.1
  | mail e => exact hI

theorem mail_invariant {I : Mail → Prop}
    (hkeep : ∀ (l : Link) (m : Mail) (e : MailEvent), I m → m.Enabled l e → I (m.after l e))
    {c c' : Conn} {e : Event} (hI : I c.mail) (hstep : step c e = some c') : I c'.mail := by
  obtain ⟨henabled, rfl⟩ := step_eq_some.mp hstep
  cases e with
  | link e => exact hI
  | mail e => exact hkeep c.link c.mail e hI henabled

end Conn

end Dbus2vdr

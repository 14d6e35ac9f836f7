import Dbus2vdr.Lib.Machine

/-!
# How a `cDBusConnection` comes up and goes down

`_connection`, `_connect_status`, `_disconnect_status` and whatever carries the connection's pointer
through the main loop: the sources attached to its context and the GDBus calls whose callback has
not run yet. Every callback of `connection.c` is one event, because they all run in the thread of
the main loop. `Disconnect` is several events: it runs in the thread of the connection's owner, and
the main loop goes on between its reads of `_connect_status`.

The send queues are `Connection.Mail`: nothing here reads them.
-/

namespace Dbus2vdr

/-- What the constructor got to find the bus with: a bus type, an address, or an address that is
`NULL`. -/
inductive BusTarget where
  | type
  | address
  | nowhere
  deriving DecidableEq, Repr

/-- Where the owner's thread is: outside of `Disconnect`, or at which point inside of it. -/
inductive Caller where
  /-- Not in `Disconnect`, which has not returned since the last `Connect` either. -/
  | away
  /-- `_connect_status` was not 0, so `Disconnect` goes on. -/
  | entered
  /-- `_disconnect_mutex` is held, no source is attached yet. -/
  | holding
  /-- In `g_cond_wait`, or about to test `_disconnect_status` again. -/
  | waiting
  /-- `Disconnect` has returned and `Connect` was not called since. -/
  | returned
  deriving DecidableEq, Repr

/-- A `cDBusWatcher`: `watchId` is the `GDBusConnection` on which `_watch_id` was obtained. -/
structure Watcher where
  id : Nat
  watchId : Option Nat
  deriving DecidableEq, Repr

structure Link where
  target : BusTarget
  /-- `_busname != NULL` -/
  named : Bool
  /-- The `GDBusConnection`s handed out so far are numbered below `made`. -/
  made : Nat := 0
  /-- Those the bus or `g_dbus_connection_close` has closed. -/
  closed : List Nat := []
  connection : Option Nat := none
  /-- `_owner_id`, as the `GDBusConnection` on which the name was requested. -/
  ownerId : Option Nat := none
  /-- The name requests GDBus still has a handler for. -/
  owned : List Nat := []
  reconnect : Bool
  connectStatus : Nat := 0
  disconnectStatus : Nat := 0
  caller : Caller := .away
  /-- `_registration_ids` of each object, as the `GDBusConnection` they were obtained on. -/
  objects : List (Option Nat) := []
  watchers : List Watcher := []
  /-- Sources attached to `_context`, by their callback. -/
  doConnectSources : Nat := 0
  doReconnectSources : Nat := 0
  doFlushSources : Nat := 0
  doDisconnectSources : Nat := 0
  /-- GDBus calls under way, by the callback that ends them. -/
  busGets : Nat := 0
  nameLostCloses : Nat := 0
  flushes : Nat := 0
  disconnectCloses : Nat := 0
  deriving DecidableEq, Repr

inductive LinkEvent where
  -- the owner's thread
  | connect (autoReconnect : Bool)
  | disconnectEnter
  | disconnectMark
  | disconnectAttach
  | disconnectReturn
  -- callbacks in the main loop
  | doConnect
  | doReconnect
  | onBusGet (ok : Bool)
  | onNameLost (owner : Nat)
  | onNameLostClose
  | doFlush
  | onFlush
  | doDisconnect
  | onDisconnectClose
  -- the bus
  | busClosed (conn : Nat)
  -- other threads
  | addObject
  | addWatcher (id : Nat)
  | watch (id : Nat)
  | unwatch (id : Nat)
  deriving DecidableEq, Repr

def LinkEvent.dispatched : LinkEvent → Bool
  | .doConnect | .doReconnect | .onBusGet _ | .onNameLost _ | .onNameLostClose
  | .doFlush | .onFlush | .doDisconnect | .onDisconnectClose => true
  | _ => false

namespace Watcher

def watch (w : Watcher) (connection : Option Nat) : Watcher :=
  if w.watchId.isSome then w else { w with watchId := connection }

def unwatch (w : Watcher) : Watcher :=
  { w with watchId := none }

end Watcher

namespace Link

/-- The two constructors: the one with a bus type starts with `_reconnect = TRUE`. -/
def new (target : BusTarget) (named : Bool) : Link :=
  { target, named, reconnect := target == .type }

def addObject (s : Link) : Link :=
  { s with objects := s.objects ++ [none] }

def addWatcher (s : Link) (id : Nat) : Link :=
  { s with watchers := s.watchers ++ [⟨id, none⟩] }

def watch (s : Link) (id : Nat) : Link :=
  { s with watchers := s.watchers ++ [Watcher.watch ⟨id, none⟩ s.connection] }

def unwatch (s : Link) (id : Nat) : Link :=
  { s with watchers := s.watchers.eraseP fun w => w.id == id }

def registerObjects (s : Link) : Link :=
  { s with objects :=
      if s.connection.isSome then s.objects.map fun _ => s.connection else s.objects }

def unregisterObjects (s : Link) : Link :=
  { s with objects := if s.connection.isSome then s.objects.map fun _ => none else s.objects }

def registerWatchers (s : Link) : Link :=
  { s with watchers :=
      if s.connection.isSome then s.watchers.map (·.watch s.connection) else s.watchers }

def unregisterWatchers (s : Link) : Link :=
  { s with watchers := if s.connection.isSome then s.watchers.map Watcher.unwatch else s.watchers }

def ownName (s : Link) : Link :=
  { s with ownerId := s.connection, owned := s.owned ++ s.connection.toList }

def unownName (s : Link) : Link :=
  { s with ownerId := none, owned := s.ownerId.elim s.owned s.owned.erase }

def release (s : Link) : Link :=
  (if s.named then s.unregisterWatchers.unregisterObjects else s.unregisterWatchers).unownName

/-- `g_dbus_connection_close(_connection)`. GDBus refuses `NULL` and then calls nothing back. -/
def closeConnection (s : Link) : Link :=
  { s with closed := s.closed ++ s.connection.toList }

def connect (s : Link) (autoReconnect : Bool) : Link :=
  { s with
    reconnect := autoReconnect
    connectStatus := 0
    doConnectSources := s.doConnectSources + 1 }

def onNameLostClose (s : Link) : Link :=
  let s := { s with connection := none, connectStatus := if s.connectStatus = 4 then 0 else 1 }
  if s.reconnect then s.connect true else s

def onNameLost (s : Link) : Link :=
  let s := s.release
  if s.target = .address then
    if s.connection.isSome then
      { s.closeConnection with nameLostCloses := s.nameLostCloses + 1 }
    else s
  else s.onNameLostClose

def onBusGet (s : Link) (ok : Bool) : Link :=
  if ok then
    let s := { s with connection := some s.made, made := s.made + 1, connectStatus := 3 }
    if s.named then s.registerObjects.registerWatchers.ownName else s
  else
    { s with connection := none, connectStatus := 1 }

/-- Asks for the bus, `nowhere` being the branch that only logs "can't connect without address". -/
def requestBus (s : Link) : Link :=
  if s.target = .nowhere then s else { s with busGets := s.busGets + 1 }

/-- Takes the source that is being dispatched off when its callback returned `FALSE`. -/
def endReconnect (s : Link) : Link :=
  { s with doReconnectSources := s.doReconnectSources - 1 }

def doReconnect (s : Link) : Link :=
  if !s.reconnect then s.endReconnect
  else if s.connectStatus = 3 then { s with connectStatus := 4 }.endReconnect
  else if s.connectStatus = 1 then
    let s := { s with connectStatus := 2 }
    if s.target = .nowhere then s.endReconnect else s.requestBus
  else if s.connectStatus = 2 then s
  else s.endReconnect

def doConnect (s : Link) : Link :=
  if s.connectStatus = 0 then
    let s := { s with connectStatus := 2 }
    if s.target = .nowhere then s
    else { s.requestBus with doReconnectSources := s.doReconnectSources + 1 }
  else s

def onDisconnectClose (s : Link) : Link :=
  let s := if s.connection.isSome then { s with connection := none, connectStatus := 0 } else s
  { s with disconnectStatus := 2 }

def doDisconnect (s : Link) : Link :=
  let s := s.release
  if s.target = .address then
    if s.connection.isSome then
      { s.closeConnection with disconnectCloses := s.disconnectCloses + 1 }
    else s
  else s.onDisconnectClose

def doFlush (s : Link) : Link :=
  if s.connection.isSome then { s with flushes := s.flushes + 1 } else s

def onFlush (s : Link) : Link :=
  if s.disconnectStatus = 0 then s
  else { s with doDisconnectSources := s.doDisconnectSources + 1 }

def disconnectEnter (s : Link) : Link :=
  { s with caller := if s.connectStatus = 0 then .returned else .entered }

def disconnectMark (s : Link) : Link :=
  { s with reconnect := false, disconnectStatus := 1, caller := .holding }

def disconnectAttach (s : Link) : Link :=
  if 3 ≤ s.connectStatus then
    { s with doFlushSources := s.doFlushSources + 1, caller := .waiting }
  else
    { s with doDisconnectSources := s.doDisconnectSources + 1, caller := .waiting }

def disconnectReturn (s : Link) : Link :=
  { s with disconnectStatus := 0, caller := .returned }

/-- When an event can happen: `Connect` and `Disconnect` outside of `Disconnect`, a callback when
its source is attached or its GDBus call is under way, and none that locks `_disconnect_mutex` while
`Disconnect` holds it. -/
def Enabled (s : Link) : LinkEvent → Prop
  | .connect _ => s.caller = .away ∨ s.caller = .returned
  | .disconnectEnter => s.caller = .away ∨ s.caller = .returned
  | .disconnectMark => s.caller = .entered
  | .disconnectAttach => s.caller = .holding
  | .disconnectReturn => s.caller = .waiting ∧ 2 ≤ s.disconnectStatus
  | .doConnect => 0 < s.doConnectSources
  | .doReconnect => 0 < s.doReconnectSources
  | .onBusGet _ => 0 < s.busGets
  | .onNameLost owner => owner ∈ s.owned
  | .onNameLostClose => 0 < s.nameLostCloses
  | .doFlush => 0 < s.doFlushSources
  | .onFlush => 0 < s.flushes ∧ s.caller ≠ .holding
  | .doDisconnect => 0 < s.doDisconnectSources ∧ s.caller ≠ .holding
  | .onDisconnectClose => 0 < s.disconnectCloses ∧ s.caller ≠ .holding
  | .busClosed conn => conn < s.made ∧ conn ∉ s.closed
  | .addObject | .addWatcher _ | .watch _ | .unwatch _ => True

instance decidableEnabled (s : Link) : DecidablePred s.Enabled
  | .connect _ | .disconnectEnter =>
      inferInstanceAs (Decidable (s.caller = .away ∨ s.caller = .returned))
  | .disconnectMark => inferInstanceAs (Decidable (s.caller = .entered))
  | .disconnectAttach => inferInstanceAs (Decidable (s.caller = .holding))
  | .disconnectReturn =>
      inferInstanceAs (Decidable (s.caller = .waiting ∧ 2 ≤ s.disconnectStatus))
  | .doConnect => inferInstanceAs (Decidable (0 < s.doConnectSources))
  | .doReconnect => inferInstanceAs (Decidable (0 < s.doReconnectSources))
  | .onBusGet _ => inferInstanceAs (Decidable (0 < s.busGets))
  | .onNameLost owner => inferInstanceAs (Decidable (owner ∈ s.owned))
  | .onNameLostClose => inferInstanceAs (Decidable (0 < s.nameLostCloses))
  | .doFlush => inferInstanceAs (Decidable (0 < s.doFlushSources))
  | .onFlush => inferInstanceAs (Decidable (0 < s.flushes ∧ s.caller ≠ .holding))
  | .doDisconnect =>
      inferInstanceAs (Decidable (0 < s.doDisconnectSources ∧ s.caller ≠ .holding))
  | .onDisconnectClose =>
      inferInstanceAs (Decidable (0 < s.disconnectCloses ∧ s.caller ≠ .holding))
  | .busClosed conn => inferInstanceAs (Decidable (conn < s.made ∧ conn ∉ s.closed))
  | .addObject | .addWatcher _ | .watch _ | .unwatch _ => inferInstanceAs (Decidable True)

def after (s : Link) : LinkEvent → Link
  | .connect autoReconnect => { s.connect autoReconnect with caller := .away }
  | .disconnectEnter => s.disconnectEnter
  | .disconnectMark => s.disconnectMark
  | .disconnectAttach => s.disconnectAttach
  | .disconnectReturn => s.disconnectReturn
  | .doConnect => { s with doConnectSources := s.doConnectSources - 1 }.doConnect
  | .doReconnect => s.doReconnect
  | .onBusGet ok => { s with busGets := s.busGets - 1 }.onBusGet ok
  | .onNameLost _ => s.onNameLost
  | .onNameLostClose => { s with nameLostCloses := s.nameLostCloses - 1 }.onNameLostClose
  | .doFlush => { s with doFlushSources := s.doFlushSources - 1 }.doFlush
  | .onFlush => { s with flushes := s.flushes - 1 }.onFlush
  | .doDisconnect => { s with doDisconnectSources := s.doDisconnectSources - 1 }.doDisconnect
  | .onDisconnectClose => { s with disconnectCloses := s.disconnectCloses - 1 }.onDisconnectClose
  | .busClosed conn => { s with closed := s.closed ++ [conn] }
  | .addObject => s.addObject
  | .addWatcher id => s.addWatcher id
  | .watch id => s.watch id
  | .unwatch id => s.unwatch id

def step : Machine.Step Link LinkEvent :=
  fun s e => if s.Enabled e then some (s.after e) else none

theorem step_eq_some {s s' : Link} {e : LinkEvent} :
    step s e = some s' ↔ s.Enabled e ∧ s.after e = s' := by
  unfold step
  split_ifs with henabled <;> simp [henabled]

theorem release_eq (s : Link) : s.release =
    { s with
      watchers := s.unregisterWatchers.watchers
      objects := if s.named then s.unregisterObjects.objects else s.objects
      ownerId := none
      owned := s.unownName.owned } := by
  unfold release
  split_ifs <;> rfl

end Link

end Dbus2vdr

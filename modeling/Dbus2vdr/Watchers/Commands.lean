import Dbus2vdr.Avahi.Scanner
import Dbus2vdr.Avahi.Options
import Dbus2vdr.Lib.Machine
import Dbus2vdr.Watchers.Move

/-!
# `WatchBusname`, `UnwatchBusname` and the session bus

The SVDRP commands that make and delete watchers, and what makes and deletes the buses they are for.
A watcher is in the pending list of its bus while the plugin has no `cDBusConnection` for that bus,
and in `_watchers` of the connection otherwise. All lists are intrusive: there is one pair of links
for each watcher. Watchers are numbered in the order in which they are made, and so are connections.

What comes from outside is part of an event: whether `setenv` succeeds, and whether
`g_dbus_address_get_for_bus_sync` gives an address. `_watch_id` is left to `Watchers.Current`.
-/

namespace Dbus2vdr.Watchers

open Intrusive

inductive BusName where
  | system
  | session
  deriving DecidableEq, Repr

/-- A `cDBusConnection`, as far as the commands see it. -/
structure BusObject where
  number : Nat
  connectStatus : Nat := 0
  watchers : Base Nat := Base.empty

/-- `_system_watchers` and `_system_bus`, or those of the session bus. -/
structure BusState where
  pending : Base Nat := Base.empty
  object : Option BusObject := none

structure State where
  enableSystem : Bool
  enableSession : Bool
  /-- `dbus2vdr_DBusSessionBusAddress` -/
  sessionAddress : Option Bytes := none
  links : Links Nat := ⟨fun _ => none, fun _ => none⟩
  /-- `_connection` of a watcher -/
  connection : Nat → Option Nat := fun _ => none
  /-- The watchers made so far. -/
  made : Nat := 0
  /-- The connections made so far. -/
  objects : Nat := 0
  buses : BusName → BusState := fun _ => {}

/-- `_id = ++ids`, of a `guint`. -/
def watcherId (w : Nat) : Nat := (w + 1) % 2 ^ 32

/-- A `long` stored in a `guint` keeps its low 32 bits. -/
def longToGuint (n : Int) : Nat := (n % 2 ^ 32).toNat

def isempty (s : Option Bytes) : Bool := s.all fun s => skipspace s = []

/-- The options of a command, which may be `NULL`. -/
def optionList (option : Option Bytes) : List Bytes := option.elim [] Avahi.parse

def busOf (busname : Bytes) : Option BusName :=
  if busname = ascii "system" then some .system
  else if busname = ascii "session" then some .session
  else none

namespace State

def setBus (s : State) (name : BusName) (bus : BusState) : State :=
  { s with buses := Function.update s.buses name bus }

/-! ### The commands for watchers -/

/-- `_system_watchers.Add(watcher)`, or that of the session bus. -/
def addPending (s : State) (name : BusName) (w : Nat) : State :=
  let (links, pending) := add s.links (s.buses name).pending w
  { s.setBus name { s.buses name with pending } with links }

def addWatcher (s : State) (name : BusName) (object : BusObject) (w : Nat) : State :=
  let lists := Watchers.addWatcher object.number
    { links := s.links
      connection := s.connection
      watchers := object.watchers
      pending := (s.buses name).pending } w
  { s.setBus name
      { s.buses name with object := some { object with watchers := lists.watchers } } with
    links := lists.links
    connection := lists.connection }

/-- `cDBusConnection::Watch`. What it has more than `AddWatcher` is a `_watch_id`. -/
def watch (s : State) (name : BusName) (object : BusObject) (w : Nat) : State :=
  s.addWatcher name object w

def newWatcher (s : State) (name : BusName) : State × Int × Bytes :=
  let w := s.made
  let s := { s with made := s.made + 1 }
  let s := match (s.buses name).object with
    | none => s.addPending name w
    | some object =>
        if object.connectStatus < 3 then s.addWatcher name object w else s.watch name object w
  (s, 900, ascii "id=" ++ decimal (longToInt (watcherId w)))

def watchBusname (s : State) (option : Option Bytes) : State × Int × Bytes :=
  let options := optionList option
  if Avahi.get options (ascii "caller") 0 = none then (s, 501, ascii "error=missing caller")
  else if Avahi.get options (ascii "watch") 0 = none then (s, 501, ascii "error=missing watch")
  else
    match Avahi.get options (ascii "busname") 0 with
    | none => (s, 501, ascii "error=missing busname")
    | some busname =>
        match busOf busname with
        | some name => s.newWatcher name
        | none => (s, 501, ascii "error=unknown busname")

/-- The list of a base, from `First` by `Next`. -/
def list (s : State) (b : Base Nat) : List Nat := walk s.links.next s.made b.objects

/-- `cDBusConnection::Unwatch` -/
def unwatch (s : State) (name : BusName) (object : BusObject) (id : Nat) : State :=
  match (s.list object.watchers).find? fun w => watcherId w = id with
  | none => s
  | some w =>
      let (links, watchers) := del s.links object.watchers w
      { s.setBus name { s.buses name with object := some { object with watchers } } with links }

def unwatchBusname (s : State) (option : Option Bytes) : State × Int × Bytes :=
  let options := optionList option
  match Avahi.get options (ascii "id") 0 with
  | none => (s, 501, ascii "error=missing id")
  | some idStr =>
      if isnumber idStr then
        match Avahi.get options (ascii "busname") 0 with
        | none => (s, 501, ascii "error=missing busname")
        | some busname =>
            match (busOf busname).bind fun name => (s.buses name).object.map (name, ·) with
            | none => (s, 501, ascii "error=unknown busname")
            | some (name, object) =>
                let id := longToGuint (strtol idStr)
                (s.unwatch name object id, 900,
                  ascii "message=unwatch id " ++ decimal (longToInt id))
      else (s, 501, ascii "error=id is not a number")

/-! ### The buses -/

/-- A new connection gets the pending watchers and is told to connect. -/
def newBus (s : State) (name : BusName) : State :=
  let lists := addAllWatchers s.objects
    { links := s.links
      connection := s.connection
      watchers := Base.empty
      pending := (s.buses name).pending }
  { s.setBus name
      { pending := lists.pending
        object := some { number := s.objects, watchers := lists.watchers } } with
    links := lists.links
    connection := lists.connection
    objects := s.objects + 1 }

/-- Whether `StartSessionBus` gets as far as to make a bus, `known` being that there is an
address. -/
def sessionStarts (s : State) (known : Bool) : Bool :=
  (s.buses .session).object.isNone && s.enableSession && !isempty s.sessionAddress && known

def startSessionBus (s : State) (known : Bool) : State :=
  if s.sessionStarts known then s.newBus .session else s

/-- The watchers of the connection are deleted with it. -/
def stopSessionBus (s : State) : State :=
  s.setBus .session { s.buses .session with object := none }

/-- The first part of `Start`, the second one being `StartSessionBus`. -/
def startSystemBus (s : State) (known : Bool) : State :=
  if s.enableSystem && known then s.newBus .system else s

def setBusAddress (s : State) (option : Option Bytes) (envOk known : Bool) :
    State × Int × Bytes :=
  let name := ascii "DBUS_SESSION_BUS_ADDRESS"
  if option.getD [] ≠ [] then
    let value := option.getD []
    if envOk then
      ({ s with sessionAddress := some value }.stopSessionBus.startSessionBus known, 900,
        ascii "set " ++ name ++ ascii " to " ++ value)
    else (s, 550, ascii "can't set " ++ name ++ ascii " to " ++ value)
  else if envOk then
    ({ s with sessionAddress := some [] }.stopSessionBus, 900, ascii "unset " ++
      name ++ ascii " ok")
  else (s, 550, ascii "can't unset " ++ name)

/-- Of what is here, the callbacks of the main loop write `_connect_status`. -/
def setConnectStatus (s : State) (name : BusName) (status : Nat) : State :=
  s.setBus name
    { s.buses name with
      object := (s.buses name).object.map fun object => { object with connectStatus := status } }

end State

inductive Event where
  | watchBusname (option : Option Bytes)
  | unwatchBusname (option : Option Bytes)
  | setDBusSessionBusAddress (option : Option Bytes) (envOk known : Bool)
  | startSystemBus (known : Bool)
  | startSessionBus (known : Bool)
  /-- `do_connect`, `do_reconnect`, `on_bus_get`, `on_name_lost` or `on_name_lost_close`. -/
  | callback (name : BusName) (status : Nat)
  deriving DecidableEq, Repr

namespace State

/-- `Start` makes the system bus, and is called once. -/
def Enabled (s : State) : Event → Prop
  | .startSystemBus _ => (s.buses .system).object = none
  | _ => True

def after (s : State) : Event → State
  | .watchBusname option => (s.watchBusname option).1
  | .unwatchBusname option => (s.unwatchBusname option).1
  | .setDBusSessionBusAddress option envOk known => (s.setBusAddress option envOk known).1
  | .startSystemBus known => s.startSystemBus known
  | .startSessionBus known => s.startSessionBus known
  | .callback name status => s.setConnectStatus name status

instance decidableEnabled (s : State) : DecidablePred s.Enabled
  | .startSystemBus _ =>
      decidable_of_iff ((s.buses .system).object.isNone = true) Option.isNone_iff_eq_none
  | .watchBusname _ | .unwatchBusname _ | .setDBusSessionBusAddress .. | .startSessionBus _
  | .callback .. => isTrue trivial

def step : Machine.Step State Event :=
  fun s e => if s.Enabled e then some (s.after e) else none

theorem step_eq_some {s s' : State} {e : Event} :
    step s e = some s' ↔ s.Enabled e ∧ s.after e = s' := by
  unfold step
  split_ifs with henabled <;> simp [henabled]

end State

end Dbus2vdr.Watchers

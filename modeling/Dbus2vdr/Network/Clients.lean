import Dbus2vdr.Lib.Machine
import Dbus2vdr.Lib.Roster
import Dbus2vdr.Avahi.Options

/-!
# Network clients and what avahi says of them

`Service` makes a `cDBusNetworkClient` for each service that avahi has resolved, and deletes one
when its service is removed. Each of the two has its own filter. The one for removed services lacks
the parentheses around `local`: a notification without `local` passes whatever its protocol is. And
a client is made for every resolved service, also for one that has its client already.
`clients_follow_iff` says that nothing else makes the table differ from the notifications.
-/

namespace Dbus2vdr

open Avahi (get parse)
open Roster (Notice Follows)

structure NetworkClient where
  name : Bytes
  host : Bytes
  address : Bytes
  port : Int
  busname : Bytes
  deriving DecidableEq, Repr

structure NetworkClients where
  /-- `_network_bus != NULL` -/
  networkBus : Bool
  avahiBrowserId : Option Bytes
  clients : List NetworkClient := []
  deriving DecidableEq, Repr

namespace NetworkClients

/-- `cAvahiHelper options(Data)` -/
def options : Option Bytes → List Bytes
  | none => []
  | some data => parse data

def option (options : List Bytes) (name : String) : Option Bytes := get options (ascii name) 0

/-- `if (strncmp(txt, "busname=", 8) == 0) busname = txt + 8;` -/
def keepBusname (busname : Option Bytes) (txt : Bytes) : Option Bytes :=
  if startswith txt (ascii "busname=") then some (txt.drop 8) else busname

/-- Goes through the `txt` entries until one is missing. -/
def busnameLoop (options : List Bytes) : Nat → Int → Option Bytes → Option Bytes
  | 0, _, busname => busname
  | fuel + 1, txtNr, busname =>
      match get options (ascii "txt") txtNr with
      | none => busname
      | some txt => busnameLoop options fuel (txtNr + 1) (keepBusname busname txt)

def busname (options : List Bytes) : Option Bytes :=
  busnameLoop options (options.length + 1) 0 none

/-- `(local == NULL) || (strcasecmp(local, "true") != 0)` -/
def notLocal (options : List Bytes) : Bool :=
  (option options "local").all fun value => !strcaseeq value (ascii "true")

/-- `(protocol != NULL) && (strcasecmp(protocol, "ipv4") == 0)` -/
def isIpv4 (options : List Bytes) : Bool :=
  (option options "protocol").any fun value => strcaseeq value (ascii "ipv4")

/-- The client that `browser-service-resolved` makes. -/
def resolvedClient (options : List Bytes) : Option NetworkClient := do
  let name ← option options "name"
  let host ← option options "host"
  let address ← option options "address"
  let port ← option options "port"
  let busname ← busname options
  if notLocal options && isIpv4 options && isnumber port then
    some { name, host, address, port := longToInt (strtol port), busname }
  else none

def removeClient (s : NetworkClients) (name : Option Bytes) : NetworkClients :=
  { s with clients := s.clients.eraseP fun c => some c.name = name }

def resolved (s : NetworkClients) (options : List Bytes) : NetworkClients :=
  { s with clients := s.clients ++ (resolvedClient options).toList }

/-- In C, `a || b && c` is `a || (b && c)`: without `local`, nothing else is looked at. -/
def removed (s : NetworkClients) (options : List Bytes) : NetworkClients :=
  if (option options "local").isNone ||
      (notLocal options && (option options "name").isSome && isIpv4 options) then
    s.removeClient (option options "name")
  else s

def isOurs (s : NetworkClients) (options : List Bytes) : Bool :=
  (option options "event").isSome && s.networkBus && s.avahiBrowserId.isSome &&
    option options "id" == s.avahiBrowserId

/-- `Service`, by which other plugins call this one. -/
def service (s : NetworkClients) (id : Bytes) (data : Option Bytes) : NetworkClients × Bool :=
  if id = ascii "avahi4vdr-event" then
    let options := options data
    if s.isOurs options then
      if option options "event" = some (ascii "browser-service-resolved") then
        (s.resolved options, true)
      else if option options "event" = some (ascii "browser-service-removed") then
        (s.removed options, true)
      else (s, true)
    else (s, true)
  else (s, false)

/-! ### What the notifications mean -/

/-- A notification of an IPv4 service that is not our own, with the name it is about. -/
def subject (options : List Bytes) : Option Bytes :=
  if notLocal options && isIpv4 options then option options "name" else none

/-- What is needed to connect to the service. -/
def canConnect (options : List Bytes) : Bool :=
  (option options "host").isSome && (option options "address").isSome &&
    (option options "port").any isnumber && (busname options).isSome

/-- The notice that `data` is, when it is an accepted one. -/
def notice (s : NetworkClients) (data : Option Bytes) : Option (Notice Bytes) :=
  if s.isOurs (options data) then
    if option (options data) "event" = some (ascii "browser-service-resolved") then
      if canConnect (options data) then (subject (options data)).map .came else none
    else if option (options data) "event" = some (ascii "browser-service-removed") then
      (subject (options data)).map .gone
    else none
  else none

/-- A removed service of another protocol passes the filter when it comes without `local`. -/
def strays (s : NetworkClients) (options : List Bytes) : Bool :=
  s.isOurs options && option options "event" == some (ascii "browser-service-removed") &&
    (option options "local").isNone && !isIpv4 options

def names (s : NetworkClients) : List Bytes := s.clients.map (·.name)

/-- No service is resolved that has its client already, and no stray notification names a client. -/
def Regular (s : NetworkClients) (data : Option Bytes) : Prop :=
  (∀ name ∈ s.names, s.notice data ≠ some (.came name)) ∧
    (s.strays (options data) → ∀ name ∈ s.names, option (options data) "name" ≠ some name)

instance (s : NetworkClients) (data : Option Bytes) : Decidable (s.Regular data) :=
  have : DecidablePred fun name => s.notice data ≠ some (.came name) := fun _ => inferInstance
  inferInstanceAs (Decidable (_ ∧ _))

/-! ### One notification -/

theorem busnameLoop_eq (options : List Bytes) (fuel n : Nat) (busname : Option Bytes)
    (hfuel : (options.filterMap (Avahi.valueOf (ascii "txt"))).length < n + fuel) :
    busnameLoop options fuel n busname =
      ((options.filterMap (Avahi.valueOf (ascii "txt"))).drop n).foldl keepBusname busname := by
  induction fuel generalizing n busname with
  | zero => rw [busnameLoop, List.drop_of_length_le (by omega), List.foldl_nil]
  | succ fuel ih =>
      rw [busnameLoop, Avahi.get, if_neg (by decide), Avahi.getLoop_eq]
      by_cases hn : n < (options.filterMap (Avahi.valueOf (ascii "txt"))).length
      · rw [List.getElem?_eq_getElem hn, List.drop_eq_getElem_cons hn, List.foldl_cons]
        exact ih (n + 1) _ (by omega)
      · rw [List.getElem?_eq_none (by omega), List.drop_of_length_le (by omega), List.foldl_nil]

/-- The loop ends at the end of the `txt` entries. -/
theorem busname_eq (options : List Bytes) :
    busname options =
      (options.filterMap (Avahi.valueOf (ascii "txt"))).foldl keepBusname none := by
  have hlength := List.length_filterMap_le (Avahi.valueOf (ascii "txt")) options
  exact busnameLoop_eq options (options.length + 1) 0 none (by omega)

theorem resolvedClient_name (options : List Bytes) :
    (resolvedClient options).map (·.name) = if canConnect options then subject options
    else none := by
  unfold resolvedClient canConnect subject
  cases option options "name" <;> cases option options "host" <;>
    cases option options "address" <;> cases option options "port" <;> cases busname options <;>
    simp
  rename_i name host address port busname
  cases isnumber port <;> cases notLocal options <;> cases isIpv4 options <;> rfl

theorem removeClient_clients (s : NetworkClients) (name : Bytes) :
    (s.removeClient (some name)).clients = Roster.removeFirst (·.name) name s.clients := by
  simp [removeClient, Roster.removeFirst]

theorem removeClient_none (s : NetworkClients) : s.removeClient none = s := by
  rw [removeClient, List.eraseP_of_forall_not]
  simp

theorem resolved_cases (s : NetworkClients) (options : List Bytes) :
    (∃ client : NetworkClient, (if canConnect options then subject options else none) =
        some client.name ∧ s.resolved options = { s with clients := s.clients ++ [client] }) ∨
      ((if canConnect options then subject options else none) = none ∧
        s.resolved options = s) := by
  rw [← resolvedClient_name, resolved]
  cases resolvedClient options with
  | none => exact .inr ⟨rfl, by rw [Option.toList_none, List.append_nil]⟩
  | some client => exact .inl ⟨client, rfl, rfl⟩

/-- Without `local` the other conditions of the filter are not looked at. -/
theorem removed_cases (s : NetworkClients) (options : List Bytes) :
    (∃ name, subject options = some name ∧ s.removed options = s.removeClient (some name)) ∨
      (subject options = none ∧ ¬ ((option options "local").isNone && !isIpv4 options) ∧
        s.removed options = s) ∨
      (subject options = none ∧ ((option options "local").isNone && !isIpv4 options) ∧
        s.removed options = s.removeClient (option options "name")) := by
  unfold removed subject
  cases hlocal : option options "local" with
  | none =>
      have hnotLocal : notLocal options := by simp [notLocal, hlocal]
      cases isIpv4 options <;> cases option options "name" <;>
        simp [hnotLocal, removeClient_none]
  | some value =>
      cases notLocal options <;> cases isIpv4 options <;> cases option options "name" <;> simp

/-- **What a notification does**: it is the notice of a client that comes or of one that goes, it is
none and changes nothing, or it is a stray one. -/
theorem service_cases (s : NetworkClients) (data : Option Bytes) :
    (∃ client, s.notice data = some (.came client.name) ∧
      (s.service (ascii "avahi4vdr-event") data).1 =
        { s with clients := s.clients ++ [client] }) ∨
    (∃ name, s.notice data = some (.gone name) ∧
      (s.service (ascii "avahi4vdr-event") data).1 = s.removeClient (some name)) ∨
    (s.notice data = none ∧ ¬ s.strays (options data) ∧
      (s.service (ascii "avahi4vdr-event") data).1 = s) ∨
    (s.notice data = none ∧ s.strays (options data) ∧
      (s.service (ascii "avahi4vdr-event") data).1 =
        s.removeClient (option (options data) "name")) := by
  have hkinds : ascii "browser-service-resolved" ≠ ascii "browser-service-removed" := by decide
  unfold service notice strays
  by_cases hours : s.isOurs (options data)
  · by_cases hresolved : option (options data) "event" = some (ascii "browser-service-resolved")
    · rcases s.resolved_cases (options data)
        with ⟨client, hname, hclients⟩ | ⟨hnone, hsame⟩
      · refine .inl ⟨client, ?_, ?_⟩
        · split_ifs at hname with hconnect
          simp [hours, hresolved, hconnect, hname]
        · simp [hours, hresolved, hclients]
      · refine .inr (.inr (.inl ⟨?_, ?_, ?_⟩))
        · split_ifs at hnone with hconnect
          · simp [hours, hresolved, hconnect, hnone]
          · simp [hours, hresolved, hconnect]
        · simp [hresolved, hkinds]
        · simp [hours, hresolved, hsame]
    · by_cases hremoved : option (options data) "event" = some (ascii "browser-service-removed")
      · rcases s.removed_cases (options data) with ⟨name, hname, hclients⟩ |
          ⟨hnone, hlocal, hsame⟩ | ⟨hnone, hstray, hclients⟩
        · exact .inr (.inl ⟨name, by simp [hours, hremoved, hkinds.symm, hname],
            by simp [hours, hremoved, hkinds.symm, hclients]⟩)
        · refine .inr (.inr (.inl ⟨?_, ?_, ?_⟩))
          · simp [hours, hremoved, hkinds.symm, hnone]
          · simpa [hours, hremoved] using hlocal
          · simp [hours, hremoved, hkinds.symm, hsame]
        · refine .inr (.inr (.inr ⟨?_, ?_, ?_⟩))
          · simp [hours, hremoved, hkinds.symm, hnone]
          · simpa [hours, hremoved] using hstray
          · simp [hours, hremoved, hkinds.symm, hclients]
      · simp [hours, hresolved, hremoved]
  · simp [hours]

theorem notice_of_strays {s : NetworkClients} {data : Option Bytes}
    (hstray : s.strays (options data)) : s.notice data = none := by
  have hkinds : ascii "browser-service-removed" ≠ ascii "browser-service-resolved" := by decide
  simp only [strays, Bool.and_eq_true, beq_iff_eq, Bool.not_eq_true'] at hstray
  obtain ⟨⟨⟨hours, hremoved⟩, -⟩, hother⟩ := hstray
  simp [notice, subject, hours, hremoved, hkinds, hother]

end NetworkClients

/-- The table beside the notices of all accepted notifications, the newest one first. -/
structure WatchedClients where
  table : NetworkClients
  notices : List (Notice Bytes) := []

namespace WatchedClients

/-- One `avahi4vdr-event`. -/
def after (w : WatchedClients) (data : Option Bytes) : WatchedClients where
  table := (w.table.service (ascii "avahi4vdr-event") data).1
  notices := (w.table.notice data).toList ++ w.notices

def step : Machine.Step WatchedClients (Option Bytes) := fun w data => some (w.after data)

/-- Each name is in the table at most once, and is there exactly when the last accepted notification
about it was that of a resolved service. -/
def InStep (w : WatchedClients) : Prop :=
  Follows (·.name) w.table.clients w.notices

/-- A rejected notification changes nothing. -/
def RejectsQuietly (w : WatchedClients) (data : Option Bytes) : Prop :=
  w.table.notice data = none → (w.after data).table = w.table

theorem inStep_after_iff {w : WatchedClients} (hw : w.InStep) (data : Option Bytes) :
    (w.after data).InStep ↔ w.table.Regular data := by
  have hnotStray : ∀ n, w.table.notice data = some n →
    ¬ w.table.strays (NetworkClients.options data) :=
    fun n hnotice hstray => by simp [NetworkClients.notice_of_strays hstray] at hnotice
  unfold InStep NetworkClients.Regular
  rcases w.table.service_cases data
    with ⟨client, hnotice, hclients⟩ | ⟨name, hnotice, hclients⟩ |
    ⟨hnotice, hstray, hsame⟩ | ⟨hnotice, hstray, hclients⟩
  · simp only [after, hnotice, hclients, Option.toList_some, List.singleton_append]
    rw [Roster.Follows.came_iff hw]
    constructor
    · intro hfresh
      refine ⟨fun name hmem hsame => ?_, fun hstray => absurd hstray (hnotStray _ hnotice)⟩
      cases hsame
      exact hfresh hmem
    · intro hregular hmem
      exact hregular.1 client.name hmem rfl
  · simp only [after, hnotice, hclients, Option.toList_some, List.singleton_append,
      NetworkClients.removeClient_clients]
    refine iff_of_true (hw.gone name) ⟨fun _ _ hsame => (by cases hsame), fun hstray => ?_⟩
    exact absurd hstray (hnotStray _ hnotice)
  · simp only [after, hnotice, hsame, Option.toList_none, List.nil_append]
    exact iff_of_true hw ⟨fun _ _ hsame => (by cases hsame), fun h => absurd h hstray⟩
  · simp only [after, hnotice, hclients, Option.toList_none, List.nil_append]
    cases hname : NetworkClients.option (NetworkClients.options data) "name" with
    | none =>
        rw [NetworkClients.removeClient_none]
        exact iff_of_true hw ⟨fun _ _ hsame =>
          (by cases hsame), fun _ _ _ hsame => by cases hsame⟩
    | some name =>
        rw [NetworkClients.removeClient_clients, Roster.Follows.dropped_iff hw]
        constructor
        · intro hfresh
          refine ⟨fun _ _ hsame => (by cases hsame), fun _ other hmem hsame => ?_⟩
          cases hsame
          exact hfresh hmem
        · intro hregular hmem
          exact hregular.2 hstray name hmem rfl

theorem rejectsQuietly_of_regular {w : WatchedClients} {data : Option Bytes}
    (hregular : w.table.Regular data) : w.RejectsQuietly data := by
  intro hnone
  rcases w.table.service_cases data
    with ⟨client, hnotice, -⟩ | ⟨name, hnotice, -⟩ | ⟨-, -, hsame⟩ |
    ⟨-, hstray, hclients⟩
  · simp [hnone] at hnotice
  · simp [hnone] at hnotice
  · exact hsame
  · rw [after, hclients]
    cases hname : NetworkClients.option (NetworkClients.options data) "name" with
    | none => exact NetworkClients.removeClient_none _
    | some name =>
        have hfresh : name ∉ w.table.clients.map (·.name) := fun hmem =>
          hregular.2 hstray name hmem hname
        have hsame := Roster.removeFirst_of_notMem NetworkClient.name hfresh
        rw [← NetworkClients.removeClient_clients] at hsame
        exact congrArg (fun clients => { w.table with clients := clients }) hsame

/-- **Clients and notifications.** From an empty table on, over any sequence of notifications, each
name is in the table at most once and exactly when the last accepted notification about it was that
of a resolved service, and rejected ones change nothing, if and only if every notification is a
regular one. -/
theorem clients_follow_iff (networkBus : Bool) (browserId : Option Bytes)
    (es : List (Option Bytes)) :
    Machine.Throughout step InStep ⟨{ networkBus, avahiBrowserId := browserId }, []⟩ es ∧
        Machine.Along step RejectsQuietly
          ⟨{ networkBus, avahiBrowserId := browserId }, []⟩ es ↔
      Machine.Along step (fun w data => w.table.Regular data)
        ⟨{ networkBus, avahiBrowserId := browserId }, []⟩ es := by
  have hiff :
    Machine.Throughout step InStep ⟨{ networkBus, avahiBrowserId := browserId }, []⟩ es ↔
      Machine.Along step (fun w data => w.table.Regular data)
        ⟨{ networkBus, avahiBrowserId := browserId }, []⟩ es := by
    refine Machine.throughout_iff_along_of_total (fun w data => ⟨after w data, rfl⟩) ?_
      (Roster.follows_nil _)
    rintro w data w' hw hstep
    obtain rfl := Option.some.inj hstep
    exact inStep_after_iff hw data
  constructor
  · rintro ⟨hfollows, -⟩
    exact hiff.mp hfollows
  · intro hregular
    exact ⟨hiff.mpr hregular, hregular.imp fun w data => rejectsQuietly_of_regular⟩

/-- A service is resolved over IPv4, and afterwards its IPv6 address is removed. -/
theorem client_lost_with_ipv6 :
    ¬ ∀ (networkBus : Bool) (browserId : Option Bytes) (es : List (Option Bytes)),
      Machine.Throughout step InStep ⟨{ networkBus, avahiBrowserId := browserId }, []⟩ es := by
  intro hall
  have hthrough := hall true (some (ascii "7"))
    [some (ascii ("event=browser-service-resolved,id=7,name=v,host=h,protocol=ipv4,address=a," ++
      "port=1,txt=busname=b")),
      some (ascii "event=browser-service-removed,id=7,name=v,protocol=ipv6")]
  have hend : InStep _ := hthrough.last rfl
  exact absurd ((hend.mem_iff (ascii "v")).mpr (by decide +kernel)) (by decide +kernel)

end WatchedClients

end Dbus2vdr

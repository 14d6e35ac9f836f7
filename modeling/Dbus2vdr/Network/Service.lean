import Dbus2vdr.CString
import Dbus2vdr.Network.ClientLife

/-!
# The avahi service of the network bus

`cDBusNetwork` announces itself with avahi when its bus name is acquired and takes the service back
when the name is lost. `Disconnect` gives the name up itself, and GDBus reports no loss then: a
connection that is deleted while its name is its own leaves its service with avahi, and the next
`on_name_acquired` writes over its id.

`booked_iff` says when the books are kept: a connection is deleted only when its service has been
taken back, and none is announced for a connection that is deleted already.
-/

namespace Dbus2vdr

structure NetworkAddress where
  host : Bytes
  port : Int
  deriving DecidableEq, Repr

/-- What `CreateService` was called with, and for which connection. Its id is the place of the
service in the order of creation. -/
structure AvahiService where
  connection : Nat
  parameter : Bytes
  deriving DecidableEq, Repr

structure NetworkConnection where
  link : Link
  /-- The name requests that GDBus has reported as acquired. -/
  acquired : List Nat := []
  deriving DecidableEq, Repr

/-- The function that is inside of `delete _connection`. -/
inductive Deleting where
  | doConnect
  | doDisconnect
  | stop
  deriving DecidableEq, Repr

structure Network where
  busname : Bytes
  /-- `_avahi4vdr != NULL` -/
  avahi4vdr : Bool
  /-- `_monitor_loop != NULL` -/
  started : Bool := false
  /-- Sources attached to `_monitor_context`, by their callback. -/
  doConnectSources : Nat := 0
  doDisconnectSources : Nat := 0
  address : Option NetworkAddress := none
  avahiName : Bytes := []
  avahiId : Option Nat := none
  /-- Every connection ever made, and which of them is `_connection`. -/
  connections : List NetworkConnection := []
  connection : Option Nat := none
  deleting : Option Deleting := none
  services : List AvahiService := []
  /-- The ids `DeleteService` was called with. -/
  deletedServices : List Nat := []
  deriving DecidableEq, Repr

inductive NetworkEvent where
  | start (fileExists : Bool)
  | stop
  -- the file monitor
  | fileChanged
  | fileDeleted
  -- the monitor's loop; `file` is what `LoadFromFile` makes of the file, if there is one
  | doConnect (file : Option (Option NetworkAddress))
  | doDisconnect
  | connectionDeleted
  -- the main loop and the bus, for a connection that may have been deleted
  | connection (i : Nat) (e : LinkEvent)
  | nameAcquired (i : Nat) (owner : Nat)
  deriving DecidableEq, Repr

def LinkEvent.inDisconnect : LinkEvent → Bool
  | .disconnectEnter | .disconnectMark | .disconnectAttach | .disconnectReturn => true
  | _ => false

namespace Network

/-- `new cDBusConnection(_busname, ...)` with its four objects, and `Connect(FALSE)`. -/
def newConnection : NetworkConnection where
  link := (Link.new .address true).addObject.addObject.addObject.addObject.after (.connect false)

def start (s : Network) (fileExists : Bool) : Network :=
  { s with started := true, doConnectSources := if fileExists then 1 else 0 }

def connect (s : Network) : Network :=
  { s with
    connections := s.connections ++ [newConnection]
    connection := some s.connections.length
    deleting := none }

/-- `do_connect` up to the deletion of an old connection. -/
def doConnect (s : Network) : Option (Option NetworkAddress) → Network
  | none => s
  | some none => { s with address := none }
  | some (some address) =>
      let s := { s with
        address := some address
        avahiName := strescape (ascii "dbus2vdr on " ++ address.host) (ascii "\\,") }
      if s.connection.isSome then { s with deleting := some .doConnect } else s.connect

def doDisconnect (s : Network) : Network :=
  if s.connection.isSome then { s with deleting := some .doDisconnect }
  else { s with address := none }

/-- `Stop` up to the deletion of the connection. The sources are lost with `_monitor_loop`. -/
def stop (s : Network) : Network :=
  let s := { s with started := false, doConnectSources := 0, doDisconnectSources := 0 }
  if s.connection.isSome then { s with deleting := some .stop } else { s with address := none }

/-- What follows on `delete _connection`. -/
def connectionDeleted (s : Network) : Network :=
  match s.deleting with
  | some .doConnect => s.connect
  | some .doDisconnect | some .stop =>
      { s with connection := none, address := none, deleting := none }
  | none => s

def serviceParameter (s : Network) (address : NetworkAddress) : Bytes :=
  ascii "caller=dbus2vdr,name=" ++ s.avahiName ++ ascii ",type=_dbus._tcp,port=" ++
    decimal address.port ++ ascii ",subtype=_vdr_dbus2vdr._sub._dbus._tcp,txt=busname=" ++ s.busname

def onNameAcquired (s : Network) (i : Nat) : Network :=
  match s.address with
  | some address =>
      if s.avahi4vdr then
        { s with
          avahiId := some s.services.length
          services := s.services ++ [⟨i, s.serviceParameter address⟩] }
      else s
  | none => s

def onNameLost (s : Network) : Network :=
  match s.avahiId with
  | some id =>
      if s.avahi4vdr then
        { s with avahiId := none, deletedServices := s.deletedServices ++ [id] }
      else s
  | none => s

/-- A callback of a connection; `on_name_lost_close` ends with the call of `on_name_lost`. -/
def callback (s : Network) (i : Nat) (e : LinkEvent) : Network :=
  let s := { s with
    connections := s.connections.modify i fun c => { c with link := c.link.after e } }
  if e = .onNameLostClose then s.onNameLost else s

def nameAcquired (s : Network) (i owner : Nat) : Network :=
  { s with
    connections := s.connections.modify i fun c => { c with acquired := c.acquired ++ [owner] }
    }.onNameAcquired i

/-- `_monitor_loop` runs nothing while a connection is being deleted in it, and `Stop` waits for its
end. `Disconnect` is called on `_connection` by the destructor and by nobody else. -/
def Enabled (s : Network) : NetworkEvent → Prop
  | .start _ => ¬ s.started ∧ s.deleting = none
  | .stop => s.started ∧ s.deleting = none
  | .fileChanged | .fileDeleted => s.started
  | .doConnect _ => 0 < s.doConnectSources ∧ s.deleting = none
  | .doDisconnect => 0 < s.doDisconnectSources ∧ s.deleting = none
  | .connectionDeleted => s.deleting.isSome ∧
      ∃ i ∈ s.connection, ∃ c ∈ s.connections[i]?, c.link.caller = .returned
  | .connection i e => ∃ c ∈ s.connections[i]?, c.link.Enabled e ∧
      (e.unasked ∨ (e.inDisconnect ∧ s.deleting.isSome ∧ s.connection = some i ∧
        c.link.caller ≠ .returned))
  | .nameAcquired i owner => ∃ c ∈ s.connections[i]?, owner ∈ c.link.owned ∧
      owner ∉ c.acquired

instance decidableEnabled (s : Network) : DecidablePred s.Enabled
  | .start _ => inferInstanceAs (Decidable (¬ s.started ∧ s.deleting = none))
  | .stop => inferInstanceAs (Decidable (s.started ∧ s.deleting = none))
  | .fileChanged | .fileDeleted => inferInstanceAs (Decidable (s.started = true))
  | .doConnect _ => inferInstanceAs (Decidable (0 < s.doConnectSources ∧ s.deleting = none))
  | .doDisconnect => inferInstanceAs (Decidable (0 < s.doDisconnectSources ∧ s.deleting = none))
  | .connectionDeleted => inferInstanceAs (Decidable (s.deleting.isSome ∧
      ∃ i ∈ s.connection, ∃ c ∈ s.connections[i]?, c.link.caller = .returned))
  | .connection i e => inferInstanceAs (Decidable (∃ c ∈ s.connections[i]?, c.link.Enabled e ∧
      (e.unasked ∨ (e.inDisconnect ∧ s.deleting.isSome ∧ s.connection = some i ∧
        c.link.caller ≠ .returned))))
  | .nameAcquired i owner => inferInstanceAs
      (Decidable (∃ c ∈ s.connections[i]?, owner ∈ c.link.owned ∧ owner ∉ c.acquired))

def after (s : Network) : NetworkEvent → Network
  | .start fileExists => s.start fileExists
  | .stop => s.stop
  | .fileChanged => { s with doConnectSources := s.doConnectSources + 1 }
  | .fileDeleted => { s with doDisconnectSources := s.doDisconnectSources + 1 }
  | .doConnect file => { s with doConnectSources := s.doConnectSources - 1 }.doConnect file
  | .doDisconnect => { s with doDisconnectSources := s.doDisconnectSources - 1 }.doDisconnect
  | .connectionDeleted => s.connectionDeleted
  | .connection i e => s.callback i e
  | .nameAcquired i owner => s.nameAcquired i owner

def step : Machine.Step Network NetworkEvent :=
  fun s e => if s.Enabled e then some (s.after e) else none

theorem step_eq_some {s s' : Network} {e : NetworkEvent} :
    step s e = some s' ↔ s.Enabled e ∧ s.after e = s' := by
  unfold step
  split_ifs with henabled <;> simp [henabled]

end Network

/-! ### One bus for a connection -/

namespace Link

/-- After `Connect(FALSE)` a connection asks for its bus once. -/
structure OneBus (l : Link) : Prop where
  noReconnect : l.reconnect = false
  once : l.made + l.busGets + l.doConnectSources ≤ 1
  connection : ∀ conn ∈ l.connection, conn < l.made
  owned : ∀ owner ∈ l.owned, owner < l.made

theorem OneBus.release {l : Link} (hl : l.OneBus) : l.release.OneBus := by
  rw [release_eq]
  refine { hl with owned := fun owner howner => hl.owned owner ?_ }
  unfold unownName at howner
  cases hid : l.ownerId with
  | none => simpa [hid] using howner
  | some id => exact List.mem_of_mem_erase (by simpa [hid] using howner)

theorem OneBus.onNameLostClose {l : Link} (hl : l.OneBus) : l.onNameLostClose.OneBus := by
  rw [Link.onNameLostClose, if_neg (by simp [hl.noReconnect])]
  exact { hl with connection := fun conn hconn => absurd hconn (Option.not_mem_none conn) }

theorem OneBus.onDisconnectClose {l : Link} (hl : l.OneBus) : l.onDisconnectClose.OneBus := by
  unfold Link.onDisconnectClose
  split_ifs
  · exact { hl with connection := fun conn hconn => absurd hconn (Option.not_mem_none conn) }
  · exact { hl with }

theorem OneBus.after_doConnect {l : Link} (hl : l.OneBus) (he : l.Enabled .doConnect) :
    (l.after .doConnect).OneBus := by
  have honce := hl.once
  simp only [Enabled] at he
  simp only [Link.after, doConnect, requestBus]
  split_ifs
  all_goals exact { hl with once := by simp only; omega }

theorem OneBus.after_onBusGet {l : Link} {ok : Bool} (hl : l.OneBus)
    (he : l.Enabled (.onBusGet ok)) : (l.after (.onBusGet ok)).OneBus := by
  have honce := hl.once
  simp only [Enabled] at he
  have hgrown : ∀ owner ∈ l.owned, owner < l.made + 1 := fun owner howner =>
    Nat.lt_succ_of_lt (hl.owned owner howner)
  have hmade : ∀ conn ∈ some l.made, conn < l.made + 1 := fun conn hconn => by
    rw [← Option.mem_some.mp hconn]
    exact Nat.lt_succ_self _
  simp only [Link.after, onBusGet]
  split_ifs
  · exact
      { noReconnect := hl.noReconnect
        once := by simp only [registerObjects, registerWatchers, ownName]; omega
        connection := hmade
        owned := fun owner howner => by
          rcases List.mem_append.mp howner with hold | hnew
          · exact hgrown owner hold
          · exact hmade owner (Option.mem_toList.mp hnew) }
  · exact
      { noReconnect := hl.noReconnect
        once := by simp only; omega
        connection := hmade
        owned := hgrown }
  · exact
      { hl with
        once := by simp only; omega
        connection := fun conn hconn => absurd hconn (Option.not_mem_none conn) }

theorem OneBus.after {l : Link} {e : LinkEvent} (hl : l.OneBus) (he : l.Enabled e)
    (hother : ¬ e.isConnect) : (l.after e).OneBus := by
  cases e with
  | connect => exact absurd rfl hother
  | busClosed | addObject | addWatcher | watch | unwatch | disconnectEnter | disconnectReturn =>
      exact { hl with }
  | disconnectMark => exact { hl with noReconnect := rfl }
  | disconnectAttach =>
      simp only [Link.after, disconnectAttach]
      split_ifs <;> exact { hl with }
  | doFlush =>
      simp only [Link.after, doFlush]
      split_ifs <;> exact { hl with }
  | onFlush =>
      simp only [Link.after, onFlush]
      split_ifs <;> exact { hl with }
  | doConnect => exact hl.after_doConnect he
  | doReconnect =>
      rw [Link.after, doReconnect, if_pos (by simp [hl.noReconnect])]
      exact { hl with }
  | onBusGet ok => exact hl.after_onBusGet he
  | onNameLost owner =>
      simp only [Link.after, onNameLost]
      split_ifs
      · exact { hl.release with }
      · exact hl.release
      · exact hl.release.onNameLostClose
  | onNameLostClose =>
      have hdispatch : Link.OneBus { l with nameLostCloses := l.nameLostCloses - 1 } :=
        { hl with }
      exact hdispatch.onNameLostClose
  | doDisconnect =>
      have hdispatch : Link.OneBus { l with doDisconnectSources := l.doDisconnectSources - 1 } :=
        { hl with }
      simp only [Link.after, doDisconnect]
      split_ifs
      · exact { hdispatch.release with }
      · exact hdispatch.release
      · exact hdispatch.release.onDisconnectClose
  | onDisconnectClose =>
      have hdispatch : Link.OneBus { l with disconnectCloses := l.disconnectCloses - 1 } :=
        { hl with }
      exact hdispatch.onDisconnectClose

end Link

/-- The name is acquired on the first bus or never. -/
structure NetworkConnection.Sound (c : NetworkConnection) : Prop where
  oneBus : c.link.OneBus
  acquired : ∀ owner ∈ c.acquired, owner = 0

theorem NetworkConnection.Sound.owner_eq {c : NetworkConnection} {owner : Nat} (hc : c.Sound)
    (howned : owner ∈ c.link.owned) : owner = 0 := by
  have hlt := hc.oneBus.owned owner howned
  have honce := hc.oneBus.once
  omega

namespace Network

/-- The services that are there. -/
def existing (s : Network) : List Nat :=
  (List.range s.services.length).filter (· ∉ s.deletedServices)

@[simp]
theorem mem_existing {s : Network} {id : Nat} :
    id ∈ s.existing ↔ id < s.services.length ∧ id ∉ s.deletedServices := by
  simp [existing]

structure Sound (s : Network) : Prop where
  current : ∀ i ∈ s.connection, i < s.connections.length
  deleted : ∀ id ∈ s.deletedServices, id < s.services.length
  once : s.deletedServices.Nodup
  held : ∀ id ∈ s.avahiId, id ∈ s.existing
  connections : ∀ c ∈ s.connections, c.Sound
  services : ∀ service ∈ s.services, ∃ c ∈ s.connections[service.connection]?,
    c.acquired ≠ []

theorem sound_newConnection : newConnection.Sound :=
  ⟨⟨rfl, Nat.le_refl 1, nofun, nofun⟩, nofun⟩

theorem Sound.connect {s : Network} (hs : s.Sound) : s.connect.Sound := by
  refine ⟨?_, hs.deleted, hs.once, hs.held, ?_, ?_⟩
  · intro i hi
    rw [Option.mem_some.mp hi |>.symm]
    simp [Network.connect]
  · intro c hc
    rcases List.mem_append.mp hc with hold | hnew
    · exact hs.connections c hold
    · rw [List.mem_singleton.mp hnew]
      exact sound_newConnection
  · intro service hservice
    obtain ⟨c, hc, hacquired⟩ := hs.services service hservice
    refine ⟨c, ?_, hacquired⟩
    rw [Network.connect, List.getElem?_append_left (List.getElem?_eq_some_iff.mp hc).1]
    exact hc

theorem Sound.modify {s : Network} {i : Nat} {f : NetworkConnection → NetworkConnection}
    (hs : s.Sound) (hf : ∀ c ∈ s.connections[i]?, (f c).Sound)
    (hacquired : ∀ c, c.acquired ⊆ (f c).acquired) :
    Sound { s with connections := s.connections.modify i f } := by
  refine ⟨?_, hs.deleted, hs.once, hs.held, forall_mem_modify hs.connections hf, ?_⟩
  · rw [List.length_modify]
    exact hs.current
  · intro service hservice
    obtain ⟨c, hc, hsome⟩ := hs.services service hservice
    rw [List.getElem?_modify, Option.mem_def.mp hc]
    refine ⟨_, rfl, ?_⟩
    split_ifs
    · exact List.ne_nil_of_length_pos
        (List.length_pos_of_mem (hacquired c (List.head_mem hsome)))
    · exact hsome

theorem onNameLost_cases (s : Network) :
    s.onNameLost = s ∨ ∃ id, s.avahiId = some id ∧
      s.onNameLost =
        { s with avahiId := none, deletedServices := s.deletedServices ++ [id] } := by
  unfold onNameLost
  split
  · split_ifs
    · exact .inr ⟨_, ‹_›, rfl⟩
    · exact .inl rfl
  · exact .inl rfl

theorem onNameAcquired_cases (s : Network) (i : Nat) :
    (s.onNameAcquired i = s ∧ (s.address = none ∨ ¬ s.avahi4vdr)) ∨
      ∃ parameter, s.address.isSome ∧ s.avahi4vdr ∧
        s.onNameAcquired i =
          { s with
            avahiId := some s.services.length
            services := s.services ++ [⟨i, parameter⟩] } := by
  unfold onNameAcquired
  split
  · split_ifs with havahi
    · exact .inr ⟨_, by simp [*], havahi, rfl⟩
    · exact .inl ⟨rfl, .inr havahi⟩
  · exact .inl ⟨rfl, .inl ‹_›⟩

theorem Sound.onNameLost {s : Network} (hs : s.Sound) : s.onNameLost.Sound := by
  rcases s.onNameLost_cases with hnone | ⟨id, hid, hlost⟩
  · rw [hnone]
    exact hs
  · obtain ⟨hlt, hnew⟩ := mem_existing.mp (hs.held id hid)
    rw [hlost]
    refine ⟨hs.current, ?_, ?_, nofun, hs.connections, hs.services⟩
    · intro id' hid'
      rcases List.mem_append.mp hid' with hold | hlast
      · exact hs.deleted id' hold
      · rw [List.mem_singleton.mp hlast]
        exact hlt
    · rw [← List.concat_eq_append]
      exact hs.once.concat hnew

theorem Sound.onNameAcquired {s : Network} {i : Nat} (hs : s.Sound)
    (hacquired : ∃ c ∈ s.connections[i]?, c.acquired ≠ []) : (s.onNameAcquired i).Sound := by
  rcases s.onNameAcquired_cases i with ⟨hsame, -⟩ | ⟨parameter, -, -, hcreated⟩
  · rw [hsame]
    exact hs
  · rw [hcreated]
    refine ⟨hs.current, ?_, hs.once, ?_, hs.connections, ?_⟩
    · intro id hid
      have := hs.deleted id hid
      simp only [List.length_append, List.length_singleton]
      omega
    · intro id hid
      obtain rfl : s.services.length = id := Option.mem_some.mp hid
      simp only [mem_existing, List.length_append, List.length_singleton]
      exact ⟨by omega, fun hdeleted => absurd (hs.deleted _ hdeleted) (Nat.lt_irrefl _)⟩
    · intro service hservice
      rcases List.mem_append.mp hservice with hold | hnew
      · exact hs.services service hold
      · rw [List.mem_singleton.mp hnew]
        exact hacquired

theorem Sound.acquire {s : Network} {i owner : Nat} {c : NetworkConnection} (hs : s.Sound)
    (hc : c ∈ s.connections[i]?) (howned : owner ∈ c.link.owned) :
    Sound { s with connections :=
      s.connections.modify i fun c => { c with acquired := c.acquired ++ [owner] } } := by
  refine hs.modify (fun c' hc' => ?_) fun c => List.subset_append_left _ _
  obtain rfl := Option.mem_unique hc hc'
  have hsound := hs.connections c (List.mem_of_getElem? hc)
  refine ⟨hsound.oneBus, fun owner' howner' => ?_⟩
  rcases List.mem_append.mp howner' with hold | hlast
  · exact hsound.acquired owner' hold
  · rw [List.mem_singleton.mp hlast]
    exact hsound.owner_eq howned

theorem LinkEvent.not_isConnect {e : LinkEvent} (he : e.unasked ∨ e.inDisconnect) :
    ¬ e.isConnect := by
  cases e <;> simp_all [LinkEvent.unasked, LinkEvent.dispatched, LinkEvent.inDisconnect,
    LinkEvent.isConnect]

theorem Sound.callback {s : Network} {i : Nat} {e : LinkEvent} (hs : s.Sound)
    (henabled : ∀ c ∈ s.connections[i]?, c.link.Enabled e) (hother : ¬ e.isConnect) :
    (s.callback i e).Sound := by
  have hmodified : Sound { s with
      connections := s.connections.modify i fun c => { c with link := c.link.after e } } := by
    refine hs.modify (fun c hc => ?_) fun c => List.Subset.refl _
    have hsound := hs.connections c (List.mem_of_getElem? hc)
    exact { hsound with oneBus := hsound.oneBus.after (henabled c hc) hother }
  simp only [Network.callback]
  split_ifs
  · exact hmodified.onNameLost
  · exact hmodified

theorem Sound.step {s s' : Network} {e : NetworkEvent} (hs : s.Sound)
    (hstep : step s e = some s') : s'.Sound := by
  obtain ⟨henabled, rfl⟩ := step_eq_some.mp hstep
  cases e with
  | start | fileChanged | fileDeleted => exact { hs with }
  | stop =>
      simp only [after, stop]
      split_ifs <;> exact { hs with }
  | doDisconnect =>
      simp only [after, doDisconnect]
      split_ifs <;> exact { hs with }
  | doConnect file =>
      simp only [after, doConnect]
      split
      · exact { hs with }
      · exact { hs with }
      · split_ifs
        · exact { hs with }
        · apply Sound.connect
          exact { hs with }
  | connectionDeleted =>
      simp only [after, connectionDeleted]
      split
      · exact hs.connect
      · exact { hs with current := fun i hi => absurd hi (Option.not_mem_none i) }
      · exact { hs with current := fun i hi => absurd hi (Option.not_mem_none i) }
      · exact hs
  | connection i e =>
      obtain ⟨c, hc, he, howner⟩ := henabled
      refine hs.callback (fun c' hc' => ?_) (LinkEvent.not_isConnect (howner.imp_right (·.1)))
      obtain rfl := Option.mem_unique hc hc'
      exact he
  | nameAcquired i owner =>
      obtain ⟨c, hc, howned, -⟩ := henabled
      apply Sound.onNameAcquired (hs.acquire hc howned)
      rw [List.getElem?_modify_eq, Option.mem_def.mp hc]
      exact ⟨_, rfl, by simp⟩

/-! ### Whether the books are kept -/

/-- Every service that is there is the one of `_avahi_id`, and belongs to `_connection`. -/
def Kept (s : Network) : Prop :=
  ∀ id ∈ s.existing, s.avahiId = some id ∧
    ∀ service ∈ s.services[id]?, s.connection = some service.connection

/-- No id is forgotten before exactly one `DeleteService` was called with it. -/
structure Booked (s : Network) : Prop where
  kept : s.Kept
  once : s.deletedServices.Nodup
  single : s.existing.length ≤ 1
  gone : s.connection = none → s.existing = []

theorem Kept.existing_eq_nil {s : Network} (hkept : s.Kept)
    (hnone : s.avahiId = none ∨ s.connection = none) : s.existing = [] := by
  apply List.eq_nil_iff_forall_not_mem.mpr
  intro id hid
  obtain ⟨hheld, hmine⟩ := hkept id hid
  rcases hnone with hnone | hnone
  · rw [hnone] at hheld
    cases hheld
  · have hlt := (mem_existing.mp hid).1
    have hconnection := hmine _ (List.getElem?_eq_getElem hlt)
    rw [hnone] at hconnection
    cases hconnection

theorem Sound.booked_iff_kept {s : Network} (hs : s.Sound) : s.Booked ↔ s.Kept := by
  refine ⟨fun h => h.kept, fun hkept => ⟨hkept, hs.once, ?_, ?_⟩⟩
  · cases hid : s.avahiId with
    | none => simp [hkept.existing_eq_nil (.inl hid)]
    | some id =>
        have hnodup : s.existing.Nodup := List.nodup_range.filter _
        have hsub : s.existing ⊆ [id] := fun id' hid' => by
          have := (hkept id' hid').1
          rw [hid, Option.some.injEq] at this
          exact List.mem_singleton.mpr this.symm
        exact (List.subperm_of_subset hnodup hsub).length_le
  · intro hnone
    exact hkept.existing_eq_nil (.inr hnone)

/-- The connection is deleted only when its service is, and no service is made for a connection that
is deleted already. -/
def KeepsBooks (s : Network) : NetworkEvent → Prop
  | .connectionDeleted => s.avahiId = none
  | .nameAcquired i _ => s.connection = some i ∨ s.address = none ∨ ¬ s.avahi4vdr
  | _ => True

instance decidableKeepsBooks (s : Network) : DecidablePred s.KeepsBooks
  | .connectionDeleted => inferInstanceAs (Decidable (s.avahiId = none))
  | .nameAcquired i _ =>
      inferInstanceAs (Decidable (s.connection = some i ∨ s.address = none ∨ ¬ s.avahi4vdr))
  | .start _ | .stop | .fileChanged | .fileDeleted | .doConnect _ | .doDisconnect
  | .connection _ _ => inferInstanceAs (Decidable True)

/-- A service that is there belongs to the connection of before. -/
theorem Kept.moved_iff {s s' : Network} (hkept : s.Kept) (hs : s.Sound)
    (hservices : s'.services = s.services) (hdeleted : s'.deletedServices = s.deletedServices)
    (hother : ∀ i, s.connection = some i → s'.connection ≠ some i) :
    s'.Kept ↔ s.avahiId = none := by
  have hsame : s'.existing = s.existing := by rw [existing, existing, hservices, hdeleted]
  constructor
  · intro hkept'
    by_contra hheld
    obtain ⟨id, hid⟩ := Option.ne_none_iff_exists'.mp hheld
    have hmem := hs.held id hid
    have hservice := List.getElem?_eq_getElem (mem_existing.mp hmem).1
    have hmine := (hkept id hmem).2 _ hservice
    refine hother _ hmine ((hkept' id (hsame ▸ hmem)).2 _ ?_)
    rw [hservices]
    exact hservice
  · intro hnone id hid
    rw [hsame, hkept.existing_eq_nil (.inl hnone)] at hid
    cases hid

theorem Kept.connect {s : Network} (hkept : s.Kept) (hnone : s.connection = none) :
    s.connect.Kept := by
  intro id hid
  have hempty := hkept.existing_eq_nil (.inr hnone)
  change id ∈ s.existing at hid
  rw [hempty] at hid
  cases hid

theorem Kept.onNameLost {s : Network} (hkept : s.Kept) : s.onNameLost.Kept := by
  rcases s.onNameLost_cases with hnone | ⟨id, hid, hlost⟩
  · rw [hnone]
    exact hkept
  · rw [hlost]
    intro id' hid'
    obtain ⟨hlt, hnotin⟩ := mem_existing.mp hid'
    have hleft := (hkept id' (mem_existing.mpr
      ⟨hlt, fun hmem => hnotin (List.mem_append_left _ hmem)⟩)).1
    rw [hid, Option.some.injEq] at hleft
    exact absurd (List.mem_append_right _ (List.mem_singleton.mpr hleft.symm)) hnotin

/-- When the name of a connection is acquired, it has no service yet. -/
theorem Kept.acquired_iff {s : Network} {i : Nat} (hkept : s.Kept) (hs : s.Sound)
    (hfirst : s.connection = some i → s.avahiId = none) :
    (s.onNameAcquired i).Kept ↔ s.connection = some i ∨
    s.address = none ∨ ¬ s.avahi4vdr := by
  rcases s.onNameAcquired_cases i
    with ⟨hsame, hno⟩ | ⟨parameter, haddress, havahi, hcreated⟩
  · rw [hsame]
    exact iff_of_true hkept (.inr hno)
  · have haddress' : s.address ≠ none := Option.isSome_iff_ne_none.mp haddress
    simp only [haddress', havahi, not_true_eq_false, or_false]
    rw [hcreated]
    constructor
    · intro hkept'
      refine (hkept' s.services.length ?_).2 ⟨i, parameter⟩ (by simp)
      simp only [mem_existing, List.length_append, List.length_singleton]
      exact ⟨by omega, fun hdeleted => absurd (hs.deleted _ hdeleted) (Nat.lt_irrefl _)⟩
    · intro hmine id hid
      have hempty := hkept.existing_eq_nil (.inl (hfirst hmine))
      have hlast : id = s.services.length := by
        by_contra hold
        simp only [mem_existing, List.length_append, List.length_singleton] at hid
        have hmem : id ∈ s.existing := mem_existing.mpr ⟨by omega, hid.2⟩
        rw [hempty] at hmem
        cases hmem
      subst hlast
      refine ⟨rfl, fun service hservice => ?_⟩
      simp at hservice
      rw [← hservice]
      exact hmine

/-- The name of a connection is acquired once, and its service is the only one it can have. -/
theorem Kept.avahiId_eq_none {s : Network} {i owner : Nat} {c : NetworkConnection}
    (hkept : s.Kept) (hs : s.Sound) (hc : c ∈ s.connections[i]?) (howned : owner ∈ c.link.owned)
    (hnew : owner ∉ c.acquired) (hmine : s.connection = some i) : s.avahiId = none := by
  by_contra hheld
  obtain ⟨id, hid⟩ := Option.ne_none_iff_exists'.mp hheld
  have hservice := List.getElem?_eq_getElem (mem_existing.mp (hs.held id hid)).1
  have hof := (hkept id (hs.held id hid)).2 _ hservice
  rw [hmine, Option.some.injEq] at hof
  obtain ⟨c', hc', hacquired⟩ := hs.services _ (List.mem_of_getElem? hservice)
  rw [← hof] at hc'
  obtain rfl := Option.mem_unique hc hc'
  have hsound := hs.connections c (List.mem_of_getElem? hc)
  obtain ⟨owner', howner'⟩ := List.exists_mem_of_ne_nil _ hacquired
  rw [hsound.owner_eq howned, ← hsound.acquired owner' howner'] at hnew
  exact hnew howner'

theorem kept_step_iff {s s' : Network} {e : NetworkEvent} (hs : s.Sound) (hkept : s.Kept)
    (hstep : step s e = some s') : s'.Kept ↔ s.KeepsBooks e := by
  obtain ⟨henabled, rfl⟩ := step_eq_some.mp hstep
  cases e with
  | start | fileChanged | fileDeleted => exact iff_of_true hkept trivial
  | stop =>
      refine iff_of_true ?_ trivial
      simp only [after, stop]
      split_ifs <;> exact hkept
  | doDisconnect =>
      refine iff_of_true ?_ trivial
      simp only [after, doDisconnect]
      split_ifs <;> exact hkept
  | doConnect file =>
      refine iff_of_true ?_ trivial
      simp only [after, doConnect]
      split
      · exact hkept
      · exact hkept
      · split_ifs with hsome
        · exact hkept
        · apply Kept.connect
          · exact hkept
          · simpa using hsome
  | connectionDeleted =>
      obtain ⟨hdeleting, i, hi, -⟩ := henabled
      simp only [after, connectionDeleted]
      split
      · refine hkept.moved_iff hs rfl rfl fun j hj => ?_
        have hlt := hs.current j hj
        rw [Network.connect, Ne, Option.some.injEq]
        omega
      · exact hkept.moved_iff hs rfl rfl fun j hj => nofun
      · exact hkept.moved_iff hs rfl rfl fun j hj => nofun
      · simp_all
  | connection i e =>
      refine iff_of_true ?_ trivial
      simp only [after, callback]
      split_ifs
      · exact Kept.onNameLost hkept
      · exact hkept
  | nameAcquired i owner =>
      obtain ⟨c, hc, howned, hnew⟩ := henabled
      refine Kept.acquired_iff (i := i) ?_ (hs.acquire hc howned) fun hmine => ?_
      · exact hkept
      · exact hkept.avahiId_eq_none hs hc howned hnew hmine

def new (busname : Bytes) (avahi4vdr : Bool) : Network := { busname, avahi4vdr }

theorem sound_new (busname : Bytes) (avahi4vdr : Bool) : (new busname avahi4vdr).Sound :=
  ⟨nofun, nofun, List.nodup_nil, nofun, nofun, nofun⟩

/-- **Avahi services.** In every run the books are kept exactly as long as a connection is deleted
only when its service is, and no service is made for a connection that is deleted already. -/
theorem booked_iff {busname : Bytes} {avahi4vdr : Bool} {es : List NetworkEvent} {s : Network}
    (hrun : Machine.run step (new busname avahi4vdr) es = some s) :
    Machine.Throughout step Booked (new busname avahi4vdr) es ↔
      Machine.Along step KeepsBooks (new busname avahi4vdr) es := by
  have hnew := sound_new busname avahi4vdr
  refine Machine.throughout_iff_along (I := Sound) (fun t e t' => Sound.step)
    (fun t e t' ht hbooked hstep => ?_) hrun hnew ?_
  · rw [(ht.step hstep).booked_iff_kept]
    exact kept_step_iff ht (ht.booked_iff_kept.mp hbooked) hstep
  · exact hnew.booked_iff_kept.mpr nofun

/-- `do_connect` with an address in the file, until the name is acquired. -/
def announce (i : Nat) : List NetworkEvent :=
  [.doConnect (some (some { host := ascii "vdr.local", port := 7413 })), .connection i .doConnect,
    .connection i (.onBusGet true), .nameAcquired i 0]

/-- The first connection is deleted at once and acquires its name afterwards, when there is no
address; the second one loses its name. -/
theorem booked_of_lost_name :
    Machine.Throughout step Booked (new (ascii "de.tvdr.vdr") true)
      ([.start true, .doConnect (some (some { host := ascii "vdr.local", port := 7413 })),
        .fileDeleted, .doDisconnect, .connection 0 .disconnectEnter, .connectionDeleted,
        .connection 0 .doConnect, .connection 0 (.onBusGet true), .nameAcquired 0 0,
        .fileChanged] ++ announce 1 ++
        [.connection 1 (.onNameLost 0), .connection 1 .onNameLostClose]) :=
  (booked_iff rfl).mpr (by decide)

/-- The file is deleted: `do_disconnect` gives the name up, and the service stays. -/
theorem service_left_behind :
    ¬ ∀ (busname : Bytes) (avahi4vdr : Bool) (es : List NetworkEvent) (s : Network),
      Machine.run step (new busname avahi4vdr) es = some s → s.Booked := by
  intro hall
  have hbooked := hall (ascii "de.tvdr.vdr") true
    (.start true :: announce 0 ++ [.fileDeleted, .doDisconnect, .connection 0 .disconnectEnter,
      .connection 0 .disconnectMark, .connection 0 .disconnectAttach, .connection 0 .doFlush,
      .connection 0 .onFlush, .connection 0 .doDisconnect, .connection 0 .onDisconnectClose,
      .connection 0 .disconnectReturn, .connectionDeleted]) _ rfl
  exact absurd (hbooked.gone rfl) (by decide)

end Network

end Dbus2vdr

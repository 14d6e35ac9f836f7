import Mathlib.Logic.Function.Basic
import Dbus2vdr.Connection.Status

/-!
# Watchers and the present connection

`WatchBusname` reads `_connect_status` and then has the watcher put on the list by `AddWatcher`,
when `RegisterWatchers` is still to come, or registered and put there by `Watch`. The reading, the
registration and the insertion are steps of another thread, and `_flush_mutex`, which `Watch` holds,
is not taken by any callback of the main loop. `on_bus_get` is two events here: between them
`_connection` and `_connect_status` are set and no watcher is registered yet.

The buses of the plugin have a name and an address, and the plugin calls `Connect` once, when it has
made one.

An insertion that comes after the time its registration was for leaves a watcher that
`RegisterWatchers` has missed, or one with the id of an earlier connection, which it skips:
`current_throughout`.
-/

namespace Dbus2vdr

/-- A watcher of `WatchBusname` that is not on a list yet. -/
inductive WatchCommand where
  | absent
  /-- `cDBusConnection::Watch` is about to register it. -/
  | watching (w : Watcher)
  /-- It is about to be put on `_watchers`. -/
  | inserting (w : Watcher)
  deriving DecidableEq, Repr

structure WatchedBus where
  link : Link
  /-- `Connect` has been called. -/
  started : Bool := false
  /-- The main loop is in `on_bus_get` and has the connection. -/
  opening : Bool := false
  commands : Nat → WatchCommand := fun _ => .absent

inductive WatchedBusEvent where
  | link (e : LinkEvent)
  /-- The rest of `on_bus_get`. -/
  | registerAll
  | getStatus (id : Nat)
  | watch (id : Nat)
  | insert (id : Nat)
  deriving DecidableEq, Repr

def LinkEvent.inserts : LinkEvent → Bool
  | .addWatcher _ | .watch _ => true
  | _ => false

/-- What may change `_connection`, `_watchers` or the closes that are pending. -/
def LinkEvent.moves : LinkEvent → Bool
  | .onBusGet _ | .onNameLost _ | .onNameLostClose | .doDisconnect | .onDisconnectClose
  | .addWatcher _ | .watch _ | .unwatch _ => true
  | _ => false

namespace Link

def openConnection (s : Link) : Link :=
  { s with connection := some s.made, made := s.made + 1, connectStatus := 3 }

def registerAll (s : Link) : Link :=
  if s.named then s.registerObjects.registerWatchers.ownName else s

theorem after_onBusGet (s : Link) : s.after (.onBusGet true) =
    Link.registerAll { s with busGets := s.busGets - 1 }.openConnection := rfl

def closes (s : Link) : Nat := s.nameLostCloses + s.disconnectCloses

variable {s : Link} {e : LinkEvent}

/-! ### What the events of a connection do to its watchers -/

theorem registerAll_eq (hnamed : s.named = true) (hsome : s.connection.isSome) :
    s.registerAll =
      { s with
        objects := s.objects.map fun _ => s.connection
        watchers := s.watchers.map (·.watch s.connection)
        ownerId := s.connection
        owned := s.owned ++ s.connection.toList } := by
  simp [registerAll, registerObjects, registerWatchers, ownName, hnamed, hsome]

theorem after_named (s : Link) (e : LinkEvent) : (s.after e).named = s.named := by
  cases e with
  | busClosed | addObject | addWatcher | watch | unwatch => rfl
  | _ =>
      simp only [Link.after, connect, disconnectEnter, disconnectMark, disconnectAttach,
        disconnectReturn, doConnect, doReconnect, requestBus, endReconnect, onBusGet,
        registerObjects, registerWatchers, ownName, onNameLost, onNameLostClose, doFlush, onFlush,
        doDisconnect, onDisconnectClose, release_eq, closeConnection]
      try split_ifs <;> rfl

theorem after_of_not_moves (he : e.moves = false) :
    (s.after e).connection = s.connection ∧ (s.after e).watchers = s.watchers ∧
      (s.after e).closes = s.closes := by
  cases e with
  | onBusGet | onNameLost | onNameLostClose | doDisconnect | onDisconnectClose | addWatcher | watch
  | unwatch => cases he
  | connect | disconnectEnter | disconnectMark | disconnectReturn | busClosed | addObject =>
      exact ⟨rfl, rfl, rfl⟩
  | disconnectAttach | doConnect | doReconnect | doFlush | onFlush =>
      simp only [Link.after, disconnectAttach, doConnect, doReconnect, requestBus, endReconnect,
        doFlush, onFlush]
      split_ifs <;> exact ⟨rfl, rfl, rfl⟩

theorem release_watchers (hdown : s.connection = none → ∀ w ∈ s.watchers, w.watchId = none) :
    ∀ w ∈ s.release.watchers, w.watchId = none := by
  intro w hw
  rw [release_eq] at hw
  simp only [unregisterWatchers] at hw
  split_ifs at hw with hsome
  · obtain ⟨w', -, rfl⟩ := List.mem_map.mp hw
    rfl
  · exact hdown (Option.not_isSome_iff_eq_none.mp hsome) w hw

/-- With an address, `_connection` is closed asynchronously. -/
theorem onNameLost_eq (htarget : s.target = .address) :
    s.onNameLost = if s.connection.isSome then
      { s.release.closeConnection with nameLostCloses := s.nameLostCloses + 1 } else s.release := by
  simp [onNameLost, release_eq, htarget]

theorem doDisconnect_eq (htarget : s.target = .address) :
    s.doDisconnect = if s.connection.isSome then
      { s.release.closeConnection with disconnectCloses := s.disconnectCloses + 1 }
      else s.release := by
  simp [doDisconnect, release_eq, htarget]

theorem release_connection : s.release.connection = s.connection := by rw [release_eq]

/-- A bus request under way means that there is no connection and none is being closed. -/
theorem Coherent.down_of_request (hs : s.Coherent) (hrequest : 0 < s.busGets) :
    s.connection = none ∧ s.closes = 0 := by
  obtain ⟨htwo, -⟩ := hs.status_of_request hrequest
  refine ⟨hs.connection_eq_none (by omega), ?_⟩
  by_contra hclose
  exact (hs.closing (Nat.pos_of_ne_zero hclose)).2.2.2.1 htwo

/-- Other threads and the owner's do not tell the middle of `on_bus_get` from its end, but for the
objects and watchers they find. -/
theorem registerAll_after (hother : e.dispatched = false) (hinsert : e.inserts = false)
    (hobject : e ≠ .addObject) (hunwatch : ∀ id, e ≠ .unwatch id) :
    (s.after e).registerAll = s.registerAll.after e := by
  cases e with
  | connect | disconnectEnter | disconnectMark | disconnectReturn | busClosed =>
      cases hnamed : s.named <;>
        simp [Link.after, Link.connect, Link.disconnectEnter, Link.disconnectMark,
          Link.disconnectReturn, registerAll, hnamed, registerObjects, registerWatchers, ownName]
  | disconnectAttach =>
      by_cases hup : 3 ≤ s.connectStatus <;> cases hnamed : s.named <;>
        simp [Link.after, disconnectAttach, registerAll, hup, hnamed, registerObjects,
          registerWatchers, ownName]
  | addObject => exact absurd rfl hobject
  | unwatch id => exact absurd rfl (hunwatch id)
  | addWatcher | watch => cases hinsert
  | _ => cases hother

end Link

namespace WatchedBus

open Machine

def new : WatchedBus := { link := Link.new .address true }

def Enabled (b : WatchedBus) : WatchedBusEvent → Prop
  | .link e => b.link.Enabled e ∧ (e.dispatched → b.opening = false) ∧ e.inserts = false ∧
      (e.isConnect → b.started = false)
  | .registerAll => b.opening = true
  | .getStatus id => b.commands id = .absent
  | .watch id => ∃ w, b.commands id = .watching w
  | .insert id => ∃ w, b.commands id = .inserting w

def setCommand (b : WatchedBus) (id : Nat) (c : WatchCommand) : WatchedBus :=
  { b with commands := Function.update b.commands id c }

/-- `_watchers.Add`, by `AddWatcher` and `Watch`. -/
def add (b : WatchedBus) (id : Nat) (w : Watcher) : WatchedBus :=
  { b.setCommand id .absent with link := { b.link with watchers := b.link.watchers ++ [w] } }

def after (b : WatchedBus) : WatchedBusEvent → WatchedBus
  | .link (.onBusGet true) =>
      { b with
        link := { b.link with busGets := b.link.busGets - 1 }.openConnection
        opening := true }
  | .link e => { b with link := b.link.after e, started := b.started || e.isConnect }
  | .registerAll => { b with link := b.link.registerAll, opening := false }
  | .getStatus id =>
      b.setCommand id
        (if b.link.connectStatus < 3 then .inserting ⟨id, none⟩ else .watching ⟨id, none⟩)
  | .watch id =>
      match b.commands id with
      | .watching w => b.setCommand id (.inserting (w.watch b.link.connection))
      | _ => b
  | .insert id =>
      match b.commands id with
      | .inserting w => b.add id w
      | _ => b

instance decidableEnabled (b : WatchedBus) : DecidablePred b.Enabled
  | .link e =>
  inferInstanceAs (Decidable (b.link.Enabled e ∧ (e.dispatched → b.opening = false) ∧
      e.inserts = false ∧ (e.isConnect → b.started = false)))
  | .registerAll => inferInstanceAs (Decidable (b.opening = true))
  | .getStatus id => inferInstanceAs (Decidable (b.commands id = .absent))
  | .watch id =>
      match hcommand : b.commands id with
      | .watching w => isTrue ⟨w, hcommand⟩
      | .absent | .inserting _ => isFalse (by simp [Enabled, hcommand])
  | .insert id =>
      match hcommand : b.commands id with
      | .inserting w => isTrue ⟨w, hcommand⟩
      | .absent | .watching _ => isFalse (by simp [Enabled, hcommand])

def step : Step WatchedBus WatchedBusEvent :=
  fun b e => if b.Enabled e then some (b.after e) else none

theorem step_eq_some {b b' : WatchedBus} {e : WatchedBusEvent} :
    step b e = some b' ↔ b.Enabled e ∧ b.after e = b' := by
  unfold step
  split_ifs with henabled <;> simp [henabled]

/-! ### What is promised -/

/-- A close is pending: the watchers have been unregistered, and `_connection` is still to be
cleared. -/
def Closing (b : WatchedBus) : Prop := 0 < b.link.closes

structure Current (b : WatchedBus) : Prop where
  established : b.link.connectStatus = 3 ∨ b.link.connectStatus = 4 → b.opening = false →
    ¬ b.Closing → ∀ w ∈ b.link.watchers, ∃ conn, w.watchId = some conn ∧
      b.link.connection = some conn
  down : b.link.connection = none → ∀ w ∈ b.link.watchers, w.watchId = none

/-- `RegisterWatchers` is still to come, if ever the bus comes up again. -/
def Awaited (b : WatchedBus) : Prop := b.link.connection = none ∨ b.Closing ∨ b.opening = true

/-- A watcher that has not been registered is inserted before `RegisterWatchers`, and one that has
been while its connection is still there and not being closed. -/
def Timely (b : WatchedBus) : WatchedBusEvent → Prop
  | .insert id =>
      match b.commands id with
      | .inserting ⟨_, none⟩ => b.Awaited
      | .inserting ⟨_, some conn⟩ => b.link.connection = some conn ∧ ¬ b.Closing
      | _ => True
  | _ => True

/-! ### What holds between the steps -/

/-- The connection as `on_bus_get` leaves it. -/
def settled (b : WatchedBus) : Link := if b.opening then b.link.registerAll else b.link

/-- The connection on which every watcher is registered. -/
def due (b : WatchedBus) : Option Nat := if 0 < b.link.closes then none else b.link.connection

structure Sound (b : WatchedBus) : Prop where
  named : b.link.named = true
  target : b.link.target = .address
  chain : b.settled.ChainSound
  phase : (b.started = false ∧ b.settled.Fresh) ∨ (b.started = true ∧ b.settled.Coherent)

structure Attached (b : WatchedBus) : Prop where
  idle : b.opening = false → ∀ w ∈ b.link.watchers, w.watchId = b.due
  opening : b.opening = true → b.link.connection.isSome ∧ b.link.closes = 0 ∧
    ∀ w ∈ b.link.watchers, w.watchId = none ∨ w.watchId = b.link.connection

variable {b : WatchedBus} {e : LinkEvent}

theorem sound_new : new.Sound where
  named := rfl
  target := rfl
  chain := Link.chainSound_new ..
  phase := .inl ⟨rfl, Link.fresh_new ..⟩

theorem attached_new : new.Attached where
  idle _ w hw := by cases hw
  opening h := by cases h

theorem settled_of_idle (hidle : b.opening = false) : b.settled = b.link := by
  simp [settled, hidle]

theorem settled_of_opening (hopening : b.opening = true) : b.settled = b.link.registerAll := by
  simp [settled, hopening]

theorem Sound.coherent_of_opening (h : b.Sound) (ha : b.Attached) (hopening : b.opening = true) :
    b.started = true ∧ b.link.registerAll.Coherent := by
  have hsome := (ha.opening hopening).1
  obtain ⟨-, hfresh⟩ | hcoherent := h.phase
  · have hnone := hfresh.connection
    rw [settled_of_opening hopening, Link.registerAll_eq h.named hsome] at hnone
    rw [hnone] at hsome
    cases hsome
  · rwa [settled_of_opening hopening] at hcoherent

theorem Sound.down_of_request (h : b.Sound) (hidle : b.opening = false)
    (hrequest : 0 < b.link.busGets) : b.link.connection = none ∧ b.link.closes = 0 := by
  have hphase := h.phase
  rw [settled_of_idle hidle] at hphase
  obtain ⟨-, hfresh⟩ | ⟨-, hcoherent⟩ := hphase
  · rw [hfresh.busGet] at hrequest
    cases hrequest
  · exact hcoherent.down_of_request hrequest

/-! ### The connection under the steps -/

theorem settled_openConnection (b : WatchedBus) :
    (b.after (.link (.onBusGet true))).settled = b.link.after (.onBusGet true) := rfl

theorem after_link (hother : e ≠ .onBusGet true) : b.after (.link e) =
    { b with link := b.link.after e, started := b.started || e.isConnect } := by
  cases e with
  | onBusGet ok =>
      cases ok with
      | false => rfl
      | true => exact absurd rfl hother
  | _ => rfl

theorem after_link_named : (b.after (.link e)).link.named = b.link.named := by
  by_cases hget : e = .onBusGet true
  · rw [hget]
    rfl
  · rw [after_link hget]
    exact Link.after_named ..

theorem after_link_target : (b.after (.link e)).link.target = b.link.target := by
  by_cases hget : e = .onBusGet true
  · rw [hget]
    rfl
  · rw [after_link hget]
    exact Link.after_target ..

theorem after_link_started : (b.after (.link e)).started = (b.started || e.isConnect) := by
  by_cases hget : e = .onBusGet true
  · rw [hget]
    exact (Bool.or_false _).symm
  · rw [after_link hget]

theorem Sound.after_idle (h : b.Sound) (hidle : b.opening = false)
    (he : b.Enabled (.link e)) : (b.after (.link e)).Sound := by
  obtain ⟨henabled, -, -, honce⟩ := he
  have hsettled : (b.after (.link e)).settled = b.link.after e := by
    by_cases hget : e = .onBusGet true
    · rw [hget, settled_openConnection]
    · rw [after_link hget]
      exact settled_of_idle hidle
  have hchain := h.chain
  have hphase := h.phase
  rw [settled_of_idle hidle] at hchain hphase
  refine ⟨after_link_named.trans h.named, after_link_target.trans h.target,
    hsettled ▸ hchain.after henabled, ?_⟩
  rw [hsettled, after_link_started]
  by_cases hconnect : e.isConnect
  · have hfresh : b.link.Fresh := by
      obtain ⟨-, hfresh⟩ | ⟨hrunning, -⟩ := hphase
      · exact hfresh
      · rw [honce hconnect] at hrunning
        cases hrunning
    refine .inr ⟨by simp [hconnect], ?_⟩
    cases e with
    | connect autoReconnect => exact hfresh.connect autoReconnect
    | _ => cases hconnect
  · obtain ⟨hnot, hfresh⟩ | ⟨hrunning, hcoherent⟩ := hphase
    · exact .inl ⟨by simp [hnot, hconnect], hfresh.after henabled hconnect⟩
    · exact .inr ⟨by simp [hrunning], hcoherent.after hchain henabled hconnect⟩

theorem enabled_registerAll (hnamed : b.link.named = true) (hsome : b.link.connection.isSome)
    (hother : e.dispatched = false) (henabled : b.link.Enabled e) :
    b.link.registerAll.Enabled e := by
  rw [Link.registerAll_eq hnamed hsome]
  cases e with
  | doConnect | doReconnect | onBusGet | onNameLost | onNameLostClose | doFlush | onFlush
  | doDisconnect | onDisconnectClose => cases hother
  | _ => exact henabled

/-- In the middle of `on_bus_get` the list of objects may grow, and the watchers do not matter. -/
theorem coherent_registerAll {s : Link} (hnamed : s.named = true) (hsome : s.connection.isSome)
    (hquiet : s.closes = 0) (hcoherent : s.registerAll.Coherent) (hchain : s.registerAll.ChainSound)
    (objects : List (Option Nat)) (watchers : List Watcher) :
    Link.ChainSound (Link.registerAll { s with objects, watchers }) ∧
      Link.Coherent (Link.registerAll { s with objects, watchers }) := by
  rw [Link.registerAll_eq hnamed hsome] at hcoherent hchain
  rw [Link.registerAll_eq (s := { s with objects, watchers }) hnamed hsome]
  refine ⟨hchain.pass rfl rfl id (Nat.le_refl _), ?_⟩
  exact
    { hcoherent with
      objects := fun o ho => by
        obtain ⟨-, -, rfl⟩ := List.mem_map.mp ho
        exact .inr rfl
      unnamed := fun hunnamed => absurd (hnamed.symm.trans hunnamed) (by decide)
      closing := fun hclose => by
        have hpending : 0 < s.closes := hclose
        rw [hquiet] at hpending
        cases hpending }

/-- In the middle of `on_bus_get` only other threads go on. -/
theorem Sound.after_opening (h : b.Sound) (ha : b.Attached) (hopening : b.opening = true)
    (he : b.Enabled (.link e)) : (b.after (.link e)).Sound := by
  obtain ⟨henabled, hdispatched, hinsert, honce⟩ := he
  obtain ⟨hrunning, hcoherent⟩ := h.coherent_of_opening ha hopening
  obtain ⟨hsome, hquiet, -⟩ := ha.opening hopening
  have hother : e.dispatched = false := by
    by_contra hdispatched'
    simp [hdispatched (by simpa using hdispatched')] at hopening
  have hconnect : ¬ e.isConnect := fun hconnect => by simp [honce hconnect] at hrunning
  have hsettled : (b.after (.link e)).settled = (b.link.after e).registerAll := by
    rw [after_link (by rintro rfl; cases hother)]
    exact settled_of_opening hopening
  have hchain := h.chain
  rw [settled_of_opening hopening] at hchain
  have hrest : (b.link.after e).registerAll.ChainSound ∧
      (b.link.after e).registerAll.Coherent := by
    by_cases hlist : e = .addObject ∨ ∃ id, e = .unwatch id
    · obtain rfl | ⟨id, rfl⟩ := hlist
      · exact coherent_registerAll h.named hsome hquiet hcoherent hchain _ b.link.watchers
      · exact coherent_registerAll h.named hsome hquiet hcoherent hchain b.link.objects _
    · push Not at hlist
      have henabled' := enabled_registerAll h.named hsome hother henabled
      rw [Link.registerAll_after hother hinsert hlist.1 hlist.2]
      exact ⟨hchain.after henabled', hcoherent.after hchain henabled' hconnect⟩
  exact
    { named := after_link_named.trans h.named
      target := after_link_target.trans h.target
      chain := hsettled ▸ hrest.1
      phase := .inr ⟨by rw [after_link_started, hrunning, Bool.true_or], hsettled ▸ hrest.2⟩ }

/-! ### The watchers under the steps -/

theorem due_eq_none (h : b.link.connection = none ∨ b.Closing) : b.due = none := by
  unfold due
  split_ifs with hclosing
  · rfl
  · exact h.resolve_right hclosing

theorem attached_of_unregistered (hidle : b.opening = false)
    (hdown : b.link.connection = none ∨ b.Closing)
    (hnone : ∀ w ∈ b.link.watchers, w.watchId = none) : b.Attached where
  idle _ w hw := by rw [hnone w hw, due_eq_none hdown]
  opening hopening := by
    rw [hidle] at hopening
    cases hopening

theorem Attached.unregistered (h : b.Attached) (hidle : b.opening = false)
    (hdown : b.link.connection = none ∨ b.Closing) :
    ∀ w ∈ b.link.watchers, w.watchId = none := by
  intro w hw
  rw [h.idle hidle w hw, due_eq_none hdown]

theorem Attached.release (h : b.Attached) (hidle : b.opening = false) :
    ∀ w ∈ b.link.release.watchers, w.watchId = none :=
  Link.release_watchers fun hnone => h.unregistered hidle (.inl hnone)

theorem Attached.after_openConnection (h : b.Attached) (hidle : b.opening = false)
    (hdown : b.link.connection = none ∧ b.link.closes = 0) :
    (b.after (.link (.onBusGet true))).Attached where
  idle hidle' := by cases hidle'
  opening _ := ⟨rfl, hdown.2, fun w hw => .inl (h.unregistered hidle (.inl hdown.1) w hw)⟩

theorem closing_of_nameLost (h : 0 < b.link.nameLostCloses) : b.Closing :=
  Nat.lt_of_lt_of_le h (Nat.le_add_right ..)

theorem closing_of_disconnect (h : 0 < b.link.disconnectCloses) : b.Closing :=
  Nat.lt_of_lt_of_le h (Nat.le_add_left ..)

/-- `UnregisterWatchers` comes before the connection is lost. -/
theorem Attached.onNameLost (h : b.Attached) (hs : b.Sound) (hidle : b.opening = false)
    (owner : Nat) : Attached { b with link := b.link.after (.onNameLost owner) } := by
  have hnone := h.release hidle
  simp only [Link.after, Link.onNameLost_eq hs.target]
  split_ifs with hsome
  · exact attached_of_unregistered hidle (.inr (closing_of_nameLost (Nat.succ_pos _))) hnone
  · have hdown : b.link.connection = none := Option.not_isSome_iff_eq_none.mp hsome
    exact attached_of_unregistered hidle (.inl (Link.release_connection.trans hdown)) hnone

theorem Attached.onNameLostClose (h : b.Attached) (hidle : b.opening = false)
    (hclosing : b.Closing) : Attached { b with link := b.link.after .onNameLostClose } := by
  have hnone := h.unregistered hidle (.inr hclosing)
  simp only [Link.after, Link.onNameLostClose]
  split_ifs <;> exact attached_of_unregistered hidle (.inl rfl) hnone

theorem Attached.doDisconnect (h : b.Attached) (hs : b.Sound) (hidle : b.opening = false) :
    Attached { b with link := b.link.after .doDisconnect } := by
  let link := { b.link with doDisconnectSources := b.link.doDisconnectSources - 1 }
  have hnone : ∀ w ∈ link.release.watchers, w.watchId = none :=
    Link.release_watchers fun hdown => h.unregistered hidle (.inl hdown)
  change Attached { b with link := link.doDisconnect }
  rw [Link.doDisconnect_eq (s := link) hs.target]
  split_ifs with hsome
  · exact attached_of_unregistered hidle (.inr (closing_of_disconnect (Nat.succ_pos _))) hnone
  · have hdown : b.link.connection = none := Option.not_isSome_iff_eq_none.mp hsome
    exact attached_of_unregistered hidle (.inl (Link.release_connection.trans hdown)) hnone

theorem Attached.onDisconnectClose (h : b.Attached) (hidle : b.opening = false)
    (hclosing : b.Closing) : Attached { b with link := b.link.after .onDisconnectClose } := by
  have hnone := h.unregistered hidle (.inr hclosing)
  simp only [Link.after, Link.onDisconnectClose]
  split_ifs with hsome
  · exact attached_of_unregistered hidle (.inl rfl) hnone
  · have hdown : b.link.connection = none := Option.not_isSome_iff_eq_none.mp hsome
    exact attached_of_unregistered hidle (.inl hdown) hnone

theorem Attached.onBusGet_failed (h : b.Attached) (hidle : b.opening = false)
    (hdown : b.link.connection = none) :
    Attached { b with link := b.link.after (.onBusGet false) } :=
  attached_of_unregistered hidle (.inl rfl) (h.unregistered hidle (.inl hdown))

theorem Attached.unwatch (h : b.Attached) (hidle : b.opening = false) (id : Nat) :
    Attached { b with link := b.link.after (.unwatch id) } where
  idle _ w hw := h.idle hidle w (List.mem_of_mem_eraseP hw)
  opening hopening := absurd (hidle.symm.trans hopening) (by decide)

theorem Attached.after_idle (h : b.Attached) (hs : b.Sound) (hidle : b.opening = false)
    (he : b.Enabled (.link e)) : (b.after (.link e)).Attached := by
  obtain ⟨henabled, -, hinsert, -⟩ := he
  by_cases hget : e = .onBusGet true
  · subst hget
    exact h.after_openConnection hidle (hs.down_of_request hidle henabled)
  rw [after_link hget]
  suffices hlink : Attached { b with link := b.link.after e } from ⟨hlink.idle, hlink.opening⟩
  by_cases hmoves : e.moves
  · cases e with
    | onBusGet ok =>
        cases ok with
        | true => exact absurd rfl hget
        | false => exact h.onBusGet_failed hidle (hs.down_of_request hidle henabled).1
    | onNameLost owner => exact h.onNameLost hs hidle owner
    | onNameLostClose => exact h.onNameLostClose hidle (closing_of_nameLost henabled)
    | doDisconnect => exact h.doDisconnect hs hidle
    | onDisconnectClose => exact h.onDisconnectClose hidle (closing_of_disconnect henabled.1)
    | unwatch id => exact h.unwatch hidle id
    | addWatcher | watch => cases hinsert
    | _ => cases hmoves
  · -- The event leaves alone whatever decides about the watchers.
    obtain ⟨hconnection, hwatchers, hcloses⟩ := Link.after_of_not_moves (s := b.link)
      (by simpa using hmoves)
    refine ⟨fun _ w hw => ?_, fun hopening => absurd (hidle.symm.trans hopening) (by decide)⟩
    simp only [due, hconnection, hcloses]
    exact h.idle hidle w (hwatchers ▸ hw)

theorem Attached.after_opening (h : b.Attached) (hopening : b.opening = true)
    (he : b.Enabled (.link e)) : (b.after (.link e)).Attached := by
  obtain ⟨-, hdispatched, hinsert, -⟩ := he
  obtain ⟨hsome, hquiet, hwatchers⟩ := h.opening hopening
  have hother : e.dispatched = false := by
    by_contra hdispatched'
    simp [hdispatched (by simpa using hdispatched')] at hopening
  rw [after_link (by rintro rfl; cases hother)]
  refine ⟨fun hidle => absurd (hopening.symm.trans hidle) (by decide), fun _ => ?_⟩
  by_cases hmoves : e.moves
  · cases e with
    | unwatch id => exact ⟨hsome, hquiet, fun w hw => hwatchers w (List.mem_of_mem_eraseP hw)⟩
    | addWatcher | watch => cases hinsert
    | onBusGet | onNameLost | onNameLostClose | doDisconnect | onDisconnectClose => cases hother
    | _ => cases hmoves
  · obtain ⟨hconnection, hsame, hcloses⟩ := Link.after_of_not_moves (s := b.link)
      (by simpa using hmoves)
    simp only [hconnection, hcloses, hsame]
    exact ⟨hsome, hquiet, hwatchers⟩

theorem watchId_watch {w : Watcher} {connection : Option Nat}
    (h : w.watchId = none ∨ w.watchId = connection) :
    (w.watch connection).watchId = connection := by
  unfold Watcher.watch
  split_ifs with hsome
  · refine h.resolve_left fun hnone => ?_
    rw [hnone] at hsome
    cases hsome
  · rfl

theorem Sound.registerAll (h : b.Sound) (hopening : b.opening = true)
    (hsome : b.link.connection.isSome) : (b.after .registerAll).Sound := by
  have hsettled : (b.after .registerAll).settled = b.settled := (settled_of_opening hopening).symm
  refine ⟨?_, ?_, hsettled ▸ h.chain, hsettled ▸ h.phase⟩
  · simp [after, Link.registerAll_eq h.named hsome, h.named]
  · simp [after, Link.registerAll_eq h.named hsome, h.target]

theorem Attached.registerAll (h : b.Attached) (hs : b.Sound) (hopening : b.opening = true) :
    (b.after .registerAll).Attached := by
  obtain ⟨hsome, hquiet, hwatchers⟩ := h.opening hopening
  have hafter : b.after .registerAll =
      { b with link := b.link.registerAll, opening := false } := rfl
  have hcloses : b.link.registerAll.closes = 0 := by
    rw [Link.registerAll_eq hs.named hsome]
    exact hquiet
  refine ⟨fun _ w hw => ?_, fun hopening => by cases hopening⟩
  rw [hafter] at hw ⊢
  simp only [due, hcloses, Nat.lt_irrefl, if_false]
  simp only [Link.registerAll_eq hs.named hsome, List.mem_map] at hw ⊢
  obtain ⟨w', hw', rfl⟩ := hw
  exact watchId_watch (hwatchers w' hw')

theorem Sound.add (h : b.Sound) (ha : b.Attached) (id : Nat) (w : Watcher) :
    (b.add id w).Sound := by
  cases hopening : b.opening with
  | false =>
      have hchain := h.chain
      have hphase := h.phase
      rw [settled_of_idle hopening] at hchain hphase
      refine ⟨h.named, h.target, ?_, ?_⟩
      · rw [settled_of_idle (b := b.add id w) hopening]
        exact hchain.pass rfl rfl (fun h => h) (Nat.le_refl _)
      · rw [settled_of_idle (b := b.add id w) hopening]
        exact hphase.imp (fun hfresh => ⟨hfresh.1, { hfresh.2 with }⟩)
          fun hcoherent => ⟨hcoherent.1, { hcoherent.2 with }⟩
  | true =>
      obtain ⟨hsome, hquiet, -⟩ := ha.opening hopening
      obtain ⟨hrunning, hcoherent⟩ := h.coherent_of_opening ha hopening
      have hchain := h.chain
      rw [settled_of_opening hopening] at hchain
      have hrest := coherent_registerAll h.named hsome hquiet hcoherent hchain b.link.objects
        (b.link.watchers ++ [w])
      refine ⟨h.named, h.target, ?_, .inr ⟨hrunning, ?_⟩⟩
      · rw [settled_of_opening (b := b.add id w) hopening]
        exact hrest.1
      · rw [settled_of_opening (b := b.add id w) hopening]
        exact hrest.2

/-- A watcher that is inserted in time is registered as the others are. -/
theorem Attached.add (h : b.Attached) {id : Nat} {w : Watcher}
    (hcommand : b.commands id = .inserting w) (htimely : b.Timely (.insert id)) :
    (b.add id w).Attached := by
  obtain ⟨number, watchId⟩ := w
  simp only [Timely, hcommand] at htimely
  refine ⟨fun hidle w' hw' => ?_, fun hopening => ?_⟩
  · obtain hold | hnew := List.mem_append.mp hw'
    · exact h.idle hidle w' hold
    · obtain rfl := List.mem_singleton.mp hnew
      cases watchId with
      | none =>
          obtain hnone | hclosing | hopening := htimely
          · exact (due_eq_none (.inl hnone)).symm
          · exact (due_eq_none (.inr hclosing)).symm
          · exact absurd (hopening.symm.trans hidle) (by decide)
      | some conn =>
          obtain ⟨hconnection, hopen⟩ := htimely
          exact (hconnection.symm.trans (if_neg hopen).symm)
  · obtain ⟨hsome, hquiet, hwatchers⟩ := h.opening hopening
    refine ⟨hsome, hquiet, fun w' hw' => ?_⟩
    obtain hold | hnew := List.mem_append.mp hw'
    · exact hwatchers w' hold
    · obtain rfl := List.mem_singleton.mp hnew
      cases watchId with
      | none => exact .inl rfl
      | some conn => exact .inr htimely.1.symm

/-! ### Runs -/

theorem sound_after {e : WatchedBusEvent} (hs : b.Sound) (ha : b.Attached) (he : b.Enabled e) :
    (b.after e).Sound := by
  cases e with
  | link e =>
      cases hopening : b.opening with
      | false => exact hs.after_idle hopening he
      | true => exact hs.after_opening ha hopening he
  | registerAll => exact hs.registerAll he (ha.opening he).1
  | getStatus id => exact ⟨hs.named, hs.target, hs.chain, hs.phase⟩
  | watch id =>
      obtain ⟨w, hcommand⟩ := he
      simp only [after, hcommand]
      exact ⟨hs.named, hs.target, hs.chain, hs.phase⟩
  | insert id =>
      obtain ⟨w, hcommand⟩ := he
      simp only [after, hcommand]
      exact hs.add ha id w

theorem attached_after {e : WatchedBusEvent} (hs : b.Sound) (ha : b.Attached) (he : b.Enabled e)
    (htimely : b.Timely e) : (b.after e).Attached := by
  cases e with
  | link e =>
      cases hopening : b.opening with
      | false => exact ha.after_idle hs hopening he
      | true => exact ha.after_opening hopening he
  | registerAll => exact ha.registerAll hs he
  | getStatus id => exact ⟨ha.idle, ha.opening⟩
  | watch id =>
      obtain ⟨w, hcommand⟩ := he
      simp only [after, hcommand]
      exact ⟨ha.idle, ha.opening⟩
  | insert id =>
      obtain ⟨w, hcommand⟩ := he
      simp only [after, hcommand]
      exact ha.add hcommand htimely

/-- Outside of `on_bus_get` there is a connection exactly if the bus is up. -/
theorem Sound.isSome_of_established (h : b.Sound) (hidle : b.opening = false)
    (hup : b.link.connectStatus = 3 ∨ b.link.connectStatus = 4) : b.link.connection.isSome := by
  have hphase := h.phase
  rw [settled_of_idle hidle] at hphase
  obtain ⟨-, hfresh⟩ | ⟨-, hcoherent⟩ := hphase
  · have hdown := hfresh.status
    omega
  · exact hcoherent.up.mpr (by omega)

theorem Attached.current (ha : b.Attached) (hs : b.Sound) : b.Current where
  established hup hidle hopen w hw := by
    obtain ⟨conn, hconn⟩ := Option.isSome_iff_exists.mp (hs.isSome_of_established hidle hup)
    have hwatched : w.watchId = some conn :=
      calc w.watchId
          = b.due := ha.idle hidle w hw
        _ = b.link.connection := if_neg hopen
        _ = some conn := hconn
    exact ⟨conn, hwatched, hconn⟩
  down hnone w hw := by
    cases hopening : b.opening with
    | false => exact ha.unregistered hopening (.inl hnone) w hw
    | true =>
        have hsome := (ha.opening hopening).1
        rw [hnone] at hsome
        cases hsome

/-- **Watchers of the present connection.** In every run in which the watchers are inserted in time,
whenever the bus is up all watchers are registered on the connection that is there, and none is
registered when there is no connection. -/
theorem current_throughout {es : List WatchedBusEvent} (htimely : Along step Timely new es) :
    Throughout step Current new es := by
  apply throughout_of_guarded (I := fun b => b.Sound ∧ b.Attached) ?_ ?_ htimely
    ⟨sound_new, attached_new⟩
  · rintro b e b' ⟨hs, ha⟩ htimely hstep
    obtain ⟨henabled, rfl⟩ := step_eq_some.mp hstep
    exact ⟨sound_after hs ha henabled, attached_after hs ha henabled htimely⟩
  · rintro b ⟨hs, ha⟩
    exact ha.current hs

/-! ### Why in time -/

theorem Sound.established_of_connection (h : b.Sound) (hidle : b.opening = false)
    (hsome : b.link.connection ≠ none) :
    b.link.connectStatus = 3 ∨ b.link.connectStatus = 4 := by
  have hphase := h.phase
  rw [settled_of_idle hidle] at hphase
  obtain ⟨-, hfresh⟩ | ⟨-, hcoherent⟩ := hphase
  · exact absurd hfresh.connection hsome
  · have hstatus := hcoherent.up.mp (Option.isSome_iff_ne_none.mpr hsome)
    have hrange := hcoherent.range
    omega

theorem not_current_of_other {w : Watcher} (h : b.Sound) (hidle : b.opening = false)
    (hopen : ¬ b.Closing) (hw : w ∈ b.link.watchers) (hother : w.watchId ≠ b.link.connection) :
    ¬ b.Current := by
  intro hcurrent
  by_cases hnone : b.link.connection = none
  · exact hother ((hcurrent.down hnone w hw).trans hnone.symm)
  · obtain ⟨conn, hconn, hsame⟩ :=
      hcurrent.established (h.established_of_connection hidle hnone) hidle hopen w hw
    exact hother (hconn.trans hsame.symm)

/-- `RegisterWatchers` skips it. -/
theorem not_current_registerAll {w : Watcher} {conn : Nat} (h : b.Sound)
    (hopening : b.opening = true) (hsome : b.link.connection.isSome) (hquiet : b.link.closes = 0)
    (hw : w ∈ b.link.watchers) (hconn : w.watchId = some conn)
    (hother : b.link.connection ≠ some conn) :
    ¬ (b.after .registerAll).Current := by
  have hregistered : b.link.registerAll = _ := Link.registerAll_eq h.named hsome
  have hskipped : w.watch b.link.connection = w := by simp [Watcher.watch, hconn]
  apply not_current_of_other (w := w) (h.registerAll hopening hsome) rfl
  · simp only [Closing, after, hregistered, Link.closes]
    exact Nat.not_lt.mpr (Nat.le_of_eq hquiet)
  · simp only [after, hregistered]
    exact List.mem_map.mpr ⟨w, hw, hskipped⟩
  · simp only [after, hregistered, hconn]
    exact Ne.symm hother

/-- The close that is pending leaves no connection, and the watchers as they are. -/
theorem exists_closed (hs : b.Sound) (hidle : b.opening = false) (hclosing : b.Closing) :
    ∃ e, b.Enabled (.link e) ∧ (b.after (.link e)).link.connection = none ∧
      (b.after (.link e)).link.watchers = b.link.watchers := by
  by_cases hlost : 0 < b.link.nameLostCloses
  · refine ⟨.onNameLostClose,
      ⟨hlost, fun _ => hidle, rfl, fun hconnect => (by cases hconnect)⟩, ?_⟩
    simp only [after, Link.after, Link.onNameLostClose]
    split_ifs <;> exact ⟨rfl, rfl⟩
  · have hclose : 0 < b.link.disconnectCloses := by
      have hpending : 0 < b.link.nameLostCloses + b.link.disconnectCloses := hclosing
      omega
    have hchain := hs.chain
    rw [settled_of_idle hidle] at hchain
    have hwaits := (hchain.waits_of_carried (by omega)).1
    refine ⟨.onDisconnectClose,
      ⟨⟨hclose, ?_⟩, fun _ => hidle, rfl, fun hconnect => (by cases hconnect)⟩, ?_⟩
    · rw [hwaits.1]
      decide
    · simp only [after, Link.after, Link.onDisconnectClose]
      split_ifs with hsome
      · exact ⟨rfl, rfl⟩
      · exact ⟨Option.not_isSome_iff_eq_none.mp hsome, rfl⟩

theorem run_one {e : WatchedBusEvent} (he : b.Enabled e) : run step b [e] = some (b.after e) :=
  run_cons_eq_some.mpr ⟨_, step_eq_some.mpr ⟨he, rfl⟩, rfl⟩

/-- An insertion that is not in time is seen in the next state, or when the callback or the close
that is under way has ended. -/
theorem exists_not_current {id : Nat} (hs : b.Sound) (ha : b.Attached)
    (he : b.Enabled (.insert id)) (hnot : ¬ b.Timely (.insert id)) :
    ∃ es b', es.length ≤ 1 ∧
    run step (b.after (.insert id)) es = some b' ∧ ¬ b'.Current := by
  have hs' := sound_after hs ha he
  obtain ⟨w, hcommand⟩ := he
  have hafter : b.after (.insert id) = b.add id w := by simp [after, hcommand]
  rw [hafter] at hs' ⊢
  have hmem : w ∈ (b.add id w).link.watchers :=
    List.mem_append_right _ (List.mem_singleton.mpr rfl)
  have hhere : ¬ (b.add id w).Current → ∃ es b', es.length ≤ 1 ∧
      run step (b.add id w) es = some b' ∧ ¬ b'.Current :=
        fun h => ⟨[], _, Nat.zero_le _, rfl, h⟩
  obtain ⟨number, watchId⟩ := w
  simp only [Timely, hcommand] at hnot
  cases watchId with
  | none =>
      -- `RegisterWatchers` has been.
      simp only [Awaited, not_or, Bool.not_eq_true] at hnot
      obtain ⟨hsome, hopen, hidle⟩ := hnot
      exact hhere (not_current_of_other hs' hidle hopen hmem (Ne.symm hsome))
  | some conn =>
      cases hopening : b.opening with
      | true =>
          obtain ⟨hsome, hquiet, -⟩ := ha.opening hopening
          have hother : b.link.connection ≠ some conn := fun hsame =>
            hnot ⟨hsame, by simp [Closing, hquiet]⟩
          exact ⟨[.registerAll], _, Nat.le_refl _, run_one hopening,
            not_current_registerAll hs' hopening hsome hquiet hmem rfl hother⟩
      | false =>
          by_cases hclosing : b.Closing
          · obtain ⟨e, henabled, hdown, hwatchers⟩ := exists_closed hs' hopening hclosing
            refine ⟨[.link e], _, Nat.le_refl _, run_one henabled, fun hcurrent => ?_⟩
            have hnone := hcurrent.down hdown _ (hwatchers ▸ hmem)
            cases hnone
          · refine hhere (not_current_of_other hs' hopening hclosing hmem fun hsame => ?_)
            exact hnot ⟨hsame.symm, hclosing⟩

/-- The second watcher comes when the bus is up, and the bus is lost. -/
def inTime : List WatchedBusEvent :=
  [.link (.connect true), .link .doConnect, .getStatus 1, .insert 1, .link (.onBusGet true),
    .registerAll, .getStatus 2, .watch 2, .insert 2, .link (.onNameLost 0), .link .onNameLostClose]

instance decidableTimely (b : WatchedBus) : DecidablePred b.Timely
  | .insert id =>
      match hcommand : b.commands id with
      | .inserting ⟨_, none⟩ => decidable_of_iff
          (b.link.connection = none ∨ 0 < b.link.closes ∨ b.opening = true)
          (by simp only [Timely, hcommand, Awaited, Closing])
      | .inserting ⟨_, some conn⟩ => decidable_of_iff
          (b.link.connection = some conn ∧ ¬ 0 < b.link.closes)
          (by simp only [Timely, hcommand, Closing])
      | .absent | .watching _ => isTrue (by simp only [Timely, hcommand])
  | .link _ | .registerAll | .getStatus _ | .watch _ => isTrue trivial

theorem current_throughout_inTime :
    Along step Timely new inTime ∧ Throughout step Current new inTime :=
  have hall : Along step Timely new inTime := by decide
  ⟨hall, current_throughout hall⟩

/-- `WatchBusname` reads 2 and comes with `AddWatcher` when `on_bus_get` is over. -/
def missed : List WatchedBusEvent :=
  [.link (.connect true), .link .doConnect, .getStatus 1, .link (.onBusGet true), .registerAll,
    .insert 1]

theorem not_forall_current :
    ¬ ∀ es b, run step new es = some b → Throughout step Current new es := by
  intro h
  have hrun : (run step new missed).isSome := by decide
  obtain ⟨b, hb⟩ := Option.isSome_iff_exists.mp hrun
  have hfacts : ∀ b ∈ run step new missed, b.link.connectStatus = 3 ∧ b.opening = false ∧
      b.link.closes = 0 ∧ b.link.watchers = [⟨1, none⟩] := by
    decide
  obtain ⟨hup, hidle, hquiet, hwatchers⟩ := hfacts b hb
  have hopen : ¬ b.Closing := by simp [Closing, hquiet]
  obtain ⟨conn, hconn, -⟩ :=
    ((h missed b hb).last hb).established (.inl hup) hidle hopen ⟨1, none⟩
    (by rw [hwatchers]; exact List.mem_singleton.mpr rfl)
  cases hconn

end WatchedBus

end Dbus2vdr

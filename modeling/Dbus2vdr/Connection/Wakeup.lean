import Dbus2vdr.Connection.Link

/-!
# Waking the caller of `Disconnect`

`Disconnect` waits until `on_disconnect_close` sets `_disconnect_status` to 2. On the way there the
wake-up has exactly one carrier: the `do_flush` source, the flush, the `do_disconnect` source, or
the close. The first three need `_connection`, because GDBus ignores a flush or a close of `NULL`
and never calls back. So a wake-up that is not yet in the close is lost unless the handle is there,
or is still to come from a bus request or from a `do_connect` that will make one.

`canWake_iff` says that this is the whole story, and `caller_woken_iff` what it means for runs.
-/

namespace Dbus2vdr.Link

/-- What may carry the wake-up and still needs `_connection`. -/
def carriers (s : Link) : Nat :=
  s.doFlushSources + s.flushes + s.doDisconnectSources

/-! ### What holds at every callback boundary -/

structure HandleSound (s : Link) : Prop where
  up : 3 ≤ s.connectStatus → s.connection.isSome
  down : s.connectStatus = 0 → s.connection = none ∨ 0 < s.doConnectSources

/-- Carriers of a wake-up exist only while `Disconnect` waits for it, and then at most one. -/
structure ChainSound (s : Link) : Prop where
  outside : s.caller ≠ .holding → s.caller ≠ .waiting →
    s.disconnectStatus = 0 ∧ s.carriers + s.disconnectCloses = 0
  holding : s.caller = .holding →
    s.reconnect = false ∧ s.disconnectStatus = 1 ∧ s.carriers + s.disconnectCloses = 0
  waiting : s.caller = .waiting → s.reconnect = false ∧
    (s.disconnectStatus = 1 ∧ s.carriers + s.disconnectCloses ≤ 1 ∨
      s.disconnectStatus = 2 ∧ s.carriers + s.disconnectCloses = 0)

theorem handleSound_new (target : BusTarget) (named : Bool) : (new target named).HandleSound :=
  ⟨by simp [new], by simp [new]⟩

theorem chainSound_new (target : BusTarget) (named : Bool) : (new target named).ChainSound :=
  ⟨by simp [new, carriers], by simp [new], by simp [new]⟩

theorem HandleSound.onNameLostClose {s : Link} : s.onNameLostClose.HandleSound := by
  unfold Link.onNameLostClose
  dsimp only
  split_ifs <;> constructor <;> simp [Link.connect]

theorem HandleSound.onDisconnectClose {s : Link} (hs : s.HandleSound) :
    s.onDisconnectClose.HandleSound := by
  unfold Link.onDisconnectClose
  split_ifs
  · constructor <;> simp
  · exact { hs with }

theorem HandleSound.release {s : Link} (hs : s.HandleSound) : s.release.HandleSound := by
  rw [Link.release_eq]
  exact { hs with }

theorem HandleSound.after_doReconnect {s : Link} (hs : s.HandleSound) :
    (s.after .doReconnect).HandleSound := by
  simp only [Link.after, Link.doReconnect, requestBus, endReconnect]
  split_ifs with hquiet hthree hone
  · exact { hs with }
  · exact
      { up := fun _ => hs.up (Nat.le_of_eq hthree.symm)
        down := fun hstatus => by cases hstatus }
  · constructor <;> simp
  · constructor <;> simp
  · exact hs
  · exact { hs with }

theorem HandleSound.after {s : Link} {e : LinkEvent} (hs : s.HandleSound) :
    (s.after e).HandleSound := by
  cases e with
  | disconnectEnter | disconnectMark | disconnectReturn | busClosed | addObject | addWatcher | watch
  | unwatch => exact { hs with }
  | connect autoReconnect => constructor <;> simp [Link.after, Link.connect]
  | disconnectAttach =>
      simp only [Link.after, disconnectAttach]
      split_ifs <;> exact { hs with }
  | doConnect =>
      -- the only callback that takes a `do_connect` source off, and then the status is not 0
      simp only [Link.after, doConnect, requestBus]
      split_ifs with hzero
      · constructor <;> simp
      · constructor <;> simp
      · exact { hs with down := fun hstatus => absurd hstatus hzero }
  | doReconnect => exact hs.after_doReconnect
  | onBusGet ok =>
      simp only [Link.after, onBusGet, registerObjects, registerWatchers, ownName]
      split_ifs <;> constructor <;> simp
  | onNameLost owner =>
      simp only [Link.after, onNameLost]
      split_ifs
      · exact { hs.release with }
      · exact hs.release
      · exact HandleSound.onNameLostClose
  | onNameLostClose => exact HandleSound.onNameLostClose
  | doFlush =>
      simp only [Link.after, doFlush]
      split_ifs <;> exact { hs with }
  | onFlush =>
      simp only [Link.after, onFlush]
      split_ifs <;> exact { hs with }
  | doDisconnect =>
      have hdispatch : HandleSound { s with doDisconnectSources := s.doDisconnectSources - 1 } :=
        { hs with }
      simp only [Link.after, doDisconnect]
      split_ifs
      · exact { hdispatch.release with }
      · exact hdispatch.release
      · exact hdispatch.release.onDisconnectClose
  | onDisconnectClose =>
      have hdispatch : HandleSound { s with disconnectCloses := s.disconnectCloses - 1 } :=
        { hs with }
      exact hdispatch.onDisconnectClose

/-! ### How the wake-up travels -/

def Waits (s : Link) : Prop :=
  s.caller = .waiting ∧ s.disconnectStatus = 1

theorem ChainSound.waits_of_carried {s : Link} (hs : s.ChainSound)
    (hcarried : 0 < s.carriers + s.disconnectCloses) :
    s.Waits ∧ s.carriers + s.disconnectCloses = 1 := by
  by_cases hcaller : s.caller = .waiting
  · have hwaiting := hs.waiting hcaller
    exact ⟨⟨hcaller, by omega⟩, by omega⟩
  · by_cases hholding : s.caller = .holding
    · have := hs.holding hholding
      omega
    · have := hs.outside hholding hcaller
      omega

/-- Most callbacks leave `Disconnect` where it is and at most move the wake-up along. -/
theorem ChainSound.pass {s s' : Link} (hs : s.ChainSound) (hcaller : s'.caller = s.caller)
    (hstatus : s'.disconnectStatus = s.disconnectStatus)
    (hreconnect : s.reconnect = false → s'.reconnect = false)
    (hpassed : s'.carriers + s'.disconnectCloses ≤ s.carriers + s.disconnectCloses) :
    s'.ChainSound where
  outside := by
    rw [hcaller, hstatus]
    intro hholding hwaiting
    have := hs.outside hholding hwaiting
    omega
  holding := by
    rw [hcaller, hstatus]
    intro hholding
    obtain ⟨hquiet, hone, hnone⟩ := hs.holding hholding
    exact ⟨hreconnect hquiet, hone, by omega⟩
  waiting := by
    rw [hcaller, hstatus]
    intro hwaiting
    obtain ⟨hquiet, hchain⟩ := hs.waiting hwaiting
    exact ⟨hreconnect hquiet, by omega⟩

/-- `on_disconnect_close` finds the caller waiting, and there is no other carrier. -/
theorem ChainSound.wake {s s' : Link} (hs : s.ChainSound) (hcaller : s'.caller = s.caller)
    (hreconnect : s'.reconnect = s.reconnect) (hwoken : s'.disconnectStatus = 2)
    (harrived : s'.carriers + s'.disconnectCloses + 1 = s.carriers + s.disconnectCloses) :
    s'.ChainSound := by
  obtain ⟨⟨hwaiting, -⟩, hone⟩ := hs.waits_of_carried (by omega)
  rw [hwaiting] at hcaller
  exact
    { outside := fun _ hnot => absurd hcaller hnot
      holding := fun hholding => by cases hcaller.symm.trans hholding
      waiting := fun _ =>
        ⟨hreconnect.trans (hs.waiting hwaiting).1, .inr ⟨hwoken, by omega⟩⟩ }

theorem ChainSound.of_outside {s : Link} (hholding : s.caller ≠ .holding)
    (hwaiting : s.caller ≠ .waiting)
    (hidle : s.disconnectStatus = 0 ∧ s.carriers + s.disconnectCloses = 0) : s.ChainSound where
  outside _ _ := hidle
  holding h := absurd h hholding
  waiting h := absurd h hwaiting

theorem ChainSound.idle {s : Link} (hs : s.ChainSound)
    (houtside : s.caller = .away ∨ s.caller = .returned) :
    s.disconnectStatus = 0 ∧ s.carriers + s.disconnectCloses = 0 := by
  rcases houtside with haway | hreturned
  · exact hs.outside (by simp [haway]) (by simp [haway])
  · exact hs.outside (by simp [hreturned]) (by simp [hreturned])

theorem ChainSound.after_disconnectMark {s : Link} (hs : s.ChainSound)
    (he : s.Enabled .disconnectMark) : (s.after .disconnectMark).ChainSound := by
  have hentered : s.caller = .entered := he
  have hidle := hs.outside (by simp [hentered]) (by simp [hentered])
  exact
    { outside := fun hnot => absurd rfl hnot
      holding := fun _ => ⟨rfl, rfl, hidle.2⟩
      waiting := fun hwaiting => by cases hwaiting }

theorem ChainSound.after_disconnectAttach {s : Link} (hs : s.ChainSound)
    (he : s.Enabled .disconnectAttach) : (s.after .disconnectAttach).ChainSound := by
  obtain ⟨hquiet, hstatus, hnone⟩ := hs.holding he
  unfold carriers at hnone
  simp only [Link.after, disconnectAttach]
  split_ifs
  all_goals
    exact
      { outside := fun _ hnot => absurd rfl hnot
        holding := fun hholding => by cases hholding
        waiting := fun _ => ⟨hquiet, .inl ⟨hstatus, by simp only [carriers]; omega⟩⟩ }

theorem ChainSound.after_disconnectReturn {s : Link} (hs : s.ChainSound)
    (he : s.Enabled .disconnectReturn) : (s.after .disconnectReturn).ChainSound := by
  obtain ⟨hwaiting, hwoken⟩ := he
  obtain ⟨-, hchain⟩ := hs.waiting hwaiting
  have hnone : s.carriers + s.disconnectCloses = 0 := by omega
  exact ChainSound.of_outside (by simp [Link.after, disconnectReturn])
    (by simp [Link.after, disconnectReturn]) ⟨rfl, hnone⟩

theorem ChainSound.onNameLostClose {s : Link} (hs : s.ChainSound) :
    s.onNameLostClose.ChainSound := by
  unfold Link.onNameLostClose
  dsimp only
  by_cases hreconnect : s.reconnect = true
  · -- `Connect(TRUE)` sets `_reconnect`, which it finds set already
    rw [if_pos hreconnect]
    exact hs.pass rfl rfl (fun hquiet => by cases hreconnect.symm.trans hquiet) (Nat.le_refl _)
  · rw [if_neg hreconnect]
    exact hs.pass rfl rfl id (Nat.le_refl _)

theorem ChainSound.release {s : Link} (hs : s.ChainSound) : s.release.ChainSound := by
  rw [Link.release_eq]
  exact hs.pass rfl rfl id (Nat.le_refl _)

theorem ChainSound.after_onNameLost {s : Link} {owner : Nat} (hs : s.ChainSound) :
    (s.after (.onNameLost owner)).ChainSound := by
  simp only [Link.after, Link.onNameLost]
  split_ifs
  · exact hs.release.pass rfl rfl id (Nat.le_refl _)
  · exact hs.release
  · exact hs.release.onNameLostClose

theorem ChainSound.after_doFlush {s : Link} (hs : s.ChainSound) (he : s.Enabled .doFlush) :
    (s.after .doFlush).ChainSound := by
  simp only [Enabled] at he
  simp only [Link.after, doFlush]
  split_ifs
  all_goals exact hs.pass rfl rfl id (by simp only [carriers]; omega)

theorem ChainSound.after_onFlush {s : Link} (hs : s.ChainSound) (he : s.Enabled .onFlush) :
    (s.after .onFlush).ChainSound := by
  simp only [Enabled] at he
  simp only [Link.after, onFlush]
  split_ifs
  all_goals exact hs.pass rfl rfl id (by simp only [carriers]; omega)

theorem ChainSound.after_doDisconnect {s : Link} (hs : s.ChainSound)
    (he : s.Enabled .doDisconnect) : (s.after .doDisconnect).ChainSound := by
  simp only [Enabled] at he
  simp only [Link.after, doDisconnect, release_eq, closeConnection]
  by_cases haddress : s.target = .address
  · rw [if_pos haddress]
    split_ifs
    all_goals exact hs.pass rfl rfl id (by simp only [carriers]; omega)
  · rw [if_neg haddress]
    simp only [onDisconnectClose]
    split_ifs
    all_goals exact hs.wake rfl rfl rfl (by simp only [carriers]; omega)

theorem ChainSound.after_onDisconnectClose {s : Link} (hs : s.ChainSound)
    (he : s.Enabled .onDisconnectClose) : (s.after .onDisconnectClose).ChainSound := by
  simp only [Enabled] at he
  simp only [Link.after, onDisconnectClose]
  split_ifs
  all_goals exact hs.wake rfl rfl rfl (by simp only [carriers]; omega)

theorem ChainSound.after {s : Link} {e : LinkEvent} (hs : s.ChainSound) (he : s.Enabled e) :
    (s.after e).ChainSound := by
  cases e with
  | busClosed | addObject | addWatcher | watch | unwatch =>
      exact hs.pass rfl rfl id (Nat.le_refl _)
  | connect autoReconnect =>
      exact ChainSound.of_outside (by simp [Link.after]) (by simp [Link.after]) (hs.idle he)
  | disconnectEnter =>
      refine ChainSound.of_outside ?_ ?_ (hs.idle he)
      all_goals
        simp only [Link.after, disconnectEnter]
        split_ifs <;> simp
  | disconnectMark => exact hs.after_disconnectMark he
  | disconnectAttach => exact hs.after_disconnectAttach he
  | disconnectReturn => exact hs.after_disconnectReturn he
  | doConnect =>
      simp only [Link.after, doConnect, requestBus]
      split_ifs <;> exact hs.pass rfl rfl id (Nat.le_refl _)
  | doReconnect =>
      simp only [Link.after, doReconnect, requestBus, endReconnect]
      split_ifs <;> exact hs.pass rfl rfl id (Nat.le_refl _)
  | onBusGet ok =>
      simp only [Link.after, onBusGet, registerObjects, registerWatchers, ownName]
      split_ifs <;> exact hs.pass rfl rfl id (Nat.le_refl _)
  | onNameLost owner => exact hs.after_onNameLost
  | onNameLostClose =>
      have hdispatch : ChainSound { s with nameLostCloses := s.nameLostCloses - 1 } :=
        hs.pass rfl rfl id (Nat.le_refl _)
      exact hdispatch.onNameLostClose
  | doFlush => exact hs.after_doFlush he
  | onFlush => exact hs.after_onFlush he
  | doDisconnect => exact hs.after_doDisconnect he
  | onDisconnectClose => exact hs.after_onDisconnectClose he

@[simp]
theorem after_target (s : Link) (e : LinkEvent) : (s.after e).target = s.target := by
  cases e with
  | busClosed | addObject | addWatcher | watch | unwatch => rfl
  | _ =>
      simp only [Link.after, connect, disconnectEnter, disconnectMark, disconnectAttach,
        disconnectReturn, doConnect, doReconnect, requestBus, endReconnect, onBusGet,
        registerObjects, registerWatchers, ownName, onNameLost, onNameLostClose, doFlush, onFlush,
        doDisconnect, onDisconnectClose, release_eq, closeConnection]
      try split_ifs <;> rfl

theorem after_caller_of_dispatched {s : Link} {e : LinkEvent} (hdispatched : e.dispatched) :
    (s.after e).caller = s.caller := by
  cases e with
  | connect | disconnectEnter | disconnectMark | disconnectAttach | disconnectReturn | busClosed
  | addObject | addWatcher | watch | unwatch => cases hdispatched
  | _ =>
      simp only [Link.after, connect, doConnect, doReconnect, requestBus, endReconnect, onBusGet,
        registerObjects, registerWatchers, ownName, onNameLost, onNameLostClose, doFlush, onFlush,
        doDisconnect, onDisconnectClose, release_eq, closeConnection]
      split_ifs <;> rfl

/-! ### When the wake-up can still arrive -/

/-- The main loop can still get to `on_disconnect_close`, which sets `_disconnect_status` to 2. -/
def CanWake (s : Link) : Prop :=
  ∃ s', Machine.Leads step (fun e => e.dispatched) s s' ∧ s'.disconnectStatus = 2

/-- `_connection` is set, or a bus request is under way, or `do_connect` will make one. -/
def HandleComing (s : Link) : Prop :=
  s.connection.isSome ∨ 0 < s.busGets ∨ (s.connectStatus = 0 ∧ 0 < s.doConnectSources)

instance (s : Link) : Decidable s.HandleComing :=
  inferInstanceAs (Decidable (_ ∨ _ ∨ _))

section Ways

variable {s : Link}

theorem CanWake.of_step {e : LinkEvent} (hdispatched : e.dispatched) (henabled : s.Enabled e)
    (h : (s.after e).CanWake) : s.CanWake := by
  obtain ⟨s', hleads, hwoken⟩ := h
  exact ⟨s', hleads.head hdispatched (step_eq_some.mpr ⟨henabled, rfl⟩), hwoken⟩

theorem canWake_of_close (hcaller : s.caller = .waiting) (hclose : 0 < s.disconnectCloses) :
    s.CanWake := by
  apply CanWake.of_step (e := .onDisconnectClose) rfl ⟨hclose, by simp [hcaller]⟩
  exact ⟨_, Machine.Leads.refl _, rfl⟩

theorem canWake_of_doDisconnect (htarget : s.target = .address) (hcaller : s.caller = .waiting)
    (hsource : 0 < s.doDisconnectSources) (hhandle : s.connection.isSome) : s.CanWake := by
  apply CanWake.of_step (e := .doDisconnect) rfl ⟨hsource, by simp [hcaller]⟩
  obtain ⟨conn, hconn⟩ := Option.isSome_iff_exists.mp hhandle
  apply canWake_of_close <;> simp [Link.after, doDisconnect, release_eq, closeConnection, htarget,
    hconn, hcaller]

theorem canWake_of_flush (htarget : s.target = .address) (hcaller : s.caller = .waiting)
    (hstatus : s.disconnectStatus = 1) (hflush : 0 < s.flushes)
    (hhandle : s.connection.isSome) : s.CanWake := by
  apply CanWake.of_step (e := .onFlush) rfl ⟨hflush, by simp [hcaller]⟩
  apply canWake_of_doDisconnect <;> simp [Link.after, onFlush, hstatus, htarget, hcaller, hhandle]

theorem canWake_of_doFlush (htarget : s.target = .address) (hcaller : s.caller = .waiting)
    (hstatus : s.disconnectStatus = 1) (hsource : 0 < s.doFlushSources)
    (hhandle : s.connection.isSome) : s.CanWake := by
  apply CanWake.of_step (e := .doFlush) rfl hsource
  apply canWake_of_flush <;> simp [Link.after, doFlush, hstatus, htarget, hcaller, hhandle]

theorem canWake_of_handle (htarget : s.target = .address) (hwaits : s.Waits)
    (hcarried : 0 < s.carriers) (hhandle : s.connection.isSome) : s.CanWake := by
  obtain ⟨hcaller, hstatus⟩ := hwaits
  have hsome : 0 < s.doFlushSources ∨ 0 < s.flushes ∨ 0 < s.doDisconnectSources := by
    unfold carriers at hcarried
    omega
  rcases hsome with hsource | hflush | hsource
  · exact canWake_of_doFlush htarget hcaller hstatus hsource hhandle
  · exact canWake_of_flush htarget hcaller hstatus hflush hhandle
  · exact canWake_of_doDisconnect htarget hcaller hsource hhandle

theorem canWake_of_busGet (htarget : s.target = .address) (hwaits : s.Waits)
    (hcarried : 0 < s.carriers) (hrequest : 0 < s.busGets) : s.CanWake := by
  have hafter : s.after (.onBusGet true) =
      { (s.after (.onBusGet true)) with
        target := s.target, caller := s.caller, disconnectStatus := s.disconnectStatus
        doFlushSources := s.doFlushSources, flushes := s.flushes
        doDisconnectSources := s.doDisconnectSources, connection := some s.made } := by
    simp only [Link.after, onBusGet, registerObjects, registerWatchers, ownName]
    split_ifs <;> rfl
  apply CanWake.of_step (e := .onBusGet true) rfl hrequest
  rw [hafter]
  exact canWake_of_handle htarget hwaits hcarried rfl

theorem canWake_of_coming (htarget : s.target = .address) (hwaits : s.Waits)
    (hcarried : 0 < s.carriers) (hcoming : s.HandleComing) : s.CanWake := by
  rcases hcoming with hhandle | hrequest | ⟨hdown, hsource⟩
  · exact canWake_of_handle htarget hwaits hcarried hhandle
  · exact canWake_of_busGet htarget hwaits hcarried hrequest
  · apply CanWake.of_step (e := .doConnect) rfl hsource
    have hafter : s.after .doConnect =
        { s with
          connectStatus := 2, busGets := s.busGets + 1
          doConnectSources := s.doConnectSources - 1
          doReconnectSources := s.doReconnectSources + 1 } := by
      simp [Link.after, doConnect, requestBus, hdown, htarget]
    rw [hafter]
    exact canWake_of_busGet htarget hwaits hcarried (Nat.succ_pos _)

end Ways

/-- The caller waits, and no order of callbacks gets to `on_disconnect_close` any more: there is no
close, and a carrier, if one is left, will find `_connection` to be `NULL`. -/
structure Stuck (s : Link) : Prop where
  target : s.target = .address
  status : s.disconnectStatus = 1
  gaveUp : s.reconnect = false
  up : 3 ≤ s.connectStatus → s.connection.isSome
  noClose : s.disconnectCloses = 0
  noHandle : 0 < s.carriers → ¬ s.HandleComing

theorem Stuck.release {s : Link} (hs : s.Stuck) : s.release.Stuck := by
  rw [Link.release_eq]
  exact { hs with }

/-- A carrier that is dispatched finds no connection. -/
theorem Stuck.connection_eq_none {s : Link} (hs : s.Stuck) (hcarried : 0 < s.carriers) :
    ¬ s.connection.isSome :=
  fun hsome => hs.noHandle hcarried (.inl hsome)

theorem Stuck.after_doConnect {s : Link} (hs : s.Stuck) (he : s.Enabled .doConnect) :
    (s.after .doConnect).Stuck := by
  simp only [Link.after, doConnect, requestBus]
  split_ifs with hzero htarget
  · exact absurd (hs.target.symm.trans htarget) (by decide)
  · exact
      { hs with
        up := fun hup => absurd (show 3 ≤ 2 from hup) (by decide)
        noHandle := fun hcarried => absurd (.inr (.inr ⟨hzero, he⟩)) (hs.noHandle hcarried) }
  · exact
      { hs with
        noHandle := fun hcarried hcoming => hs.noHandle hcarried
          (hcoming.imp_right (.imp_right fun h => absurd h.1 hzero)) }

/-- A request that is under way means that no carrier is left. -/
theorem Stuck.after_onBusGet {s : Link} {ok : Bool} (hs : s.Stuck)
    (he : s.Enabled (.onBusGet ok)) : (s.after (.onBusGet ok)).Stuck := by
  have hidle : ¬ 0 < s.carriers := fun hcarried => hs.noHandle hcarried (.inr (.inl he))
  simp only [Link.after, onBusGet, registerObjects, registerWatchers, ownName, Option.isSome_some,
    if_true]
  split_ifs
  · exact { hs with up := fun _ => rfl, noHandle := fun hcarried => absurd hcarried hidle }
  · exact { hs with up := fun _ => rfl, noHandle := fun hcarried => absurd hcarried hidle }
  · exact
      { hs with
        up := fun hup => absurd (show 3 ≤ 1 from hup) (by decide)
        noHandle := fun hcarried => absurd hcarried hidle }

theorem Stuck.after_onNameLostClose {s : Link} (hs : s.Stuck) :
    (s.after .onNameLostClose).Stuck := by
  have hdown : (if s.connectStatus = 4 then 0 else 1) ≤ 1 := by split_ifs <;> simp
  rw [Link.after, onNameLostClose, if_neg (by simp [hs.gaveUp])]
  exact
    { hs with
      up := fun hup => absurd (Nat.le_trans hup hdown) (by decide)
      noHandle := fun hcarried hcoming => by
        -- the status goes to 0 only from 4, and then the connection was there
        rcases hcoming with hsome | hrequest | ⟨hzero, -⟩
        · cases hsome
        · exact hs.noHandle hcarried (.inr (.inl hrequest))
        · have hfour : s.connectStatus = 4 := by
            by_contra hnot
            simp [hnot] at hzero
          exact hs.connection_eq_none hcarried (hs.up (by omega)) }

theorem Stuck.after {s : Link} {e : LinkEvent} (hs : s.Stuck) (hdispatched : e.dispatched)
    (he : s.Enabled e) : (s.after e).Stuck := by
  cases e with
  | connect | disconnectEnter | disconnectMark | disconnectAttach | disconnectReturn | busClosed
  | addObject | addWatcher | watch | unwatch => cases hdispatched
  | onDisconnectClose =>
      have hnoClose := hs.noClose
      exact absurd he.1 (by omega)
  | doConnect => exact hs.after_doConnect he
  | doReconnect =>
      rw [Link.after, doReconnect, if_pos (by simp [hs.gaveUp])]
      exact { hs with }
  | onBusGet ok => exact hs.after_onBusGet he
  | onNameLost owner =>
      simp only [Link.after, onNameLost]
      split_ifs with haddress
      · exact { hs.release with }
      · exact hs.release
      · exact absurd hs.release.target haddress
  | onNameLostClose => exact hs.after_onNameLostClose
  | doFlush =>
      simp only [Enabled] at he
      have hcarried : 0 < s.carriers := by unfold carriers; omega
      rw [Link.after, doFlush, if_neg (hs.connection_eq_none hcarried)]
      exact { hs with noHandle := fun _ => hs.noHandle hcarried }
  | onFlush =>
      simp only [Enabled] at he
      have hcarried : 0 < s.carriers := by unfold carriers; omega
      rw [Link.after, onFlush, if_neg (by simp [hs.status])]
      exact { hs with noHandle := fun _ => hs.noHandle hcarried }
  | doDisconnect =>
      simp only [Enabled] at he
      have hcarried : 0 < s.carriers := by unfold carriers; omega
      simp only [Link.after, doDisconnect, release_eq]
      rw [if_pos hs.target, if_neg (hs.connection_eq_none hcarried)]
      exact { hs with noHandle := fun _ => hs.noHandle hcarried }

theorem Stuck.not_canWake {s : Link} (hs : s.Stuck) : ¬ s.CanWake := by
  rintro ⟨s', hleads, hwoken⟩
  have hend : s'.Stuck := by
    refine hleads.keeps (fun t e t' ht hdispatched hstep => ?_) hs
    obtain ⟨henabled, rfl⟩ := step_eq_some.mp hstep
    exact ht.after hdispatched henabled
  exact absurd hend.status (by omega)

/-- **The wake-up.** A caller that waits can be woken exactly if the close is under way, or a
carrier is left and the handle it needs is there or still to come. -/
theorem canWake_iff {s : Link} (htarget : s.target = .address) (hhandle : s.HandleSound)
    (hchain : s.ChainSound) (hwaits : s.Waits) :
    s.CanWake ↔ 0 < s.disconnectCloses ∨ (0 < s.carriers ∧ s.HandleComing) := by
  constructor
  · intro hcan
    by_contra hnot
    obtain ⟨hnoClose, hnoWay⟩ := not_or.mp hnot
    have hstuck : s.Stuck :=
      { target := htarget
        status := hwaits.2
        gaveUp := (hchain.waiting hwaits.1).1
        up := hhandle.up
        noClose := by omega
        noHandle := fun hcarried hcoming => hnoWay ⟨hcarried, hcoming⟩ }
    exact hstuck.not_canWake hcan
  · rintro (hclose | ⟨hcarried, hcoming⟩)
    · exact canWake_of_close hwaits.1 hclose
    · exact canWake_of_coming htarget hwaits hcarried hcoming

end Dbus2vdr.Link

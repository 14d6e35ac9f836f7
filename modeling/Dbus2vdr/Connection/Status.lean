import Dbus2vdr.Connection.Wakeup

/-!
# What `_connect_status` says

An owner that calls `Connect` once and then at most `Disconnect` can rely on `_connect_status`: 3
and 4 mean that `_connection` is there, 2 that one bus request is under way, and whatever was
registered or owned was so on that `_connection`. Two closes may be under way at a time, the one of
`on_name_lost` and the one of `Disconnect`, and either of them may find that the other has cleared
`_connection` already; what keeps a third connection from coming up in between is that `Disconnect`
has switched `_reconnect` off by then.

A second `Connect` breaks all of it: it sets the status to 0 whatever the connection is at.
-/

namespace Dbus2vdr

def LinkEvent.isConnect : LinkEvent → Bool
  | .connect _ => true
  | _ => false

namespace Link

/-- Before `Connect`: nothing was started yet, and `Disconnect` returns at once. -/
structure Fresh (s : Link) : Prop where
  status : s.connectStatus = 0
  connection : s.connection = none
  doConnect : s.doConnectSources = 0
  doReconnect : s.doReconnectSources = 0
  busGet : s.busGets = 0
  nameLostClose : s.nameLostCloses = 0
  disconnectClose : s.disconnectCloses = 0
  noCarrier : s.carriers = 0
  owner : s.ownerId = none
  owned : s.owned = []
  objects : ∀ o ∈ s.objects, o = none
  outside : s.caller = .away ∨ s.caller = .returned

/-- After the only `Connect`. A close that is under way leaves nothing to be registered or requested
behind its back: the connection is still there, or none will be made any more. -/
structure Coherent (s : Link) : Prop where
  range : s.connectStatus ≤ 4
  up : s.connection.isSome ↔ 3 ≤ s.connectStatus
  request : s.busGets = if s.connectStatus = 2 ∧ s.target ≠ .nowhere then 1 else 0
  start : s.doConnectSources = 0 ∨ (s.doConnectSources = 1 ∧ s.connectStatus = 0)
  owned : s.owned = s.ownerId.toList
  owner : s.ownerId = none ∨ s.ownerId = s.connection
  objects : ∀ o ∈ s.objects, o = none ∨ o = s.connection
  unnamed : s.named = false → s.ownerId = none ∧ ∀ o ∈ s.objects, o = none
  oneLoss : s.nameLostCloses ≤ 1
  closing : 0 < s.nameLostCloses + s.disconnectCloses →
    s.ownerId = none ∧ (∀ o ∈ s.objects, o = none) ∧ s.doConnectSources = 0 ∧
      s.connectStatus ≠ 2 ∧ (s.connection.isSome ∨ s.reconnect = false)

theorem fresh_new (target : BusTarget) (named : Bool) : (new target named).Fresh := by
  constructor <;> simp [new, carriers]

theorem Fresh.after {s : Link} {e : LinkEvent} (hs : s.Fresh) (he : s.Enabled e)
    (hother : ¬ e.isConnect) : (s.after e).Fresh := by
  cases e with
  | connect => exact absurd rfl hother
  | disconnectEnter =>
      simp only [Link.after, disconnectEnter, if_pos hs.status]
      exact { hs with outside := .inr rfl }
  | addObject =>
      refine { hs with objects := fun o ho => ?_ }
      rcases List.mem_append.mp ho with hold | hnew
      · exact hs.objects o hold
      · exact List.mem_singleton.mp hnew
  | busClosed | addWatcher | watch | unwatch => exact { hs with }
  | disconnectMark | disconnectAttach | disconnectReturn =>
      rcases hs.outside with h | h <;> simp [Enabled, h] at he
  | onNameLost owner =>
      simp only [Enabled, hs.owned] at he
      cases he
  | _ =>
      -- no source is attached, and no call is under way
      obtain ⟨-, -, hdoConnect, hdoReconnect, hbusGet, hnameLost, hclose, hcarriers, -⟩ := hs
      unfold carriers at hcarriers
      simp only [Enabled] at he
      omega

theorem Fresh.connect {s : Link} (hs : s.Fresh) (autoReconnect : Bool) :
    (s.after (.connect autoReconnect)).Coherent where
  range := Nat.zero_le 4
  up := by simp [Link.after, Link.connect, hs.connection]
  request := by simp [Link.after, Link.connect, hs.busGet]
  start := .inr ⟨by simp [Link.after, Link.connect, hs.doConnect], rfl⟩
  owned := by simp [Link.after, Link.connect, hs.owned, hs.owner]
  owner := .inl hs.owner
  objects := fun o ho => .inl (hs.objects o ho)
  unnamed := fun _ => ⟨hs.owner, hs.objects⟩
  oneLoss := by simp [Link.after, Link.connect, hs.nameLostClose]
  closing := fun hclose => by
    simp [Link.after, Link.connect, hs.nameLostClose, hs.disconnectClose] at hclose

theorem Coherent.status_of_request {s : Link} (hs : s.Coherent) (hrequest : 0 < s.busGets) :
    s.connectStatus = 2 ∧ s.busGets = 1 := by
  rw [hs.request] at hrequest
  rw [hs.request]
  split_ifs at hrequest with h
  · exact ⟨h.1, if_pos h⟩
  · exact absurd hrequest (Nat.lt_irrefl 0)

theorem Coherent.target_of_request {s : Link} (hs : s.Coherent) (hrequest : 0 < s.busGets) :
    s.target ≠ .nowhere := by
  intro hnowhere
  rw [hs.request, if_neg fun h => h.2 hnowhere] at hrequest
  exact absurd hrequest (Nat.lt_irrefl 0)

theorem Coherent.connection_eq_none {s : Link} (hs : s.Coherent) (hdown : s.connectStatus < 3) :
    s.connection = none := by
  rw [← Option.not_isSome_iff_eq_none, hs.up]
  omega

theorem Coherent.owned_eq_nil {s : Link} (hs : s.Coherent) (hdown : s.connectStatus < 3) :
    s.owned = [] := by
  have howner := hs.owner
  rw [hs.connection_eq_none hdown, or_self] at howner
  rw [hs.owned, howner, Option.toList_none]

/-- Whatever was registered or owned is on the present connection, so that all of it is released. -/
theorem Coherent.release_eq {s : Link} (hs : s.Coherent) :
    ∃ watchers objects, (∀ o ∈ objects, o = none) ∧
      s.release = { s with watchers, objects, ownerId := none, owned := [] } := by
  have howned : s.unownName.owned = [] := by
    rw [unownName, hs.owned]
    cases s.ownerId <;> simp
  refine ⟨_, _, ?_, by rw [Link.release_eq, howned]⟩
  intro o ho
  cases hnamed : s.named with
  | false =>
      simp only [hnamed, Bool.false_eq_true, if_false] at ho
      exact (hs.unnamed hnamed).2 o ho
  | true =>
      simp only [hnamed, if_true, unregisterObjects] at ho
      cases hconnection : s.connection with
      | none =>
          simp only [hconnection, Option.isSome_none, Bool.false_eq_true, if_false] at ho
          simpa [hconnection] using hs.objects o ho
      | some conn =>
          simp only [hconnection, Option.isSome_some, if_true, List.mem_map] at ho
          obtain ⟨-, -, rfl⟩ := ho
          rfl

/-! ### What the callbacks do to it -/

theorem Coherent.no_request {s : Link} (hs : s.Coherent) (hstatus : s.connectStatus ≠ 2) :
    s.busGets = 0 := by
  rw [hs.request, if_neg fun h => hstatus h.1]

theorem Coherent.no_start {s : Link} (hs : s.Coherent) (hstatus : s.connectStatus ≠ 0) :
    s.doConnectSources = 0 := by
  rcases hs.start with hnone | ⟨-, hzero⟩
  · exact hnone
  · exact absurd hzero hstatus

/-- Only a close leaves the status at 0 or 1 behind a name that is still owned. -/
theorem Coherent.not_closing {s : Link} (hs : s.Coherent) (howned : s.owned ≠ []) :
    ¬ 0 < s.nameLostCloses + s.disconnectCloses := by
  intro hclose
  rw [hs.owned, (hs.closing hclose).1] at howned
  exact howned rfl

theorem Coherent.release {s : Link} (hs : s.Coherent) :
    s.release.Coherent ∧ s.release.ownerId = none ∧ ∀ o ∈ s.release.objects, o = none := by
  obtain ⟨watchers, objects, hnone, hrelease⟩ := hs.release_eq
  rw [hrelease]
  refine ⟨?_, rfl, hnone⟩
  exact
    { hs with
      owned := rfl
      owner := .inl rfl
      objects := fun o ho => .inl (hnone o ho)
      unnamed := fun _ => ⟨rfl, hnone⟩
      closing := fun hclose => ⟨rfl, hnone, (hs.closing hclose).2.2⟩ }

/-- Of what is left after a release, `on_name_lost_close` takes the connection. -/
theorem Coherent.onNameLostClose {s : Link} (hs : s.Coherent) (howner : s.ownerId = none)
    (hobjects : ∀ o ∈ s.objects, o = none) (hstart : s.doConnectSources = 0)
    (hstatus : s.connectStatus ≠ 2)
    (hquiet : 0 < s.nameLostCloses + s.disconnectCloses → s.reconnect = false) :
    s.onNameLostClose.Coherent := by
  have hrequest := hs.no_request hstatus
  have hdown : (if s.connectStatus = 4 then 0 else 1) ≤ 1 := by split_ifs <;> simp
  unfold Link.onNameLostClose
  dsimp only
  by_cases hreconnect : s.reconnect = true
  · rw [if_pos hreconnect]
    exact
      { hs with
        range := Nat.zero_le 4
        up := by simp [Link.connect]
        request := by simp [Link.connect, hrequest]
        start := .inr ⟨by simp [Link.connect, hstart], rfl⟩
        owner := .inl howner
        objects := fun o ho => .inl (hobjects o ho)
        closing := fun hclose => by
          rw [hquiet hclose] at hreconnect
          cases hreconnect }
  · rw [if_neg hreconnect]
    exact
      { hs with
        range := Nat.le_trans hdown (by decide)
        up := by
          simp only [Option.isSome_none, Bool.false_eq_true, false_iff, Nat.not_le]
          omega
        request := by
          refine hrequest.trans (if_neg ?_).symm
          rintro ⟨htwo, -⟩
          dsimp only at htwo
          omega
        start := .inl hstart
        owner := .inl howner
        objects := fun o ho => .inl (hobjects o ho)
        closing := fun _ => ⟨howner, hobjects, hstart, by simp only; omega,
          .inr (by simpa using hreconnect)⟩ }

theorem Coherent.onDisconnectClose {s : Link} (hs : s.Coherent) (howner : s.ownerId = none)
    (hobjects : ∀ o ∈ s.objects, o = none) (hquiet : s.reconnect = false) :
    s.onDisconnectClose.Coherent := by
  unfold Link.onDisconnectClose
  dsimp only
  by_cases hsome : s.connection.isSome
  · rw [if_pos hsome]
    have hup := hs.up.mp hsome
    exact
      { hs with
        range := Nat.zero_le 4
        up := by simp
        request := by simp [hs.no_request (by omega)]
        start := .inl (hs.no_start (by omega))
        owner := .inl howner
        objects := fun o ho => .inl (hobjects o ho)
        closing := fun _ => ⟨howner, hobjects, hs.no_start (by omega), by simp, .inr hquiet⟩ }
  · rw [if_neg hsome]
    exact { hs with }

theorem Coherent.after_disconnectMark {s : Link} (hs : s.Coherent) :
    (s.after .disconnectMark).Coherent :=
  { hs with
    closing := fun hclose => by
      obtain ⟨howner, hobjects, hstart, hstatus, -⟩ := hs.closing hclose
      exact ⟨howner, hobjects, hstart, hstatus, .inr rfl⟩ }

theorem forall_mem_addObject {s : Link} {P : Option Nat → Prop}
    (hobjects : ∀ o ∈ s.objects, P o) (hnone : P none) :
    ∀ o ∈ (s.after .addObject).objects, P o := by
  intro o ho
  rcases List.mem_append.mp ho with hold | hnew
  · exact hobjects o hold
  · rw [List.mem_singleton.mp hnew]
    exact hnone

theorem Coherent.after_addObject {s : Link} (hs : s.Coherent) : (s.after .addObject).Coherent :=
  { hs with
    objects := forall_mem_addObject hs.objects (.inl rfl)
    unnamed := fun hnamed =>
      ⟨(hs.unnamed hnamed).1, forall_mem_addObject (hs.unnamed hnamed).2 rfl⟩
    closing := fun hclose => by
      obtain ⟨howner, hobjects, hrest⟩ := hs.closing hclose
      exact ⟨howner, forall_mem_addObject hobjects rfl, hrest⟩ }

theorem Coherent.after_doConnect {s : Link} (hs : s.Coherent) (he : s.Enabled .doConnect) :
    (s.after .doConnect).Coherent := by
  simp only [Enabled] at he
  obtain ⟨hone, hzero⟩ : s.doConnectSources = 1 ∧ s.connectStatus = 0 := by
    have := hs.start
    omega
  have hnone := hs.connection_eq_none (by omega)
  have hrequest := hs.no_request (by omega)
  have hquiet : ¬ 0 < s.nameLostCloses + s.disconnectCloses := fun hclose => by
    have := (hs.closing hclose).2.2.1
    omega
  simp only [Link.after, Link.doConnect, hzero, if_true, requestBus]
  split_ifs with htarget
  all_goals
    exact
      { hs with
        range := by simp
        up := by simp [hnone]
        request := by simp [hrequest, htarget]
        start := .inl (by simp [hone])
        closing := fun hclose => absurd hclose hquiet }

theorem Coherent.after_doReconnect {s : Link} (hs : s.Coherent) :
    (s.after .doReconnect).Coherent := by
  simp only [Link.after, Link.doReconnect]
  by_cases hreconnect : s.reconnect = true
  · rw [if_neg (by simp [hreconnect])]
    by_cases hthree : s.connectStatus = 3
    · rw [if_pos hthree]
      exact
        { hs with
          range := Nat.le_refl 4
          up := by simp [endReconnect, hs.up, hthree]
          request := by simp [endReconnect, hs.no_request (by omega)]
          start := .inl (hs.no_start (by omega))
          closing := fun hclose => by
            obtain ⟨howner, hobjects, hstart, -, hlast⟩ := hs.closing hclose
            exact ⟨howner, hobjects, hstart, by simp [endReconnect], hlast⟩ }
    · rw [if_neg hthree]
      by_cases hone : s.connectStatus = 1
      · -- a close that is under way has left `_reconnect` off when the connection is gone
        have hnone := hs.connection_eq_none (by omega)
        have hquiet : ¬ 0 < s.nameLostCloses + s.disconnectCloses := fun hclose => by
          rcases (hs.closing hclose).2.2.2.2 with hsome | hoff
          · simp [hnone] at hsome
          · rw [hoff] at hreconnect
            cases hreconnect
        have hrequest := hs.no_request (by omega)
        have hstart := hs.no_start (by omega)
        rw [if_pos hone]
        simp only [requestBus, endReconnect]
        split_ifs with htarget
        all_goals
          exact
            { hs with
              range := by simp
              up := by simp [hnone]
              request := by simp [hrequest, htarget]
              start := .inl hstart
              closing := fun hclose => absurd hclose hquiet }
      · rw [if_neg hone]
        split_ifs
        · exact hs
        · exact { hs with }
  · rw [if_pos (by simpa using hreconnect)]
    exact { hs with }

theorem Coherent.after_onBusGet {s : Link} {ok : Bool} (hs : s.Coherent)
    (he : s.Enabled (.onBusGet ok)) : (s.after (.onBusGet ok)).Coherent := by
  -- a request is under way only while there is no connection, and nothing is owned on one
  obtain ⟨htwo, hone⟩ := hs.status_of_request he
  have hnone := hs.connection_eq_none (by omega)
  have howned := hs.owned_eq_nil (by omega)
  have hstart := hs.no_start (by omega)
  have howner : s.ownerId = none := by simpa [hnone] using hs.owner
  have hobjects : ∀ o ∈ s.objects, o = none :=
    fun o ho => by simpa [hnone] using hs.objects o ho
  have hquiet : ¬ 0 < s.nameLostCloses + s.disconnectCloses := fun hclose =>
    (hs.closing hclose).2.2.2.1 htwo
  simp only [Link.after, Link.onBusGet]
  split_ifs with hok hnamed
  · exact
      { hs with
        range := by simp [registerObjects, registerWatchers, ownName]
        up := by simp [registerObjects, registerWatchers, ownName]
        request := by simp [registerObjects, registerWatchers, ownName, hone]
        start := .inl hstart
        owned := by simp [registerObjects, registerWatchers, ownName, howned]
        owner := .inr rfl
        objects := fun o ho => by
          obtain ⟨-, -, rfl⟩ := List.mem_map.mp ho
          exact .inr rfl
        unnamed := fun hunnamed => absurd (hnamed.symm.trans hunnamed) (by decide)
        closing := fun hclose => absurd hclose hquiet }
  · exact
      { hs with
        range := by simp
        up := by simp
        request := by simp [hone]
        start := .inl hstart
        owner := .inl howner
        objects := fun o ho => .inl (hobjects o ho)
        closing := fun hclose => absurd hclose hquiet }
  · exact
      { hs with
        range := by simp
        up := by simp
        request := by simp [hone]
        start := .inl hstart
        owner := .inl howner
        objects := fun o ho => .inl (hobjects o ho)
        closing := fun hclose => absurd hclose hquiet }

theorem Coherent.after_onNameLost {s : Link} {owner : Nat} (hs : s.Coherent)
    (he : s.Enabled (.onNameLost owner)) : (s.after (.onNameLost owner)).Coherent := by
  have howned : s.owned ≠ [] := List.ne_nil_of_mem he
  have hup : 3 ≤ s.connectStatus := by
    by_contra hdown
    exact howned (hs.owned_eq_nil (by omega))
  have hquiet := hs.not_closing howned
  have hstart := hs.no_start (by omega)
  obtain ⟨hreleased, howner, hobjects⟩ := hs.release
  have hfields : s.release.doConnectSources = s.doConnectSources ∧
      s.release.connectStatus = s.connectStatus ∧ s.release.nameLostCloses = s.nameLostCloses ∧
      s.release.disconnectCloses = s.disconnectCloses := by
    rw [Link.release_eq]
    exact ⟨rfl, rfl, rfl, rfl⟩
  obtain ⟨hsources, hstatus, hlosses, hcloses⟩ := hfields
  simp only [Link.after, Link.onNameLost]
  split_ifs with haddress hsome
  · exact
      { hreleased with
        oneLoss := by simp only; omega
        closing := fun _ => ⟨howner, hobjects, hsources.trans hstart, by
          simp only [closeConnection]
          omega, .inl hsome⟩ }
  · exact hreleased
  · exact hreleased.onNameLostClose howner hobjects (hsources.trans hstart) (by omega)
      fun hclose => by omega

theorem Coherent.after_onNameLostClose {s : Link} (hs : s.Coherent) (hchain : s.ChainSound)
    (he : s.Enabled .onNameLostClose) : (s.after .onNameLostClose).Coherent := by
  simp only [Enabled] at he
  have honce := hs.oneLoss
  obtain ⟨howner, hobjects, hstart, hstatus, -⟩ := hs.closing (by omega)
  have hdispatch : { s with nameLostCloses := s.nameLostCloses - 1 }.Coherent :=
    { hs with
      oneLoss := Nat.le_trans (Nat.sub_le ..) honce
      closing := fun _ => hs.closing (by omega) }
  refine hdispatch.onNameLostClose howner hobjects hstart hstatus fun hclose => ?_
  have hwaits := (hchain.waits_of_carried (by dsimp only at hclose; omega)).1
  exact (hchain.waiting hwaits.1).1

theorem Coherent.after_doDisconnect {s : Link} (hs : s.Coherent) (hchain : s.ChainSound)
    (he : s.Enabled .doDisconnect) : (s.after .doDisconnect).Coherent := by
  have hquiet := (hchain.waiting
    (hchain.waits_of_carried (by have := he.1; unfold carriers; omega)).1.1).1
  have hdispatch : { s with doDisconnectSources := s.doDisconnectSources - 1 }.Coherent :=
    { hs with }
  obtain ⟨hreleased, howner, hobjects⟩ := hdispatch.release
  simp only [Link.after, Link.doDisconnect]
  split_ifs with haddress hsome
  · have hup := hreleased.up.mp hsome
    exact
      { hreleased with
        closing := fun _ => ⟨howner, hobjects, hreleased.no_start (by omega), by
          simp only [closeConnection]
          omega, .inl hsome⟩ }
  · exact hreleased
  · refine hreleased.onDisconnectClose howner hobjects ?_
    rw [Link.release_eq]
    exact hquiet

theorem Coherent.after_onDisconnectClose {s : Link} (hs : s.Coherent) (hchain : s.ChainSound)
    (he : s.Enabled .onDisconnectClose) : (s.after .onDisconnectClose).Coherent := by
  simp only [Enabled] at he
  have hquiet := (hchain.waiting (hchain.waits_of_carried (by omega)).1.1).1
  obtain ⟨howner, hobjects, -⟩ := hs.closing (by omega)
  have hdispatch : { s with disconnectCloses := s.disconnectCloses - 1 }.Coherent :=
    { hs with closing := fun _ => hs.closing (by omega) }
  exact hdispatch.onDisconnectClose howner hobjects hquiet

theorem Coherent.after {s : Link} {e : LinkEvent} (hs : s.Coherent) (hchain : s.ChainSound)
    (he : s.Enabled e) (hother : ¬ e.isConnect) : (s.after e).Coherent := by
  cases e with
  | connect => exact absurd rfl hother
  | disconnectEnter | disconnectReturn | busClosed | addWatcher | watch | unwatch =>
      exact { hs with }
  | disconnectMark => exact hs.after_disconnectMark
  | disconnectAttach =>
      simp only [Link.after, disconnectAttach]
      split_ifs <;> exact { hs with }
  | addObject => exact hs.after_addObject
  | doFlush =>
      simp only [Link.after, doFlush]
      split_ifs <;> exact { hs with }
  | onFlush =>
      simp only [Link.after, onFlush]
      split_ifs <;> exact { hs with }
  | doConnect => exact hs.after_doConnect he
  | doReconnect => exact hs.after_doReconnect
  | onBusGet ok => exact hs.after_onBusGet he
  | onNameLost owner => exact hs.after_onNameLost he
  | onNameLostClose => exact hs.after_onNameLostClose hchain he
  | doDisconnect => exact hs.after_doDisconnect hchain he
  | onDisconnectClose => exact hs.after_onDisconnectClose hchain he

/-- **One `Connect`.** A run in which the owner calls `Connect` once at most. -/
theorem coherent_of_run {target : BusTarget} {named : Bool} {es : List LinkEvent} {s : Link}
    (hrun : Machine.run step (new target named) es = some s)
    (honce : es.countP LinkEvent.isConnect ≤ 1) :
    (es.countP LinkEvent.isConnect = 0 ∧ s.Fresh) ∨
      (es.countP LinkEvent.isConnect = 1 ∧ s.Coherent) := by
  have hends := Machine.run_once (I := fun t => t.Fresh ∧ t.ChainSound)
    (J := fun t => t.Coherent ∧ t.ChainSound) (q := fun _ => True) ?_ ?_ ?_ hrun
    (fun _ _ => trivial) honce ⟨fresh_new target named, chainSound_new target named⟩
  · rcases hends with ⟨hcount, hfresh, -⟩ | ⟨hcount, hcoherent, -⟩
    · exact .inl ⟨hcount, hfresh⟩
    · exact .inr ⟨hcount, hcoherent⟩
  · rintro t e t' ⟨hfresh, hchain⟩ - hother hstep
    obtain ⟨henabled, rfl⟩ := step_eq_some.mp hstep
    exact ⟨hfresh.after henabled hother, hchain.after henabled⟩
  · rintro t e t' ⟨hfresh, hchain⟩ - hconnect hstep
    obtain ⟨henabled, rfl⟩ := step_eq_some.mp hstep
    refine ⟨?_, hchain.after henabled⟩
    cases e with
    | connect autoReconnect => exact hfresh.connect autoReconnect
    | _ => cases hconnect
  · rintro t e t' ⟨hcoherent, hchain⟩ - hother hstep
    obtain ⟨henabled, rfl⟩ := step_eq_some.mp hstep
    exact ⟨hcoherent.after hchain henabled hother, hchain.after henabled⟩

/-- `_connect_status` and the ids against `_connection` and the requests under way. -/
structure Truthful (s : Link) : Prop where
  established : s.connectStatus = 3 ∨ s.connectStatus = 4 ↔ s.connection.isSome
  requested : s.busGets = if s.connectStatus = 2 then 1 else 0
  owned : ∀ conn, s.ownerId = some conn → s.connection = some conn
  registered : ∀ conn, some conn ∈ s.objects → s.connection = some conn

theorem Fresh.truthful {s : Link} (hs : s.Fresh) : s.Truthful where
  established := by simp [hs.status, hs.connection]
  requested := by simp [hs.status, hs.busGet]
  owned conn hconn := by simp [hs.owner] at hconn
  registered conn hconn := by simpa using hs.objects _ hconn

theorem Coherent.truthful {s : Link} (hs : s.Coherent) (htarget : s.target ≠ .nowhere) :
    s.Truthful where
  established := by
    have hrange := hs.range
    rw [hs.up]
    omega
  requested := by simp [hs.request, htarget]
  owned conn hconn := by
    rcases hs.owner with hnone | hsame
    · rw [hnone] at hconn
      cases hconn
    · exact hsame.symm.trans hconn
  registered conn hconn := by
    rcases hs.objects _ hconn with hnone | hsame
    · cases hnone
    · exact hsame.symm

theorem target_of_run {target : BusTarget} {named : Bool} {es : List LinkEvent} {s : Link}
    (hrun : Machine.run step (new target named) es = some s) : s.target = target := by
  refine Machine.run_invariant (I := fun t => t.target = target) ?_ hrun rfl
  rintro t e t' htarget hstep
  obtain ⟨-, rfl⟩ := step_eq_some.mp hstep
  rw [after_target, htarget]

/-- **The status tells the truth.** On a connection with a bus address whose owner calls `Connect`
once at most, at every callback boundary of every run. -/
theorem status_tells_truth {named : Bool} {es : List LinkEvent} {s : Link}
    (hrun : Machine.run step (new .address named) es = some s)
    (honce : es.countP LinkEvent.isConnect ≤ 1) : s.Truthful := by
  rcases coherent_of_run hrun honce with ⟨-, hfresh⟩ | ⟨-, hcoherent⟩
  · exact hfresh.truthful
  · apply hcoherent.truthful
    rw [target_of_run hrun]
    decide

/-- The close of `Disconnect` ends before that of `on_name_lost`. -/
theorem status_tells_truth_between_closes :
    ∃ es s, Machine.run step (new .address true) es = some s ∧ s.Truthful := by
  have hrun : Machine.run step (new .address true) [.addObject, .connect true, .doConnect,
    .onBusGet true, .disconnectEnter, .disconnectMark, .disconnectAttach, .onNameLost 0, .doFlush,
    .onFlush, .doDisconnect, .onDisconnectClose, .onNameLostClose] = some _ := rfl
  exact ⟨_, _, hrun, status_tells_truth hrun (by decide)⟩

end Link

end Dbus2vdr

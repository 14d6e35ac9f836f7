import Dbus2vdr.Connection.Status

/-!
# Auto-reconnect does not give up

With `Connect(TRUE)` each attempt has its `do_reconnect` timer, which ends only when it finds the
status 0, 3 or 4. At 3 and 4 there is nothing to do, and at 0 a `do_connect` source is attached that
will start a new timer. So a lost bus or a failed request is always followed by another attempt,
however many timers are left over from attempts before.

A connection that has neither a bus type nor an address gives up at once: `do_connect` logs that and
returns before it has started the timer.
-/

namespace Dbus2vdr.Link

/-- What makes the next attempt is attached, unless the connection is up. -/
structure Scheduled (s : Link) : Prop where
  start : s.connectStatus = 0 → 0 < s.doConnectSources
  retry : s.connectStatus = 1 ∨ s.connectStatus = 2 → 0 < s.doReconnectSources

/-- From `Connect` on, as long as nobody calls `Disconnect`. The status does not become 4 without
auto-reconnect, because the timer looks at `_reconnect` first. -/
structure Lively (s : Link) : Prop where
  start : s.connectStatus = 0 → 0 < s.doConnectSources
  retry : s.reconnect = true → s.target ≠ .nowhere →
    s.connectStatus = 1 ∨ s.connectStatus = 2 →
    0 < s.doReconnectSources
  nowhere : s.target = .nowhere → s.connectStatus = 0 ∨ s.connectStatus = 2
  oneAttempt : s.reconnect = false → s.connectStatus ≠ 4

structure Running (s : Link) : Prop where
  coherent : s.Coherent
  chain : s.ChainSound
  away : s.caller = .away
  lively : s.Lively

theorem Lively.scheduled {s : Link} (hs : s.Lively) (hreconnect : s.reconnect = true)
    (htarget : s.target ≠ .nowhere) : s.Scheduled :=
  ⟨hs.start, hs.retry hreconnect htarget⟩

theorem Running.no_close_nowhere {s : Link} (hs : s.Running) (hnowhere : s.target = .nowhere) :
    s.nameLostCloses = 0 := by
  by_contra hclose
  obtain ⟨-, -, hstart, hstatus, -⟩ := hs.coherent.closing (by omega)
  rcases hs.lively.nowhere hnowhere with hzero | htwo
  · have := hs.lively.start hzero
    omega
  · exact hstatus htwo

/-- Only `Connect` and `Disconnect` set `_reconnect`; `on_name_lost_close` calls `Connect(TRUE)`
when it is set already. -/
theorem after_reconnect {s : Link} {e : LinkEvent} (hother : ¬ e.isConnect)
    (hmark : e ≠ .disconnectMark) : (s.after e).reconnect = s.reconnect := by
  cases e with
  | connect => exact absurd rfl hother
  | disconnectMark => exact absurd rfl hmark
  | busClosed | addObject | addWatcher | watch | unwatch | disconnectReturn | disconnectEnter => rfl
  | _ =>
      simp only [Link.after, connect, disconnectAttach, doConnect, doReconnect, requestBus,
        endReconnect, onBusGet, registerObjects, registerWatchers, ownName, onNameLost,
        onNameLostClose, doFlush, onFlush, doDisconnect, onDisconnectClose, release_eq,
        closeConnection]
      split_ifs with h <;> first | rfl | simp_all

theorem away_after {s : Link} {e : LinkEvent} (haway : s.caller = .away) (he : s.Enabled e)
    (hkept : e ≠ .disconnectEnter) : (s.after e).caller = .away := by
  cases e with
  | disconnectEnter => exact absurd rfl hkept
  | disconnectMark | disconnectAttach | disconnectReturn => simp [Enabled, haway] at he
  | connect => rfl
  | busClosed | addObject | addWatcher | watch | unwatch => exact haway
  | _ =>
      rw [after_caller_of_dispatched rfl]
      exact haway

theorem Running.connect {s : Link} (hs : s.Fresh) (hchain : s.ChainSound) (autoReconnect : Bool)
    (he : s.Enabled (.connect autoReconnect)) : (s.after (.connect autoReconnect)).Running where
  coherent := hs.connect autoReconnect
  chain := hchain.after he
  away := rfl
  lively :=
    { start := fun _ => Nat.succ_pos _
      retry := fun _ _ hstatus => by simp [Link.after, Link.connect] at hstatus
      nowhere := fun _ => .inl rfl
      oneAttempt := fun _ => by simp [Link.after, Link.connect] }

theorem Running.not_marking {s : Link} {e : LinkEvent} (hs : s.Running) (he : s.Enabled e) :
    e ≠ .disconnectMark := by
  rintro rfl
  exact absurd (hs.away.symm.trans he) (by decide)

theorem Lively.release {s : Link} (hs : s.Lively) : s.release.Lively := by
  rw [release_eq]
  exact { hs with }

/-- The loss of the connection attaches `do_connect`, or auto-reconnect is off. -/
theorem Lively.onNameLostClose {s : Link} (hs : s.Lively) (htarget : s.target ≠ .nowhere) :
    s.onNameLostClose.Lively := by
  unfold Link.onNameLostClose
  dsimp only
  by_cases hreconnect : s.reconnect = true
  · rw [if_pos hreconnect]
    exact
      { start := fun _ => Nat.succ_pos _
        retry := fun _ _ hstatus => by simp [Link.connect] at hstatus
        nowhere := fun hnowhere => absurd hnowhere htarget
        oneAttempt := fun _ => by simp [Link.connect] }
  · have hone : s.connectStatus ≠ 4 := hs.oneAttempt (by simpa using hreconnect)
    rw [if_neg hreconnect, if_neg hone]
    exact
      { start := fun hstatus => by cases hstatus
        retry := fun h => absurd h hreconnect
        nowhere := fun hnowhere => absurd hnowhere htarget
        oneAttempt := fun _ => by simp }

theorem Lively.onNameLostClose_status_iff {s : Link} (hs : s.Lively) :
    s.onNameLostClose.connectStatus = 1 ↔ s.reconnect = false := by
  unfold Link.onNameLostClose
  dsimp only
  by_cases hreconnect : s.reconnect = true
  · rw [if_pos hreconnect]
    simp [Link.connect, hreconnect]
  · rw [Bool.not_eq_true] at hreconnect
    rw [if_neg (by simp [hreconnect]), if_neg (hs.oneAttempt hreconnect)]
    exact iff_of_true rfl hreconnect

theorem Lively.after_doConnect {s : Link} (hs : s.Lively) : (s.after .doConnect).Lively := by
  simp only [Link.after, Link.doConnect, requestBus]
  split_ifs with hzero htarget
  · exact
      { start := fun hstatus => by cases hstatus
        retry := fun _ h => absurd htarget h
        nowhere := fun _ => .inr rfl
        oneAttempt := fun _ => by simp }
  · exact
      { start := fun hstatus => by cases hstatus
        retry := fun _ _ _ => Nat.succ_pos _
        nowhere := fun _ => .inr rfl
        oneAttempt := fun _ => by simp }
  · exact { hs with start := fun hstatus => absurd hstatus hzero }

/-- The timer goes on while the status is 1 or 2. -/
theorem Lively.after_doReconnect {s : Link} (hs : s.Lively) : (s.after .doReconnect).Lively := by
  simp only [Link.after, Link.doReconnect, requestBus, endReconnect]
  split_ifs with hquiet hthree hone htarget htwo
  · rw [Bool.not_eq_true'] at hquiet
    exact { hs with retry := fun h => by cases hquiet.symm.trans h }
  · rw [Bool.not_eq_true', Bool.not_eq_false] at hquiet
    exact
      { start := fun hstatus => by cases hstatus
        retry := fun _ _ hstatus => by simp at hstatus
        nowhere := fun hnowhere => by
          have := hs.nowhere hnowhere
          omega
        oneAttempt := fun h => by cases hquiet.symm.trans h }
  · exact
      { start := fun hstatus => by cases hstatus
        retry := fun _ h => absurd htarget h
        nowhere := fun _ => .inr rfl
        oneAttempt := fun _ => by simp }
  · exact
      { start := fun hstatus => by cases hstatus
        retry := fun hreconnect h _ => hs.retry hreconnect h (.inl hone)
        nowhere := fun hnowhere => absurd hnowhere htarget
        oneAttempt := fun _ => by simp }
  · exact hs
  · exact { hs with retry := fun _ _ hstatus => absurd hstatus (by simp [hone, htwo]) }

theorem Running.after_onBusGet {s : Link} {ok : Bool} (hs : s.Running)
    (he : s.Enabled (.onBusGet ok)) : (s.after (.onBusGet ok)).Lively := by
  have htwo := (hs.coherent.status_of_request he).1
  have htarget := hs.coherent.target_of_request he
  simp only [Link.after, Link.onBusGet]
  split_ifs with hok hnamed
  iterate 2
    exact
      { start := fun hstatus => by cases hstatus
        retry := fun _ _ hstatus => by
          simp [registerObjects, registerWatchers, ownName] at hstatus
        nowhere := fun hnowhere => absurd hnowhere htarget
        oneAttempt := fun _ => by simp [registerObjects, registerWatchers, ownName] }
  exact
    { start := fun hstatus => by cases hstatus
      retry := fun hreconnect h _ => hs.lively.retry hreconnect h (.inr htwo)
      nowhere := fun hnowhere => absurd hnowhere htarget
      oneAttempt := fun _ => by simp }

theorem Running.after_onNameLost {s : Link} {owner : Nat} (hs : s.Running)
    (he : s.Enabled (.onNameLost owner)) : (s.after (.onNameLost owner)).Lively := by
  have hup : 3 ≤ s.connectStatus := by
    by_contra hdown
    exact List.ne_nil_of_mem he (hs.coherent.owned_eq_nil (by omega))
  have htarget : s.target ≠ .nowhere := fun hnowhere => by
    have := hs.lively.nowhere hnowhere
    omega
  have hreleased := hs.lively.release
  simp only [Link.after, Link.onNameLost]
  split_ifs
  · exact { hreleased with }
  · exact hreleased
  · apply hreleased.onNameLostClose
    rw [release_eq]
    exact htarget

theorem Running.after_onNameLostClose {s : Link} (hs : s.Running)
    (he : s.Enabled .onNameLostClose) : (s.after .onNameLostClose).Lively := by
  have hdispatch : { s with nameLostCloses := s.nameLostCloses - 1 }.Lively := { hs.lively with }
  apply hdispatch.onNameLostClose
  intro hnowhere
  exact absurd (hs.no_close_nowhere hnowhere) (Nat.ne_of_gt he)

theorem Lively.after {s : Link} {e : LinkEvent} (hs : s.Running) (he : s.Enabled e)
    (hother : ¬ e.isConnect) (hkept : e ≠ .disconnectEnter) : (s.after e).Lively := by
  have haway := hs.away
  obtain ⟨-, hidle⟩ := hs.chain.outside (by simp [haway]) (by simp [haway])
  unfold carriers at hidle
  cases e with
  | connect => exact absurd rfl hother
  | disconnectEnter => exact absurd rfl hkept
  | disconnectMark | disconnectAttach | disconnectReturn => simp [Enabled, haway] at he
  | doFlush | onFlush | doDisconnect | onDisconnectClose =>
      simp only [Enabled] at he
      omega
  | busClosed | addObject | addWatcher | watch | unwatch => exact { hs.lively with }
  | doConnect => exact hs.lively.after_doConnect
  | doReconnect => exact hs.lively.after_doReconnect
  | onBusGet ok => exact hs.after_onBusGet he
  | onNameLost owner => exact hs.after_onNameLost he
  | onNameLostClose => exact hs.after_onNameLostClose he

theorem Running.after {s : Link} {e : LinkEvent} (hs : s.Running) (he : s.Enabled e)
    (hother : ¬ e.isConnect) (hkept : e ≠ .disconnectEnter) : (s.after e).Running where
  coherent := hs.coherent.after hs.chain he hother
  chain := hs.chain.after he
  away := away_after hs.away he hkept
  lively := Lively.after hs he hother hkept

/-- **Auto-reconnect.** On a connection that has a bus type or an address, whose owner has called
`Connect(TRUE)` and not `Disconnect`, the next attempt is always scheduled. -/
theorem scheduled_of_run {target : BusTarget} {named : Bool} {es : List LinkEvent} {s : Link}
    (htarget : target ≠ .nowhere) (hrun : Machine.run step (new target named) es = some s)
    (honce : es.countP LinkEvent.isConnect = 1) (hauto : .connect false ∉ es)
    (hkept : .disconnectEnter ∉ es) : s.Scheduled := by
  have hends := Machine.run_once (I := fun t => t.Fresh ∧ t.ChainSound)
    (J := fun t => t.Running ∧ t.reconnect = true)
    (q := fun e => e ≠ .connect false ∧ e ≠ .disconnectEnter) ?_ ?_ ?_ hrun
    (fun e he => ⟨ne_of_mem_of_not_mem he hauto, ne_of_mem_of_not_mem he hkept⟩)
    (Nat.le_of_eq honce) ⟨fresh_new target named, chainSound_new target named⟩
  · rcases hends with ⟨hnone, -⟩ | ⟨-, hrunning, hreconnect⟩
    · omega
    · exact hrunning.lively.scheduled hreconnect (target_of_run hrun ▸ htarget)
  · rintro t e t' ⟨hfresh, hchain⟩ - hother hstep
    obtain ⟨henabled, rfl⟩ := step_eq_some.mp hstep
    exact ⟨hfresh.after henabled hother, hchain.after henabled⟩
  · rintro t e t' ⟨hfresh, hchain⟩ ⟨hquiet, -⟩ hconnect hstep
    obtain ⟨henabled, rfl⟩ := step_eq_some.mp hstep
    cases e with
    | connect autoReconnect =>
        refine ⟨Running.connect hfresh hchain autoReconnect henabled, ?_⟩
        cases autoReconnect with
        | false => exact absurd rfl hquiet
        | true => rfl
    | _ => cases hconnect
  · rintro t e t' ⟨hrunning, hreconnect⟩ ⟨-, hquiet⟩ hother hstep
    obtain ⟨henabled, rfl⟩ := step_eq_some.mp hstep
    refine ⟨hrunning.after henabled hother hquiet, ?_⟩
    rw [after_reconnect hother (hrunning.not_marking henabled), hreconnect]

/-- The bus is lost before the first tick, and the old timer finds the status 0. -/
theorem scheduled_after_early_loss :
    ∃ es s, Machine.run step (new .address true) es = some s ∧ s.Scheduled := by
  have hrun : Machine.run step (new .address true) [.connect true, .doConnect, .onBusGet true,
    .onNameLost 0, .onNameLostClose, .doReconnect, .doConnect, .onBusGet false, .doReconnect] =
      some _ := rfl
  exact ⟨_, _, hrun, scheduled_of_run (by decide) hrun (by decide) (by decide) (by decide)⟩

/-- `do_connect` without a bus type and an address. -/
theorem no_timer_without_address :
    ¬ ∀ (target : BusTarget) (named : Bool) (es : List LinkEvent) (s : Link),
      Machine.run step (new target named) es = some s → es.countP LinkEvent.isConnect = 1 →
        .connect false ∉ es → .disconnectEnter ∉ es → s.Scheduled := by
  intro hall
  have hscheduled := hall .nowhere true [.connect true, .doConnect] _ rfl (by decide) (by decide)
    (by decide)
  exact absurd (hscheduled.retry (.inr rfl)) (by decide)

end Dbus2vdr.Link

import Dbus2vdr.Connection.Wakeup

/-!
# When `Disconnect` returns

`Disconnect` takes the way through `do_disconnect` alone when the connection is not up, and then
closes a `_connection` that is `NULL`: with a bus address nobody is ever called back, whereas with a
bus type `on_disconnect_close` is called directly. `KeepsWakeup` says which steps leave the caller a
way out, and `caller_woken_iff` that a run keeps the way out exactly as long as all its steps do.
-/

namespace Dbus2vdr.Link

def NeedsHandle (s : Link) : Prop :=
  s.Waits ∧ s.disconnectCloses = 0

/-- What a step must meet so that it does not lose the wake-up: `Disconnect` attaches its source
only when the handle is there or to come, the handle is there when the flush and the close are
called, and nothing takes it away before. -/
def KeepsWakeup (s : Link) : LinkEvent → Prop
  | .disconnectAttach => s.HandleComing
  | .doFlush | .doDisconnect => s.connection.isSome
  | .onBusGet ok => ok = false → s.NeedsHandle → 1 < s.busGets
  | .onNameLostClose =>
      s.NeedsHandle → 0 < s.busGets ∨ (s.connectStatus = 4 ∧ 0 < s.doConnectSources)
  | _ => True

instance decidableKeepsWakeup (s : Link) : (e : LinkEvent) → Decidable (s.KeepsWakeup e)
  | .disconnectAttach => inferInstanceAs (Decidable s.HandleComing)
  | .doFlush | .doDisconnect => inferInstanceAs (Decidable (s.connection.isSome))
  | .onBusGet ok => inferInstanceAs (Decidable (ok = false →
      (s.caller = .waiting ∧ s.disconnectStatus = 1) ∧ s.disconnectCloses = 0 →
      1 < s.busGets))
  | .onNameLostClose => inferInstanceAs (Decidable (
      (s.caller = .waiting ∧ s.disconnectStatus = 1) ∧ s.disconnectCloses = 0 →
        0 < s.busGets ∨ (s.connectStatus = 4 ∧ 0 < s.doConnectSources)))
  | .connect _ | .disconnectEnter | .disconnectMark | .disconnectReturn | .doConnect
  | .doReconnect | .onNameLost _ | .onFlush | .onDisconnectClose | .busClosed _ | .addObject
  | .addWatcher _ | .watch _ | .unwatch _ => inferInstanceAs (Decidable True)

def WayOut (s : Link) : Prop :=
  s.Waits → 0 < s.disconnectCloses ∨ (0 < s.carriers ∧ s.HandleComing)

theorem WayOut.coming {s : Link} (hway : s.WayOut) (hneeds : s.NeedsHandle) :
    0 < s.carriers ∧ s.HandleComing := by
  obtain ⟨hwaits, hnoClose⟩ := hneeds
  rcases hway hwaits with hclose | hcoming
  · omega
  · exact hcoming

/-- A step that leaves `Disconnect` and the carriers alone is all about the handle. -/
theorem WayOut.handle_iff {s s' : Link} {p : Prop} (hway : s.WayOut)
    (hcaller : s'.caller = s.caller) (hstatus : s'.disconnectStatus = s.disconnectStatus)
    (hcloses : s'.disconnectCloses = s.disconnectCloses) (hcarriers : s'.carriers = s.carriers)
    (hcoming : s.NeedsHandle → (s'.HandleComing ↔ p)) :
    s'.WayOut ↔ (s.NeedsHandle → p) := by
  unfold WayOut Waits
  rw [hcaller, hstatus, hcloses, hcarriers]
  constructor
  · intro hway' hneeds
    rcases hway' hneeds.1 with hclose | ⟨-, hhandle⟩
    · exact absurd hneeds.2 (Nat.ne_of_gt hclose)
    · exact (hcoming hneeds).mp hhandle
  · intro hp hwaits
    by_cases hnoClose : s.disconnectCloses = 0
    · have hneeds : s.NeedsHandle := ⟨hwaits, hnoClose⟩
      exact .inr ⟨(hway.coming hneeds).1, (hcoming hneeds).mpr (hp hneeds)⟩
    · exact .inl (Nat.pos_of_ne_zero hnoClose)

theorem WayOut.of_coming {s s' : Link} (hway : s.WayOut) (hcaller : s'.caller = s.caller)
    (hstatus : s'.disconnectStatus = s.disconnectStatus)
    (hcloses : s'.disconnectCloses = s.disconnectCloses) (hcarriers : s'.carriers = s.carriers)
    (hcoming : s.HandleComing → s'.HandleComing) : s'.WayOut := by
  refine (hway.handle_iff (p := True) hcaller hstatus hcloses hcarriers fun hneeds => ?_).mpr
    fun _ => trivial
  exact iff_true_intro (hcoming (hway.coming hneeds).2)

/-- The wake-up is on its way, and the caller waits for it alone. -/
theorem ChainSound.needsHandle {s : Link} (hchain : s.ChainSound) (hcarried : 0 < s.carriers) :
    s.NeedsHandle ∧ s.carriers = 1 := by
  obtain ⟨hwaits, hone⟩ := hchain.waits_of_carried (by omega)
  exact ⟨⟨hwaits, by omega⟩, by omega⟩

section Steps

variable {s : Link}

theorem wayOut_after_disconnectAttach (hchain : s.ChainSound) (he : s.Enabled .disconnectAttach) :
    (s.after .disconnectAttach).WayOut ↔ s.HandleComing := by
  obtain ⟨-, hstatus, hnone⟩ := hchain.holding he
  simp only [Link.after, disconnectAttach]
  split_ifs
  all_goals
    constructor
    · intro hway
      exact (hway.coming ⟨⟨rfl, hstatus⟩, by simp only; omega⟩).2
    · intro hcoming hwaits
      exact .inr ⟨by simp only [carriers]; omega, hcoming⟩

theorem wayOut_after_doConnect (htarget : s.target = .address) (hway : s.WayOut) :
    (s.after .doConnect).WayOut := by
  simp only [Link.after, doConnect, requestBus]
  split_ifs with hzero hnowhere
  · exact absurd (htarget.symm.trans hnowhere) (by decide)
  · exact hway.of_coming rfl rfl rfl rfl fun _ => .inr (.inl (Nat.succ_pos _))
  · exact hway.of_coming rfl rfl rfl rfl (.imp_right (.imp_right fun h => absurd h.1 hzero))

/-- The timer of a connection with auto-reconnect does not tick while a caller waits. -/
theorem wayOut_after_doReconnect (hgaveUp : s.Waits → s.reconnect = false) (hway : s.WayOut) :
    (s.after .doReconnect).WayOut := by
  by_cases hreconnect : s.reconnect = true
  · have hfree : ¬ s.Waits := fun hwaits => by cases hreconnect.symm.trans (hgaveUp hwaits)
    simp only [Link.after, doReconnect, requestBus, endReconnect]
    split_ifs <;> exact fun hwaits => absurd hwaits hfree
  · rw [Link.after, doReconnect, if_pos (by simpa using hreconnect)]
    exact hway

theorem wayOut_after_onBusGet {ok : Bool} (hway : s.WayOut) :
    (s.after (.onBusGet ok)).WayOut ↔ (ok = false → s.NeedsHandle → 1 < s.busGets) := by
  cases ok with
  | true =>
      simp only [Link.after, onBusGet, registerObjects, registerWatchers, ownName, if_true]
      split_ifs
      all_goals
        refine iff_of_true ?_ (fun h => by cases h)
        exact hway.of_coming rfl rfl rfl rfl fun _ => .inl rfl
  | false =>
      simp only [Link.after, onBusGet, Bool.false_eq_true, if_false, true_imp_iff]
      refine hway.handle_iff rfl rfl rfl rfl fun _ => ?_
      simp only [HandleComing, Option.isSome_none, Bool.false_eq_true, false_or, Nat.one_ne_zero,
        false_and, or_false]
      omega

theorem wayOut_after_onNameLostClose (hgaveUp : s.Waits → s.reconnect = false)
    (hway : s.WayOut) :
    (s.after .onNameLostClose).WayOut ↔
      (s.NeedsHandle → 0 < s.busGets ∨ (s.connectStatus = 4 ∧ 0 < s.doConnectSources)) := by
  by_cases hreconnect : s.reconnect = true
  · have hfree : ¬ s.Waits := fun hwaits => by cases hreconnect.symm.trans (hgaveUp hwaits)
    rw [Link.after, onNameLostClose, if_pos hreconnect]
    exact iff_of_true (fun hwaits => absurd hwaits hfree) fun hneeds => absurd hneeds.1 hfree
  · rw [Link.after, onNameLostClose, if_neg hreconnect]
    refine hway.handle_iff rfl rfl rfl rfl fun _ => ?_
    simp only [HandleComing, Option.isSome_none, Bool.false_eq_true, false_or]
    split_ifs with hfour <;> simp [hfour]

theorem wayOut_after_doFlush (hchain : s.ChainSound) (he : s.Enabled .doFlush) :
    (s.after .doFlush).WayOut ↔ s.connection.isSome := by
  simp only [Enabled] at he
  obtain ⟨⟨hwaits, hnoClose⟩, hone⟩ := hchain.needsHandle (by unfold carriers; omega)
  unfold carriers at hone
  simp only [Link.after, doFlush]
  split_ifs with hsome
  · exact iff_of_true (fun _ => .inr ⟨by simp only [carriers]; omega, .inl hsome⟩) hsome
  · refine iff_of_false (fun hway => ?_) hsome
    have hcarried := (hway.coming ⟨hwaits, hnoClose⟩).1
    simp only [carriers] at hcarried
    omega

theorem wayOut_after_onFlush (hchain : s.ChainSound) (hway : s.WayOut) (he : s.Enabled .onFlush) :
    (s.after .onFlush).WayOut := by
  simp only [Enabled] at he
  obtain ⟨⟨hwaits, -⟩, -⟩ := hchain.needsHandle (by unfold carriers; omega)
  rw [Link.after, onFlush, if_neg (by simp [hwaits.2])]
  refine hway.of_coming rfl rfl rfl ?_ id
  simp only [carriers]
  omega

theorem wayOut_after_doDisconnect (htarget : s.target = .address) (hchain : s.ChainSound)
    (he : s.Enabled .doDisconnect) :
    (s.after .doDisconnect).WayOut ↔ s.connection.isSome := by
  simp only [Enabled] at he
  obtain ⟨⟨hwaits, hnoClose⟩, hone⟩ := hchain.needsHandle (by unfold carriers; omega)
  unfold carriers at hone
  simp only [Link.after, doDisconnect, release_eq]
  rw [if_pos htarget]
  by_cases hsome : s.connection.isSome
  · rw [if_pos hsome]
    exact iff_of_true (fun _ => .inl (Nat.succ_pos _)) hsome
  · rw [if_neg hsome]
    refine iff_of_false (fun hway => ?_) hsome
    have hcarried := (hway.coming ⟨hwaits, hnoClose⟩).1
    simp only [carriers] at hcarried
    omega

end Steps

theorem wayOut_after_iff {s : Link} {e : LinkEvent} (htarget : s.target = .address)
    (hchain : s.ChainSound) (hway : s.WayOut) (he : s.Enabled e) :
    (s.after e).WayOut ↔ s.KeepsWakeup e := by
  have hgaveUp : s.Waits → s.reconnect = false := fun hwaits => (hchain.waiting hwaits.1).1
  cases e with
  | busClosed | addObject | addWatcher | watch | unwatch => exact iff_of_true hway trivial
  | connect =>
      refine iff_of_true (fun hwaits => ?_) trivial
      cases hwaits.1
  | disconnectEnter =>
      refine iff_of_true (fun hwaits => ?_) trivial
      have hcaller := hwaits.1
      simp only [Link.after, disconnectEnter] at hcaller
      split_ifs at hcaller
  | disconnectMark | disconnectReturn =>
      refine iff_of_true (fun hwaits => ?_) trivial
      cases hwaits.1
  | disconnectAttach => exact wayOut_after_disconnectAttach hchain he
  | doConnect => exact iff_of_true (wayOut_after_doConnect htarget hway) trivial
  | doReconnect => exact iff_of_true (wayOut_after_doReconnect hgaveUp hway) trivial
  | onBusGet ok => exact wayOut_after_onBusGet hway
  | onNameLost owner =>
      refine iff_of_true ?_ trivial
      simp only [Link.after, onNameLost, release_eq, if_pos htarget]
      split_ifs <;> exact hway
  | onNameLostClose => exact wayOut_after_onNameLostClose hgaveUp hway
  | doFlush => exact wayOut_after_doFlush hchain he
  | onFlush => exact iff_of_true (wayOut_after_onFlush hchain hway he) trivial
  | doDisconnect => exact wayOut_after_doDisconnect htarget hchain he
  | onDisconnectClose =>
      refine iff_of_true (fun hwaits => ?_) trivial
      cases hwaits.2

structure AddressSound (s : Link) : Prop where
  target : s.target = .address
  handle : s.HandleSound
  chain : s.ChainSound

theorem addressSound_new (named : Bool) : (new .address named).AddressSound :=
  ⟨rfl, handleSound_new _ _, chainSound_new _ _⟩

theorem AddressSound.step {s s' : Link} {e : LinkEvent} (hs : s.AddressSound)
    (hstep : step s e = some s') : s'.AddressSound := by
  obtain ⟨henabled, rfl⟩ := step_eq_some.mp hstep
  exact ⟨(after_target s e).trans hs.target, hs.handle.after, hs.chain.after henabled⟩

theorem AddressSound.wayOut_iff {s : Link} (hs : s.AddressSound) :
    s.WayOut ↔ (s.Waits → s.CanWake) :=
  forall_congr' fun hwaits => (canWake_iff hs.target hs.handle hs.chain hwaits).symm

/-- **`Disconnect` and its wake-up.** In every run of a connection made with a bus address: in all
states in which a caller waits inside `Disconnect` the main loop can still get to
`on_disconnect_close`, if and only if all steps of the run keep the wake-up. -/
theorem caller_woken_iff {named : Bool} {es : List LinkEvent} {s : Link}
    (hrun : Machine.run step (new .address named) es = some s) :
    Machine.Throughout step (fun t => t.Waits → t.CanWake) (new .address named) es ↔
      Machine.Along step KeepsWakeup (new .address named) es := by
  refine Machine.throughout_iff_along (I := AddressSound) (fun _ _ _ ht hstep => ht.step hstep)
    (fun t e t' ht hway hstep => ?_) hrun (addressSound_new named) ?_
  · have ht' := ht.step hstep
    obtain ⟨henabled, rfl⟩ := step_eq_some.mp hstep
    rw [← ht'.wayOut_iff]
    exact wayOut_after_iff ht.target ht.chain (ht.wayOut_iff.mpr hway) henabled
  · intro hwaits
    cases hwaits.1

theorem caller_woken_established :
    Machine.Throughout step (fun t => t.Waits → t.CanWake) (new .address true)
      [.connect true, .doConnect, .onBusGet true, .disconnectEnter, .disconnectMark,
        .disconnectAttach, .doFlush, .onFlush, .doDisconnect, .onDisconnectClose,
        .disconnectReturn] :=
  (caller_woken_iff rfl).mpr (by decide)

/-- With nobody listening at the address the first attempt fails, and `Disconnect` waits for ever
for the close of a `_connection` that is `NULL`. -/
theorem caller_left_waiting :
    ¬ ∀ (named : Bool) (es : List LinkEvent) (s : Link),
      Machine.run step (new .address named) es = some s → s.Waits → s.CanWake := by
  intro hall
  have hstuck : Stuck
      { new .address true with
        reconnect := false, connectStatus := 1, disconnectStatus := 1, caller := .waiting
        doReconnectSources := 1, doDisconnectSources := 1 } :=
    ⟨rfl, rfl, rfl, by decide, rfl, by decide⟩
  refine hstuck.not_canWake (hall true [.connect false, .doConnect, .onBusGet false,
    .disconnectEnter, .disconnectMark, .disconnectAttach] _ ?_ ⟨rfl, rfl⟩)
  decide

end Dbus2vdr.Link

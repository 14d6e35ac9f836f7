import Dbus2vdr.Objects.System
import Dbus2vdr.Osd.Messages

/-!
# OSDs and their providers

A `cDBusOsd` keeps a reference to the provider that has made it, and sends it messages until it is
closed. The provider may be deleted before that, by the method `DeleteProvider`, and by VDR for
another provider. `safe_iff_noneOpen` says that nothing else goes wrong.
-/

namespace Dbus2vdr.Osd

open Machine

/-- What VDR has for its `cOsdProvider`; those of this plugin are numbered. -/
inductive OsdProvider where
  | dbus (number : Nat)
  | other
  deriving DecidableEq, Repr

structure DBusOsd where
  provider : Nat
  left : Int
  top : Int
  counter : Nat := 0
  closed : Bool := false
  deriving DecidableEq, Repr

/-- Providers have the number of those made before them, OSDs their `osd_index`. -/
structure Osds where
  made : Nat := 0
  /-- The providers whose destructor has been called. -/
  deleted : List Nat := []
  /-- `cDBusOsdProvider::_provider` -/
  provider : Option Nat := none
  osdProvider : Option OsdProvider := none
  osds : List DBusOsd := []
  deriving DecidableEq, Repr

/-! ### The messages of an OSD -/

/-- `%04x` -/
def hex4 (n : Nat) : Bytes :=
  ((Nat.toDigits 16 n).map fun c => UInt8.ofNat c.toNat).leftpad 4 48

def osdDir (index : Nat) : Bytes := ascii "/tmp/dbus2vdr/dbusosd-" ++ hex4 index

def openMsg (index : Nat) (left top : Int) : Msg :=
  { action := .Open, file := osdDir index, left, top, vx := 0, vy := 0 }

def closeMsg (index : Nat) : Msg :=
  { action := .Close, file := osdDir index, left := 0, top := 0, vx := 0, vy := 0 }

namespace DBusOsd

def filename (osd : DBusOsd) (index counter : Nat) (vx vy : Int) : Bytes :=
  osdDir index ++ ascii "/" ++ hex4 counter ++ ascii "-" ++ decimal osd.left ++ ascii "-" ++
    decimal osd.top ++ ascii "-" ++ decimal vx ++ ascii "-" ++ decimal vy ++ ascii ".png"

def displayMsg (osd : DBusOsd) (index counter : Nat) (vx vy : Int) : Msg :=
  { action := .Display
    file := osd.filename index counter vx vy
    left := osd.left
    top := osd.top
    vx
    vy }

/-- `Flush`, for the view ports of the pixmaps that are rendered. -/
def displayMsgs (osd : DBusOsd) (index : Nat) (rendered : List (Int × Int)) : List Msg :=
  rendered.zipIdx.map fun port => osd.displayMsg index (osd.counter + port.2) port.1.1 port.1.2

end DBusOsd

/-! ### Lifetimes -/

inductive Call where
  | createProvider
  /-- The primary device, which is made primary again, may have a provider. -/
  | deleteProvider (deviceProvides : Bool)
  /-- VDR or another plugin makes a provider. -/
  | otherProvider
  /-- VDR deletes its provider. -/
  | shutdown
  | createOsd (left top : Int)
  /-- No pixmap is rendered when the OSD is not active or not in true color. -/
  | flush (index : Nat) (rendered : List (Int × Int))
  | destroyOsd (index : Nat)
  deriving DecidableEq, Repr

namespace Osds

/-- The provider that VDR uses, when it is one of this plugin. -/
def inUse (s : Osds) : Option Nat :=
  match s.osdProvider with
  | some (.dbus number) => some number
  | _ => none

/-- `~cDBusOsdProvider` and `~cOsdProvider` -/
def deleteDBus (s : Osds) (number : Nat) : Osds :=
  { s with deleted := number :: s.deleted, provider := none, osdProvider := none }

/-- A new `cOsdProvider` deletes the one that VDR has. -/
def deleteOld (s : Osds) : Osds :=
  match s.inUse with
  | some number => s.deleteDBus number
  | none => { s with osdProvider := none }

def createProvider (s : Osds) : Osds :=
  match s.provider with
  | none =>
      { s.deleteOld with
        made := s.made + 1
        provider := some s.made
        osdProvider := some (.dbus s.made) }
  | some _ => s

def deleteProvider (s : Osds) (deviceProvides : Bool) : Osds :=
  match s.provider with
  | some number =>
      { s.deleteDBus number with osdProvider := if deviceProvides then some .other else none }
  | none => s

def createOsd (s : Osds) (left top : Int) : Osds :=
  match s.inUse with
  | some provider => { s with osds := s.osds ++ [{ provider, left, top }] }
  | none => s

def Enabled (s : Osds) : Call → Prop
  | .createOsd _ _ => s.inUse ≠ none
  | .flush index _ | .destroyOsd index => ∃ osd ∈ s.osds[index]?, osd.closed = false
  | _ => True

def after (s : Osds) : Call → Osds
  | .createProvider => s.createProvider
  | .deleteProvider deviceProvides => s.deleteProvider deviceProvides
  | .otherProvider => { s.deleteOld with osdProvider := some .other }
  | .shutdown => s.deleteOld
  | .createOsd left top => s.createOsd left top
  | .flush index rendered =>
      { s with
        osds := s.osds.modify index fun osd =>
          { osd with counter := osd.counter + rendered.length } }
  | .destroyOsd index =>
      { s with osds := s.osds.modify index fun osd => { osd with closed := true } }

instance decidableEnabled (s : Osds) : DecidablePred s.Enabled := by
  intro e
  cases e <;> unfold Enabled <;> infer_instance

def step : Step Osds Call := fun s e => if s.Enabled e then some (s.after e) else none

theorem step_eq_some {s s' : Osds} {e : Call} :
    step s e = some s' ↔ s.Enabled e ∧ s.after e = s' := by
  unfold step
  split_ifs with henabled <;> simp [henabled]

/-- The calls of `SendMessage`, with the provider that they are made on. -/
def sends (s : Osds) : Call → List (Nat × Msg)
  | .createOsd left top =>
      s.inUse.toList.map fun provider => (provider, openMsg s.osds.length left top)
  | .flush index rendered =>
      (s.osds[index]?).toList.flatMap fun osd =>
        (osd.displayMsgs index rendered).map fun msg => (osd.provider, msg)
  | .destroyOsd index => (s.osds[index]?).toList.map fun osd => (osd.provider, closeMsg index)
  | _ => []

/-- The provider of this plugin that a call deletes. -/
def deletes (s : Osds) : Call → Option Nat
  | .createProvider => if s.provider = none then s.inUse else none
  | .deleteProvider _ => s.provider
  | .otherProvider | .shutdown => s.inUse
  | _ => none

def Exists (s : Osds) (number : Nat) : Prop := number < s.made ∧ number ∉ s.deleted

/-- No call that may come next sends a message to a provider that is gone. -/
def Safe (s : Osds) : Prop :=
  (∀ e, s.Enabled e → ∀ send ∈ s.sends e, s.Exists send.1) ∧
    (s.provider = none ↔ ∀ number, ¬ s.Exists number)

/-- When a provider is deleted, all of its OSDs have been closed. -/
def NoneOpen (s : Osds) (e : Call) : Prop :=
  ∀ number ∈ s.deletes e, ∀ osd ∈ s.osds, osd.closed = false → osd.provider ≠ number

/-! ### One provider at a time -/

/-- There is one provider of this plugin at most, and it is the one that VDR uses. -/
structure Single (s : Osds) : Prop where
  inUse : s.inUse = s.provider
  exists_iff : ∀ number, s.Exists number ↔ s.provider = some number
  deleted_lt : ∀ number ∈ s.deleted, number < s.made

theorem single_initial : Single {} :=
  ⟨rfl, fun number => by simp [Exists], fun number h => by cases h⟩

theorem deleteOld_eq (s : Osds) : s.deleteOld = { s.deleteOld with osdProvider := none } := by
  unfold deleteOld
  cases s.inUse <;> rfl

section Single

variable {s : Osds} {number : Nat}

theorem Single.lt (hs : s.Single) (hprovider : s.provider = some number) : number < s.made :=
  ((hs.exists_iff number).mpr hprovider).1

theorem Single.not_exists (hs : s.Single) (hprovider : s.provider = none) : ¬ s.Exists number := by
  rw [hs.exists_iff, hprovider]
  exact (Option.some_ne_none number).symm

theorem Single.deleteDBus_not_exists (hs : s.Single) (hprovider : s.provider = some number)
    (n : Nat) :
    ¬ (s.deleteDBus number).Exists n := by
  rintro ⟨hmade, hdeleted⟩
  obtain ⟨hne, hold⟩ := not_or.mp (mt List.mem_cons.mpr hdeleted)
  have hn := (hs.exists_iff n).mp ⟨hmade, hold⟩
  exact hne (Option.some.inj (hn.symm.trans hprovider))

theorem Single.deleteDBus (hs : s.Single) (hprovider : s.provider = some number)
    {osdProvider : Option OsdProvider} (hother : osdProvider = none ∨ osdProvider = some .other) :
    Single { s.deleteDBus number with osdProvider } := by
  refine ⟨?_, fun n => ?_, ?_⟩
  · rcases hother with rfl | rfl <;> rfl
  · exact iff_of_false (hs.deleteDBus_not_exists hprovider n) (Option.some_ne_none n).symm
  · rintro n (_ | ⟨_, hn⟩)
    · exact hs.lt hprovider
    · exact hs.deleted_lt n hn

theorem Single.deleteOld (hs : s.Single) {osdProvider : Option OsdProvider}
    (hother : osdProvider = none ∨ osdProvider = some .other) :
    Single { s.deleteOld with osdProvider } := by
  unfold Osds.deleteOld
  cases hinUse : s.inUse with
  | some number => exact hs.deleteDBus (hs.inUse.symm.trans hinUse) hother
  | none =>
      have hprovider : s.provider = none := hs.inUse.symm.trans hinUse
      refine ⟨?_, hs.exists_iff, hs.deleted_lt⟩
      rcases hother with rfl | rfl <;> exact hprovider.symm

theorem Single.createProvider (hs : s.Single) : s.createProvider.Single := by
  unfold Osds.createProvider
  cases hprovider : s.provider with
  | some number => exact hs
  | none =>
      have hold : s.deleteOld = { s with osdProvider := none } := by
        rw [Osds.deleteOld, hs.inUse.trans hprovider]
      simp only [hold]
      refine ⟨rfl, fun n => ?_, fun n hn => Nat.lt_succ_of_lt (hs.deleted_lt n hn)⟩
      constructor
      · rintro ⟨hmade, hdeleted⟩
        by_contra hne
        have hlt : n < s.made :=
          Nat.lt_of_le_of_ne (Nat.le_of_lt_succ hmade) fun heq => hne (heq ▸ rfl)
        exact hs.not_exists hprovider ⟨hlt, hdeleted⟩
      · intro heq
        obtain rfl : s.made = n := Option.some.inj heq
        exact ⟨Nat.lt_succ_self _, fun hdeleted => Nat.lt_irrefl _ (hs.deleted_lt _ hdeleted)⟩

theorem Single.deleteProvider (hs : s.Single) (deviceProvides : Bool) :
    (s.deleteProvider deviceProvides).Single := by
  unfold Osds.deleteProvider
  cases hprovider : s.provider with
  | none => exact hs
  | some number =>
      refine hs.deleteDBus hprovider ?_
      cases deviceProvides
      · exact Or.inl rfl
      · exact Or.inr rfl

theorem Single.after (hs : s.Single) (e : Call) : (s.after e).Single := by
  cases e with
  | createProvider => exact hs.createProvider
  | deleteProvider deviceProvides => exact hs.deleteProvider deviceProvides
  | otherProvider => exact hs.deleteOld (Or.inr rfl)
  | shutdown =>
      rw [Osds.after, deleteOld_eq]
      exact hs.deleteOld (Or.inl rfl)
  | createOsd left top =>
      unfold Osds.after Osds.createOsd
      cases s.inUse <;> exact ⟨hs.inUse, hs.exists_iff, hs.deleted_lt⟩
  | flush index rendered => exact ⟨hs.inUse, hs.exists_iff, hs.deleted_lt⟩
  | destroyOsd index => exact ⟨hs.inUse, hs.exists_iff, hs.deleted_lt⟩

end Single

/-! ### Open OSDs -/

/-- The provider of every open OSD is the one that there is. -/
def Attached (s : Osds) : Prop :=
  ∀ osd ∈ s.osds, osd.closed = false → s.provider = some osd.provider

theorem Single.safe_iff {s : Osds} (hs : s.Single) : s.Safe ↔ s.Attached := by
  constructor
  · rintro ⟨hsends, -⟩ osd hosd hopen
    obtain ⟨index, hindex⟩ := List.mem_iff_getElem?.mp hosd
    refine (hs.exists_iff _).mp
      (hsends (.destroyOsd index) ⟨osd, hindex, hopen⟩ (_, closeMsg index) ?_)
    simp [sends, hindex]
  · intro hattached
    have hopen : ∀ (index : Nat) (osd' : DBusOsd),
      (∃ osd ∈ s.osds[index]?, osd.closed = false) →
        osd' ∈ s.osds[index]? → s.Exists osd'.provider := by
      rintro index osd' ⟨osd, hindex, hclosed⟩ hindex'
      obtain rfl := Option.mem_unique hindex hindex'
      exact (hs.exists_iff _).mpr (hattached osd (List.mem_of_getElem? hindex) hclosed)
    refine ⟨fun e he send hsend => ?_, fun hnone number => hs.not_exists hnone, fun hnone => ?_⟩
    · cases e with
      | createOsd left top =>
          obtain ⟨provider, hprovider, rfl⟩ := List.mem_map.mp hsend
          rw [hs.inUse] at hprovider
          exact (hs.exists_iff _).mpr (Option.mem_toList.mp hprovider)
      | flush index rendered =>
          obtain ⟨osd, hosd, hmsg⟩ := List.mem_flatMap.mp hsend
          obtain ⟨msg, -, rfl⟩ := List.mem_map.mp hmsg
          exact hopen index osd he (Option.mem_toList.mp hosd)
      | destroyOsd index =>
          obtain ⟨osd, hosd, rfl⟩ := List.mem_map.mp hsend
          exact hopen index osd he (Option.mem_toList.mp hosd)
      | createProvider | deleteProvider | otherProvider | shutdown => cases hsend
    · cases hprovider : s.provider with
      | none => rfl
      | some number => exact absurd ((hs.exists_iff number).mpr hprovider) (hnone number)

theorem Attached.delete_iff {s : Osds} {number : Nat} (h : s.Attached)
    (hprovider : s.provider = some number) {osdProvider : Option OsdProvider} :
    Attached { s.deleteDBus number with osdProvider } ↔
      ∀ osd ∈ s.osds, osd.closed = false → osd.provider ≠ number := by
  refine forall_congr' fun osd => forall_congr' fun hosd => forall_congr' fun hopen => ?_
  refine iff_of_false (Option.some_ne_none _).symm fun hne => hne ?_
  exact Option.some.inj ((h osd hosd hopen).symm.trans hprovider)

theorem Single.attached_deleteOld_iff {s : Osds} (hs : s.Single) (h : s.Attached)
    {osdProvider : Option OsdProvider} :
    Attached { s.deleteOld with osdProvider } ↔
      ∀ number ∈ s.inUse, ∀ osd ∈ s.osds, osd.closed = false →
        osd.provider ≠ number := by
  unfold Osds.deleteOld
  cases hinUse : s.inUse with
  | some number =>
      rw [Attached.delete_iff h (hs.inUse.symm.trans hinUse)]
      simp
  | none => exact iff_of_true h fun number hnone => by cases hnone

theorem Attached.modify {s : Osds} (h : s.Attached) (index : Nat) {f : DBusOsd → DBusOsd}
    (hprovider : ∀ osd, (f osd).provider = osd.provider)
    (hclosed : ∀ osd, (f osd).closed = false → osd.closed = false) :
    Attached { s with osds := s.osds.modify index f } := by
  intro osd hosd hopen
  obtain ⟨i, hi⟩ := List.mem_iff_getElem?.mp hosd
  rw [List.getElem?_modify] at hi
  obtain ⟨osd', hosd', rfl⟩ := Option.map_eq_some_iff.mp hi
  split at hopen
  · next heq =>
      rw [if_pos heq, hprovider]
      exact h osd' (List.mem_of_getElem? hosd') (hclosed osd' hopen)
  · next hne =>
      rw [if_neg hne]
      exact h osd' (List.mem_of_getElem? hosd') hopen

theorem Single.attached_after_iff {s : Osds} {e : Call} (hs : s.Single) (h : s.Attached) :
    (s.after e).Attached ↔ s.NoneOpen e := by
  cases e with
  | createProvider =>
      unfold Osds.after Osds.createProvider NoneOpen deletes
      cases hprovider : s.provider with
      | some number => exact iff_of_true h fun n hn => by cases hn
      | none =>
          have hinUse := hs.inUse.trans hprovider
          rw [if_pos rfl, hinUse]
          refine iff_of_true (fun osd hosd hopen => ?_) fun n hn => by cases hn
          have hold : s.deleteOld.osds = s.osds := by rw [Osds.deleteOld, hinUse]
          have hnone := h osd (hold ▸ hosd) hopen
          cases hprovider.symm.trans hnone
  | deleteProvider deviceProvides =>
      unfold Osds.after Osds.deleteProvider NoneOpen deletes
      cases hprovider : s.provider with
      | none => exact iff_of_true h fun n hn => by cases hn
      | some number =>
          refine (h.delete_iff hprovider).trans ?_
          simp
  | otherProvider => exact hs.attached_deleteOld_iff h
  | shutdown =>
      rw [Osds.after, deleteOld_eq]
      exact hs.attached_deleteOld_iff h
  | createOsd left top =>
      unfold Osds.after Osds.createOsd
      cases hinUse : s.inUse with
      | none => exact iff_of_true h fun n hn => by cases hn
      | some provider =>
          refine iff_of_true (fun osd hosd hopen => ?_) fun n hn => by cases hn
          rcases List.mem_append.mp hosd with hold | hnew
          · exact h osd hold hopen
          · obtain rfl := List.mem_singleton.mp hnew
            exact hs.inUse.symm.trans hinUse
  | flush index rendered =>
      refine iff_of_true ?_ fun n hn => by cases hn
      exact h.modify index (fun _ => rfl) fun _ hopen => hopen
  | destroyOsd index =>
      refine iff_of_true ?_ fun n hn => by cases hn
      exact h.modify index (fun _ => rfl) fun _ hopen => by cases hopen

/-- **Providers.** In a run, all messages go to a provider that exists and `_provider` is set
exactly when there is one, exactly when no provider is deleted while one of its OSDs is open. -/
theorem safe_iff_noneOpen {s : Osds} {es : List Call} (hrun : run step {} es = some s) :
    Throughout step Safe {} es ↔ Along step NoneOpen {} es := by
  refine throughout_iff_along (I := Single) ?_ ?_ hrun single_initial ?_
  · intro s e s' hs hstep
    obtain ⟨he, rfl⟩ := step_eq_some.mp hstep
    exact hs.after e
  · intro s e s' hs hsafe hstep
    obtain ⟨he, rfl⟩ := step_eq_some.mp hstep
    rw [(hs.after e).safe_iff]
    exact hs.attached_after_iff (hs.safe_iff.mp hsafe)
  · exact single_initial.safe_iff.mpr fun osd hosd => by cases hosd

def closedInTime : List Call :=
  [.createProvider, .createOsd 10 20, .flush 0 [(0, 0), (5, 5)], .destroyOsd 0,
    .deleteProvider true, .createProvider, .createOsd 30 40, .destroyOsd 1, .otherProvider]

theorem safe_iff_noneOpen_closedInTime :
    (run step {} closedInTime).isSome ∧
      (Throughout step Safe {} closedInTime ↔ Along step NoneOpen {} closedInTime) :=
  ⟨by decide, safe_iff_noneOpen (Option.eq_some_of_isSome (by decide))⟩

/-- `DeleteProvider` is called with an OSD on the screen. -/
theorem not_forall_safe_calls :
    ¬ ∀ es s, run step {} es = some s → Throughout step Safe {} es := by
  intro h
  have hrun : run step {} [.createProvider, .createOsd 10 20, .deleteProvider false] =
      some { made := 1, deleted := [0], osds := [{ provider := 0, left := 10, top := 20 }] } := by
        decide
  have hsafe := (h _ _ hrun).last hrun
  have hexists := hsafe.1 (.destroyOsd 0) (by decide) (0, closeMsg 0) (by decide)
  exact hexists.2 List.mem_cons_self

/-! ### The methods -/

theorem createProvider_iff (s : Osds) :
    .did .createOsdProvider ∈ OsdObjectHelper.createProvider s.provider.isSome ↔
      (s.after .createProvider).made = s.made + 1 := by
  unfold OsdObjectHelper.createProvider after createProvider
  cases s.provider with
  | none => simp
  | some number => simp [sendReply]

theorem deleteProvider_iff (s : Osds) (devices : Devices) (deviceProvides : Bool) :
    .did .deleteOsdProvider ∈ OsdObjectHelper.deleteProvider s.provider.isSome devices ↔
      (s.after (.deleteProvider deviceProvides)).deleted ≠ s.deleted := by
  unfold OsdObjectHelper.deleteProvider after deleteProvider
  cases s.provider with
  | none => simp [sendReply]
  | some number => simp [deleteDBus]

end Osds

end Dbus2vdr.Osd

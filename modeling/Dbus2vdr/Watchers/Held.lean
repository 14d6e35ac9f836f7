import Dbus2vdr.Connection.Link
import Dbus2vdr.Watchers.Commands

/-!
# The ids that are watched

The ids of a bus are those in its pending list and in the list of its connection. They are meant to
change by `WatchBusname` and `UnwatchBusname` alone, and by one id each. `lawful_iff` says which
commands do otherwise: `UnwatchBusname` does not look into the pending list, `AddAllWatchers` loses
every other one of several watchers, deleting the session bus deletes its watchers, and numbers are
cut down to 32 bits on their way in and out.
-/

namespace Dbus2vdr.Watchers

open Intrusive Machine

namespace State

/-- The ids of a bus. -/
def held (s : State) (name : BusName) : List Nat :=
  (s.list (s.buses name).pending ++
    ((s.buses name).object.elim [] fun object => s.list object.watchers)).map watcherId

/-! ### What is promised -/

def Unchanged (s s' : State) : Prop := ∀ name id, id ∈ s'.held name ↔ id ∈ s.held name

/-- `WatchBusname` has a caller and the name to watch. -/
def Asked (option : Option Bytes) : Prop :=
  Avahi.get (optionList option) (ascii "caller") 0 ≠ none ∧
    Avahi.get (optionList option) (ascii "watch") 0 ≠ none

/-- The bus of a `WatchBusname`. -/
def watchTarget (option : Option Bytes) : Option BusName :=
  (Avahi.get (optionList option) (ascii "busname") 0).bind busOf

/-- The bus and the id of an `UnwatchBusname`. -/
def unwatchTarget (option : Option Bytes) : Option (BusName × Nat) :=
  match Avahi.get (optionList option) (ascii "id") 0, watchTarget option with
  | some idStr, some name => if isnumber idStr then some (name, digitsValue idStr) else none
  | _, _ => none

/-- `id` is a new id and the one that is replied, and the only one to come. -/
structure Adds (s s' : State) (message : Bytes) (name : BusName) (id : Nat) : Prop where
  replied : message = ascii "id=" ++ digits id
  new : id ∉ s.held name
  ids : ∀ n i, i ∈ s'.held n ↔ i ∈ s.held n ∨ (n = name ∧ i = id)

def Removes (s s' : State) (name : BusName) (id : Nat) : Prop :=
  ∀ n i, i ∈ s'.held n ↔ i ∈ s.held n ∧ ¬ (n = name ∧ i = id)

def Lawful (s : State) : Event → Prop
  | .watchBusname option =>
      let (s', code, message) := s.watchBusname option
      if code = 900 then ∃ name ∈ watchTarget option, ∃ id, Adds s s' message name id
      else Unchanged s s'
  | .unwatchBusname option =>
      let (s', code, _) := s.unwatchBusname option
      match unwatchTarget option with
      | none => Unchanged s s'
      | some (name, id) =>
          if id ∈ s.held name then code = 900 ∧ Removes s s' name id else Unchanged s s'
  | e => Unchanged s (s.after e)

/-- A new id is printed as it is and is not there yet; an id to be removed is not in the pending
list, and one that is not there is not taken for another one; a bus is made for one pending watcher
at most, and the session bus is not deleted while it has watchers. -/
def Careful (s : State) : Event → Prop
  | .watchBusname option =>
      Asked option → ∀ name ∈ watchTarget option,
        watcherId s.made < 2 ^ 31 ∧ watcherId s.made ∉ s.held name
  | .unwatchBusname option =>
      ∀ name id, unwatchTarget option = some (name, id) →
        if id ∈ s.held name then (s.buses name).object.isSome
        else (s.buses name).object.isSome → longToGuint (min id longMax) ∉ s.held name
  | .setDBusSessionBusAddress option envOk known =>
      envOk = true →
        ((s.buses .session).object.isSome → s.held .session = []) ∧
        (option.getD [] ≠ [] →
          { s with sessionAddress := some (option.getD []) }.stopSessionBus.sessionStarts known →
          (s.held .session).length ≤ 1)
  | .startSystemBus known => s.enableSystem && known → (s.held .system).length ≤ 1
  | .startSessionBus known => s.sessionStarts known → (s.held .session).length ≤ 1
  | .callback .. => True

/-- Why `callback` leaves the lists alone: the callbacks of the main loop go through `_watchers` and
only write `_watch_id`. -/
theorem callbacks_keep_ids {s : Link} {e : LinkEvent} (he : e.dispatched) :
    (s.after e).watchers.map Watcher.id = s.watchers.map Watcher.id := by
  have hwatch : ∀ connection, Watcher.id ∘ (Watcher.watch · connection) = Watcher.id := by
    intro connection
    funext w
    simp only [Function.comp_apply, Watcher.watch]
    split_ifs <;> rfl
  have hrelease : ∀ t : Link, t.release.watchers.map Watcher.id = t.watchers.map Watcher.id := by
    intro t
    rw [Link.release_eq]
    simp only [Link.unregisterWatchers]
    split_ifs
    · rw [List.map_map]
      rfl
    · rfl
  cases e with
  | onBusGet ok =>
      simp only [Link.after, Link.onBusGet]
      split_ifs
      · simp [Link.registerObjects, Link.registerWatchers, Link.ownName, hwatch]
      · rfl
      · rfl
  | onNameLost owner =>
      simp only [Link.after, Link.onNameLost]
      split_ifs
      · exact hrelease s
      · exact hrelease s
      · simp only [Link.onNameLostClose]
        split_ifs <;> exact hrelease s
  | doDisconnect =>
      simp only [Link.after, Link.doDisconnect]
      split_ifs
      · exact hrelease _
      · exact hrelease _
      · simp only [Link.onDisconnectClose]
        split_ifs <;> exact hrelease _
  | doConnect | doReconnect | doFlush | onFlush | onNameLostClose | onDisconnectClose =>
      simp only [Link.after, Link.doConnect, Link.doReconnect, Link.requestBus, Link.endReconnect,
        Link.doFlush, Link.onFlush, Link.onNameLostClose, Link.connect, Link.onDisconnectClose]
      split_ifs <;> rfl
  | _ => cases he

/-! ### What the lists hold -/

/-- The list in which a bus has its watchers. -/
def base (s : State) (name : BusName) : Base Nat :=
  (s.buses name).object.elim (s.buses name).pending BusObject.watchers

structure Tidy (s : State) (watchers : BusName → List Nat) : Prop where
  holds : ∀ n, Holds s.links (s.base n) (watchers n)
  quiet : ∀ n, (s.buses n).object.isSome → (s.buses n).pending = Base.empty
  disjoint : ∀ n m, n ≠ m → List.Disjoint (watchers n) (watchers m)
  made : ∀ n, ∀ w ∈ watchers n, w < s.made
  fresh : ∀ w, s.made ≤ w → s.links.next w = none ∧ s.links.prev w = none
  ids : ∀ n, ((watchers n).map watcherId).Nodup

variable {s s' : State} {watchers : BusName → List Nat} {name : BusName} {ws : List Nat}

theorem length_le_of_lt {xs : List Nat} {n : Nat} (hnodup : xs.Nodup) (hlt : ∀ x ∈ xs, x < n) :
    xs.length ≤ n := by
  have hsub : xs.Subperm (List.range n) :=
    hnodup.subperm fun x hx => List.mem_range.mpr (hlt x hx)
  simpa using hsub.length_le

theorem Tidy.list_base (h : s.Tidy watchers) (n : BusName) : s.list (s.base n) = watchers n :=
  (h.holds n).forward.walk (length_le_of_lt (h.holds n).nodup (h.made n))

theorem list_empty (s : State) : s.list Base.empty = [] := walk_none ..

theorem Tidy.held (h : s.Tidy watchers) (n : BusName) :
    s.held n = (watchers n).map watcherId := by
  have hlist := h.list_base n
  have hquiet := h.quiet n
  unfold State.held
  unfold base at hlist
  cases hobject : (s.buses n).object with
  | none =>
      rw [hobject] at hlist
      exact congrArg _ ((List.append_nil _).trans hlist)
  | some object =>
      rw [hobject] at hlist hquiet
      rw [hquiet rfl, list_empty]
      exact congrArg _ hlist

theorem Tidy.change (h : s.Tidy watchers) (hholds : Holds s'.links (s'.base name) ws)
    (hbuses : ∀ m ≠ name, s'.buses m = s.buses m)
    (hlinks : ∀ m ≠ name, ∀ w ∈ watchers m,
      s'.links.next w = s.links.next w ∧ s'.links.prev w = s.links.prev w)
    (hquiet : (s'.buses name).object.isSome → (s'.buses name).pending = Base.empty)
    (hmem : ∀ w ∈ ws, w ∈ watchers name ∨ s.made ≤ w ∧ w < s'.made)
    (hmade : s.made ≤ s'.made)
    (hfresh : ∀ w, s'.made ≤ w → s'.links.next w = none ∧ s'.links.prev w = none)
    (hids : (ws.map watcherId).Nodup) : s'.Tidy (Function.update watchers name ws) := by
  have hapart : ∀ m ≠ name, List.Disjoint ws (watchers m) := by
    intro m hm w hw hw'
    obtain hold | ⟨hnew, -⟩ := hmem w hw
    · exact h.disjoint name m (Ne.symm hm) hold hw'
    · exact absurd (h.made m w hw') (Nat.not_lt.mpr hnew)
  refine ⟨fun m => ?_, fun m => ?_, fun m n hne => ?_, fun m w hw => ?_, hfresh, fun m => ?_⟩
  · by_cases hm : m = name
    · rw [hm, Function.update_self]
      exact hholds
    · rw [Function.update_of_ne hm, base, hbuses m hm]
      exact (h.holds m).congr (fun w hw => (hlinks m hm w hw).1) fun w hw => (hlinks m hm w hw).2
  · by_cases hm : m = name
    · rw [hm]
      exact hquiet
    · rw [hbuses m hm]
      exact h.quiet m
  · by_cases hm : m = name
    · have hn : n ≠ name := fun hn => hne (hm.trans hn.symm)
      rw [hm, Function.update_self, Function.update_of_ne hn]
      exact hapart n hn
    · by_cases hn : n = name
      · rw [hn, Function.update_self, Function.update_of_ne hm]
        exact (hapart m hm).symm
      · rw [Function.update_of_ne hm, Function.update_of_ne hn]
        exact h.disjoint m n hne
  · by_cases hm : m = name
    · rw [hm, Function.update_self] at hw
      obtain hold | ⟨-, hlt⟩ := hmem w hw
      · exact Nat.lt_of_lt_of_le (h.made name w hold) hmade
      · exact hlt
    · rw [Function.update_of_ne hm] at hw
      exact Nat.lt_of_lt_of_le (h.made m w hw) hmade
  · by_cases hm : m = name
    · rwa [hm, Function.update_self]
    · rw [Function.update_of_ne hm]
      exact h.ids m

theorem tidy_initial (enableSystem enableSession : Bool) (sessionAddress : Option Bytes) :
    Tidy { enableSystem, enableSession, sessionAddress } fun _ => [] where
  holds _ := holds_empty _
  quiet _ _ := rfl
  disjoint _ _ _ := List.disjoint_nil_left _
  made _ _ hw := by cases hw
  fresh _ _ := ⟨rfl, rfl⟩
  ids _ := List.nodup_nil

/-! ### A watcher comes -/

theorem newWatcher_of_none (hobject : (s.buses name).object = none) :
    (s.newWatcher name).1 = addPending { s with made := s.made + 1 } name s.made := by
  simp only [newWatcher, hobject]

theorem newWatcher_of_some {object : BusObject} (hobject : (s.buses name).object = some object) :
    (s.newWatcher name).1 = addWatcher { s with made := s.made + 1 } name object s.made := by
  simp only [newWatcher, hobject, State.watch, ite_self]

theorem newWatcher_spec (s : State) (name : BusName) :
    (s.newWatcher name).1.links = (add s.links (s.base name) s.made).1 ∧
      (s.newWatcher name).1.base name = (add s.links (s.base name) s.made).2 ∧
      (s.newWatcher name).1.made = s.made + 1 ∧
      (∀ m ≠ name, (s.newWatcher name).1.buses m = s.buses m) ∧
      (((s.newWatcher name).1.buses name).object.isSome → (s.buses name).object.isSome ∧
        ((s.newWatcher name).1.buses name).pending = (s.buses name).pending) := by
  cases hobject : (s.buses name).object with
  | none =>
      have hother : ∀ m ≠ name, (s.newWatcher name).1.buses m = s.buses m := by
        intro m hm
        rw [newWatcher_of_none hobject]
        exact Function.update_of_ne hm ..
      refine ⟨?_, ?_, ?_, hother, ?_⟩
      · rw [newWatcher_of_none hobject, base, hobject]
        rfl
      · rw [newWatcher_of_none hobject]
        simp [addPending, base, setBus, hobject]
      · rw [newWatcher_of_none hobject]
        rfl
      · rw [newWatcher_of_none hobject]
        simp [addPending, setBus, hobject]
  | some object =>
      have hother : ∀ m ≠ name, (s.newWatcher name).1.buses m = s.buses m := by
        intro m hm
        rw [newWatcher_of_some hobject]
        exact Function.update_of_ne hm ..
      refine ⟨?_, ?_, ?_, hother, ?_⟩
      · rw [newWatcher_of_some hobject, base, hobject]
        rfl
      · rw [newWatcher_of_some hobject]
        simp [addWatcher, Watchers.addWatcher, base, setBus, hobject]
      · rw [newWatcher_of_some hobject]
        rfl
      · rw [newWatcher_of_some hobject]
        simp [addWatcher, setBus]

theorem Tidy.newWatcher (h : s.Tidy watchers) (hnew : watcherId s.made ∉ s.held name) :
    (s.newWatcher name).1.Tidy (Function.update watchers name (watchers name ++ [s.made])) := by
  obtain ⟨hlinks, hbase, hmade, hother, hpending⟩ := newWatcher_spec s name
  obtain ⟨hnext, hprev⟩ := h.fresh s.made (Nat.le_refl _)
  have hout : ∀ w, s.made ≤ w → ∀ m, w ∉ watchers m := fun w hw m hmem =>
    absurd (h.made m w hmem) (Nat.not_lt.mpr hw)
  rw [h.held] at hnew
  apply h.change
  · rw [hlinks, hbase]
    exact (h.holds name).add hnext hprev (hout s.made (Nat.le_refl _) name)
  · exact hother
  · intro m hm w hw
    have hne : w ≠ s.made := fun heq => absurd (h.made m w hw) (by omega)
    rw [hlinks]
    exact ⟨(h.holds name).add_next fun hmem => h.disjoint m name hm hw hmem, add_prev_of_ne hne⟩
  · intro hsome
    obtain ⟨hsome', hsame⟩ := hpending hsome
    exact hsame.trans (h.quiet name hsome')
  · intro w hw
    rw [hmade]
    obtain hold | hlast := List.mem_append.mp hw
    · exact .inl hold
    · obtain rfl := List.mem_singleton.mp hlast
      exact .inr ⟨Nat.le_refl _, Nat.lt_succ_self _⟩
  · omega
  · intro w hw
    rw [hmade] at hw
    rw [hlinks]
    have hfresh := h.fresh w (by omega)
    exact ⟨((h.holds name).add_next (hout w (by omega) name)).trans hfresh.1,
      (add_prev_of_ne (by omega)).trans hfresh.2⟩
  · rw [List.map_append, List.map_singleton]
    exact List.nodup_append.mpr ⟨h.ids name, List.nodup_singleton _, by
      rintro i hi j hj rfl
      exact hnew (List.mem_singleton.mp hj ▸ hi)⟩

/-- The reply is the id exactly while it is not negative as an `int`. -/
theorem decimal_eq_digits_iff {w id : Nat} :
    decimal (longToInt (watcherId w)) = digits id ↔
    watcherId w < 2 ^ 31 ∧ watcherId w = id := by
  have hrange : watcherId w < 2 ^ 32 := Nat.mod_lt _ (by decide)
  by_cases hsmall : watcherId w < 2 ^ 31
  · have hsame : longToInt (watcherId w) = (watcherId w : Int) := by
      unfold longToInt
      rw [Int.bmod_def]
      omega
    rw [hsame]
    exact ⟨fun h => ⟨hsmall, digits_injective h⟩, fun h => congrArg digits h.2⟩
  · have hnegative : longToInt (watcherId w) < 0 := by
      unfold longToInt
      rw [Int.bmod_def]
      omega
    obtain ⟨n, hn⟩ := Int.eq_negSucc_of_lt_zero hnegative
    rw [hn]
    exact ⟨fun h => absurd h (decimal_negSucc_ne_digits n id), fun h => absurd h.1 hsmall⟩

theorem Tidy.adds_newWatcher (h : s.Tidy watchers) (hsmall : watcherId s.made < 2 ^ 31)
    (hnew : watcherId s.made ∉ s.held name) :
    Adds s (s.newWatcher name).1 (s.newWatcher name).2.2 name (watcherId s.made) where
  replied := congrArg (ascii "id=" ++ ·) (decimal_eq_digits_iff.mpr ⟨hsmall, rfl⟩)
  new := hnew
  ids n i := by
    rw [(h.newWatcher hnew).held, h.held]
    by_cases hn : n = name
    · rw [hn, Function.update_self, List.map_append, List.mem_append]
      simp
    · rw [Function.update_of_ne hn]
      simp [hn]

theorem watchBusname_cases (s : State) (option : Option Bytes) :
    (∃ name ∈ watchTarget option, Asked option ∧
      s.watchBusname option = s.newWatcher name) ∨
      ((Asked option → watchTarget option = none) ∧
        ∃ message, s.watchBusname option = (s, 501, message)) := by
  unfold watchBusname watchTarget
  dsimp only
  split_ifs with hcaller hwatch
  · exact .inr ⟨fun hasked => absurd hcaller hasked.1, _, rfl⟩
  · exact .inr ⟨fun hasked => absurd hwatch hasked.2, _, rfl⟩
  · have hasked : Asked option := ⟨hcaller, hwatch⟩
    cases Avahi.get (optionList option) (ascii "busname") 0 with
    | none => exact .inr ⟨fun _ => rfl, _, rfl⟩
    | some busname =>
        rw [Option.bind_some]
        dsimp only
        cases busOf busname with
        | none => exact .inr ⟨fun _ => rfl, _, rfl⟩
        | some name => exact .inl ⟨name, rfl, hasked, rfl⟩

theorem Tidy.lawful_watchBusname_iff (h : s.Tidy watchers) (option : Option Bytes) :
    s.Lawful (.watchBusname option) ↔ s.Careful (.watchBusname option) := by
  unfold Lawful Careful
  obtain ⟨name, hname, hasked, hnew⟩ | ⟨habsent, message, herror⟩ :=
    s.watchBusname_cases option
  · have hcode : (s.newWatcher name).2.1 = 900 := rfl
    simp only [hnew]
    rw [if_pos hcode]
    constructor
    · rintro ⟨name', hname', id, hadds⟩ - other hother
      obtain rfl : name = name' := Option.mem_unique hname hname'
      obtain rfl : name = other := Option.mem_unique hname hother
      obtain ⟨hsmall, rfl⟩ := decimal_eq_digits_iff.mp (List.append_cancel_left hadds.replied)
      exact ⟨hsmall, hadds.new⟩
    · intro hcareful
      obtain ⟨hsmall, hfresh⟩ := hcareful hasked name hname
      exact ⟨name, hname, _, h.adds_newWatcher hsmall hfresh⟩
  · simp only [herror]
    rw [if_neg (by decide)]
    refine ⟨fun _ hasked name hname => ?_, fun _ _ _ => Iff.rfl⟩
    rw [habsent hasked] at hname
    cases hname

theorem Tidy.after_watchBusname (h : s.Tidy watchers) {option : Option Bytes}
    (hcareful : s.Careful (.watchBusname option)) :
    ∃ watchers', (s.after (.watchBusname option)).Tidy watchers' := by
  unfold after
  obtain ⟨name, hname, hasked, hnew⟩ | ⟨-, message, herror⟩ := s.watchBusname_cases option
  · simp only [hnew]
    exact ⟨_, h.newWatcher (hcareful hasked name hname).2⟩
  · simp only [herror]
    exact ⟨_, h⟩

/-! ### A watcher goes -/

theorem mem_map_watcherId {front back : List Nat} {w i : Nat}
    (hids : ((front ++ w :: back).map watcherId).Nodup) :
    i ∈ (front ++ back).map watcherId ↔
      i ∈ (front ++ w :: back).map watcherId ∧ i ≠ watcherId w := by
  simp only [List.map_append, List.map_cons, List.mem_append, List.mem_cons] at hids ⊢
  have hout := (List.nodup_middle.mp hids)
  rw [List.nodup_cons, List.mem_append] at hout
  constructor
  · intro hi
    exact ⟨hi.imp_right .inr, fun heq => hout.1 (heq ▸ hi)⟩
  · rintro ⟨hi, hne⟩
    exact hi.imp_right fun hi => hi.resolve_left hne

theorem unwatch_of_find_none {object : BusObject} {id : Nat}
    (hfind : (s.list object.watchers).find? (fun w => watcherId w = id) = none) :
    s.unwatch name object id = s := by
  simp only [State.unwatch, hfind]

theorem unwatch_of_find_some {object : BusObject} {id w : Nat}
    (hfind : (s.list object.watchers).find? (fun w => watcherId w = id) = some w) :
    s.unwatch name object id =
      { s.setBus name { s.buses name with
          object := some { object with watchers := (del s.links object.watchers w).2 } } with
        links := (del s.links object.watchers w).1 } := by
  simp only [State.unwatch, hfind]

theorem Tidy.unwatch (h : s.Tidy watchers) {object : BusObject}
    (hobject : (s.buses name).object = some object) (id : Nat) :
    ∃ watchers', (s.unwatch name object id).Tidy watchers' ∧
      ∀ n i, i ∈ (watchers' n).map watcherId ↔
        i ∈ (watchers n).map watcherId ∧ ¬ (n = name ∧ i = id) := by
  have hbase : s.base name = object.watchers := by simp [base, hobject]
  have hholds := h.holds name
  have hlist := h.list_base name
  rw [hbase] at hholds hlist
  cases hfind : (s.list object.watchers).find? (fun w => watcherId w = id) with
  | none =>
      rw [unwatch_of_find_none hfind]
      refine ⟨watchers, h, fun n i => ?_⟩
      rw [hlist, List.find?_eq_none] at hfind
      constructor
      · intro hi
        refine ⟨hi, ?_⟩
        rintro ⟨rfl, rfl⟩
        obtain ⟨w, hw, hid⟩ := List.mem_map.mp hi
        exact hfind w hw (by simpa using hid)
      · exact And.left
  | some w =>
      have hw : w ∈ watchers name := hlist ▸ List.mem_of_find?_eq_some hfind
      have hid : watcherId w = id := by simpa using List.find?_some hfind
      obtain ⟨front, back, hsplit⟩ := List.append_of_mem hw
      have hids := h.ids name
      rw [hsplit] at hholds hids
      rw [unwatch_of_find_some hfind]
      refine ⟨Function.update watchers name (front ++ back), h.change ?_ ?_ ?_ ?_ ?_ ?_ ?_ ?_,
        ?_⟩
      · simpa [base, setBus] using hholds.del
      · exact fun m hm => Function.update_of_ne hm ..
      · intro m hm v hv
        exact hholds.del_of_notMem fun hmem => h.disjoint m name hm hv (hsplit ▸ hmem)
      · intro _
        simpa [setBus] using h.quiet name (by simp [hobject])
      · intro v hv
        rw [hsplit]
        exact .inl ((List.sublist_cons_self w back).append_left front |>.mem hv)
      · exact Nat.le_refl _
      · intro v hv
        have hfresh := h.fresh v hv
        have hdel := hholds.del_of_notMem (x := v) fun hmem =>
          absurd (h.made name v (hsplit ▸ hmem)) (Nat.not_lt.mpr hv)
        exact ⟨hdel.1.trans hfresh.1, hdel.2.trans hfresh.2⟩
      · exact hids.sublist (((List.sublist_cons_self w back).append_left front).map watcherId)
      · intro n i
        by_cases hn : n = name
        · rw [hn, Function.update_self, mem_map_watcherId hids, hid, hsplit]
          simp
        · rw [Function.update_of_ne hn]
          simp [hn]

theorem unwatchBusname_cases (s : State) (option : Option Bytes) :
    (∃ name id object message, unwatchTarget option = some (name, id) ∧
      (s.buses name).object = some object ∧ s.unwatchBusname option =
        (s.unwatch name object (longToGuint (min id longMax)), 900, message)) ∨
      ((∀ name id, unwatchTarget option = some (name, id) → (s.buses name).object = none) ∧
        ∃ message, s.unwatchBusname option = (s, 501, message)) := by
  unfold unwatchBusname unwatchTarget watchTarget
  dsimp only
  cases Avahi.get (optionList option) (ascii "id") 0 with
  | none => exact .inr ⟨by simp, _, rfl⟩
  | some idStr =>
      dsimp only
      by_cases hnumber : isnumber idStr
      · cases Avahi.get (optionList option) (ascii "busname") 0 with
        | none => exact .inr ⟨by simp, _, if_pos hnumber⟩
        | some busname =>
            simp only [Option.bind_some, hnumber, if_true]
            cases hname : busOf busname with
            | none => exact .inr ⟨by simp, _, rfl⟩
            | some name =>
                simp only [Option.bind_some, hnumber, if_true]
                cases hobject : (s.buses name).object with
                | none =>
                    refine .inr ⟨?_, _, rfl⟩
                    rintro name' id heq
                    obtain ⟨rfl, -⟩ := Prod.mk.inj (Option.some.inj heq)
                    exact hobject
                | some object =>
                    exact .inl ⟨name, digitsValue idStr, object, _, rfl, hobject, rfl⟩
      · refine .inr ⟨?_, _, if_neg hnumber⟩
        intro name id heq
        split at heq
        · next hidStr _ =>
            rw [if_neg (Option.some.inj hidStr ▸ hnumber)] at heq
            cases heq
        · cases heq

theorem longToGuint_of_held {id : Nat} (hid : id < 2 ^ 32) : longToGuint (min id longMax) = id := by
  have hmin : min (id : Int) longMax = id := min_eq_left (by unfold longMax; omega)
  rw [hmin, longToGuint]
  omega

theorem lt_of_mem_held {n : BusName} {id : Nat} (hid : id ∈ s.held n) : id < 2 ^ 32 := by
  obtain ⟨w, -, rfl⟩ := List.mem_map.mp hid
  exact Nat.mod_lt _ (by decide)

theorem Tidy.lawful_unwatchBusname_iff (h : s.Tidy watchers) (option : Option Bytes) :
    s.Lawful (.unwatchBusname option) ↔ s.Careful (.unwatchBusname option) := by
  unfold Lawful Careful
  obtain ⟨name, id, object, message, htarget, hobject, hreply⟩ | ⟨habsent, message,
    hreply⟩ :=
    s.unwatchBusname_cases option
  · obtain ⟨watchers', htidy, hids⟩ := h.unwatch hobject (longToGuint (min id longMax))
    have honly : ∀ name' id', unwatchTarget option = some (name', id') →
        name' = name ∧ id' = id := by
      intro name' id' htarget'
      exact Prod.mk.inj (Option.some.inj (htarget'.symm.trans htarget))
    simp only [hreply, htarget]
    split_ifs with hheld
    · constructor
      · rintro - name' id' heq
        obtain ⟨rfl, rfl⟩ := Prod.mk.inj (Option.some.inj heq)
        rw [if_pos hheld, hobject]
        rfl
      · intro _
        refine ⟨trivial, fun n i => ?_⟩
        rw [htidy.held, h.held, hids, longToGuint_of_held (lt_of_mem_held hheld)]
    · constructor
      · rintro hsame name' id' heq
        obtain ⟨rfl, rfl⟩ := Prod.mk.inj (Option.some.inj heq)
        rw [if_neg hheld]
        intro _ hother
        have hstill := (hsame name _).mpr hother
        rw [htidy.held, hids] at hstill
        exact hstill.2 ⟨rfl, rfl⟩
      · intro hcareful n i
        have hother := hcareful name id rfl
        rw [if_neg hheld, hobject] at hother
        rw [htidy.held, h.held, hids, and_iff_left_iff_imp]
        rintro hi ⟨rfl, rfl⟩
        rw [h.held] at hother
        exact hother rfl hi
  · simp only [hreply]
    cases htarget : unwatchTarget option with
    | none => exact ⟨fun _ _ _ heq => (by cases heq), fun _ _ _ => Iff.rfl⟩
    | some target =>
        obtain ⟨name, id⟩ := target
        have hnone := habsent name id htarget
        dsimp only
        split_ifs with hheld
        · constructor
          · rintro ⟨hcode, -⟩
            cases hcode
          · intro hcareful
            have hsome := hcareful name id rfl
            rw [if_pos hheld, hnone] at hsome
            cases hsome
        · refine ⟨fun _ name' id' heq => ?_, fun _ _ _ => Iff.rfl⟩
          obtain ⟨rfl, rfl⟩ := Prod.mk.inj (Option.some.inj heq)
          rw [if_neg hheld, hnone]
          exact fun hsome => by cases hsome

theorem Tidy.after_unwatchBusname (h : s.Tidy watchers) (option : Option Bytes) :
    ∃ watchers', (s.after (.unwatchBusname option)).Tidy watchers' := by
  unfold after
  obtain ⟨name, id, object, message, -, hobject, hreply⟩ | ⟨-, message, hreply⟩ :=
    s.unwatchBusname_cases option
  · obtain ⟨watchers', htidy, -⟩ := h.unwatch hobject (longToGuint (min id longMax))
    simp only [hreply]
    exact ⟨watchers', htidy⟩
  · simp only [hreply]
    exact ⟨watchers, h⟩

/-! ### A bus comes -/

theorem exists_missing {xs : List Nat} (hlength : 2 ≤ xs.length)
    (hids : (xs.map watcherId).Nodup) :
    ∃ i ∈ xs.map watcherId, i ∉ (everyOther xs).map watcherId := by
  match xs, hlength with
  | x :: y :: rest, _ =>
      refine ⟨watcherId y, by simp, fun hmem => ?_⟩
      rw [List.map_cons, List.map_cons, List.nodup_cons, List.nodup_cons] at hids
      rw [everyOther, List.map_cons, List.mem_cons] at hmem
      obtain heq | hmem := hmem
      · exact hids.1 (heq ▸ List.mem_cons_self)
      · exact hids.2.1 (((everyOther_sublist rest).map watcherId).mem hmem)

theorem Tidy.pending (h : s.Tidy watchers) (hobject : (s.buses name).object = none) :
    Holds s.links (s.buses name).pending (watchers name) := by
  have hholds := h.holds name
  rwa [base, hobject] at hholds

theorem Tidy.newBus (h : s.Tidy watchers) (hobject : (s.buses name).object = none)
    (hone : (watchers name).length ≤ 1) : (s.newBus name).Tidy watchers := by
  obtain ⟨hlinks, hmoved, hpending⟩ := addAllWatchers_of_length_le_one (k := s.objects)
    (s := { links := s.links
            connection := s.connection
            watchers := Base.empty
            pending := (s.buses name).pending }) (h.pending hobject) rfl hone
  have hsame : (s.newBus name).links = s.links := hlinks
  rw [← Function.update_eq_self name watchers]
  apply h.change
  · rw [hsame]
    have hbase : (s.newBus name).base name = (s.buses name).pending := by
      simpa [State.newBus, base, setBus] using hmoved
    rw [hbase]
    exact h.pending hobject
  · exact fun m hm => Function.update_of_ne hm ..
  · exact fun m _ w _ => by rw [hsame]; exact ⟨rfl, rfl⟩
  · intro _
    simpa [State.newBus, setBus] using hpending
  · exact fun w hw => .inl hw
  · exact Nat.le_refl _
  · intro w hw
    rw [hsame]
    exact h.fresh w hw
  · exact h.ids name

/-- Every other one of the pending watchers is lost. -/
theorem Tidy.held_newBus (h : s.Tidy watchers) (hobject : (s.buses name).object = none) :
    (s.newBus name).held name = (everyOther (watchers name)).map watcherId := by
  obtain ⟨hwalk, -, -, -, hobjects, -⟩ := addAllWatchers_walk (k := s.objects)
    (s := { links := s.links
            connection := s.connection
            watchers := Base.empty
            pending := (s.buses name).pending }) (holds_empty _) (h.pending hobject)
    (List.disjoint_nil_left _)
  rw [if_pos rfl, List.nil_append] at hwalk
  have hlength : (everyOther (watchers name)).length ≤ s.made :=
    Nat.le_trans (everyOther_sublist _).length_le
      (length_le_of_lt (h.holds name).nodup (h.made name))
  have hlist := hwalk.walk hlength
  simp only [State.held, State.newBus, setBus, Function.update_self, State.list, hobjects,
    walk_none, List.nil_append, Option.elim_some]
  exact congrArg _ hlist

theorem Tidy.unchanged_of_same (h : s.Tidy watchers) (h' : s'.Tidy watchers) : Unchanged s s' := by
  intro n i
  rw [h.held, h'.held]

theorem Tidy.unchanged_newBus_iff (h : s.Tidy watchers) (hobject : (s.buses name).object = none) :
    Unchanged s (s.newBus name) ↔ (s.held name).length ≤ 1 := by
  rw [h.held, List.length_map]
  constructor
  · intro hsame
    by_contra hmany
    obtain ⟨i, hi, hmissing⟩ := exists_missing (by omega) (h.ids name)
    rw [← h.held, ← hsame name i, h.held_newBus hobject] at hi
    exact hmissing hi
  · exact fun hone => h.unchanged_of_same (h.newBus hobject hone)

/-! ### The session bus goes -/

theorem Tidy.setAddress (h : s.Tidy watchers) (address : Option Bytes) :
    Tidy { s with sessionAddress := address } watchers :=
  ⟨h.holds, h.quiet, h.disjoint, h.made, h.fresh, h.ids⟩

/-- What is left of the session's watchers when its bus is deleted. -/
def left (s : State) (watchers : BusName → List Nat) : List Nat :=
  if (s.buses .session).object.isSome then [] else watchers .session

theorem Tidy.stopSessionBus (h : s.Tidy watchers) :
    s.stopSessionBus.Tidy (Function.update watchers .session (s.left watchers)) := by
  have hbase : s.stopSessionBus.base .session = (s.buses .session).pending := by
    simp [State.stopSessionBus, setBus, base]
  apply h.change
  · rw [hbase, left]
    split_ifs with hsome
    · rw [h.quiet .session hsome]
      exact holds_empty _
    · exact h.pending (Option.not_isSome_iff_eq_none.mp hsome)
  · exact fun m hm => Function.update_of_ne hm ..
  · exact fun m _ w _ => ⟨rfl, rfl⟩
  · intro hsome
    simp [State.stopSessionBus, setBus] at hsome
  · intro w hw
    unfold left at hw
    split_ifs at hw with hsome
    · cases hw
    · exact .inl hw
  · exact Nat.le_refl _
  · exact h.fresh
  · unfold left
    split_ifs
    · exact List.nodup_nil
    · exact h.ids .session

theorem Tidy.left_eq_iff (h : s.Tidy watchers) : s.left watchers = watchers .session ↔
    ((s.buses .session).object.isSome → s.held .session = []) := by
  rw [h.held, List.map_eq_nil_iff, left]
  split_ifs with hsome
  · exact ⟨fun heq _ => heq.symm, fun hempty => (hempty hsome).symm⟩
  · exact ⟨fun _ hsome' => absurd hsome' hsome, fun _ => rfl⟩

theorem Tidy.unchanged_update_iff (h : s.Tidy watchers)
    (h' : s'.Tidy (Function.update watchers .session (s.left watchers))) :
    Unchanged s s' ↔ s.left watchers = watchers .session := by
  constructor
  · intro hsame
    unfold left
    split_ifs with hsome
    · have hnone : ∀ i, i ∉ (watchers .session).map watcherId := by
        intro i hi
        rw [← h.held, ← hsame .session i, h'.held, Function.update_self, left, if_pos hsome]
          at hi
        cases hi
      exact (List.map_eq_nil_iff.mp (List.eq_nil_iff_forall_not_mem.mpr hnone)).symm
    · rfl
  · intro heq n i
    rw [h'.held, h.held, heq, Function.update_eq_self]

theorem object_of_sessionStarts {known : Bool} (hstarts : s.sessionStarts known) :
    (s.buses .session).object = none := by
  simp only [sessionStarts, Bool.and_eq_true] at hstarts
  exact Option.isNone_iff_eq_none.mp hstarts.1.1.1

theorem Tidy.startSessionBus (h : s.Tidy watchers) {known : Bool}
    (hone : s.sessionStarts known → (s.held .session).length ≤ 1) :
    (s.startSessionBus known).Tidy watchers := by
  unfold State.startSessionBus
  split_ifs with hstarts
  · rw [h.held, List.length_map] at hone
    exact h.newBus (object_of_sessionStarts hstarts) (hone hstarts)
  · exact h

theorem Tidy.unchanged_startSessionBus_iff (h : s.Tidy watchers) (known : Bool) :
    Unchanged s (s.startSessionBus known) ↔
      (s.sessionStarts known → (s.held .session).length ≤ 1) := by
  unfold State.startSessionBus
  split_ifs with hstarts
  · rw [h.unchanged_newBus_iff (object_of_sessionStarts hstarts)]
    exact ⟨fun hone _ => hone, fun hone => hone hstarts⟩
  · exact ⟨fun _ hstarts' => absurd hstarts' hstarts, fun _ _ _ => Iff.rfl⟩

theorem Tidy.unchanged_restart_iff (h : s.Tidy watchers) {t : State}
    (ht : t.Tidy (Function.update watchers .session (s.left watchers))) (known : Bool) :
    Unchanged s (t.startSessionBus known) ↔
      ((s.buses .session).object.isSome → s.held .session = []) ∧
        (t.sessionStarts known → (s.held .session).length ≤ 1) := by
  by_cases hleft : s.left watchers = watchers .session
  · have hkept := h.left_eq_iff.mp hleft
    rw [hleft, Function.update_eq_self] at ht
    have hheld : ∀ n, t.held n = s.held n := by
      intro n
      calc t.held n
          = (watchers n).map watcherId := ht.held n
        _ = s.held n := (h.held n).symm
    have hstart := ht.unchanged_startSessionBus_iff known
    unfold Unchanged at hstart ⊢
    simp only [hheld] at hstart
    exact hstart.trans ⟨fun hone => ⟨hkept, hone⟩, And.right⟩
  · have hgone : s.left watchers = [] := by
      unfold left at hleft ⊢
      split_ifs at hleft ⊢
      · rfl
      · exact absurd rfl hleft
    have hstart : (t.startSessionBus known).Tidy _ := ht.startSessionBus fun _ => by
      rw [ht.held, Function.update_self, hgone]
      exact Nat.zero_le 1
    rw [h.unchanged_update_iff hstart]
    exact ⟨fun heq => absurd heq hleft, fun hcareful =>
      absurd (h.left_eq_iff.mpr hcareful.1) hleft⟩

theorem setBusAddress_failed (s : State) (option : Option Bytes) (known : Bool) :
    (s.setBusAddress option false known).1 = s := by
  simp only [setBusAddress, Bool.false_eq_true, if_false]
  split_ifs <;> rfl

theorem setBusAddress_set {option : Option Bytes} (hgiven : option.getD [] ≠ []) (known : Bool) :
    (s.setBusAddress option true known).1 =
      { s with sessionAddress := some (option.getD []) }.stopSessionBus.startSessionBus known := by
  simp only [setBusAddress, if_pos hgiven, if_true]

theorem setBusAddress_unset {option : Option Bytes} (hgiven : ¬ option.getD [] ≠ [])
    (known : Bool) : (s.setBusAddress option true known).1 =
      { s with sessionAddress := some [] }.stopSessionBus := by
  simp only [setBusAddress, if_neg hgiven, if_true]

theorem Tidy.lawful_setAddress_iff (h : s.Tidy watchers) (option : Option Bytes)
    (envOk known : Bool) : s.Lawful (.setDBusSessionBusAddress option envOk known) ↔
      s.Careful (.setDBusSessionBusAddress option envOk known) := by
  have hstop := fun address => (h.setAddress address).stopSessionBus
  unfold Lawful Careful after
  dsimp only
  cases envOk with
  | false =>
      rw [setBusAddress_failed]
      exact ⟨fun _ henv => absurd henv (by decide), fun _ _ _ => Iff.rfl⟩
  | true =>
      by_cases hgiven : option.getD [] ≠ []
      · rw [setBusAddress_set hgiven,
          h.unchanged_restart_iff (hstop (some (option.getD [])))]
        exact ⟨fun hboth _ => ⟨hboth.1, fun _ => hboth.2⟩,
          fun hcareful => ⟨(hcareful rfl).1, (hcareful rfl).2 hgiven⟩⟩
      · rw [setBusAddress_unset hgiven, h.unchanged_update_iff (hstop (some [])), h.left_eq_iff]
        exact ⟨fun hkept _ => ⟨hkept, fun hgiven' => absurd hgiven' hgiven⟩,
          fun hcareful => (hcareful rfl).1⟩

theorem Tidy.after_setAddress (h : s.Tidy watchers) {option : Option Bytes} {envOk known : Bool}
    (hcareful : s.Careful (.setDBusSessionBusAddress option envOk known)) :
    ∃ watchers', (s.after (.setDBusSessionBusAddress option envOk known)).Tidy watchers' := by
  have hstop := fun address => (h.setAddress address).stopSessionBus
  simp only [State.after]
  cases envOk with
  | false =>
      rw [setBusAddress_failed]
      exact ⟨watchers, h⟩
  | true =>
      obtain ⟨hkept, hone⟩ := hcareful rfl
      by_cases hgiven : option.getD [] ≠ []
      · rw [setBusAddress_set hgiven]
        refine ⟨_, (hstop (some (option.getD []))).startSessionBus fun hstarts => ?_⟩
        have hheld : Function.update watchers .session (s.left watchers) .session =
            watchers .session := by rw [Function.update_self, h.left_eq_iff.mpr hkept]
        rw [(hstop (some (option.getD []))).held]
        have hlength := hone hgiven hstarts
        rw [h.held, ← hheld] at hlength
        exact hlength
      · rw [setBusAddress_unset hgiven]
        exact ⟨_, hstop (some [])⟩

theorem Tidy.setConnectStatus (h : s.Tidy watchers) (name : BusName) (status : Nat) :
    (s.setConnectStatus name status).Tidy watchers := by
  have hbase : (s.setConnectStatus name status).base name = s.base name := by
    cases hobject : (s.buses name).object <;>
      simp [State.setConnectStatus, setBus, base, hobject]
  rw [← Function.update_eq_self name watchers]
  apply h.change
  · rw [hbase]
    exact h.holds name
  · exact fun m hm => Function.update_of_ne hm ..
  · exact fun m _ w _ => ⟨rfl, rfl⟩
  · intro hsome
    have hquiet := h.quiet name
    simp only [State.setConnectStatus, setBus, Function.update_self, Option.isSome_map] at hsome ⊢
    exact hquiet hsome
  · exact fun w hw => .inl hw
  · exact Nat.le_refl _
  · exact h.fresh
  · exact h.ids name

/-! ### Runs -/

theorem Tidy.lawful_iff (h : s.Tidy watchers) {e : Event} (henabled : s.Enabled e) :
    s.Lawful e ↔ s.Careful e := by
  cases e with
  | watchBusname option => exact h.lawful_watchBusname_iff option
  | unwatchBusname option => exact h.lawful_unwatchBusname_iff option
  | setDBusSessionBusAddress option envOk known => exact h.lawful_setAddress_iff option envOk known
  | startSystemBus known =>
      simp only [Lawful, Careful, after, startSystemBus]
      split_ifs with hstarts
      · rw [h.unchanged_newBus_iff henabled]
        exact ⟨fun hone _ => hone, fun hone => hone hstarts⟩
      · exact ⟨fun _ hstarts' => absurd hstarts' hstarts, fun _ _ _ => Iff.rfl⟩
  | startSessionBus known => exact h.unchanged_startSessionBus_iff known
  | callback name status =>
      exact ⟨fun _ => trivial, fun _ => h.unchanged_of_same (h.setConnectStatus name status)⟩

theorem Tidy.after {e : Event} (h : s.Tidy watchers) (henabled : s.Enabled e)
    (hcareful : s.Careful e) : ∃ watchers', (s.after e).Tidy watchers' := by
  cases e with
  | watchBusname option => exact h.after_watchBusname hcareful
  | unwatchBusname option => exact h.after_unwatchBusname option
  | setDBusSessionBusAddress option envOk known => exact h.after_setAddress hcareful
  | startSystemBus known =>
      simp only [State.after, startSystemBus]
      split_ifs with hstarts
      · have hone := hcareful hstarts
        rw [h.held, List.length_map] at hone
        exact ⟨watchers, h.newBus henabled hone⟩
      · exact ⟨watchers, h⟩
  | startSessionBus known => exact ⟨watchers, h.startSessionBus hcareful⟩
  | callback name status => exact ⟨watchers, h.setConnectStatus name status⟩

/-- **The set of watched ids.** In every run all commands and events keep the law exactly if all of
them are careful. -/
theorem lawful_along_iff {enableSystem enableSession : Bool} {sessionAddress : Option Bytes}
    {es : List Event}
    (hrun : run step { enableSystem, enableSession, sessionAddress } es = some s) :
    Along step Lawful { enableSystem, enableSession, sessionAddress } es ↔
      Along step Careful { enableSystem, enableSession, sessionAddress } es := by
  apply along_iff_along_of_kept (I := fun s => ∃ watchers, s.Tidy watchers) ?_ ?_ hrun
    ⟨_, tidy_initial enableSystem enableSession sessionAddress⟩
  · rintro s e s' ⟨watchers, htidy⟩ hcareful hstep
    obtain ⟨henabled, rfl⟩ := step_eq_some.mp hstep
    exact htidy.after henabled hcareful
  · rintro s e s' ⟨watchers, htidy⟩ hstep
    exact htidy.lawful_iff (step_eq_some.mp hstep).1

/-- One watcher for each bus, the one of the session bus before there is one. -/
def oneEach : List Event :=
  [.watchBusname (some (ascii "caller=p,watch=b,busname=session")), .startSystemBus true,
    .setDBusSessionBusAddress (some (ascii "unix:path=/s")) true true, .callback .session 3,
    .watchBusname (some (ascii "caller=p,watch=b,busname=system")),
    .unwatchBusname (some (ascii "id=1,busname=session"))]

theorem lawful_along_iff_oneEach :
    (run step { enableSystem := true, enableSession := true } oneEach).isSome ∧
      (Along step Lawful { enableSystem := true, enableSession := true } oneEach ↔
        Along step Careful { enableSystem := true, enableSession := true } oneEach) :=
  ⟨by decide, lawful_along_iff (Option.eq_some_of_isSome (by decide))⟩

/-- The watcher is deleted before there is a session bus. -/
def unwatchEarly : List Event :=
  [.watchBusname (some (ascii "caller=p,watch=b,busname=session")),
    .unwatchBusname (some (ascii "id=1,busname=session"))]

theorem not_forall_lawful :
    ¬ ∀ es s, run step { enableSystem := true, enableSession := true } es = some s →
      Along step Lawful { enableSystem := true, enableSession := true } es := by
  intro h
  have hrun : (run step { enableSystem := true, enableSession := true } unwatchEarly).isSome := by
    decide
  have halong := (h unwatchEarly _ (Option.eq_some_of_isSome hrun)).2 _ rfl
  have hlaw := halong.1
  have htarget : unwatchTarget (some (ascii "id=1,busname=session")) = some (.session, 1) := by
    decide
  simp only [Lawful, htarget] at hlaw
  rw [if_pos (by decide)] at hlaw
  exact absurd hlaw.1 (by decide)

end State

end Dbus2vdr.Watchers

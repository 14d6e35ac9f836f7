import Dbus2vdr.Lib.Machine
import Dbus2vdr.Objects.Recordings

/-!
# The plugin's own list of recordings

Before VDR 2.3.1 the methods of `/Recordings` work on a list of the plugin, which `Update(true)`
rebuilds from the disk. `List` rebuilds it always, and so does `Play`; `Get` does when it is empty
("so we don't mess around with the index values returned by List"), and `ChangeName` when it does
not find the recording. A number is a place in the list as it is after that, while the caller has it
from the last `List`.

What becomes of a recording is told apart from where it is listed: `id` stands for the recording,
which keeps it when it is renamed.
-/

namespace Dbus2vdr.OwnRecordings

open Machine

universe u

variable {ρ : Type u}

structure Entry (ρ : Type u) where
  id : ρ
  recording : Recording

structure State (ρ : Type u) where
  /-- What `Update(true)` reads, sorted. -/
  disk : List (Entry ρ)
  recordings : List (Entry ρ)
  /-- What the last call of `List` has returned. -/
  listed : Option (List (Entry ρ))

def initial (disk : List (Entry ρ)) : State ρ := ⟨disk, [], none⟩

inductive Event (ρ : Type u) where
  | disk (entries : List (Entry ρ))
  | list
  | get (params : Params)
  | play (params : Params)
  /-- `renamed` is what the recording is after a `ChangeName` that succeeds. -/
  | changeName (params : Params) (renamed : Recording)

/-! ### Looking for a recording -/

/-- Its place in the list. -/
def position (entries : List (Entry ρ)) (first : Variant) : Option Nat :=
  match first.content with
  | .string path =>
      if path = [] then none
      else entries.findIdx? fun entry => entry.recording.fileName = some path
  | .int32 number =>
      if 0 < number ∧ number ≤ entries.length then some (number - 1).toNat else none
  | _ => none

def denoted (entries : List (Entry ρ)) (first : Variant) : Option (Entry ρ) :=
  (position entries first).bind fun i => entries[i]?

def update (s : State ρ) : State ρ := { s with recordings := s.disk }

/-- A recording is looked for, and it is not in the list. -/
def misses (entries : List (Entry ρ)) (first : Variant) : Bool :=
  match first.content with
  | .string path => path ≠ [] && (position entries first).isNone
  | .int32 number => 0 < number && (position entries first).isNone
  | _ => false

def updateUnlessFound (s : State ρ) (first : Variant) : State ρ :=
  if misses s.recordings first then update s else s

/-- The list when the recording of a call has been looked for. -/
def found (s : State ρ) : Event ρ → State ρ
  | .disk entries => { s with disk := entries }
  | .list => update s
  | .get _ => if s.recordings = [] then update s else s
  | .play params => updateUnlessFound (update s) (params.child 0)
  | .changeName params _ => updateUnlessFound s (params.child 0)

/-- The recording is not in use, and VDR gives it its new name. -/
def renames (recording : Recording) (params : Params) : Bool :=
  let newName := (params.string 1).getD []
  newName ≠ [] && recording.inUse = 0 && (recording.changeName newName).isSome

def rename (entries : List (Entry ρ)) (params : Params) (renamed : Recording) : List (Entry ρ) :=
  match position entries (params.child 0) with
  | none => entries
  | some i =>
      match entries[i]? with
      | none => entries
      | some entry =>
          if renames entry.recording params then entries.set i { entry with recording := renamed }
          else entries

/-- What becomes of the recording on the disk when it is renamed is a change of the disk. -/
def after (s : State ρ) (e : Event ρ) : State ρ :=
  let s := found s e
  match e with
  | .list => { s with listed := some s.recordings }
  | .changeName params renamed => { s with recordings := rename s.recordings params renamed }
  | .disk _ | .get _ | .play _ => s

def step : Step (State ρ) (Event ρ) := fun s e => some (after s e)

/-! ### What the caller sees -/

/-- The recording with the `Index()` that it has in its list. -/
def Entry.withIndex (entry : Entry ρ) (index : Int) : Recording := { entry.recording with index }

/-- The list with the numbers that `Index()` gives. -/
def shown (hmsfToIndex : Bytes → UInt64 → Int) (entries : List (Entry ρ)) : Recordings where
  list := entries.zipIdx.map fun entry => entry.1.withIndex entry.2
  hmsfToIndex := hmsfToIndex

/-- What a call replies on a list: the methods differ from the later ones in the list alone. -/
def replyOn (recs : Recordings) : Event ρ → Trace
  | .disk _ => []
  | .list => RecordingsHelper.list recs
  | .get params => RecordingsHelper.get recs params
  | .play params => RecordingsHelper.play recs params
  | .changeName params _ => RecordingsHelper.changeName recs params

def reply (hmsfToIndex : Bytes → UInt64 → Int) (s : State ρ) (e : Event ρ) : Trace :=
  replyOn (shown hmsfToIndex (found s e).recordings) e

/-- The variant in which a call names its recording. -/
def first? : Event ρ → Option Variant
  | .get params | .play params | .changeName params _ => some (params.child 0)
  | .disk _ | .list => none

/-- The same call for another recording. -/
def Event.of (first : Variant) : Event ρ → Event ρ
  | .get params => .get (params.set 0 first)
  | .play params => .play (params.set 0 first)
  | .changeName params renamed => .changeName (params.set 0 first) renamed
  | e => e

/-- What a call replies when there are no recordings. -/
def replyOnNone (hmsfToIndex : Bytes → UInt64 → Int) (e : Event ρ) : Trace :=
  replyOn ⟨[], hmsfToIndex⟩ e

/-- What a call replies when it is for `recording`, and there are no others. -/
def replyAbout (hmsfToIndex : Bytes → UInt64 → Int) (recording : Recording) (e : Event ρ) :
    Trace :=
  replyOn ⟨[recording], hmsfToIndex⟩ (e.of (.int32 1))

theorem denoted_int32 {entries : List (Entry ρ)} {first : Variant} {number : Int}
    (hfirst : first.content = .int32 number) (hnumber : 0 < number) :
    denoted entries first = entries[(number - 1).toNat]? := by
  rw [denoted, position, hfirst]
  dsimp only
  split
  · rfl
  · rw [List.getElem?_eq_none (by omega)]
    rfl

theorem denoted_of_not_pos {entries : List (Entry ρ)} {first : Variant} {number : Int}
    (hfirst : first.content = .int32 number) (hnumber : ¬ 0 < number) :
    denoted entries first = none := by
  rw [denoted, position, hfirst]
  simp [hnumber]

theorem findIdx?_bind_getElem? {α : Type u} (l : List α) (p : α → Bool) :
    ((l.findIdx? p).bind fun i => l[i]?) = l.find? p := by
  induction l with
  | nil => rfl
  | cons a l ih =>
      rw [List.findIdx?_cons, List.find?_cons]
      cases p a with
      | true => rfl
      | false =>
          rw [← ih]
          cases l.findIdx? p <;> simp

/-- The recording in the place that a call names. -/
def placed (entries : List (Entry ρ)) (first : Variant) : Option Recording :=
  (position entries first).bind fun i => entries[i]?.map fun entry => entry.withIndex i

theorem list_shown (hmsfToIndex : Bytes → UInt64 → Int) (entries : List (Entry ρ)) (i : Nat) :
    (shown hmsfToIndex entries).list[i]? = entries[i]?.map fun entry => entry.withIndex i := by
  rw [shown]
  dsimp only
  rw [List.getElem?_map, List.getElem?_zipIdx, Option.map_map, Nat.zero_add]
  rfl

theorem getByName_shown (hmsfToIndex : Bytes → UInt64 → Int) {entries : List (Entry ρ)}
    {first : Variant} {path : Bytes} (hfirst : first.content = .string path) (hpath : path ≠ []) :
    (shown hmsfToIndex entries).getByName path = placed entries first := by
  have hplace : (shown hmsfToIndex entries).list.findIdx? (fun r => r.fileName = some path) =
      position entries first := by
    rw [position, hfirst]
    dsimp only
    rw [if_neg hpath, shown]
    dsimp only
    rw [List.findIdx?_map]
    conv_rhs => rw [← List.zipIdx_map_fst 0 entries, List.findIdx?_map]
    rfl
  rw [Recordings.getByName, ← findIdx?_bind_getElem?, hplace, placed]
  exact congrArg _ (funext fun i => list_shown hmsfToIndex entries i)

theorem get_shown (hmsfToIndex : Bytes → UInt64 → Int) {entries : List (Entry ρ)}
    {first : Variant} {number : Int} (hfirst : first.content = .int32 number)
    (hnumber : 0 < number) :
    (shown hmsfToIndex entries).get (number - 1) = placed entries first := by
  rw [Recordings.get, if_neg (by omega), list_shown, placed, position, hfirst]
  dsimp only
  split
  · rfl
  · rw [List.getElem?_eq_none (by omega)]
    rfl

/-- What the methods work on is the recording in this place; without one they go on as if there were
no recordings. -/
theorem lookup_shown (hmsfToIndex : Bytes → UInt64 → Int) (entries : List (Entry ρ))
    (first : Variant) (replyMessage : Option Bytes) :
    RecordingsHelper.lookup (shown hmsfToIndex entries) first replyMessage =
      match placed entries first with
      | some recording => (some recording, replyMessage)
      | none => RecordingsHelper.lookup ⟨[], hmsfToIndex⟩ first replyMessage := by
  unfold RecordingsHelper.lookup
  split
  · next path hfirst =>
      by_cases hpath : path = []
      · simp [placed, position, hfirst, hpath]
      · rw [if_neg hpath, if_neg hpath, getByName_shown hmsfToIndex hfirst hpath]
        cases placed entries first <;> rfl
  · next number hfirst =>
      by_cases hnumber : 0 < number
      · rw [if_pos hnumber, if_pos hnumber, get_shown hmsfToIndex hfirst hnumber]
        have hempty : Recordings.get ⟨[], hmsfToIndex⟩ (number - 1) = none :=
          (if_neg (show ¬ number - 1 < 0 by omega)).trans rfl
        cases placed entries first with
        | some recording => rfl
        | none => simp only [hempty]
      · simp [placed, position, hfirst, hnumber]
  · next hstring hint =>
      have hnone : position entries first = none := by
        unfold position
        split
        · next path hfirst => exact absurd hfirst (hstring path)
        · next number hfirst => exact absurd hfirst (hint number)
        · rfl
      rw [placed, hnone]
      rfl

theorem placed_int32 {entries : List (Entry ρ)} {first : Variant} {number : Int}
    (hfirst : first.content = .int32 number) :
    placed entries first = (denoted entries first).map fun entry =>
    entry.withIndex (number - 1) := by
  rw [placed, denoted, position, hfirst]
  dsimp only
  split
  · next hnumber =>
      have hindex : ((number - 1).toNat : Int) = number - 1 := by omega
      rw [Option.bind_some, Option.bind_some, hindex]
  · rfl
/-- `Get` looks for the recording as the others do. -/
theorem get_eq_lookup (recs : Recordings) (params : Params) :
    RecordingsHelper.get recs params =
      [.reply (.value [RecordingsHelper.buildRecording
        (RecordingsHelper.lookup recs (params.child 0) none).1])] := by
  unfold RecordingsHelper.get RecordingsHelper.lookup
  dsimp only
  cases (params.child 0).content with
  | string path =>
      by_cases hpath : path = []
      · simp only [hpath, if_true]
      · simp only [hpath, if_false]
        cases recs.getByName path <;> rfl
  | int32 number =>
      by_cases hnumber : 0 < number
      · by_cases hlength : number ≤ recs.list.length
        · simp only [hnumber, hlength, and_self, if_true]
          cases recs.get (number - 1) <;> rfl
        · have hnone : recs.get (number - 1) = none := by
            rw [Recordings.get, if_neg (by omega), List.getElem?_eq_none (by omega)]
          simp only [hnumber, hlength, and_false, if_true, if_false, hnone]
      · simp [hnumber]
  | int64 | uint64 | boolean | strings | variant | other => rfl

theorem child_zero_set {params : Params} {v : Variant}
    (h : params.child 0 = .other → v = .other) :
    Params.child (params.set 0 v) 0 = v := by
  cases params with
  | nil => exact (h rfl).symm
  | cons first rest => rfl

/-- All that a method takes from the list is the recording of the call. -/
theorem replyOn_congr {recs recs' : Recordings} {e : Event ρ} {first v : Variant}
    (he : first ∈ first? e) (hother : first = .other → v = .other)
    (hlookup : ∀ replyMessage, RecordingsHelper.lookup recs first replyMessage =
      RecordingsHelper.lookup recs' v replyMessage)
    (hhmsf : recs.hmsfToIndex = recs'.hmsfToIndex) : replyOn recs e = replyOn recs' (e.of v) := by
  cases e with
  | disk entries => cases he
  | list => cases he
  | get params =>
      obtain rfl := Option.some.inj he
      rw [Event.of, replyOn, replyOn, get_eq_lookup, get_eq_lookup, child_zero_set hother, hlookup]
  | play params =>
      obtain rfl := Option.some.inj he
      have hsecond : Params.child (params.set 0 v) 1 = params.child 1 := by simp [Params.child]
      have hposition : ∀ recording second, RecordingsHelper.playPosition recs recording second =
          RecordingsHelper.playPosition recs' recording second := fun recording second => by
        rw [RecordingsHelper.playPosition, RecordingsHelper.playPosition, hhmsf]
      simp only [Event.of, replyOn, RecordingsHelper.play, child_zero_set hother, hsecond, hlookup,
        hposition]
  | changeName params renamed =>
      obtain rfl := Option.some.inj he
      have hname : Params.string (params.set 0 v) 1 = params.string 1 := by simp [Params.string]
      simp only [Event.of, replyOn, RecordingsHelper.changeName, child_zero_set hother, hname,
        hlookup]

theorem of_first {e : Event ρ} {first : Variant} (he : first ∈ first? e) : e.of first = e := by
  have hset : ∀ params : Params, params.set 0 (params.child 0) = params := fun params => by
    cases params <;> rfl
  cases e with
  | disk entries => cases he
  | list => cases he
  | get params | play params | changeName params renamed =>
      obtain rfl := Option.some.inj he
      rw [Event.of, hset]

/-- A call replies as if the recording in its place were all there is, or as if there were none. -/
theorem reply_eq (hmsfToIndex : Bytes → UInt64 → Int) {s : State ρ} {e : Event ρ}
    {first : Variant} (he : first ∈ first? e) :
    reply hmsfToIndex s e =
      match placed (found s e).recordings first with
      | some recording => replyAbout hmsfToIndex recording e
      | none => replyOnNone hmsfToIndex e := by
  have hlookup := lookup_shown hmsfToIndex (found s e).recordings first
  cases hplaced : placed (found s e).recordings first with
  | none =>
      rw [hplaced] at hlookup
      have hsame : reply hmsfToIndex s e = replyOnNone hmsfToIndex (e.of first) :=
        replyOn_congr he id hlookup rfl
      rwa [of_first he] at hsame
  | some recording =>
      rw [hplaced] at hlookup
      refine replyOn_congr he (fun hother => ?_) hlookup rfl
      rw [hother] at hplaced
      cases hplaced

/-! ### Numbers between two lists -/

/-- A call with a number is about nothing, and replies as if there were no recordings; or it is
about the one that the last `List` has returned under the number, and replies as if there were no
others. -/
def Stable (hmsfToIndex : Bytes → UInt64 → Int) (s : State ρ) (e : Event ρ) : Prop :=
  ∀ first ∈ first? e, ∀ number, first.content = .int32 number → ∀ listed ∈ s.listed,
    match denoted (found s e).recordings first with
    | none => reply hmsfToIndex s e = replyOnNone hmsfToIndex e
    | some entry =>
        (∃ old : Entry ρ, listed[(number - 1).toNat]? = some old ∧ old.id = entry.id) ∧
          reply hmsfToIndex s e =
            replyAbout hmsfToIndex (entry.withIndex (number - 1)) e

/-- Every place has the recording that `listed` has there. -/
def Agree (entries listed : List (Entry ρ)) : Prop :=
  ∀ (i : Nat) (entry : Entry ρ), entries[i]? = some entry →
    ∃ old : Entry ρ, listed[i]? = some old ∧ old.id = entry.id

/-- The calls, other than `List`, that rebuild the list. -/
def rebuilds (s : State ρ) : Event ρ → Bool
  | .disk _ | .list => false
  | .get _ => s.recordings = []
  | .play _ => true
  | .changeName params _ => misses s.recordings (params.child 0)

/-- Such a call finds the recordings on the disk in the places in which the last `List` has returned
them; some may be missing at the end. -/
def Unshifted (s : State ρ) (e : Event ρ) : Prop :=
  rebuilds s e → ∀ listed ∈ s.listed, Agree s.disk listed

/-- The list still has the numbers of the last `List`. -/
def Numbered (s : State ρ) : Prop := ∀ listed ∈ s.listed, Agree s.recordings listed

theorem Agree.refl (entries : List (Entry ρ)) : Agree entries entries :=
  fun _ entry hentry => ⟨entry, hentry, rfl⟩

theorem Agree.of_ids {entries entries' listed : List (Entry ρ)} (h : Agree entries listed)
    (hids : entries'.map (·.id) = entries.map (·.id)) : Agree entries' listed := by
  intro i entry hentry
  have hid : (entries.map (·.id))[i]? = some entry.id := by
    rw [← hids, List.getElem?_map, hentry]
    rfl
  rw [List.getElem?_map] at hid
  obtain ⟨entry', hentry', hsame⟩ := Option.map_eq_some_iff.mp hid
  obtain ⟨old, hold, holdId⟩ := h i entry' hentry'
  exact ⟨old, hold, holdId.trans hsame⟩

theorem updateUnlessFound_eq (s : State ρ) (first : Variant) :
    updateUnlessFound s first = s ∨ updateUnlessFound s first = update s := by
  unfold updateUnlessFound
  split
  · exact .inr rfl
  · exact .inl rfl

@[simp]
theorem found_listed (s : State ρ) (e : Event ρ) : (found s e).listed = s.listed := by
  cases e with
  | disk entries => rfl
  | list => rfl
  | get params => by_cases hempty : s.recordings = [] <;> simp [found, hempty, update]
  | play params =>
      obtain h | h := updateUnlessFound_eq (update s) (params.child 0) <;> rw [found, h] <;> rfl
  | changeName params renamed =>
      obtain h | h := updateUnlessFound_eq s (params.child 0) <;> rw [found, h]
      rfl

theorem found_recordings {s : State ρ} {e : Event ρ} {first : Variant} (he : first ∈ first? e) :
    (found s e).recordings = if rebuilds s e then s.disk else s.recordings := by
  cases e with
  | disk entries => cases he
  | list => cases he
  | get params =>
      by_cases hempty : s.recordings = []
      · simp [found, rebuilds, hempty, update]
      · simp [found, rebuilds, hempty]
  | play params =>
      obtain h | h := updateUnlessFound_eq (update s) (params.child 0) <;> rw [found, h] <;> rfl
  | changeName params renamed =>
      rw [found, updateUnlessFound, rebuilds]
      split <;> rfl

theorem rename_ids (entries : List (Entry ρ)) (params : Params) (renamed : Recording) :
    (rename entries params renamed).map (·.id) = entries.map (·.id) := by
  unfold rename
  split
  · rfl
  · next i hi =>
      split
      · rfl
      · next entry hentry =>
          split
          · rw [List.map_set]
            apply List.ext_getElem?
            intro j
            by_cases hj : i = j
            · subst hj
              rw [List.getElem?_set_self', List.getElem?_map, hentry]
              rfl
            · rw [List.getElem?_set_ne hj]
          · rfl

theorem after_numbered {s : State ρ} {e : Event ρ} (hs : Numbered s) (he : Unshifted s e) :
    Numbered (after s e) := by
  have hcall : ∀ first ∈ first? e, ∀ listed ∈
      s.listed, Agree (found s e).recordings listed := by
    intro first hfirst listed hlisted
    rw [found_recordings hfirst]
    split
    · next hrebuilds => exact he hrebuilds listed hlisted
    · exact hs listed hlisted
  intro listed hlisted
  cases e with
  | disk entries => exact hs listed hlisted
  | list =>
      obtain rfl := Option.some.inj hlisted
      exact Agree.refl _
  | get params =>
      rw [after, found_listed] at hlisted
      exact hcall _ rfl listed hlisted
  | play params =>
      rw [after, found_listed] at hlisted
      exact hcall _ rfl listed hlisted
  | changeName params renamed =>
      rw [after] at hlisted
      rw [found_listed] at hlisted
      exact (hcall _ rfl listed hlisted).of_ids (rename_ids _ params renamed)

theorem stable_of_numbered (hmsfToIndex : Bytes → UInt64 → Int) {s : State ρ} {e : Event ρ}
    (hs : Numbered s) (he : Unshifted s e) : Stable hmsfToIndex s e := by
  intro first hfirst number hnumber listed hlisted
  have hagree : Agree (found s e).recordings listed := by
    rw [found_recordings hfirst]
    split
    · next hrebuilds => exact he hrebuilds listed hlisted
    · exact hs listed hlisted
  have hreply := reply_eq (s := s) hmsfToIndex hfirst
  rw [placed_int32 hnumber] at hreply
  cases hentry : denoted (found s e).recordings first with
  | none =>
      rw [hentry] at hreply
      exact hreply
  | some entry =>
      rw [hentry] at hreply
      refine ⟨?_, hreply⟩
      by_cases hpositive : 0 < number
      · rw [denoted_int32 hnumber hpositive] at hentry
        exact hagree _ entry hentry
      · rw [denoted_of_not_pos hnumber hpositive] at hentry
        cases hentry

/-- **Numbers are stable.** On a run in which no call but `List` rebuilds the list from a disk on
which the recordings have other places than in the last `List`, every call with a number is about
the recording that the last `List` has returned under it, or about nothing. -/
theorem stable_along (hmsfToIndex : Bytes → UInt64 → Int) (disk : List (Entry ρ))
    (es : List (Event ρ)) (halong : Along step Unshifted (initial disk) es) :
    Along step (Stable hmsfToIndex) (initial disk) es := by
  apply along_of_guarded (I := Numbered) ?_ ?_ halong
  · exact fun listed hlisted => absurd hlisted (Option.not_mem_none listed)
  · intro s e s' hs he hstep
    rw [step, Option.some.injEq] at hstep
    exact hstep ▸ after_numbered hs he
  · exact fun s e hs he => stable_of_numbered hmsfToIndex hs he

def film (id : Nat) (fileName : String) : Entry Nat where
  id := id
  recording :=
    { index := 0, fileName := some (ascii fileName), name := none, fullName := none, title := none
      start := 0, deleted := 0, priority := 0, lifetime := 0, hierarchyLevels := 0
      framesPerSecond := 0, numFrames := 0, lengthInSeconds := 0, fileSizeMB := 0
      isPesRecording := false, isNew := false, isEdited := false, info := none, inUse := 0
      changeName := fun _ => none }

theorem stable_film :
    Along step Unshifted (initial [film 2 "b"]) [.list, .play [.int32 1]] ∧
      Along step (Stable fun _ _ => 0) (initial [film 2 "b"]) [.list, .play [.int32 1]] := by
  have halong : Along step Unshifted (initial [film 2 "b"]) [.list, .play [.int32 1]] := by
    refine ⟨fun hrebuilds => (by cases hrebuilds), fun s' hstep => ?_⟩
    rw [step, Option.some.injEq] at hstep
    subst hstep
    refine ⟨fun _ listed hlisted => ?_, fun _ _ => trivial⟩
    obtain rfl := Option.some.inj hlisted
    exact Agree.refl _
  exact ⟨halong, stable_along _ _ _ halong⟩

/-- A recording comes in front of the one that is listed, and is played under its number. -/
theorem not_forall_stable :
    ¬ ∀ (disk : List (Entry Nat)) (es : List (Event Nat)),
      Along step (Stable fun _ _ => 0) (initial disk) es := by
  intro h
  have halong := h [film 2 "b"] [.list, .disk [film 1 "a", film 2 "b"], .play [.int32 1]]
  have hplay := ((halong.2 _ rfl).2 _ rfl).1
  obtain ⟨old, hold, hid⟩ := (hplay (.int32 1) rfl 1 rfl [film 2 "b"] rfl).1
  obtain rfl := Option.some.inj hold
  exact absurd hid (by decide)

theorem not_stable_get_of_not_agree (hmsfToIndex : Bytes → UInt64 → Int) {s : State ρ}
    {listed : List (Entry ρ)} (hlisted : listed ∈ s.listed)
    (hshifted : ¬ Agree s.recordings listed) :
    ∃ number, ¬ Stable hmsfToIndex s (.get [.int32 number]) := by
  simp only [Agree, not_forall] at hshifted
  obtain ⟨i, entry, hentry, hother⟩ := hshifted
  refine ⟨i + 1, fun hstable => hother ?_⟩
  have hne : s.recordings ≠ [] := by
    intro hempty
    rw [hempty] at hentry
    cases hentry
  have hplace : ((i : Int) + 1 - 1).toNat = i := by omega
  have hdenoted :
      denoted (found s (.get [.int32 (i + 1)])).recordings (.int32 (i + 1)) = some entry := by
    rw [found, if_neg hne, denoted_int32 rfl (by omega), hplace, hentry]
  have hright := hstable (.int32 (i + 1)) rfl (i + 1) rfl listed hlisted
  rw [hdenoted, hplace] at hright
  exact hright.1

/-- After a call that rebuilds the list from a disk with other places there is a number by which
`Get` takes another recording. -/
theorem exists_wrong_number (hmsfToIndex : Bytes → UInt64 → Int) {s : State ρ} {e : Event ρ}
    (he : ¬ Unshifted s e) :
    ∃ number, ¬ Stable hmsfToIndex (after s e) (.get [.int32 number]) := by
  simp only [Unshifted, not_forall] at he
  obtain ⟨hrebuilds, listed, hlisted, hshifted⟩ := he
  have hrecordings : ∀ first ∈ first? e, (found s e).recordings = s.disk := by
    intro first hfirst
    rw [found_recordings hfirst, if_pos hrebuilds]
  have hstill := found_listed s e
  cases e with
  | disk entries => cases hrebuilds
  | list => cases hrebuilds
  | get params =>
      refine not_stable_get_of_not_agree hmsfToIndex (hstill ▸ hlisted) ?_
      rwa [after, hrecordings _ rfl]
  | play params =>
      refine not_stable_get_of_not_agree hmsfToIndex (hstill ▸ hlisted) ?_
      rwa [after, hrecordings _ rfl]
  | changeName params renamed =>
      have hlisted' : listed ∈ (after s (.changeName params renamed)).listed := by
        rw [after]
        exact hstill ▸ hlisted
      refine not_stable_get_of_not_agree hmsfToIndex hlisted' fun hagree => hshifted ?_
      apply hagree.of_ids
      rw [after, rename_ids, hrecordings _ rfl]

end Dbus2vdr.OwnRecordings

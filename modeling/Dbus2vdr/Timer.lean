import Mathlib.Data.List.Nodup
import Dbus2vdr.CString
import Dbus2vdr.Lib.Machine

/-!
# The numbers of timers

`timer.New` and `timer.Next` tell a timer's place in the list, counted from one;
`timer.ListDetailed` tells the id VDR has given it, and `timer.Delete` looks for that id. VDR never
uses an id twice, while the places move up whenever a timer in front is deleted. `roundTrip_iff`
says when a timer has the same number everywhere.

This is the code for VDR from 2.3.1 on. What `cTimer` makes of a settings string is VDR's own and a
parameter here, as is its choice of the next timer.
-/

namespace Dbus2vdr.TimersHelper

def tfRecording : Nat := 8

structure EpgEvent where
  eventId : Nat
  title : Option Bytes

/-- What the methods read of a `cTimer`; `day` is what `PrintDay` makes of `Day` and `WeekDays`. -/
structure Settings where
  remote : Option Bytes
  flags : Nat
  channel : Bytes
  day : Bytes
  start : Int
  stop : Int
  priority : Int
  lifetime : Int
  file : Bytes
  aux : Option Bytes
  event : Option EpgEvent
  pending : Bool
  inVpsMargin : Bool
  startTime : Int
  stopTime : Int

structure Timer where
  id : Int
  settings : Settings

structure TimerText where
  parse : Bytes → Option Settings
  toText : Settings → Bytes

def Settings.recording (settings : Settings) : Bool := settings.flags &&& tfRecording ≠ 0

def Settings.clrRecording (settings : Settings) : Settings :=
  { settings with flags := settings.flags - (settings.flags &&& tfRecording) }

/-- What happened when `timer.New` added a timer: the id VDR gave it, the number in the reply, and
the ids of the timers that were in front of it. -/
structure Added where
  id : Int
  number : Int
  inFront : List Int

/-- VDR's list of timers, with the record of all that were ever added to it. -/
structure Timers where
  list : List Timer := []
  added : List Added := []

def Timers.ids (s : Timers) : List Int := s.list.map (·.id)

/-! ### The methods -/

structure Row where
  id : Int
  remote : Bytes
  flags : Nat
  channel : Bytes
  day : Bytes
  start : Int
  stop : Int
  priority : Int
  lifetime : Int
  file : Bytes
  aux : Bytes
  eventId : Nat
  recording : Bool
  pending : Bool
  inVpsMargin : Bool

def addTimer (timer : Timer) : Row :=
  { id := timer.id
    remote := timer.settings.remote.getD []
    flags := timer.settings.flags
    channel := timer.settings.channel
    day := timer.settings.day
    start := timer.settings.start
    stop := timer.settings.stop
    priority := timer.settings.priority
    lifetime := timer.settings.lifetime
    file := timer.settings.file
    aux := timer.settings.aux.getD []
    eventId := (timer.settings.event.map (·.eventId)).getD 0
    recording := timer.settings.recording
    pending := timer.settings.pending
    inVpsMargin := timer.settings.inVpsMargin }

def listDetailed (s : Timers) : List Row := s.list.map addTimer

def new (vdr : TimerText) (s : Timers) (option : Bytes) (id : Int) : Timers × Int × Bytes :=
  if option = [] then (s, 501, ascii "Missing timer settings")
  else
    match vdr.parse option with
    | none => (s, 501, ascii "Error in timer settings")
    | some settings =>
        let settings := settings.clrRecording
        -- `Index() + 1` of what now is the last timer
        let number : Int := s.list.length + 1
        ({ list := s.list ++ [⟨id, settings⟩], added := s.added ++ [⟨id, number, s.ids⟩] },
          250,
          decimal number ++ ascii " " ++ vdr.toText settings)

/-- `timer.Delete`: `GetById` finds the first timer with the id. -/
def delete (s : Timers) (number : Int) : Timers × Int × Bytes :=
  match s.list.findIdx? fun timer => timer.id = number with
  | some index =>
      ({ s with list := s.list.eraseIdx index }, 250,
        ascii "Timer \"" ++ decimal number ++ ascii "\" deleted")
  | none => (s, 501, ascii "Timer \"" ++ decimal number ++ ascii "\" not defined")

structure NextReply where
  returncode : Int
  number : Int
  seconds : Int
  start : Int
  stop : Int
  title : Bytes

/-- `timer.Next` at time `now`, with the place of the timer that `GetNextActiveTimer` chooses. -/
def next (s : Timers) (getNextActiveTimer : List Timer → Option Nat) (now : Int) : NextReply :=
  match (getNextActiveTimer s.list).bind fun index => s.list[index]?.map (index, ·) with
  | some (index, timer) =>
      { returncode := 250
        number := index + 1
        seconds := timer.settings.startTime - now
        start := timer.settings.startTime
        stop := timer.settings.stopTime
        title := (timer.settings.event.bind (·.title)).getD [] }
  | none => { returncode := 550, number := -1, seconds := 0, start := 0, stop := 0, title := [] }

/-! ### Runs -/

inductive Event where
  | new (option : Bytes) (id : Int)
  | delete (number : Int)

def Enabled (s : Timers) : Event → Prop
  | .new _ id => ∀ a ∈ s.added, a.id ≠ id
  | .delete _ => True

def after (vdr : TimerText) (s : Timers) : Event → Timers
  | .new option id => (new vdr s option id).1
  | .delete number => (delete s number).1

instance decidableEnabled (s : Timers) : DecidablePred (Enabled s)
  | .new _ id => inferInstanceAs (Decidable (∀ a ∈ s.added, a.id ≠ id))
  | .delete _ => inferInstanceAs (Decidable True)

def step (vdr : TimerText) : Machine.Step Timers Event :=
  fun s e => if Enabled s e then some (after vdr s e) else none

theorem step_eq_some {vdr : TimerText} {s s' : Timers} {e : Event} :
    step vdr s e = some s' ↔ Enabled s e ∧ after vdr s e = s' := by
  unfold step
  split_ifs with henabled <;> simp [henabled]

/-- What every method keeps: the list holds some of the timers that were added, in that order, and
in front of each stand some of those that stood there when it was added. -/
structure Sound (s : Timers) : Prop where
  distinct : (s.added.map (·.id)).Nodup
  order : s.ids.Sublist (s.added.map (·.id))
  number : ∀ a ∈ s.added, a.number = a.inFront.length + 1
  inFront : ∀ front timer back, s.list = front ++ timer :: back →
    ∀ a ∈ s.added, a.id = timer.id → (front.map (·.id)).Sublist a.inFront

theorem sound_nil : Sound {} := by
  refine ⟨List.nodup_nil, List.Sublist.refl [], fun a ha => (by cases ha), ?_⟩
  intro front timer back hlist
  simp at hlist

theorem Sound.of_sublist {s : Timers} (hs : Sound s) {list : List Timer}
    (hlist : list.Sublist s.list) : Sound { s with list := list } := by
  refine { hs with order := (hlist.map _).trans hs.order, inFront := ?_ }
  rintro front timer back rfl a ha hid
  obtain ⟨before, behind, hsplit, hfront, hback⟩ := List.append_sublist_iff.mp hlist
  obtain ⟨upTo, beyond, rfl, hmem, -⟩ := List.cons_sublist_iff.mp hback
  obtain ⟨between, more, rfl⟩ := List.append_of_mem hmem
  have hwhole := hs.inFront (before ++ between) timer (more ++ beyond) (by simp [hsplit]) a ha hid
  rw [List.map_append] at hwhole
  calc List.Sublist (front.map (·.id)) (before.map (·.id)) := hfront.map _
    List.Sublist _ (before.map (·.id) ++ between.map (·.id)) := List.sublist_append_left ..
    List.Sublist _ a.inFront := hwhole

theorem Sound.id_mem {s : Timers} (hs : Sound s) {timer : Timer} (htimer : timer ∈ s.list) :
    ∃ a ∈ s.added, a.id = timer.id :=
  List.mem_map.mp (hs.order.subset (List.mem_map_of_mem htimer))

theorem Sound.add {s : Timers} (hs : Sound s) {id : Int} (hfresh : ∀ a ∈ s.added, a.id ≠ id)
    (settings : Settings) :
    Sound
      { list := s.list ++ [⟨id, settings⟩]
        added := s.added ++ [⟨id, s.list.length + 1, s.ids⟩] } := by
  refine ⟨?_, ?_, ?_, ?_⟩
  · rw [List.map_append, List.map_singleton]
    refine List.nodup_append.mpr ⟨hs.distinct, by simp, ?_⟩
    intro known hknown new hnew
    obtain ⟨a, ha, rfl⟩ := List.mem_map.mp hknown
    rw [List.mem_singleton.mp hnew]
    exact hfresh a ha
  · rw [Timers.ids, List.map_append, List.map_append]
    exact hs.order.append (List.Sublist.refl _)
  · intro a ha
    rcases List.mem_append.mp ha with ha | ha
    · exact hs.number a ha
    · obtain rfl := List.mem_singleton.mp ha
      simp [Timers.ids]
  · intro front timer back hlist a ha hid
    rcases List.eq_nil_or_concat back with rfl | ⟨back, last, rfl⟩
    · obtain ⟨rfl, htimer⟩ := List.append_inj' hlist rfl
      obtain rfl := (List.cons.inj htimer).1
      rcases List.mem_append.mp ha with ha | ha
      · exact absurd hid (hfresh a ha)
      · obtain rfl := List.mem_singleton.mp ha
        exact List.Sublist.refl _
    · have hold : s.list = front ++ timer :: back := by
        have hlist' : s.list ++ [⟨id, settings⟩] = (front ++ timer :: back) ++ [last] := by
          simpa using hlist
        exact (List.append_inj' hlist' rfl).1
      rcases List.mem_append.mp ha with ha | ha
      · exact hs.inFront front timer back hold a ha hid
      · obtain rfl := List.mem_singleton.mp ha
        have hmem : timer ∈ s.list := by rw [hold]; simp
        obtain ⟨a, ha, haid⟩ := hs.id_mem hmem
        exact absurd (haid.trans hid.symm) (hfresh a ha)

theorem Sound.step {vdr : TimerText} {s s' : Timers} {e : Event} (hs : Sound s)
    (hstep : step vdr s e = some s') : Sound s' := by
  obtain ⟨henabled, rfl⟩ := step_eq_some.mp hstep
  cases e with
  | new option id =>
      simp only [after, new]
      split_ifs
      · exact hs
      · split
        · exact hs
        · exact hs.add henabled _
  | delete number =>
      simp only [after, delete]
      split
      · exact hs.of_sublist (List.eraseIdx_sublist _ _)
      · exact hs

/-! ### The same number everywhere -/

/-- `n` is the number of the timer at place `index`: in the reply of the `timer.New` that added it,
from `timer.Next` whenever that is about it, and from `timer.ListDetailed`; and `timer.Delete` with
that number takes it, and nothing else, out of the list. -/
structure Numbered (s : Timers) (index : Nat) (a : Added) (n : Int) : Prop where
  new : a.number = n
  next : ∀ getNextActiveTimer now, getNextActiveTimer s.list = some index →
    (next s getNextActiveTimer now).number = n
  listed : (listDetailed s)[index]?.map (·.id) = some n
  delete : (delete s n).1 = { s with list := s.list.eraseIdx index }

theorem delete_id {s : Timers} (hs : Sound s) {index : Nat} {timer : Timer}
    (htimer : s.list[index]? = some timer) :
    (delete s timer.id).1 = { s with list := s.list.eraseIdx index } := by
  obtain ⟨hindex, rfl⟩ := List.getElem?_eq_some_iff.mp htimer
  have hnodup : s.ids.Nodup := hs.order.nodup hs.distinct
  have hfound : s.list.findIdx? (fun t => t.id = (s.list[index]).id) = some index := by
    rw [List.findIdx?_eq_some_iff_getElem]
    refine ⟨hindex, by simp, fun j hj => ?_⟩
    have hne := List.pairwise_iff_getElem.mp hnodup j index (by simp [Timers.ids]; omega)
      (by simpa [Timers.ids] using hindex) hj
    simpa [Timers.ids] using hne
  rw [delete, hfound]

/-- **One number for a timer.** After any run of `timer.New` and `timer.Delete`: a timer has the
same number in all methods, and is deleted by it, if and only if its id is its place in the list and
none of the timers that were in front of it when it was added has gone. -/
theorem roundTrip_iff {vdr : TimerText} {es : List Event} {s : Timers}
    (hrun : Machine.run (step vdr) {} es = some s) (index : Nat) {timer : Timer}
    (htimer : s.list[index]? = some timer) {a : Added} (ha : a ∈ s.added)
    (hid : a.id = timer.id) :
    (∃ n, Numbered s index a n) ↔
      timer.id = index + 1 ∧ (s.list.take index).map (·.id) = a.inFront := by
  have hs : Sound s :=
    Machine.run_invariant (fun _ _ _ ht hstep => ht.step hstep) hrun sound_nil
  have hlisted : (listDetailed s)[index]?.map (·.id) = some timer.id := by
    simp [listDetailed, htimer, addTimer]
  have hnext : ∀ getNextActiveTimer now, getNextActiveTimer s.list = some index →
      (next s getNextActiveTimer now).number = index + 1 := by
    intro getNextActiveTimer now hchosen
    simp [next, hchosen, htimer]
  obtain ⟨hindex, hget⟩ := List.getElem?_eq_some_iff.mp htimer
  have hfront : ((s.list.take index).map (·.id)).Sublist a.inFront :=
    hs.inFront _ timer (s.list.drop (index + 1))
      (by rw [← hget, List.getElem_cons_drop, List.take_append_drop]) a ha hid
  have hplaces : ((s.list.take index).map (·.id)).length = index := by simp; omega
  constructor
  · rintro ⟨n, hn⟩
    have hplace : (index : Int) + 1 = n :=
      (hnext (fun _ => some index) 0 rfl).symm.trans (hn.next (fun _ => some index) 0 rfl)
    have hsame : timer.id = n := Option.some.inj (hlisted.symm.trans hn.listed)
    refine ⟨hsame.trans hplace.symm, hfront.eq_of_length ?_⟩
    have hnumber := hs.number a ha
    have hnew := hn.new
    omega
  · rintro ⟨hplace, hgone⟩
    refine ⟨timer.id, ?_, fun active now hchosen => ?_, hlisted, delete_id hs htimer⟩
    · rw [hs.number a ha, ← hgone, hplaces, hplace]
    · rw [hnext active now hchosen, hplace]

def blankSettings : Settings :=
  { remote := none, flags := 1, channel := [], day := [], start := 0, stop := 0, priority := 50
    lifetime := 99, file := ascii "film", aux := none, event := none, pending := false
    inVpsMargin := false, startTime := 0, stopTime := 0 }

def anyText : TimerText := ⟨fun _ => some blankSettings, fun _ => []⟩

theorem roundTrip_second :
    ∃ es s a n, Machine.run (step anyText) {} es = some s ∧
    a ∈ s.added ∧ Numbered s 1 a n := by
  have hrun : Machine.run (step anyText) {} [.new (ascii "1") 1, .new (ascii "1") 2] = some _ := rfl
  have hadded : (⟨2, 2, [1]⟩ : Added) ∈ [⟨1, 1, []⟩, ⟨2, 2, [1]⟩] :=
    List.mem_cons_of_mem _ List.mem_cons_self
  obtain ⟨n, hn⟩ := (roundTrip_iff hrun 1 rfl hadded rfl).mpr ⟨rfl, rfl⟩
  exact ⟨_, _, _, n, hrun, hadded, hn⟩

/-- The first of two timers is deleted: the other one is the first now, with the id 2. -/
theorem second_timer_moves_up :
    ¬ ∀ (vdr : TimerText) (es : List Event) (s : Timers) (index : Nat) (timer : Timer)
    (a : Added),
      Machine.run (step vdr) {} es = some s → s.list[index]? = some timer → a ∈ s.added →
        a.id = timer.id → ∃ n, Numbered s index a n := by
  intro hall
  obtain ⟨n, hn⟩ := hall anyText [.new (ascii "1") 1, .new (ascii "1") 2, .delete 1] _ 0
    ⟨2, blankSettings.clrRecording⟩ ⟨2, 2, [1]⟩
      rfl rfl (List.mem_cons_of_mem _ List.mem_cons_self)
    rfl
  have hnext := hn.next (fun _ => some 0) 0 rfl
  have hnew := hn.new
  exact absurd (hnew.trans hnext.symm) (by decide)

end Dbus2vdr.TimersHelper

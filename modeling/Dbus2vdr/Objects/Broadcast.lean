import Mathlib.Data.List.Nodup
import Dbus2vdr.Lib.Machine
import Dbus2vdr.Objects.System

/-!
# The sources of the status signals

A `cDBusVdr` puts itself on a static list in its constructor, and the `cVdrStatus` of a
`cDBusStatus` is called by VDR from its construction on. `cDBusVdr::SetStatus` goes through the
list, and both emit their signals on `Connection()` of the object. That pointer is set by
`AddObject`, after the constructor, and the objects are deleted with the members of their
connection, after the destructor of the connection has cleared its mutexes. In between a signal is
emitted on no connection, or on one that is gone. A callback makes its texts before it reads the
pointer, and no mutex keeps its object: what it has begun with may be deleted by then.
-/

namespace Dbus2vdr.Broadcast

open Machine

inductive Kind where
  | vdr
  | status (network : Bool)
  deriving DecidableEq, Repr

/-- A `cDBusVdr` or a `cDBusStatus` with its `cVdrStatus`. -/
structure BusObject where
  kind : Kind
  connection : Option Nat := none
  deleted : Bool := false
  deriving DecidableEq, Repr

/-- What VDR tells a `cStatus`; `osd` stands for all that is about the on-screen display. -/
inductive StatusCall where
  | channelChange
  | timerChange
  | channelSwitch
  | recording
  | replaying
  | setVolume
  | setAudioTrack
  | setAudioChannel
  | setSubtitleTrack
  | osd
  deriving DecidableEq, Repr

/-- Whether `cVdrStatus` emits a signal. -/
def StatusCall.emits (network : Bool) : StatusCall → Bool
  | .channelChange | .timerChange => true
  | .osd => false
  | _ => !network

def Kind.emits (call : StatusCall) : Kind → Bool
  | .vdr => false
  | .status network => call.emits network

/-- Connections and objects are numbered in the order in which they are made. -/
structure State where
  connections : Nat := 0
  /-- The connections whose destructor has cleared the mutexes. -/
  destroyed : List Nat := []
  objects : List BusObject := []
  /-- `cDBusVdr::_objects` -/
  vdrObjects : List Nat := []
  /-- The list on which VDR has its `cStatus` objects. -/
  monitors : List Nat := []
  status : VdrStatus := .unknown
  /-- Calls of `SetStatus` that wait for `_objectsMutex`. -/
  waiting : List VdrStatus := []
  /-- The loop of the call that has it, with its `i`. -/
  loop : Option (VdrStatus × Nat) := none
  /-- The calls VDR has made that have not come to `EmitSignal` yet, with their object. -/
  callbacks : List (Nat × StatusCall) := []
  deriving DecidableEq, Repr

inductive Event where
  | newConnection
  | newVdr
  | newStatus (network : Bool)
  | addObject (conn object : Nat)
  | destroyConnection (conn : Nat)
  | deleteObject (object : Nat)
  | setStatus (status : VdrStatus)
  | lock (status : VdrStatus)
  | emit
  | unlock
  | callback (object : Nat) (call : StatusCall)
  | signal (object : Nat) (call : StatusCall)
  deriving DecidableEq, Repr

namespace State

def alive (s : State) (conn : Nat) : Prop := conn < s.connections ∧ conn ∉ s.destroyed

instance (s : State) (conn : Nat) : Decidable (s.alive conn) :=
  inferInstanceAs (Decidable (_ ∧ _))

/-- Whether a call of VDR comes to `EmitSignal`. -/
def signals (s : State) (object : Nat) (call : StatusCall) : Bool :=
  s.objects[object]?.any fun o => o.kind.emits call

/-- The object of the loop that is next. -/
def current (s : State) : Option Nat := s.loop.bind fun loop => s.vdrObjects[loop.2]?

def Enabled (s : State) : Event → Prop
  | .newConnection => True
  | .newVdr => s.loop = none
  | .newStatus _ => True
  | .addObject conn object =>
      s.alive conn ∧ ∃ o ∈ s.objects[object]?, o.connection = none ∧ o.deleted = false
  | .destroyConnection conn => s.alive conn
  | .deleteObject object =>
      ∃ o ∈ s.objects[object]?, o.deleted = false ∧
        (∃ conn ∈ o.connection, conn ∈ s.destroyed) ∧
        (o.kind = .vdr → s.loop = none)
  | .setStatus _ => True
  | .lock status => status ∈ s.waiting ∧ s.loop = none
  | .emit => s.current ≠ none
  | .unlock => s.loop ≠ none ∧ s.current = none
  | .callback object _ => object ∈ s.monitors
  | .signal object call => (object, call) ∈ s.callbacks

def after (s : State) : Event → State
  | .newConnection => { s with connections := s.connections + 1 }
  | .newVdr =>
      { s with
        objects := s.objects ++ [{ kind := .vdr }]
        vdrObjects := s.vdrObjects ++ [s.objects.length] }
  | .newStatus network =>
      { s with
        objects := s.objects ++ [{ kind := .status network }]
        monitors := s.monitors ++ [s.objects.length] }
  | .addObject conn object =>
      { s with objects := s.objects.modify object fun o => { o with connection := some conn } }
  | .destroyConnection conn => { s with destroyed := conn :: s.destroyed }
  | .deleteObject object =>
      { s with
        objects := s.objects.modify object fun o => { o with deleted := true }
        vdrObjects := s.vdrObjects.erase object
        monitors := s.monitors.erase object }
  | .setStatus status =>
      if s.status = status then s else { s with status, waiting := s.waiting ++ [status] }
  | .lock status => { s with waiting := s.waiting.erase status, loop := some (status, 0) }
  | .emit => { s with loop := s.loop.map fun loop => (loop.1, loop.2 + 1) }
  | .unlock => { s with loop := none }
  | .callback object call => { s with callbacks := s.callbacks ++ [(object, call)] }
  | .signal object call => { s with callbacks := s.callbacks.erase (object, call) }

instance decidableEnabled (s : State) : DecidablePred s.Enabled
  | .newConnection | .newStatus _ | .setStatus _ => isTrue trivial
  | .newVdr => inferInstanceAs (Decidable (s.loop = none))
  | .addObject conn object => inferInstanceAs
      (Decidable (s.alive conn ∧ ∃ o ∈ s.objects[object]?, o.connection = none ∧
        o.deleted = false))
  | .destroyConnection conn => inferInstanceAs (Decidable (s.alive conn))
  | .deleteObject object => inferInstanceAs
      (Decidable (∃ o ∈ s.objects[object]?, o.deleted = false ∧
        (∃ conn ∈ o.connection, conn ∈ s.destroyed) ∧ (o.kind = .vdr → s.loop = none)))
  | .lock status => inferInstanceAs (Decidable (status ∈ s.waiting ∧ s.loop = none))
  | .emit => inferInstanceAs (Decidable (s.current ≠ none))
  | .unlock => inferInstanceAs (Decidable (s.loop ≠ none ∧ s.current = none))
  | .callback object _ => inferInstanceAs (Decidable (object ∈ s.monitors))
  | .signal object call => inferInstanceAs (Decidable ((object, call) ∈ s.callbacks))

def step : Step State Event := fun s e => if s.Enabled e then some (s.after e) else none

theorem step_eq_some {s s' : State} {e : Event} :
    step s e = some s' ↔ s.Enabled e ∧ s.after e = s' := by
  unfold step
  split_ifs with henabled <;> simp [henabled]

/-- The object whose `Connection()` a step emits a signal on. -/
def emitter (s : State) : Event → Option Nat
  | .emit => s.current
  | .signal object call => if s.signals object call then some object else none
  | _ => none

end State

/-! ### Lists of live objects -/

/-- The list has the live objects of some kinds, each once. -/
structure Lists (objects : List BusObject) (p : Kind → Bool) (l : List Nat) : Prop where
  nodup : l.Nodup
  mem_iff : ∀ i, i ∈ l ↔ ∃ o ∈ objects[i]?, p o.kind = true ∧ o.deleted = false

section Lists

variable {objects : List BusObject} {p : Kind → Bool} {l : List Nat} {o : BusObject} {i : Nat}

theorem Lists.lt (h : Lists objects p l) (hi : i ∈ l) : i < objects.length := by
  obtain ⟨o, ho, -⟩ := (h.mem_iff i).mp hi
  exact (List.getElem?_eq_some_iff.mp ho).1

theorem getElem?_append_new (objects : List BusObject) (o : BusObject) (i : Nat) :
    (objects ++ [o])[i]? = if i = objects.length then some o else objects[i]? := by
  by_cases hi : i = objects.length
  · rw [if_pos hi, hi, List.getElem?_concat_length]
  · rw [if_neg hi]
    cases Nat.lt_or_gt_of_ne hi with
    | inl hlt => exact List.getElem?_append_left hlt
    | inr hgt =>
        have hlength : (objects ++ [o]).length ≤ i := by
          rw [List.length_append, List.length_singleton]
          omega
        rw [List.getElem?_eq_none hlength, List.getElem?_eq_none hgt.le]

theorem Lists.new (h : Lists objects p l) (hp : p o.kind = true) (ho : o.deleted = false) :
    Lists (objects ++ [o]) p (l ++ [objects.length]) := by
  have hfresh : objects.length ∉ l := fun hmem => absurd (h.lt hmem) (Nat.lt_irrefl _)
  refine ⟨List.nodup_append.mpr ⟨h.nodup, List.nodup_singleton _, ?_⟩, fun i => ?_⟩
  · intro a ha b hb heq
    exact hfresh (List.mem_singleton.mp hb ▸ heq ▸ ha)
  · rw [List.mem_append, List.mem_singleton, getElem?_append_new, h.mem_iff]
    by_cases hi : i = objects.length
    · simp [hi, hp, ho]
    · simp [hi]

theorem Lists.new_other (h : Lists objects p l) (hp : p o.kind = false) :
    Lists (objects ++ [o]) p l := by
  refine ⟨h.nodup, fun i => ?_⟩
  rw [getElem?_append_new, h.mem_iff]
  by_cases hi : i = objects.length
  · simp [hi, hp]
  · simp [hi]

theorem Lists.modify (h : Lists objects p l) (i : Nat) {f : BusObject → BusObject}
    (hkind : ∀ o, (f o).kind = o.kind) (hdeleted : ∀ o, (f o).deleted = o.deleted) :
    Lists (objects.modify i f) p l := by
  refine ⟨h.nodup, fun j => ?_⟩
  rw [h.mem_iff, List.getElem?_modify]
  by_cases hij : i = j
  · simp [hij, hkind, hdeleted]
  · simp [hij]

theorem Lists.delete (h : Lists objects p l) (i : Nat) :
    Lists (objects.modify i fun o => { o with deleted := true }) p (l.erase i) := by
  refine ⟨h.nodup.erase i, fun j => ?_⟩
  rw [h.nodup.mem_erase_iff, h.mem_iff, List.getElem?_modify]
  by_cases hij : i = j
  · simp [hij]
  · simp [hij, Ne.symm hij]

end Lists

/-! ### The lists of the signal sources -/

namespace State

def isVdr (kind : Kind) : Bool := kind = .vdr

def isStatus (kind : Kind) : Bool := kind ≠ .vdr

/-- `_objects` has exactly the live `cDBusVdr` objects, each once. -/
def Exact (s : State) : Prop := Lists s.objects isVdr s.vdrObjects

structure Registered (s : State) : Prop where
  vdr : s.Exact
  status : Lists s.objects isStatus s.monitors
  made : ∀ (i : Nat), ∀ o ∈ s.objects[i]?, ∀ conn ∈ o.connection, conn < s.connections
  begun : ∀ c ∈ s.callbacks, c.1 < s.objects.length

theorem registered_initial : Registered {} :=
  ⟨⟨List.nodup_nil, by simp⟩, ⟨List.nodup_nil, by simp⟩, by simp, by simp⟩

theorem Registered.after {s : State} {e : Event} (hs : s.Registered) (he : s.Enabled e) :
    (s.after e).Registered := by
  have hnew : ∀ o : BusObject, o.connection = none →
    ∀ (i : Nat), ∀ o' ∈ (s.objects ++ [o])[i]?,
      ∀ conn ∈ o'.connection, conn < s.connections := by
    intro o ho i o' ho' conn hconn
    rw [getElem?_append_new] at ho'
    split at ho'
    · obtain rfl := Option.some.inj ho'
      exact absurd (ho.symm.trans hconn) (Option.some_ne_none conn).symm
    · exact hs.made i o' ho' conn hconn
  have hmore : ∀ (o : BusObject), ∀ c ∈ s.callbacks, c.1 < (s.objects ++ [o]).length := by
    intro o c hc
    rw [List.length_append]
    exact Nat.lt_add_right _ (hs.begun c hc)
  have hsame : ∀ (i : Nat) (f : BusObject → BusObject), ∀ c ∈ s.callbacks,
      c.1 < (s.objects.modify i f).length := by
    intro i f c hc
    rw [List.length_modify]
    exact hs.begun c hc
  cases e with
  | newConnection =>
      exact ⟨hs.vdr, hs.status,
        fun i o ho conn hconn => Nat.lt_succ_of_lt (hs.made i o ho conn hconn), hs.begun⟩
  | newVdr => exact ⟨hs.vdr.new rfl rfl, hs.status.new_other rfl, hnew _ rfl, hmore _⟩
  | newStatus network =>
      exact ⟨hs.vdr.new_other rfl, hs.status.new rfl rfl, hnew _ rfl, hmore _⟩
  | addObject conn object =>
      refine ⟨hs.vdr.modify object (fun _ => rfl) fun _ => rfl,
        hs.status.modify object (fun _ => rfl) fun _ => rfl, ?_, hsame _ _⟩
      intro i o ho conn' hconn
      rw [State.after, List.getElem?_modify] at ho
      obtain ⟨o', ho', rfl⟩ := Option.map_eq_some_iff.mp ho
      split at hconn
      · obtain rfl := Option.some.inj hconn
        exact he.1.1
      · exact hs.made i o' ho' conn' hconn
  | destroyConnection conn => exact ⟨hs.vdr, hs.status, hs.made, hs.begun⟩
  | deleteObject object =>
      refine ⟨hs.vdr.delete object, hs.status.delete object, ?_, hsame _ _⟩
      intro i o ho conn hconn
      rw [State.after, List.getElem?_modify] at ho
      obtain ⟨o', ho', rfl⟩ := Option.map_eq_some_iff.mp ho
      split at hconn <;> exact hs.made i o' ho' conn hconn
  | setStatus status =>
      rw [State.after]
      split
      · exact hs
      · exact ⟨hs.vdr, hs.status, hs.made, hs.begun⟩
  | lock status => exact ⟨hs.vdr, hs.status, hs.made, hs.begun⟩
  | emit => exact ⟨hs.vdr, hs.status, hs.made, hs.begun⟩
  | unlock => exact ⟨hs.vdr, hs.status, hs.made, hs.begun⟩
  | callback object call =>
      refine ⟨hs.vdr, hs.status, hs.made, fun c hc => ?_⟩
      rcases List.mem_append.mp hc with hold | hlast
      · exact hs.begun c hold
      · rw [List.mem_singleton.mp hlast]
        exact hs.status.lt he
  | signal object call =>
      exact ⟨hs.vdr, hs.status, hs.made, fun c hc => hs.begun c (List.mem_of_mem_erase hc)⟩

theorem registered_step (s : State) (e : Event) (s' : State) (hs : s.Registered)
    (hstep : step s e = some s') : s'.Registered := by
  obtain ⟨he, rfl⟩ := step_eq_some.mp hstep
  exact hs.after he

/-! ### Emitting -/

/-- The object is there, and so is the connection it has been added to. -/
def Attached (s : State) (object : Nat) : Prop :=
  ∃ o ∈ s.objects[object]?, o.deleted = false ∧ ∃ conn ∈ o.connection, s.alive conn

/-- A signal is emitted by a live object, on a connection that is there. -/
def Sound (s : State) (e : Event) : Prop := ∀ object ∈ s.emitter e, s.Attached object

/-- The objects of the loop that are still to come. -/
def ahead (s : State) : List Nat :=
  match s.loop with
  | some loop => s.vdrObjects.drop loop.2
  | none => []

/-- The objects that a signal is on its way to. -/
def pending (s : State) : List Nat :=
  s.ahead ++ (s.callbacks.filter fun c => s.signals c.1 c.2).map Prod.fst

/-- The object has been added to a connection, whose destructor has not cleared the mutexes. -/
def Placed (s : State) (object : Nat) : Prop :=
  ∃ o ∈ s.objects[object]?, ∃ conn ∈ o.connection, conn ∉ s.destroyed

/-- A loop or a callback starts when the objects it is about have been added to their connections,
and no destructor of these connections has begun. A connection is destroyed when no signal is on its
way to an object of it. -/
def Timely (s : State) : Event → Prop
  | .lock _ => ∀ object ∈ s.vdrObjects, s.Placed object
  | .callback object call => s.signals object call = true → s.Placed object
  | .destroyConnection conn =>
      ∀ object ∈ s.pending, ∀ o ∈ s.objects[object]?, conn ∉ o.connection
  | _ => True

section Emitting

variable {s s' : State} {e : Event} {object : Nat}

theorem mem_pending :
    object ∈ s.pending ↔
      object ∈ s.ahead ∨ ∃ call, (object, call) ∈ s.callbacks ∧
      s.signals object call = true := by
  simp [pending]

theorem emitter_pending (he : s.Enabled e) (hobject : object ∈ s.emitter e) :
    object ∈ s.pending := by
  rw [mem_pending]
  cases e with
  | emit =>
      obtain ⟨loop, hloop, hget⟩ := Option.bind_eq_some_iff.mp hobject
      refine .inl ?_
      rw [ahead, hloop]
      exact List.mem_iff_getElem?.mpr ⟨0, by rw [List.getElem?_drop, Nat.add_zero, hget]⟩
  | signal object' call =>
      unfold emitter at hobject
      dsimp only at hobject
      split at hobject
      · obtain rfl := Option.some.inj hobject
        exact .inr ⟨call, he, ‹_›⟩
      · cases hobject
  | newConnection | newVdr | newStatus | addObject | destroyConnection | deleteObject | setStatus
  | lock | unlock | callback => cases hobject

theorem Registered.attached_of_placed (hs : s.Registered)
    (hlive : object ∈ s.vdrObjects ∨ object ∈ s.monitors) (hplaced : s.Placed object) :
    s.Attached object := by
  obtain ⟨o, ho, conn, hconn, hdestroyed⟩ := hplaced
  have hdeleted : ∃ o ∈ s.objects[object]?, o.deleted = false := by
    rcases hlive with hvdr | hstatus
    · obtain ⟨o', ho', -, hdeleted⟩ := (hs.vdr.mem_iff object).mp hvdr
      exact ⟨o', ho', hdeleted⟩
    · obtain ⟨o', ho', -, hdeleted⟩ := (hs.status.mem_iff object).mp hstatus
      exact ⟨o', ho', hdeleted⟩
  obtain ⟨o', ho', hdeleted⟩ := hdeleted
  obtain rfl := Option.mem_unique ho' ho
  exact ⟨o', ho', hdeleted, conn, hconn, hs.made object o' ho' conn hconn, hdestroyed⟩

theorem Attached.placed (h : s.Attached object) : s.Placed object := by
  obtain ⟨o, ho, -, conn, hconn, -, hdestroyed⟩ := h
  exact ⟨o, ho, conn, hconn, hdestroyed⟩

/-- An object stays on its connection until the destructor of the connection. -/
theorem Attached.after (h : s.Attached object) (he : s.Enabled e) (htimely : ∀ conn,
    e = .destroyConnection conn → ∀ o ∈ s.objects[object]?, conn ∉ o.connection) :
    (s.after e).Attached object := by
  obtain ⟨o, ho, hdeleted, conn, hconn, hmade, hdestroyed⟩ := h
  have hold : ∀ o' : BusObject, (s.objects ++ [o'])[object]? = some o := by
    intro o'
    rw [getElem?_append_new, if_neg, ho]
    exact (List.getElem?_eq_some_iff.mp ho).1.ne
  cases e with
  | newConnection => exact ⟨o, ho, hdeleted, conn, hconn, Nat.lt_succ_of_lt hmade, hdestroyed⟩
  | newVdr => exact ⟨o, hold _, hdeleted, conn, hconn, hmade, hdestroyed⟩
  | newStatus network => exact ⟨o, hold _, hdeleted, conn, hconn, hmade, hdestroyed⟩
  | addObject conn' object' =>
      obtain ⟨-, o', ho', hnone, -⟩ := he
      have hne : object' ≠ object := by
        rintro rfl
        obtain rfl := Option.mem_unique ho' ho
        exact absurd (hnone.symm.trans hconn) (Option.some_ne_none conn).symm
      exact ⟨o, (List.getElem?_modify_ne _ _ hne).trans ho, hdeleted, conn, hconn, hmade,
        hdestroyed⟩
  | destroyConnection conn' =>
      refine ⟨o, ho, hdeleted, conn, hconn, hmade, fun hmem => ?_⟩
      rcases List.mem_cons.mp hmem with rfl | hmem
      · exact htimely conn rfl o ho hconn
      · exact hdestroyed hmem
  | deleteObject object' =>
      obtain ⟨o', ho', -, ⟨conn', hconn', horphaned⟩, -⟩ := he
      have hne : object' ≠ object := by
        rintro rfl
        obtain rfl := Option.mem_unique ho' ho
        exact hdestroyed (Option.mem_unique hconn' hconn ▸ horphaned)
      exact ⟨o, (List.getElem?_modify_ne _ _ hne).trans ho, hdeleted, conn, hconn, hmade,
        hdestroyed⟩
  | setStatus status =>
      rw [State.after]
      split
      · exact ⟨o, ho, hdeleted, conn, hconn, hmade, hdestroyed⟩
      · exact ⟨o, ho, hdeleted, conn, hconn, hmade, hdestroyed⟩
  | lock | emit | unlock | callback | signal =>
      exact ⟨o, ho, hdeleted, conn, hconn, hmade, hdestroyed⟩

/-- What is made, added or deleted keeps its kind. -/
theorem signals_after (e : Event) {call : StatusCall} (hlt : object < s.objects.length) :
    (s.after e).signals object call = s.signals object call := by
  have hnew : ∀ o : BusObject, (s.objects ++ [o])[object]? = s.objects[object]? := fun o =>
    List.getElem?_append_left hlt
  have hsame : ∀ (i : Nat) (f : BusObject → BusObject), (∀ o, (f o).kind = o.kind) →
      ((s.objects.modify i f)[object]?.any fun o => o.kind.emits call) =
        s.objects[object]?.any fun o => o.kind.emits call := by
    intro i f hf
    rw [List.getElem?_modify]
    cases s.objects[object]? with
    | none => rfl
    | some o => by_cases hi : i = object <;> simp [hi, hf]
  cases e with
  | newVdr | newStatus => simp only [signals, State.after, hnew]
  | addObject conn object' => exact hsame object' _ fun _ => rfl
  | deleteObject object' => exact hsame object' _ fun _ => rfl
  | setStatus status =>
      rw [State.after]
      split <;> rfl
  | newConnection | destroyConnection | lock | emit | unlock | callback | signal => rfl

/-- A step sets a signal on its way to an object. -/
def Starts (s : State) (object : Nat) : Event → Prop
  | .lock _ => object ∈ s.vdrObjects
  | .callback object' call => object' = object ∧ s.signals object call = true
  | _ => False

/-- What is deleted while a loop runs is not on the list. -/
theorem Registered.vdrObjects_deleteObject (hs : s.Registered)
    (he : s.Enabled (.deleteObject object)) (hloop : s.loop ≠ none) :
    (s.after (.deleteObject object)).vdrObjects = s.vdrObjects := by
  obtain ⟨o, ho, -, -, hvdr⟩ := he
  refine List.erase_of_not_mem fun hmem => hloop (hvdr ?_)
  obtain ⟨o', ho', hkind, -⟩ := (hs.vdr.mem_iff object).mp hmem
  obtain rfl := Option.mem_unique ho' ho
  exact of_decide_eq_true hkind

theorem Registered.ahead_after (hs : s.Registered) (he : s.Enabled e)
    (h : object ∈ (s.after e).ahead) : object ∈ s.ahead ∨ s.Starts object e := by
  cases e with
  | lock status => exact .inr h
  | emit =>
      obtain ⟨next, hnext⟩ := Option.ne_none_iff_exists'.mp he
      obtain ⟨loop, hloop, -⟩ := Option.bind_eq_some_iff.mp hnext
      simp only [ahead, State.after, hloop, Option.map_some] at h ⊢
      exact .inl (List.drop_subset_drop_left _ (Nat.le_succ _) h)
  | unlock => cases h
  | newVdr =>
      simp only [ahead, State.after, show s.loop = none from he] at h
      cases h
  | deleteObject object' =>
      by_cases hloop : s.loop = none
      · simp only [ahead, State.after, hloop] at h
        cases h
      · rw [ahead, hs.vdrObjects_deleteObject he hloop] at h
        exact .inl h
  | setStatus status =>
      rw [State.after] at h
      split at h <;> exact .inl h
  | newConnection | newStatus | addObject | destroyConnection | callback | signal => exact .inl h

theorem callbacks_after {c : Nat × StatusCall} (h : c ∈ (s.after e).callbacks) :
    c ∈ s.callbacks ∨ e = .callback c.1 c.2 := by
  cases e with
  | callback object' call =>
      rcases List.mem_append.mp h with hold | hlast
      · exact .inl hold
      · exact .inr (by rw [List.mem_singleton.mp hlast])
  | signal object' call => exact .inl (List.mem_of_mem_erase h)
  | setStatus status =>
      rw [State.after] at h
      split at h <;> exact .inl h
  | newConnection | newVdr | newStatus | addObject | destroyConnection | deleteObject | lock | emit
  | unlock => exact .inl h

/-- A signal is on its way to an object since its loop or its callback has started. -/
theorem Registered.pending_after (hs : s.Registered) (he : s.Enabled e)
    (h : object ∈ (s.after e).pending) : object ∈ s.pending ∨ s.Starts object e := by
  rw [mem_pending] at h ⊢
  rcases h with hahead | ⟨call, hcall, hsignals⟩
  · exact (hs.ahead_after he hahead).imp_left .inl
  · rcases callbacks_after hcall with hold | rfl
    · rw [signals_after e (hs.begun _ hold)] at hsignals
      exact .inl (.inr ⟨call, hold, hsignals⟩)
    · exact .inr ⟨rfl, hsignals⟩

theorem Starts.live (h : s.Starts object e) (he : s.Enabled e) :
    object ∈ s.vdrObjects ∨ object ∈ s.monitors := by
  cases e with
  | lock status => exact .inl h
  | callback object' call =>
      obtain ⟨rfl, -⟩ := h
      exact .inr he
  | _ => cases h

theorem Starts.placed (h : s.Starts object e) (htimely : s.Timely e) : s.Placed object := by
  cases e with
  | lock status => exact htimely object h
  | callback object' call =>
      obtain ⟨rfl, hsignals⟩ := h
      exact htimely hsignals
  | _ => cases h

theorem Starts.pending (h : s.Starts object e) : object ∈ (s.after e).pending := by
  rw [mem_pending]
  cases e with
  | lock status => exact .inl h
  | callback object' call =>
      obtain ⟨rfl, hsignals⟩ := h
      exact .inr ⟨call, List.mem_append_right _ (List.mem_singleton_self _), hsignals⟩
  | _ => cases h

/-- A signal is only on its way to objects on a connection that is there. -/
structure Ready (s : State) : Prop where
  registered : s.Registered
  attached : ∀ object ∈ s.pending, s.Attached object

theorem ready_initial : Ready {} := ⟨registered_initial, by simp [pending, ahead]⟩

theorem Ready.step (hs : s.Ready) (htimely : s.Timely e) (hstep : State.step s e = some s') :
    s'.Ready := by
  obtain ⟨he, rfl⟩ := step_eq_some.mp hstep
  refine ⟨hs.registered.after he, fun object hobject => ?_⟩
  rcases hs.registered.pending_after he hobject with hpending | hstarts
  · refine (hs.attached object hpending).after he ?_
    rintro conn rfl
    exact htimely object hpending
  · refine (hs.registered.attached_of_placed (hstarts.live he) (hstarts.placed htimely)).after he
      ?_
    rintro conn rfl
    cases hstarts

theorem Ready.sound (hs : s.Ready) (he : s.Enabled e) : s.Sound e := fun object hobject =>
  hs.attached object (emitter_pending he hobject)

/-- After a step at a wrong time a signal is on its way to an object that is not on a connection. -/
theorem pending_of_not_timely (hnot : ¬ s.Timely e) :
    ∃ object ∈ (s.after e).pending, ¬ (s.after e).Attached object := by
  cases e with
  | lock status =>
      obtain ⟨object, hmem, hplaced⟩ : ∃ object ∈ s.vdrObjects, ¬ s.Placed object := by
        simpa only [Timely, not_forall, exists_prop] using hnot
      have hstarts : s.Starts object (.lock status) := hmem
      exact ⟨object, hstarts.pending, fun hattached => hplaced hattached.placed⟩
  | callback object call =>
      obtain ⟨hsignals, hplaced⟩ := Classical.not_imp.mp hnot
      have hstarts : s.Starts object (.callback object call) := ⟨rfl, hsignals⟩
      exact ⟨object, hstarts.pending, fun hattached => hplaced hattached.placed⟩
  | destroyConnection conn =>
      obtain ⟨object, hpending, o, ho, hconn⟩ :
          ∃ object ∈ s.pending, ∃ o ∈ s.objects[object]?, conn ∈ o.connection := by
        simpa only [Timely, not_forall, exists_prop, not_not] using hnot
      refine ⟨object, hpending, fun hattached => ?_⟩
      obtain ⟨o', ho', conn', hconn', hdestroyed⟩ := hattached.placed
      obtain rfl := Option.mem_unique ho' ho
      obtain rfl := Option.mem_unique hconn' hconn
      exact hdestroyed List.mem_cons_self
  | _ => exact absurd trivial hnot

/-- The loop comes to every object ahead of it. -/
theorem exists_unsound_of_ahead {status : VdrStatus} {i k : Nat} (hloop : s.loop = some (status, i))
    (hget : s.vdrObjects[i + k]? = some object) (hnot : ¬ s.Attached object) :
    ∃ es s', run step s es = some s' ∧ ¬ Along step Sound s es := by
  induction k generalizing s i with
  | zero =>
      have hcurrent : s.current = some object := by
        rw [current, hloop]
        exact hget
      have hstep : step s .emit = some (s.after .emit) :=
        step_eq_some.mpr ⟨by simp [Enabled, hcurrent], rfl⟩
      exact ⟨[.emit], _, run_cons_eq_some.mpr ⟨_, hstep, rfl⟩, fun h =>
        hnot (h.1 object hcurrent)⟩
  | succ k ih =>
      have hlt : i < s.vdrObjects.length := by
        have := (List.getElem?_eq_some_iff.mp hget).1
        omega
      have hcurrent : s.current = s.vdrObjects[i]? := by
        rw [current, hloop]
        rfl
      have hstep : step s .emit = some (s.after .emit) :=
        step_eq_some.mpr ⟨by simp [Enabled, hcurrent, hlt], rfl⟩
      obtain ⟨es, s', hrun, halong⟩ := ih (s := s.after .emit) (i := i + 1)
        (by rw [State.after, hloop]; rfl)
        (by rw [show i + 1 + k = i + (k + 1) by omega]; exact hget) hnot
      exact ⟨.emit :: es, s', run_cons_eq_some.mpr ⟨_, hstep, hrun⟩, fun h =>
        halong (h.2 _ hstep)⟩

theorem exists_unsound (hpending : object ∈ s.pending) (hnot : ¬ s.Attached object) :
    ∃ es s', run step s es = some s' ∧ ¬ Along step Sound s es := by
  rcases mem_pending.mp hpending with hahead | ⟨call, hcall, hsignals⟩
  · cases hloop : s.loop with
    | none =>
        rw [ahead, hloop] at hahead
        cases hahead
    | some loop =>
        rw [ahead, hloop] at hahead
        obtain ⟨k, hk⟩ := List.mem_iff_getElem?.mp hahead
        rw [List.getElem?_drop] at hk
        exact exists_unsound_of_ahead hloop hk hnot
  · have hstep : step s (.signal object call) = some (s.after (.signal object call)) :=
      step_eq_some.mpr ⟨hcall, rfl⟩
    have hemitter : object ∈ s.emitter (.signal object call) := by
      rw [emitter, if_pos hsignals]
      rfl
    exact ⟨[.signal object call], _, run_cons_eq_some.mpr ⟨_, hstep, rfl⟩,
      fun h => hnot (h.1 object hemitter)⟩

end Emitting

instance (s : State) (e : Event) : Decidable (s.Sound e) :=
  inferInstanceAs (Decidable (∀ object ∈ s.emitter e, ∃ o ∈ s.objects[object]?,
    o.deleted = false ∧
    ∃ conn ∈ o.connection, s.alive conn))

instance (s : State) (object : Nat) : Decidable (s.Placed object) :=
  inferInstanceAs (Decidable (∃ o ∈ s.objects[object]?, ∃ conn ∈
    o.connection, conn ∉ s.destroyed))

instance (s : State) (e : Event) : Decidable (s.Timely e) := by
  cases e <;> unfold Timely <;> infer_instance

/-- **Status signals.** In every run `_objects` has exactly the live `cDBusVdr` objects, each once.
When loops and callbacks only start for objects that have been added to their connections, and a
connection is only destroyed when no signal is on its way to its objects, every signal is emitted by
a live object on a connection that is there. After any other step the run can go on to a signal that
is not. -/
theorem sound_of_timely {s : State} {es : List Event} (hrun : run step {} es = some s) :
    Throughout step Exact {} es ∧ (Along step Timely {} es → Along step Sound {} es) ∧
    ∀ e, s.Enabled e → ¬ s.Timely e →
      ∃ es' s', run step s (e :: es') = some s' ∧ ¬ Along step Sound s (e :: es') := by
  refine ⟨?_, fun htimely => ?_, fun e he hnot => ?_⟩
  · exact (throughout_of_invariant registered_step es registered_initial).imp fun _ hs => hs.vdr
  · have hready : Throughout step Ready {} es :=
      throughout_of_guarded (fun _ _ _ hs htimely hstep => hs.step htimely hstep) (fun _ hs => hs)
        htimely ready_initial
    exact hready.along (fun _ _ _ hs hstep => hs.sound (step_eq_some.mp hstep).1) hrun
  · obtain ⟨object, hpending, hattached⟩ := pending_of_not_timely hnot
    obtain ⟨es', s', hrun', hunsound⟩ := exists_unsound hpending hattached
    have hstep : step s e = some (s.after e) := step_eq_some.mpr ⟨he, rfl⟩
    exact ⟨es', s', run_cons_eq_some.mpr ⟨_, hstep, hrun'⟩, fun h => hunsound (h.2 _ hstep)⟩

/-- `Ready` and a volume change when the objects are on their buses. The first connection has
gone. -/
def ready : List Event :=
  [.newConnection, .newVdr, .addObject 0 0, .newConnection, .newVdr, .addObject 1 1,
    .newStatus false, .addObject 1 2, .destroyConnection 0, .deleteObject 0, .setStatus .ready,
    .callback 2 .setVolume, .lock .ready, .emit, .signal 2 .setVolume, .unlock]

theorem sound_of_timely_ready : (run step {} ready).isSome ∧ Along step Sound {} ready :=
  have hrun : (run step {} ready).isSome := by decide
  ⟨hrun, (sound_of_timely (Option.eq_some_of_isSome hrun)).2.1 (by decide)⟩

/-- `Ready` comes while the object of a new connection has been made and not yet added to it. -/
def readyTooEarly : List Event := [.newConnection, .newVdr, .setStatus .ready, .lock .ready, .emit]

theorem not_forall_sound :
    ¬ ∀ es s, run step {} es = some s →
    Along step Sound {} es ∧ Throughout step Exact {} es := by
  intro h
  have hrun : (run step {} readyTooEarly).isSome := by decide
  have hsound := (h readyTooEarly _ (Option.eq_some_of_isSome hrun)).1
  exact absurd hsound (by decide)

/-- The object is deleted while VDR is in a callback of it. -/
example : ¬ Along step Sound {} [.newConnection, .newStatus false, .addObject 0 0,
    .callback 0 .setVolume, .destroyConnection 0, .deleteObject 0, .signal 0 .setVolume] := by
  decide

end State

end Dbus2vdr.Broadcast

import Dbus2vdr.Lists.Vector
import Dbus2vdr.Objects.Broadcast

/-!
# `cDBusVdr::_objects`

The list on which a `cDBusVdr` puts itself is a `cVector`. What the constructor, the destructor and
the loop of `SetStatus` do with its cells is what `Broadcast` says they do with a list, as long as
the destructor does not have to move objects while all cells are in use, and the cells can be
counted. That takes eleven objects at a time, and 2^29 of them.
-/

namespace Dbus2vdr.Registry

open Machine

/-- The loop of the destructor, from `i` on. -/
def removeLoop (this : Nat) : Nat → Vector Nat → Int → Option (Vector Nat)
  | 0, v, _ => some v
  | n + 1, v, i =>
      if i < v.size then
        (v.get 0 i).bind fun (object, v) =>
          if object = this then v.remove i else removeLoop this n v (i + 1)
      else some v

/-- The loop is left after `Size()` rounds. -/
def destruct (v : Vector Nat) (this : Nat) : Option (Vector Nat) := removeLoop this v.size.toNat v 0

structure State where
  bus : Broadcast.State := {}
  /-- `_objects`, until something is done with a cell that is not there -/
  objects : Option (Vector Nat) := Vector.new 0 10
  deriving DecidableEq, Repr

namespace State

def isVdr (s : State) (object : Nat) : Bool := s.bus.objects[object]?.any fun o => o.kind = .vdr

/-- What a step does with `_objects`. -/
def objectsAfter (s : State) : Broadcast.Event → Option (Vector Nat)
  | .newVdr => s.objects.bind fun v => v.append 0 s.bus.objects.length
  | .deleteObject object =>
      if s.isVdr object then s.objects.bind fun v => destruct v object else s.objects
  | .emit => s.objects.bind fun v => s.bus.loop.bind fun loop => (v.get 0 loop.2).map Prod.snd
  | _ => s.objects

def step (s : State) (e : Broadcast.Event) : Option State :=
  (Broadcast.State.step s.bus e).map fun bus => ⟨bus, s.objectsAfter e⟩

/-- `_objects` has what `Broadcast` says. -/
def Listed (s : State) : Prop := ∃ v ∈ s.objects, v.Valid ∧ v.items = s.bus.vdrObjects

instance (s : State) : Decidable s.Listed :=
  inferInstanceAs (Decidable (∃ v ∈ s.objects, v.Valid ∧ v.items = s.bus.vdrObjects))

/-- The object that is deleted is the last one, or there is a cell behind the last one; one that is
made finds a cell, or cells that can be doubled. -/
def Roomy (s : State) : Broadcast.Event → Prop
  | .newVdr => ∃ v ∈ s.objects, v.Room
  | .deleteObject object =>
      object ∈ s.bus.vdrObjects →
        s.bus.vdrObjects.getLast? = some object ∨ ∃ v ∈ s.objects, v.size < v.allocated
  | _ => True

instance (s : State) : (e : Broadcast.Event) → Decidable (s.Roomy e)
  | .newVdr => inferInstanceAs (Decidable (∃ v ∈ s.objects, v.Room))
  | .deleteObject object =>
      inferInstanceAs (Decidable (object ∈ s.bus.vdrObjects →
        s.bus.vdrObjects.getLast? = some object ∨ ∃ v ∈ s.objects, v.size < v.allocated))
  | .newConnection | .newStatus _ | .addObject _ _ | .destroyConnection _ | .setStatus _ | .lock _
  | .emit | .unlock | .callback _ _ | .signal _ _ => inferInstanceAs (Decidable True)

end State

/-! ### The destructor -/

open Dbus2vdr.Vector

theorem removeLoop_ofItems (this : Nat) {front back rest : List Nat}
    (hfits : Fits (front ++ back) rest) (hfront : this ∉ front) :
    removeLoop this back.length (ofItems (front ++ back) rest) front.length =
      if this ∈ back
      then (ofItems (front ++ back) rest).remove (front.length + back.idxOf this : Nat)
      else some (ofItems (front ++ back) rest) := by
  induction back generalizing front with
  | nil => rfl
  | cons object back ih =>
      have hlt : ((front.length : Nat) : Int) < (ofItems (front ++ object :: back) rest).size := by
        simp [ofItems]
      have hget : (front ++ object :: back)[front.length]? = some object := by simp
      rw [List.length_cons, removeLoop, if_pos hlt, get_of_getElem? 0 hfits hget, Option.bind_some]
      dsimp only
      by_cases heq : object = this
      · rw [if_pos heq, if_pos (by simp [heq]), heq, List.idxOf_cons_self, Nat.add_zero]
      · have hmem : this ∈ object :: back ↔ this ∈ back := by simp [Ne.symm heq]
        have hidx : front.length + (object :: back).idxOf this =
            front.length + 1 + back.idxOf this := by
          rw [List.idxOf_cons_ne _ heq]
          omega
        have hfits' : Fits (front ++ [object] ++ back) rest := by
          rwa [List.append_assoc, List.singleton_append]
        have hnext := ih hfits' (by simp [hfront, Ne.symm heq])
        rw [List.append_assoc, List.singleton_append, List.length_append, List.length_singleton]
          at hnext
        rw [if_neg heq, hidx]
        simp only [hmem]
        exact hnext

theorem destruct_ofItems {xs rest : List Nat} (hfits : Fits xs rest) (this : Nat) :
    destruct (ofItems xs rest) this =
      if this ∈ xs then (ofItems xs rest).remove (xs.idxOf this : Nat)
      else some (ofItems xs rest) := by
  have hloop := @removeLoop_ofItems this [] xs rest hfits List.not_mem_nil
  rw [List.nil_append, List.length_nil, Nat.zero_add] at hloop
  exact hloop

theorem without_idxOf {xs : List Nat} {this : Nat} (hmem : this ∈ xs) :
    without xs (xs.idxOf this : Nat) = xs.erase this := by
  have hlt : xs.idxOf this < xs.length := List.idxOf_lt_length_of_mem hmem
  unfold without
  rw [Int.toNat_natCast, List.erase_eq_eraseIdx_of_idxOf rfl]
  split_ifs with h
  · rfl
  · exact (List.eraseIdx_eq_dropLast (by omega)).symm

theorem idxOf_of_getLast? {xs : List Nat} {this : Nat} (hnodup : xs.Nodup)
    (hlast : xs.getLast? = some this) :
    xs.idxOf this = xs.length - 1 := by
  rw [List.getLast?_eq_getElem?] at hlast
  obtain ⟨hlt, rfl⟩ := List.getElem?_eq_some_iff.mp hlast
  exact hnodup.idxOf_getElem _ hlt

theorem destruct_of_roomy {xs rest : List Nat} (hfits : Fits xs rest) {this : Nat}
    (hnodup : xs.Nodup) (hroomy : this ∈ xs → xs.getLast? = some this ∨ rest ≠ []) :
    ∃ rest', destruct (ofItems xs rest) this = some (ofItems (xs.erase this) rest') ∧
      xs.length + rest.length = (xs.erase this).length + rest'.length := by
  rw [destruct_ofItems hfits]
  split_ifs with hmem
  · have hroom : ((xs.idxOf this : Nat) : Int) < xs.length - 1 → rest ≠ [] := fun hlt =>
      (hroomy hmem).resolve_left fun hlast => by
        have hidx := idxOf_of_getLast? hnodup hlast
        omega
    obtain ⟨rest', heq, hlength⟩ :=
      remove_ofItems (Int.natCast_nonneg (xs.idxOf this)) (List.ne_nil_of_mem hmem) hroom
    rw [without_idxOf hmem] at heq
    refine ⟨rest', heq, ?_⟩
    have hpos := List.length_pos_of_mem hmem
    rw [List.length_erase_of_mem hmem]
    omega
  · rw [List.erase_of_not_mem hmem]
    exact ⟨rest, rfl, rfl⟩

theorem destruct_of_full {xs : List Nat} (hfits : Fits xs []) {this : Nat} (hmem : this ∈ xs)
    (hlast : xs.getLast? ≠ some this) :
    destruct (ofItems xs []) this = none := by
  rw [destruct_ofItems hfits, if_pos hmem]
  have hlt : xs.idxOf this < xs.length := List.idxOf_lt_length_of_mem hmem
  refine remove_of_full (Int.natCast_nonneg _) ?_
  by_contra hnot
  apply hlast
  rw [List.getLast?_eq_getElem?, show xs.length - 1 = xs.idxOf this by omega,
    List.getElem?_eq_getElem hlt, List.getElem_idxOf]

/-! ### Every run -/

namespace State

variable {s s' : State} {e : Broadcast.Event}

theorem step_eq_some (h : step s e = some s') :
    s.bus.Enabled e ∧ s' = ⟨s.bus.after e, s.objectsAfter e⟩ := by
  unfold step at h
  obtain ⟨bus, hbus, rfl⟩ := Option.map_eq_some_iff.mp h
  obtain ⟨henabled, rfl⟩ := Broadcast.State.step_eq_some.mp hbus
  exact ⟨henabled, rfl⟩

theorem isVdr_of_mem (hs : s.bus.Registered) {object : Nat} (hmem : object ∈ s.bus.vdrObjects) :
    s.isVdr object = true := by
  obtain ⟨o, ho, hkind, -⟩ := (hs.vdr.mem_iff object).mp hmem
  unfold isVdr
  rw [Option.mem_def.mp ho, Option.any_some]
  exact hkind

theorem objectsAfter_deleteObject (s : State) (object : Nat) :
    s.objectsAfter (.deleteObject object) =
      if s.isVdr object then s.objects.bind fun v => destruct v object else s.objects := rfl

/-- The cells with these items in front. They can be counted, and none has been given back. -/
def Cells (objects : Option (Vector Nat)) (xs : List Nat) : Prop :=
  ∃ rest, objects = some (ofItems xs rest) ∧ Fits xs rest ∧ 11 ≤ xs.length + rest.length

theorem Cells.append {objects : Option (Vector Nat)} {xs : List Nat} (h : Cells objects xs)
    (hroom : ∃ v ∈ objects, v.Room) (object : Nat) :
    Cells (objects.bind fun v => v.append 0 object) (xs ++ [object]) := by
  obtain ⟨rest, rfl, hfits, hcells⟩ := h
  obtain ⟨v, hv, hroom⟩ := hroom
  obtain rfl := Option.some.inj hv
  obtain ⟨rest', heq, hlength, hfits'⟩ := append_ofItems 0 hfits hroom object
  refine ⟨rest', heq, hfits', ?_⟩
  rw [List.length_append, List.length_singleton]
  omega

theorem Cells.destruct {objects : Option (Vector Nat)} {xs : List Nat} (h : Cells objects xs)
    (hnodup : xs.Nodup) {object : Nat} (hroomy : object ∈ xs →
      xs.getLast? = some object ∨ ∃ v ∈ objects, v.size < v.allocated) :
    Cells (objects.bind fun v => destruct v object) (xs.erase object) := by
  obtain ⟨rest, rfl, hfits, hcells⟩ := h
  have hroom : object ∈ xs → xs.getLast? = some object ∨ rest ≠ [] := by
    intro hmem
    refine (hroomy hmem).imp_right ?_
    rintro ⟨v, hv, hlt⟩ rfl
    obtain rfl := Option.some.inj hv
    exact absurd hlt (by simp)
  obtain ⟨rest', heq, hlength⟩ := destruct_of_roomy hfits hnodup hroom
  refine ⟨rest', heq, ?_, by omega⟩
  unfold Fits at *
  omega

/-- What a step does is what `Broadcast` says, if there is room for it. -/
theorem objectsAfter_of_roomy (hs : s.bus.Registered) (hcells : Cells s.objects s.bus.vdrObjects)
    (he : s.bus.Enabled e) (hroomy : s.Roomy e) :
    Cells (s.objectsAfter e) (s.bus.after e).vdrObjects := by
  cases e with
  | newVdr => exact hcells.append hroomy s.bus.objects.length
  | deleteObject object =>
      rw [s.objectsAfter_deleteObject object]
      cases hkind : s.isVdr object with
      | true => exact hcells.destruct hs.vdr.nodup hroomy
      | false =>
          have hmem : object ∉ s.bus.vdrObjects := fun hmem =>
            absurd (hkind.symm.trans (isVdr_of_mem hs hmem)) Bool.false_ne_true
          rw [if_neg Bool.false_ne_true]
          simpa only [Broadcast.State.after, List.erase_of_not_mem hmem] using hcells
  | emit =>
      obtain ⟨object, hobject⟩ := Option.ne_none_iff_exists'.mp he
      obtain ⟨loop, hloop, hget⟩ := Option.bind_eq_some_iff.mp hobject
      obtain ⟨rest, heq, hfits, hlength⟩ := hcells
      refine ⟨rest, ?_, hfits, hlength⟩
      rw [show s.objectsAfter .emit = s.objects.bind fun v => s.bus.loop.bind fun loop =>
        (v.get 0 loop.2).map Prod.snd from rfl, heq, hloop, Option.bind_some, Option.bind_some,
        get_of_getElem? 0 hfits hget]
      rfl
  | newConnection | newStatus | addObject | destroyConnection | lock | unlock | callback
  | signal =>
      exact hcells
  | setStatus status =>
      have hsame : (s.bus.after (.setStatus status)).vdrObjects = s.bus.vdrObjects := by
        unfold Broadcast.State.after
        dsimp only
        split_ifs <;> rfl
      rw [hsame]
      exact hcells

structure Kept (s : State) : Prop where
  registered : s.bus.Registered
  cells : Cells s.objects s.bus.vdrObjects

theorem kept_initial : Kept {} :=
  have hten : (10 : Int) < intMax := by decide
  ⟨Broadcast.State.registered_initial, List.replicate 11 0, new_eq 0 hten,
    fits_new 0 hten, by simp⟩

theorem Kept.listed (hs : s.Kept) : s.Listed := by
  obtain ⟨rest, heq, hfits, -⟩ := hs.cells
  exact ⟨_, heq, valid_ofItems hfits, items_ofItems _ _⟩

theorem Kept.step (hs : s.Kept) (hroomy : s.Roomy e) (hstep : State.step s e = some s') :
    s'.Kept := by
  obtain ⟨henabled, rfl⟩ := step_eq_some hstep
  exact ⟨hs.registered.after henabled,
    objectsAfter_of_roomy hs.registered hs.cells henabled hroomy⟩

theorem Kept.not_listed (hs : s.Kept) (hroomy : ¬ s.Roomy e) (hstep : State.step s e = some s') :
    ¬ s'.Listed := by
  obtain ⟨henabled, rfl⟩ := step_eq_some hstep
  obtain ⟨rest, heq, hfits, -⟩ := hs.cells
  rintro ⟨v, hv, -⟩
  cases e with
  | newVdr =>
      have hroom : ¬ (ofItems s.bus.vdrObjects rest).Room :=
        fun hroom => hroomy ⟨_, heq, hroom⟩
      rw [show s.objectsAfter .newVdr = s.objects.bind fun v => v.append 0 s.bus.objects.length
        from rfl, Option.mem_def, heq, Option.bind_some, append_of_not_room 0 hroom] at hv
      cases hv
  | deleteObject object =>
      obtain ⟨hmem, hnot⟩ := Classical.not_imp.mp hroomy
      obtain ⟨hlast, hfull⟩ := not_or.mp hnot
      have hrest : rest = [] := by
        by_contra hne
        refine hfull ⟨_, heq, ?_⟩
        have hpos := List.length_pos_iff.mpr hne
        rw [allocated_ofItems, size_ofItems]
        omega
      rw [hrest] at heq hfits
      rw [Option.mem_def, s.objectsAfter_deleteObject object,
        if_pos (isVdr_of_mem hs.registered hmem), heq, Option.bind_some,
        destruct_of_full hfits hmem hlast] at hv
      cases hv
  | _ => exact hroomy trivial

def Few (s : State) : Prop := s.bus.vdrObjects.length ≤ 10

instance (s : State) : Decidable s.Few := inferInstanceAs (Decidable (_ ≤ _))

theorem Kept.roomy (hs : s.Kept) (hfew : s.Few) (e : Broadcast.Event) : s.Roomy e := by
  obtain ⟨rest, heq, -, hlength⟩ := hs.cells
  have hlt : (ofItems s.bus.vdrObjects rest).size < (ofItems s.bus.vdrObjects rest).allocated := by
    rw [allocated_ofItems, size_ofItems]
    unfold Few at hfew
    omega
  cases e with
  | newVdr => exact ⟨_, heq, .inl hlt⟩
  | deleteObject object => exact fun _ => .inr ⟨_, heq, hlt⟩
  | _ => trivial

/-- **The list of objects.** In every run `_objects` keeps to its cells and has, in order, the
objects that `Broadcast` says, exactly if none but the last of them is deleted while all cells are
in use and none is made while all of 2^29 cells or more are. That is so when there are never more
than ten. -/
theorem listed_of_run {es : List Broadcast.Event} (hrun : run State.step {} es = some s) :
    (Throughout State.step Listed {} es ↔ Along State.step Roomy {} es) ∧
    (Throughout State.step Few {} es → Throughout State.step Listed {} es) := by
  have hiff : Throughout State.step Listed {} es ↔ Along State.step Roomy {} es :=
    throughout_iff_along_of_kept (I := Kept) (fun _ _ _ hs hroomy hstep => hs.step hroomy hstep)
      (fun _ hs => hs.listed) (fun _ _ _ hs hroomy hstep => hs.not_listed hroomy hstep) hrun
        kept_initial
  refine ⟨hiff, fun hfew => hiff.mpr ?_⟩
  have halong : Along State.step (fun s _ => s.Few) {} es :=
    hfew.along (fun _ _ _ hs _ => hs) hrun
  exact along_of_guarded (fun s e _ hs hfew hstep => hs.step (hs.roomy hfew e) hstep)
    (fun s e hs hfew => hs.roomy hfew e) halong kept_initial

/-- One of two connections goes. -/
def disconnected : List Broadcast.Event :=
  [.newConnection, .newVdr, .addObject 0 0, .newConnection, .newVdr, .addObject 1 1,
    .destroyConnection 0, .deleteObject 0, .setStatus .ready, .lock .ready, .emit, .unlock]

theorem listed_of_run_disconnected :
    ∃ s, run State.step {} disconnected = some s ∧ s.bus.vdrObjects = [1] ∧
      Throughout State.step Listed {} disconnected :=
  have hrun := Option.eq_some_of_isSome (o := run State.step {} disconnected) (by decide)
  ⟨_, hrun, by decide, (listed_of_run hrun).2 (by decide)⟩

/-- The first of eleven objects is deleted. -/
example : (run State.step {} ([.newConnection] ++ List.replicate 11 .newVdr ++
    [.addObject 0 0, .destroyConnection 0, .deleteObject 0])).map State.objects = some none := by
  decide

end State

end Dbus2vdr.Registry

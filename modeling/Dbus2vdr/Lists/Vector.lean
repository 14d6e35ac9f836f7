import Dbus2vdr.CString
import Dbus2vdr.Lib.Buffer
import Dbus2vdr.Lib.Machine
import Dbus2vdr.Lists.ListBase
import Mathlib.Data.List.Sort

/-!
# `cVector`

A `cVector` has cells that are allocated and, in the first of them, its items. Removing an item
moves the items behind it and the cell behind the last one, which is not there when all allocated
cells are in use. Cells are counted in `int`, and an `int` that overflows means nothing: `At` cannot
go to `INT_MAX`, and a full vector of 2^29 cells or more cannot be doubled.
-/

namespace Dbus2vdr

open Machine

universe u

variable {α : Type u}

structure Vector (α : Type u) where
  /-- the cells that are allocated -/
  data : List α
  size : Int
  deriving DecidableEq, Repr

/-- `memmove`, of whole cells -/
def memmove (data : List α) (dst src n : Int) : Option (List α) :=
  if 0 ≤ dst ∧ 0 ≤ src ∧ 0 ≤ n then Buffer.move data dst.toNat src.toNat n.toNat else none

namespace Vector

def allocated (v : Vector α) : Int := v.data.length

/-- An `int` that is counted up has no value behind `INT_MAX`. -/
def checked (n : Int) : Option Int := if n ≤ intMax then some n else none

def realloc (zero : α) (v : Vector α) (index : Int) : Option (Vector α) :=
  (checked (index + 1)).map fun index =>
    if v.allocated < index then
      { v with data := v.data ++ List.replicate (index - v.allocated).toNat zero }
    else v

/-- The constructor. -/
def new (zero : α) (allocated : Int) : Option (Vector α) := realloc zero ⟨[], 0⟩ allocated

/-- What `At` does before it goes to the cell. -/
def reach (zero : α) (v : Vector α) (index : Int) : Option (Vector α) :=
  (v.realloc zero index).bind fun v =>
    if v.size ≤ index then (checked (index + 1)).map fun size => { v with size } else some v

/-- `At` to the right of an assignment -/
def get (zero : α) (v : Vector α) (index : Int) : Option (α × Vector α) :=
  (v.reach zero index).bind fun v => (Buffer.read v.data index).map fun x => (x, v)

/-- `At` to the left of an assignment -/
def set (zero : α) (v : Vector α) (index : Int) (x : α) : Option (Vector α) :=
  (v.reach zero index).bind fun v => (Buffer.write v.data index x).map fun data => { v with data }

/-- What `Append` does when no cell is left: the cells are doubled. -/
def grow (zero : α) (v : Vector α) : Option (Vector α) :=
  if v.allocated ≤ v.size then (checked (v.allocated * 4)).bind fun n => v.realloc zero (n / 2)
  else some v

/-- The item behind the last one has been written. -/
def count (v : Vector α) (data : List α) : Option (Vector α) :=
  (checked (v.size + 1)).map fun size => ⟨data, size⟩

def append (zero : α) (v : Vector α) (x : α) : Option (Vector α) :=
  (v.grow zero).bind fun v => (Buffer.write v.data v.size x).bind v.count

def insert (zero : α) (v : Vector α) (x : α) (before : Int) : Option (Vector α) :=
  if before < v.size then
    (v.realloc zero v.size).bind fun v =>
      (memmove v.data (before + 1) before (v.size - before)).bind fun data =>
        (Buffer.write data before x).bind v.count
  else v.append zero x

def remove (v : Vector α) (index : Int) : Option (Vector α) :=
  if index < v.size - 1 then
    (memmove v.data index (index + 1) (v.size - index)).map fun data => ⟨data, v.size - 1⟩
  else some { v with size := v.size - 1 }

def clear (v : Vector α) : Vector α := { v with size := 0 }

def sort (qsort : List α → List α) (v : Vector α) : Option (Vector α) :=
  if 0 ≤ v.size then
    some { v with data := qsort (v.data.take v.size.toNat) ++ v.data.drop v.size.toNat }
  else none

/-! ### The items of a vector -/

/-- A vector with some items and the cells behind them. -/
def ofItems (xs rest : List α) : Vector α := ⟨xs ++ rest, xs.length⟩

def items (v : Vector α) : List α := v.data.take v.size.toNat

def Valid (v : Vector α) : Prop :=
  0 ≤ v.size ∧ v.size ≤ v.allocated ∧ v.allocated ≤ intMax

instance (v : Vector α) : Decidable v.Valid := inferInstanceAs (Decidable (_ ∧ _))

/-- So many cells can be counted. -/
def Fits (xs rest : List α) : Prop := (xs.length + rest.length : Int) ≤ intMax

@[simp]
theorem items_ofItems (xs rest : List α) : (ofItems xs rest).items = xs := by
  unfold items ofItems
  rw [Int.toNat_natCast, List.take_left]

@[simp]
theorem allocated_ofItems (xs rest : List α) :
    (ofItems xs rest).allocated = xs.length + rest.length := by
  simp [allocated, ofItems]

@[simp]
theorem size_ofItems (xs rest : List α) : (ofItems xs rest).size = xs.length := rfl

theorem valid_ofItems {xs rest : List α} (hfits : Fits xs rest) : (ofItems xs rest).Valid := by
  refine ⟨Int.natCast_nonneg _, ?_, ?_⟩
  · rw [allocated_ofItems, size_ofItems]
    omega
  · rw [allocated_ofItems]
    exact hfits

theorem Valid.eq_ofItems {v : Vector α} (h : v.Valid) :
    v = ofItems v.items (v.data.drop v.size.toNat) ∧ Fits v.items (v.data.drop v.size.toNat) := by
  obtain ⟨data, size⟩ := v
  obtain ⟨hnonneg, hle, hint⟩ := h
  obtain ⟨n, rfl⟩ := Int.eq_ofNat_of_zero_le hnonneg
  have hn : n ≤ data.length := Int.ofNat_le.mp hle
  have hlength : (data.take n).length = n := by rw [List.length_take, Nat.min_eq_left hn]
  unfold items ofItems Fits
  rw [Int.toNat_natCast, List.take_append_drop, hlength, List.length_drop]
  refine ⟨rfl, ?_⟩
  have hcells : (data.length : Int) ≤ intMax := hint
  rw [Nat.cast_sub hn]
  omega

theorem checked_of_le {n : Int} (hn : n ≤ intMax) : checked n = some n := if_pos hn

theorem checked_of_lt {n : Int} (hn : intMax < n) : checked n = none := if_neg (by omega)

theorem count_of_lt {v : Vector α} (hsize : v.size < intMax) (data : List α) :
    v.count data = some ⟨data, v.size + 1⟩ := by
  unfold count
  rw [checked_of_le (by omega), Option.map_some]

theorem realloc_ofItems (zero : α) (xs rest : List α) {index : Int} (hindex : index < intMax) :
    (ofItems xs rest).realloc zero index = some (ofItems xs
      (rest ++ List.replicate (index + 1 - (xs.length + rest.length)).toNat zero)) := by
  unfold realloc
  rw [checked_of_le (by omega), Option.map_some, allocated_ofItems]
  split_ifs with hlt
  · simp [ofItems]
  · have hzero : (index + 1 - (xs.length + rest.length)).toNat = 0 := by omega
    rw [hzero, List.replicate_zero, List.append_nil]

theorem realloc_of_le (zero : α) (v : Vector α) {index : Int} (hindex : intMax ≤ index) :
    v.realloc zero index = none := by
  unfold realloc
  rw [checked_of_lt (by omega), Option.map_none]

theorem new_eq (zero : α) {allocated : Int} (hallocated : allocated < intMax) :
    new zero allocated = some (ofItems [] (List.replicate (allocated + 1).toNat zero)) := by
  unfold new
  rw [show (⟨[], 0⟩ : Vector α) = ofItems [] [] from rfl,
    realloc_ofItems zero [] [] hallocated]
  simp

theorem fits_new (zero : α) {allocated : Int} (hallocated : allocated < intMax) :
    Fits [] (List.replicate (allocated + 1).toNat zero) := by
  unfold Fits
  rw [List.length_nil, List.length_replicate]
  unfold intMax at *
  omega

/-- `At` behind the last item makes the cells up to there items. -/
theorem reach_ofItems (zero : α) {xs rest : List α} (hfits : Fits xs rest) {index : Int}
    (hindex : 0 ≤ index) (hint : index < intMax) :
    ∃ ys rest', (ofItems xs rest).reach zero index = some (ofItems ys rest') ∧ xs <+: ys ∧
      ys.length = max xs.length (index.toNat + 1) ∧ Fits ys rest' := by
  obtain ⟨i, rfl⟩ := Int.eq_ofNat_of_zero_le hindex
  unfold reach
  rw [realloc_ofItems zero xs rest hint, Option.bind_some]
  set rest' := rest ++ List.replicate ((i : Int) + 1 - (xs.length + rest.length)).toNat zero
    with hrest'
  have hlength : rest'.length = max rest.length (i + 1 - xs.length) := by
    rw [hrest', List.length_append, List.length_replicate]
    omega
  unfold Fits at *
  by_cases hle : (xs.length : Int) ≤ i
  · have hn : (rest'.take (i + 1 - xs.length)).length = i + 1 - xs.length := by
      rw [List.length_take]
      omega
    rw [size_ofItems, if_pos hle, checked_of_le (by omega), Option.map_some]
    refine ⟨xs ++ rest'.take (i + 1 - xs.length), rest'.drop (i + 1 - xs.length), ?_,
      List.prefix_append _ _, ?_, ?_⟩
    · unfold ofItems
      rw [List.append_assoc, List.take_append_drop, List.length_append, hn]
      congr 2
      omega
    · rw [List.length_append, hn, Int.toNat_natCast]
      omega
    · rw [List.length_append, hn, List.length_drop, hlength]
      omega
  · refine ⟨xs, rest', if_neg hle, List.prefix_refl _, ?_, ?_⟩
    · rw [Int.toNat_natCast]
      omega
    · omega

/-! ### What the operations do -/

/-- There is a cell to append to, or the cells can be doubled. -/
def Room (v : Vector α) : Prop := v.size < v.allocated ∨ v.allocated * 4 ≤ intMax

instance (v : Vector α) : Decidable v.Room := inferInstanceAs (Decidable (_ ∨ _))

theorem grow_ofItems (zero : α) {xs rest : List α} (hfits : Fits xs rest)
    (hroom : (ofItems xs rest).Room) :
    ∃ r rest', (ofItems xs rest).grow zero = some (ofItems xs (r :: rest')) ∧
      rest.length ≤ rest'.length + 1 ∧ Fits xs (r :: rest') := by
  unfold grow
  cases rest with
  | nil =>
      have hmany : (xs.length : Int) * 4 ≤ intMax := by
        simpa [Room] using hroom
      have hindex : (xs.length : Int) * 4 / 2 < intMax := by
        unfold intMax at *
        omega
      have hcells : ((xs.length : Int) * 4 / 2 + 1 - (xs.length + ([] : List α).length)).toNat =
          xs.length + 1 := by
        rw [List.length_nil]
        omega
      rw [allocated_ofItems, size_ofItems, List.length_nil, Nat.cast_zero, Int.add_zero,
        if_pos (Int.le_refl _), checked_of_le hmany, Option.bind_some,
        realloc_ofItems zero xs [] hindex, hcells]
      refine ⟨zero, List.replicate xs.length zero, rfl, Nat.zero_le _, ?_⟩
      unfold Fits
      rw [List.length_cons, List.length_replicate]
      unfold intMax at *
      omega
  | cons r rest' =>
      have hlt : ¬ (ofItems xs (r :: rest')).allocated ≤ (ofItems xs (r :: rest')).size := by
        rw [allocated_ofItems, size_ofItems, List.length_cons]
        omega
      exact ⟨r, rest', if_neg hlt, Nat.le_refl _, hfits⟩

theorem grow_of_not_room (zero : α) {v : Vector α} (hroom : ¬ v.Room) : v.grow zero = none := by
  unfold Room at hroom
  unfold grow
  rw [if_pos (by omega), checked_of_lt (by omega), Option.bind_none]

theorem append_ofItems (zero : α) {xs rest : List α} (hfits : Fits xs rest)
    (hroom : (ofItems xs rest).Room) (x : α) :
    ∃ rest', (ofItems xs rest).append zero x = some (ofItems (xs ++ [x]) rest') ∧
      rest.length ≤ rest'.length + 1 ∧ Fits (xs ++ [x]) rest' := by
  obtain ⟨r, rest', hgrow, hle, hfits'⟩ := grow_ofItems zero hfits hroom
  unfold Fits at hfits'
  rw [List.length_cons] at hfits'
  unfold append
  rw [hgrow, Option.bind_some]
  dsimp only [ofItems]
  rw [Buffer.write_append, Option.bind_some, count_of_lt (by dsimp only; omega)]
  refine ⟨rest', by simp, hle, ?_⟩
  unfold Fits
  rw [List.length_append, List.length_singleton]
  omega

theorem append_of_not_room (zero : α) {v : Vector α} (hroom : ¬ v.Room) (x : α) :
    v.append zero x = none := by
  unfold append
  rw [grow_of_not_room zero hroom, Option.bind_none]

theorem get_ofItems (zero : α) {xs rest : List α} (hfits : Fits xs rest) {index : Int}
    (hindex : 0 ≤ index) (hint : index < intMax) :
    ∃ x ys rest', (ofItems xs rest).get zero index = some (x, ofItems ys rest') ∧ xs <+: ys ∧
      ys.length = max xs.length (index.toNat + 1) ∧
      ys[index.toNat]? = some x ∧ Fits ys rest' := by
  obtain ⟨ys, rest', heq, hprefix, hlength, hfits'⟩ := reach_ofItems zero hfits hindex hint
  have hlt : index.toNat < ys.length := by omega
  refine ⟨ys[index.toNat], ys, rest', ?_, hprefix, hlength, List.getElem?_eq_getElem hlt,
    hfits'⟩
  unfold get
  rw [heq, Option.bind_some]
  unfold Buffer.read
  rw [if_pos hindex]
  dsimp only [ofItems]
  rw [List.getElem?_append_left hlt, List.getElem?_eq_getElem hlt, Option.map_some]

theorem get_of_getElem? (zero : α) {xs rest : List α} (hfits : Fits xs rest) {i : Nat} {x : α}
    (hx : xs[i]? = some x) : (ofItems xs rest).get zero i = some (x, ofItems xs rest) := by
  obtain ⟨hlt, rfl⟩ := List.getElem?_eq_some_iff.mp hx
  have hint : ((i : Nat) : Int) < intMax := by
    unfold Fits at hfits
    omega
  have hreach : (ofItems xs rest).reach zero i = some (ofItems xs rest) := by
    unfold reach
    rw [realloc_ofItems zero xs rest hint, Option.bind_some]
    have hzero : ((i : Int) + 1 - (xs.length + rest.length)).toNat = 0 := by omega
    rw [hzero, List.replicate_zero, List.append_nil]
    exact if_neg (by simp [ofItems]; omega)
  unfold get
  rw [hreach, Option.bind_some]
  dsimp only [ofItems]
  rw [Buffer.read_of_lt (by rw [List.length_append]; omega) xs[i], Option.map_some,
    List.getD_eq_getElem?_getD, List.getElem?_append_left hlt, hx, Option.getD_some]

/-- There is no such cell. -/
theorem get_of_outside (zero : α) (v : Vector α) {index : Int}
    (hindex : ¬ (0 ≤ index ∧ index < intMax)) : v.get zero index = none := by
  unfold get
  rcases Int.lt_or_le index 0 with hneg | hnonneg
  · refine Option.bind_eq_none_iff.mpr fun v' _ => ?_
    unfold Buffer.read
    rw [if_neg (by omega), Option.map_none]
  · unfold reach
    rw [realloc_of_le zero v (by omega), Option.bind_none, Option.bind_none]

theorem set_ofItems (zero : α) {xs rest : List α} (hfits : Fits xs rest) {index : Int}
    (hindex : 0 ≤ index) (hint : index < intMax) (x : α) :
    ∃ ys rest', (ofItems xs rest).set zero index x =
      some (ofItems (ys.set index.toNat x) rest') ∧
      xs <+: ys ∧ ys.length = max xs.length (index.toNat + 1) ∧ Fits ys rest' := by
  obtain ⟨ys, rest', heq, hprefix, hlength, hfits'⟩ := reach_ofItems zero hfits hindex hint
  have hlt : index.toNat < ys.length := by omega
  refine ⟨ys, rest', ?_, hprefix, hlength, hfits'⟩
  obtain ⟨i, rfl⟩ := Int.eq_ofNat_of_zero_le hindex
  rw [Int.toNat_natCast] at hlt ⊢
  unfold set
  rw [heq, Option.bind_some]
  dsimp only [ofItems]
  rw [Buffer.write_of_lt (by rw [List.length_append]; omega), Option.map_some,
    List.set_append_left _ _ hlt, List.length_set]

theorem set_of_outside (zero : α) (v : Vector α) {index : Int}
    (hindex : ¬ (0 ≤ index ∧ index < intMax)) (x : α) : v.set zero index x = none := by
  unfold set
  rcases Int.lt_or_le index 0 with hneg | hnonneg
  · refine Option.bind_eq_none_iff.mpr fun v' _ => ?_
    unfold Buffer.write
    rw [if_neg (by omega), Option.map_none]
  · unfold reach
    rw [realloc_of_le zero v (by omega), Option.bind_none, Option.bind_none]

/-- Some cells, beginning with `a`, are moved up by one. -/
theorem move_up (front back rest : List α) (a r : α) :
    Buffer.move (front ++ a :: back ++ r :: rest) (front.length + 1) front.length
        (back.length + 1) =
      some (front ++ a :: a :: back ++ rest) := by
  unfold Buffer.move
  rw [if_pos (by simp; omega)]
  congr 1
  have htake : (front ++ a :: back ++ r :: rest).take (front.length + 1) = front ++ [a] := by
    rw [List.append_assoc, List.take_append, List.take_of_length_le (by omega)]
    simp
  have hmid :
      ((front ++ a :: back ++ r :: rest).drop front.length).take (back.length + 1) = a :: back := by
    rw [List.append_assoc, List.drop_left]
    simp
  have hdrop :
      (front ++ a :: back ++ r :: rest).drop (front.length + 1 + (back.length + 1)) = rest := by
    rw [show front ++ a :: back ++ r :: rest = (front ++ a :: back ++ [r]) ++ rest by simp]
    exact List.drop_left' (by simp; omega)
  rw [htake, hmid, hdrop]
  simp

/-- Some cells, ending with `r`, are moved down by one. -/
theorem move_down (front back rest : List α) (a r : α) :
    Buffer.move (front ++ a :: back ++ r :: rest) front.length (front.length + 1)
        (back.length + 1) =
      some (front ++ back ++ r :: r :: rest) := by
  unfold Buffer.move
  rw [if_pos (by simp; omega)]
  congr 1
  have htake : (front ++ a :: back ++ r :: rest).take front.length = front := by
    rw [List.append_assoc, List.take_left]
  have hmid : ((front ++ a :: back ++ r :: rest).drop (front.length + 1)).take (back.length + 1) =
      back ++ [r] := by
    rw [show front ++ a :: back ++ r :: rest = (front ++ [a]) ++ (back ++ [r] ++ rest) by simp,
      List.drop_left' (by simp)]
    exact List.take_left' (by simp)
  have hdrop :
      (front ++ a :: back ++ r :: rest).drop (front.length + (back.length + 1)) = r :: rest := by
    rw [show front ++ a :: back ++ r :: rest = (front ++ a :: back) ++ r :: rest by simp]
    exact List.drop_left' (by simp)
  rw [htake, hmid, hdrop]
  simp

theorem split_at {xs : List α} {i : Nat} (hi : i < xs.length) :
    ∃ front a back, xs = front ++ a :: back ∧ front.length = i :=
  ⟨xs.take i, xs[i], xs.drop (i + 1), by rw [List.getElem_cons_drop, List.take_append_drop],
    List.length_take_of_le (Nat.le_of_lt hi)⟩

theorem memmove_of_eq (data : List α) {dst src n : Int} {d i m : Nat} (hdst : dst = d)
    (hsrc : src = i) (hn : n = m) : memmove data dst src n = Buffer.move data d i m := by
  subst hdst hsrc hn
  unfold memmove
  rw [if_pos (by omega)]
  simp only [Int.toNat_natCast]

/-- An item can be inserted: there is such a place, and the items can be counted. -/
def Place (v : Vector α) (before : Int) : Prop :=
  0 ≤ before ∧ if before < v.size then v.size < intMax else v.Room

instance (v : Vector α) (before : Int) : Decidable (v.Place before) :=
  inferInstanceAs (Decidable (_ ∧ _))

theorem insert_ofItems (zero : α) {xs rest : List α} (hfits : Fits xs rest) (x : α)
    {before : Int} (hplace : (ofItems xs rest).Place before) :
    ∃ ys rest', (ofItems xs rest).insert zero x before = some (ofItems ys rest') ∧
      ys = (if before < xs.length then xs.insertIdx before.toNat x else xs ++ [x]) ∧
      Fits ys rest' := by
  obtain ⟨hbefore, hplace⟩ := hplace
  by_cases hlt : before < xs.length
  · rw [size_ofItems, if_pos hlt] at hplace
    obtain ⟨i, rfl⟩ := Int.eq_ofNat_of_zero_le hbefore
    obtain ⟨front, a, back, hxs, hfront⟩ := split_at (Int.ofNat_lt.mp hlt)
    have hlength : xs.length = front.length + 1 + back.length := by
      rw [hxs]
      simp
      omega
    obtain ⟨r, rest', hrest⟩ : ∃ r rest', rest ++ List.replicate ((xs.length : Int) + 1 -
        (xs.length + rest.length)).toNat zero = r :: rest' := by
      apply List.exists_cons_of_length_pos
      rw [List.length_append, List.length_replicate]
      omega
    have hcells := congrArg List.length hrest
    rw [List.length_append, List.length_replicate, List.length_cons] at hcells
    have hmove : memmove (xs ++ r :: rest') ((i : Int) + 1) i (xs.length - i) =
        some (front ++ a :: a :: back ++ rest') := by
      rw [memmove_of_eq (d := front.length + 1) (i := front.length) (m := back.length + 1) _
        (by omega) (by omega) (by omega), hxs]
      exact move_up front back rest' a r
    refine ⟨_, rest', ?_, rfl, ?_⟩
    · rw [if_pos hlt]
      unfold insert
      rw [if_pos (show ((i : Nat) : Int) < (ofItems xs rest).size from hlt), size_ofItems,
        realloc_ofItems zero xs rest hplace, Option.bind_some]
      dsimp only [ofItems]
      rw [hrest, hmove, Option.bind_some, ← hfront, List.append_assoc, List.cons_append,
        Buffer.write_append, Option.bind_some, count_of_lt (by exact hplace), Int.toNat_natCast,
        hxs, ListBase.insertIdx_length_append]
      simp [Int.add_assoc]
    · rw [if_pos hlt]
      unfold Fits at *
      rw [List.length_insertIdx_of_le_length (by omega)]
      omega
  · rw [size_ofItems, if_neg hlt] at hplace
    obtain ⟨rest', heq, -, hfits'⟩ := append_ofItems zero hfits hplace x
    refine ⟨_, rest', ?_, (if_neg hlt).symm, hfits'⟩
    unfold insert
    rw [if_neg (show ¬ before < (ofItems xs rest).size from hlt)]
    exact heq

theorem insert_of_not_place (zero : α) {v : Vector α} (hv : v.Valid) (x : α) {before : Int}
    (hplace : ¬ v.Place before) : v.insert zero x before = none := by
  unfold insert
  split_ifs with hlt
  · rcases Int.lt_or_le before 0 with hneg | hnonneg
    · refine Option.bind_eq_none_iff.mpr fun v' _ => ?_
      unfold memmove
      rw [if_neg (by omega), Option.bind_none]
    · have hfull : intMax ≤ v.size := Int.not_lt.mp fun hint =>
        hplace ⟨hnonneg, by rwa [if_pos hlt]⟩
      rw [realloc_of_le zero v hfull, Option.bind_none]
  · have hnonneg : 0 ≤ before := hv.1.trans (Int.not_lt.mp hlt)
    exact append_of_not_room zero (fun hroom => hplace ⟨hnonneg, by rwa [if_neg hlt]⟩) x

/-- The list without an item, or without the last one. -/
def without (xs : List α) (index : Int) : List α :=
  if index < xs.length - 1 then xs.eraseIdx index.toNat else xs.dropLast

theorem remove_ofItems {xs rest : List α} {index : Int} (hindex : 0 ≤ index) (hxs : xs ≠ [])
    (hroom : index < xs.length - 1 → rest ≠ []) :
    ∃ rest', (ofItems xs rest).remove index = some (ofItems (without xs index) rest') ∧
      rest'.length = rest.length + 1 := by
  unfold without remove
  by_cases hlt : index < xs.length - 1
  · obtain ⟨i, rfl⟩ := Int.eq_ofNat_of_zero_le hindex
    obtain ⟨front, a, back, hsplit, hfront⟩ := split_at (show i < xs.length by omega)
    obtain ⟨r, rest', rfl⟩ := List.exists_cons_of_ne_nil (hroom hlt)
    have hlength : xs.length = front.length + 1 + back.length := by
      rw [hsplit]
      simp
      omega
    have hmove : memmove (xs ++ r :: rest') i ((i : Int) + 1) (xs.length - i) =
        some (front ++ back ++ r :: r :: rest') := by
      rw [memmove_of_eq (d := front.length) (i := front.length + 1) (m := back.length + 1) _
        (by omega) (by omega) (by omega), hsplit]
      exact move_down front back rest' a r
    refine ⟨r :: r :: rest', ?_, rfl⟩
    rw [if_pos hlt, if_pos (show ((i : Nat) : Int) < (ofItems xs (r :: rest')).size - 1 from hlt)]
    dsimp only [ofItems]
    rw [hmove, Option.map_some, Int.toNat_natCast, hsplit, ← hfront,
      List.eraseIdx_append_of_length_le (Nat.le_refl _), Nat.sub_self, List.eraseIdx_cons_zero]
    have hsize : ((front ++ a :: back).length : Int) - 1 = (front ++ back).length := by
      simp only [List.length_append, List.length_cons]
      omega
    rw [hsize]
  · obtain ⟨init, last, rfl⟩ : ∃ init last, xs = init ++ [last] :=
      ⟨xs.dropLast, xs.getLast hxs, (List.dropLast_append_getLast hxs).symm⟩
    refine ⟨last :: rest, ?_, rfl⟩
    rw [if_neg hlt, if_neg (show ¬ index < (ofItems (init ++ [last]) rest).size - 1 from hlt)]
    simp [ofItems]

theorem length_without {xs : List α} (index : Int) (hxs : xs ≠ []) :
    (without xs index).length + 1 = xs.length := by
  have hpos := List.length_pos_iff.mpr hxs
  unfold without
  split_ifs with hlt
  · rw [List.length_eraseIdx]
    split_ifs
    · omega
    · omega
  · rw [List.length_dropLast]
    omega

theorem remove_of_full {xs : List α} {index : Int} (hindex : 0 ≤ index)
    (hlt : index < xs.length - 1) :
    (ofItems xs []).remove index = none := by
  obtain ⟨i, rfl⟩ := Int.eq_ofNat_of_zero_le hindex
  have hmove : memmove (xs ++ []) i ((i : Int) + 1) (xs.length - i) = none := by
    rw [memmove_of_eq (d := i) (i := i + 1) (m := xs.length - i) _ rfl (by omega) (by omega)]
    exact if_neg (by rw [List.append_nil]; omega)
  unfold remove
  rw [if_pos (show ((i : Nat) : Int) < (ofItems xs []).size - 1 from hlt)]
  dsimp only [ofItems]
  rw [hmove, Option.map_none]

theorem remove_of_neg {v : Vector α} {index : Int} (hindex : index < 0) (hsize : 0 < v.size) :
    v.remove index = none := by
  unfold remove memmove
  rw [if_pos (by omega), if_neg (by omega), Option.map_none]

/-- There is no item to remove. -/
theorem remove_of_empty {v v' : Vector α} (index : Int) (hsize : v.size = 0)
    (h : v.remove index = some v') :
    v'.size = -1 := by
  unfold remove at h
  split_ifs at h
  · obtain ⟨data, -, rfl⟩ := Option.map_eq_some_iff.mp h
    simp [hsize]
  · rw [← Option.some.inj h]
    simp [hsize]

theorem clear_ofItems (xs rest : List α) : (ofItems xs rest).clear = ofItems [] (xs ++ rest) := rfl

theorem sort_ofItems {qsort : List α → List α} (hqsort : ∀ xs, (qsort xs).Perm xs)
    (xs rest : List α) :
    (ofItems xs rest).sort qsort = some (ofItems (qsort xs) rest) := by
  unfold sort
  rw [if_pos (by rw [size_ofItems]; omega)]
  dsimp only [ofItems]
  rw [Int.toNat_natCast, List.take_left, List.drop_left, (hqsort xs).length_eq]

/-! ### Every sequence of operations -/

/-- `get` reads `x`. -/
inductive Call (α : Type u) where
  | get (index : Int) (x : α)
  | set (index : Int) (x : α)
  | append (x : α)
  | insert (x : α) (before : Int)
  | remove (index : Int)
  | clear
  | sort
  deriving DecidableEq, Repr

/-- After an access outside of the cells there is no vector any more. -/
def step [DecidableEq α] (zero : α) (qsort : List α → List α) :
    Option (Vector α) → Call α → Option (Option (Vector α))
  | none, _ => some none
  | some v, .get index x =>
      match v.get zero index with
      | none => some none
      | some (y, v') => if y = x then some (some v') else none
  | some v, .set index x => some (v.set zero index x)
  | some v, .append x => some (v.append zero x)
  | some v, .insert x before => some (v.insert zero x before)
  | some v, .remove index => some (v.remove index)
  | some v, .clear => some (some v.clear)
  | some v, .sort => some (v.sort qsort)

/-- What the operations are for. -/
def Does (qsort : List α → List α) : Call α → List α → List α → Prop
  | .get index x, xs, ys =>
      xs <+: ys ∧ ys.length = max xs.length (index.toNat + 1) ∧ ys[index.toNat]? = some x
  | .set index x, xs, ys =>
      ∃ zs, xs <+: zs ∧ zs.length = max xs.length (index.toNat + 1) ∧
        ys = zs.set index.toNat x
  | .append x, xs, ys => ys = xs ++ [x]
  | .insert x before, xs, ys =>
      ys = if before < xs.length then xs.insertIdx before.toNat x else xs ++ [x]
  | .remove index, xs, ys => ys = without xs index
  | .clear, _, ys => ys = []
  | .sort, xs, ys => ys = qsort xs

/-- The operation stays within the cells and counts what an `int` can count. -/
def Safe (v : Vector α) : Call α → Prop
  | .get index _ | .set index _ => 0 ≤ index ∧ index < intMax
  | .append _ => v.Room
  | .insert _ before => v.Place before
  | .remove index => 0 ≤ index ∧ 0 < v.size ∧ (index < v.size - 1 → v.size < v.allocated)
  | .clear | .sort => True

instance (v : Vector α) (c : Call α) : Decidable (v.Safe c) := by
  cases c <;> simp only [Safe] <;> infer_instance

def IsValid (s : Option (Vector α)) : Prop := ∃ v ∈ s, v.Valid

variable [DecidableEq α] {zero : α} {qsort : List α → List α}

theorem step_of_safe (hqsort : ∀ xs, (qsort xs).Perm xs) {xs rest : List α}
    (hfits : Fits xs rest) {c : Call α} (hsafe : (ofItems xs rest).Safe c) {s : Option (Vector α)}
    (hstep : step zero qsort (some (ofItems xs rest)) c = some s) :
    ∃ ys rest', s = some (ofItems ys rest') ∧ Fits ys rest' ∧ Does qsort c xs ys := by
  cases c with
  | get index x =>
      obtain ⟨y, ys, rest', heq, hprefix, hlength, hy, hfits'⟩ :=
        get_ofItems zero hfits hsafe.1 hsafe.2
      simp only [step, heq] at hstep
      split_ifs at hstep with hyx
      obtain rfl := hyx
      exact ⟨ys, rest', (Option.some.inj hstep).symm, hfits', hprefix, hlength, hy⟩
  | set index x =>
      obtain ⟨ys, rest', heq, hprefix, hlength, hfits'⟩ :=
        set_ofItems zero hfits hsafe.1 hsafe.2 x
      have hfits'' : Fits (ys.set index.toNat x) rest' := by
        unfold Fits
        rw [List.length_set]
        exact hfits'
      exact ⟨_, rest', (Option.some.inj hstep).symm.trans heq, hfits'', ys, hprefix, hlength,
        rfl⟩
  | append x =>
      obtain ⟨rest', heq, -, hfits'⟩ := append_ofItems zero hfits hsafe x
      exact ⟨_, rest', (Option.some.inj hstep).symm.trans heq, hfits', rfl⟩
  | insert x before =>
      obtain ⟨ys, rest', heq, hys, hfits'⟩ := insert_ofItems zero hfits x hsafe
      exact ⟨ys, rest', (Option.some.inj hstep).symm.trans heq, hfits', hys⟩
  | remove index =>
      obtain ⟨hindex, hsize, hroom⟩ := hsafe
      have hxs : xs ≠ [] := by
        rintro rfl
        exact absurd hsize (Int.lt_irrefl _)
      have hrest : index < xs.length - 1 → rest ≠ [] := by
        rintro hlt rfl
        have hlt' := hroom hlt
        rw [allocated_ofItems] at hlt'
        exact absurd hlt' (by simp [ofItems])
      obtain ⟨rest', heq, hlength⟩ := remove_ofItems hindex hxs hrest
      have hfits' : Fits (without xs index) rest' := by
        have hwithout := length_without index hxs
        unfold Fits at *
        omega
      exact ⟨_, rest', (Option.some.inj hstep).symm.trans heq, hfits', rfl⟩
  | clear =>
      have hfits' : Fits [] (xs ++ rest) := by
        unfold Fits at *
        rw [List.length_nil, List.length_append]
        omega
      exact ⟨_, _, (Option.some.inj hstep).symm.trans (congrArg some (clear_ofItems xs rest)),
        hfits', rfl⟩
  | sort =>
      have hfits' : Fits (qsort xs) rest := by
        unfold Fits
        rw [(hqsort xs).length_eq]
        exact hfits
      exact ⟨_, _, (Option.some.inj hstep).symm.trans (sort_ofItems hqsort xs rest), hfits',
        rfl⟩

theorem step_of_not_safe {v : Vector α} (hv : v.Valid) {c : Call α} (hnot_safe : ¬ v.Safe c)
    {s : Option (Vector α)} (hstep : step zero qsort (some v) c = some s) : ¬ IsValid s := by
  have hnone : s = none → ¬ IsValid s := by
    rintro rfl ⟨v', hv', -⟩
    exact absurd hv' (by simp)
  cases c with
  | get index x =>
      simp only [step, get_of_outside zero v hnot_safe] at hstep
      exact hnone (Option.some.inj hstep).symm
  | set index x =>
      exact hnone ((Option.some.inj hstep).symm.trans (set_of_outside zero v hnot_safe x))
  | append x =>
      exact hnone ((Option.some.inj hstep).symm.trans (append_of_not_room zero hnot_safe x))
  | insert x before =>
      exact hnone ((Option.some.inj hstep).symm.trans (insert_of_not_place zero hv x hnot_safe))
  | remove index =>
      obtain rfl := Option.some.inj hstep
      rcases Int.lt_or_le 0 v.size with hsize | hsize
      · rcases Int.lt_or_le index 0 with hindex | hindex
        · exact hnone (remove_of_neg hindex hsize)
        · obtain ⟨hlt, hfull⟩ : index < v.size - 1 ∧ v.allocated ≤ v.size := by
            by_contra hnot
            exact hnot_safe ⟨hindex, hsize, fun hlt =>
              Int.not_le.mp fun hle => hnot ⟨hlt, hle⟩⟩
          have hrest : v.data.drop v.size.toNat = [] :=
            List.drop_of_length_le (Int.le_toNat hv.1 |>.mpr hfull)
          have heq := hv.eq_ofItems.1
          rw [hrest] at heq
          rw [heq] at hlt hnone ⊢
          exact hnone (remove_of_full hindex hlt)
      · rintro ⟨v', hv', hvalid⟩
        have hzero : v.size = 0 := Int.le_antisymm hsize hv.1
        have hneg := remove_of_empty index hzero hv'
        exact absurd hvalid.1 (by omega)
  | clear => exact absurd trivial hnot_safe
  | sort => exact absurd trivial hnot_safe

/-- What a sequence of operations makes of a list. -/
def Traces (qsort : List α → List α) : List α → List (Call α) → List α → Prop
  | xs, [], ys => ys = xs
  | xs, c :: calls, ys => ∃ zs, Does qsort c xs zs ∧ Traces qsort zs calls ys

def IsSafe (s : Option (Vector α)) (c : Call α) : Prop := ∃ v ∈ s, v.Safe c

instance (s : Option (Vector α)) (c : Call α) : Decidable (IsSafe s c) :=
  inferInstanceAs (Decidable (∃ v ∈ s, v.Safe c))

theorem traces_of_along (hqsort : ∀ xs, (qsort xs).Perm xs) {xs rest : List α}
    (hfits : Fits xs rest) {calls : List (Call α)} {s : Option (Vector α)}
    (hrun : run (step zero qsort) (some (ofItems xs rest)) calls = some s)
    (hsafe : Along (step zero qsort) IsSafe (some (ofItems xs rest)) calls) :
    ∃ v, s = some v ∧ Traces qsort xs calls v.items := by
  induction calls generalizing xs rest with
  | nil =>
      rw [run_nil, Option.some.injEq] at hrun
      exact ⟨_, hrun.symm, items_ofItems xs rest⟩
  | cons c calls ih =>
      obtain ⟨mid, hstep, hrest⟩ := run_cons_eq_some.mp hrun
      obtain ⟨v, hv, hfirst⟩ := hsafe.1
      obtain rfl := Option.some.inj hv
      obtain ⟨ys, rest', rfl, hfits', hdoes⟩ := step_of_safe hqsort hfits hfirst hstep
      obtain ⟨v, rfl, htraces⟩ := ih hfits' hrest (hsafe.2 _ hstep)
      exact ⟨v, rfl, ys, hdoes, htraces⟩

/-- **Vectors are lists.** Whatever is called on a new vector, it stays within its cells exactly if
no index is negative or `INT_MAX`, `Remove` finds an item, no item but the last is removed while all
cells are in use, and a full vector to which something is appended has fewer than 2^29 cells. Then
its items are what the operations make of the empty list. -/
theorem traces_of_run (hqsort : ∀ xs, (qsort xs).Perm xs) {allocated : Int}
    (hallocated : allocated < intMax) {calls : List (Call α)} {s : Option (Vector α)}
    (hrun : run (step zero qsort) (new zero allocated) calls = some s) :
    (Throughout (step zero qsort) IsValid (new zero allocated) calls ↔
      Along (step zero qsort) IsSafe (new zero allocated) calls) ∧
    (Along (step zero qsort) IsSafe (new zero allocated) calls →
      ∃ v, s = some v ∧ Traces qsort [] calls v.items) := by
  have hfits := fits_new zero hallocated
  rw [new_eq zero hallocated] at hrun ⊢
  refine ⟨?_, traces_of_along hqsort hfits hrun⟩
  apply throughout_iff_along_of_kept (I := IsValid) _ (fun _ h => h) _ hrun
    ⟨_, rfl, valid_ofItems hfits⟩
  · rintro s c s' ⟨v, rfl, hv⟩ ⟨_, hw, hsafe⟩ hstep
    obtain rfl := Option.some.inj hw
    obtain ⟨heq, hfits⟩ := hv.eq_ofItems
    rw [heq] at hstep hsafe
    obtain ⟨ys, rest', rfl, hfits', -⟩ := step_of_safe hqsort hfits hsafe hstep
    exact ⟨_, rfl, valid_ofItems hfits'⟩
  · rintro s c s' ⟨v, rfl, hv⟩ hnot_safe hstep
    exact step_of_not_safe hv (fun hsafe => hnot_safe ⟨v, rfl, hsafe⟩) hstep

def sorted : List (Call Nat) :=
  [.append 3, .append 1, .insert 2 0, .append 5, .remove 2, .sort, .get 0 2, .set 4 7]

theorem traces_of_run_sorted :
    ∃ v, run (step 0 (List.insertionSort (· ≤ ·))) (new 0 2) sorted = some (some v) ∧
      v.items = [2, 3, 5, 0, 7] ∧ Traces (List.insertionSort (· ≤ ·)) [] sorted v.items := by
  have hrun : run (step 0 (List.insertionSort (· ≤ ·))) (new 0 2) sorted =
      some (some ⟨[2, 3, 5, 0, 7, 0, 0], 5⟩) := by decide
  obtain ⟨v, hv, htraces⟩ :=
    (traces_of_run (fun xs => List.perm_insertionSort (· ≤ ·) xs) (by decide) hrun).2
      (by decide)
  obtain rfl := Option.some.inj hv
  exact ⟨_, hrun, by decide, htraces⟩

/-- With all cells in use, `Remove` reads the cell behind them. -/
example : run (step 0 id) (new 0 1) [.append 7, .append 8, .remove 0] = some none := by decide

/-- `INT_MAX` is no index. -/
example : run (step 0 id) (new 0 1) [.set 2147483647 8] = some none := by decide

end Vector

end Dbus2vdr

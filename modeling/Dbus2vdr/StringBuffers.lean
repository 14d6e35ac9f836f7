import Dbus2vdr.CString
import Dbus2vdr.Lib.Machine

/-!
# The buffers of the strings

A `cString` owns the buffer that its `s` points to. `values_of_run` says that the strings are values
then: whatever a program does with them, each has the text that was last given to it, and every
buffer belongs to one string, or still to the program, and is freed once. There are two exceptions.
A string must not be assigned a pointer into its own text, which is freed before it is copied, and
`Truncate` needs a text.
-/

namespace Dbus2vdr.StringBuffers

open Machine

/-- Something that can own a buffer: a pointer of the program's own, or a `cString`. -/
inductive Slot (β : Type) where
  /-- The string has been destroyed, or the buffer freed or given away. -/
  | gone
  | raw (buffer : β)
  | str (s : Option β)
  deriving DecidableEq

namespace Slot

variable {α β : Type}

def value : Slot β → Option β
  | gone => none
  | raw buffer => some buffer
  | str s => s

def map (f : α → β) : Slot α → Slot β
  | gone => gone
  | raw buffer => raw (f buffer)
  | str s => str (s.map f)

def isRaw : Slot β → Bool
  | raw _ => true
  | _ => false

def isStr : Slot β → Bool
  | str _ => true
  | _ => false

theorem value_map (f : α → β) (slot : Slot α) : (slot.map f).value = slot.value.map f := by
  cases slot <;> rfl

theorem map_congr {f g : α → β} {slot : Slot α} (h : ∀ a ∈ slot.value, f a = g a) :
    slot.map f = slot.map g := by
  cases slot with
  | gone => rfl
  | raw buffer => exact congrArg raw (h buffer rfl)
  | str s =>
      cases s with
      | none => rfl
      | some buffer => exact congrArg (fun b => str (some b)) (h buffer rfl)

end Slot

/-- A `const char *`: `NULL`, or a pointer into what a slot has now. -/
inductive Source where
  | null
  | inside (k offset : Nat)
  deriving DecidableEq

inductive Call where
  | malloc (text : Bytes)
  | free (k : Nat)
  | new (S : Source)
  /-- `TakePointer`, with a buffer that the program has allocated -/
  | take (k : Nat)
  | copy (i : Nat)
  | destroy (i : Nat)
  | assign (i j : Nat)
  | assignPtr (i : Nat) (S : Source)
  | truncate (i : Nat) (index : Int)
  | sprintf (text : Bytes)
  deriving DecidableEq

def truncated (index : Int) (s : Bytes) : Bytes :=
  let index := if index < 0 then s.length + index else index
  if 0 ≤ index ∧ index < s.length then s.take index.toNat else s

/-! ### Buffers -/

structure Memory where
  heap : Nat → Option Bytes := fun _ => none
  next : Nat := 0
  slots : List (Slot Nat) := []

namespace Memory

def buffer (m : Memory) (i : Nat) : Option Nat := (m.slots[i]?).bind Slot.value

def pointer (m : Memory) : Source → Option (Nat × Nat)
  | .null => none
  | .inside k offset => (m.buffer k).map fun b => (b, offset)

def put (m : Memory) (i : Nat) (slot : Slot Nat) : Memory := { m with slots := m.slots.set i slot }

def add (m : Memory) (slot : Slot Nat) : Memory := { m with slots := m.slots ++ [slot] }

def alloc (m : Memory) (s : Bytes) : Memory :=
  { m with heap := Function.update m.heap m.next (some s), next := m.next + 1 }

def write (m : Memory) (b : Nat) (s : Bytes) : Memory :=
  { m with heap := Function.update m.heap b (some s) }

/-- `free`, which does nothing for `NULL` -/
def release (m : Memory) : Option Nat → Option Memory
  | none => some m
  | some b =>
      if (m.heap b).isSome then some { m with heap := Function.update m.heap b none } else none

/-- `S ? strdup(S) : NULL` -/
def dup (m : Memory) : Option (Nat × Nat) → Option (Memory × Option Nat)
  | none => some (m, none)
  | some (b, offset) => (m.heap b).bind fun s =>
      if offset ≤ s.length then some (m.alloc (s.drop offset), some m.next) else none

def step : Step Memory Call := fun m e =>
  match e with
  | .malloc text => some ((m.alloc text).add (.raw m.next))
  | .free k | .destroy k => (m.release (m.buffer k)).map fun m => m.put k .gone
  | .new S => (m.dup (m.pointer S)).map fun (m, s) => m.add (.str s)
  | .take k => some ((m.put k .gone).add (.str (m.buffer k)))
  | .copy i => (m.dup (m.pointer (.inside i 0))).map fun (m, s) => m.add (.str s)
  | .assign i j =>
      if i = j then some m
      else (m.release (m.buffer i)).bind fun m' =>
        (m'.dup (m.pointer (.inside j 0))).map fun (m, s) => m.put i (.str s)
  | .assignPtr i S =>
      if m.pointer (.inside i 0) = m.pointer S then some m
      else (m.release (m.buffer i)).bind fun m' =>
        (m'.dup (m.pointer S)).map fun (m, s) => m.put i (.str s)
  | .truncate i index => (m.buffer i).bind fun b => (m.heap b).map fun s =>
      m.write b (truncated index s)
  | .sprintf text => some ((m.alloc text).add (.str (some m.next)))

end Memory

/-! ### Values -/

/-- The texts that the program has. -/
abbrev Contents := List (Slot Bytes)

namespace Contents

def value (v : Contents) (i : Nat) : Option Bytes := (v[i]?).bind Slot.value

def text (v : Contents) : Source → Option Bytes
  | .null => none
  | .inside k offset => (v.value k).map fun s => s.drop offset

def IsRaw (v : Contents) (k : Nat) : Prop := ∃ slot ∈ v[k]?, slot.isRaw

def IsStr (v : Contents) (i : Nat) : Prop := ∃ slot ∈ v[i]?, slot.isStr

/-- The pointer is one into a text, its NUL included, or the `NULL` of a string without one. -/
def Points (v : Contents) : Source → Prop
  | .null => True
  | .inside k offset => ∃ slot ∈ v[k]?, slot ≠ .gone ∧
      offset ≤ slot.value.elim 0 List.length

def Allowed (v : Contents) : Call → Prop
  | .malloc _ | .sprintf _ => True
  | .free k | .take k => v.IsRaw k
  | .new S => v.Points S
  | .copy i | .destroy i | .truncate i _ => v.IsStr i
  | .assign i j => v.IsStr i ∧ v.IsStr j
  | .assignPtr i S => v.IsStr i ∧ v.Points S

def after (v : Contents) : Call → Contents
  | .malloc text => v ++ [.raw text]
  | .free k | .destroy k => v.set k .gone
  | .new S => v ++ [.str (v.text S)]
  | .take k => v.set k .gone ++ [.str (v.value k)]
  | .copy i => v ++ [.str (v.value i)]
  | .assign i j => v.set i (.str (v.value j))
  | .assignPtr i S => v.set i (.str (v.text S))
  | .truncate i index => v.set i (.str ((v.value i).map (truncated index)))
  | .sprintf text => v ++ [.str (some text)]

/-- No string is assigned a pointer behind the start of its own text, or truncated without one. -/
def Safe (v : Contents) : Call → Prop
  | .assignPtr i (.inside k offset) => k = i → v.value i ≠ none → offset = 0
  | .truncate i _ => v.value i ≠ none
  | _ => True

end Contents

theorem Contents.Points.le {v : Contents} {k offset : Nat} {s : Bytes}
    (h : v.Points (.inside k offset)) (hs : v.value k = some s) : offset ≤ s.length := by
  obtain ⟨slot, hslot, -, hle⟩ := h
  rw [Contents.value, show v[k]? = some slot from hslot, Option.bind_some] at hs
  rwa [hs] at hle

/-! ### Owners -/

structure Valid (m : Memory) : Prop where
  owned : ∀ i b, m.buffer i = some b → ∃ s, m.heap b = some s
  single : ∀ i j b, m.buffer i = some b → m.buffer j = some b → i = j
  covered : ∀ b s, m.heap b = some s → ∃ i, m.buffer i = some b
  fresh : ∀ b, m.next ≤ b → m.heap b = none

namespace Memory

def text (m : Memory) (b : Nat) : Bytes := (m.heap b).getD []

def contents (m : Memory) : Contents := m.slots.map (Slot.map m.text)

variable {m : Memory} {i j b : Nat} {slot : Slot Nat}

theorem contents_getElem? (m : Memory) (i : Nat) :
    m.contents[i]? = (m.slots[i]?).map (Slot.map m.text) :=
  List.getElem?_map ..

theorem value_contents (m : Memory) (i : Nat) : m.contents.value i = (m.buffer i).map m.text := by
  rw [Contents.value, contents_getElem?, buffer]
  cases m.slots[i]? with
  | none => rfl
  | some slot => exact slot.value_map m.text

theorem contents_put (m : Memory) (i : Nat) (slot : Slot Nat) :
    (m.put i slot).contents = m.contents.set i (slot.map m.text) :=
  List.map_set ..

theorem contents_add (m : Memory) (slot : Slot Nat) :
    (m.add slot).contents = m.contents ++ [slot.map m.text] :=
  List.map_append ..

theorem buffer_put_of_ne (hij : j ≠ i) : (m.put i slot).buffer j = m.buffer j := by
  unfold buffer put
  rw [List.getElem?_set_ne hij.symm]

theorem buffer_put (hi : i < m.slots.length) : (m.put i slot).buffer i = slot.value := by
  unfold buffer put
  rw [List.getElem?_set_self hi]
  rfl

theorem buffer_add_of_ne (hi : i ≠ m.slots.length) : (m.add slot).buffer i = m.buffer i := by
  unfold buffer add
  rcases Nat.lt_or_gt_of_ne hi with hlt | hgt
  · rw [List.getElem?_append_left hlt]
  · rw [List.getElem?_eq_none (by simpa using Nat.succ_le_of_lt hgt),
      List.getElem?_eq_none (Nat.le_of_lt hgt)]

theorem buffer_add (m : Memory) (slot : Slot Nat) :
    (m.add slot).buffer m.slots.length = slot.value := by
  unfold buffer add
  rw [List.getElem?_concat_length]
  rfl

theorem buffer_length (m : Memory) : m.buffer m.slots.length = none := by
  rw [buffer, List.getElem?_eq_none (Nat.le_refl _)]
  rfl

theorem lt_of_buffer (h : m.buffer i = some b) : i < m.slots.length := by
  by_contra hnot
  rw [buffer, List.getElem?_eq_none (not_lt.mp hnot)] at h
  cases h

theorem set_of_getElem? {β : Type} {xs : List β} {x : β} (h : xs[i]? = some x) :
    xs.set i x = xs := by
  obtain ⟨hi, rfl⟩ := List.getElem?_eq_some_iff.mp h
  exact List.set_getElem_self hi

/-- What changes is the slot `i` alone. -/
theorem contents_put_congr {m' : Memory} (hslots : m'.slots = m.slots)
    (hheap : ∀ j b, j ≠ i → m.buffer j = some b → m'.heap b = m.heap b) :
    (m'.put i slot).contents = m.contents.set i (slot.map m'.text) := by
  rw [contents_put]
  apply List.ext_getElem?
  intro j
  by_cases hj : j = i
  · subst hj
    simp only [List.getElem?_set_self', contents_getElem?, hslots]
    cases m.slots[j]? <;> rfl
  · rw [List.getElem?_set_ne (Ne.symm hj), List.getElem?_set_ne (Ne.symm hj), contents_getElem?,
      contents_getElem?, hslots]
    cases hslot : m.slots[j]? with
    | none => rfl
    | some other =>
        refine congrArg some (Slot.map_congr fun b hb => ?_)
        have hbuffer : m.buffer j = some b := by
          rw [buffer, hslot]
          exact hb
        rw [text, text, hheap j b hj hbuffer]

theorem buffer_put_none (hi : m.buffer i = none) (hslot : slot.value = none) (j : Nat) :
    (m.put i slot).buffer j = m.buffer j := by
  by_cases hj : j = i
  · subst hj
    by_cases hlt : j < m.slots.length
    · rw [buffer_put hlt, hslot, hi]
    · rw [buffer, put, List.set_eq_of_length_le (not_lt.mp hlt)]
      rfl
  · exact buffer_put_of_ne hj

theorem dup_of_put {p : Option (Nat × Nat)} {s : Bytes}
    (h : (m.put i slot).dup p = some ((m.put i slot).alloc s, some m.next)) :
    m.dup p = some (m.alloc s, some m.next) := by
  cases p with
  | none => cases (Prod.mk.inj (Option.some.inj h)).2
  | some p =>
      obtain ⟨b, offset⟩ := p
      rw [dup, Option.bind_eq_some_iff] at h
      obtain ⟨t, ht, h⟩ := h
      split_ifs at h with hoffset
      have hb : m.heap b = some t := ht
      have hheap : Function.update m.heap m.next (some (t.drop offset)) =
        Function.update m.heap m.next (some s) :=
        congrArg Memory.heap (Prod.mk.inj (Option.some.inj h)).1
      rw [dup, hb, Option.bind_some, if_pos hoffset, alloc, alloc, hheap]

end Memory

namespace Valid

open Memory

variable {m m' : Memory} {i b : Nat} {slot : Slot Nat}

theorem congr (h : Valid m) (hheap : m'.heap = m.heap) (hnext : m'.next = m.next)
    (hbuffer : ∀ j, m'.buffer j = m.buffer j) : Valid m' where
  owned j b hj := by
    rw [hheap]
    exact h.owned j b ((hbuffer j).symm.trans hj)
  single j k b hj hk := h.single j k b ((hbuffer j).symm.trans hj) ((hbuffer k).symm.trans hk)
  covered b s hb := by
    rw [hheap] at hb
    obtain ⟨j, hj⟩ := h.covered b s hb
    exact ⟨j, (hbuffer j).trans hj⟩
  fresh b hb := by
    rw [hheap]
    exact h.fresh b (hnext ▸ hb)

theorem ne_next (h : Valid m) (hi : m.buffer i = some b) : b ≠ m.next := by
  rintro rfl
  obtain ⟨s, hs⟩ := h.owned i _ hi
  rw [h.fresh _ (Nat.le_refl _)] at hs
  cases hs

/-- A slot gives up its buffer, which is freed. -/
theorem release (h : Valid m) (slot : Slot Nat) (hi : i < m.slots.length)
    (hslot : slot.value = none) :
    ∃ m₁, m.release (m.buffer i) = some m₁ ∧ m₁.slots = m.slots ∧ m₁.next = m.next ∧
      (∀ j b, j ≠ i → m.buffer j = some b → m₁.heap b = m.heap b) ∧
      Valid (m₁.put i slot) ∧
      (∀ b, m.buffer i = some b → m₁.heap b = none) := by
  cases hb : m.buffer i with
  | none =>
      refine ⟨m, rfl, rfl, rfl, fun _ _ _ _ => rfl, ?_, fun b hbuffer => by cases hbuffer⟩
      exact h.congr rfl rfl (buffer_put_none hb hslot)
  | some b =>
      obtain ⟨s, hs⟩ := h.owned i b hb
      have hne : ∀ j b', j ≠ i → m.buffer j = some b' → b' ≠ b := by
        rintro j b' hj hbuffer rfl
        exact hj (h.single j i _ hbuffer hb)
      refine ⟨{ m with heap := Function.update m.heap b none }, ?_, rfl, rfl,
        fun j b' hj hbuffer => ?_, ?_, ?_⟩
      · rw [Memory.release, hs]
        rfl
      · exact Function.update_of_ne (hne j b' hj hbuffer) _ _
      · have hself :
          ({ m with heap := Function.update m.heap b none }.put i slot).buffer i = none :=
          (buffer_put hi).trans hslot
        have hold : ∀ j b',
          ({ m with heap := Function.update m.heap b none }.put i slot).buffer j = some b' →
            j ≠ i ∧ m.buffer j = some b' := by
          intro j b' hbuffer
          have hj : j ≠ i := by
            rintro rfl
            rw [hself] at hbuffer
            cases hbuffer
          rw [buffer_put_of_ne hj] at hbuffer
          exact ⟨hj, hbuffer⟩
        constructor
        · intro j b' hbuffer
          obtain ⟨hj, hbuffer⟩ := hold j b' hbuffer
          obtain ⟨s', hs'⟩ := h.owned j b' hbuffer
          exact ⟨s', (Function.update_of_ne (hne j b' hj hbuffer) _ _).trans hs'⟩
        · intro j k b' hj hk
          exact h.single j k b' (hold j b' hj).2 (hold k b' hk).2
        · intro b' s' hs'
          have hb' : b' ≠ b := by
            rintro rfl
            simp [Memory.put] at hs'
          obtain ⟨j, hj⟩ := h.covered b' s' ((Function.update_of_ne hb' _ _).symm.trans hs')
          have hji : j ≠ i := by
            rintro rfl
            exact hb' (Option.some.inj (hj.symm.trans hb))
          exact ⟨j, (buffer_put_of_ne hji).trans hj⟩
        · intro b' hb'
          have hfresh := h.fresh b' hb'
          by_cases heq : b' = b
          · subst heq
            exact Function.update_self ..
          · exact (Function.update_of_ne heq _ _).trans hfresh
      · intro b' hbuffer
        obtain rfl := Option.some.inj hbuffer
        exact Function.update_self ..

/-- An empty slot gets a new buffer. -/
theorem fill (h : Valid m) (slot : Slot Nat) (hi : i < m.slots.length) (hnone : m.buffer i = none)
    (hslot : slot.value = some m.next) (s : Bytes) :
    Valid ((m.alloc s).put i slot) ∧
    ((m.alloc s).put i slot).contents = m.contents.set i (slot.map fun _ => s) := by
  have hself : ((m.alloc s).put i slot).buffer i = some m.next := (buffer_put hi).trans hslot
  have hold : ∀ j b, j ≠ i → m.buffer j = some b → (m.alloc s).heap b = m.heap b :=
    fun j b _ hbuffer =>
    Function.update_of_ne (h.ne_next hbuffer) _ _
  have hother : ∀ j, j ≠ i → ((m.alloc s).put i slot).buffer j = m.buffer j := fun j hj =>
    buffer_put_of_ne hj
  constructor
  · constructor
    · intro j b hbuffer
      by_cases hj : j = i
      · subst hj
        obtain rfl := Option.some.inj (hself.symm.trans hbuffer)
        exact ⟨s, Function.update_self ..⟩
      · rw [hother j hj] at hbuffer
        obtain ⟨s', hs'⟩ := h.owned j b hbuffer
        exact ⟨s', (hold j b hj hbuffer).trans hs'⟩
    · intro j k b hbj hbk
      by_cases hj : j = i
      · by_cases hk : k = i
        · exact hj.trans hk.symm
        · subst hj
          rw [hother k hk] at hbk
          exact absurd (Option.some.inj (hself.symm.trans hbj)).symm (h.ne_next hbk)
      · rw [hother j hj] at hbj
        by_cases hk : k = i
        · subst hk
          exact absurd (Option.some.inj (hself.symm.trans hbk)).symm (h.ne_next hbj)
        · rw [hother k hk] at hbk
          exact h.single j k b hbj hbk
    · intro b s' hs'
      by_cases hb : b = m.next
      · exact ⟨i, hb ▸ hself⟩
      · obtain ⟨j, hj⟩ := h.covered b s' ((Function.update_of_ne hb _ _).symm.trans hs')
        have hji : j ≠ i := by
          rintro rfl
          rw [hnone] at hj
          cases hj
        exact ⟨j, (hother j hji).trans hj⟩
    · intro b hb
      have hlt : m.next < b := hb
      exact (Function.update_of_ne (Nat.ne_of_gt hlt) _ _).trans (h.fresh b (Nat.le_of_lt hlt))
  · have hset : ((m.alloc s).put i slot).contents = m.contents.set i (slot.map (m.alloc s).text) :=
      contents_put_congr rfl hold
    rw [hset]
    refine congrArg _ (Slot.map_congr fun b hb => ?_)
    obtain rfl := Option.some.inj (hslot.symm.trans hb)
    simp [text, alloc]

theorem addEmpty (h : Valid m) (hslot : slot.value = none) : Valid (m.add slot) := by
  refine h.congr rfl rfl fun j => ?_
  by_cases hj : j = m.slots.length
  · rw [hj, buffer_add, hslot, buffer_length]
  · exact buffer_add_of_ne hj

theorem addNew (h : Valid m) (slot : Slot Nat) (hslot : slot.value = some m.next) (s : Bytes) :
    Valid ((m.alloc s).add slot) ∧
    ((m.alloc s).add slot).contents = m.contents ++ [slot.map fun _ => s] := by
  have hgrown : Valid (m.add .gone) := h.addEmpty rfl
  have hnone : (m.add .gone).buffer m.slots.length = none := buffer_add m .gone
  have hlength : m.slots.length < (m.add .gone).slots.length := by simp [add]
  have hput : ((m.add .gone).alloc s).put m.slots.length slot = (m.alloc s).add slot := by
    simp [put, add, alloc]
  have hfill := hgrown.fill slot hlength hnone hslot s
  rw [hput, contents_add m .gone] at hfill
  refine ⟨hfill.1, hfill.2.trans ?_⟩
  have hcontents : m.contents.length = m.slots.length := List.length_map ..
  rw [← hcontents]
  simp

/-! ### What `strdup` gives -/

theorem dup (h : Valid m) {S : Source} (hS : m.contents.Points S) :
    (m.pointer S = none ∧ m.dup (m.pointer S) = some (m, none) ∧ m.contents.text S = none) ∨
    ∃ s, m.dup (m.pointer S) = some (m.alloc s, some m.next) ∧ m.contents.text S = some s := by
  cases S with
  | null => exact Or.inl ⟨rfl, rfl, rfl⟩
  | inside k offset =>
      have hvalue := value_contents m k
      cases hb : m.buffer k with
      | none =>
          rw [hb] at hvalue
          have hpointer : m.pointer (.inside k offset) = none := by rw [pointer, hb]; rfl
          refine Or.inl ⟨hpointer, by rw [hpointer]; rfl, ?_⟩
          rw [Contents.text, hvalue]
          rfl
      | some b =>
          obtain ⟨s, hs⟩ := h.owned k b hb
          have htext : m.contents.value k = some s := by
            rw [hvalue, hb, Option.map_some, Memory.text, hs]
            rfl
          have hoffset : offset ≤ s.length := hS.le htext
          refine Or.inr ⟨s.drop offset, ?_, ?_⟩
          · rw [pointer, hb, Option.map_some, Memory.dup, hs, Option.bind_some, if_pos hoffset]
          · rw [Contents.text, htext, Option.map_some]

theorem addText (h : Valid m) {S : Source} (hS : m.contents.Points S) :
    ∃ m', ((m.dup (m.pointer S)).map fun (m, s) => m.add (.str s)) = some m' ∧ Valid m' ∧
      m'.contents = m.contents ++ [.str (m.contents.text S)] := by
  rcases h.dup hS with ⟨-, hdup, htext⟩ | ⟨s, hdup, htext⟩
  · rw [hdup, htext]
    exact ⟨_, rfl, h.addEmpty rfl, contents_add m (.str none)⟩
  · rw [hdup, htext]
    exact ⟨_, rfl, h.addNew (.str (some m.next)) rfl s⟩

/-- An assignment, when the text does not come from the string itself. -/
theorem setText (h : Valid m) (hi : i < m.slots.length) {S : Source} (hS : m.contents.Points S)
    (hother : ∀ offset, S ≠ .inside i offset) :
    ∃ m', ((m.release (m.buffer i)).bind fun m₁ =>
        (m₁.dup (m.pointer S)).map fun (m, s) => m.put i (.str s)) = some m' ∧ Valid m' ∧
      m'.contents = m.contents.set i (.str (m.contents.text S)) := by
  obtain ⟨m₁, hrelease, hslots, -, hheap, hvalid, -⟩ := h.release (.str none) hi rfl
  have hcontents : (m₁.put i (.str none)).contents = m.contents.set i (.str none) :=
    contents_put_congr hslots hheap
  have hlength : i < (m₁.put i (.str none)).slots.length := by simpa [put, hslots] using hi
  have hempty : (m₁.put i (.str none)).buffer i = none := buffer_put (hslots.symm ▸ hi)
  have hvalue : ∀ k, k ≠ i → (m₁.put i (.str none)).contents.value k =
      m.contents.value k := by
    intro k hk
    rw [hcontents, Contents.value, List.getElem?_set_ne (Ne.symm hk)]
    rfl
  have hpointer : (m₁.put i (.str none)).pointer S = m.pointer S ∧
      (m₁.put i (.str none)).contents.text S = m.contents.text S ∧
        (m₁.put i (.str none)).contents.Points S := by
    cases S with
    | null => exact ⟨rfl, rfl, trivial⟩
    | inside k offset =>
        have hk : k ≠ i := fun hk => hother offset (hk ▸ rfl)
        refine ⟨?_, ?_, ?_⟩
        · rw [pointer, pointer, buffer_put_of_ne hk, buffer, buffer, hslots]
        · rw [Contents.text, Contents.text, hvalue k hk]
        · rw [hcontents, Contents.Points, List.getElem?_set_ne (Ne.symm hk)]
          exact hS
  obtain ⟨hsame, htext, hpoints⟩ := hpointer
  rw [hrelease, Option.bind_some]
  rcases hvalid.dup hpoints with ⟨hnone, -, hnull⟩ | ⟨s, hdup, hs⟩
  · rw [← hsame, hnone, ← htext, hnull]
    exact ⟨_, rfl, hvalid, hcontents⟩
  · -- the copy is made before the pointer is set, which makes no difference
    rw [hsame] at hdup
    have hput : ((m₁.put i (.str none)).alloc s).put i (.str (some m₁.next)) =
        (m₁.alloc s).put i (.str (some m₁.next)) := by simp [put, alloc]
    obtain ⟨hfilled, hset⟩ := hvalid.fill (.str (some m₁.next)) hlength hempty rfl s
    rw [hput] at hfilled hset
    rw [dup_of_put hdup, ← htext, hs]
    refine ⟨_, rfl, hfilled, hset.trans ?_⟩
    rw [hcontents, List.set_set]
    rfl

end Valid

/-! ### Calls -/

namespace Memory

variable {m : Memory} {i k : Nat}

theorem str_of_isStr (h : m.contents.IsStr i) : ∃ s, m.slots[i]? = some (.str s) := by
  obtain ⟨s, hs, hstr⟩ := h
  rw [contents_getElem?, Option.mem_def, Option.map_eq_some_iff] at hs
  obtain ⟨slot, hslot, rfl⟩ := hs
  cases slot with
  | gone | raw => cases hstr
  | str p => exact ⟨p, hslot⟩

theorem raw_of_isRaw (h : m.contents.IsRaw k) : ∃ b, m.slots[k]? = some (.raw b) := by
  obtain ⟨s, hs, hraw⟩ := h
  rw [contents_getElem?, Option.mem_def, Option.map_eq_some_iff] at hs
  obtain ⟨slot, hslot, rfl⟩ := hs
  cases slot with
  | gone | str => cases hraw
  | raw b => exact ⟨b, hslot⟩

theorem text_contents (m : Memory) (S : Source) :
    m.contents.text S = (m.pointer S).map fun p => (m.text p.1).drop p.2 := by
  cases S with
  | null => rfl
  | inside k offset =>
      rw [Contents.text, value_contents, pointer, Option.map_map, Option.map_map]
      rfl

theorem text_start (v : Contents) (i : Nat) : v.text (.inside i 0) = v.value i := by
  rw [Contents.text]
  cases v.value i <;> rfl

theorem points_start (h : m.contents.IsStr i) : m.contents.Points (.inside i 0) := by
  obtain ⟨slot, hslot, hstr⟩ := h
  refine ⟨slot, hslot, ?_, Nat.zero_le _⟩
  rintro rfl
  cases hstr

theorem set_value (h : m.contents.IsStr i) :
    m.contents.set i (.str (m.contents.value i)) = m.contents := by
  obtain ⟨p, hp⟩ := str_of_isStr h
  apply set_of_getElem?
  rw [Contents.value, contents_getElem?, hp]
  rfl

end Memory

namespace Valid

open Memory

variable {m : Memory} {i k : Nat} {S : Source}

theorem free (h : Valid m) (hi : i < m.slots.length) :
    ∃ m', ((m.release (m.buffer i)).map fun m => m.put i .gone) = some m' ∧ Valid m' ∧
      m'.contents = m.contents.set i .gone := by
  obtain ⟨m₁, hrelease, hslots, -, hheap, hvalid, -⟩ := h.release .gone hi rfl
  rw [hrelease]
  exact ⟨_, rfl, hvalid, contents_put_congr hslots hheap⟩

/-- The program gives its buffer to a new string. -/
theorem take (h : Valid m) (hraw : m.contents.IsRaw k) :
    Valid ((m.put k .gone).add (.str (m.buffer k))) ∧
      ((m.put k .gone).add (.str (m.buffer k))).contents = m.contents.after (.take k) := by
  obtain ⟨b, hb⟩ := raw_of_isRaw hraw
  have hbuffer : m.buffer k = some b := by rw [buffer, hb]; rfl
  have hk : k < m.slots.length := lt_of_buffer hbuffer
  have hlength : (m.put k .gone).slots.length = m.slots.length := List.length_set ..
  have hnew : ((m.put k .gone).add (.str (m.buffer k))).buffer m.slots.length = some b := by
    rw [← hlength, buffer_add, hbuffer]
    rfl
  have hold : ∀ j, j ≠ m.slots.length → j ≠ k →
      ((m.put k .gone).add (.str (m.buffer k))).buffer j = m.buffer j := by
    intro j hj hjk
    rw [buffer_add_of_ne (hlength.symm ▸ hj), buffer_put_of_ne hjk]
  have hgone : ((m.put k .gone).add (.str (m.buffer k))).buffer k = none := by
    rw [buffer_add_of_ne (hlength.symm ▸ Nat.ne_of_lt hk), buffer_put hk]
    rfl
  -- the buffers are where they were, but for the one that has moved
  have hmoved : ∀ j b', ((m.put k .gone).add (.str (m.buffer k))).buffer j = some b' →
      (j = m.slots.length ∧ b' = b) ∨ (j ≠ k ∧ m.buffer j = some b') := by
    intro j b' hj
    by_cases hlast : j = m.slots.length
    · subst hlast
      exact Or.inl ⟨rfl, Option.some.inj (hj.symm.trans hnew)⟩
    · by_cases hjk : j = k
      · subst hjk
        rw [hgone] at hj
        cases hj
      · exact Or.inr ⟨hjk, (hold j hlast hjk).symm.trans hj⟩
  refine ⟨⟨fun j b' hj => ?_, fun j j' b' hj hj' => ?_, fun b' s hs => ?_, h.fresh⟩, ?_⟩
  · rcases hmoved j b' hj with ⟨-, rfl⟩ | ⟨-, hj⟩
    · exact h.owned k b' hbuffer
    · exact h.owned j b' hj
  · rcases hmoved j b' hj with ⟨rfl, rfl⟩ | ⟨hjk, hj⟩
    · rcases hmoved j' b' hj' with ⟨rfl, -⟩ | ⟨hjk', hj'⟩
      · rfl
      · exact absurd (h.single j' k b' hj' hbuffer) hjk'
    · rcases hmoved j' b' hj' with ⟨-, rfl⟩ | ⟨-, hj'⟩
      · exact absurd (h.single j k b' hj hbuffer) hjk
      · exact h.single j j' b' hj hj'
  · obtain ⟨j, hj⟩ := h.covered b' s hs
    by_cases hjk : j = k
    · subst hjk
      obtain rfl := Option.some.inj (hbuffer.symm.trans hj)
      exact ⟨m.slots.length, hnew⟩
    · exact ⟨j, (hold j (Nat.ne_of_lt (lt_of_buffer hj)) hjk).trans hj⟩
  · rw [contents_add, contents_put, Contents.after, value_contents]
    rfl

theorem truncate (h : Valid m) (hstr : m.contents.IsStr i) (index : Int)
    (hvalue : m.contents.value i ≠ none) :
    ∃ m', Memory.step m (.truncate i index) = some m' ∧ Valid m' ∧
      m'.contents = m.contents.after (.truncate i index) := by
  obtain ⟨p, hp⟩ := str_of_isStr hstr
  have hbuffer : m.buffer i = p := by rw [buffer, hp]; rfl
  rw [value_contents, hbuffer] at hvalue
  cases p with
  | none => exact absurd rfl hvalue
  | some b =>
      obtain ⟨s, hs⟩ := h.owned i b hbuffer
      refine ⟨m.write b (truncated index s), ?_, ?_, ?_⟩
      · simp only [Memory.step, hbuffer, Option.bind_some, hs, Option.map_some]
      · refine ⟨fun j b' hj => ?_, h.single, fun b' s' hs' => ?_, fun b' hb' => ?_⟩
        · by_cases hb' : b' = b
          · subst hb'
            exact ⟨_, Function.update_self ..⟩
          · obtain ⟨s', hs'⟩ := h.owned j b' hj
            exact ⟨s', (Function.update_of_ne hb' _ _).trans hs'⟩
        · by_cases hb' : b' = b
          · exact ⟨i, hb' ▸ hbuffer⟩
          · exact h.covered b' s' ((Function.update_of_ne hb' _ _).symm.trans hs')
        · have hne : b' ≠ b := by
            rintro rfl
            rw [h.fresh b' hb'] at hs
            cases hs
          exact (Function.update_of_ne hne _ _).trans (h.fresh b' hb')
      · have hput : m.write b (truncated index s) =
            (m.write b (truncated index s)).put i (.str (some b)) := by
          have hslots : (m.write b (truncated index s)).slots.set i (.str (some b)) = m.slots :=
            set_of_getElem? hp
          rw [put, hslots]
          rfl
        have hother : ∀ j b', j ≠ i → m.buffer j = some b' →
            (m.write b (truncated index s)).heap b' = m.heap b' := by
          intro j b' hj hb'
          refine Function.update_of_ne ?_ _ _
          rintro rfl
          exact hj (h.single j i b' hb' hbuffer)
        have hset : ((m.write b (truncated index s)).put i (.str (some b))).contents =
            m.contents.set i ((Slot.str (some b)).map (m.write b (truncated index s)).text) :=
          contents_put_congr rfl hother
        rw [hput, hset, Contents.after, value_contents, hbuffer]
        simp [Slot.map, Memory.text, write, hs]

theorem assignPtr (h : Valid m) (hstr : m.contents.IsStr i) (hpoints : m.contents.Points S)
    (hsafe : m.contents.Safe (.assignPtr i S)) :
    ∃ m', Memory.step m (.assignPtr i S) = some m' ∧ Valid m' ∧
      m'.contents = m.contents.after (.assignPtr i S) := by
  simp only [Memory.step]
  split_ifs with hsame
  · have htext : m.contents.text S = m.contents.value i := by
      rw [← text_start, text_contents, text_contents, hsame]
    exact ⟨m, rfl, h, by rw [Contents.after, htext, set_value hstr]⟩
  · obtain ⟨p, hp⟩ := str_of_isStr hstr
    refine h.setText (List.getElem?_eq_some_iff.mp hp).1 hpoints ?_
    rintro offset rfl
    cases hb : m.buffer i with
    | none => exact hsame (by rw [pointer, pointer, hb]; rfl)
    | some b =>
        have hvalue : m.contents.value i ≠ none := by
          rw [value_contents, hb]
          exact Option.some_ne_none _
        exact hsame (by rw [hsafe rfl hvalue])

/-- A call that is safe does with the buffers what it does with the texts. -/
theorem step_of_safe (h : Valid m) {e : Call} (hallowed : m.contents.Allowed e)
    (hsafe : m.contents.Safe e) :
    ∃ m', Memory.step m e = some m' ∧ Valid m' ∧ m'.contents = m.contents.after e := by
  have hlt : ∀ {i : Nat} {slot : Slot Nat}, m.slots[i]? = some slot → i < m.slots.length :=
    fun hi =>
    (List.getElem?_eq_some_iff.mp hi).1
  cases e with
  | malloc text => exact ⟨_, rfl, h.addNew (.raw m.next) rfl text⟩
  | sprintf text => exact ⟨_, rfl, h.addNew (.str (some m.next)) rfl text⟩
  | free k => exact h.free (hlt (raw_of_isRaw hallowed).choose_spec)
  | destroy i => exact h.free (hlt (str_of_isStr hallowed).choose_spec)
  | new S => exact h.addText hallowed
  | copy i =>
      have hcopy := h.addText (points_start hallowed)
      rw [text_start] at hcopy
      exact hcopy
  | take k => exact ⟨_, rfl, h.take hallowed⟩
  | assign i j =>
      obtain ⟨hi, hj⟩ := hallowed
      simp only [Memory.step]
      split_ifs with hij
      · subst hij
        exact ⟨m, rfl, h, (set_value hi).symm⟩
      · have hset := h.setText (hlt (str_of_isStr hi).choose_spec) (points_start hj)
          fun offset heq => hij (by cases heq; rfl)
        rw [text_start] at hset
        exact hset
  | assignPtr i S => exact h.assignPtr hallowed.1 hallowed.2 hsafe
  | truncate i index => exact h.truncate hallowed index hsafe

/-- A string that is assigned a pointer into its own text has freed it by then. -/
theorem step_of_not_safe (h : Valid m) {e : Call} (hallowed : m.contents.Allowed e)
    (hnot : ¬ m.contents.Safe e) : Memory.step m e = none := by
  cases e with
  | malloc | sprintf | free | destroy | new | copy | take | assign => exact absurd trivial hnot
  | truncate i index =>
      have hnone : m.buffer i = none := by
        rw [Contents.Safe, not_not, value_contents, Option.map_eq_none_iff] at hnot
        exact hnot
      simp only [Memory.step, hnone]
      rfl
  | assignPtr i S =>
      cases S with
      | null => exact absurd trivial hnot
      | inside k offset =>
          obtain ⟨rfl, hvalue, hoffset⟩ : k = i ∧
              m.contents.value i ≠ none ∧ offset ≠ 0 := by
            simpa only [Contents.Safe, Classical.not_imp] using hnot
          cases hb : m.buffer k with
          | none => exact absurd (by rw [value_contents, hb]; rfl) hvalue
          | some b =>
              obtain ⟨p, hp⟩ := str_of_isStr hallowed.1
              obtain ⟨m₁, hrelease, -, -, -, -, hfreed⟩ :=
                h.release .gone (List.getElem?_eq_some_iff.mp hp).1 rfl
              have hne : m.pointer (.inside k 0) ≠ m.pointer (.inside k offset) := by
                rw [pointer, pointer, hb, Option.map_some, Option.map_some]
                exact fun heq => hoffset (Prod.mk.inj (Option.some.inj heq)).2.symm
              simp only [Memory.step]
              rw [if_neg hne, hrelease, Option.bind_some, pointer, hb, Option.map_some, Memory.dup,
                hfreed b hb]
              rfl

end Valid

/-! ### Programs -/

namespace Contents

instance decidablePoints (v : Contents) : DecidablePred v.Points := by
  intro S
  cases S <;> unfold Points <;> infer_instance

instance decidableAllowed (v : Contents) : DecidablePred v.Allowed := by
  intro e
  cases e <;> unfold Allowed <;> (try unfold IsRaw) <;> (try unfold IsStr) <;> infer_instance

def step : Step Contents Call := fun v e => if v.Allowed e then some (v.after e) else none

theorem step_eq_some {v v' : Contents} {e : Call} : step v e = some v' ↔
    v.Allowed e ∧ v.after e = v' := by
  unfold step
  split_ifs with hallowed <;> simp [hallowed]

end Contents

theorem valid_initial : Valid {} where
  owned i b h := by cases h
  single i j b h := by cases h
  covered b s h := by cases h
  fresh _ _ := rfl

theorem Valid.represents {m : Memory} (h : Valid m) {calls : List Call} {v : Contents}
    (hrun : run Contents.step m.contents calls = some v) :
    ((run Memory.step m calls).isSome ↔ Along Contents.step Contents.Safe m.contents calls) ∧
      ∀ m', run Memory.step m calls = some m' → Valid m' ∧ m'.contents = v := by
  induction calls generalizing m with
  | nil =>
      rw [run_nil, Option.some.injEq] at hrun
      refine ⟨iff_of_true rfl trivial, fun m' hm' => ?_⟩
      rw [run_nil, Option.some.injEq] at hm'
      exact ⟨hm' ▸ h, hm' ▸ hrun⟩
  | cons e calls ih =>
      obtain ⟨mid, hstep, hrest⟩ := run_cons_eq_some.mp hrun
      obtain ⟨hallowed, rfl⟩ := Contents.step_eq_some.mp hstep
      by_cases hsafe : m.contents.Safe e
      · obtain ⟨m₁, hm₁, hvalid, hcontents⟩ := h.step_of_safe hallowed hsafe
        rw [← hcontents] at hrest hstep
        obtain ⟨hiff, hall⟩ := ih hvalid hrest
        simp only [run, hm₁, Option.bind_some]
        refine ⟨hiff.trans ⟨fun halong => ⟨hsafe, fun s' hs' => ?_⟩, fun halong =>
          halong.2 _ hstep⟩, hall⟩
        obtain rfl := Option.some.inj (hstep.symm.trans hs')
        exact halong
      · simp only [run, h.step_of_not_safe hallowed hsafe, Option.bind_none]
        refine ⟨iff_of_false (by simp) fun halong => hsafe halong.1, fun m' hm' => by cases hm'⟩

/-- **Strings are values.** A program that only uses what it has, and gives away only buffers of its
own, never reads or frees a buffer that is gone exactly if it assigns no string a pointer into the
string's own text, behind the start, and truncates no string without a text. Every string then has
the text it was given, every buffer belongs to one of the program's strings or pointers, and none is
left when these are gone. -/
theorem values_of_run {calls : List Call} {v : Contents}
    (hrun : run Contents.step [] calls = some v) :
    ((run Memory.step {} calls).isSome ↔ Along Contents.step Contents.Safe [] calls) ∧
      ∀ m, run Memory.step {} calls = some m → m.contents = v ∧ Valid m ∧
        ((∀ slot ∈ v, slot = .gone) → ∀ b, m.heap b = none) := by
  obtain ⟨hiff, hall⟩ := valid_initial.represents hrun
  refine ⟨hiff, fun m hm => ?_⟩
  obtain ⟨hvalid, rfl⟩ := hall m hm
  refine ⟨rfl, hvalid, fun hgone b => ?_⟩
  by_contra hb
  obtain ⟨s, hs⟩ := Option.ne_none_iff_exists'.mp hb
  obtain ⟨i, hi⟩ := hvalid.covered b s hs
  have hvalue : m.contents.value i = some (m.text b) := by rw [m.value_contents, hi]; rfl
  obtain ⟨slot, hslot, hsome⟩ := Option.bind_eq_some_iff.mp hvalue
  rw [hgone slot (List.mem_of_getElem? hslot)] at hsome
  cases hsome

/-- What `ConfirmShutdown` does with its strings: the text that has been read is given to one, its
tail is copied into another, and that is truncated. -/
def answer : List Call :=
  [.malloc (ascii "TRY_AGAIN=\"30\""), .take 0, .new (.inside 1 11), .truncate 2 (-1), .copy 2,
    .assign 1 2, .destroy 1, .destroy 2, .destroy 3]

theorem values_of_run_answer :
    ∃ m, run Memory.step {} answer = some m ∧ ∀ b, m.heap b = none := by
  have hrun := Option.eq_some_of_isSome (o := run Contents.step [] answer) (by decide +kernel)
  obtain ⟨-, hall⟩ := values_of_run hrun
  have hsome : (run Memory.step {} answer).isSome := by decide +kernel
  obtain ⟨m, hm⟩ := Option.isSome_iff_exists.mp hsome
  exact ⟨m, hm, (hall m hm).2.2 (by decide +kernel)⟩

/-- A string is assigned its own tail. -/
example : run Memory.step {} [.sprintf (ascii "abc"), .assignPtr 0 (.inside 0 1)] = none := by rfl

end Dbus2vdr.StringBuffers

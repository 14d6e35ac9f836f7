import Dbus2vdr.Lib.Machine
import Dbus2vdr.Lists.ListBase
import Mathlib.Data.List.Perm.Subperm
import Mathlib.Data.List.Sort

/-!
# What the lists of a program hold

A program has several lists, and objects it puts into them. `Contents` says which objects there are
and what each list is a list of; `Memory` has the links in the objects and the bases of the lists.
As long as a program puts an object into one list only, the memory represents the contents, whatever
it calls.
-/

namespace Dbus2vdr.ListBase

open Intrusive

universe u v

variable {α : Type u} {ι : Type v}

/-- What a program does with its objects and lists. -/
inductive Call (α : Type u) (ι : Type v)
  | create (object : α)
  | destroy (object : α)
  | add (i : ι) (object : α) (after : Option α)
  | ins (i : ι) (object : α) (before : Option α)
  | del (i : ι) (object : α) (deleteObject : Bool)
  | moveTo (i : ι) (object target : Option α)
  | move (i : ι) (m n : Int)
  | clear (i : ι)
  | sort (i : ι)

structure Memory (α : Type u) (ι : Type v) where
  /-- the objects that have been created and not been deleted -/
  objects : List α
  links : Links α
  bases : ι → Base α

structure Contents (α : Type u) (ι : Type v) where
  objects : List α
  lists : ι → List α

def Memory.initial : Memory α ι :=
  ⟨[], ⟨fun _ => none, fun _ => none⟩, fun _ => Base.empty⟩

def Contents.initial : Contents α ι := ⟨[], fun _ => []⟩

variable [DecidableEq α] [DecidableEq ι]

namespace Memory

def put (s : Memory α ι) (i : ι) (result : Option (Links α × Base α)) :
    Option (Memory α ι) :=
  result.map fun (links, b) => { s with links, bases := Function.update s.bases i b }

/-- An object that is not there cannot be deleted. -/
def delete (s : Memory α ι) (object : α) : Option (Memory α ι) :=
  if object ∈ s.objects then some { s with objects := s.objects.erase object } else none

/-- A walk over more objects than there are goes in a circle. -/
def step (qsort : List α → List α) (s : Memory α ι) : Call α ι → Option (Memory α ι)
  | .create object =>
      some { s with
        objects := object :: s.objects
        links := (s.links.setPrev object none).setNext object none }
  | .destroy object => s.delete object
  | .add i object after => s.put i (ListBase.add s.links (s.bases i) object after)
  | .ins i object before => s.put i (ListBase.ins s.links (s.bases i) object before)
  | .del i object deleteObject =>
      (s.put i (some (Intrusive.del s.links (s.bases i) object))).bind fun s =>
        if deleteObject then s.delete object else some s
  | .moveTo i object target =>
      s.put i (ListBase.moveTo s.links (s.bases i) s.objects.length object target)
  | .move i m n => s.put i (ListBase.move s.links (s.bases i) s.objects.length m n)
  | .clear i =>
      (clearLoop s.links.next s.objects.length (s.bases i).objects s.objects).map fun objects =>
        { s with objects, bases := Function.update s.bases i Base.empty }
  | .sort i => s.put i (ListBase.sort qsort s.links (s.bases i))

end Memory

namespace Contents

def put (c : Contents α ι) (i : ι) (xs : List α) : Contents α ι :=
  { c with lists := Function.update c.lists i xs }

omit [DecidableEq α] in
@[simp]
theorem put_self (c : Contents α ι) (i : ι) (xs : List α) : (c.put i xs).lists i = xs :=
  Function.update_self _ _ _

omit [DecidableEq α] in
@[simp]
theorem put_objects (c : Contents α ι) (i : ι) (xs : List α) :
    (c.put i xs).objects = c.objects := rfl

omit [DecidableEq α] in
theorem put_of_ne (c : Contents α ι) {i j : ι} (hj : j ≠ i) (xs : List α) :
    (c.put i xs).lists j = c.lists j := Function.update_of_ne hj _ _

/-- What the calls are for. -/
def after (qsort : List α → List α) (c : Contents α ι) : Call α ι → Contents α ι
  | .create object => { c with objects := object :: c.objects }
  | .destroy object => { c with objects := c.objects.erase object }
  | .add i object none => c.put i (c.lists i ++ [object])
  | .add i object (some a) => c.put i ((c.lists i).insertIdx ((c.lists i).idxOf a + 1) object)
  | .ins i object none => c.put i (object :: c.lists i)
  | .ins i object (some a) => c.put i ((c.lists i).insertIdx ((c.lists i).idxOf a) object)
  | .del i object deleteObject =>
      { objects := if deleteObject then c.objects.erase object else c.objects
        lists := Function.update c.lists i ((c.lists i).erase object) }
  | .moveTo i (some a) (some t) => c.put i (moved (c.lists i) a t)
  | .moveTo _ _ _ => c
  | .move i m n => c.put i (shifted (c.lists i) m n)
  | .clear i =>
      { objects := c.objects.diff (c.lists i)
        lists := Function.update c.lists i [] }
  | .sort i => c.put i (qsort (c.lists i))

/-- An object that is there and in no list. -/
def Single (c : Contents α ι) (object : α) : Prop :=
  object ∈ c.objects ∧ ∀ i, object ∉ c.lists i

/-- What a call asks of its caller. -/
def Allows (c : Contents α ι) : Call α ι → Prop
  | .create object => object ∉ c.objects
  | .destroy object => c.Single object
  | .add i object a | .ins i object a => c.Single object ∧ ∀ x, a = some x → x ∈ c.lists i
  | .del i object _ => object ∈ c.lists i
  | .moveTo i object target => ∀ x, object = some x ∨ target = some x → x ∈ c.lists i
  | .move _ _ _ | .clear _ | .sort _ => True

end Contents

/-- The memory has what the contents say, and an object that is in no list has no links. -/
structure Represents (c : Contents α ι) (s : Memory α ι) : Prop where
  objects : s.objects = c.objects
  nodup : c.objects.Nodup
  holds : ∀ i, Holds s.links (s.bases i) (c.lists i)
  there : ∀ i, ∀ x ∈ c.lists i, x ∈ c.objects
  apart : ∀ i j x, x ∈ c.lists i → x ∈ c.lists j → i = j
  free : ∀ x, c.Single x → s.links.Free x

omit [DecidableEq α] [DecidableEq ι] in
theorem represents_initial : Represents (Contents.initial : Contents α ι) Memory.initial where
  objects := rfl
  nodup := List.nodup_nil
  holds _ := holds_empty _
  there _ _ hx := absurd hx List.not_mem_nil
  apart _ _ _ hx := absurd hx List.not_mem_nil
  free _ _ := ⟨rfl, rfl⟩

namespace Represents

variable {c : Contents α ι} {s : Memory α ι} {i : ι} {xs ys : List α} {a : α}

omit [DecidableEq α] [DecidableEq ι] in
theorem length_le (h : Represents c s) (i : ι) : (c.lists i).length ≤ s.objects.length := by
  rw [h.objects]
  exact (List.subperm_of_subset (h.holds i).nodup (h.there i)).length_le

/-- One list is changed, and perhaps some of its objects are deleted. -/
theorem update (h : Represents c s) {links : Links α} {b : Base α} {objects : List α}
    (hholds : Holds links b ys)
    (hout : ∀ x, x ∉ c.lists i → x ∉ ys →
      links.next x = s.links.next x ∧ links.prev x = s.links.prev x)
    (hin : ∀ x ∈ ys, x ∈ objects ∧ (x ∈ c.lists i ∨ ∀ j, x ∉ c.lists j))
    (hleft : ∀ x ∈ c.lists i, x ∉ ys → x ∈ objects → links.Free x)
    (hnodup : objects.Nodup) (hsub : ∀ x ∈ objects, x ∈ c.objects)
    (hothers : ∀ j, j ≠ i → ∀ x ∈ c.lists j, x ∈ objects) :
    Represents ⟨objects, Function.update c.lists i ys⟩
      ⟨objects, links, Function.update s.bases i b⟩ := by
  have hother : ∀ j, j ≠ i → ∀ x ∈ c.lists j, x ∉ c.lists i ∧ x ∉ ys :=
    fun j hj x hx =>
    have hi : x ∉ c.lists i := fun hmem => hj (h.apart j i x hx hmem)
    ⟨hi, fun hmem => (hin x hmem).2.elim hi fun hnone => hnone j hx⟩
  refine ⟨rfl, hnodup, fun j => ?_, fun j x hx => ?_, fun j k x hj hk => ?_, fun x hx => ?_⟩
  · by_cases hj : j = i
    · subst hj
      dsimp only
      rw [Function.update_self, Function.update_self]
      exact hholds
    · dsimp only
      rw [Function.update_of_ne hj, Function.update_of_ne hj]
      exact (h.holds j).congr (fun x hx => (hout x (hother j hj x hx).1 (hother j hj x hx).2).1)
        fun x hx => (hout x (hother j hj x hx).1 (hother j hj x hx).2).2
  · by_cases hj : j = i
    · subst hj
      dsimp only at hx
      rw [Function.update_self] at hx
      exact (hin x hx).1
    · dsimp only at hx
      rw [Function.update_of_ne hj] at hx
      exact hothers j hj x hx
  · dsimp only at hj hk
    by_cases hji : j = i <;> by_cases hki : k = i
    · rw [hji, hki]
    · subst hji
      rw [Function.update_self] at hj
      rw [Function.update_of_ne hki] at hk
      exact absurd hj (hother k hki x hk).2
    · subst hki
      rw [Function.update_of_ne hji] at hj
      rw [Function.update_self] at hk
      exact absurd hk (hother j hji x hj).2
    · rw [Function.update_of_ne hji] at hj
      rw [Function.update_of_ne hki] at hk
      exact h.apart j k x hj hk
  · obtain ⟨hthere, hnone⟩ := hx
    have hys : x ∉ ys := by
      have hi := hnone i
      dsimp only at hi
      rw [Function.update_self] at hi
      exact hi
    by_cases hi : x ∈ c.lists i
    · exact hleft x hi hys hthere
    · have hfree := h.free x ⟨hsub x hthere, fun j => by
        by_cases hj : j = i
        · rw [hj]
          exact hi
        · have hxj := hnone j
          dsimp only at hxj
          rw [Function.update_of_ne hj] at hxj
          exact hxj⟩
      exact ⟨(hout x hi hys).1.trans hfree.1, (hout x hi hys).2.trans hfree.2⟩

/-- One list is changed, and keeps its objects. -/
theorem put (h : Represents c s) {result : Option (Links α × Base α)}
    (hmakes : Makes result s.links (c.lists i) ys) (hkeep : ∀ x ∈ c.lists i, x ∈ ys)
    (hin : ∀ x ∈ ys, x ∈ c.lists i ∨ c.Single x) :
    ∃ s', s.put i result = some s' ∧ Represents (c.put i ys) s' := by
  obtain ⟨links, b, rfl, hholds, hout⟩ := hmakes
  refine ⟨_, rfl, ?_⟩
  rw [h.objects]
  refine h.update hholds hout (fun x hx => ?_) (fun x hx hnot => absurd (hkeep x hx) hnot) h.nodup
    (fun x hx => hx) fun j _ => h.there j
  exact (hin x hx).elim (fun hmem => ⟨h.there i x hmem, Or.inl hmem⟩) fun hsingle =>
    ⟨hsingle.1, Or.inr hsingle.2⟩

omit [DecidableEq ι] in
/-- An object that is in no list is deleted. -/
theorem forget (h : Represents c s) (ha : c.Single a) :
    ∃ s', s.delete a = some s' ∧ Represents { c with objects := c.objects.erase a } s' := by
  have hmem : a ∈ s.objects := h.objects ▸ ha.1
  refine ⟨_, if_pos hmem, ?_⟩
  rw [h.objects]
  have hsub : ∀ x ∈ c.objects.erase a, x ∈ c.objects := fun x => List.mem_of_mem_erase
  refine ⟨rfl, h.nodup.erase a, h.holds, fun i x hx => ?_, h.apart, fun x hx => ?_⟩
  · have hne : x ≠ a := fun heq => ha.2 i (heq ▸ hx)
    exact (List.mem_erase_of_ne hne).mpr (h.there i x hx)
  · exact h.free x ⟨hsub x hx.1, hx.2⟩

omit [DecidableEq ι] in
theorem create (h : Represents c s) (ha : a ∉ c.objects) :
    Represents { c with objects := a :: c.objects }
      { s with objects := a :: s.objects, links := (s.links.setPrev a none).setNext a none } := by
  have hne : ∀ i, ∀ x ∈ c.lists i, x ≠ a := fun i x hx heq => ha (h.there i a (heq ▸ hx))
  refine ⟨congrArg (a :: ·) h.objects, List.nodup_cons.mpr ⟨ha, h.nodup⟩, fun i => ?_,
    fun i x hx => ?_, h.apart, fun x hx => ?_⟩
  · exact (h.holds i).congr (fun x hx => Function.update_of_ne (hne i x hx) _ _)
      fun x hx => Function.update_of_ne (hne i x hx) _ _
  · exact List.mem_cons_of_mem a (h.there i x hx)
  · by_cases hxa : x = a
    · subst hxa
      exact ⟨Function.update_self _ _ _, Function.update_self _ _ _⟩
    · have hfree := h.free x ⟨(List.mem_cons.mp hx.1).resolve_left hxa, hx.2⟩
      exact ⟨(Function.update_of_ne hxa _ _).trans hfree.1,
        (Function.update_of_ne hxa _ _).trans hfree.2⟩

theorem clear (h : Represents c s) (i : ι) :
    ∃ s', (clearLoop s.links.next s.objects.length (s.bases i).objects s.objects).map
        (fun objects => { s with objects, bases := Function.update s.bases i Base.empty }) =
          some s' ∧
      Represents ⟨c.objects.diff (c.lists i), Function.update c.lists i []⟩ s' := by
  rw [clearLoop_path (h.holds i).forward (h.holds i).nodup (h.length_le i)
    fun x hx => h.objects ▸ h.there i x hx]
  refine ⟨_, rfl, ?_⟩
  rw [h.objects]
  refine h.update (holds_empty _) (fun _ _ _ => ⟨rfl, rfl⟩) (fun x hx =>
    absurd hx List.not_mem_nil)
    (fun x hx _ hmem => absurd hx ?_) (h.nodup.sublist (List.diff_sublist _ _))
    (fun x hx => (List.diff_sublist _ _).subset hx) fun j hj x hx => ?_
  · exact ((h.nodup.mem_sdiff_iff).mp hmem).2
  · exact List.mem_diff_of_mem (h.there j x hx) fun hmem => hj (h.apart j i x hx hmem)

theorem del (h : Represents c s) (ha : a ∈ c.lists i) :
    ∃ s', s.put i (some (Intrusive.del s.links (s.bases i) a)) = some s' ∧
      Represents (c.put i ((c.lists i).erase a)) s' ∧
      (c.put i ((c.lists i).erase a)).Single a := by
  obtain ⟨us, vs, hsplit, haus⟩ := List.eq_append_cons_of_mem ha
  have hholds := h.holds i
  rw [hsplit] at hholds
  have hnodup := hholds.nodup
  rw [List.nodup_middle, List.nodup_cons] at hnodup
  have herase : (c.lists i).erase a = us ++ vs := by rw [hsplit, erase_split haus]
  rw [herase]
  refine ⟨_, rfl, ?_, h.there i a ha, fun j => ?_⟩
  · rw [h.objects]
    refine h.update hholds.del (fun x hx _ => hholds.del_of_notMem (hsplit ▸ hx)) (fun x hx => ?_)
      (fun x hx hnot _ => ?_) h.nodup (fun x hx => hx) fun j _ => h.there j
    · have hmem : x ∈ c.lists i := hsplit ▸ by
        rw [List.mem_append] at hx ⊢
        exact hx.imp_right (List.mem_cons_of_mem a)
      exact ⟨h.there i x hmem, Or.inl hmem⟩
    · have hxa : x = a := by
        rw [hsplit, List.mem_append, List.mem_cons] at hx
        rw [List.mem_append, not_or] at hnot
        exact (hx.resolve_left hnot.1).resolve_right hnot.2
      rw [hxa]
      exact hholds.free_del
  · by_cases hj : j = i
    · subst hj
      rw [Contents.put_self]
      exact hnodup.1
    · rw [Contents.put_of_ne c hj]
      exact fun hmem => hj (h.apart j i a hmem ha)

/-- One list gets one more object. -/
theorem put_new (h : Represents c s) (ha : c.Single a) {result : Option (Links α × Base α)}
    (hmakes : Makes result s.links (c.lists i) ys)
    (hmem : ∀ x, x ∈ ys ↔ x = a ∨ x ∈ c.lists i) :
    ∃ s', s.put i result = some s' ∧ Represents (c.put i ys) s' := by
  refine h.put hmakes (fun x hx => (hmem x).mpr (Or.inr hx)) fun x hx => ?_
  cases (hmem x).mp hx with
  | inl heq => exact Or.inr (heq ▸ ha)
  | inr hold => exact Or.inl hold

/-- **Adding.** -/
theorem add (h : Represents c s) (qsort : List α → List α) {after : Option α} (ha : c.Single a)
    (hafter : ∀ x, after = some x → x ∈ c.lists i) :
    ∃ s', s.put i (ListBase.add s.links (s.bases i) a after) = some s' ∧
      Represents (c.after qsort (.add i a after)) s' := by
  cases after with
  | none =>
      refine h.put_new ha (makes_add_last (h.holds i) (h.free a ha) (ha.2 i)) fun x => ?_
      rw [List.mem_append, List.mem_singleton, or_comm]
  | some b =>
      obtain ⟨us, vs, hsplit, hbus⟩ := List.eq_append_cons_of_mem (hafter b rfl)
      have hholds := h.holds i
      have hnotMem := ha.2 i
      rw [hsplit] at hholds hnotMem
      have hmakes := makes_add_after hholds (h.free a ha) hnotMem
      have hnew : (c.lists i).insertIdx ((c.lists i).idxOf b + 1) a = us ++ b :: a :: vs := by
        have happend : us ++ b :: vs = (us ++ [b]) ++ vs := by simp
        have hlength : us.length + 1 = (us ++ [b]).length := by simp
        rw [hsplit, idxOf_split hbus, happend, hlength, insertIdx_length_append]
        simp
      rw [← hsplit, ← hnew] at hmakes
      exact h.put_new ha hmakes fun x =>
        List.mem_insertIdx (List.idxOf_lt_length_of_mem (hafter b rfl))

/-- **Inserting.** -/
theorem ins (h : Represents c s) (qsort : List α → List α) {before : Option α}
    (ha : c.Single a) (hbefore : ∀ x, before = some x → x ∈ c.lists i) :
    ∃ s', s.put i (ListBase.ins s.links (s.bases i) a before) = some s' ∧
      Represents (c.after qsort (.ins i a before)) s' := by
  cases before with
  | none =>
      exact h.put_new ha (makes_ins_first (h.holds i) (h.free a ha) (ha.2 i)) fun x => List.mem_cons
  | some b =>
      obtain ⟨us, vs, hsplit, hbus⟩ := List.eq_append_cons_of_mem (hbefore b rfl)
      have hholds := h.holds i
      have hnotMem := ha.2 i
      rw [hsplit] at hholds hnotMem
      have hmakes := makes_ins_before hholds (h.free a ha) hnotMem
      have hnew : (c.lists i).insertIdx ((c.lists i).idxOf b) a = us ++ a :: b :: vs := by
        rw [hsplit, idxOf_split hbus, insertIdx_length_append]
      rw [← hsplit, ← hnew] at hmakes
      exact h.put_new ha hmakes fun x =>
        List.mem_insertIdx (Nat.le_of_lt (List.idxOf_lt_length_of_mem (hbefore b rfl)))

omit [DecidableEq α] in
theorem put_stay (h : Represents c s) (i : ι) :
    ∃ s', s.put i (some (s.links, s.bases i)) = some s' ∧ Represents c s' := by
  refine ⟨s, ?_, h⟩
  rw [Memory.put, Option.map_some]
  dsimp only
  rw [Function.update_eq_self]

/-- **Every call** does what it is for. -/
theorem step {qsort : List α → List α} (hqsort : ∀ xs, (qsort xs).Perm xs)
    (h : Represents c s) {call : Call α ι} (hallows : c.Allows call) :
    ∃ s', s.step qsort call = some s' ∧ Represents (c.after qsort call) s' := by
  cases call with
  | create a => exact ⟨_, rfl, h.create hallows⟩
  | destroy a => exact h.forget hallows
  | add i a after => exact h.add qsort hallows.1 hallows.2
  | ins i a before => exact h.ins qsort hallows.1 hallows.2
  | del i a deleteObject =>
      obtain ⟨mid, hmid, hrepresents, hsingle⟩ := h.del hallows
      rw [Memory.step, hmid, Option.bind_some]
      cases deleteObject with
      | false => exact ⟨mid, rfl, hrepresents⟩
      | true => exact hrepresents.forget hsingle
  | moveTo i a t =>
      cases a with
      | none => exact h.put_stay i
      | some a =>
          cases t with
          | none => exact h.put_stay i
          | some t =>
              have ha : a ∈ c.lists i := hallows a (Or.inl rfl)
              have ht : t ∈ c.lists i := hallows t (Or.inr rfl)
              exact h.put (makes_moveTo (h.holds i) ha ht (h.length_le i))
                (fun x => (mem_moved ha ht).mpr) fun x hx => Or.inl ((mem_moved ha ht).mp hx)
  | move i m n =>
      exact h.put (makes_move (h.holds i) (h.length_le i) m n)
        (fun x => (mem_shifted (h.holds i).nodup m n).mpr)
        fun x hx => Or.inl ((mem_shifted (h.holds i).nodup m n).mp hx)
  | clear i => exact h.clear i
  | sort i =>
      exact h.put (makes_sort (h.holds i) (hqsort _)) (fun x => (hqsort _).mem_iff.mpr)
        fun x hx => Or.inl ((hqsort _).mem_iff.mp hx)

end Represents

/-- What can be read of the lists. No pointer leads to an object that has been deleted. -/
structure Reads (c : Contents α ι) (s : Memory α ι) : Prop where
  first : ∀ i, (s.bases i).objects = (c.lists i).head?
  last : ∀ i, (s.bases i).lastObject = (c.lists i).getLast?
  count : ∀ i, (s.bases i).count = (c.lists i).length
  get : ∀ i n, get s.links (s.bases i) n = element (c.lists i) n
  index : ∀ i k (hk : k < (c.lists i).length),
    index s.links s.objects.length ((c.lists i).get ⟨k, hk⟩) = some k
  closed : ∀ x ∈ s.objects, ∀ y,
    s.links.next x = some y ∨ s.links.prev x = some y → y ∈ s.objects

section Runs

variable {c : Contents α ι} {s : Memory α ι} {qsort : List α → List α}
    {calls : List (Call α ι)}

omit [DecidableEq ι] in
theorem Represents.reads (h : Represents c s) : Reads c s where
  first i := (h.holds i).objects
  last i := (h.holds i).lastObject
  count i := (h.holds i).count
  get i := get_eq (h.holds i)
  index i k hk := by
    obtain ⟨us, vs, hsplit, hus⟩ :=
      List.eq_append_cons_of_mem (List.get_mem (c.lists i) ⟨k, hk⟩)
    have hidx := (h.holds i).nodup.idxOf_getElem k hk
    have hholds := h.holds i
    have hle := h.length_le i
    rw [hsplit] at hholds hle
    rw [index_eq hholds hle, ← idxOf_split hus, ← hsplit]
    exact congrArg some hidx
  closed x hx y hy := by
    rw [h.objects] at hx ⊢
    by_cases hlisted : ∃ i, x ∈ c.lists i
    · obtain ⟨i, hi⟩ := hlisted
      obtain ⟨us, vs, hsplit⟩ := List.mem_iff_append.mp hi
      have hholds := h.holds i
      rw [hsplit] at hholds
      refine h.there i y ?_
      rw [hsplit, List.mem_append, List.mem_cons]
      cases hy with
      | inl hnext =>
          rw [hholds.next] at hnext
          exact Or.inr (Or.inr (List.mem_of_head? hnext))
      | inr hprev =>
          rw [hholds.prev] at hprev
          exact Or.inl (List.mem_of_getLast? hprev)
    · have hfree := h.free x ⟨hx, fun i hi => hlisted ⟨i, hi⟩⟩
      rw [hfree.1, hfree.2] at hy
      rcases hy with hy | hy <;> cases hy

def Contents.step (qsort : List α → List α) : Machine.Step (Contents α ι) (Call α ι) :=
  fun c call => some (c.after qsort call)

theorem Represents.run (hqsort : ∀ xs, (qsort xs).Perm xs) (h : Represents c s)
    (hallows : Machine.Along (Contents.step qsort) Contents.Allows c calls) :
    ∃ s', Machine.run (Memory.step qsort) s calls = some s' ∧
      Represents (calls.foldl (Contents.after qsort) c) s' := by
  induction calls generalizing c s with
  | nil => exact ⟨s, rfl, h⟩
  | cons call calls ih =>
      obtain ⟨mid, hstep, hmid⟩ := h.step hqsort hallows.1
      obtain ⟨s', hrun, hs'⟩ := ih hmid (hallows.2 _ rfl)
      exact ⟨s', Machine.run_cons_eq_some.mpr ⟨mid, hstep, hrun⟩, hs'⟩

/-- **The lists.** A program that asks no more than it may of its lists is never ended by one, and
they hold and tell at any time what its calls were for. -/
theorem represents_of_run (hqsort : ∀ xs, (qsort xs).Perm xs)
    (hallows : Machine.Along (Contents.step qsort) Contents.Allows Contents.initial calls) :
    ∃ s, Machine.run (Memory.step qsort) Memory.initial calls = some s ∧
      Represents (calls.foldl (Contents.after qsort) Contents.initial) s ∧
      Reads (calls.foldl (Contents.after qsort) Contents.initial) s := by
  obtain ⟨s, hrun, h⟩ := represents_initial.run hqsort hallows
  exact ⟨s, hrun, h, h.reads⟩

end Runs


/-- Two objects are sorted, and then change their places. -/
theorem represents_of_run_sorted :
    ∃ s, Machine.run (Memory.step (List.insertionSort fun a b : Nat => b ≤ a)) Memory.initial
        [.create 3, .create 5, .add () 3 none, .add () 5 (some 3), .sort (), .move () 0 1] =
          some s ∧
      (s.bases ()).count = 2 ∧ get s.links (s.bases ()) 0 = some 3 ∧
      get s.links (s.bases ()) 1 = some 5 := by
  have hallows : Machine.Along (Contents.step (List.insertionSort fun a b : Nat => b ≤ a))
      Contents.Allows Contents.initial
      [.create 3, .create 5, .add () 3 none, .add () 5 (some 3), .sort (), .move () 0 1] := by
    simp [Machine.Along, Contents.step, Contents.Allows, Contents.after, Contents.Single,
      Contents.initial]
  obtain ⟨s, hrun, -, hreads⟩ := represents_of_run (List.perm_insertionSort _) hallows
  refine ⟨s, hrun, ?_, ?_, ?_⟩
  · rw [hreads.count]
    decide
  · rw [hreads.get]
    decide
  · rw [hreads.get]
    decide

end Dbus2vdr.ListBase

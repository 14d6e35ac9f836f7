import Dbus2vdr.Lib.Intrusive
import Mathlib.Data.List.Basic

/-!
# `cListBase`

The operations on VDR's lists, one list at a time: what each of them does to the links and to the
base, and that the base then holds what the operation is for. A null pointer that is followed ends
the program, so does a walk in a circle; both are `none` here.
-/

namespace Dbus2vdr.ListBase

open Intrusive

universe u

attribute [ext] Links

variable {α : Type u}

/-! ### Reading -/

/-- `i` grows by one with each object in front. -/
def indexLoop (prev : α → Option α) : Nat → Option α → Nat → Option Nat
  | _, none, i => some i
  | 0, some _, _ => none
  | fuel + 1, some p, i => indexLoop prev fuel (prev p) (i + 1)

/-- `cListObject::Index`; a walk over more than `fuel` objects goes in a circle. -/
def index (l : Links α) (fuel : Nat) (this : α) : Option Nat :=
  indexLoop l.prev fuel (l.prev this) 0

def getLoop (next : α → Option α) : Option α → Nat → Option α
  | none, _ => none
  | some object, 0 => some object
  | some object, n + 1 => getLoop next (next object) n

/-- `cListBase::Get` -/
def get (l : Links α) (b : Base α) (n : Int) : Option α :=
  if n < 0 then none else getLoop l.next b.objects n.toNat

/-- The element of a list at an index that may be out of range. -/
def element (xs : List α) (n : Int) : Option α := if n < 0 then none else xs[n.toNat]?

/-- The list with the element at `m` taken to `n`, if there is one at both. -/
def shifted (xs : List α) (m n : Int) : List α :=
  match element xs m, element xs n with
  | some a, some _ => (xs.eraseIdx m.toNat).insertIdx n.toNat a
  | _, _ => xs

section Reading

variable {l : Links α} {b : Base α} {xs ys : List α} {a : α}

theorem indexLoop_path {prev : α → Option α} {p : Option α} (h : Path prev p xs none)
    {fuel : Nat} (hfuel : xs.length ≤ fuel) (i : Nat) :
    indexLoop prev fuel p i = some (i + xs.length) := by
  induction xs generalizing p fuel i with
  | nil =>
      rw [path_nil] at h
      rw [h, indexLoop, List.length_nil, Nat.add_zero]
  | cons x xs ih =>
      obtain ⟨rfl, hrest⟩ := h
      cases fuel with
      | zero => cases hfuel
      | succ fuel =>
          rw [indexLoop, ih hrest (by simpa using hfuel), List.length_cons]
          congr 1
          omega

theorem index_eq (h : Holds l b (xs ++ a :: ys)) {fuel : Nat}
    (hfuel : (xs ++ a :: ys).length ≤ fuel) :
    index l fuel a = some xs.length := by
  have hback := h.backward
  rw [List.reverse_append, List.reverse_cons, List.append_assoc,
    List.singleton_append] at hback
  obtain ⟨m, -, rfl, hxs⟩ := path_append.mp hback
  rw [List.length_append] at hfuel
  rw [index, indexLoop_path hxs (by rw [List.length_reverse]; omega), List.length_reverse,
    Nat.zero_add]

theorem getLoop_path {next : α → Option α} {p : Option α} (h : Path next p xs none) (n : Nat) :
    getLoop next p n = xs[n]? := by
  induction xs generalizing p n with
  | nil =>
      rw [path_nil] at h
      rw [h, getLoop, List.getElem?_nil]
  | cons x xs ih =>
      obtain ⟨rfl, hrest⟩ := h
      cases n with
      | zero => rfl
      | succ n => rw [getLoop, ih hrest, List.getElem?_cons_succ]

theorem get_eq (h : Holds l b xs) (n : Int) : get l b n = element xs n := by
  rw [get, element, getLoop_path h.forward]

theorem insertIdx_length_append (xs ys : List α) (a : α) :
    (xs ++ ys).insertIdx xs.length a = xs ++ a :: ys := by
  induction xs with
  | nil => rfl
  | cons x xs ih =>
      rw [List.cons_append, List.length_cons, List.insertIdx_succ_cons, ih, List.cons_append]

theorem element_eq_some {k : Int} (h : element xs k = some a) : ∃ hk :
    k.toNat < xs.length, xs[k.toNat] = a := by
  rw [element] at h
  split_ifs at h
  exact List.getElem?_eq_some_iff.mp h

theorem mem_of_element {k : Int} (h : element xs k = some a) : a ∈ xs := by
  obtain ⟨hk, rfl⟩ := element_eq_some h
  exact List.getElem_mem hk

theorem shifted_of_out_of_range {i j : Int} (hout : element xs i = none ∨ element xs j = none) :
    shifted xs i j = xs := by
  unfold shifted
  cases hout with
  | inl hi => rw [hi]
  | inr hj =>
      rw [hj]
      cases element xs i <;> rfl

end Reading

/-! ### Writing -/

variable [DecidableEq α]

/-- `this->Insert(Object)` -/
def insert (l : Links α) (this object : α) : Links α :=
  (l.setPrev this (some object)).setNext object (some this)

/-- `cListBase::Add` -/
def add (l : Links α) (b : Base α) (object : α) (after : Option α) :
    Option (Links α × Base α) :=
  match after with
  | some a =>
      if b.lastObject ≠ some a then
        (l.next a).map fun n =>
          ((insert l n object).append a object, { b with count := b.count + 1 })
      else
        some (Intrusive.add l b object)
  | none => some (Intrusive.add l b object)

/-- The branch of `Ins` without an object to be put before. -/
def insFirst (l : Links α) (b : Base α) (object : α) : Links α × Base α :=
  match b.objects with
  | some first => (insert l first object, { b with objects := some object, count := b.count + 1 })
  | none => (l, { objects := some object, lastObject := some object, count := b.count + 1 })

/-- `cListBase::Ins` -/
def ins (l : Links α) (b : Base α) (object : α) (before : Option α) :
    Option (Links α × Base α) :=
  match before with
  | some a =>
      if b.objects ≠ some a then
        (l.prev a).map fun p =>
          (insert (l.append p object) a object, { b with count := b.count + 1 })
      else
        some (insFirst l b object)
  | none => some (insFirst l b object)

/-- `p->Append(Object)`, if there is a `p` -/
def appendTo (l : Links α) (p : Option α) (object : α) : Links α :=
  match p with
  | some p => l.append p object
  | none => l

/-- The end of `Move`: `object` is in no list any more, and is put before `target` or behind the
last one. -/
def relink (l : Links α) (b : Base α) (object : α) (target : Option α) :
    Option (Links α × Base α) :=
  let linked := match target with
    | some a => some ((appendTo l (l.prev a) object).append object a, b)
    | none =>
        b.lastObject.map fun last => (l.append last object, { b with lastObject := some object })
  linked.map fun (l, b) =>
    (l, { b with objects := if l.prev object = none then some object else b.objects })

/-- `cListBase::Move` of an object to the place of another one -/
def moveTo (l : Links α) (b : Base α) (fuel : Nat) (object target : Option α) :
    Option (Links α × Base α) :=
  match object, target with
  | some a, some t =>
      if a = t then
        some (l, b)
      else
        (index l fuel a).bind fun i => (index l fuel t).bind fun j =>
          relink (l.unlink a)
            { b with
              objects := if b.objects = some a then l.next a else b.objects
              lastObject := if b.lastObject = some a then l.prev a else b.lastObject }
            a (if i < j then l.next t else some t)
  | _, _ => some (l, b)

/-- `cListBase::Move` of the object at an index to another index -/
def move (l : Links α) (b : Base α) (fuel : Nat) (m n : Int) : Option (Links α × Base α) :=
  moveTo l b fuel (get l b m) (get l b n)

/-- The loop of `Clear`. `there` are the objects there are: an object that is deleted twice ends the
program. -/
def clearLoop (next : α → Option α) : Nat → Option α → List α → Option (List α)
  | _, none, there => some there
  | 0, some _, _ => none
  | fuel + 1, some a, there =>
      if a ∈ there then clearLoop next fuel (next a) (there.erase a) else none

/-- The loop of `Sort` that puts the objects into the list again. -/
def sortLoop (l : Links α) (b : Base α) : List α → Links α × Base α
  | [] => (l, b)
  | a :: as =>
      let (l, b) := Intrusive.add (l.unlink a) { b with count := b.count - 1 } a
      sortLoop l b as

/-- `cListBase::Sort`; an element of the array that has got no object ends the program. -/
def sort (qsort : List α → List α) (l : Links α) (b : Base α) :
    Option (Links α × Base α) :=
  let array := walk l.next b.count.toNat b.objects
  if array.length = b.count.toNat then
    some (sortLoop l { b with objects := none, lastObject := none } (qsort array))
  else
    none

/-- What an operation on a list that holds `xs` leaves behind: it holds `ys`, and nothing else is
linked in another way. -/
def Makes (result : Option (Links α × Base α)) (l : Links α) (xs ys : List α) : Prop :=
  ∃ l' b', result = some (l', b') ∧ Holds l' b' ys ∧
    ∀ x, x ∉ xs → x ∉ ys → l'.next x = l.next x ∧ l'.prev x = l.prev x

section Writing

variable {l : Links α} {b : Base α} {xs ys : List α} {a n p t object : α}

theorem insert_append (ha : a ≠ object) :
    (insert l n object).append a object = l.between (some a) object (some n) := by
  refine Links.ext rfl ?_
  change Function.update (Function.update l.next object (some n)) a (some object) =
    Function.update (Function.update l.next a (some object)) object (some n)
  exact Function.update_comm ha.symm _ _ _

theorem append_insert (ha : a ≠ object) :
    insert (l.append p object) a object = l.between (some p) object (some a) := by
  refine Links.ext ?_ rfl
  change Function.update (Function.update l.prev object (some p)) a (some object) =
    Function.update (Function.update l.prev a (some object)) object (some p)
  exact Function.update_comm ha.symm _ _ _

theorem append_free (hfree : l.Free object) (ha : a ≠ object) :
    l.append a object = l.between (some a) object none := by
  refine Links.ext rfl (Function.update_eq_self_iff.mpr ?_).symm
  change none = Function.update l.next a (some object) object
  rw [Function.update_of_ne ha.symm, hfree.1]

theorem insert_free (hfree : l.Free object) (ha : a ≠ object) :
    insert l a object = l.between none object (some a) := by
  refine Links.ext (Function.update_eq_self_iff.mpr ?_).symm rfl
  change none = Function.update l.prev a (some object) object
  rw [Function.update_of_ne ha.symm, hfree.2]

theorem between_free (hfree : l.Free object) : l.between none object none = l :=
  Links.ext (Function.update_eq_self_iff.mpr hfree.2.symm)
    (Function.update_eq_self_iff.mpr hfree.1.symm)

/-! ### Putting in -/

theorem makes_between (b' : Base α) (h : Holds l b (xs ++ ys)) (hobject : object ∉ xs ++ ys)
    (hobjects : b'.objects = (xs ++ object :: ys).head?)
    (hlast : b'.lastObject = (xs ++ object :: ys).getLast?) (hcount : b'.count = b.count + 1) :
    Makes (some (l.between xs.getLast? object ys.head?, b')) l (xs ++ ys) (xs ++ object :: ys) := by
  refine ⟨_, _, rfl, h.between hobject hobjects hlast hcount, fun x hx hnew => ?_⟩
  refine between_of_notMem hx fun heq => hnew ?_
  rw [heq, List.mem_append]
  exact Or.inr List.mem_cons_self

theorem makes_add_last (h : Holds l b xs) (hfree : l.Free object) (hobject : object ∉ xs) :
    Makes (some (Intrusive.add l b object)) l xs (xs ++ [object]) := by
  rw [← List.append_nil xs] at h hobject
  have hmakes := makes_between (Intrusive.add l b object).2 h hobject
  rw [List.append_nil] at h hmakes
  have hlinks : (Intrusive.add l b object).1 = l.between xs.getLast? object none := by
    rw [Intrusive.add, h.lastObject]
    cases hlast : xs.getLast? with
    | none => exact (between_free hfree).symm
    | some last =>
        refine append_free hfree ?_
        rintro rfl
        rw [List.append_nil] at hobject
        exact hobject (List.mem_of_getLast? hlast)
  rw [List.head?_nil, ← hlinks] at hmakes
  refine hmakes ?_ ?_ ?_
  · cases xs with
    | nil =>
        rw [Intrusive.add, h.lastObject]
        rfl
    | cons x xs =>
        rw [Intrusive.add, h.lastObject]
        cases hlast : (x :: xs).getLast? with
        | none => exact absurd (List.getLast?_eq_none_iff.mp hlast) (List.cons_ne_nil x xs)
        | some last => exact h.objects
  · rw [Intrusive.add, List.getLast?_append]
    cases b.lastObject <;> rfl
  · rw [Intrusive.add]
    cases b.lastObject <;> rfl

/-- **Adding behind an object.** -/
theorem makes_add_after (h : Holds l b (xs ++ a :: ys)) (hfree : l.Free object)
    (hobject : object ∉ xs ++ a :: ys) :
    Makes (add l b object (some a)) l (xs ++ a :: ys) (xs ++ a :: object :: ys) := by
  have hlast := h.lastObject
  have hne : a ≠ object := fun heq => hobject (by simp [heq])
  cases ys with
  | nil =>
      rw [List.getLast?_concat] at hlast
      have hmakes := makes_add_last h hfree hobject
      rw [List.append_assoc, List.singleton_append] at hmakes
      rw [add, if_neg (not_not.mpr hlast)]
      exact hmakes
  | cons y ys =>
      have hlast' : b.lastObject ≠ some a := by
        have hmem : a ∉ y :: ys := (List.nodup_cons.mp (List.nodup_append.mp h.nodup).2.1).1
        rw [hlast, List.getLast?_append, List.getLast?_cons_cons]
        cases hsome : (y :: ys).getLast? with
        | none => exact absurd (List.getLast?_eq_none_iff.mp hsome) (List.cons_ne_nil y ys)
        | some last => exact fun heq => hmem (Option.some.inj heq ▸ List.mem_of_getLast? hsome)
      have hsplit : Holds l b ((xs ++ [a]) ++ y :: ys) := by
        rw [List.append_assoc, List.singleton_append]
        exact h
      have hobject' : object ∉ (xs ++ [a]) ++ y :: ys := by
        rw [List.append_assoc, List.singleton_append]
        exact hobject
      have hmakes := makes_between { b with count := b.count + 1 } hsplit hobject'
      rw [List.getLast?_concat, List.head?_cons, ← insert_append hne] at hmakes
      rw [add, if_pos hlast', h.next]
      rw [List.append_assoc, List.append_assoc, List.singleton_append, List.singleton_append]
        at hmakes
      refine hmakes ?_ ?_ rfl
      · rw [h.objects]
        cases xs <;> rfl
      · rw [hlast]
        simp

/-- **Inserting at the start.** -/
theorem makes_ins_first (h : Holds l b xs) (hfree : l.Free object) (hobject : object ∉ xs) :
    Makes (some (insFirst l b object)) l xs (object :: xs) := by
  have hlinks : (insFirst l b object).1 = l.between none object xs.head? := by
    rw [insFirst, h.objects]
    cases xs with
    | nil => exact (between_free hfree).symm
    | cons x xs => exact insert_free hfree fun heq => hobject (by simp [heq])
  have hsplit : Holds l b ([] ++ xs) := h
  have hmakes := makes_between (insFirst l b object).2 hsplit hobject
  rw [List.getLast?_nil, ← hlinks] at hmakes
  refine hmakes ?_ ?_ ?_
  · rw [insFirst]
    cases b.objects <;> rfl
  · rw [insFirst, h.objects]
    cases xs with
    | nil => rfl
    | cons x xs => exact h.lastObject.trans (List.getLast?_cons_cons).symm
  · rw [insFirst]
    cases b.objects <;> rfl

/-- **Inserting before an object.** -/
theorem makes_ins_before (h : Holds l b (xs ++ a :: ys)) (hfree : l.Free object)
    (hobject : object ∉ xs ++ a :: ys) :
    Makes (ins l b object (some a)) l (xs ++ a :: ys) (xs ++ object :: a :: ys) := by
  have hobjects := h.objects
  have hne : a ≠ object := fun heq => hobject (by simp [heq])
  cases hp : xs.getLast? with
  | none =>
      rw [List.getLast?_eq_none_iff] at hp
      subst hp
      have hfirst : b.objects = some a := hobjects
      rw [ins, if_neg (not_not.mpr hfirst)]
      exact makes_ins_first h hfree hobject
  | some p =>
      have hfirst : b.objects ≠ some a := by
        intro heq
        cases xs with
        | nil => cases hp
        | cons x xs =>
            have hx : x = a := Option.some.inj (hobjects.symm.trans heq)
            have hnodup := h.nodup
            rw [List.cons_append, List.nodup_cons, hx] at hnodup
            exact hnodup.1 (by simp)
      have hmakes := makes_between { b with count := b.count + 1 } h hobject
      rw [hp, List.head?_cons, ← append_insert hne] at hmakes
      rw [ins, if_pos hfirst, h.prev, hp]
      refine hmakes ?_ ?_ rfl
      · rw [hobjects]
        cases xs with
        | nil => cases hp
        | cons x xs => rfl
      · rw [h.lastObject]
        simp

/-! ### Moving -/

theorem relink_eq {b' : Base α} (h : Holds l b (xs ++ ys)) (hfree : l.Free object)
    (hobject : object ∉ xs ++ ys) (hne : xs ++ ys ≠ []) (hlast : b'.lastObject = b.lastObject) :
    relink l b' object ys.head? = some (l.between xs.getLast? object ys.head?,
      { b' with
        objects := if xs.getLast? = none then some object else b'.objects
        lastObject := if ys.head? = none then some object else b'.lastObject }) := by
  have hprev : (l.between xs.getLast? object ys.head?).prev object = xs.getLast? := lead_self _ _ _
  cases ys with
  | nil =>
      rw [List.append_nil] at h hobject hne
      cases hp : xs.getLast? with
      | none => exact absurd (List.getLast?_eq_none_iff.mp hp) hne
      | some last =>
          have hlinks : l.append last object = l.between (some last) object none :=
            append_free hfree fun heq => hobject (heq ▸ List.mem_of_getLast? hp)
          rw [hp, List.head?_nil] at hprev
          unfold relink
          rw [List.head?_nil, hlast, h.lastObject, hp]
          dsimp only [Option.map_some]
          rw [hlinks, hprev]
          rfl
  | cons t ys =>
      have hne : t ≠ object := fun heq => hobject (by simp [heq])
      have hlinks : (appendTo l (l.prev t) object).append object t =
          l.between xs.getLast? object (some t) := by
        rw [h.prev]
        cases hp : xs.getLast? with
        | none => exact insert_free hfree hne
        | some p => exact append_insert hne
      rw [List.head?_cons] at hprev
      unfold relink
      rw [List.head?_cons]
      dsimp only [Option.map_some]
      rw [hlinks, hprev]
      rfl

/-- **Relinking.** An object that is in no list is put in before another one or behind the last
one. -/
theorem makes_relink {b' : Base α} (h : Holds l b (xs ++ ys)) (hfree : l.Free object)
    (hobject : object ∉ xs ++ ys) (hne : xs ++ ys ≠ []) (hobjects : b'.objects = b.objects)
    (hlast : b'.lastObject = b.lastObject) (hcount : b'.count = b.count + 1) :
    Makes (relink l b' object ys.head?) l (xs ++ ys) (xs ++ object :: ys) := by
  rw [relink_eq h hfree hobject hne hlast]
  refine makes_between _ h hobject ?_ ?_ hcount
  · dsimp only
    rw [hobjects, h.objects]
    cases xs with
    | nil => rfl
    | cons x xs =>
        rw [if_neg]
        · rfl
        · rw [List.getLast?_eq_none_iff]
          exact List.cons_ne_nil x xs
  · dsimp only
    rw [hlast, h.lastObject]
    cases ys with
    | nil => simp
    | cons y ys => simp

theorem Makes.of_unlink {result : Option (Links α × Base α)} {zs : List α}
    (hmakes : Makes result (l.unlink a) (xs ++ ys) zs) (h : Holds l b (xs ++ a :: ys)) :
    Makes result l (xs ++ a :: ys) zs := by
  obtain ⟨l', b', hresult, hholds, hout⟩ := hmakes
  refine ⟨l', b', hresult, hholds, fun x hx hnew => ?_⟩
  have hx' : x ∉ xs ++ ys := fun hmem => hx (by
    rw [List.mem_append] at hmem ⊢
    exact hmem.imp_right (List.mem_cons_of_mem a))
  obtain ⟨hnext, hprev⟩ := h.del_of_notMem hx
  exact ⟨(hout x hx' hnew).1.trans hnext, (hout x hx' hnew).2.trans hprev⟩

theorem makes_moveTo_later {us vs ws : List α} {fuel : Nat}
    (h : Holds l b (us ++ a :: (vs ++ t :: ws)))
    (hfuel : (us ++ a :: (vs ++ t :: ws)).length ≤ fuel) :
    Makes (moveTo l b fuel (some a) (some t)) l (us ++ a :: (vs ++ t :: ws))
      ((us ++ vs ++ [t]) ++ a :: ws) := by
  have hnodup := h.nodup
  rw [List.nodup_middle, List.nodup_cons] at hnodup
  have hne : a ≠ t := fun heq => hnodup.1 (by simp [heq])
  have hsplit : us ++ a :: (vs ++ t :: ws) = (us ++ a :: vs) ++ t :: ws := by simp
  have hrest : us ++ (vs ++ t :: ws) = (us ++ vs ++ [t]) ++ ws := by simp
  have hi := index_eq h hfuel
  have hnext : l.next t = ws.head? := (hsplit ▸ h).next
  have hj : index l fuel t = some (us ++ a :: vs).length := by
    rw [hsplit] at h hfuel
    exact index_eq h hfuel
  have hlt : us.length < (us ++ a :: vs).length := by
    rw [List.length_append, List.length_cons]
    omega
  unfold moveTo
  dsimp only
  rw [if_neg hne, hi, Option.bind_some, hj, Option.bind_some, if_pos hlt, hnext]
  refine Makes.of_unlink ?_ h
  have hdel := h.del
  rw [hrest] at hdel hnodup ⊢
  refine makes_relink hdel h.free_del hnodup.1 (by simp) rfl rfl ?_
  exact (Int.sub_add_cancel b.count 1).symm

theorem makes_moveTo_earlier {us vs ws : List α} {fuel : Nat}
    (h : Holds l b (us ++ t :: (vs ++ a :: ws)))
    (hfuel : (us ++ t :: (vs ++ a :: ws)).length ≤ fuel) :
    Makes (moveTo l b fuel (some a) (some t)) l (us ++ t :: (vs ++ a :: ws))
      (us ++ a :: t :: (vs ++ ws)) := by
  have hj := index_eq h hfuel
  have hsplit : us ++ t :: (vs ++ a :: ws) = (us ++ t :: vs) ++ a :: ws := by simp
  have hrest : us ++ t :: (vs ++ ws) = (us ++ t :: vs) ++ ws := by simp
  rw [hsplit] at h hfuel ⊢
  have hi := index_eq h hfuel
  have hnodup := h.nodup
  rw [List.nodup_middle, List.nodup_cons] at hnodup
  have hne : a ≠ t := fun heq => hnodup.1 (by simp [heq])
  have hnlt : ¬ (us ++ t :: vs).length < us.length := by
    rw [List.length_append]
    omega
  unfold moveTo
  dsimp only
  rw [if_neg hne, hi, Option.bind_some, hj, Option.bind_some, if_neg hnlt]
  refine Makes.of_unlink ?_ h
  have hdel := h.del
  rw [← hrest] at hdel hnodup ⊢
  change Makes (relink _ _ a (t :: (vs ++ ws)).head?) _ _ _
  refine makes_relink hdel h.free_del hnodup.1 (by simp) rfl rfl ?_
  exact (Int.sub_add_cancel b.count 1).symm

theorem idxOf_split (ha : a ∉ xs) : (xs ++ a :: ys).idxOf a = xs.length := by
  rw [List.idxOf_append_of_notMem ha, List.idxOf_cons_self, Nat.add_zero]

theorem erase_split (ha : a ∉ xs) : (xs ++ a :: ys).erase a = xs ++ ys := by
  rw [List.erase_append_right _ ha, List.erase_cons_head]

/-- The list with `a` taken to the place that `t` has. -/
def moved (xs : List α) (a t : α) : List α := (xs.erase a).insertIdx (xs.idxOf t) a

/-- **Moving.** -/
theorem makes_moveTo (h : Holds l b xs) (ha : a ∈ xs) (ht : t ∈ xs) {fuel : Nat}
    (hfuel : xs.length ≤ fuel) :
    Makes (moveTo l b fuel (some a) (some t)) l xs (moved xs a t) := by
  obtain ⟨us, ws, rfl, haus⟩ := List.eq_append_cons_of_mem ha
  have hnodup := h.nodup
  rw [moved, erase_split haus]
  rcases List.mem_append.mp ht with htus | htws
  · -- `t` is in front of `a`
    obtain ⟨us, vs, rfl, htus'⟩ := List.eq_append_cons_of_mem htus
    have hsplit : us ++ t :: vs ++ a :: ws = us ++ t :: (vs ++ a :: ws) := by simp
    rw [hsplit] at h hfuel ⊢
    rw [idxOf_split htus', List.append_assoc, List.cons_append, insertIdx_length_append]
    exact makes_moveTo_earlier h hfuel
  · cases List.mem_cons.mp htws with
    | inl heq =>
        rw [heq, idxOf_split haus, insertIdx_length_append]
        unfold moveTo
        dsimp only
        rw [if_pos rfl]
        exact ⟨l, b, rfl, h, fun _ _ _ => ⟨rfl, rfl⟩⟩
    | inr hmem =>
        -- `t` is behind `a`
        obtain ⟨vs, ws, rfl, htvs⟩ := List.eq_append_cons_of_mem hmem
        have hne : t ≠ a := by
          rw [List.nodup_middle, List.nodup_cons] at hnodup
          exact fun heq => hnodup.1 (by simp [heq])
        have htus : t ∉ us := fun hmem => (List.nodup_append.mp hnodup).2.2 t hmem t (by simp) rfl
        have hidx : (us ++ a :: (vs ++ t :: ws)).idxOf t = (us ++ vs ++ [t]).length := by
          rw [List.idxOf_append_of_notMem htus, List.idxOf_cons_ne _ hne.symm, idxOf_split htvs]
          simp only [List.length_append, List.length_singleton]
          omega
        have hrest : us ++ (vs ++ t :: ws) = (us ++ vs ++ [t]) ++ ws := by simp
        rw [hidx, hrest, insertIdx_length_append]
        exact makes_moveTo_later h hfuel

theorem mem_moved {x : α} (ha : a ∈ xs) (ht : t ∈ xs) : x ∈ moved xs a t ↔ x ∈ xs := by
  have hle : xs.idxOf t ≤ (xs.erase a).length := by
    have hlt := List.idxOf_lt_length_of_mem ht
    rw [List.length_erase_of_mem ha]
    omega
  rw [moved, List.mem_insertIdx hle]
  by_cases hx : x = a
  · rw [hx]
    exact ⟨fun _ => ha, fun _ => Or.inl rfl⟩
  · rw [List.mem_erase_of_ne hx]
    exact ⟨fun hmem => hmem.resolve_left hx, Or.inr⟩

theorem shifted_eq_moved (hnodup : xs.Nodup) {i j : Int} (hi : element xs i = some a)
    (hj : element xs j = some t) : shifted xs i j = moved xs a t := by
  unfold shifted
  rw [hi, hj]
  obtain ⟨hi, rfl⟩ := element_eq_some hi
  obtain ⟨hj, rfl⟩ := element_eq_some hj
  rw [moved, hnodup.idxOf_getElem, hnodup.erase_getElem]

/-- **Moving by indices.** -/
theorem makes_move (h : Holds l b xs) {fuel : Nat} (hfuel : xs.length ≤ fuel) (i j : Int) :
    Makes (move l b fuel i j) l xs (shifted xs i j) := by
  have hstays : Makes (some (l, b)) l xs xs := ⟨l, b, rfl, h, fun _ _ _ => ⟨rfl, rfl⟩⟩
  unfold move
  rw [get_eq h, get_eq h]
  cases hi : element xs i with
  | none =>
      rw [shifted_of_out_of_range (Or.inl hi)]
      exact hstays
  | some a =>
      cases hj : element xs j with
      | none =>
          rw [shifted_of_out_of_range (Or.inr hj)]
          exact hstays
      | some t =>
          rw [shifted_eq_moved h.nodup hi hj]
          exact makes_moveTo h (mem_of_element hi) (mem_of_element hj) hfuel

theorem mem_shifted {x : α} (hnodup : xs.Nodup) (i j : Int) :
    x ∈ shifted xs i j ↔ x ∈ xs := by
  cases hi : element xs i with
  | none => rw [shifted_of_out_of_range (Or.inl hi)]
  | some a =>
      cases hj : element xs j with
      | none => rw [shifted_of_out_of_range (Or.inr hj)]
      | some t =>
          rw [shifted_eq_moved hnodup hi hj]
          exact mem_moved (mem_of_element hi) (mem_of_element hj)

/-! ### Clearing and sorting -/

theorem clearLoop_path {next : α → Option α} {p : Option α} (h : Path next p xs none)
    (hnodup : xs.Nodup) {fuel : Nat} (hfuel : xs.length ≤ fuel) {there : List α}
    (hthere : ∀ x ∈ xs, x ∈ there) : clearLoop next fuel p there = some (there.diff xs) := by
  induction xs generalizing p fuel there with
  | nil =>
      rw [path_nil] at h
      rw [h, List.diff_nil]
      cases fuel <;> rfl
  | cons x xs ih =>
      obtain ⟨rfl, hrest⟩ := h
      rw [List.nodup_cons] at hnodup
      cases fuel with
      | zero => cases hfuel
      | succ fuel =>
          rw [clearLoop, if_pos (hthere x List.mem_cons_self), List.diff_cons]
          refine ih hrest hnodup.2 (by simpa using hfuel) fun y hy => ?_
          have hne : y ≠ x := fun heq => hnodup.1 (heq ▸ hy)
          exact (List.mem_erase_of_ne hne).mpr (hthere y (List.mem_cons_of_mem x hy))

theorem add_count (l : Links α) (b : Base α) (c : Int) (a : α) :
    Intrusive.add l { b with count := c } a =
      ((Intrusive.add l b a).1, { (Intrusive.add l b a).2 with count := c + 1 }) := by
  unfold Intrusive.add
  cases b.lastObject <;> rfl

/-- In the loop of `Sort`, `rest` are still linked as they were, `done` are in the list again. -/
theorem sortLoop_makes {rest done as : List α} {r : Base α}
    (hrest : Holds l r rest) (hdone : Holds l { b with count := done.length } done)
    (hperm : as.Perm rest) (hdisjoint : ∀ x ∈ done, x ∉ rest)
    (hcount : b.count = (done ++ as).length) :
    Holds (sortLoop l b as).1 (sortLoop l b as).2 (done ++ as) ∧
      ∀ x, x ∉ done → x ∉ rest →
        (sortLoop l b as).1.next x = l.next x ∧ (sortLoop l b as).1.prev x = l.prev x := by
  induction as generalizing l b r rest done with
  | nil =>
      rw [List.append_nil] at hcount ⊢
      rw [← hcount] at hdone
      exact ⟨hdone, fun x _ _ => ⟨rfl, rfl⟩⟩
  | cons a as ih =>
      obtain ⟨us, vs, rfl⟩ := List.mem_iff_append.mp (hperm.subset List.mem_cons_self)
      have hunlinked : Holds (l.unlink a) (Intrusive.del l r a).2 (us ++ vs) := hrest.del
      have hfree : (l.unlink a).Free a := hrest.free_del
      have hadone : a ∉ done := fun hmem => hdisjoint a hmem (by simp)
      have hnodup := hrest.nodup
      rw [List.nodup_middle, List.nodup_cons] at hnodup
      have hkept : ∀ x ∉ us ++ a :: vs,
          (l.unlink a).next x = l.next x ∧ (l.unlink a).prev x = l.prev x := fun x hx =>
        hrest.del_of_notMem hx
      have hdone' := hdone.congr (fun x hx => (hkept x (hdisjoint x hx)).1)
        fun x hx => (hkept x (hdisjoint x hx)).2
      have hadded := hdone'.add hfree.1 hfree.2 hadone
      have hout : ∀ x, x ∉ done → x ≠ a →
          (Intrusive.add (l.unlink a) b a).1.next x = (l.unlink a).next x ∧
            (Intrusive.add (l.unlink a) b a).1.prev x = (l.unlink a).prev x := fun x hx hne => by
        have hnext := hdone'.add_next (a := a) hx
        rw [add_count] at hnext
        exact ⟨hnext, add_prev_of_ne hne⟩
      have hne : ∀ x ∈ us ++ vs, x ≠ a := fun x hx heq => hnodup.1 (heq ▸ hx)
      have hold : ∀ x ∈ us ++ vs, x ∉ done := fun x hx hmem => hdisjoint x hmem (by
        rw [List.mem_append] at hx ⊢
        exact hx.imp_right (List.mem_cons_of_mem a))
      have hrest' := hunlinked.congr (fun x hx => (hout x (hold x hx) (hne x hx)).1)
        fun x hx => (hout x (hold x hx) (hne x hx)).2
      rw [add_count] at hadded
      have hstep : sortLoop l b (a :: as) = sortLoop (Intrusive.add (l.unlink a) b a).1
          { (Intrusive.add (l.unlink a) b a).2 with count := b.count } as := by
        rw [sortLoop, add_count, Int.sub_add_cancel]
      have happend : done ++ a :: as = (done ++ [a]) ++ as := by simp
      rw [hstep, happend]
      rw [happend] at hcount
      have hlength : ((done ++ [a]).length : Int) = done.length + 1 := by simp
      have hdone'' : Holds (Intrusive.add (l.unlink a) b a).1
          { { (Intrusive.add (l.unlink a) b a).2 with count := b.count } with
            count := (done ++ [a]).length } (done ++ [a]) := by
        rw [hlength]
        exact hadded
      obtain ⟨hholds, hthrough⟩ :=
        ih (b := { (Intrusive.add (l.unlink a) b a).2 with count := b.count })
        hrest' hdone''
        (List.Perm.cons_inv (hperm.trans List.perm_middle))
        (fun x hx hmem => by
          cases List.mem_append.mp hx with
          | inl hx => exact hold x hmem hx
          | inr hx => exact hne x hmem (List.mem_singleton.mp hx)) hcount
      refine ⟨hholds, fun x hx hxrest => ?_⟩
      have hxa : x ≠ a := fun heq => hxrest (by simp [heq])
      have hxrest' : x ∉ us ++ vs := fun hmem => hxrest (by
        rw [List.mem_append] at hmem ⊢
        exact hmem.imp_right (List.mem_cons_of_mem a))
      obtain ⟨hnext, hprev⟩ := hthrough x (by simp [hx, hxa]) hxrest'
      exact ⟨(hnext.trans (hout x hx hxa).1).trans (hkept x hxrest).1,
        (hprev.trans (hout x hx hxa).2).trans (hkept x hxrest).2⟩

/-- **Sorting.** -/
theorem makes_sort (h : Holds l b xs) {qsort : List α → List α} (hqsort : (qsort xs).Perm xs) :
    Makes (sort qsort l b) l xs (qsort xs) := by
  have hcount : b.count.toNat = xs.length := by rw [h.count, Int.toNat_natCast]
  have harray : walk l.next b.count.toNat b.objects = xs :=
    h.forward.walk (Nat.le_of_eq hcount.symm)
  have hempty :
    Holds l ({ b with objects := none, lastObject := none, count := ([] : List α).length })
      [] := holds_empty l
  obtain ⟨hholds, hout⟩ :=
    sortLoop_makes (b := { b with objects := none, lastObject := none }) h hempty
    hqsort (fun x hx => absurd hx List.not_mem_nil) (by
      rw [List.nil_append, hqsort.length_eq]
      exact h.count)
  refine ⟨_, _, ?_, hholds, fun x hx _ => hout x List.not_mem_nil hx⟩
  unfold sort
  dsimp only
  rw [harray, if_pos hcount.symm]

end Writing

end Dbus2vdr.ListBase

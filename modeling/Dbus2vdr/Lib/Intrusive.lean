import Mathlib.Data.List.Nodup
import Mathlib.Logic.Function.Basic

/-!
# Intrusive doubly linked lists

The objects of such a list carry its links, so an object can be in one list only, and what an
operation on one list writes into an object is seen by every other list that still has it. `Links`
are the links of all objects there are, `Base` is the head of one list. `Path` follows one
direction; a base holds a list when both directions do.
-/

namespace Intrusive

universe u

variable {α : Type u}

/-! ### Following the links of one direction -/

/-- Following `f` from `p` leads through `xs` to `q`. -/
def Path (f : α → Option α) : Option α → List α → Option α → Prop
  | p, [], q => p = q
  | p, x :: xs, q => p = some x ∧ Path f (f x) xs q

section Path

variable {f g : α → Option α} {p q : Option α} {x : α} {xs ys : List α}

@[simp]
theorem path_nil : Path f p [] q ↔ p = q := Iff.rfl

@[simp]
theorem path_cons : Path f p (x :: xs) q ↔ p = some x ∧ Path f (f x) xs q := Iff.rfl

theorem path_append :
    Path f p (xs ++ ys) q ↔ ∃ m, Path f p xs m ∧ Path f m ys q := by
  induction xs generalizing p with
  | nil => simp
  | cons x xs ih => simp only [List.cons_append, path_cons, ih, and_assoc, exists_and_left]

theorem path_concat : Path f p (xs ++ [x]) q ↔ Path f p xs (some x) ∧ f x = q := by
  rw [path_append]
  constructor
  · rintro ⟨m, hxs, rfl, hx⟩
    exact ⟨hxs, hx⟩
  · rintro ⟨hxs, hx⟩
    exact ⟨some x, hxs, rfl, hx⟩

theorem Path.start (h : Path f p xs none) : p = xs.head? := by
  cases xs with
  | nil => exact h
  | cons x xs => exact h.1

theorem Path.congr (h : Path f p xs q) (hfg : ∀ x ∈ xs, g x = f x) : Path g p xs q := by
  induction xs generalizing p with
  | nil => exact h
  | cons x xs ih =>
      refine ⟨h.1, ?_⟩
      rw [hfg x List.mem_cons_self]
      exact ih h.2 fun y hy => hfg y (List.mem_cons_of_mem x hy)

variable [DecidableEq α]

theorem Path.update_of_notMem (h : Path f p xs q) (hx : x ∉ xs) (r : Option α) :
    Path (Function.update f x r) p xs q := by
  apply h.congr
  intro y hy
  rw [Function.update_of_ne]
  rintro rfl
  exact hx hy

theorem Path.redirect (h : Path f p (xs ++ [x]) q) (hx : x ∉ xs) (r : Option α) :
    Path (Function.update f x r) p (xs ++ [x]) r := by
  obtain ⟨hxs, -⟩ := path_concat.mp h
  exact path_concat.mpr ⟨hxs.update_of_notMem hx r, Function.update_self x r f⟩

/-- The links after `a` has been taken out, `before` being the object that leads to it. -/
def bypass (f : α → Option α) (before : Option α) (a : α) : α → Option α :=
  match before with
  | some b => Function.update (Function.update f b (f a)) a none
  | none => Function.update f a none

theorem bypass_self (before : Option α) (a : α) : bypass f before a a = none := by
  cases before with
  | none => rw [bypass, Function.update_self]
  | some b => rw [bypass, Function.update_self]

theorem bypass_of_ne {before : Option α} {a x : α} (hbefore : before ≠ some x) (hx : x ≠ a) :
    bypass f before a x = f x := by
  cases before with
  | none => rw [bypass, Function.update_of_ne hx]
  | some b =>
      rw [bypass, Function.update_of_ne hx, Function.update_of_ne]
      exact fun heq => hbefore (congrArg some heq.symm)

theorem Path.bypass {a : α} (h : Path f p (xs ++ a :: ys) q) (hnodup : (xs ++ a :: ys).Nodup) :
    Path (bypass f xs.getLast? a) (if p = some a then f a else p) (xs ++ ys) q := by
  obtain ⟨m, hxs, rfl, hys⟩ := path_append.mp h
  rw [List.nodup_append, List.nodup_cons] at hnodup
  obtain ⟨hnodupXs, ⟨ha, -⟩, hdisjoint⟩ := hnodup
  have haXs : a ∉ xs := fun hmem => hdisjoint a hmem a List.mem_cons_self rfl
  cases List.eq_nil_or_concat xs with
  | inl hnil =>
      subst hnil
      rw [path_nil] at hxs
      rw [if_pos hxs]
      exact hys.update_of_notMem ha none
  | inr hconcat =>
      obtain ⟨front, b, rfl⟩ := hconcat
      have hpa : p ≠ some a := by
        cases front with
        | nil => exact fun heq => haXs (by simp [Option.some.inj (hxs.1.symm.trans heq)])
        | cons x front => exact fun heq => haXs (by simp [Option.some.inj (hxs.1.symm.trans heq)])
      have hb : b ∉ front := by
        rw [List.concat_eq_append, List.nodup_append] at hnodupXs
        exact fun hmem => hnodupXs.2.2 b hmem b List.mem_cons_self rfl
      have hbYs : b ∉ ys := fun hmem =>
        hdisjoint b (by simp) b (List.mem_cons_of_mem a hmem) rfl
      rw [List.concat_eq_append] at hxs haXs ⊢
      rw [if_neg hpa, List.getLast?_concat, path_append]
      exact ⟨f a, (hxs.redirect hb (f a)).update_of_notMem haXs none,
        (hys.update_of_notMem hbYs (f a)).update_of_notMem ha none⟩

/-- The links with `a` put in between `before` and `after`. -/
def lead (f : α → Option α) (before : Option α) (a : α) (after : Option α) :
    α → Option α :=
  match before with
  | some b => Function.update (Function.update f b (some a)) a after
  | none => Function.update f a after

theorem lead_self (before : Option α) (a : α) (after : Option α) :
    lead f before a after a = after := by
  cases before with
  | none => rw [lead, Function.update_self]
  | some b => rw [lead, Function.update_self]

theorem lead_of_ne {before after : Option α} {a x : α} (hbefore : before ≠ some x)
    (hx : x ≠ a) :
    lead f before a after x = f x := by
  cases before with
  | none => rw [lead, Function.update_of_ne hx]
  | some b =>
      rw [lead, Function.update_of_ne hx, Function.update_of_ne]
      exact fun heq => hbefore (congrArg some heq.symm)

theorem Path.lead {m : Option α} {a : α} (hxs : Path f p xs m) (hys : Path f m ys q)
    (ha : a ∉ xs ++ ys) (hnodup : (xs ++ ys).Nodup) :
    Path (lead f xs.getLast? a m) (xs ++ a :: ys).head? (xs ++ a :: ys) q := by
  rw [List.mem_append, not_or] at ha
  obtain ⟨haXs, haYs⟩ := ha
  cases List.eq_nil_or_concat xs with
  | inl hnil =>
      subst hnil
      refine ⟨rfl, ?_⟩
      rw [List.getLast?_nil, Intrusive.lead, Function.update_self]
      exact hys.update_of_notMem haYs m
  | inr hconcat =>
      obtain ⟨front, b, rfl⟩ := hconcat
      rw [List.concat_eq_append] at hxs haXs hnodup ⊢
      have hb : b ∉ front := by
        rw [List.nodup_append, List.nodup_append] at hnodup
        exact fun hmem => hnodup.1.2.2 b hmem b List.mem_cons_self rfl
      have hbYs : b ∉ ys := fun hmem =>
        (List.nodup_append.mp hnodup).2.2 b (by simp) b hmem rfl
      have hstart : p = (front ++ [b] ++ a :: ys).head? := by
        cases front with
        | nil => exact hxs.1
        | cons x front => exact hxs.1
      rw [← hstart, List.getLast?_concat, path_append]
      refine ⟨some a, (hxs.redirect hb (some a)).update_of_notMem haXs m, rfl, ?_⟩
      rw [Intrusive.lead, Function.update_self]
      exact (hys.update_of_notMem hbYs (some a)).update_of_notMem haYs m

end Path

/-- What is met by following `f` from `p`, for at most `fuel` steps. -/
def walk (f : α → Option α) : Nat → Option α → List α
  | 0, _ => []
  | _, none => []
  | fuel + 1, some x => x :: walk f fuel (f x)

theorem walk_none (f : α → Option α) (fuel : Nat) : walk f fuel none = [] := by
  cases fuel <;> rfl

theorem Path.walk {f : α → Option α} {p : Option α} {xs : List α} {fuel : Nat}
    (h : Path f p xs none) (hfuel : xs.length ≤ fuel) : walk f fuel p = xs := by
  induction xs generalizing p fuel with
  | nil =>
      rw [path_nil] at h
      rw [h, walk_none]
  | cons x xs ih =>
      obtain ⟨rfl, hrest⟩ := h
      cases fuel with
      | zero => cases hfuel
      | succ fuel =>
          rw [Intrusive.walk, ih hrest (by simpa using hfuel)]

/-! ### What a base holds -/

structure Links (α : Type u) where
  prev : α → Option α
  next : α → Option α

structure Base (α : Type u) where
  objects : Option α
  lastObject : Option α
  count : Int

def Base.empty : Base α := ⟨none, none, 0⟩

structure Holds (l : Links α) (b : Base α) (xs : List α) : Prop where
  forward : Path l.next b.objects xs none
  backward : Path l.prev b.lastObject xs.reverse none
  count : b.count = xs.length
  nodup : xs.Nodup

theorem holds_empty (l : Links α) : Holds l Base.empty [] := ⟨rfl, rfl, rfl, List.nodup_nil⟩

section Holds

variable {l l' : Links α} {b : Base α} {xs ys : List α} {a : α}

theorem Holds.unique (h : Holds l b xs) (h' : Holds l b ys) : xs = ys :=
  calc xs = walk l.next (max xs.length ys.length) b.objects :=
        (h.forward.walk (Nat.le_max_left _ _)).symm
    _ = ys := h'.forward.walk (Nat.le_max_right _ _)

theorem Holds.objects (h : Holds l b xs) : b.objects = xs.head? := h.forward.start

theorem Holds.lastObject (h : Holds l b xs) : b.lastObject = xs.getLast? := by
  rw [h.backward.start, List.head?_reverse]

theorem Holds.congr (h : Holds l b xs) (hnext : ∀ x ∈ xs, l'.next x = l.next x)
    (hprev : ∀ x ∈ xs, l'.prev x = l.prev x) : Holds l' b xs where
  forward := h.forward.congr hnext
  backward := h.backward.congr fun x hx => hprev x (List.mem_reverse.mp hx)
  count := h.count
  nodup := h.nodup

theorem Holds.next (h : Holds l b (xs ++ a :: ys)) : l.next a = ys.head? := by
  obtain ⟨m, -, hm, hys⟩ := path_append.mp h.forward
  exact hys.start

theorem Holds.prev (h : Holds l b (xs ++ a :: ys)) : l.prev a = xs.getLast? := by
  have hback := h.backward
  rw [List.reverse_append, List.reverse_cons, List.append_assoc] at hback
  obtain ⟨m, -, hm, hxs⟩ := path_append.mp hback
  rw [← List.head?_reverse]
  exact hxs.start

theorem Holds.next_ne_self (h : Holds l b (xs ++ a :: ys)) : l.next a ≠ some a := by
  rw [h.next]
  intro heq
  have hnodup := (List.nodup_append.mp h.nodup).2.1
  exact (List.nodup_cons.mp hnodup).1 (List.mem_of_head? heq)

end Holds

/-! ### The operations -/

variable [DecidableEq α]

namespace Links

/-- The links `object` carries itself stay as they are. -/
def append (l : Links α) (this object : α) : Links α where
  next := Function.update l.next this (some object)
  prev := Function.update l.prev object (some this)

def setPrev (l : Links α) (this : α) (p : Option α) : Links α :=
  { l with prev := Function.update l.prev this p }

def setNext (l : Links α) (this : α) (p : Option α) : Links α :=
  { l with next := Function.update l.next this p }

@[simp]
theorem setPrev_prev (l : Links α) (a : α) (p : Option α) :
    (l.setPrev a p).prev = Function.update l.prev a p := rfl

@[simp]
theorem setPrev_next (l : Links α) (a : α) (p : Option α) : (l.setPrev a p).next = l.next := rfl

@[simp]
theorem setNext_next (l : Links α) (a : α) (p : Option α) :
    (l.setNext a p).next = Function.update l.next a p := rfl

@[simp]
theorem setNext_prev (l : Links α) (a : α) (p : Option α) : (l.setNext a p).prev = l.prev := rfl

def unlink (l : Links α) (this : α) : Links α :=
  let l := match l.next this with
    | some n => l.setPrev n (l.prev this)
    | none => l
  let l := match l.prev this with
    | some p => l.setNext p (l.next this)
    | none => l
  (l.setNext this none).setPrev this none

variable {l : Links α} {a : α}

theorem unlink_next (ha : l.next a ≠ some a) :
    (l.unlink a).next = bypass l.next (l.prev a) a := by
  have hprev : ∀ n, l.next a = some n → (l.setPrev n (l.prev a)).prev a = l.prev a := by
    intro n hn
    rw [setPrev_prev, Function.update_of_ne]
    rintro rfl
    exact ha hn
  unfold unlink
  cases hn : l.next a with
  | none => cases hp : l.prev a <;> simp [bypass, hp, hn]
  | some n =>
      dsimp only
      rw [hprev n hn]
      cases hp : l.prev a <;> simp [bypass, hn]

theorem unlink_prev (ha : l.next a ≠ some a) :
    (l.unlink a).prev = bypass l.prev (l.next a) a := by
  unfold unlink
  cases hn : l.next a with
  | none => cases hp : l.prev a <;> simp [bypass, hp]
  | some n =>
      have hne : a ≠ n := fun heq => ha (heq ▸ hn)
      cases hp : l.prev a <;> simp [bypass, hp, Function.update_of_ne hne]

theorem unlink_of_free (hnext : l.next a = none) (hprev : l.prev a = none) : l.unlink a = l := by
  obtain ⟨prev, next⟩ := l
  dsimp only at hnext hprev
  simp only [unlink, hnext, hprev, setNext, setPrev, Links.mk.injEq]
  exact ⟨Function.update_eq_self_iff.mpr hprev.symm, Function.update_eq_self_iff.mpr hnext.symm⟩

/-- The links with `object` put in between `before` and `after`. -/
def between (l : Links α) (before : Option α) (object : α) (after : Option α) : Links α where
  next := lead l.next before object after
  prev := lead l.prev after object before

/-- In no list. -/
def Free (l : Links α) (a : α) : Prop := l.next a = none ∧ l.prev a = none

theorem free_unlink (ha : l.next a ≠ some a) : (l.unlink a).Free a := by
  rw [Free, unlink_next ha, unlink_prev ha]
  exact ⟨bypass_self _ _, bypass_self _ _⟩

end Links

/-- The list at `b` gets an object at its end. -/
def add (l : Links α) (b : Base α) (object : α) : Links α × Base α :=
  match b.lastObject with
  | some last => (l.append last object, { b with lastObject := some object, count := b.count + 1 })
  | none => (l, { objects := some object, lastObject := some object, count := b.count + 1 })

def del (l : Links α) (b : Base α) (object : α) : Links α × Base α :=
  (l.unlink object,
    { objects := if b.objects = some object then l.next object else b.objects
      lastObject := if b.lastObject = some object then l.prev object else b.lastObject
      count := b.count - 1 })

section Operations

variable {l : Links α} {b : Base α} {xs ys : List α} {a x : α}

/-- **Adding.** An object that is in no list is put behind the others. -/
theorem Holds.add (h : Holds l b xs) (hnext : l.next a = none) (hprev : l.prev a = none)
    (ha : a ∉ xs) : Holds (add l b a).1 (add l b a).2 (xs ++ [a]) := by
  have hnodup : (xs ++ [a]).Nodup :=
    List.nodup_append.mpr ⟨h.nodup, List.nodup_singleton a,
      fun x hx y hy heq => ha (List.mem_singleton.mp hy ▸ heq ▸ hx)⟩
  have hcount : b.count + 1 = ((xs ++ [a]).length : Int) := by
    rw [h.count, List.length_append, List.length_singleton]
    omega
  have hlast := h.lastObject
  cases List.eq_nil_or_concat xs with
  | inl hnil =>
      subst hnil
      rw [Intrusive.add, hlast]
      exact ⟨⟨rfl, hnext⟩, ⟨rfl, hprev⟩, hcount, hnodup⟩
  | inr hconcat =>
      obtain ⟨front, last, hconcat⟩ := hconcat
      rw [List.concat_eq_append] at hconcat
      subst hconcat
      rw [List.getLast?_concat] at hlast
      have hfront := (List.nodup_append.mp h.nodup).2.2
      rw [Intrusive.add, hlast]
      refine ⟨?_, ?_, hcount, hnodup⟩
      · have hne : a ≠ last := fun heq => ha (by simp [heq])
        refine path_concat.mpr ⟨h.forward.redirect ?_ (some a), ?_⟩
        · exact fun hmem => hfront last hmem last List.mem_cons_self rfl
        · simp [Links.append, hne, hnext]
      · rw [List.reverse_append, List.reverse_singleton]
        refine ⟨rfl, ?_⟩
        simp only [Links.append, Function.update_self]
        rw [← hlast]
        exact h.backward.update_of_notMem (fun hmem => ha (List.mem_reverse.mp hmem)) _

theorem Holds.add_next (h : Holds l b xs) (hx : x ∉ xs) :
    (Intrusive.add l b a).1.next x = l.next x := by
  have hlast := h.lastObject
  unfold Intrusive.add
  cases hb : b.lastObject with
  | none => rfl
  | some last =>
      rw [hb] at hlast
      have hne : x ≠ last := fun heq => hx (heq ▸ List.mem_of_getLast? hlast.symm)
      simp [Links.append, hne]

theorem add_prev_of_ne (hx : x ≠ a) : (add l b a).1.prev x = l.prev x := by
  unfold add
  cases b.lastObject with
  | none => rfl
  | some last => simp [Links.append, hx]

/-- **Deleting.** The others are kept in their order. -/
theorem Holds.del (h : Holds l b (xs ++ a :: ys)) :
    Holds (del l b a).1 (del l b a).2 (xs ++ ys) := by
  have hnodup := h.nodup
  have hreverse : (xs ++ a :: ys).reverse = ys.reverse ++ a :: xs.reverse := by simp
  refine ⟨?_, ?_, ?_, ?_⟩
  · have hpath := h.forward.bypass hnodup
    rw [← h.prev, ← Links.unlink_next h.next_ne_self] at hpath
    exact hpath
  · have hback := h.backward
    have hnodup' := List.nodup_reverse.mpr hnodup
    rw [hreverse] at hback hnodup'
    have hpath := hback.bypass hnodup'
    rw [List.getLast?_reverse, ← h.next, ← Links.unlink_prev h.next_ne_self,
      ← List.reverse_append] at hpath
    exact hpath
  · have hcount := h.count
    simp only [Intrusive.del, hcount, List.length_append, List.length_cons]
    omega
  · exact hnodup.sublist ((List.sublist_cons_self a ys).append_left xs)

theorem Holds.del_of_notMem (h : Holds l b (xs ++ a :: ys)) (hx : x ∉ xs ++ a :: ys) :
    (Intrusive.del l b a).1.next x = l.next x ∧ (Intrusive.del l b a).1.prev x = l.prev x := by
  have hne := h.next_ne_self
  have hxa : x ≠ a := fun heq => hx (by simp [heq])
  refine ⟨(congrFun (Links.unlink_next hne) x).trans (bypass_of_ne ?_ hxa),
    (congrFun (Links.unlink_prev hne) x).trans (bypass_of_ne ?_ hxa)⟩
  · rw [h.prev]
    exact fun heq => hx (List.mem_append_left _ (List.mem_of_getLast? heq))
  · rw [h.next]
    exact fun heq => hx (List.mem_append_right _ (List.mem_cons_of_mem a (List.mem_of_head? heq)))

theorem Holds.free_del (h : Holds l b (xs ++ a :: ys)) : (Intrusive.del l b a).1.Free a :=
  Links.free_unlink h.next_ne_self

/-- **Putting in.** An object that is not in the list is put in anywhere. -/
theorem Holds.between {b' : Base α} (h : Holds l b (xs ++ ys)) (ha : a ∉ xs ++ ys)
    (hobjects : b'.objects = (xs ++ a :: ys).head?)
    (hlast : b'.lastObject = (xs ++ a :: ys).getLast?) (hcount : b'.count = b.count + 1) :
    Holds (l.between xs.getLast? a ys.head?) b' (xs ++ a :: ys) := by
  have hreverse : (xs ++ a :: ys).reverse = ys.reverse ++ a :: xs.reverse := by simp
  refine ⟨?_, ?_, ?_, ?_⟩
  · obtain ⟨m, hxs, hys⟩ := path_append.mp h.forward
    obtain rfl := hys.start
    rw [hobjects]
    exact hxs.lead hys ha h.nodup
  · have hback := h.backward
    have hnodup := List.nodup_reverse.mpr h.nodup
    rw [← List.mem_reverse] at ha
    rw [List.reverse_append] at hback hnodup ha
    obtain ⟨m, hys, hxs⟩ := path_append.mp hback
    obtain rfl := hxs.start
    have hlead := hys.lead hxs ha hnodup
    rw [← hreverse, List.getLast?_reverse, List.head?_reverse, List.head?_reverse, ← hlast]
      at hlead
    exact hlead
  · simp only [hcount, h.count, List.length_append, List.length_cons]
    omega
  · have hnodup := h.nodup
    rw [List.nodup_append, List.nodup_cons]
    rw [List.nodup_append] at hnodup
    rw [List.mem_append, not_or] at ha
    refine ⟨hnodup.1, ⟨ha.2, hnodup.2.1⟩, fun x hx y hy heq => ?_⟩
    cases List.mem_cons.mp hy with
    | inl hya => exact ha.1 (hya ▸ heq ▸ hx)
    | inr hmem => exact hnodup.2.2 x hx y hmem heq

theorem between_of_notMem (hx : x ∉ xs ++ ys) (hxa : x ≠ a) :
    (l.between xs.getLast? a ys.head?).next x = l.next x ∧
      (l.between xs.getLast? a ys.head?).prev x = l.prev x := by
  rw [List.mem_append, not_or] at hx
  exact ⟨lead_of_ne (fun heq => hx.1 (List.mem_of_getLast? heq)) hxa,
    lead_of_ne (fun heq => hx.2 (List.mem_of_head? heq)) hxa⟩

end Operations

end Intrusive

import Dbus2vdr.Lib.Intrusive

/-!
# Going through a list while objects are taken out

A loop over an intrusive list may take out the object it is at, and delete it, if it has read the
link to the next one before. In `Heap` an object that has been deleted must not be touched again: an
operation that would do so has no result. The rules say what a whole loop does to a list that is
`Tidy`, that is, to one whose objects have not been deleted.
-/

namespace Intrusive

universe u v

variable {α : Type u} {σ : Type v}

/-- A list together with the objects that have been deleted, the last one at the end. -/
structure Heap (α : Type u) where
  links : Links α
  base : Base α
  freed : List α

structure Heap.Tidy (h : Heap α) (xs : List α) : Prop where
  holds : Holds h.links h.base xs
  alive : ∀ x ∈ xs, x ∉ h.freed

/-- There is no object, or it has not been deleted. -/
def Heap.Alive (h : Heap α) (p : Option α) : Prop := ∀ a ∈ p, a ∉ h.freed

theorem Heap.alive_some {h : Heap α} {a : α} : h.Alive (some a) ↔ a ∉ h.freed := by
  simp [Heap.Alive]

/-- What is in neither list keeps its links. -/
def SameOutside (xs : List α) (l l' : Links α) : Prop :=
  ∀ x ∉ xs, l'.next x = l.next x ∧ l'.prev x = l.prev x

section Touched

variable {h : Heap α} {xs ys : List α} {a : α}

theorem SameOutside.refl (xs : List α) (l : Links α) : SameOutside xs l l :=
  fun _ _ => ⟨rfl, rfl⟩

theorem SameOutside.trans {l l' l'' : Links α} (h : SameOutside xs l l')
    (h' : SameOutside ys l' l'') (hsub : ys ⊆ xs) : SameOutside xs l l'' := by
  intro x hx
  obtain ⟨hnext, hprev⟩ := h x hx
  obtain ⟨hnext', hprev'⟩ := h' x fun hmem => hx (hsub hmem)
  exact ⟨hnext'.trans hnext, hprev'.trans hprev⟩

namespace Heap.Tidy

theorem alive_mem (htidy : h.Tidy xs) (ha : a ∈ xs) : h.Alive (some a) :=
  alive_some.mpr (htidy.alive a ha)

theorem alive_next (htidy : h.Tidy (xs ++ a :: ys)) : h.Alive (h.links.next a) := by
  rw [htidy.holds.next]
  exact fun b hb => htidy.alive b (by simp [List.mem_of_head? hb])

theorem alive_prev (htidy : h.Tidy (xs ++ a :: ys)) : h.Alive (h.links.prev a) := by
  rw [htidy.holds.prev]
  exact fun b hb => htidy.alive b (List.mem_append_left _ (List.mem_of_getLast? hb))

end Heap.Tidy

end Touched

variable [DecidableEq α]

namespace Heap

instance decidableAlive (h : Heap α) (p : Option α) : Decidable (h.Alive p) :=
  inferInstanceAs (Decidable (∀ a ∈ p, a ∉ h.freed))

def free (h : Heap α) (a : α) : Option (Heap α) :=
  if h.Alive (some a) then some { h with freed := h.freed ++ [a] } else none

/-- Adding an object writes into the last one. -/
def add (h : Heap α) (a : α) : Option (Heap α) :=
  if h.Alive h.base.lastObject then
    let (links, base) := Intrusive.add h.links h.base a
    some { h with links, base }
  else none

/-- Taking an object out writes into its neighbours. -/
def del (h : Heap α) (a : α) (deleteObject : Bool) : Option (Heap α) :=
  if h.Alive (some a) ∧ h.Alive (h.links.next a) ∧ h.Alive (h.links.prev a) then
    let (links, base) := Intrusive.del h.links h.base a
    let h := { h with links, base }
    if deleteObject then h.free a else some h
  else none

/-- `visit` is done with every object, and those with `p` are taken out. -/
def sweep (visit : σ → α → σ) (p : α → Bool) (deleteObject : Bool) :
    Nat → σ → Heap α → Option α → Option (σ × Heap α)
  | _, s, h, none => some (s, h)
  | 0, _, _, some _ => none
  | fuel + 1, s, h, some a =>
      if h.Alive (some a) then
        let next := h.links.next a
        if p a then
          (h.del a deleteObject).bind fun h => sweep visit p deleteObject fuel (visit s a) h next
        else sweep visit p deleteObject fuel (visit s a) h next
      else none

/-- The first object with `p`, from an object on. -/
def find (p : α → Bool) : Nat → Heap α → Option α → Option (Option α)
  | _, _, none => some none
  | 0, _, some _ => none
  | fuel + 1, h, some a =>
      if h.Alive (some a) then
        if p a then some (some a) else find p fuel h (h.links.next a)
      else none

def clearLoop : Nat → Heap α → Option (Heap α)
  | fuel, h =>
      match h.base.objects, fuel with
      | none, _ => some { h with base := Base.empty }
      | some _, 0 => none
      | some a, fuel + 1 =>
          if h.Alive (some a) then
            let object := h.links.next a
            (h.free a).bind fun h =>
              clearLoop fuel { h with base := { h.base with objects := object } }
          else none

end Heap

/-! ### What a loop does -/

section Rules

variable {h : Heap α} {xs ys : List α} {a : α}

theorem Heap.free_of_alive (halive : a ∉ h.freed) :
    h.free a = some { h with freed := h.freed ++ [a] } := if_pos (alive_some.mpr halive)

namespace Heap.Tidy

/-- **Adding.** A new object, which is in no list. -/
theorem add (htidy : h.Tidy xs) (hnext : h.links.next a = none) (hprev : h.links.prev a = none)
    (ha : a ∉ xs) (halive : a ∉ h.freed) :
    ∃ h', h.add a = some h' ∧ h'.Tidy (xs ++ [a]) ∧ h'.freed = h.freed ∧
      SameOutside (xs ++ [a]) h.links h'.links := by
  have hlast : h.Alive h.base.lastObject := by
    rw [htidy.holds.lastObject]
    exact fun b hb => htidy.alive b (List.mem_of_getLast? hb)
  refine ⟨_, if_pos hlast, ⟨htidy.holds.add hnext hprev ha, fun x hx => ?_⟩, rfl,
    fun x hx => ?_⟩
  · cases List.mem_append.mp hx with
    | inl hmem => exact htidy.alive x hmem
    | inr hmem =>
        rw [List.mem_singleton.mp hmem]
        exact halive
  · rw [List.mem_append, List.mem_singleton, not_or] at hx
    exact ⟨htidy.holds.add_next hx.1, add_prev_of_ne hx.2⟩

/-- **Taking out.** The object may be deleted, and nothing else is. -/
theorem del (htidy : h.Tidy (xs ++ a :: ys)) (deleteObject : Bool) :
    ∃ h', h.del a deleteObject = some h' ∧ h'.Tidy (xs ++ ys) ∧
      h'.freed = h.freed ++ (if deleteObject then [a] else []) ∧
      SameOutside (xs ++ a :: ys) h.links h'.links := by
  have hdel := htidy.holds.del
  have hkept : ∀ x ∈ xs ++ ys, x ∈ xs ++ a :: ys ∧ x ≠ a := by
    have hnodup := htidy.holds.nodup
    rw [List.nodup_middle, List.nodup_cons] at hnodup
    exact fun x hx => ⟨by simp at hx ⊢; tauto, fun heq => hnodup.1 (heq ▸ hx)⟩
  have hsame : SameOutside (xs ++ a :: ys) h.links (Intrusive.del h.links h.base a).1 :=
    fun x hx => htidy.holds.del_of_notMem hx
  have halive : a ∉ h.freed := htidy.alive a (by simp)
  unfold Heap.del
  rw [if_pos ⟨htidy.alive_mem (by simp), htidy.alive_next, htidy.alive_prev⟩]
  cases deleteObject with
  | false =>
      exact ⟨_, rfl, ⟨hdel, fun x hx => htidy.alive x (hkept x hx).1⟩, by simp, hsame⟩
  | true =>
      refine ⟨_, free_of_alive halive, ⟨hdel, fun x hx => ?_⟩, rfl, hsame⟩
      rw [List.mem_append, not_or]
      exact ⟨htidy.alive x (hkept x hx).1, by simpa using (hkept x hx).2⟩

/-- **The loop.** Every object is visited once and in order, whatever is taken out on the way. -/
theorem sweep (htidy : h.Tidy (xs ++ ys)) (visit : σ → α → σ) (p : α → Bool)
    (deleteObject : Bool) (s : σ) {fuel : Nat} (hfuel : ys.length ≤ fuel) :
    ∃ h', sweep visit p deleteObject fuel s h ys.head? = some (ys.foldl visit s, h') ∧
      h'.Tidy (xs ++ ys.filter fun x => !p x) ∧
      h'.freed = h.freed ++ (if deleteObject then ys.filter p else []) ∧
      SameOutside (xs ++ ys) h.links h'.links := by
  induction ys generalizing xs s h fuel with
  | nil =>
      refine ⟨h, by cases fuel <;> rfl, htidy, ?_, SameOutside.refl _ _⟩
      cases deleteObject <;> simp
  | cons a ys ih =>
      cases fuel with
      | zero => cases hfuel
      | succ fuel =>
          have hfuel : ys.length ≤ fuel := by simpa using hfuel
          rw [List.head?_cons, Heap.sweep, if_pos (htidy.alive_mem (by simp)), htidy.holds.next]
          dsimp only
          cases hp : p a with
          | true =>
              obtain ⟨h₁, hdel, htidy₁, hfreed₁, hsame₁⟩ := htidy.del deleteObject
              obtain ⟨h', hloop, htidy', hfreed', hsame'⟩ := ih htidy₁ (visit s a) hfuel
              refine ⟨h', ?_, ?_, ?_, hsame₁.trans hsame' (by simp)⟩
              · rw [if_pos rfl, hdel, Option.bind_some, hloop]
                rfl
              · rw [List.filter_cons_of_neg (by simp [hp])]
                exact htidy'
              · rw [hfreed', hfreed₁, List.filter_cons_of_pos hp]
                cases deleteObject <;> simp
          | false =>
              rw [List.append_cons] at htidy
              obtain ⟨h', hloop, htidy', hfreed', hsame'⟩ := ih htidy (visit s a) hfuel
              refine ⟨h', ?_, ?_, ?_, ?_⟩
              · rw [if_neg (by simp), hloop]
                rfl
              · rw [List.filter_cons_of_pos (by simp [hp]), List.append_cons]
                exact htidy'
              · rw [hfreed', List.filter_cons_of_neg (by simp [hp])]
              · rw [List.append_cons]
                exact hsame'

theorem find (htidy : h.Tidy (xs ++ ys)) (p : α → Bool) {fuel : Nat}
    (hfuel : ys.length ≤ fuel) :
    find p fuel h ys.head? = some (ys.find? p) := by
  induction ys generalizing xs fuel with
  | nil => cases fuel <;> rfl
  | cons a ys ih =>
      cases fuel with
      | zero => cases hfuel
      | succ fuel =>
          rw [List.head?_cons, Heap.find, if_pos (htidy.alive_mem (by simp)), htidy.holds.next,
            List.find?_cons]
          cases hp : p a with
          | true => rfl
          | false =>
              rw [List.append_cons] at htidy
              exact ih htidy (by simpa using hfuel)

/-- `Clear` deletes what is left. -/
theorem clearLoop {fuel : Nat} (hpath : Path h.links.next h.base.objects xs none)
    (halive : ∀ x ∈ xs, x ∉ h.freed) (hnodup : xs.Nodup) (hfuel : xs.length ≤ fuel) :
    Heap.clearLoop fuel h = some { h with base := Base.empty, freed := h.freed ++ xs } := by
  induction xs generalizing h fuel with
  | nil =>
      rw [path_nil] at hpath
      unfold Heap.clearLoop
      rw [hpath, List.append_nil]
  | cons a xs ih =>
      obtain ⟨hobjects, hrest⟩ := hpath
      cases fuel with
      | zero => cases hfuel
      | succ fuel =>
          have ha : a ∉ h.freed := halive a List.mem_cons_self
          have halive' : ∀ x ∈ xs, x ∉ h.freed ++ [a] := by
            intro x hx
            rw [List.mem_append, List.mem_singleton, not_or]
            exact ⟨halive x (List.mem_cons_of_mem a hx),
              ne_of_mem_of_not_mem hx (List.nodup_cons.mp hnodup).1⟩
          have hrest' := ih (h := { h with
            base := { h.base with objects := h.links.next a }, freed := h.freed ++ [a] })
            hrest halive' (List.nodup_cons.mp hnodup).2 (by simpa using hfuel)
          unfold Heap.clearLoop
          rw [hobjects]
          dsimp only
          rw [if_pos (alive_some.mpr ha), free_of_alive ha, Option.bind_some, hrest']
          simp

end Heap.Tidy

end Rules

end Intrusive

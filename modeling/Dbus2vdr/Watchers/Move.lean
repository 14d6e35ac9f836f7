import Dbus2vdr.Lib.Intrusive

/-!
# `AddAllWatchers`

The pending watchers are moved to a connection one by one: `AddWatcher` appends the first of them to
the list of the connection, and only then `Del` takes it out of the pending list. But the links it
has by then are those of its new list, so `Del` unlinks it there: the watcher before it in the list
of the connection gets the rest of the pending list as its successor. The turns differ by whether
the last watcher moved can be reached from the first one, and this changes with every turn.
-/

namespace Dbus2vdr.Watchers

open Intrusive

universe u v

variable {α : Type u} {κ : Type v} [DecidableEq α]

/-- The watchers there are, `_watchers` of a connection and the pending list of its bus. -/
structure Lists (α : Type u) (κ : Type v) where
  links : Links α
  /-- `_connection` of a watcher -/
  connection : α → Option κ
  watchers : Base α
  pending : Base α

/-- `cDBusConnection::AddWatcher` -/
def addWatcher (this : κ) (s : Lists α κ) (w : α) : Lists α κ :=
  let (links, watchers) := add s.links s.watchers w
  { s with links, watchers, connection := Function.update s.connection w (some this) }

/-- `Watchers->Del(w, false)` -/
def delPending (s : Lists α κ) (w : α) : Lists α κ :=
  let (links, pending) := del s.links s.pending w
  { s with links, pending }

def turn (this : κ) (s : Lists α κ) (w : α) : Lists α κ := delPending (addWatcher this s w) w

def addAllLoop (this : κ) : Nat → Lists α κ → Lists α κ
  | 0, s => s
  | turns + 1, s =>
      match s.pending.objects with
      | none => s
      | some w => addAllLoop this turns (turn this s w)

/-- Every turn takes one off `Count`; that `First` is `NULL` after so many turns is part of what is
proved. -/
def addAllWatchers (this : κ) (s : Lists α κ) : Lists α κ :=
  addAllLoop this s.pending.count.toNat s

/-- The watchers `L` have been moved behind `W`, and nothing is pending. -/
structure Moved (this : κ) (s : Lists α κ) (W L : List α) : Prop where
  walk : Path s.links.next s.watchers.objects (W ++ L) none
  last : s.watchers.lastObject = (W ++ L).getLast?
  count : s.watchers.count = (W ++ L).length
  connection : ∀ w ∈ L, s.connection w = some this
  noFirst : s.pending.objects = none
  noLast : s.pending.lastObject = none
  noCount : s.pending.count = 0

/-! ### One turn -/

section Turn

variable {k : κ} {s : Lists α κ} {q r : α}

@[simp]
theorem turn_connection : (turn k s r).connection = Function.update s.connection r (some k) :=
  rfl

@[simp]
theorem turn_pending_count : (turn k s r).pending.count = s.pending.count - 1 := rfl

@[simp]
theorem turn_watchers_count : (turn k s r).watchers.count = s.watchers.count + 1 := by
  unfold turn addWatcher delPending add
  cases s.watchers.lastObject <;> rfl

@[simp]
theorem turn_watchers_lastObject : (turn k s r).watchers.lastObject = some r := by
  unfold turn addWatcher delPending add
  cases s.watchers.lastObject <;> rfl

theorem turn_watchers_objects (hq : s.watchers.lastObject = some q) :
    (turn k s r).watchers.objects = s.watchers.objects := by
  unfold turn addWatcher delPending add
  rw [hq]

/-- Behind the last watcher of the connection: it is linked past the one that is moved. -/
theorem turn_next (hq : s.watchers.lastObject = some q) (hne : r ≠ q)
    (hself : s.links.next r ≠ some r) :
    (turn k s r).links.next = bypass s.links.next (some q) r := by
  have hnext : (s.links.append q r).next r = s.links.next r := Function.update_of_ne hne _ _
  have hprev : (s.links.append q r).prev r = some q := Function.update_self _ _ _
  have hunlink := Links.unlink_next (l := s.links.append q r) (a := r) (by rwa [hnext])
  unfold turn addWatcher delPending add
  rw [hq]
  refine hunlink.trans ?_
  rw [hprev, bypass, hnext]
  simp [Links.append, bypass]

theorem turn_pending_objects (hfirst : s.pending.objects = some r)
    (hq : s.watchers.lastObject = some q) (hne : r ≠ q) :
    (turn k s r).pending.objects = s.links.next r := by
  unfold turn addWatcher delPending add del
  rw [hq]
  simp [hfirst, Links.append, hne]

theorem turn_pending_lastObject (hq : s.watchers.lastObject = some q) :
    (turn k s r).pending.lastObject =
      if s.pending.lastObject = some r then some q else s.pending.lastObject := by
  unfold turn addWatcher delPending add del
  rw [hq]
  simp [Links.append]

/-- The first watcher of a connection that has none. -/
theorem turn_first (hq : s.watchers.lastObject = none) (hprev : s.links.prev r = none)
    (hself : s.links.next r ≠ some r) :
    (turn k s r).links.next = bypass s.links.next none r := by
  have hunlink := Links.unlink_next hself
  unfold turn addWatcher delPending add
  rw [hq]
  exact hunlink.trans (by rw [hprev])

theorem turn_first_objects (hq : s.watchers.lastObject = none) :
    (turn k s r).watchers.objects = some r := by
  unfold turn addWatcher delPending add
  rw [hq]

theorem turn_first_pending (hfirst : s.pending.objects = some r)
    (hq : s.watchers.lastObject = none) (hprev : s.links.prev r = none) :
    (turn k s r).pending.objects = s.links.next r ∧
      (turn k s r).pending.lastObject =
        if s.pending.lastObject = some r then none else s.pending.lastObject := by
  unfold turn addWatcher delPending add del
  rw [hq]
  simp [hfirst, hprev]

end Turn

/-! ### The loop -/

/-- The loop is under way: `q` has been moved last and `rest` is still pending. -/
structure Moving (s : Lists α κ) (q : α) (rest : List α) : Prop where
  left : Path s.links.next s.pending.objects rest none
  nodup : (q :: rest).Nodup
  last : s.watchers.lastObject = some q
  pendingLast : rest ≠ [] → s.pending.lastObject = rest.getLast?

/-- The watchers up to `q` can be reached. -/
structure Tight (s : Lists α κ) (front : List α) (q : α) (rest : List α) : Prop
    extends Moving s q rest where
  walk : Path s.links.next s.watchers.objects (front ++ [q]) none
  fresh : (front ++ q :: rest).Nodup

/-- The watcher before `q` leads to the pending ones, past `q`. -/
structure Loose (s : Lists α κ) (front : List α) (q : α) (rest : List α) : Prop
    extends Moving s q rest where
  walk : Path s.links.next s.watchers.objects (front ++ rest) none
  fresh : (q :: (front ++ rest)).Nodup

section Loop

variable {k : κ} {s : Lists α κ} {front rest : List α} {q r : α}

omit [DecidableEq α] in
theorem Moving.next (h : Moving s q (r :: rest)) : s.links.next r = rest.head? := h.left.2.start

omit [DecidableEq α] in
theorem Moving.next_ne_self (h : Moving s q (r :: rest)) : s.links.next r ≠ some r := by
  rw [h.next]
  exact fun heq => (List.nodup_cons.mp (List.nodup_cons.mp h.nodup).2).1 (List.mem_of_head? heq)

omit [DecidableEq α] in
theorem Moving.ne (h : Moving s q (r :: rest)) : r ≠ q := by
  rintro rfl
  exact (List.nodup_cons.mp h.nodup).1 List.mem_cons_self

theorem Moving.turn_next (h : Moving s q (r :: rest)) :
    (turn k s r).links.next = bypass s.links.next (some q) r :=
  Watchers.turn_next h.last h.ne h.next_ne_self

theorem Moving.turn (h : Moving s q (r :: rest)) : Moving (turn k s r) r rest := by
  obtain ⟨hq, hnodup⟩ := List.nodup_cons.mp h.nodup
  refine ⟨?_, hnodup, turn_watchers_lastObject, ?_⟩
  · rw [turn_pending_objects h.left.1 h.last h.ne, h.turn_next]
    have hr := (List.nodup_cons.mp hnodup).1
    exact (h.left.2.update_of_notMem (fun hmem =>
      hq (List.mem_cons_of_mem r hmem)) _).update_of_notMem
      hr none
  · intro hne
    obtain ⟨front, last, hrest⟩ := (List.eq_nil_or_concat rest).resolve_left hne
    have hlast := h.pendingLast (List.cons_ne_nil r rest)
    rw [hrest, List.concat_eq_append] at hnodup hlast ⊢
    rw [← List.cons_append, List.getLast?_concat] at hlast
    have hlr : some last ≠ some r := by
      intro heq
      exact (List.nodup_cons.mp hnodup).1 (by simp [Option.some.inj heq])
    rw [turn_pending_lastObject h.last, hlast, if_neg hlr, List.getLast?_concat]

theorem addAllLoop_cons (hfirst : s.pending.objects = some r) (turns : Nat) :
    addAllLoop k (turns + 1) s = addAllLoop k turns (turn k s r) := by
  rw [addAllLoop, hfirst]

theorem addAllLoop_connection_of_eq {turns : Nat} {w : α} (h : s.connection w = some k) :
    (addAllLoop k turns s).connection w = some k := by
  induction turns generalizing s with
  | zero => exact h
  | succ turns ih =>
      rw [addAllLoop]
      cases hfirst : s.pending.objects with
      | none => exact h
      | some r =>
          apply ih
          rw [turn_connection, Function.update_apply]
          split
          · rfl
          · exact h

/-- What does not depend on which watchers can still be reached. -/
theorem Moving.loop (h : Moving s q rest) :
    let s' := addAllLoop k rest.length s
    s'.pending.objects = none ∧ s'.watchers.lastObject = (q :: rest).getLast? ∧
      s'.watchers.count = s.watchers.count + rest.length ∧
      s'.pending.count = s.pending.count - rest.length ∧
      ∀ w ∈ rest, s'.connection w = some k := by
  induction rest generalizing s q with
  | nil => exact ⟨h.left, h.last, by simp [addAllLoop], by simp [addAllLoop], by simp⟩
  | cons r rest ih =>
      obtain ⟨hobjects, hlast, hcount, hpending, hconnection⟩ := ih (h.turn (k := k))
      rw [List.length_cons, addAllLoop_cons h.left.1]
      refine ⟨hobjects, ?_, ?_, ?_, ?_⟩
      · rw [hlast, List.getLast?_cons_cons]
      · rw [hcount, turn_watchers_count]
        push_cast
        omega
      · rw [hpending, turn_pending_count]
        push_cast
        omega
      · intro w hw
        cases List.mem_cons.mp hw with
        | inl heq =>
            apply addAllLoop_connection_of_eq
            rw [turn_connection, heq, Function.update_self]
        | inr hmem => exact hconnection w hmem

/-- `Del` reads the end of the pending list off the last watcher, whose `prev` is by then the one
before it in the list of the connection. -/
theorem Moving.loop_lastObject (h : Moving s q rest) (hne : rest ≠ []) :
    (addAllLoop k rest.length s).pending.lastObject ≠ none := by
  induction rest generalizing s q with
  | nil => exact absurd rfl hne
  | cons r rest ih =>
      rw [List.length_cons, addAllLoop_cons h.left.1]
      cases rest with
      | nil =>
          have hlast := h.pendingLast hne
          rw [List.length_nil, addAllLoop, turn_pending_lastObject h.last, hlast,
            List.getLast?_singleton, if_pos rfl]
          exact Option.some_ne_none q
      | cons r' rest => exact ih h.turn (List.cons_ne_nil r' rest)

/-! ### Who can be reached -/

theorem Tight.turn (h : Tight s front q (r :: rest)) :
    Loose (turn k s r) (front ++ [q]) r rest := by
  have hfresh : (r :: (front ++ [q] ++ rest)).Nodup := by
    have hmiddle : (front ++ [q] ++ r :: rest).Nodup := by
      rw [List.append_assoc]
      exact h.fresh
    exact List.nodup_middle.mp hmiddle
  have hr : r ∉ front ++ [q] := fun hmem =>
    (List.nodup_cons.mp hfresh).1 (List.mem_append_left rest hmem)
  have hq : q ∉ front := fun hmem =>
    (List.nodup_append.mp h.fresh).2.2 q hmem q List.mem_cons_self rfl
  have hleft := h.toMoving.turn (k := k)
  refine ⟨hleft, path_append.mpr ⟨s.links.next r, ?_, ?_⟩, hfresh⟩
  · rw [turn_watchers_objects h.last, h.toMoving.turn_next]
    exact (h.walk.redirect hq (s.links.next r)).update_of_notMem hr none
  · rw [← turn_pending_objects (k := k) h.left.1 h.last h.ne]
    exact hleft.left

theorem Loose.turn (h : Loose s front q (r :: rest)) : Tight (turn k s r) front r rest := by
  obtain ⟨hq, hfresh⟩ := List.nodup_cons.mp h.fresh
  have hr : r ∉ front := fun hmem =>
    (List.nodup_append.mp hfresh).2.2 r hmem r List.mem_cons_self rfl
  refine ⟨h.toMoving.turn, path_concat.mpr ⟨?_, ?_⟩, hfresh⟩
  · obtain ⟨m, hfront, rfl, -⟩ := path_append.mp h.walk
    rw [turn_watchers_objects h.last, h.toMoving.turn_next]
    exact (hfront.update_of_notMem (fun hmem =>
      hq (List.mem_append_left _ hmem)) _).update_of_notMem
      hr none
  · rw [h.toMoving.turn_next, bypass_self]

def everyOther : List α → List α
  | [] => []
  | [x] => [x]
  | x :: _ :: rest => x :: everyOther rest

omit [DecidableEq α] in
theorem everyOther_cons (x : α) (xs : List α) :
    everyOther (x :: xs) = x :: everyOther xs.tail := by
  cases xs with
  | nil => rfl
  | cons y xs => rfl

omit [DecidableEq α] in
theorem everyOther_sublist : ∀ xs : List α, (everyOther xs).Sublist xs
  | [] => List.Sublist.slnil
  | [_] => List.Sublist.refl _
  | _ :: y :: rest => ((everyOther_sublist rest).cons y).cons_cons _

/-- **The walk.** Tight and loose states take turns, so that every other watcher is passed over. -/
theorem addAllLoop_walk (rest : List α) :
    (∀ (s : Lists α κ) front q, Tight s front q rest →
      let s' := addAllLoop k rest.length s
      Path s'.links.next s'.watchers.objects (front ++ q :: everyOther rest.tail) none) ∧
    (∀ (s : Lists α κ) front q, Loose s front q rest →
      let s' := addAllLoop k rest.length s
      Path s'.links.next s'.watchers.objects (front ++ everyOther rest) none) := by
  induction rest with
  | nil => exact ⟨fun s front q h => h.walk, fun s front q h => h.walk⟩
  | cons r rest ih =>
      constructor
      · intro s front q h
        have hwalk := ih.2 _ _ _ (h.turn (k := k))
        rw [List.append_assoc, List.singleton_append] at hwalk
        rw [List.length_cons, addAllLoop_cons h.left.1]
        exact hwalk
      · intro s front q h
        have hwalk := ih.1 _ _ _ (h.turn (k := k))
        rw [List.length_cons, addAllLoop_cons h.left.1, everyOther_cons]
        exact hwalk

end Loop

/-! ### The whole move -/

section Move

variable {k : κ} {s : Lists α κ} {W L : List α}

omit [DecidableEq α] in
/-- Behind watchers that are there already, the first pending one is linked past at once. -/
theorem tight_of_holds {front : List α} {q : α} (hW : Holds s.links s.watchers (front ++ [q]))
    (hL : Holds s.links s.pending L) (hdisjoint : List.Disjoint (front ++ [q]) L) :
    Tight s front q L := by
  have hfresh : (front ++ q :: L).Nodup := by
    have hboth := hW.nodup.append hL.nodup hdisjoint
    rwa [List.append_assoc, List.singleton_append] at hboth
  refine ⟨⟨hL.forward, (List.nodup_append.mp hfresh).2.1, ?_, fun _ => hL.lastObject⟩,
    hW.forward, hfresh⟩
  rw [hW.lastObject, List.getLast?_concat]

theorem tight_of_first {w : α} {rest : List α} (hW : Holds s.links s.watchers [])
    (hL : Holds s.links s.pending (w :: rest)) : Tight (turn k s w) [] w rest := by
  have hq := hW.lastObject
  have hhead : Holds s.links s.pending ([] ++ w :: rest) := hL
  have hprev : s.links.prev w = none := hhead.prev
  have hnotMem := (List.nodup_cons.mp hL.nodup).1
  have hnext := turn_first (k := k) hq hprev hhead.next_ne_self
  obtain ⟨hobjects, hlast⟩ := turn_first_pending (k := k) hL.forward.1 hq hprev
  refine ⟨⟨?_, hL.nodup, turn_watchers_lastObject, ?_⟩, ?_, hL.nodup⟩
  · rw [hobjects, hnext]
    exact hL.forward.2.update_of_notMem hnotMem none
  · intro hne
    have hpending := hL.lastObject
    obtain ⟨front, last, hrest⟩ := (List.eq_nil_or_concat rest).resolve_left hne
    rw [hrest, List.concat_eq_append] at hnotMem hpending ⊢
    rw [← List.cons_append, List.getLast?_concat] at hpending
    have hne' : some last ≠ some w := fun heq => hnotMem (by simp [Option.some.inj heq])
    rw [hlast, hpending, if_neg hne', List.getLast?_concat]
  · refine ⟨turn_first_objects hq, ?_⟩
    rw [hnext, bypass_self]
    rfl

theorem addAllWatchers_eq (hL : Holds s.links s.pending L) :
    addAllWatchers k s = addAllLoop k L.length s := by
  rw [addAllWatchers, hL.count, Int.toNat_natCast]

/-- **What `AddAllWatchers` does.** `Last`, `Count` and the pending list look as if all had been
moved, but from the first watcher on only every other pending one can be reached. -/
theorem addAllWatchers_walk (hW : Holds s.links s.watchers W) (hL : Holds s.links s.pending L)
    (hdisjoint : List.Disjoint W L) :
    let s' := addAllWatchers k s
    Path s'.links.next s'.watchers.objects (W ++ everyOther (if W = [] then L else L.tail)) none ∧
      s'.watchers.lastObject = (W ++ L).getLast? ∧ s'.watchers.count = (W ++ L).length ∧
      (∀ w ∈ L, s'.connection w = some k) ∧ s'.pending.objects = none ∧
        s'.pending.count = 0 := by
  rw [addAllWatchers_eq hL]
  have hcount := hL.count
  have hcountW := hW.count
  cases List.eq_nil_or_concat W with
  | inr hconcat =>
      obtain ⟨front, q, hconcat⟩ := hconcat
      rw [List.concat_eq_append] at hconcat
      subst hconcat
      have htight := tight_of_holds hW hL hdisjoint
      obtain ⟨hobjects, hlast, hwatchers, hpending, hconnection⟩ :=
        htight.toMoving.loop (k := k)
      refine ⟨?_, ?_, ?_, hconnection, hobjects, ?_⟩
      · rw [if_neg (by simp), List.append_assoc]
        exact (addAllLoop_walk L).1 s front q htight
      · rw [hlast, List.append_assoc, List.singleton_append,
          List.getLast?_append_of_ne_nil front (List.cons_ne_nil q L)]
      · rw [hwatchers, hcountW]
        exact_mod_cast (List.length_append ..).symm
      · rw [hpending, hcount]
        omega
  | inl hnil =>
      subst hnil
      cases L with
      | nil => exact ⟨hW.forward, hW.lastObject, hcountW, by simp, hL.forward, hcount⟩
      | cons w rest =>
          have htight := tight_of_first (k := k) hW hL
          obtain ⟨hobjects, hlast, hwatchers, hpending, hconnection⟩ :=
            htight.toMoving.loop (k := k)
          rw [List.length_cons, addAllLoop_cons hL.forward.1]
          refine ⟨?_, hlast, ?_, ?_, hobjects, ?_⟩
          · rw [if_pos rfl, everyOther_cons]
            exact (addAllLoop_walk rest).1 _ [] w htight
          · rw [hwatchers, turn_watchers_count, hcountW, List.nil_append, List.length_cons]
            push_cast
            simp
            omega
          · intro v hv
            cases List.mem_cons.mp hv with
            | inl heq =>
                apply addAllLoop_connection_of_eq
                rw [turn_connection, heq, Function.update_self]
            | inr hmem => exact hconnection v hmem
          · rw [hpending, turn_pending_count, hcount, List.length_cons]
            push_cast
            omega

/-- A single pending watcher becomes the list of a connection that has none. -/
theorem addAllWatchers_of_length_le_one (hL : Holds s.links s.pending L)
    (hW : s.watchers = Base.empty) (hone : L.length ≤ 1) :
    (addAllWatchers k s).links = s.links ∧ (addAllWatchers k s).watchers = s.pending ∧
      (addAllWatchers k s).pending = Base.empty := by
  rw [addAllWatchers_eq hL]
  obtain ⟨links, connection, watchers, objects, lastObject, count⟩ := s
  have hcount := hL.count
  have hfirst := hL.objects
  have hlast := hL.lastObject
  dsimp only at hcount hfirst hlast hW hL ⊢
  subst hcount hfirst hlast hW
  match L, hone with
  | [], _ => exact ⟨rfl, rfl, rfl⟩
  | [w], _ =>
      have hhead : Holds links _ ([] ++ w :: []) := hL
      have hnext : links.next w = none := hhead.next
      have hprev : links.prev w = none := hhead.prev
      simp [addAllLoop, turn, addWatcher, delPending, add, del, Base.empty,
        Links.unlink_of_free hnext hprev, hnext, hprev]

theorem addAllWatchers_lastObject (hW : Holds s.links s.watchers W)
    (hL : Holds s.links s.pending L) (hdisjoint : List.Disjoint W L) (hne : L ≠ [])
    (hmore : W = [] → L.length ≠ 1) : (addAllWatchers k s).pending.lastObject ≠ none := by
  rw [addAllWatchers_eq hL]
  cases List.eq_nil_or_concat W with
  | inr hconcat =>
      obtain ⟨front, q, hconcat⟩ := hconcat
      rw [List.concat_eq_append] at hconcat
      subst hconcat
      exact (tight_of_holds hW hL hdisjoint).toMoving.loop_lastObject hne
  | inl hnil =>
      subst hnil
      cases L with
      | nil => exact absurd rfl hne
      | cons w rest =>
          have hrest : rest ≠ [] := fun heq => hmore rfl (by rw [heq, List.length_singleton])
          rw [List.length_cons, addAllLoop_cons hL.forward.1]
          exact (tight_of_first hW hL).toMoving.loop_lastObject hrest

/-- **Moving watchers.** All of them are kept exactly when none is pending, or a single one while
the connection has none. -/
theorem addAllWatchers_moved_iff (this : κ) (hW : Holds s.links s.watchers W)
    (hL : Holds s.links s.pending L) (hdisjoint : List.Disjoint W L) :
    Moved this (addAllWatchers this s) W L ↔ L = [] ∨ (W = [] ∧ L.length = 1) := by
  obtain ⟨hwalk, hlast, hcount, hconnection, hobjects, hpending⟩ :=
    addAllWatchers_walk (k := this) hW hL hdisjoint
  constructor
  · intro hmoved
    by_contra hcond
    obtain ⟨hne, hmore⟩ := not_or.mp hcond
    exact addAllWatchers_lastObject hW hL hdisjoint hne (not_and.mp hmore) hmoved.noLast
  · intro hcond
    have hnoLast : (addAllWatchers this s).pending.lastObject = none := by
      rw [addAllWatchers_eq hL]
      obtain rfl | ⟨rfl, hlength⟩ := hcond
      · exact hL.lastObject
      · obtain ⟨w, rfl⟩ := List.length_eq_one_iff.mp hlength
        have hhead : Holds s.links s.pending ([] ++ w :: []) := hL
        obtain ⟨-, hfirst⟩ :=
          turn_first_pending (k := this) hL.forward.1 hW.lastObject hhead.prev
        rw [List.length_singleton, addAllLoop_cons hL.forward.1, addAllLoop, hfirst, hL.lastObject,
          List.getLast?_singleton, if_pos rfl]
    refine ⟨?_, hlast, hcount, hconnection, hobjects, hnoLast, hpending⟩
    obtain rfl | ⟨rfl, hlength⟩ := hcond
    · have hnone : everyOther (if W = [] then [] else ([] : List α).tail) = [] := by
        split <;> rfl
      rwa [hnone] at hwalk
    · obtain ⟨w, rfl⟩ := List.length_eq_one_iff.mp hlength
      exact hwalk

end Move

def onePending : Lists Nat Unit where
  links := ⟨fun _ => none, fun _ => none⟩
  connection := fun _ => none
  watchers := Base.empty
  pending := ⟨some 0, some 0, 1⟩

theorem addAllWatchers_moved_one :
    Holds onePending.links onePending.watchers [] ∧
    Holds onePending.links onePending.pending [0] ∧
      (Moved () (addAllWatchers () onePending) [] [0] ↔
        [0] = [] ∨ (([] : List Nat) = [] ∧ [0].length = 1)) := by
  have hpending : Holds onePending.links onePending.pending [0] :=
    ⟨⟨rfl, rfl⟩, ⟨rfl, rfl⟩, rfl, List.nodup_singleton 0⟩
  exact ⟨holds_empty _, hpending,
    addAllWatchers_moved_iff () (holds_empty _) hpending (by simp)⟩

def twoPending : Lists Nat Unit where
  links := Links.append ⟨fun _ => none, fun _ => none⟩ 0 1
  connection := fun _ => none
  watchers := Base.empty
  pending := ⟨some 0, some 1, 2⟩

/-- Of two pending watchers the second one is lost. -/
theorem not_forall_moved :
    ¬ ∀ (s : Lists Nat Unit) (W L : List Nat), Holds s.links s.watchers W →
      Holds s.links s.pending L → List.Disjoint W L → Moved () (addAllWatchers () s) W L := by
  intro h
  have hwatchers : Holds twoPending.links twoPending.watchers [] := holds_empty _
  have hpending : Holds twoPending.links twoPending.pending [0, 1] :=
    ⟨⟨rfl, rfl, rfl⟩, ⟨rfl, rfl, rfl⟩, rfl, by decide⟩
  have hmoved := h twoPending [] [0, 1] hwatchers hpending (by simp)
  exact addAllWatchers_lastObject (k := ()) hwatchers hpending (by simp) (by decide) (by decide)
    hmoved.noLast

end Dbus2vdr.Watchers

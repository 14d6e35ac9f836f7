import Dbus2vdr.Lists.Runs
import Dbus2vdr.Setup.Bindings

/-!
# `_bindings` as a list in memory

Each of the setup objects calls `InitBindings`; the first call creates the bindings and sorts them.
That the order does not depend on how `qsort` treats equal names is due to there being none.
-/

namespace Dbus2vdr.Binding

open Intrusive ListBase

universe u v

variable {α : Type u} {ι : Type v} [DecidableEq α] [DecidableEq ι]

/-- `InitBindings`, which is given the objects that `new` returns. -/
def initBindings (qsort : List α → List α) (s : Memory α ι) (i : ι) (new : List α) :
    Option (Memory α ι) :=
  if (s.bases i).count = 0 then
    Machine.run (Memory.step qsort) s
      ((new.flatMap fun b => [.create b, .add i b none]) ++ [.sort i])
  else
    some s

def findLoop (content : α → Binding) (next : α → Option α) (name : Bytes) :
    Nat → Option α → Option α
  | _, none => none
  | 0, some _ => none
  | fuel + 1, some sb =>
      if strcaseeq (content sb).name name then some sb
      else findLoop content next name fuel (next sb)

/-- `cSetupBinding::Find`; `content` is what the objects have been created with. -/
def find (content : α → Binding) (s : Memory α ι) (i : ι) (name : Bytes) : Option α :=
  findLoop content s.links.next name s.objects.length (s.bases i).objects

section

variable {content : α → Binding} {c : Contents α ι} {s : Memory α ι} {i : ι}
    {qsort : List α → List α}

omit [DecidableEq α] in
theorem findLoop_path {next : α → Option α} {p : Option α} {xs : List α}
    (h : Path next p xs none) {fuel : Nat} (hfuel : xs.length ≤ fuel) (name : Bytes) :
    findLoop content next name fuel p = xs.find? fun sb => strcaseeq (content sb).name name := by
  induction xs generalizing p fuel with
  | nil =>
      rw [path_nil] at h
      rw [h, List.find?_nil]
      cases fuel <;> rfl
  | cons x xs ih =>
      obtain ⟨rfl, hrest⟩ := h
      cases fuel with
      | zero => cases hfuel
      | succ fuel =>
          rw [findLoop, List.find?_cons, ih hrest (by simpa using hfuel)]
          cases strcaseeq (content x).name name <;> rfl

theorem run_createAdd (qsort : List α → List α) (h : Represents c s) {new : List α}
    (hnodup : new.Nodup) (hnew : ∀ b ∈ new, b ∉ c.objects) :
    ∃ c' s', Machine.run (Memory.step qsort) s (new.flatMap fun b => [.create b, .add i b none]) =
      some s' ∧ Represents c' s' ∧ c'.lists i = c.lists i ++ new := by
  induction new generalizing c s with
  | nil => exact ⟨c, s, rfl, h, (List.append_nil _).symm⟩
  | cons b new ih =>
      rw [List.nodup_cons] at hnodup
      have hcreated := h.create (hnew b List.mem_cons_self)
      have hsingle : ({ c with objects := b :: c.objects } : Contents α ι).Single b :=
        ⟨List.mem_cons_self, fun j hj => hnew b List.mem_cons_self (h.there j b hj)⟩
      have hafter : ∀ x, (none : Option α) = some x → x ∈ c.lists i :=
        fun x hx => by cases hx
      obtain ⟨mid, hmid, hadded⟩ := hcreated.add qsort hsingle hafter
      obtain ⟨c', s', hrun, hc', hlists⟩ := ih hadded hnodup.2 fun x hx hmem => by
        cases List.mem_cons.mp hmem with
        | inl heq => exact hnodup.1 (heq ▸ hx)
        | inr hold => exact hnew x (List.mem_cons_of_mem b hx) hold
      refine ⟨c', s', ?_, hc', ?_⟩
      · rw [List.flatMap_cons, Machine.run_append_eq_some]
        exact ⟨mid, Machine.run_cons_eq_some.mpr
          ⟨_, rfl, Machine.run_cons_eq_some.mpr ⟨mid, hmid, rfl⟩⟩, hrun⟩
      · rw [hlists]
        change (Contents.put _ i _).lists i ++ new = _
        rw [Contents.put_self, List.append_assoc, List.singleton_append]

end

/-- `cSetupBinding::Compare` says that `a` may stand before `b`. -/
def Before (a b : Binding) : Prop := a.name.map tolower ≤ b.name.map tolower

/-- A sort that keeps the order of equal names. -/
def sortByName {β : Type u} (content : β → Binding) (xs : List β) : List β :=
  xs.mergeSort fun a b => decide ((content a).name.map tolower ≤ (content b).name.map tolower)

theorem pairwise_sortByName {β : Type u} (content : β → Binding) (xs : List β) :
    ((sortByName content xs).map content).Pairwise Before := by
  have hsorted : (sortByName content xs).Pairwise fun a b =>
      decide ((content a).name.map tolower ≤ (content b).name.map tolower) = true :=
    List.pairwise_mergeSort
      (fun a b c hab hbc => by
        rw [decide_eq_true_iff] at hab hbc ⊢
        exact List.le_trans hab hbc)
      (fun a b => by
        rw [Bool.or_eq_true, decide_eq_true_iff, decide_eq_true_iff]
        exact List.le_total _ _)
      xs
  rw [List.pairwise_map]
  exact hsorted.imp fun hab => of_decide_eq_true hab

theorem pairwise_bindings (limits : Limits) (versnum : Nat) :
    (bindings limits versnum).Pairwise Before := by
  have hsorted := pairwise_sortByName id ((table limits).filter (present versnum))
  rw [List.map_id] at hsorted
  exact hsorted

theorem filter_table_ne_nil (limits : Limits) (versnum : Nat) :
    (table limits).filter (present versnum) ≠ [] := by
  rw [table, List.filter_cons_of_pos (by simp [present, newString])]
  exact List.cons_ne_nil _ _

/-- The names differ, so there is one order only. -/
theorem eq_bindings {limits : Limits} {versnum : Nat} {sorted : List Binding}
    (hperm : sorted.Perm ((table limits).filter (present versnum)))
    (hsorted : sorted.Pairwise Before) :
    sorted = bindings limits versnum := by
  have hperm' : sorted.Perm (bindings limits versnum) := hperm.trans (List.mergeSort_perm _ _).symm
  refine List.Perm.eq_of_pairwise (fun a b ha hb hab hba => ?_) hsorted
    (pairwise_bindings limits versnum) hperm'
  exact List.inj_on_of_nodup_map (nodup_bindings limits versnum) (hperm'.subset ha) hb
    (List.le_antisymm hab hba)

variable {α : Type u} {ι : Type v} [DecidableEq α] [DecidableEq ι]

/-- **The list of the bindings.** The first `InitBindings` builds the list, the others leave it as
it is; `Find` finds in it what is found among the bindings. -/
theorem initBindings_holds (content : α → Binding) {c : Contents α ι} {s : Memory α ι}
    {i : ι} {qsort : List α → List α} (hperm : ∀ xs, (qsort xs).Perm xs)
    (hsorts : ∀ xs, ((qsort xs).map content).Pairwise Before) (h : Represents c s)
    (hempty : c.lists i = []) {limits : Limits} {versnum : Nat} {new : List α} (hnodup : new.Nodup)
    (hnew : ∀ b ∈ new, b ∉ c.objects)
    (hcontent : new.map content = (table limits).filter (present versnum)) :
    ∃ s' bs, initBindings qsort s i new = some s' ∧ Holds s'.links (s'.bases i) bs ∧
      bs.map content = bindings limits versnum ∧
      (∀ again, initBindings qsort s' i again = some s') ∧
      ∀ name, (find content s' i name).map content =
        (bindings limits versnum).find? fun b => strcaseeq b.name name := by
  obtain ⟨added, mid, hrun, hadded, hlists⟩ := run_createAdd (i := i) qsort h hnodup hnew
  obtain ⟨s', hsort, hs'⟩ := hadded.step hperm (show added.Allows (.sort i) from trivial)
  rw [hempty, List.nil_append] at hlists
  have hsorted : (added.after qsort (.sort i)).lists i = qsort new := by
    change (added.put i _).lists i = _
    rw [Contents.put_self, hlists]
  have hholds := hs'.holds i
  rw [hsorted] at hholds
  have hbindings : (qsort new).map content = bindings limits versnum :=
    eq_bindings (hcontent ▸ (hperm new).map content) (hsorts new)
  have hcount : (s.bases i).count = 0 := by rw [(h.holds i).count, hempty]; rfl
  refine ⟨s', qsort new, ?_, hholds, hbindings, fun again => ?_, fun name => ?_⟩
  · rw [initBindings, if_pos hcount, Machine.run_append_eq_some]
    exact ⟨mid, hrun, Machine.run_cons_eq_some.mpr ⟨s', hsort, rfl⟩⟩
  · have hne : (s'.bases i).count ≠ 0 := by
      rw [hholds.count]
      intro hzero
      have hnil : qsort new = [] := List.length_eq_zero_iff.mp (Int.natCast_eq_zero.mp hzero)
      have hnew' : ([] : List α).Perm new := hnil ▸ hperm new
      rw [← hnew'.nil_eq] at hcontent
      exact filter_table_ne_nil limits versnum hcontent.symm
    rw [initBindings, if_neg hne]
  · have hle := hs'.length_le i
    rw [hsorted] at hle
    rw [find, findLoop_path hholds.forward hle, ← hbindings, List.find?_map]
    rfl

/-- Objects that are numbered. -/
def numbered (bs : List Binding) (k : Nat) : Binding := bs.getD k (newTimeT "")

theorem map_numbered (bs : List Binding) : (List.range bs.length).map (numbered bs) = bs := by
  refine List.ext_getElem (by simp) fun k hk hk' => ?_
  rw [List.getElem_map, List.getElem_range, numbered, List.getD_eq_getElem?_getD,
    List.getElem?_eq_getElem hk', Option.getD_some]

def plainTable : List Binding :=
  (table SetupVdr.plain.limits).filter (present SetupVdr.plain.versnum)

theorem initBindings_holds_plain :
    ∃ (s' : Memory Nat Unit) (bs : List Nat),
      initBindings (sortByName (numbered plainTable)) Memory.initial ()
        (List.range plainTable.length) = some s' ∧
      bs.map (numbered plainTable) = bindings SetupVdr.plain.limits SetupVdr.plain.versnum := by
  have hinitial : Represents (Contents.initial : Contents Nat Unit) Memory.initial :=
    represents_initial
  obtain ⟨s', bs, hinit, -, hbs, -⟩ := initBindings_holds (numbered plainTable)
    (fun xs => List.mergeSort_perm xs _) (pairwise_sortByName (numbered plainTable)) hinitial rfl
    List.nodup_range (fun b _ => List.not_mem_nil) (map_numbered plainTable)
  exact ⟨s', bs, hinit, hbs⟩

end Dbus2vdr.Binding

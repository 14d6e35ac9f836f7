import Mathlib.Data.List.Induction

/-!
# Directories

A tree of directories and files, by the names on the way from its root: every entry is in a
directory. Paths are walked component by component, so `..` and repeated separators are part of
them.
-/

namespace Directory

universe u

variable {ν : Type u} [DecidableEq ν]

inductive Kind where
  | dir
  | file
  deriving DecidableEq, Repr

/-- the names on the way from the root -/
abbrev Route (ν : Type u) := List ν

/-- The root is always there. -/
def lookup (entries : List (Route ν × Kind)) (p : Route ν) : Option Kind :=
  if p = [] then some .dir else (entries.find? fun e => e.1 = p).map Prod.snd

structure FileTree (ν : Type u) [DecidableEq ν] where
  entries : List (Route ν × Kind)
  closed : ∀ (p : Route ν) (n : ν), lookup entries (p ++ [n]) ≠ none →
    lookup entries p = some .dir

namespace FileTree

def kind (t : FileTree ν) (p : Route ν) : Option Kind := lookup t.entries p

@[simp]
theorem kind_nil (t : FileTree ν) : t.kind [] = some .dir := by
  unfold kind lookup
  exact if_pos rfl

theorem kind_parent (t : FileTree ν) {p : Route ν} {n : ν} (h : t.kind (p ++ [n]) ≠ none) :
    t.kind p = some .dir :=
  t.closed p n h

theorem kind_dropLast (t : FileTree ν) {p : Route ν} (h : t.kind p ≠ none) :
    t.kind p.dropLast = some .dir := by
  rcases p.eq_nil_or_concat with rfl | ⟨p, n, rfl⟩
  · exact t.kind_nil
  · rw [List.concat_eq_append] at h ⊢
    rw [List.dropLast_concat]
    exact t.kind_parent h

/-! ### Making and removing entries -/

theorem lookup_cons (entries : List (Route ν × Kind)) (p q : Route ν) (k : Kind)
    (hp : p ≠ []) :
    lookup ((p, k) :: entries) q = if q = p then some k else lookup entries q := by
  unfold lookup
  rcases eq_or_ne q p with rfl | hne
  · rw [if_neg hp, if_pos rfl, List.find?_cons_of_pos (by simp), Option.map_some]
  · rw [if_neg hne, List.find?_cons_of_neg (by simpa using hne.symm)]

/-- Makes an entry, or makes it anew. -/
def add (t : FileTree ν) (p : Route ν) (n : ν) (k : Kind) (hp : t.kind p = some .dir)
    (hk : t.kind (p ++ [n]) = some .dir → k = .dir) : FileTree ν where
  entries := (p ++ [n], k) :: t.entries
  closed q m h := by
    have hne : p ++ [n] ≠ [] := by simp
    rw [lookup_cons _ _ _ _ hne] at h ⊢
    have hq : lookup t.entries q = some .dir := by
      split_ifs at h with heq
      · rw [List.append_inj_left' heq rfl]
        exact hp
      · exact t.closed q m h
    split_ifs with heq
    · rw [hk (heq ▸ hq)]
    · exact hq

theorem kind_add (t : FileTree ν) {p : Route ν} {n : ν} {k : Kind} (hp : t.kind p = some .dir)
    (hk : t.kind (p ++ [n]) = some .dir → k = .dir) (q : Route ν) :
    (t.add p n k hp hk).kind q = if q = p ++ [n] then some k else t.kind q :=
  lookup_cons _ _ _ _ (by simp)

theorem lookup_filter (entries : List (Route ν × Kind)) (p q : Route ν) (hp : p ≠ []) :
    lookup (entries.filter fun e => e.1 ≠ p) q = if q = p then none else lookup entries q := by
  unfold lookup
  rcases eq_or_ne q [] with rfl | hq
  · rw [if_pos rfl, if_pos rfl, if_neg hp.symm]
  rw [if_neg hq, if_neg hq, List.find?_filter]
  rcases eq_or_ne q p with rfl | hne
  · rw [if_pos rfl, Option.map_eq_none_iff, List.find?_eq_none]
    rintro e -
    simp
  · rw [if_neg hne]
    congr 2
    ext e
    rcases eq_or_ne e.1 q with heq | heq
    · simp [heq, hne]
    · simp [heq]

def Bare (t : FileTree ν) (p : Route ν) : Prop := ∀ n, t.kind (p ++ [n]) = none

def erase (t : FileTree ν) (p : Route ν) (hp : p ≠ []) (hbare : t.Bare p) : FileTree ν where
  entries := t.entries.filter fun e => e.1 ≠ p
  closed q m h := by
    rw [lookup_filter _ _ _ hp] at h ⊢
    split_ifs at h with heq
    · exact absurd rfl h
    · rw [if_neg, t.closed q m h]
      rintro rfl
      exact h (hbare m)

theorem kind_erase (t : FileTree ν) {p : Route ν} (hp : p ≠ []) (hbare : t.Bare p)
    (q : Route ν) :
    (t.erase p hp hbare).kind q = if q = p then none else t.kind q :=
  lookup_filter _ _ _ hp

/-! ### What is in a directory -/

def names (t : FileTree ν) (p : Route ν) : List ν :=
  t.entries.filterMap fun e => if e.1.dropLast = p then e.1.getLast? else none

theorem mem_names {t : FileTree ν} {p : Route ν} {n : ν} : n ∈ t.names p ↔
    t.kind (p ++ [n]) ≠ none := by
  have hne : p ++ [n] ≠ [] := by simp
  unfold names kind lookup
  rw [if_neg hne, List.mem_filterMap, Ne, Option.map_eq_none_iff, List.find?_eq_none, not_forall]
  simp only [Classical.not_imp, not_not, decide_eq_true_iff]
  refine exists_congr fun e => and_congr_right fun _ => ?_
  constructor
  · intro h
    split_ifs at h with hdrop
    obtain ⟨q, hq⟩ := List.getLast?_eq_some_iff.mp h
    rw [← hdrop, hq, List.dropLast_concat]
  · intro heq
    rw [heq, List.dropLast_concat, if_pos rfl, List.getLast?_concat]

theorem bare_iff {t : FileTree ν} {p : Route ν} : t.Bare p ↔ t.names p = [] := by
  rw [List.eq_nil_iff_forall_not_mem]
  refine forall_congr' fun n => ?_
  rw [mem_names, not_not]

instance (t : FileTree ν) (p : Route ν) : Decidable (t.Bare p) := decidable_of_iff _ bare_iff.symm

end FileTree

/-! ### Walking -/

/-- a component of a name -/
inductive Segment (ν : Type u) where
  | here
  | up
  | name (n : ν)
  deriving DecidableEq, Repr

/-- Where a component leads to. -/
def Segment.target (p : Route ν) : Segment ν → Route ν
  | .here => p
  | .up => p.dropLast
  | .name n => p ++ [n]

inductive Errno where
  | noent
  | notdir
  deriving DecidableEq, Repr

namespace FileTree

/-- Every component has to be looked for in a directory. -/
def walk (t : FileTree ν) : Route ν → List (Segment ν) → Except Errno (Route ν)
  | p, [] => .ok p
  | p, c :: cs =>
      match t.kind p with
      | some .dir => walk t (c.target p) cs
      | some .file => .error .notdir
      | none => .error .noent

def stat (t : FileTree ν) (p : Route ν) (cs : List (Segment ν)) : Except Errno Kind :=
  (t.walk p cs).bind fun q => (t.kind q).elim (.error .noent) .ok

theorem walk_cons {t : FileTree ν} {p : Route ν} (hp : t.kind p = some .dir) (c : Segment ν)
    (cs : List (Segment ν)) : t.walk p (c :: cs) = t.walk (c.target p) cs := by
  rw [walk, hp]

theorem walk_concat {t : FileTree ν} {p q : Route ν} {cs : List (Segment ν)}
    (h : t.walk p cs = .ok q) (hq : t.kind q = some .dir) (c : Segment ν) :
    t.walk p (cs ++ [c]) = .ok (c.target q) := by
  induction cs generalizing p with
  | nil =>
      obtain rfl := Except.ok.inj h
      exact walk_cons hq c []
  | cons c' cs ih =>
      rw [walk] at h
      rw [List.cons_append, walk]
      cases hp : t.kind p with
      | none => simp [hp] at h
      | some k =>
          cases k with
          | file => simp [hp] at h
          | dir =>
              rw [hp] at h
              exact ih h

theorem stat_concat {t : FileTree ν} {p q : Route ν} {cs : List (Segment ν)}
    (h : t.walk p cs = .ok q) (hq : t.kind q = some .dir) (c : Segment ν) :
    t.stat p (cs ++ [c]) = (t.kind (c.target q)).elim (.error .noent) .ok := by
  unfold stat
  rw [walk_concat h hq c]
  rfl

/-- More entries do not stop a walk. -/
theorem walk_mono {t t' : FileTree ν} (hle : ∀ p, t.kind p ≠ none → t'.kind p = t.kind p)
    {p q : Route ν} {cs : List (Segment ν)} (h : t.walk p cs = .ok q) : t'.walk p cs = .ok q := by
  induction cs generalizing p with
  | nil => exact h
  | cons c cs ih =>
      rw [walk] at h ⊢
      cases hp : t.kind p with
      | none => simp [hp] at h
      | some k =>
          cases k with
          | file => simp [hp] at h
          | dir =>
              rw [hp] at h
              rw [hle p (by rw [hp]; exact Option.some_ne_none _), hp]
              exact ih h

/-- Without `..` a walk only goes down. -/
theorem prefix_of_walk {t : FileTree ν} {p q : Route ν} {cs : List (Segment ν)}
    (hup : .up ∉ cs) (h : t.walk p cs = .ok q) : p <+: q := by
  induction cs generalizing p with
  | nil =>
      rw [walk, Except.ok.injEq] at h
      exact h ▸ List.prefix_refl p
  | cons c cs ih =>
      obtain ⟨hc, hcs⟩ := not_or.mp (mt List.mem_cons.mpr hup)
      rw [walk] at h
      split at h
      · have hnext := ih hcs h
        cases c with
        | here => exact hnext
        | up => exact absurd rfl hc
        | name n => exact (List.prefix_append p [n]).trans hnext
      · cases h
      · cases h

/-- So nothing matters for it but what is above its end. -/
theorem walk_congr {t t' : FileTree ν} {p q : Route ν} {cs : List (Segment ν)} (hup : .up ∉ cs)
    (h : t.walk p cs = .ok q) (hkind : ∀ r, r <+: q → t'.kind r = t.kind r) :
    t'.walk p cs = .ok q := by
  induction cs generalizing p with
  | nil => exact h
  | cons c cs ih =>
      have hp := prefix_of_walk hup h
      obtain ⟨-, hcs⟩ := not_or.mp (mt List.mem_cons.mpr hup)
      rw [walk] at h ⊢
      rw [hkind p hp]
      split at h
      · exact ih hcs h
      · cases h
      · cases h

/-! ### Making directories -/

section Making

variable (writable : Route ν → Bool)

/-- A new directory, in one in which the caller may make it. -/
def mkdir (t : FileTree ν) (p : Route ν) (cs : List (Segment ν)) : Option (FileTree ν) :=
  match t.walk p cs.dropLast, cs.getLast? with
  | .ok q, some (.name n) =>
      if h : t.kind q = some .dir ∧ t.kind (q ++ [n]) = none ∧ writable q then
        some (t.add q n .dir h.1 fun _ => rfl)
      else none
  | _, _ => none

/-- Makes sure that the component leads to a directory. -/
def enter (t : FileTree ν) (q : Route ν) : Segment ν → Option (FileTree ν)
  | .here | .up => some t
  | .name n =>
      if t.kind (q ++ [n]) = some .dir then some t
      else if h : t.kind q = some .dir ∧ t.kind (q ++ [n]) = none ∧ writable q then
        some (t.add q n .dir h.1 fun _ => rfl)
      else none

/-- Makes the directories that are missing on a walk. -/
def ensure (t : FileTree ν) (q : Route ν) : List (Segment ν) → FileTree ν × Bool
  | [] => (t, true)
  | c :: cs =>
      match t.enter writable q c with
      | none => (t, false)
      | some t' => ensure t' (c.target q) cs

/-- Where a walk comes by. -/
def visited (q : Route ν) : List (Segment ν) → List (Route ν)
  | [] => []
  | c :: cs => c.target q :: visited (c.target q) cs

/-- It is a directory, or can be made one. -/
def Makeable (t : FileTree ν) (p : Route ν) : Prop :=
  t.kind p = some .dir ∨ t.kind p = none ∧ writable p.dropLast

theorem enter_spec {t : FileTree ν} {q : Route ν} (hq : t.kind q = some .dir) (c : Segment ν) :
    (¬ t.Makeable writable (c.target q) ∧ t.enter writable q c = none) ∨
    (t.Makeable writable (c.target q) ∧ ∃ t', t.enter writable q c = some t' ∧
      ∀ p, t'.kind p = if p = c.target q then some .dir else t.kind p) := by
  have hsame : ∀ p₀, t.kind p₀ = some .dir → ∀ p, t.kind p = if p = p₀ then some .dir
      else t.kind p := by
    intro p₀ hp₀ p
    split_ifs with heq
    · rw [heq, hp₀]
    · rfl
  cases c with
  | here => exact Or.inr ⟨Or.inl hq, t, rfl, hsame q hq⟩
  | up =>
      have hup := t.kind_dropLast (p := q) (by rw [hq]; exact Option.some_ne_none _)
      exact Or.inr ⟨Or.inl hup, t, rfl, hsame _ hup⟩
  | name n =>
      unfold enter Makeable Segment.target
      dsimp only
      rw [List.dropLast_concat]
      split_ifs with hdir hnew
      · exact Or.inr ⟨Or.inl hdir, t, rfl, hsame _ hdir⟩
      · exact Or.inr ⟨Or.inr hnew.2, _, rfl, t.kind_add hnew.1 _⟩
      · exact Or.inl ⟨fun h => h.elim hdir fun h => hnew ⟨hq, h⟩, rfl⟩

variable {writable}

theorem enter_mono {t t' : FileTree ν} {q : Route ν} (hq : t.kind q = some .dir) {c : Segment ν}
    (h : t.enter writable q c = some t') {p : Route ν} (hp : t.kind p ≠ none) :
    t'.kind p = t.kind p := by
  rcases enter_spec writable hq c with ⟨-, hnone⟩ | ⟨hmake, t'', hsome, hkind⟩
  · rw [h] at hnone
    cases hnone
  · obtain rfl := Option.some.inj (h.symm.trans hsome)
    rw [hkind]
    split_ifs with heq
    · rw [heq] at hp ⊢
      exact (hmake.resolve_right fun hnone => hp hnone.1).symm
    · rfl

/-- **Making what is missing.** It succeeds exactly if the walk only comes by what is a directory or
can be made one. Then it adds these directories; in any case it adds nothing else and takes nothing
away. -/
theorem ensure_spec {t : FileTree ν} {q : Route ν} (hq : t.kind q = some .dir)
    (cs : List (Segment ν)) :
    ((t.ensure writable q cs).2 = true ↔ ∀ p ∈ visited q cs, t.Makeable writable p) ∧
    ((t.ensure writable q cs).2 = true →
      ∀ p, (t.ensure writable q cs).1.kind p = if p ∈ visited q cs then some .dir
      else t.kind p) ∧
    ∀ p, (t.ensure writable q cs).1.kind p = t.kind p ∨
      t.kind p = none ∧ p ∈ visited q cs ∧ (t.ensure writable q cs).1.kind p = some .dir := by
  induction cs generalizing t q with
  | nil =>
      exact ⟨by simp [ensure, visited], fun _ p => by simp [ensure, visited],
      fun p => Or.inl rfl⟩
  | cons c cs ih =>
      rcases enter_spec writable hq c with ⟨hnot, hnone⟩ | ⟨hmake, t', hsome, hkind⟩
      · have heq : t.ensure writable q (c :: cs) = (t, false) := by rw [ensure, hnone]
        rw [heq]
        refine ⟨⟨fun h => absurd h Bool.false_ne_true, fun hall =>
          absurd (hall _ List.mem_cons_self) hnot⟩,
          fun h => absurd h Bool.false_ne_true, fun p => Or.inl rfl⟩
      · have heq : t.ensure writable q (c :: cs) = t'.ensure writable (c.target q) cs := by
          rw [ensure, hsome]
        have htarget : t'.kind (c.target q) = some .dir := by rw [hkind, if_pos rfl]
        obtain ⟨hok, hafter, hadds⟩ := ih htarget
        have hmakeable : ∀ p, t'.Makeable writable p ↔ t.Makeable writable p := by
          intro p
          rcases eq_or_ne p (c.target q) with rfl | hne
          · exact iff_of_true (Or.inl htarget) hmake
          · unfold Makeable
            rw [hkind, if_neg hne]
        rw [heq]
        refine ⟨?_, fun hdone p => ?_, fun p => ?_⟩
        · rw [hok, visited, List.forall_mem_cons, and_iff_right hmake]
          exact forall₂_congr fun p _ => hmakeable p
        · rw [hafter hdone, hkind, visited]
          by_cases hp : p ∈ visited (c.target q) cs
          · rw [if_pos hp, if_pos (List.mem_cons_of_mem _ hp)]
          · rw [if_neg hp]
            simp only [List.mem_cons, hp, or_false]
        · rcases hadds p with hsame | ⟨hnone, hmem, hdir⟩
          · rw [hsame, hkind]
            split_ifs with hp
            · rw [hp]
              rcases hmake with hdir | ⟨hnone, -⟩
              · exact Or.inl hdir.symm
              · exact Or.inr ⟨hnone, List.mem_cons_self, rfl⟩
            · exact Or.inl rfl
          · rw [hkind] at hnone
            split_ifs at hnone
            exact Or.inr ⟨hnone, List.mem_cons_of_mem _ hmem, hdir⟩

/-- What is not a directory yet is made one. -/
theorem stat_or_mkdir {t : FileTree ν} {p q : Route ν} {cs : List (Segment ν)}
    (h : t.walk p cs = .ok q) (hq : t.kind q = some .dir) (c : Segment ν) :
    (if t.stat p (cs ++ [c]) = .ok .dir then some t else t.mkdir writable p (cs ++ [c])) =
      t.enter writable q c := by
  have hstat : t.stat p (cs ++ [c]) = .ok .dir ↔ t.kind (c.target q) = some .dir := by
    rw [stat_concat h hq c]
    cases t.kind (c.target q) <;> simp [Option.elim]
  cases c with
  | here => exact if_pos (hstat.mpr hq)
  | up => exact if_pos (hstat.mpr (t.kind_dropLast (by rw [hq]; exact Option.some_ne_none _)))
  | name n =>
      unfold enter
      simp only [hstat, Segment.target]
      congr 1
      unfold mkdir
      rw [List.dropLast_concat, List.getLast?_concat, h]

end Making

/-! ### Removing -/

section Removing

variable (writable : Route ν → Bool)

/-- A file, or a directory with nothing in it, from where the caller may remove it. -/
def Removable (t : FileTree ν) (p : Route ν) : Prop :=
  p ≠ [] ∧ t.kind p ≠ none ∧ writable p.dropLast ∧ t.Bare p

instance (t : FileTree ν) (p : Route ν) : Decidable (t.Removable writable p) :=
  inferInstanceAs (Decidable (_ ∧ _))

def remove (t : FileTree ν) (p : Route ν) : Option (FileTree ν) :=
  if h : t.Removable writable p then some (t.erase p h.1 h.2.2.2) else none

/-- Removes what can be removed of some entries of a directory. -/
def sweep (t : FileTree ν) (q : Route ν) : List ν → FileTree ν
  | [] => t
  | n :: ns => sweep ((t.remove writable (q ++ [n])).getD t) q ns

variable {writable}

theorem remove_spec {t t' : FileTree ν} {r : Route ν} (h : t.remove writable r = some t')
    (p : Route ν) :
    t'.kind p = if p = r then none else t.kind p := by
  unfold remove at h
  split_ifs at h with hremovable
  obtain rfl := Option.some.inj h
  exact t.kind_erase _ _ p

theorem remove_of_not {t : FileTree ν} {r : Route ν} (h : ¬ t.Removable writable r) :
    t.remove writable r = none :=
  dif_neg h

theorem exists_remove {t : FileTree ν} {r : Route ν} (h : t.Removable writable r) :
    ∃ t', t.remove writable r = some t' := ⟨_, dif_pos h⟩

/-- What is in a directory does not depend on each other. -/
theorem removable_congr {t t' : FileTree ν} {q : Route ν} {n m : ν}
    (hkind : ∀ p, t'.kind p = if p = q ++ [n] then none else t.kind p) (hne : m ≠ n) :
    t'.Removable writable (q ++ [m]) ↔ t.Removable writable (q ++ [m]) := by
  have hm : q ++ [m] ≠ q ++ [n] := fun heq => hne (by simpa using heq)
  have hbelow : ∀ k, q ++ [m] ++ [k] ≠ q ++ [n] := fun k heq => by
    have hlength := congrArg List.length heq
    simp at hlength
  unfold Removable Bare
  rw [hkind, if_neg hm]
  simp only [hkind, hbelow, if_false]

theorem kind_sweep (t : FileTree ν) (q : Route ν) (ns : List ν) (p : Route ν) :
    (t.sweep writable q ns).kind p =
      if ∃ n ∈ ns, p = q ++ [n] ∧ t.Removable writable p then none else t.kind p := by
  induction ns generalizing t with
  | nil => simp [sweep]
  | cons n ns ih =>
      rw [sweep]
      by_cases hn : t.Removable writable (q ++ [n])
      · obtain ⟨t', ht'⟩ := exists_remove hn
        have hkind := remove_spec ht'
        rw [ht', Option.getD_some, ih, hkind]
        by_cases hp : p = q ++ [n]
        · rw [if_pos hp, ite_self, if_pos ⟨n, List.mem_cons_self, hp, hp ▸ hn⟩]
        · rw [if_neg hp]
          have hiff : (∃ m ∈ ns, p = q ++ [m] ∧ t'.Removable writable p) ↔
              ∃ m ∈ n :: ns, p = q ++ [m] ∧ t.Removable writable p := by
            constructor
            · rintro ⟨m, hm, rfl, hremovable⟩
              have hne : m ≠ n := fun heq => hp (heq ▸ rfl)
              exact ⟨m, List.mem_cons_of_mem _ hm, rfl,
                (removable_congr hkind hne).mp hremovable⟩
            · rintro ⟨m, hm, rfl, hremovable⟩
              have hne : m ≠ n := fun heq => hp (heq ▸ rfl)
              exact ⟨m, (List.mem_cons.mp hm).resolve_left hne, rfl,
                (removable_congr hkind hne).mpr hremovable⟩
          simp only [hiff]
      · rw [remove_of_not hn, Option.getD_none, ih]
        have hiff : (∃ m ∈ ns, p = q ++ [m] ∧ t.Removable writable p) ↔
            ∃ m ∈ n :: ns, p = q ++ [m] ∧ t.Removable writable p := by
          constructor
          · rintro ⟨m, hm, hp⟩
            exact ⟨m, List.mem_cons_of_mem _ hm, hp⟩
          · rintro ⟨m, hm, rfl, hremovable⟩
            exact ⟨m, (List.mem_cons.mp hm).resolve_left fun heq =>
              hn (heq ▸ hremovable), rfl, hremovable⟩
        simp only [hiff]

theorem kind_sweep_names (t : FileTree ν) (q p : Route ν) :
    (t.sweep writable q (t.names q)).kind p =
      if p.dropLast = q ∧ t.Removable writable p then none else t.kind p := by
  have hiff : (∃ n ∈ t.names q, p = q ++ [n] ∧ t.Removable writable p) ↔
      p.dropLast = q ∧ t.Removable writable p := by
    constructor
    · rintro ⟨n, -, rfl, hremovable⟩
      exact ⟨List.dropLast_concat, hremovable⟩
    · rintro ⟨rfl, hremovable⟩
      have heq : p = p.dropLast ++ [p.getLast hremovable.1] := (List.dropLast_concat_getLast _).symm
      exact ⟨_, mem_names.mpr (heq ▸ hremovable.2.1), heq, hremovable⟩
  rw [kind_sweep]
  simp only [hiff]

/-- A directory goes with what is in it, if all of that can be removed. -/
theorem removable_sweep (t : FileTree ν) (q : Route ν) :
    (t.sweep writable q (t.names q)).Removable writable q ↔
      q ≠ [] ∧ t.kind q ≠ none ∧ writable q.dropLast ∧
        ∀ n, t.kind (q ++ [n]) ≠ none → t.Removable writable (q ++ [n]) := by
  have hself : (t.sweep writable q (t.names q)).kind q = t.kind q := by
    rw [kind_sweep_names, if_neg]
    rintro ⟨heq, hremovable⟩
    have hlength := congrArg List.length heq
    have hpos := List.length_pos_iff.mpr hremovable.1
    rw [List.length_dropLast] at hlength
    omega
  have hbare : (t.sweep writable q (t.names q)).Bare q ↔
      ∀ n, t.kind (q ++ [n]) ≠ none → t.Removable writable (q ++ [n]) := by
    refine forall_congr' fun n => ?_
    rw [kind_sweep_names, List.dropLast_concat]
    constructor
    · intro h hn
      by_contra hnot
      rw [if_neg fun hboth => hnot hboth.2] at h
      exact hn h
    · intro h
      split_ifs with hboth
      · rfl
      · by_contra hn
        exact hboth ⟨rfl, h hn⟩
  unfold Removable at hbare ⊢
  rw [hself, hbare]

end Removing

end FileTree

end Directory

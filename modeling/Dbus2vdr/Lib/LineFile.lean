import Mathlib.Data.List.Induction
import Mathlib.Data.List.Perm.Basic

/-!
# Stores in a file of lines

A store is a list of entries. It is saved as one text, in which each entry is ended by a line end,
and loaded line by line; what a line is taken for, if for anything, is up to the parser. The text of
an entry may have line ends of its own. So one entry is read back as a list of entries, and this
list does not depend on the other entries: `reload_eq` says that saving and loading a store reads
back every entry by itself.

`replaceFirst` is an update through the file: the first entry with a property is replaced, the store
is saved and loaded. `put` is one in memory: an entry takes the place of the first one with its key.
-/

namespace LineFile

universe u v w

variable {ε : Type u} {β : Type v} [DecidableEq β]

/-- The only entry with a property is the one that is found. -/
theorem find?_of_unique {entries : List ε} {p : ε → Bool} {e : ε} (he : e ∈ entries)
    (hp : p e) (hunique : ∀ a ∈ entries, p a → a = e) : entries.find? p = some e := by
  cases hfind : entries.find? p with
  | none => exact absurd hp (List.find?_eq_none.mp hfind e he)
  | some a => rw [hunique a (List.mem_of_find?_eq_some hfind) (List.find?_some hfind)]

/-- `text` is without the line end, and `parse` is given a line as it is in the file. -/
structure Format (ε : Type u) (β : Type v) where
  lineEnd : β
  text : ε → List β
  parse : List β → Option ε

/-- The lines of a text, each with its line end. The last one may lack it. -/
def getlines (lineEnd : β) : List β → List (List β)
  | [] => []
  | c :: s =>
      if c = lineEnd then [c] :: getlines lineEnd s
      else
        match getlines lineEnd s with
        | [] => [[c]]
        | line :: lines => (c :: line) :: lines

theorem getlines_ne_nil (lineEnd : β) {s : List β} (hs : s ≠ []) :
    getlines lineEnd s ≠ [] := by
  cases s with
  | nil => exact absurd rfl hs
  | cons c s =>
      unfold getlines
      split_ifs
      · simp
      · split <;> simp

theorem getlines_append (lineEnd : β) (s t : List β) :
    getlines lineEnd (s ++ lineEnd :: t) =
      getlines lineEnd (s ++ [lineEnd]) ++ getlines lineEnd t := by
  induction s with
  | nil => simp [getlines]
  | cons c s ih =>
      by_cases hc : c = lineEnd
      · rw [List.cons_append, List.cons_append, getlines, getlines, if_pos hc, if_pos hc, ih,
          List.cons_append]
      · have hne := getlines_ne_nil lineEnd (List.append_ne_nil_of_right_ne_nil s
          (List.cons_ne_nil lineEnd []))
        obtain ⟨line, lines, hlines⟩ := List.exists_cons_of_ne_nil hne
        rw [List.cons_append, List.cons_append, getlines, getlines, if_neg hc, if_neg hc, ih,
          hlines]
        rfl

theorem getlines_of_notMem {lineEnd : β} {s : List β} (hs : lineEnd ∉ s) :
    getlines lineEnd (s ++ [lineEnd]) = [s ++ [lineEnd]] := by
  induction s with
  | nil => simp [getlines]
  | cons c s ih =>
      rw [List.mem_cons, not_or] at hs
      rw [List.cons_append, getlines, if_neg (Ne.symm hs.1), ih hs.2]

namespace Format

variable (f : Format ε β)

def save (entries : List ε) : List β :=
  entries.flatMap fun e => f.text e ++ [f.lineEnd]

def load (text : List β) : List ε :=
  (getlines f.lineEnd text).filterMap f.parse

/-- What an entry is read back as. -/
def readBack (e : ε) : List ε :=
  f.load (f.text e ++ [f.lineEnd])

def reload (entries : List ε) : List ε :=
  f.load (f.save entries)

theorem load_append (e : ε) (text : List β) :
    f.load (f.text e ++ [f.lineEnd] ++ text) = f.readBack e ++ f.load text := by
  unfold readBack load
  rw [List.append_assoc, List.singleton_append, getlines_append, List.filterMap_append]

theorem reload_eq (entries : List ε) : f.reload entries = entries.flatMap f.readBack := by
  induction entries with
  | nil => rfl
  | cons e entries ih =>
      rw [List.flatMap_cons, ← ih, reload, save, List.flatMap_cons, load_append]
      rfl

theorem reload_append (entries entries' : List ε) :
    f.reload (entries ++ entries') = f.reload entries ++ f.reload entries' := by
  rw [reload_eq, reload_eq, reload_eq, List.flatMap_append]

theorem reload_cons (e : ε) (entries : List ε) :
    f.reload (e :: entries) = f.readBack e ++ f.reload entries := by
  rw [reload_eq, reload_eq, List.flatMap_cons]

theorem reload_subset {entries entries' : List ε} (hsub : entries ⊆ entries') :
    f.reload entries ⊆ f.reload entries' := by
  intro e he
  rw [reload_eq, List.mem_flatMap] at he ⊢
  obtain ⟨origin, horigin, he⟩ := he
  exact ⟨origin, hsub horigin, he⟩

theorem readBack_of_notMem {e : ε} (he : f.lineEnd ∉ f.text e) :
    f.readBack e = (f.parse (f.text e ++ [f.lineEnd])).toList := by
  rw [readBack, load, getlines_of_notMem he]
  cases hparse : f.parse (f.text e ++ [f.lineEnd]) <;> simp [hparse]

end Format

/-! ### Replacing an entry -/

variable (p : ε → Bool)

def replaceFirst (new : ε) : List ε → List ε
  | [] => []
  | e :: entries => if p e then new :: entries else e :: replaceFirst new entries

/-- The entries in front of the first one with `p`. -/
def front (entries : List ε) : List ε := entries.takeWhile fun e => !p e

theorem front_subset (entries : List ε) : front p entries ⊆ entries :=
  (List.takeWhile_prefix _).subset

theorem replaceFirst_eq (new : ε) {entries : List ε} (hsome : ∃ e ∈ entries, p e) :
    ∃ old back, p old ∧ entries = front p entries ++ old :: back ∧
      replaceFirst p new entries = front p entries ++ new :: back := by
  unfold front
  induction entries with
  | nil => simp at hsome
  | cons e entries ih =>
      by_cases he : p e
      · exact ⟨e, entries, he, by simp [he], by simp [replaceFirst, he]⟩
      · obtain ⟨e', hmem, he'⟩ := hsome
        have hrest : ∃ e ∈ entries, p e := by
          rcases List.mem_cons.mp hmem with rfl | hrest
          · exact absurd he' he
          · exact ⟨e', hrest, he'⟩
        obtain ⟨old, back, hold, hsplit, hreplaced⟩ := ih hrest
        refine ⟨old, back, hold, ?_, ?_⟩
        · rw [List.takeWhile_cons_of_pos (by simpa using he), List.cons_append, ← hsplit]
        · rw [replaceFirst, if_neg he, hreplaced, List.takeWhile_cons_of_pos (by simpa using he),
            List.cons_append]

/-! ### Entries without the property -/

def others (entries : List ε) : List ε := entries.filter fun e => !p e

variable {p}

theorem others_append (entries entries' : List ε) :
    others p (entries ++ entries') = others p entries ++ others p entries' :=
  List.filter_append ..

theorem others_eq_nil_iff {entries : List ε} : others p entries = [] ↔
    ∀ e ∈ entries, p e := by
  simp [others, List.filter_eq_nil_iff]

/-- Every entry without `p` is read back as itself, and those with `p` only as such. -/
def Format.Stays (f : Format ε β) (p : ε → Bool) (entries : List ε) : Prop :=
  ∀ e ∈ entries, if p e then ∀ e' ∈ f.readBack e, p e' else f.readBack e = [e]

instance [DecidableEq ε] (f : Format ε β) (p : ε → Bool) (entries : List ε) :
    Decidable (f.Stays p entries) :=
  inferInstanceAs (Decidable (∀ e ∈ entries, if p e then _ else _))

variable {f : Format ε β}

theorem Format.Stays.subset {entries entries' : List ε} (hstays : f.Stays p entries')
    (hsub : entries ⊆ entries') : f.Stays p entries :=
  fun e he => hstays e (hsub he)

theorem Format.Stays.others_reload {entries : List ε} (hstays : f.Stays p entries) :
    others p (f.reload entries) = others p entries := by
  induction entries with
  | nil => rfl
  | cons e entries ih =>
      have hrest := ih (hstays.subset (List.subset_cons_self e entries))
      have hfirst := hstays e List.mem_cons_self
      rw [f.reload_cons, others_append, hrest]
      by_cases he : p e
      · rw [if_pos he] at hfirst
        rw [others_eq_nil_iff.mpr hfirst, List.nil_append]
        exact (List.filter_cons_of_neg (by simpa using he)).symm
      · rw [if_neg he] at hfirst
        rw [hfirst]
        exact (others_append [e] entries).symm

/-- In a store that stays, the lines of the new entry are all that is new. -/
theorem Format.Stays.others_replaceFirst {entries : List ε} (hstays : f.Stays p entries) (new : ε)
    (hsome : ∃ e ∈ entries, p e) :
    ∃ before behind, others p entries = before ++ behind ∧
      others p (f.reload (replaceFirst p new entries)) =
        before ++ (others p (f.readBack new) ++ behind) := by
  obtain ⟨old, back, hold, hsplit, hreplaced⟩ := replaceFirst_eq p new hsome
  have hfront := (hstays.subset (front_subset p entries)).others_reload
  have hsub : back ⊆ entries := by
    intro e he
    rw [hsplit]
    exact List.mem_append_right _ (List.mem_cons_of_mem old he)
  have hback := (hstays.subset hsub).others_reload
  refine ⟨others p (front p entries), others p back, ?_, ?_⟩
  · conv_lhs => rw [hsplit]
    rw [others_append]
    exact congrArg _ (List.filter_cons_of_neg (by simpa using hold))
  · rw [hreplaced, f.reload_append, f.reload_cons, others_append, others_append, hfront, hback]

/-- **Frame.** In a store that stays, replacing an entry with `p` leaves the others as they are
exactly if the new entry is read back as entries with `p` only. -/
theorem Format.Stays.others_replaceFirst_iff {entries : List ε} (hstays : f.Stays p entries)
    (new : ε) (hsome : ∃ e ∈ entries, p e) :
    (others p (f.reload (replaceFirst p new entries))).Perm (others p entries) ↔
      ∀ e ∈ f.readBack new, p e := by
  obtain ⟨before, behind, hentries, hreplaced⟩ := hstays.others_replaceFirst new hsome
  rw [hentries, hreplaced, ← others_eq_nil_iff]
  constructor
  · intro hperm
    have hlength := hperm.length_eq
    simp only [List.length_append] at hlength
    exact List.length_eq_zero_iff.mp (by omega)
  · intro hnil
    rw [hnil, List.nil_append]

theorem Format.Stays.perm {entries entries' : List ε} (hstays : f.Stays p entries)
    (hperm : entries'.Perm entries) : f.Stays p entries' :=
  fun e he => hstays e (hperm.mem_iff.mp he)

theorem Format.reload_perm {entries entries' : List ε} (hperm : entries'.Perm entries) :
    (f.reload entries').Perm (f.reload entries) := by
  rw [reload_eq, reload_eq]
  exact hperm.flatMap_right _

theorem others_perm {entries entries' : List ε} (hperm : entries'.Perm entries) :
    (others p entries').Perm (others p entries) := hperm.filter _

/-! ### Entries with a key -/

section Keys

variable {κ : Type w} [DecidableEq κ] (key : ε → κ)

/-- The entry takes the place of the first one with its key. -/
def put (entries : List ε) (e : ε) : List ε :=
  entries.eraseP (fun x => key x = key e) ++ [e]

variable {key} {k : κ}

theorem filter_eraseP_of_disjoint {q r : ε → Bool} (hdisjoint : ∀ x, r x → ¬ q x)
    (entries : List ε) : (entries.eraseP r).filter q = entries.filter q := by
  induction entries with
  | nil => rfl
  | cons e entries ih =>
      by_cases hr : r e
      · rw [List.eraseP_cons_of_pos hr, List.filter_cons_of_neg (hdisjoint e hr)]
      · rw [List.eraseP_cons_of_neg hr, List.filter_cons, List.filter_cons, ih]

theorem filter_eraseP_of_subset {q r : ε → Bool} (hsub : ∀ x, r x → q x)
    (entries : List ε) :
    (entries.eraseP r).filter q = (entries.filter q).eraseP r := by
  induction entries with
  | nil => rfl
  | cons e entries ih =>
      by_cases hr : r e
      · rw [List.eraseP_cons_of_pos hr, List.filter_cons_of_pos (hsub e hr),
          List.eraseP_cons_of_pos hr]
      · rw [List.eraseP_cons_of_neg hr]
        by_cases hq : q e
        · rw [List.filter_cons_of_pos hq, List.filter_cons_of_pos hq, List.eraseP_cons_of_neg hr,
            ih]
        · rw [List.filter_cons_of_neg hq, List.filter_cons_of_neg hq, ih]

theorem filter_put_of_ne {e : ε} (hne : key e ≠ k) (entries : List ε) :
    (put key entries e).filter (fun x => key x = k) = entries.filter fun x => key x = k := by
  have hdisjoint : ∀ x, decide (key x = key e) = true → ¬ decide (key x = k) = true := by
    intro x hx hk
    exact hne ((of_decide_eq_true hx).symm.trans (of_decide_eq_true hk))
  rw [put, List.filter_append, filter_eraseP_of_disjoint hdisjoint,
    List.filter_cons_of_neg (by simpa using hne), List.filter_nil, List.append_nil]

theorem filter_put_self {e : ε} (he : key e = k) {entries : List ε}
    (hone : (entries.filter fun x => key x = k).length ≤ 1) :
    (put key entries e).filter (fun x => key x = k) = [e] := by
  have hself : ∀ x, decide (key x = key e) = true → decide (key x = k) = true := by
    intro x hx
    rw [← he]
    exact hx
  rw [put, List.filter_append, filter_eraseP_of_subset hself,
    List.filter_cons_of_pos (by simpa using he), List.filter_nil]
  cases hold : entries.filter fun x => decide (key x = k) with
  | nil => rfl
  | cons old rest =>
      rw [hold, List.length_cons] at hone
      have hnil : rest = [] := List.length_eq_zero_iff.mp (by omega)
      have hfirst : key old = k := by
        have hmem : old ∈ entries.filter fun x => decide (key x = k) := by
          rw [hold]
          exact List.mem_cons_self
        exact of_decide_eq_true (List.mem_filter.mp hmem).2
      rw [hnil, List.eraseP_cons_of_pos (by simpa [he] using hfirst), List.nil_append]

/-- Of the entries put in, the last one with a key is the one that stays. -/
theorem filter_foldl_put (es : List ε) {entries : List ε}
    (hone : (entries.filter fun x => key x = k).length ≤ 1) :
    (es.foldl (put key) entries).filter (fun x => key x = k) =
      match (es.filter fun x => key x = k).getLast? with
      | some e => [e]
      | none => entries.filter fun x => key x = k := by
  induction es using List.reverseRecOn with
  | nil => rfl
  | append_singleton es e ih =>
      rw [List.foldl_append, List.foldl_cons, List.foldl_nil, List.filter_append]
      by_cases he : key e = k
      · rw [List.filter_cons_of_pos (by simpa using he), List.filter_nil, List.getLast?_concat]
        apply filter_put_self he
        rw [ih]
        split
        · exact Nat.le_refl 1
        · exact hone
      · rw [filter_put_of_ne he, ih, List.filter_cons_of_neg (by simpa using he), List.filter_nil,
          List.append_nil]

theorem others_put (entries : List ε) (e : ε) :
    others (fun x => key x = k) (put key entries e) =
      if key e = k then others (fun x => key x = k) entries
      else put key (others (fun x => key x = k) entries) e := by
  unfold others put
  rw [List.filter_append]
  by_cases he : key e = k
  · have hdisjoint : ∀ x, decide (key x = key e) = true → ¬ (!decide (key x = k)) = true := by
      intro x hx
      simp [← he, of_decide_eq_true hx]
    rw [if_pos he, filter_eraseP_of_disjoint hdisjoint, List.filter_cons_of_neg (by simpa using he),
      List.filter_nil, List.append_nil]
  · have hsub : ∀ x, decide (key x = key e) = true → (!decide (key x = k)) = true := by
      intro x hx
      simpa [of_decide_eq_true hx] using he
    rw [if_neg he, filter_eraseP_of_subset hsub, List.filter_cons_of_pos (by simpa using he),
      List.filter_nil]

/-- What is put in beside a key depends on the entries beside it only. -/
theorem others_foldl_put_congr (es : List ε) {entries entries' : List ε}
    (hsame : others (fun x => key x = k) entries = others (fun x => key x = k) entries') :
    others (fun x => key x = k) (es.foldl (put key) entries) =
      others (fun x => key x = k) (es.foldl (put key) entries') := by
  induction es generalizing entries entries' with
  | nil => exact hsame
  | cons e es ih =>
      apply ih
      rw [others_put, others_put, hsame]

/-- Entries whose key is that of none put in stay as they are. -/
theorem others_foldl_put_of_keys {q : ε → Bool} (es : List ε)
    (hkeys : ∀ e ∈ es, ∀ x, key x = key e → q x) (entries : List ε) :
    others q (es.foldl (put key) entries) = others q entries := by
  induction es generalizing entries with
  | nil => rfl
  | cons e es ih =>
      have he := hkeys e List.mem_cons_self
      rw [List.foldl_cons, ih fun e' he' => hkeys e' (List.mem_cons_of_mem e he')]
      unfold others put
      rw [List.filter_append, filter_eraseP_of_disjoint fun x hx => by
          simp [he x (of_decide_eq_true hx)],
        List.filter_cons_of_neg (by simp [he e rfl]), List.filter_nil, List.append_nil]

end Keys

end LineFile

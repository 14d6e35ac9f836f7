import Dbus2vdr.Setup.Plain

/-!
# Reading a setting after it was set

A setting that is new is appended in memory, where `Get` finds it as it is unless it is one of VDR's
variables: `Save` then puts the variable in its place. One that is there goes through the file: it
has to be found in it, and the line that is written for it is what VDR reads back. Names and values
that VDR changes on the way, by compacting white space to begin with, are not what `Get` is asked
for any more, or not what it finds. When the name is not found in the file, nothing is stored, and
`Set` replies 900 all the same.
-/

namespace Dbus2vdr.Setup

open SetupLine (isLine)

variable {vdr : Vdr}

/-- When `Set` replies 900, `Get` replies 900 with this very value. -/
def ReadsWrites (vdr : Vdr) (s : Setup) (name value : Bytes) : Prop :=
  ∀ s' reply, s.set vdr name (.string value) = some (s', reply) → reply.code = 900 →
    (s'.get vdr name).map (fun r => (r.code, r.value)) = some (900, value)

/-- The value of the first line of that name. -/
def lookup (lines : List SetupLine) (name : Bytes) (plugin : Option Bytes) : Option Bytes :=
  (findSetupLine lines name plugin).map (·.value)

/-- The value of a setting gets where `Get` looks for it. -/
inductive Written (vdr : Vdr) (vars : List SetupLine) (s : Setup) (plugin : Option Bytes)
    (key value : Bytes) : Prop where
  /-- The name is neither in the store nor that of a variable. -/
  | appended (hnew : lookup s.lines key plugin = none) (hfree : ¬ Owns vars plugin key)
  /-- The name is found in the file, and what is written for it is read back under this name with
  this value. No line in front of it is taken for it when it is read for the second time. -/
  | replaced (hline : lookup s.lines key plugin ≠ none)
      (hfound : lookup (vdr.format.reload (vdr.save s.lines)) key plugin ≠ none)
      (hfront : lookup (vdr.format.reload (LineFile.front (isLine key plugin)
        (vdr.format.reload (vdr.save s.lines)))) key plugin = none)
      (hback : lookup (vdr.format.readBack ⟨plugin, key, value⟩) key plugin = some value)
  /-- The name is not found in the file, so that nothing is stored. -/
  | kept (hline : lookup s.lines key plugin ≠ none)
      (hlost : lookup (vdr.format.reload (vdr.save s.lines)) key plugin = none)
      (hold : lookup (vdr.save s.lines) key plugin = some value)

theorem lookup_append (lines lines' : List SetupLine) (key : Bytes) (plugin : Option Bytes) :
    lookup (lines ++ lines') key plugin =
      (lookup lines key plugin).or (lookup lines' key plugin) := by
  unfold lookup findSetupLine
  rw [List.find?_append]
  cases lines.find? (isLine key plugin) <;> rfl

theorem lookup_eq_none_iff {lines : List SetupLine} {key : Bytes} {plugin : Option Bytes} :
    lookup lines key plugin = none ↔ findSetupLine lines key plugin = none :=
  Option.map_eq_none_iff

theorem exists_of_lookup {lines : List SetupLine} {key value : Bytes} {plugin : Option Bytes}
    (hvalue : lookup lines key plugin = some value) : ∃ line ∈ lines, line.value = value := by
  obtain ⟨line, hline, rfl⟩ := Option.map_eq_some_iff.mp hvalue
  exact ⟨line, List.mem_of_find?_eq_some hline, rfl⟩

theorem lookup_self (plugin : Option Bytes) (key value : Bytes) :
    lookup [⟨plugin, key, value⟩] key plugin = some value := by
  cases plugin <;> simp [lookup, findSetupLine, isLine, strcaseeq_refl]

/-- What `Get` finds of a setting that was appended. -/
theorem lookup_appended {vars : List SetupLine} (hsave : vdr.Stores vars) {lines : List SetupLine}
    {key : Bytes} {plugin : Option Bytes} (value : Bytes) (hnew : lookup lines key plugin = none) :
    lookup (vdr.save (lines ++ [⟨plugin, key, value⟩])) key plugin =
      match (vars.filter (isLine key plugin)).getLast? with
      | some v => some v.value
      | none => some value := by
  have hone := filter_append_new value (filter_of_new (lookup_eq_none_iff.mp hnew))
  have hfew :
      ((lines ++ [SetupLine.mk plugin key value]).filter (isLine key plugin)).length ≤ 1 := by
    rw [hone]
    exact Nat.le_refl 1
  have hfilter := hsave.filter_save hfew
  unfold lookup findSetupLine
  rw [← List.head?_filter, hfilter, hone]
  cases (vars.filter (isLine key plugin)).getLast? <;> rfl

/-- What is found when the first line of that name is replaced and the store goes through the
file. -/
theorem lookup_replaced (vdr : Vdr) (tmp : List SetupLine) (plugin : Option Bytes)
    (key value : Bytes) (hfound : lookup tmp key plugin ≠ none) :
    ∃ back, back ⊆ tmp ∧
      lookup
        (vdr.format.reload
          (LineFile.replaceFirst (isLine key plugin) (SetupLine.mk plugin key value) tmp))
        key plugin =
      ((lookup (vdr.format.reload (LineFile.front (isLine key plugin) tmp)) key plugin).or
        (lookup (vdr.format.readBack ⟨plugin, key, value⟩) key plugin)).or
        (lookup (vdr.format.reload back) key plugin) := by
  have hsome : ∃ line ∈ tmp, isLine key plugin line := by
    rw [Ne, lookup_eq_none_iff, findSetupLine, List.find?_eq_none] at hfound
    simpa using hfound
  obtain ⟨old, back, hold, hsplit, hreplaced⟩ :=
    LineFile.replaceFirst_eq (isLine key plugin) (SetupLine.mk plugin key value) hsome
  refine ⟨back, ?_, ?_⟩
  · intro line hline
    rw [hsplit]
    exact List.mem_append_right _ (List.mem_cons_of_mem old hline)
  · rw [hreplaced, LineFile.Format.reload_append, LineFile.Format.reload_cons, lookup_append,
      lookup_append, Option.or_assoc]

/-- What `Get` finds after `Set` has stored the value. -/
theorem readsWrites_iff_lookup {s : Setup} {name value : Bytes} (hunbound : vdr.bound name = false)
    (hunloaded : ∀ plugin ∈ (splitName name).1, vdr.loaded plugin = false) :
    s.ReadsWrites vdr name value ↔
      lookup (s.store vdr (splitName name).1 (splitName name).2 value).lines (splitName name).2
        (splitName name).1 = some value := by
  unfold ReadsWrites lookup
  rw [set_eq hunbound hunloaded]
  constructor
  · intro hreads
    have hget := hreads _ _ rfl rfl
    rw [get_code_value _ hunbound] at hget
    cases hfind : findSetupLine (s.store vdr (splitName name).1 (splitName name).2 value).lines
        (splitName name).2 (splitName name).1 with
    | none => simp [hfind] at hget
    | some line =>
        rw [hfind] at hget
        simpa using hget
  · intro hvalue s' reply hsome _
    obtain ⟨rfl, rfl⟩ := Prod.mk.inj (Option.some.inj hsome)
    obtain ⟨line, hfind, rfl⟩ := Option.map_eq_some_iff.mp hvalue
    rw [get_code_value _ hunbound, hfind]
    rfl

/-- The line that was written answers, when neither the lines before it nor those behind it do. -/
theorem middle_of_or {before written behind : Option Bytes} {value : Bytes}
    (hbefore : before ≠ some value) (hbehind : behind ≠ some value)
    (hvalue : (before.or written).or behind = some value) :
    before = none ∧ written = some value := by
  cases before with
  | some found => exact absurd hvalue hbefore
  | none =>
      cases written with
      | some found => exact ⟨rfl, hvalue⟩
      | none => exact absurd hvalue hbehind

/-- **Read your writes.** What `Written` asks for is enough for every store, name and value; and it
is needed, unless a line of the store that is found instead, or a variable of VDR, happens to hold
the same value. -/
theorem reads_writes_of_written {vars : List SetupLine} (hsave : vdr.Stores vars) {s : Setup}
    {name value : Bytes} (hunbound : vdr.bound name = false)
    (hunloaded : ∀ plugin ∈ (splitName name).1, vdr.loaded plugin = false) :
    (Written vdr vars s (splitName name).1 (splitName name).2 value →
      s.ReadsWrites vdr name value) ∧
    ((∀ line ∈ vdr.format.reload (vdr.format.reload (vdr.save s.lines)),
      line.value ≠ value) →
      (∀ v ∈ vars, v.value ≠ value) → s.ReadsWrites vdr name value →
        Written vdr vars s (splitName name).1 (splitName name).2 value) := by
  rw [readsWrites_iff_lookup hunbound hunloaded]
  generalize (splitName name).1 = plugin
  generalize (splitName name).2 = key
  rcases s.store_cases vdr plugin key value with
    ⟨hnew, hstore⟩ | ⟨hline, hlost, hstore⟩ | ⟨hline, hfound, hstore⟩
  · have hnew' := lookup_eq_none_iff.mpr hnew
    rw [hstore, save, lookup_appended hsave value hnew']
    constructor
    · intro hwritten
      cases hwritten with
      | appended _ hfree => rw [not_owns_iff.mp hfree]
      | replaced hline => exact absurd hnew' hline
      | kept hline => exact absurd hnew' hline
    · intro _ hvars hvalue
      refine .appended hnew' (not_owns_iff.mpr ?_)
      cases hlast : (vars.filter (isLine key plugin)).getLast? with
      | none => rfl
      | some v =>
          rw [hlast] at hvalue
          have hv := List.mem_of_getLast? hlast
          exact absurd (Option.some.inj hvalue) (hvars v (List.mem_filter.mp hv).1)
  · rw [hstore]
    have hlost' := lookup_eq_none_iff.mpr hlost
    have hline' : lookup s.lines key plugin ≠ none := by
      rw [Ne, lookup_eq_none_iff, ← Ne, ← Option.isSome_iff_ne_none]
      exact hline
    constructor
    · intro hwritten
      cases hwritten with
      | appended hnew => exact absurd hnew hline'
      | replaced _ hfound => exact absurd hlost' hfound
      | kept _ _ hold => exact hold
    · intro _ _ hvalue
      exact .kept hline' hlost' hvalue
  · have hline' : lookup s.lines key plugin ≠ none := by
      rw [Ne, lookup_eq_none_iff, ← Ne, ← Option.isSome_iff_ne_none]
      exact hline
    have hfound' : lookup (vdr.format.reload (vdr.save s.lines)) key plugin ≠ none := by
      rw [Ne, lookup_eq_none_iff, ← Ne, ← Option.isSome_iff_ne_none]
      exact hfound
    obtain ⟨back, hback, hlookup⟩ :=
      lookup_replaced vdr (vdr.format.reload (vdr.save s.lines)) plugin key value hfound'
    rw [hstore, hlookup]
    constructor
    · intro hwritten
      cases hwritten with
      | appended hnew => exact absurd hnew hline'
      | replaced _ _ hfront hback => rw [hfront, hback, Option.none_or, Option.some_or]
      | kept _ hlost => exact absurd hlost hfound'
    · intro hfresh _ hvalue
      have hother : ∀ lines, lines ⊆ vdr.format.reload (vdr.save s.lines) →
          lookup (vdr.format.reload lines) key plugin ≠ some value := by
        intro lines hsub hfind
        obtain ⟨line, hmem, hsame⟩ := exists_of_lookup hfind
        exact hfresh line (vdr.format.reload_subset hsub hmem) hsame
      have hfront := hother _ (LineFile.front_subset (isLine key plugin) _)
      obtain ⟨hnone, hwritten⟩ := middle_of_or hfront (hother _ hback) hvalue
      exact .replaced hline' hfound' hnone hwritten

/-- Names and values that the file does not change, of a store with the variable in it. -/
theorem reads_writes_of_plain {s : Setup} {name value : Bytes}
    (hlines : ∀ line ∈ s.lines, line.Plain)
    (hline : SetupLine.Plain ⟨(splitName name).1, (splitName name).2, value⟩)
    (hfree : ¬ Owns [updateChannels] (splitName name).1 (splitName name).2) :
    s.ReadsWrites plainVdr name value := by
  apply (reads_writes_of_written plainVdr_stores rfl fun _ _ => rfl).1
  have hsaved := plain_save hlines
  have hreload := reload_of_plain hsaved
  have hfront := reload_of_plain fun line hmem =>
    hsaved line (LineFile.front_subset (isLine (splitName name).2 (splitName name).1) _ hmem)
  by_cases hnew : lookup s.lines (splitName name).2 (splitName name).1 = none
  · exact .appended hnew hfree
  · -- no variable has the name, so that `Save` keeps its line
    have hkept : lookup (plainVdr.save s.lines) (splitName name).2 (splitName name).1 ≠ none := by
      intro hlost
      rw [lookup_eq_none_iff, findSetupLine, List.find?_eq_none] at hnew hlost
      apply hnew
      intro old hold hsame
      refine hlost old ((plainVdr_stores s.lines).mem_iff.mpr (List.mem_append_left _ ?_)) hsame
      refine (List.mem_eraseP_of_neg fun hvar => hfree ⟨_, List.mem_singleton_self _, ?_⟩).mpr
        hold
      rw [SetupLine.isLine_iff] at hsame ⊢
      rw [← hsame]
      exact (of_decide_eq_true hvar).symm
    refine .replaced hnew ?_ ?_ ?_
    · rw [hreload]
      exact hkept
    · rw [hreload, hfront, lookup_eq_none_iff, findSetupLine, List.find?_eq_none]
      intro line hmem
      simpa using List.mem_takeWhile_imp hmem
    · rw [hline.readBack]
      exact lookup_self _ _ _

theorem reads_second_write :
    ReadsWrites plainVdr
    { lines := [⟨none, ascii "Foo", ascii "x"⟩, ⟨none, ascii "bar", []⟩] } (ascii "foo")
    (ascii "y z") :=
  (reads_writes_of_written plainVdr_stores rfl (by decide)).1
    (.replaced (by decide) (by decide) (by decide) (by decide))

/-- The second value of `foo` comes back with one blank for two. -/
theorem second_write_compacted :
    ¬ ∀ (es : List SetupEvent) (s : Setup), Machine.run (step plainVdr) {} es = some s →
      ∀ name value, ReadsWrites plainVdr s name value := by
  intro hall
  have hreads := hall [.set (ascii "foo") (.string (ascii "x"))] _ rfl (ascii "foo") (ascii "y  z")
    _ _ rfl rfl
  exact absurd hreads (by decide)

end Dbus2vdr.Setup

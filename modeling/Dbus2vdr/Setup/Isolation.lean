import Dbus2vdr.Setup.Plain

/-!
# Setting one name and no other

`Set` writes the name and the value into a text that VDR takes apart again. A name with an equals
sign in it, or a line end in the value, makes another setting of it. In a store whose other entries
survive the file, `isolated_iff` says that this is all that can go wrong.
-/

namespace Dbus2vdr.Setup

open SetupLine (isLine)
open LineFile (others)

variable {vdr : Vdr}

/-- A line of one of VDR's variables. -/
def Variable (vars : List SetupLine) (line : SetupLine) : Bool :=
  vars.any fun v => line.caseless = v.caseless

/-- Up to their order, `lines` has the entries of other names as `Setup.Save()` alone would leave
them: the variables of VDR with their values, and all others as they were. -/
def Unchanged (vdr : Vdr) (vars : List SetupLine) (s : Setup) (plugin : Option Bytes) (key : Bytes)
    (lines : List SetupLine) : Prop :=
  (others (isLine key plugin) lines).Perm (others (isLine key plugin) (vdr.save s.lines)) ∧
    (others (fun line => isLine key plugin line || Variable vars line) lines).Perm
      (others (fun line => isLine key plugin line || Variable vars line) s.lines)

/-- `Set` leaves the entries of other names as they are, in memory and in the file, and adds
none. -/
def Isolated (vdr : Vdr) (vars : List SetupLine) (s : Setup) (name value : Bytes) : Prop :=
  ∀ s' reply, s.set vdr name (.string value) = some (s', reply) →
    Unchanged vdr vars s (splitName name).1 (splitName name).2 s'.lines ∧
      Unchanged vdr vars s (splitName name).1 (splitName name).2 (vdr.format.load s'.file)

/-- The entries of other names survive the file, and those of this name become no other. -/
def Survives (vdr : Vdr) (s : Setup) (plugin : Option Bytes) (key : Bytes) : Prop :=
  vdr.format.Stays (isLine key plugin) (vdr.save s.lines) ∧
    vdr.format.Stays (isLine key plugin) (vdr.format.reload (vdr.save s.lines))

/-- The line that is written for the setting is read back under its name only, or it is not written:
the name is in memory and not in the file, or it is not in memory and that of a variable. -/
def OwnLine (vdr : Vdr) (vars : List SetupLine) (s : Setup) (plugin : Option Bytes)
    (key value : Bytes) : Prop :=
  (∀ line ∈ vdr.format.readBack ⟨plugin, key, value⟩, isLine key plugin line) ∨
    ((findSetupLine s.lines key plugin).isSome ∧
      findSetupLine (vdr.format.reload (vdr.save s.lines)) key plugin = none) ∨
    (findSetupLine s.lines key plugin = none ∧ Owns vars plugin key)

section Store

variable {vars : List SetupLine} {s : Setup} {plugin : Option Bytes} {key value : Bytes}

/-- `Save` touches the lines of variables only. -/
theorem unchanged_iff (hsave : vdr.Stores vars) {lines : List SetupLine} :
    Unchanged vdr vars s plugin key lines ↔
      (others (isLine key plugin) lines).Perm (others (isLine key plugin) (vdr.save s.lines)) := by
  refine and_iff_left_of_imp fun hperm => ?_
  have hsplit (entries : List SetupLine) :
      others (fun line => isLine key plugin line || Variable vars line) entries =
        (others (isLine key plugin) entries).filter fun line => !Variable vars line := by
    unfold others
    rw [List.filter_filter]
    refine List.filter_congr fun line _ => ?_
    rw [Bool.not_or, Bool.and_comm]
  have hkept := hsave.others_save s.lines
    (q := fun line => isLine key plugin line || Variable vars line) fun v hv x hx => by
      have hvariable : Variable vars x := List.any_eq_true.mpr ⟨v, hv, decide_eq_true hx⟩
      simp [hvariable]
  refine List.Perm.trans ?_ hkept
  rw [hsplit, hsplit]
  exact hperm.filter _

/-- What the file has of other names when a line of this name is appended. -/
theorem appended_iff (hsave : vdr.Stores vars) (hsurvives : Survives vdr s plugin key)
    (hnew : findSetupLine s.lines key plugin = none) :
    (others (isLine key plugin) (vdr.format.reload
      (vdr.save (s.lines ++ [⟨plugin, key, value⟩])))).Perm
        (others (isLine key plugin) (vdr.save s.lines)) ↔
        OwnLine vdr vars s plugin key value := by
  have hstays := hsurvives.1
  have hnone := filter_of_new hnew
  have hone := filter_append_new value hnone
  have hsub : others (isLine key plugin) (vdr.save s.lines) ⊆ vdr.save s.lines :=
    List.filter_sublist.subset
  have hothers := (hstays.subset hsub).others_reload
  have hidem : others (isLine key plugin) (others (isLine key plugin) (vdr.save s.lines)) =
      others (isLine key plugin) (vdr.save s.lines) :=
    List.filter_eq_self.mpr fun line hline => (List.mem_filter.mp hline).2
  rw [hidem] at hothers
  -- the lines of this name on one side, all others on the other
  have hlines := (List.filter_append_perm (isLine key plugin)
    (vdr.save (s.lines ++ [SetupLine.mk plugin key value]))).symm.trans
      ((hsave.others_save_append s.lines value).append_left _)
  have hreload := LineFile.others_perm (p := isLine key plugin)
    (LineFile.Format.reload_perm (f := vdr.format) hlines)
  rw [LineFile.Format.reload_append, LineFile.others_append, hothers] at hreload
  have hnil : (others (isLine key plugin) (vdr.format.reload
      (vdr.save (s.lines ++ [⟨plugin, key, value⟩])))).Perm
        (others (isLine key plugin) (vdr.save s.lines)) ↔
      others (isLine key plugin) (vdr.format.reload ((vdr.save
        (s.lines ++ [⟨plugin, key, value⟩])).filter (isLine key plugin))) = [] := by
    constructor
    · intro hperm
      have hlength := (hreload.symm.trans hperm).length_eq
      rw [List.length_append] at hlength
      exact List.length_eq_zero_iff.mp (by omega)
    · intro hempty
      rwa [hempty, List.nil_append] at hreload
  rw [hnil, hsave.filter_save (by rw [hone]; exact Nat.le_refl 1), hone]
  cases hlast : (vars.filter (isLine key plugin)).getLast? with
  | none =>
      have hfree := not_owns_iff.mpr hlast
      rw [LineFile.Format.reload_eq, List.flatMap_singleton, LineFile.others_eq_nil_iff]
      refine ⟨.inl, fun hown => hown.resolve_right ?_⟩
      rintro (⟨hsome, -⟩ | ⟨-, howns⟩)
      · rw [hnew] at hsome
        cases hsome
      · exact hfree howns
  | some v =>
      have hv := List.mem_filter.mp (List.mem_of_getLast? hlast)
      have hstored : v ∈ vdr.save s.lines := by
        have hone : (s.lines.filter (isLine key plugin)).length ≤ 1 := by
          rw [hnone]
          exact Nat.zero_le 1
        have hfilter := hsave.filter_save hone
        rw [hlast] at hfilter
        have hmem : v ∈ (vdr.save s.lines).filter (isLine key plugin) := by
          rw [hfilter]
          exact List.mem_singleton_self v
        exact (List.mem_filter.mp hmem).1
      have hback := hstays v hstored
      rw [if_pos hv.2] at hback
      refine iff_of_true ?_ (.inr (.inr ⟨hnew, v, hv.1, hv.2⟩))
      rw [LineFile.Format.reload_eq, List.flatMap_singleton, LineFile.others_eq_nil_iff]
      exact hback

theorem store_isolated_iff (hsave : vdr.Stores vars) (hsurvives : Survives vdr s plugin key) :
    (Unchanged vdr vars s plugin key (s.store vdr plugin key value).lines ∧
      Unchanged vdr vars s plugin key (vdr.format.load (s.store vdr plugin key value).file)) ↔
        OwnLine vdr vars s plugin key value := by
  rw [unchanged_iff hsave, unchanged_iff hsave]
  have hreload := hsurvives.1.others_reload
  rcases s.store_cases vdr plugin key value with
    ⟨hnew, hstore⟩ | ⟨hline, hlost, hstore⟩ | ⟨hline, hfound, hstore⟩
  · rw [hstore, save]
    exact (and_iff_right (hsave.others_save_append s.lines value)).trans
      (appended_iff hsave hsurvives hnew)
  · rw [hstore, save]
    refine iff_of_true ⟨List.Perm.refl _, ?_⟩ (.inr (.inl ⟨hline, hlost⟩))
    change (others _ (vdr.format.reload (vdr.save s.lines))).Perm _
    rw [hreload]
  · have hsome : ∃ line ∈ vdr.format.reload (vdr.save s.lines), isLine key plugin line := by
      rw [findSetupLine, List.find?_isSome] at hfound
      exact hfound
    have hframe := hsurvives.2.others_replaceFirst_iff ⟨plugin, key, value⟩ hsome
    rw [hreload] at hframe
    rw [hstore]
    change (_ ∧ (others _ (vdr.format.reload _)).Perm _) ↔ _
    rw [and_self, hframe]
    refine ⟨.inl, fun hown => hown.resolve_right ?_⟩
    rintro (⟨-, hlost⟩ | ⟨hnew, -⟩)
    · rw [hlost] at hfound
      cases hfound
    · rw [hnew] at hline
      cases hline

end Store

/-- **Isolation.** In a store whose other entries survive the file, `Set` leaves them as they are
and adds no other, exactly if the line of the setting is read back under its own name only or is not
written. -/
theorem isolated_iff {vars : List SetupLine} (hsave : vdr.Stores vars) {s : Setup}
    {name value : Bytes} (hunbound : vdr.bound name = false)
    (hunloaded : ∀ plugin ∈ (splitName name).1, vdr.loaded plugin = false)
    (hsurvives : Survives vdr s (splitName name).1 (splitName name).2) :
    s.Isolated vdr vars name value ↔
      OwnLine vdr vars s (splitName name).1 (splitName name).2 value := by
  rw [← store_isolated_iff hsave hsurvives]
  unfold Isolated
  rw [set_eq hunbound hunloaded]
  constructor
  · intro hisolated
    exact hisolated _ _ rfl
  · intro hstored s' reply hsome
    obtain ⟨rfl, rfl⟩ := Prod.mk.inj (Option.some.inj hsome)
    exact hstored

instance (s : Setup) (plugin : Option Bytes) (key : Bytes) :
    Decidable (Survives vdr s plugin key) :=
  inferInstanceAs (Decidable (_ ∧ _))

instance (vars : List SetupLine) (s : Setup) (plugin : Option Bytes) (key value : Bytes) :
    Decidable (OwnLine vdr vars s plugin key value) :=
  inferInstanceAs (Decidable (_ ∨ _))

/-- In a plain store this is a matter of the new line alone. -/
theorem survives_of_plain {s : Setup} {plugin : Option Bytes} {key : Bytes}
    (hlines : ∀ line ∈ s.lines, line.Plain) : Survives plainVdr s plugin key := by
  have hsaved := plain_save hlines
  have hstays : plainVdr.format.Stays (isLine key plugin) (plainVdr.save s.lines) := by
    intro line hline
    rw [(hsaved line hline).readBack]
    split_ifs with hown
    · simpa using hown
    · rfl
  refine ⟨hstays, ?_⟩
  rw [reload_of_plain hsaved]
  exact hstays

theorem isolated_of_plain_value :
    Isolated plainVdr [updateChannels]
      { lines := [⟨none, ascii "foo", ascii "x"⟩,
        ⟨some (ascii "osd"), ascii "bar", ascii "y"⟩] }
      (ascii "Foo") (ascii "a = b") :=
  (isolated_iff plainVdr_stores rfl (by decide) (by decide)).mpr (by decide)

/-- What is set for `a=b` is found as the value of `a`. -/
theorem other_name_set :
    ¬ ∀ (es : List SetupEvent) (s : Setup), Machine.run (step plainVdr) {} es = some s →
      ∀ name value, Isolated plainVdr [updateChannels] s name value := by
  intro hall
  have hisolated := hall [] {} rfl (ascii "a=b") (ascii "c") _ _ rfl
  have hmore := hisolated.2.2.length_eq
  exact absurd hmore (by decide)

end Dbus2vdr.Setup

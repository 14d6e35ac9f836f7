import Dbus2vdr.CString

/-!
# Extra video directories

The patch for VDR takes the directory of a file name from its first bytes, and `cRecording` then
cuts off one byte more than the directory has. `onBoundaries_iff` says for which names this byte is
a slash.
-/

namespace Dbus2vdr.VideoDirectories

def slash : UInt8 := 47

/-- With `Wait`, which is the default, the mutex is waited for. -/
def lockExtraVideoDirectories (isLocked wait : Bool) : Bool := !(!wait && isLocked)

def addExtraVideoDirectory (dirs : List Bytes) : Option Bytes → List Bytes
  | none => dirs
  | some directory => if directory ∈ dirs then dirs else dirs ++ [directory]

def delExtraVideoDirectory (dirs : List Bytes) : Option Bytes → List Bytes
  | none => dirs
  | some directory => dirs.erase directory

/-- The comparison of a file name with a directory, which is the same for all of them. -/
def Matches (fileName dir : Bytes) : Prop :=
  dir.length < fileName.length ∧ startswith fileName dir

instance (fileName dir : Bytes) : Decidable (Matches fileName dir) :=
  inferInstanceAs (Decidable (_ ∧ _))

def findLoop (fileName : Bytes) : List Bytes → Option Bytes
  | [] => none
  | dir :: dirs => if Matches fileName dir then some dir else findLoop fileName dirs

def findMatchingExtraVideoDirectory (videoDirectory : Bytes) (dirs : List Bytes) (isLocked : Bool) :
    Option Bytes → Option Bytes
  | none => none
  | some fileName =>
      if Matches fileName videoDirectory then none
      else if lockExtraVideoDirectories isLocked true = false then none
      else findLoop fileName dirs

/-- What the constructor of `cRecording` makes of a file name; `FileName` ends up at `offset`. -/
structure Recording where
  videoDir : Bytes
  fileName : Bytes
  offset : Nat

/-- The name without a slash at its end. -/
def trim (fileName : Bytes) : Bytes :=
  if fileName.getLast? = some slash then fileName.dropLast else fileName

def cRecording (videoDirectory : Bytes) (dirs : List Bytes) (isLocked : Bool) (fileName : Bytes)
    (videoDir : Option Bytes) : Recording :=
  let videoDir := match videoDir with
    | none =>
        match findMatchingExtraVideoDirectory videoDirectory dirs isLocked (some fileName) with
        | none => videoDirectory
        | some extraVideoDir => extraVideoDir
    | some videoDir => videoDir
  { videoDir
    fileName := trim fileName
    offset := if startswith (trim fileName) videoDir then videoDir.length + 1 else 0 }

section List

variable {dirs : List Bytes} (videoDirectory fileName : Bytes) (isLocked : Bool)

theorem findLoop_eq_find? (dirs : List Bytes) :
    findLoop fileName dirs = dirs.find? fun dir => Matches fileName dir := by
  induction dirs with
  | nil => rfl
  | cons dir dirs ih =>
      rw [findLoop, List.find?_cons, ih]
      by_cases hmatches : Matches fileName dir <;> simp [hmatches]

theorem find_of_matches (h : Matches fileName videoDirectory) :
    findMatchingExtraVideoDirectory videoDirectory dirs isLocked (some fileName) = none := if_pos h

theorem find_of_not_matches (h : ¬ Matches fileName videoDirectory) :
    findMatchingExtraVideoDirectory videoDirectory dirs isLocked (some fileName) =
      dirs.find? fun dir => Matches fileName dir := by
  rw [findMatchingExtraVideoDirectory, if_neg h, findLoop_eq_find?]
  rfl

theorem nodup_add (hdirs : dirs.Nodup) (directory : Option Bytes) :
    (addExtraVideoDirectory dirs directory).Nodup := by
  cases directory with
  | none => exact hdirs
  | some directory =>
      rw [addExtraVideoDirectory]
      by_cases hold : directory ∈ dirs
      · rwa [if_pos hold]
      · rw [if_neg hold]
        exact List.nodup_append_comm.mp (List.nodup_cons.mpr ⟨hold, hdirs⟩)

theorem nodup_del (hdirs : dirs.Nodup) (directory : Option Bytes) :
    (delExtraVideoDirectory dirs directory).Nodup := by
  cases directory with
  | none => exact hdirs
  | some directory => exact hdirs.erase directory

theorem find_add (directory : Bytes) :
    findMatchingExtraVideoDirectory videoDirectory (addExtraVideoDirectory dirs (some directory))
        isLocked (some fileName) =
      (findMatchingExtraVideoDirectory videoDirectory dirs isLocked (some fileName)).or
        (findMatchingExtraVideoDirectory videoDirectory [directory] isLocked (some fileName)) := by
  by_cases hmain : Matches fileName videoDirectory
  · rw [find_of_matches _ _ _ hmain, find_of_matches _ _ _ hmain, find_of_matches _ _ _ hmain]
    rfl
  · rw [find_of_not_matches _ _ _ hmain, find_of_not_matches _ _ _ hmain,
      find_of_not_matches _ _ _ hmain, ← List.find?_append, addExtraVideoDirectory]
    by_cases hold : directory ∈ dirs
    · rw [if_pos hold, List.find?_append]
      cases hfind : dirs.find? fun dir => Matches fileName dir with
      | some dir => rfl
      | none =>
          have hnot := List.find?_eq_none.mp hfind directory hold
          simp only [List.find?_cons, Bool.not_eq_true] at hnot ⊢
          rw [hnot]
          rfl
    · rw [if_neg hold]

theorem find_del (hdirs : dirs.Nodup) (directory : Bytes) :
    findMatchingExtraVideoDirectory videoDirectory (delExtraVideoDirectory dirs (some directory))
      isLocked (some fileName) ≠ some directory := by
  intro hfind
  by_cases hmain : Matches fileName videoDirectory
  · rw [find_of_matches _ _ _ hmain] at hfind
    cases hfind
  · rw [find_of_not_matches _ _ _ hmain] at hfind
    exact hdirs.not_mem_erase (List.mem_of_find?_eq_some hfind)

end List

/-! ### Boundaries -/

def Under (fileName dir : Bytes) : Prop := ∃ rest, fileName = dir ++ slash :: rest

section Under

variable {fileName dir : Bytes}

theorem Under.matches (h : Under fileName dir) : Matches fileName dir := by
  obtain ⟨rest, rfl⟩ := h
  exact ⟨by simp, startswith_iff.mpr (List.prefix_append _ _)⟩

theorem under_iff_take : Under fileName dir ↔
    fileName.take (dir.length + 1) = dir ++ [slash] := by
  constructor
  · rintro ⟨rest, rfl⟩
    rw [List.append_cons]
    exact List.take_left' (by simp)
  · intro htake
    refine ⟨fileName.drop (dir.length + 1), ?_⟩
    calc fileName = fileName.take (dir.length + 1) ++ fileName.drop (dir.length + 1) :=
          (List.take_append_drop _ _).symm
      _ = dir ++ slash :: fileName.drop (dir.length + 1) := by rw [htake, List.append_assoc]; rfl

theorem isPrefix_of_trim (fileName : Bytes) : trim fileName <+: fileName := by
  unfold trim
  split
  · exact List.dropLast_prefix fileName
  · exact List.prefix_rfl

theorem Matches.prefix_trim (h : Matches fileName dir) : dir <+: trim fileName := by
  have hdir : dir <+: fileName := startswith_iff.mp h.2
  refine List.prefix_of_prefix_length_le hdir (isPrefix_of_trim fileName) ?_
  have hlt := h.1
  unfold trim
  split
  · rw [List.length_dropLast]
    omega
  · exact hlt.le

theorem eq_of_prefix_trim (hnot : ¬ Matches fileName dir) (hdir : dir <+: trim fileName) :
    fileName = dir ∧ fileName.getLast? ≠ some slash := by
  have hprefix := hdir.trans (isPrefix_of_trim fileName)
  have hle : fileName.length ≤ dir.length :=
    Nat.le_of_not_lt fun hlt => hnot ⟨hlt, startswith_iff.mpr hprefix⟩
  have heq : dir = fileName := hprefix.eq_of_length_le hle
  refine ⟨heq.symm, fun hlast => ?_⟩
  have hsome : fileName ≠ [] := by
    rintro rfl
    cases hlast
  have hshort := hdir.length_le
  rw [trim, if_pos hlast, List.length_dropLast] at hshort
  have hpos := List.length_pos_iff.mpr hsome
  omega

end Under

/-- The law of the patch, for the name of a recording without a given directory. -/
structure OnBoundaries (videoDirectory : Bytes) (dirs : List Bytes) (isLocked : Bool)
    (fileName : Bytes) : Prop where
  main : Under fileName videoDirectory →
    findMatchingExtraVideoDirectory videoDirectory dirs isLocked (some fileName) = none
  extra : ¬ Under fileName videoDirectory → (∃ dir ∈ dirs, Under fileName dir) →
    ∃ dir ∈ dirs, Under fileName dir ∧
      findMatchingExtraVideoDirectory videoDirectory dirs isLocked (some fileName) = some dir
  neither : ¬ Under fileName videoDirectory → (∀ dir ∈ dirs, ¬ Under fileName dir) →
    findMatchingExtraVideoDirectory videoDirectory dirs isLocked (some fileName) = none
  cut : (cRecording videoDirectory dirs isLocked fileName none).offset ≠ 0 →
    fileName.take (cRecording videoDirectory dirs isLocked fileName none).offset =
      (cRecording videoDirectory dirs isLocked fileName none).videoDir ++ [slash]
  isCut : (Under fileName videoDirectory ∨ ∃ dir ∈ dirs, Under fileName dir) →
    (cRecording videoDirectory dirs isLocked fileName none).offset ≠ 0

/-- The name goes on with a slash behind the directory that it matches first. -/
structure Separated (videoDirectory : Bytes) (dirs : List Bytes) (fileName : Bytes) : Prop where
  main : Matches fileName videoDirectory → Under fileName videoDirectory
  first : ¬ Matches fileName videoDirectory →
    ∀ before dir behind, dirs = before ++ dir :: behind →
      (∀ other ∈ before, ¬ Matches fileName other) → Matches fileName dir →
      Under fileName dir
  /-- A name that matches none of them is not the main directory itself. -/
  neither : ¬ Matches fileName videoDirectory → (∀ dir ∈ dirs, ¬ Matches fileName dir) →
    fileName = videoDirectory → fileName.getLast? = some slash

section Recording

variable {videoDirectory fileName : Bytes} {dirs : List Bytes} {isLocked : Bool}

theorem videoDir_eq : (cRecording videoDirectory dirs isLocked fileName none).videoDir =
    (findMatchingExtraVideoDirectory videoDirectory dirs isLocked (some fileName)).getD
      videoDirectory := by
  unfold cRecording
  cases findMatchingExtraVideoDirectory videoDirectory dirs isLocked (some fileName) <;> rfl

theorem offset_eq {dir : Bytes}
    (hdir : (cRecording videoDirectory dirs isLocked fileName none).videoDir = dir) :
    (cRecording videoDirectory dirs isLocked fileName none).offset =
      if startswith (trim fileName) dir then dir.length + 1 else 0 := by
  subst hdir
  rfl

theorem cut_iff {dir : Bytes}
    (hdir : (cRecording videoDirectory dirs isLocked fileName none).videoDir = dir) :
    ((cRecording videoDirectory dirs isLocked fileName none).offset ≠ 0 →
      fileName.take (cRecording videoDirectory dirs isLocked fileName none).offset =
        (cRecording videoDirectory dirs isLocked fileName none).videoDir ++ [slash]) ↔
      (dir <+: trim fileName → Under fileName dir) := by
  rw [offset_eq hdir, hdir, under_iff_take]
  by_cases hstarts : startswith (trim fileName) dir
  · simp [hstarts, startswith_iff.mp hstarts]
  · simp [hstarts, mt startswith_iff.mpr hstarts]

theorem offset_ne_zero {dir : Bytes}
    (hdir : (cRecording videoDirectory dirs isLocked fileName none).videoDir = dir)
    (hmatches : Matches fileName dir) :
    (cRecording videoDirectory dirs isLocked fileName none).offset ≠ 0 := by
  rw [offset_eq hdir, if_pos (startswith_iff.mpr hmatches.prefix_trim)]
  exact Nat.succ_ne_zero _

theorem OnBoundaries.separated (h : OnBoundaries videoDirectory dirs isLocked fileName) :
    Separated videoDirectory dirs fileName where
  main := by
    intro hmain
    have hdir :
        (cRecording videoDirectory dirs isLocked fileName none).videoDir = videoDirectory := by
      rw [videoDir_eq, find_of_matches _ _ _ hmain]
      rfl
    exact (cut_iff hdir).mp h.cut hmain.prefix_trim
  first := by
    intro hmain before dir behind hdirs hbefore hmatches
    have hfind : (dirs.find? fun dir => Matches fileName dir) = some dir :=
      List.find?_eq_some_iff_append.mpr ⟨decide_eq_true hmatches, before, behind, hdirs,
        fun other hother => by simp [hbefore other hother]⟩
    have hdir : (cRecording videoDirectory dirs isLocked fileName none).videoDir = dir := by
      rw [videoDir_eq, find_of_not_matches _ _ _ hmain, hfind]
      rfl
    exact (cut_iff hdir).mp h.cut hmatches.prefix_trim
  neither := by
    intro hmain hnone heq
    have hdir :
        (cRecording videoDirectory dirs isLocked fileName none).videoDir = videoDirectory := by
      rw [videoDir_eq, find_of_not_matches _ _ _ hmain,
        List.find?_eq_none.mpr fun dir hmem => by simp [hnone dir hmem]]
      rfl
    by_contra hlast
    have htrim : trim fileName = fileName := if_neg hlast
    exact hmain ((cut_iff hdir).mp h.cut (by rw [htrim, heq])).matches

/-- The search ends at a directory above the name, or there is none that it matches. -/
theorem Separated.find_cases (h : Separated videoDirectory dirs fileName) (isLocked : Bool)
    (hmain : ¬ Matches fileName videoDirectory) :
    (∃ dir ∈ dirs, Under fileName dir ∧
      findMatchingExtraVideoDirectory videoDirectory dirs isLocked (some fileName) = some dir) ∨
    ((∀ dir ∈ dirs, ¬ Matches fileName dir) ∧
      findMatchingExtraVideoDirectory videoDirectory dirs isLocked (some fileName) = none) := by
  rw [find_of_not_matches _ _ _ hmain]
  cases hfind : dirs.find? fun dir => Matches fileName dir with
  | none =>
      exact Or.inr ⟨fun dir hmem => by simpa using List.find?_eq_none.mp hfind dir hmem, rfl⟩
  | some dir =>
      obtain ⟨hmatches, before, behind, hdirs, hbefore⟩ :=
        List.find?_eq_some_iff_append.mp hfind
      have hunder : Under fileName dir := h.first hmain before dir behind hdirs
        (fun other hother => by simpa using hbefore other hother) (of_decide_eq_true hmatches)
      exact Or.inl ⟨dir, List.mem_of_find?_eq_some hfind, hunder, rfl⟩

theorem Separated.not_matches (h : Separated videoDirectory dirs fileName)
    (hmain : ¬ Under fileName videoDirectory) : ¬ Matches fileName videoDirectory :=
  fun hmatches => hmain (h.main hmatches)

theorem Separated.onBoundaries (h : Separated videoDirectory dirs fileName) :
    OnBoundaries videoDirectory dirs isLocked fileName where
  main := fun hunder => find_of_matches _ _ _ hunder.matches
  extra := by
    rintro hmain ⟨dir, hmem, hunder⟩
    rcases h.find_cases isLocked (h.not_matches hmain) with hfound | ⟨hnone, -⟩
    · exact hfound
    · exact absurd hunder.matches (hnone dir hmem)
  neither := by
    intro hmain hdirs
    rcases h.find_cases isLocked (h.not_matches hmain)
      with ⟨dir, hmem, hunder, -⟩ | ⟨-, hfind⟩
    · exact absurd hunder (hdirs dir hmem)
    · exact hfind
  cut := by
    refine (cut_iff videoDir_eq).mpr fun hprefix => ?_
    by_cases hmain : Matches fileName videoDirectory
    · rw [find_of_matches _ _ _ hmain]
      exact h.main hmain
    · rcases h.find_cases isLocked hmain with ⟨dir, -, hunder, hfind⟩ | ⟨hnone, hfind⟩
      · rw [hfind]
        exact hunder
      · rw [hfind] at hprefix
        obtain ⟨heq, hlast⟩ := eq_of_prefix_trim hmain hprefix
        exact absurd (h.neither hmain hnone heq) hlast
  isCut := by
    intro hunder
    refine offset_ne_zero videoDir_eq ?_
    by_cases hmain : Matches fileName videoDirectory
    · rw [find_of_matches _ _ _ hmain]
      exact hmain
    · obtain ⟨dir, hmem, hdir⟩ := hunder.resolve_left fun hunder => hmain hunder.matches
      rcases h.find_cases isLocked hmain with ⟨first, -, hfirst, hfind⟩ | ⟨hnone, -⟩
      · rw [hfind]
        exact hfirst.matches
      · exact absurd hdir.matches (hnone dir hmem)

end Recording

/-- **Boundaries.** The law holds for a name exactly when the byte behind the directory it matches
first is a slash. -/
theorem onBoundaries_iff (videoDirectory : Bytes) (dirs : List Bytes) (isLocked : Bool)
    (fileName : Bytes) : OnBoundaries videoDirectory dirs isLocked fileName ↔
      Separated videoDirectory dirs fileName :=
  ⟨fun h => h.separated, fun h => h.onBoundaries⟩

/-- `/video2/r` is not found under `/video2` when the main directory is `/video`. -/
theorem not_forall_onBoundaries :
    ¬ ∀ (videoDirectory : Bytes) (dirs : List Bytes) (isLocked : Bool) (fileName : Bytes),
      (∀ dir ∈ dirs, dir.getLast? ≠ some slash) → fileName.head? = some slash →
        OnBoundaries videoDirectory dirs isLocked fileName := by
  intro h
  have hlaw :=
    h (ascii "/video") [ascii "/video2"] false (ascii "/video2/r") (by decide) (by decide)
  have hunder : Under (ascii "/video2/r") (ascii "/video2") := ⟨ascii "r", by decide⟩
  obtain ⟨dir, -, -, hfind⟩ :=
    hlaw.extra (by rw [under_iff_take]; decide) ⟨_, by simp, hunder⟩
  rw [find_of_matches _ _ _ (by decide)] at hfind
  cases hfind

end Dbus2vdr.VideoDirectories

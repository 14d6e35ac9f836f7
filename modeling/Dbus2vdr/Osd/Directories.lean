import Dbus2vdr.CString
import Dbus2vdr.Lib.Directory

/-!
# Making and removing directories

`MakeDirs` cuts its string at one slash after the other and makes what is not a directory yet;
`RemoveFileOrDir` removes a directory with what is directly in it. There are no symbolic links.
-/

namespace Dbus2vdr.Directories

open Directory

def slash : UInt8 := 47

/-- A name that a directory may have an entry for. -/
def Proper (n : Bytes) : Prop := n ≠ [] ∧ n ≠ ascii "." ∧ n ≠ ascii ".." ∧ slash ∉ n

instance : DecidablePred Proper := fun _ => inferInstanceAs (Decidable (_ ∧ _))

theorem proper_of_length {n : Bytes} (hlength : 3 ≤ n.length) (hslash : slash ∉ n) :
    Proper n := by
  refine ⟨List.ne_nil_of_length_pos (by omega), ?_, ?_, hslash⟩
  · rintro rfl
    exact absurd hlength (by decide)
  · rintro rfl
    exact absurd hlength (by decide)

structure Name where
  bytes : Bytes
  proper : Proper bytes
  deriving DecidableEq, Repr

def component (n : Bytes) : Segment Name :=
  if h : Proper n then .name ⟨n, h⟩ else if n = ascii ".." then .up else .here

/-- The first component begins with `cur`. -/
def componentsFrom (cur : Bytes) : Bytes → List (Segment Name)
  | [] => [component cur]
  | c :: s =>
      if c = slash then component cur :: componentsFrom [] s else componentsFrom (cur ++ [c]) s

def components (s : Bytes) : List (Segment Name) := componentsFrom [] s

/-! ### Components -/

theorem componentsFrom_append_slash (cur x y : Bytes) :
    componentsFrom cur (x ++ slash :: y) = componentsFrom cur x ++ components y := by
  induction x generalizing cur with
  | nil => simp [componentsFrom, components]
  | cons c x ih =>
      rw [List.cons_append, componentsFrom, componentsFrom]
      split_ifs
      · rw [ih, List.cons_append]
      · exact ih _

theorem components_append_slash (x y : Bytes) :
    components (x ++ slash :: y) = components x ++ components y :=
  componentsFrom_append_slash [] x y

theorem componentsFrom_of_notMem (cur : Bytes) {x : Bytes} (hx : slash ∉ x) :
    componentsFrom cur x = [component (cur ++ x)] := by
  induction x generalizing cur with
  | nil => rw [componentsFrom, List.append_nil]
  | cons c x ih =>
      obtain ⟨hc, hx⟩ := not_or.mp (mt List.mem_cons.mpr hx)
      rw [componentsFrom, if_neg (Ne.symm hc), ih _ hx, List.append_assoc, List.singleton_append]

theorem componentsFrom_ne_nil (cur x : Bytes) : componentsFrom cur x ≠ [] := by
  induction x generalizing cur with
  | nil => exact List.cons_ne_nil _ _
  | cons c x ih =>
      rw [componentsFrom]
      split_ifs
      · exact List.cons_ne_nil _ _
      · exact ih _

theorem component_bytes (n : Name) : component n.bytes = .name n := dif_pos n.proper

theorem components_bytes (n : Name) : components n.bytes = [.name n] := by
  rw [components, componentsFrom_of_notMem [] n.proper.2.2.2, List.nil_append, component_bytes]

/-! ### Files -/

section Files

-- the working directory, where the process may make and remove entries, and what `opendir` opens
variable (cwd : Route Name) (writable readable : Route Name → Bool)

def start (s : Bytes) : Route Name := if s.head? = some slash then [] else cwd

/-- An empty name is the name of nothing. -/
def stat (t : FileTree Name) (s : Bytes) : Except Errno Kind :=
  if s = [] then .error .noent else t.stat (start cwd s) (components s)

def mkdir (t : FileTree Name) (s : Bytes) : Option (FileTree Name) :=
  if s = [] then none else t.mkdir writable (start cwd s) (components s)

/-- The body of the loop of `MakeDirs`. -/
def makeDir (t : FileTree Name) (s : Bytes) : Option (FileTree Name) :=
  if stat cwd t s = .ok .dir then some t else mkdir cwd writable t s

/-- The loop, with what stands before `p` and what stands from `p` on. -/
def makeDirsLoop (isDirectory : Bool) (t : FileTree Name) (front : Bytes) :
    Bytes → FileTree Name × Bool
  | [] =>
      if isDirectory then
        match makeDir cwd writable t front with
        | none => (t, false)
        | some t' => (t', true)
      else (t, true)
  | c :: rest =>
      if c = slash then
        match makeDir cwd writable t front with
        | none => (t, false)
        | some t' => makeDirsLoop isDirectory t' (front ++ [c]) rest
      else makeDirsLoop isDirectory t (front ++ [c]) rest

def makeDirs (t : FileTree Name) (fileName : Bytes) (isDirectory : Bool) : FileTree Name × Bool :=
  match fileName with
  | [] => makeDirsLoop cwd writable isDirectory t [] []
  | c :: rest =>
      if c = slash then makeDirsLoop cwd writable isDirectory t [c] rest
      else makeDirsLoop cwd writable isDirectory t [] (c :: rest)

/-- `remove` of the C library: the last component, but for slashes, has to be a name. -/
def removeFile (t : FileTree Name) (s : Bytes) : Option (FileTree Name) :=
  match t.walk (start cwd s) (components s), (components (s.rdropWhile (· = slash))).getLast? with
  | .ok q, some (.name _) => t.remove writable q
  | _, _ => none

def addDirectory (dirName fileName : Bytes) : Bytes :=
  (if dirName = [] then ascii "." else dirName) ++ slash :: fileName

/-- `opendir`, and the entries without `.` and `..`. -/
def readDir (t : FileTree Name) (s : Bytes) : Option (List Name) :=
  match t.walk (start cwd s) (components s) with
  | .ok q => if readable q then some (t.names q) else none
  | .error _ => none

/-- The loop of `RemoveFileOrDir`, with `FollowSymlinks` false. -/
def removeEntries (t : FileTree Name) (s : Bytes) : List Name → FileTree Name
  | [] => t
  | n :: ns => removeEntries ((removeFile cwd writable t (addDirectory s n.bytes)).getD t) s ns

/-- What `RemoveFileOrDir` does last. -/
def removeSelf (t : FileTree Name) (s : Bytes) : FileTree Name × Bool :=
  match removeFile cwd writable t s with
  | none => (t, false)
  | some t' => (t', true)

def removeFileOrDir (t : FileTree Name) (fileName : Bytes) : FileTree Name × Bool :=
  match stat cwd t fileName with
  | .error .noent => (t, true)
  | .error .notdir => (t, false)
  | .ok .dir =>
      match readDir cwd readable t fileName with
      | none => (t, false)
      | some names => removeSelf cwd writable (removeEntries cwd writable t fileName names) fileName
  | .ok .file => removeSelf cwd writable t fileName

/-- A file is opened for writing, and made if it is not there. -/
def writeFile (t : FileTree Name) (s : Bytes) : Option (FileTree Name) :=
  match t.walk (start cwd s) (components s).dropLast, (components s).getLast? with
  | .ok q, some (.name n) =>
      if h : t.kind q = some .dir ∧ t.kind (q ++ [n]) ≠ some .dir ∧
          (t.kind (q ++ [n]) = some .file ∨ writable q) then
        some (t.add q n .file h.1 fun hdir => absurd hdir h.2.1)
      else none
  | _, _ => none

def writeFiles (t : FileTree Name) : List Bytes → Option (FileTree Name)
  | [] => some t
  | s :: files => (writeFile cwd writable t s).bind fun t' => writeFiles t' files

end Files

/-! ### `MakeDirs` -/

section MakeDirs

variable (cwd : Route Name) (writable : Route Name → Bool)

theorem start_append {x : Bytes} (hx : x ≠ []) (y : Bytes) :
    start cwd (x ++ y) = start cwd x := by
  unfold start
  rw [List.head?_append_of_ne_nil x hx]

theorem makeDir_eq {t : FileTree Name} {s : Bytes} (hs : s ≠ []) {front : List (Segment Name)}
    {c : Segment Name} (hcomponents : components s = front ++ [c]) {q : Route Name}
    (hwalk : t.walk (start cwd s) front = .ok q) (hq : t.kind q = some .dir) :
    makeDir cwd writable t s = t.enter writable q c := by
  unfold makeDir stat mkdir
  rw [if_neg hs, if_neg hs, hcomponents]
  exact FileTree.stat_or_mkdir hwalk hq c

/-- The loop is at the component that begins with `cur`; the components before it, `front`, lead to
`q`. -/
theorem makeDirsLoop_eq {isDirectory : Bool} {t : FileTree Name} {x cur rest : Bytes}
    {q : Route Name} {front : List (Segment Name)} (hcur : slash ∉ cur)
    (hcomponents : ∀ y, components (x ++ y) = front ++ components y)
    (hfirst : x ++ cur = [] → rest.head? ≠ some slash ∧ (isDirectory = true → rest ≠ []))
    (hwalk : t.walk (start cwd (x ++ cur ++ rest)) front = .ok q) (hq : t.kind q = some .dir) :
    makeDirsLoop cwd writable isDirectory t (x ++ cur) rest =
      t.ensure writable q
        (if isDirectory then componentsFrom cur rest else (componentsFrom cur rest).dropLast) := by
  induction rest generalizing t x cur q front with
  | nil =>
      cases isDirectory with
      | false => rfl
      | true =>
          have hne : x ++ cur ≠ [] := fun heq => (hfirst heq).2 rfl rfl
          rw [List.append_nil] at hwalk
          have hmake := makeDir_eq cwd writable hne
            ((hcomponents cur).trans (congrArg _ (componentsFrom_of_notMem [] hcur))) hwalk hq
          rw [makeDirsLoop, if_pos rfl, if_pos rfl, componentsFrom, FileTree.ensure, hmake,
            List.nil_append]
          cases t.enter writable q (component cur) <;> rfl
  | cons c rest ih =>
      rw [makeDirsLoop, componentsFrom]
      by_cases hc : c = slash
      · subst hc
        have hne : x ++ cur ≠ [] := fun heq => (hfirst heq).1 rfl
        have hstart : start cwd (x ++ cur ++ slash :: rest) = start cwd (x ++ cur) :=
          start_append cwd hne _
        have hmake := makeDir_eq cwd writable hne
          ((hcomponents cur).trans (congrArg _ (componentsFrom_of_notMem [] hcur)))
            (hstart ▸ hwalk) hq
        rw [List.nil_append] at hmake
        have hlast : (if isDirectory then component cur :: componentsFrom [] rest
            else (component cur :: componentsFrom [] rest).dropLast) = component cur ::
              (if isDirectory then componentsFrom [] rest
                else (componentsFrom [] rest).dropLast) := by
          cases isDirectory with
          | true => rfl
          | false => exact List.dropLast_cons_of_ne_nil (componentsFrom_ne_nil [] rest)
        rw [if_pos rfl, if_pos rfl, hmake, hlast, FileTree.ensure]
        rcases FileTree.enter_spec writable hq (component cur)
          with ⟨-, hnone⟩ | ⟨-, t', hsome, hkind⟩
        · rw [hnone]
        · rw [hsome]
          have hq' : t'.kind ((component cur).target q) = some .dir := by rw [hkind, if_pos rfl]
          have hmono : ∀ p, t.kind p ≠ none → t'.kind p = t.kind p :=
            fun _ => FileTree.enter_mono hq hsome
          have hcomponents' : ∀ y, components (x ++ cur ++ [slash] ++ y) =
              front ++ [component cur] ++ components y := by
            intro y
            rw [List.append_assoc x, List.append_assoc x, hcomponents, List.append_assoc cur,
              List.singleton_append, components_append_slash, components,
              componentsFrom_of_notMem [] hcur, List.nil_append, List.append_assoc]
          have hwalk' :
            t'.walk (start cwd (x ++ cur ++ [slash] ++ [] ++ rest)) (front ++ [component cur]) =
              .ok ((component cur).target q) := by
            rw [List.append_nil, List.append_assoc (x ++ cur), List.singleton_append]
            exact FileTree.walk_concat (FileTree.walk_mono hmono hwalk)
              (hmono q (by simp [hq]) |>.trans hq) _
          have hnext := ih (List.not_mem_nil) hcomponents' (by simp) hwalk' hq'
          rwa [List.append_nil] at hnext
      · rw [if_neg hc, if_neg hc]
        have hnext : makeDirsLoop cwd writable isDirectory t (x ++ (cur ++ [c])) rest = _ :=
          ih (by simp [hcur, Ne.symm hc]) hcomponents (by simp) (by simpa using hwalk) hq
        rwa [← List.append_assoc] at hnext

theorem makeDirs_eq {t : FileTree Name} {fileName : Bytes}
    (hdir : t.kind (start cwd fileName) = some .dir) {isDirectory : Bool}
    (hne : isDirectory = true → fileName ≠ []) :
    makeDirs cwd writable t fileName isDirectory =
      t.ensure writable (start cwd fileName)
        (if isDirectory then components fileName else (components fileName).dropLast) := by
  cases fileName with
  | nil =>
      cases isDirectory with
      | false => rfl
      | true => exact absurd rfl (hne rfl)
  | cons c rest =>
      by_cases hc : c = slash
      · subst hc
        have hcomponents : ∀ y, components ([slash] ++ y) = [.here] ++ components y :=
          fun y => rfl
        have hwalk : t.walk (start cwd ([slash] ++ [] ++ rest)) [.here] = .ok [] :=
          FileTree.walk_cons t.kind_nil _ _
        have hloop : makeDirsLoop cwd writable isDirectory t ([slash] ++ []) rest = _ :=
          makeDirsLoop_eq cwd writable List.not_mem_nil hcomponents
            (fun heq => by cases heq) hwalk t.kind_nil
        have hhere :
          (if isDirectory then components (slash :: rest)
          else (components (slash :: rest)).dropLast) =
            .here :: (if isDirectory then componentsFrom [] rest
              else (componentsFrom [] rest).dropLast) := by
          cases isDirectory with
          | true => rfl
          | false => exact List.dropLast_cons_of_ne_nil (componentsFrom_ne_nil [] rest)
        rw [makeDirs, if_pos rfl, hhere]
        exact hloop
      · have hstart : start cwd (c :: rest) = cwd := if_neg fun heq => hc (Option.some.inj heq)
        have hcomponents : ∀ y, components ([] ++ y) = [] ++ components y := fun y => rfl
        have hwalk : t.walk (start cwd ([] ++ [] ++ c :: rest)) [] = .ok cwd :=
          congrArg Except.ok hstart
        have hloop : makeDirsLoop cwd writable isDirectory t ([] ++ []) (c :: rest) = _ :=
          makeDirsLoop_eq cwd writable List.not_mem_nil hcomponents
            (fun _ => ⟨fun heq => hc (Option.some.inj heq), fun _ => List.cons_ne_nil _ _⟩)
              hwalk (hstart ▸ hdir)
        rw [makeDirs, if_neg hc, hstart]
        exact hloop

theorem kind_start {t : FileTree Name} (hcwd : t.kind cwd = some .dir) (s : Bytes) :
    t.kind (start cwd s) = some .dir := by
  unfold start
  split_ifs
  · exact t.kind_nil
  · exact hcwd

/-- **`MakeDirs`.** It succeeds exactly if all that the name comes by is a directory or can be made
one. Then all of that is a directory. Nothing else is made, and nothing is taken away. -/
theorem makeDirs_exact {t : FileTree Name} (hcwd : t.kind cwd = some .dir) {fileName : Bytes}
    (hne : fileName ≠ []) :
    ((makeDirs cwd writable t fileName true).2 = true ↔
      ∀ p ∈ FileTree.visited (start cwd fileName) (components fileName),
        t.Makeable writable p) ∧
    ((makeDirs cwd writable t fileName true).2 = true → ∀ p,
      (makeDirs cwd writable t fileName true).1.kind p =
        if p ∈ FileTree.visited (start cwd fileName) (components fileName) then some .dir
        else t.kind p) ∧
    ∀ p, (makeDirs cwd writable t fileName true).1.kind p = t.kind p ∨
      t.kind p = none ∧ p ∈ FileTree.visited (start cwd fileName) (components fileName) ∧
        (makeDirs cwd writable t fileName true).1.kind p = some .dir := by
  rw [makeDirs_eq cwd writable (kind_start cwd hcwd fileName) fun _ => hne]
  exact FileTree.ensure_spec (kind_start cwd hcwd fileName) (components fileName)

/-- A tree with nothing in it. -/
def bare : FileTree Name where
  entries := []
  closed p n h := absurd (show lookup [] (p ++ [n]) = none by simp [lookup]) h

def dotted : Bytes := ascii "a//b/./../c/"

theorem makeDirs_exact_dotted :
    (makeDirs [] (fun _ => true) bare dotted true).1.entries.length = 3 ∧
      ∀ p, (makeDirs [] (fun _ => true) bare dotted true).1.kind p =
        if p ∈ FileTree.visited (start [] dotted) (components dotted) then some .dir
        else bare.kind p :=
  have hne : dotted ≠ [] := by decide
  ⟨by decide, (makeDirs_exact [] (fun _ => true) bare.kind_nil hne).2.1 (by decide)⟩

end MakeDirs

/-! ### `RemoveFileOrDir` -/

section RemoveFileOrDir

variable (cwd : Route Name) (writable readable : Route Name → Bool)

/-- The name `s` leads to `q` without `..`, and ends in the name of an entry. -/
structure Names (t : FileTree Name) (s : Bytes) (q : Route Name) : Prop where
  walk : t.walk (start cwd s) (components s) = .ok q
  down : .up ∉ components s
  last : ∃ n, (components (s.rdropWhile (· = slash))).getLast? = some (.name n)

variable {cwd} {t t' : FileTree Name} {s : Bytes} {q : Route Name}

theorem Names.ne_nil (h : Names cwd t s q) : s ≠ [] := by
  rintro rfl
  obtain ⟨n, hn⟩ := h.last
  cases hn

theorem Names.congr (h : Names cwd t s q) (hkind : ∀ r, r <+: q → t'.kind r = t.kind r) :
    Names cwd t' s q where
  walk := FileTree.walk_congr h.down h.walk hkind
  down := h.down
  last := h.last

theorem Names.removeFile (h : Names cwd t s q) :
    removeFile cwd writable t s = t.remove writable q := by
  obtain ⟨n, hn⟩ := h.last
  unfold Directories.removeFile
  rw [h.walk, hn]

theorem Names.addDirectory (h : Names cwd t s q) (hq : t.kind q = some .dir) (n : Name) :
    Names cwd t (addDirectory s n.bytes) (q ++ [n]) := by
  have hne := h.ne_nil
  have hcomponents : components (Directories.addDirectory s n.bytes) =
      components s ++ [.name n] := by
    rw [Directories.addDirectory, if_neg hne, components_append_slash, components_bytes]
  have hstart : start cwd (Directories.addDirectory s n.bytes) = start cwd s := by
    rw [Directories.addDirectory, if_neg hne]
    exact start_append cwd hne _
  refine ⟨?_, ?_, n, ?_⟩
  · rw [hstart, hcomponents]
    exact FileTree.walk_concat h.walk hq _
  · rw [hcomponents]
    simp [h.down]
  · have hlast : (Directories.addDirectory s n.bytes).rdropWhile (· = slash) =
        Directories.addDirectory s n.bytes := by
      obtain ⟨init, c, hc⟩ : ∃ init c, n.bytes = init ++ [c] :=
        (List.eq_nil_or_concat' n.bytes).resolve_left n.proper.1
      have hslash : ¬ (decide (c = slash)) = true := fun heq =>
        n.proper.2.2.2 (hc ▸ of_decide_eq_true heq ▸ List.mem_append_right _ List.mem_cons_self)
      rw [Directories.addDirectory, hc, ← List.cons_append, ← List.append_assoc]
      exact List.rdropWhile_concat_neg _ _ _ hslash
    rw [hlast, hcomponents, List.getLast?_concat]

theorem Names.removeEntries (h : Names cwd t s q) (hq : t.kind q = some .dir) (ns : List Name) :
    removeEntries cwd writable t s ns = t.sweep writable q ns := by
  induction ns generalizing t with
  | nil => rfl
  | cons n ns ih =>
      rw [Directories.removeEntries, FileTree.sweep, (h.addDirectory hq n).removeFile]
      have hkind : ∀ r, r <+: q →
          ((t.remove writable (q ++ [n])).getD t).kind r = t.kind r := by
        intro r hr
        cases hremove : t.remove writable (q ++ [n]) with
        | none => rfl
        | some t' =>
            rw [Option.getD_some, FileTree.remove_spec hremove, if_neg]
            rintro rfl
            exact absurd hr.length_le (by simp)
      exact ih (h.congr hkind) ((hkind q (List.prefix_refl q)).trans hq)

theorem Names.stat (h : Names cwd t s q) : stat cwd t s = (t.kind q).elim (.error .noent) .ok := by
  unfold Directories.stat FileTree.stat
  rw [if_neg h.ne_nil, h.walk]
  rfl

/-- `opendir` fails on a directory. -/
def Closed (t : FileTree Name) (q : Route Name) : Prop :=
  t.kind q = some .dir ∧ readable q = false

/-- Nothing is forbidden. -/
def all (_ : Route Name) : Bool := true

theorem not_closed_all (t : FileTree Name) (q : Route Name) : ¬ Closed all t q := by
  simp [Closed, all]

variable {readable}

theorem Names.removeSelf (h : Names cwd t s q) :
    removeSelf cwd writable t s =
      match t.remove writable q with
      | none => (t, false)
      | some t' => (t', true) := by
  unfold Directories.removeSelf
  rw [h.removeFile]

theorem kind_sweep_prefix (t : FileTree Name) {r : Route Name} (hr : r <+: q) :
    (t.sweep writable q (t.names q)).kind r = t.kind r := by
  rw [FileTree.kind_sweep_names, if_neg]
  rintro ⟨rfl, hremovable⟩
  have hpos := List.length_pos_iff.mpr hremovable.1
  have hle := hr.length_le
  rw [List.length_dropLast] at hle
  omega

theorem Names.removeFileOrDir (h : Names cwd t s q) (hq : t.kind q ≠ none)
    (hopen : ¬ Closed readable t q) :
    removeFileOrDir cwd writable readable t s =
      match (t.sweep writable q (t.names q)).remove writable q with
      | none => (t.sweep writable q (t.names q), false)
      | some t' => (t', true) := by
  have hswept := h.congr fun r hr => kind_sweep_prefix writable t hr
  obtain ⟨k, hk⟩ := Option.ne_none_iff_exists'.mp hq
  unfold Directories.removeFileOrDir
  rw [h.stat, hk]
  cases k with
  | dir =>
      have hread : readDir cwd readable t s = some (t.names q) := by
        unfold readDir
        rw [h.walk]
        exact if_pos (by simpa [Closed, hk] using hopen)
      simp only [Option.elim, hread]
      rw [h.removeEntries writable hk, hswept.removeSelf]
  | file =>
      have hbare : t.Bare q := fun n => by
        by_contra hn
        have hdir := t.kind_parent hn
        rw [hk] at hdir
        cases hdir
      simp only [Option.elim]
      rw [h.removeSelf, FileTree.bare_iff.mp hbare]
      rfl

theorem Names.removeFileOrDir_absent (h : Names cwd t s q) (hnone : t.kind q = none) :
    Directories.removeFileOrDir cwd writable readable t s = (t, true) := by
  unfold Directories.removeFileOrDir
  rw [h.stat, hnone]
  rfl

theorem Names.removeFileOrDir_closed (h : Names cwd t s q) (hclosed : Closed readable t q) :
    Directories.removeFileOrDir cwd writable readable t s = (t, false) := by
  have hread : readDir cwd readable t s = none := by
    unfold readDir
    rw [h.walk]
    exact if_neg (by simp [hclosed.2])
  unfold Directories.removeFileOrDir
  rw [h.stat, hclosed.1]
  simp only [Option.elim, hread]

theorem Names.removeFileOrDir_present (h : Names cwd t s q) (hq : t.kind q ≠ none)
    (hopen : ¬ Closed readable t q) :
    ((Directories.removeFileOrDir cwd writable readable t s).2 = true ↔ q ≠ [] ∧
      writable q.dropLast ∧ ∀ n, t.kind (q ++ [n]) ≠ none →
      t.Removable writable (q ++ [n])) ∧
    ∀ p, (Directories.removeFileOrDir cwd writable readable t s).1.kind p =
      if p.dropLast = q ∧ t.Removable writable p ∨
        p = q ∧ (Directories.removeFileOrDir cwd writable readable t s).2 = true then none
      else t.kind p := by
  rw [h.removeFileOrDir writable hq hopen]
  by_cases hremovable : (t.sweep writable q (t.names q)).Removable writable q
  · obtain ⟨t', ht'⟩ := FileTree.exists_remove hremovable
    obtain ⟨hne, -, hwritable, hall⟩ := (FileTree.removable_sweep t q).mp hremovable
    rw [ht']
    refine ⟨iff_of_true rfl ⟨hne, hwritable, hall⟩, fun p => ?_⟩
    dsimp only
    rw [FileTree.remove_spec ht', FileTree.kind_sweep_names]
    by_cases hp : p = q
    · rw [if_pos hp, if_pos (Or.inr ⟨hp, rfl⟩)]
    · rw [if_neg hp]
      simp only [hp, false_and, or_false]
  · rw [FileTree.remove_of_not hremovable]
    rw [FileTree.removable_sweep] at hremovable
    refine ⟨iff_of_false Bool.false_ne_true fun hboth => hremovable ⟨hboth.1, hq, hboth.2⟩,
      fun p => ?_⟩
    dsimp only
    rw [FileTree.kind_sweep_names]
    simp only [Bool.false_eq_true, and_false, or_false]

theorem Names.writeFile (h : Names cwd t s q) (hq : t.kind q = some .dir) (hwritable : writable q)
    {n : Name} (hn : t.kind (q ++ [n]) ≠ some .dir) :
    ∃ t', writeFile cwd writable t (s ++ slash :: n.bytes) = some t' ∧
      ∀ p, t'.kind p = if p = q ++ [n] then some .file else t.kind p := by
  have hcomponents : components (s ++ slash :: n.bytes) = components s ++ [.name n] := by
    rw [components_append_slash, components_bytes]
  refine ⟨t.add q n .file hq fun hdir => absurd hdir hn, ?_, t.kind_add hq _⟩
  unfold Directories.writeFile
  rw [start_append cwd h.ne_nil, hcomponents, List.dropLast_concat, List.getLast?_concat, h.walk]
  exact dif_pos ⟨hq, hn, Or.inr hwritable⟩

/-- **`RemoveFileOrDir`.** For a name without `..` that ends in the name of an entry, in a directory
that is there: what is not there is left alone, and so is a directory that cannot be opened. Of what
is there else, the entries that can be removed go, and it goes itself exactly if all of them do and
it can be removed where it is. Nothing else goes. -/
theorem removeFileOrDir_exact (h : Names cwd t s q) :
    (t.kind q = none → removeFileOrDir cwd writable readable t s = (t, true)) ∧
    (Closed readable t q → removeFileOrDir cwd writable readable t s = (t, false)) ∧
    (t.kind q ≠ none → ¬ Closed readable t q →
      ((removeFileOrDir cwd writable readable t s).2 = true ↔ q ≠ [] ∧ writable q.dropLast ∧
        ∀ n, t.kind (q ++ [n]) ≠ none → t.Removable writable (q ++ [n])) ∧
      ∀ p, (removeFileOrDir cwd writable readable t s).1.kind p =
        if p.dropLast = q ∧ t.Removable writable p ∨
          p = q ∧ (removeFileOrDir cwd writable readable t s).2 = true then none else t.kind p) :=
  ⟨h.removeFileOrDir_absent writable, h.removeFileOrDir_closed writable,
    h.removeFileOrDir_present writable⟩

/-- A directory with a directory that is not empty. -/
def nested : FileTree Name := (makeDirs [] (fun _ => true) bare (ascii "a/b/c") true).1

def nameA : Name := ⟨ascii "a", by decide⟩

def nameB : Name := ⟨ascii "b", by decide⟩

theorem removeFileOrDir_exact_nested :
    (removeFileOrDir [] all all nested (ascii "a")).2 = false ∧
      (removeFileOrDir [] all all nested (ascii "a/b/")).2 = true ∧
      ∀ p, (removeFileOrDir [] all all nested (ascii "a/b/")).1.kind p =
        if p.dropLast = [nameA, nameB] ∧ nested.Removable all p ∨
          p = [nameA, nameB] ∧
            (removeFileOrDir [] all all nested (ascii "a/b/")).2 = true then none
        else nested.kind p :=
  have h : Names [] nested (ascii "a/b/") [nameA, nameB] :=
    ⟨by decide, by decide, nameB, by decide⟩
  ⟨by decide, by decide,
    ((removeFileOrDir_exact all h).2.2 (by decide) (not_closed_all nested _)).2⟩

end RemoveFileOrDir

end Dbus2vdr.Directories

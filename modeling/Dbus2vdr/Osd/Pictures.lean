import Dbus2vdr.Osd.Directories
import Dbus2vdr.Osd.Sessions

/-!
# The pictures of the OSDs

An OSD makes its directory and writes a picture for every pixmap; a message `Close` takes the
directory with it when it is deleted. `pictures_of_run` puts both together: as long as no provider
is deleted while one of its OSDs is open, the picture of a signal is there until the directory of
its OSD goes, which then leaves nothing behind, and nothing else on the disk is touched.
-/

namespace Dbus2vdr.Osd

open Machine Directory Directories

/-! ### The places of the OSDs -/

def tmp : Name := ⟨ascii "tmp", by decide⟩

def dbus2vdr : Name := ⟨ascii "dbus2vdr", by decide⟩

/-- `DBUSOSDDIR` -/
def base : Route Name := [tmp, dbus2vdr]

theorem proper_osdName (index : Nat) : Proper (ascii "dbusosd-" ++ hex4 index) := by
  apply proper_of_length
  · rw [List.length_append]
    exact Nat.le_add_right_of_le (by decide)
  · rw [List.mem_append, not_or]
    exact ⟨by decide, slash_notMem_hex4 index⟩

def osdName (index : Nat) : Name := ⟨ascii "dbusosd-" ++ hex4 index, proper_osdName index⟩

def osdPath (index : Nat) : Route Name := base ++ [osdName index]

theorem osdPath_prefix_iff {i j : Nat} {r : Route Name} :
    osdPath i <+: osdPath j ++ r ↔ i = j := by
  constructor
  · intro h
    obtain ⟨s, hs⟩ := h
    have hname : osdName i = osdName j := by
      simp only [osdPath, base, List.cons_append, List.nil_append, List.cons.injEq, true_and] at hs
      exact hs.1
    have hhex : hex4 i = hex4 j := List.append_cancel_left (congrArg Name.bytes hname)
    rw [← hexValue_hex4 i, hhex, hexValue_hex4]
  · rintro rfl
    exact List.prefix_append _ _

theorem components_osdDir (index : Nat) :
    components (osdDir index) = [.here, .name tmp, .name dbus2vdr, .name (osdName index)] := by
  have hsplit : osdDir index =
      [] ++ slash :: (tmp.bytes ++ slash :: (dbus2vdr.bytes ++ slash :: (osdName index).bytes)) :=
        rfl
  rw [hsplit, components_append_slash, components_append_slash, components_append_slash,
    components_bytes, components_bytes, components_bytes]
  rfl

theorem osdDir_ne_nil (index : Nat) : osdDir index ≠ [] := List.cons_ne_nil _ _

theorem start_osdDir (cwd : Route Name) (index : Nat) : start cwd (osdDir index) = [] := rfl

theorem visited_osdDir (index : Nat) :
    FileTree.visited [] (components (osdDir index)) = [[], [tmp], base, osdPath index] := by
  rw [components_osdDir]
  rfl

/-- A picture is a file in the directory of its OSD. -/
theorem filename_eq (osd : DBusOsd) (index counter : Nat) (vx vy : Int) :
    ∃ n : Name, osd.filename index counter vx vy = osdDir index ++ slash :: n.bytes := by
  have hdecimal : ∀ m : Int, slash ∉ decimal m := by
    intro m hmem
    rcases mem_decimal hmem with heq | hdigit
    · exact absurd heq (by decide)
    · exact absurd hdigit (by decide)
  have hslash : slash ∉ hex4 counter ++ ascii "-" ++ decimal osd.left ++ ascii "-" ++
    decimal osd.top ++
      ascii "-" ++ decimal vx ++ ascii "-" ++ decimal vy ++ ascii ".png" := by
    simp only [List.mem_append, not_or]
    exact ⟨⟨⟨⟨⟨⟨⟨⟨⟨slash_notMem_hex4 counter, by decide⟩, hdecimal _⟩, by
      decide⟩, hdecimal _⟩, by decide⟩,
      hdecimal _⟩, by decide⟩, hdecimal _⟩, by decide⟩
  refine ⟨⟨_, proper_of_length ?_ hslash⟩, ?_⟩
  · rw [List.length_append]
    exact Nat.le_add_left_of_le (by decide)
  · simp only [DBusOsd.filename, List.append_assoc]
    rfl

/-! ### What the OSDs do to the disk -/

/-- In a directory of an OSD there are only files. -/
def Flat (t : FileTree Name) (index : Nat) : Prop :=
  ∀ r, t.kind (osdPath index ++ r) ≠ none →
    r = [] ∨ ∃ n, r = [n] ∧ t.kind (osdPath index ++ r) = some .file

section Disk

variable {cwd : Route Name} {writable : Route Name → Bool} {t : FileTree Name} {index : Nat}

theorem names_osdDir (hbase : t.kind base = some .dir) :
    Names cwd t (osdDir index) (osdPath index) := by
  have htmp : t.kind [tmp] = some .dir :=
    t.kind_dropLast (p := base) (by rw [hbase]; exact Option.some_ne_none _)
  have hnames : Names cwd t (ascii "/tmp/dbus2vdr") base := by
    refine ⟨?_, by decide, dbus2vdr, by decide⟩
    have hcomponents : components (ascii "/tmp/dbus2vdr") = [.here, .name tmp, .name dbus2vdr] := by
      decide
    rw [hcomponents]
    calc t.walk [] [.here, .name tmp, .name dbus2vdr]
        = t.walk [] [.name tmp, .name dbus2vdr] := FileTree.walk_cons t.kind_nil _ _
      _ = t.walk [tmp] [.name dbus2vdr] := FileTree.walk_cons t.kind_nil _ _
      _ = t.walk base [] := FileTree.walk_cons htmp _ _
      _ = .ok base := rfl
  exact hnames.addDirectory hbase (osdName index)

theorem makeDirs_osdDir (hwritable : writable base) (htmp : t.Makeable writable [tmp])
    (hbase : t.Makeable writable base) (hnone : t.kind (osdPath index) = none) (p : Route Name) :
    (makeDirs cwd writable t (osdDir index) true).1.kind p =
      if p ∈ [[], [tmp], base, osdPath index] then some .dir else t.kind p := by
  have hstart : t.kind (start cwd (osdDir index)) = some .dir := t.kind_nil
  rw [makeDirs_eq cwd writable hstart fun _ => osdDir_ne_nil index, if_pos rfl, start_osdDir]
  have hspec := @FileTree.ensure_spec _ _ writable t [] t.kind_nil (components (osdDir index))
  rw [visited_osdDir] at hspec
  refine hspec.2.1 (hspec.1.mpr ?_) p
  simp only [List.forall_mem_cons]
  exact ⟨Or.inl t.kind_nil, htmp, hbase, Or.inr ⟨hnone, hwritable⟩, by simp⟩

theorem removeFileOrDir_osdDir (hbase : t.kind base = some .dir) (hwritable : writable base)
    (hinside : writable (osdPath index)) (hdir : t.kind (osdPath index) = some .dir)
    (hflat : Flat t index) (p : Route Name) :
    (removeFileOrDir cwd writable all t (osdDir index)).1.kind p =
      if osdPath index <+: p then none else t.kind p := by
  have hremovable : ∀ n, t.kind (osdPath index ++ [n]) ≠ none →
      t.Removable writable (osdPath index ++ [n]) := by
    intro n hn
    refine ⟨by simp, hn, by rwa [List.dropLast_concat], fun m => ?_⟩
    by_contra hm
    rw [List.append_assoc] at hm
    rcases hflat _ hm with heq | ⟨k, heq, -⟩ <;> cases heq
  have hnames : Names cwd t (osdDir index) (osdPath index) := names_osdDir hbase
  obtain ⟨hok, hkind⟩ := hnames.removeFileOrDir_present writable
    (by rw [hdir]; exact Option.some_ne_none _) (not_closed_all t _)
  have hdone := hok.mpr ⟨by simp [osdPath], by rwa [osdPath, List.dropLast_concat], hremovable⟩
  rw [hkind, hdone]
  by_cases hp : osdPath index <+: p
  · obtain ⟨r, rfl⟩ := hp
    rw [if_pos (List.prefix_append _ _)]
    split_ifs with hgone
    · rfl
    · by_contra hr
      apply hgone
      rcases hflat r hr with rfl | ⟨n, rfl, -⟩
      · exact Or.inr ⟨List.append_nil _, rfl⟩
      · exact Or.inl ⟨List.dropLast_concat, hremovable n hr⟩
  · rw [if_neg hp, if_neg]
    rintro (⟨hlast, hne, -⟩ | ⟨rfl, -⟩)
    · exact hp ⟨[p.getLast hne], by rw [← hlast]; exact List.dropLast_append_getLast hne⟩
    · exact hp (List.prefix_refl _)

end Disk

theorem osdDir_injective {i j : Nat} (h : osdDir i = osdDir j) : i = j :=
  (ofOsd_osdDir i).unique (h ▸ ofOsd_osdDir j)

/-- The file of a message is there. -/
def HasFile (t : FileTree Name) (index : Nat) (file : Bytes) : Prop :=
  ∃ n : Name, file = osdDir index ++ slash :: n.bytes ∧
    t.kind (osdPath index ++ [n]) = some .file

theorem HasFile.congr {t t' : FileTree Name} {i : Nat} {file : Bytes} (h : HasFile t i file)
    (hkeep : ∀ n, t.kind (osdPath i ++ [n]) = some .file →
      t'.kind (osdPath i ++ [n]) = some .file) :
    HasFile t' i file := by
  obtain ⟨n, hfile, hkind⟩ := h
  exact ⟨n, hfile, hkeep n hkind⟩

/-- The tree is what `t₀` was, with the directories of some OSDs. -/
structure Layout (t₀ t : FileTree Name) (there : Nat → Prop) : Prop where
  present : ∀ i, there i → t.kind (osdPath i) = some .dir ∧ Flat t i
  away : ∀ i, ¬ there i → ∀ r, t.kind (osdPath i ++ r) = none
  elsewhere : ∀ p, (∀ i, ¬ osdPath i <+: p) →
    t.kind p = t₀.kind p ∨ (p = [tmp] ∨ p = base) ∧ t.kind p = some .dir

/-- The directories can be made and removed, and there is none yet. -/
structure Prepared (writable : Route Name → Bool) (t₀ : FileTree Name) : Prop where
  tmp : t₀.Makeable writable [tmp]
  base : t₀.Makeable writable base
  inBase : writable Osd.base = true
  inside : ∀ i, writable (osdPath i) = true
  fresh : ∀ i r, t₀.kind (osdPath i ++ r) = none

section Layout

variable {cwd : Route Name} {writable : Route Name → Bool} {t₀ t t' : FileTree Name}
    {there : Nat → Prop} {index : Nat}

theorem Prepared.layout (h : Prepared writable t₀) : Layout t₀ t₀ fun _ => False where
  present _ hi := hi.elim
  away i _ := h.fresh i
  elsewhere _ _ := Or.inl rfl

theorem Layout.congr {there' : Nat → Prop} (h : Layout t₀ t there)
    (hiff : ∀ i, there i ↔ there' i) :
    Layout t₀ t there' := by
  have heq : there = there' := funext fun i => propext (hiff i)
  exact heq ▸ h

theorem Layout.base (h : Layout t₀ t there) (hthere : there index) : t.kind base = some .dir := by
  have hup :=
    t.kind_dropLast (p := osdPath index)
    (by rw [(h.present index hthere).1]; exact Option.some_ne_none _)
  rwa [osdPath, List.dropLast_concat] at hup

theorem osdPath_longer {p : Route Name} (hlength : p.length < 3) (i : Nat) : ¬ osdPath i <+: p :=
  fun h =>
  absurd h.length_le (Nat.not_le.mpr hlength)

theorem Layout.makeable (h : Layout t₀ t there) {p : Route Name} (hp : p.length < 3)
    (hmakeable : t₀.Makeable writable p) : t.Makeable writable p := by
  rcases h.elsewhere p (osdPath_longer hp) with hsame | ⟨-, hdir⟩
  · unfold FileTree.Makeable
    rwa [hsame]
  · exact Or.inl hdir

theorem osdPath_append_ne {p : Route Name} (hlength : p.length < 3) (i : Nat) (r : Route Name) :
    osdPath i ++ r ≠ p := fun heq =>
  osdPath_longer hlength i ⟨r, heq⟩

/-- The way to an OSD is made, and what is done in its directory leaves the others as they are. -/
theorem Layout.others (h : Layout t₀ t there) {there' : Nat → Prop}
    (hsame : ∀ p, ¬ osdPath index <+: p →
      t'.kind p = t.kind p ∨ (p = [tmp] ∨ p = Osd.base) ∧ t'.kind p = some .dir)
    (hiff : ∀ i, i ≠ index → (there' i ↔ there i))
    (hpresent : there' index → t'.kind (osdPath index) = some .dir ∧ Flat t' index)
    (haway : ¬ there' index → ∀ r, t'.kind (osdPath index ++ r) = none) :
    Layout t₀ t' there' := by
  have hother : ∀ i, i ≠ index →
      ∀ r, t'.kind (osdPath i ++ r) = t.kind (osdPath i ++ r) := by
    intro i hi r
    refine (hsame _ fun hprefix => hi (osdPath_prefix_iff.mp hprefix).symm).resolve_right ?_
    rintro ⟨heq | heq, -⟩
    · exact osdPath_append_ne (by decide) i r heq
    · exact osdPath_append_ne (by decide) i r heq
  refine ⟨fun i hi => ?_, fun i hi r => ?_, fun p hp => ?_⟩
  · by_cases heq : i = index
    · subst heq
      exact hpresent hi
    · obtain ⟨hdir, hflat⟩ := h.present i ((hiff i heq).mp hi)
      refine ⟨?_, fun r hr => ?_⟩
      · rw [← List.append_nil (osdPath i), hother i heq, List.append_nil]
        exact hdir
      · rw [hother i heq] at hr ⊢
        exact hflat r hr
  · by_cases heq : i = index
    · subst heq
      exact haway hi r
    · rw [hother i heq]
      exact h.away i (fun hthere => hi ((hiff i heq).mpr hthere)) r
  · rcases hsame p (hp index) with heq | hway
    · rw [heq]
      exact h.elsewhere p hp
    · exact Or.inr hway

variable (cwd)

theorem Layout.make (h : Layout t₀ t there) (hprepared : Prepared writable t₀)
    (hnot : ¬ there index) :
    Layout t₀ (makeDirs cwd writable t (osdDir index) true).1 (fun i => there i ∨ i = index) ∧
    ∀ i r, i ≠ index →
      (makeDirs cwd writable t (osdDir index) true).1.kind (osdPath i ++ r) =
        t.kind (osdPath i ++ r) := by
  have hnone : t.kind (osdPath index) = none := by
    have haway := h.away index hnot []
    rwa [List.append_nil] at haway
  have hkind : ∀ p, (makeDirs cwd writable t (osdDir index) true).1.kind p = _ :=
    makeDirs_osdDir hprepared.inBase (h.makeable (by decide) hprepared.tmp)
      (h.makeable (by decide) hprepared.base) hnone
  have hother : ∀ i r, (i ≠ index ∨ r ≠ []) →
      osdPath i ++ r ∉ [[], [tmp], Osd.base, osdPath index] := by
    intro i r hne hmem
    simp only [List.mem_cons, List.not_mem_nil, or_false] at hmem
    rcases hmem with heq | heq | heq | heq
    · exact osdPath_append_ne (by decide) i r heq
    · exact osdPath_append_ne (by decide) i r heq
    · exact osdPath_append_ne (by decide) i r heq
    · have hi : i = index := osdPath_prefix_iff.mp ⟨r, heq.trans (List.append_nil _).symm⟩
      subst hi
      exact (hne.resolve_left fun hi => hi rfl)
        (List.append_cancel_left (heq.trans (List.append_nil _).symm))
  constructor
  · refine h.others (fun p hp => ?_) (fun i hi => or_iff_left hi) (fun _ =>
      ⟨?_, fun r hr => ?_⟩)
      fun hnot' => absurd (Or.inr rfl) hnot'
    · rw [hkind]
      split_ifs with hmem
      · simp only [List.mem_cons, List.not_mem_nil, or_false] at hmem
        rcases hmem with rfl | rfl | rfl | rfl
        · exact Or.inl t.kind_nil.symm
        · exact Or.inr ⟨Or.inl rfl, rfl⟩
        · exact Or.inr ⟨Or.inr rfl, rfl⟩
        · exact absurd (List.prefix_refl _) hp
      · exact Or.inl rfl
    · rw [hkind, if_pos (by simp)]
    · by_contra hnil
      rw [not_or] at hnil
      rw [hkind, if_neg (hother index r (Or.inr hnil.1)), h.away index hnot r] at hr
      exact hr rfl
  · intro i r hi
    rw [hkind, if_neg (hother i r (Or.inl hi))]

theorem Layout.remove (h : Layout t₀ t there) (hprepared : Prepared writable t₀)
    (hthere : there index) :
    Layout t₀ (removeFileOrDir cwd writable all t (osdDir index)).1 (fun i =>
      there i ∧ i ≠ index) ∧
    ∀ i r, i ≠ index →
      (removeFileOrDir cwd writable all t (osdDir index)).1.kind (osdPath i ++ r) =
        t.kind (osdPath i ++ r) := by
  obtain ⟨hdir, hflat⟩ := h.present index hthere
  have hkind : ∀ p, (removeFileOrDir cwd writable all t (osdDir index)).1.kind p = _ :=
    removeFileOrDir_osdDir (h.base hthere) hprepared.inBase (hprepared.inside index) hdir hflat
  constructor
  · refine h.others (fun p hp => Or.inl ?_) (fun i hi => and_iff_left hi) (fun hboth =>
      absurd rfl hboth.2)
      fun _ r => ?_
    · rw [hkind, if_neg hp]
    · rw [hkind, if_pos (List.prefix_append _ _)]
  · intro i r hi
    rw [hkind, if_neg fun hprefix => hi (osdPath_prefix_iff.mp hprefix).symm]

theorem Layout.write (h : Layout t₀ t there) (hprepared : Prepared writable t₀)
    (hthere : there index) (n : Name) :
    ∃ t', writeFile cwd writable t (osdDir index ++ slash :: n.bytes) = some t' ∧
    Layout t₀ t' there ∧
      ∀ p, t'.kind p = if p = osdPath index ++ [n] then some .file else t.kind p := by
  obtain ⟨hdir, hflat⟩ := h.present index hthere
  have hn : t.kind (osdPath index ++ [n]) ≠ some .dir := by
    intro heq
    rcases hflat [n] (by rw [heq]; exact Option.some_ne_none _) with hnil | ⟨m, -, hfile⟩
    · cases hnil
    · rw [heq] at hfile
      cases hfile
  have hnames : Names cwd t (osdDir index) (osdPath index) := names_osdDir (h.base hthere)
  obtain ⟨t', hwrite, hkind⟩ := hnames.writeFile writable hdir (hprepared.inside index) hn
  refine ⟨t', hwrite, ?_, hkind⟩
  refine h.others (fun p hp => Or.inl ?_) (fun _ _ => Iff.rfl) (fun _ => ⟨?_, fun r hr => ?_⟩)
    fun hnot => absurd hthere hnot
  · rw [hkind, if_neg]
    rintro rfl
    exact hp (List.prefix_append _ _)
  · rw [hkind, if_neg (by simp), hdir]
  · rw [hkind] at hr ⊢
    split_ifs at hr ⊢ with heq
    · exact Or.inr ⟨n, List.append_cancel_left heq, rfl⟩
    · exact hflat r hr

/-- All pictures of a call of `Flush` are written, and those there were are still there. -/
theorem Layout.writes (h : Layout t₀ t there) (hprepared : Prepared writable t₀)
    (hthere : there index) (files : List Bytes)
    (hfiles : ∀ file ∈ files, ∃ n : Name, file = osdDir index ++ slash :: n.bytes) :
    ∃ t', writeFiles cwd writable t files = some t' ∧ Layout t₀ t' there ∧
      (∀ file ∈ files, HasFile t' index file) ∧ ∀ p, t.kind p = some .file →
        t'.kind p = some .file := by
  induction files generalizing t with
  | nil => exact ⟨t, rfl, h, by simp, fun _ hp => hp⟩
  | cons file files ih =>
      obtain ⟨n, rfl⟩ := hfiles file List.mem_cons_self
      obtain ⟨t₁, hwrite, h₁, hkind⟩ := h.write cwd hprepared hthere n
      obtain ⟨t', hwrites, h', hall, hkeep⟩ :=
        ih h₁ fun file hfile => hfiles file (List.mem_cons_of_mem _ hfile)
      refine ⟨t', ?_, h', ?_, fun p hp => hkeep p ?_⟩
      · rw [writeFiles, hwrite]
        exact hwrites
      · rintro file hfile
        rcases List.mem_cons.mp hfile with rfl | hrest
        · exact ⟨n, rfl, hkeep _ (by rw [hkind, if_pos rfl])⟩
        · exact hall file hrest
      · rw [hkind, hp, ite_self]

end Layout

/-! ### OSDs, threads and disk together -/

namespace System

def acted (s : System) : SystemEvent → List Act
  | .call _ => []
  | .turn number => (s.threads[number]?).elim [] fun p => p.turn.acts.drop p.acts.length
  | .destroy number =>
      (s.threads[number]?).elim [] fun p => (p.after .destroy).acts.drop p.acts.length

/-- The message `Close` of the OSD has been deleted. -/
def Gone (s : System) (index : Nat) : Prop :=
  ∃ p ∈ s.threads, .removeDir (osdDir index) ∈ p.acts

def Sent (s : System) (msg : Msg) : Prop := ∃ p ∈ s.threads, msg ∈ p.sent

instance decidableGone (s : System) : DecidablePred s.Gone := by
  intro index
  unfold Gone
  infer_instance

end System

/-- The OSDs and the threads with the disk they work on. -/
structure Disk where
  system : System := {}
  tree : FileTree Name
  /-- A picture could not be written, and `write` has thrown. -/
  failed : Bool := false

namespace Disk

variable (cwd : Route Name) (writable : Route Name → Bool)

/-- `~cDbusOsdMsg` takes a directory with it, which the plugin has made and can read. -/
def act (t : FileTree Name) : Act → FileTree Name
  | .emitSignal _ => t
  | .removeDir dir => (removeFileOrDir cwd writable all t dir).1

def treeAfter (d : Disk) : SystemEvent → Option (FileTree Name)
  | .call (.createOsd _ _) =>
      some (makeDirs cwd writable d.tree (osdDir d.system.osds.osds.length) true).1
  | .call (.flush index rendered) =>
      writeFiles cwd writable d.tree
        ((d.system.osds.sends (.flush index rendered)).map fun send => send.2.file)
  | e => some ((d.system.acted e).foldl (act cwd writable) d.tree)

def after (d : Disk) (e : SystemEvent) : Disk :=
  match d.treeAfter cwd writable e with
  | some tree => { d with system := d.system.after e, tree }
  | none => { d with system := d.system.after e, failed := true }

def step : Step Disk SystemEvent := fun d e =>
  if d.system.Enabled e then some (d.after cwd writable e) else none

theorem step_eq_some {cwd : Route Name} {writable : Route Name → Bool} {d d' : Disk}
    {e : SystemEvent} :
    step cwd writable d e = some d' ↔ d.system.Enabled e ∧ d.after cwd writable e = d' := by
  unfold step
  split_ifs with henabled <;> simp [henabled]

def NoneOpen (d : Disk) (e : SystemEvent) : Prop := d.system.NoneOpen e

instance decidableNoneOpen (d : Disk) : DecidablePred d.NoneOpen := fun e =>
  inferInstanceAs (Decidable (d.system.NoneOpen e))

end Disk

/-! ### What a step does to the directories -/

theorem Provider.turn_acts (p : Provider) :
    ∃ new, p.turn.acts = p.acts ++ new ∧
      (new = [] ∨ (∃ signal, new = [.emitSignal signal]) ∨
        ∃ dir, new = [.removeDir dir]) := by
  obtain ⟨running, msgQueue, place, destroyed, sent, acts⟩ := p
  cases place with
  | emitting dbmsg => exact ⟨_, rfl, Or.inr (Or.inl ⟨_, rfl⟩)⟩
  | deleting dbmsg =>
      refine ⟨_, rfl, ?_⟩
      unfold Msg.delete
      split_ifs
      · exact Or.inr (Or.inr ⟨_, rfl⟩)
      · exact Or.inl rfl
  | atRunning => cases running <;> exact ⟨[], (List.append_nil _).symm, Or.inl rfl⟩
  | atCount | atTake | atWait =>
      cases msgQueue <;> exact ⟨[], (List.append_nil _).symm, Or.inl rfl⟩
  | waiting | left => exact ⟨[], (List.append_nil _).symm, Or.inl rfl⟩

namespace System

variable {s : System} {e : SystemEvent} {number i : Nat} {msg : Msg}

/-- One thread takes a step, in which it does one thing at most. -/
structure OneActs (s : System) (e : SystemEvent) (number : Nat) (p p' : Provider) : Prop where
  before : s.threads[number]? = some p
  behind : (s.after e).threads[number]? = some p'
  others : ∀ n, n ≠ number → (s.after e).threads[n]? = s.threads[n]?
  sent : p'.sent = p.sent
  acts : p'.acts = p.acts ++ s.acted e
  once : s.acted e = [] ∨ (∃ signal, s.acted e = [.emitSignal signal]) ∨
    ∃ dir, s.acted e = [.removeDir dir]

theorem getElem?_modify_eq {threads : List Provider} {p : Provider} (hp : threads[number]? = some p)
    (f : Provider → Provider) :
    (threads.modify number f)[number]? = some (f p) ∧
      ∀ n, n ≠ number → (threads.modify number f)[n]? = threads[n]? := by
  constructor
  · simp [hp]
  · intro n hn
    simp [Ne.symm hn]

theorem oneActs_turn (he : s.Enabled (.turn number)) :
    ∃ p p', s.OneActs (.turn number) number p p' := by
  obtain ⟨p, hp, -⟩ := he
  obtain ⟨new, hacts, honce⟩ := p.turn_acts
  have hacted : s.acted (.turn number) = new := by
    rw [acted, show s.threads[number]? = some p from hp, Option.elim_some, hacts, List.drop_left]
  obtain ⟨hbehind, hothers⟩ := getElem?_modify_eq hp Provider.turn
  exact ⟨p, p.turn, hp, hbehind, hothers, p.turn_sent, hacts.trans (by rw [hacted]),
    hacted ▸ honce⟩

/-- The queue of a thread that has left is empty, so nothing is deleted with the members. -/
theorem Linked.oneActs_destroy (h : s.Linked) (he : s.Enabled (.destroy number)) :
    ∃ p p', s.OneActs (.destroy number) number p p' := by
  obtain ⟨p, hp, -, hleft, -⟩ := he
  have hacts : (p.after .destroy).acts = p.acts ++ [] := by
    rw [Provider.after, (h.threads number p hp).1.drained hleft]
    rfl
  have hacted : s.acted (.destroy number) = [] := by
    rw [acted, show s.threads[number]? = some p from hp, Option.elim_some, hacts, List.drop_left]
  obtain ⟨hbehind, hothers⟩ := getElem?_modify_eq hp fun p => p.after .destroy
  exact ⟨p, p.after .destroy, hp, hbehind, hothers, rfl, hacts.trans (by rw [hacted]),
    Or.inl hacted⟩

theorem OneActs.mem_after {p p' q : Provider} (h : s.OneActs e number p p')
    (hq : q ∈ (s.after e).threads) :
    q = p' ∨ q ∈ s.threads := by
  obtain ⟨n, hn⟩ := List.mem_iff_getElem?.mp hq
  by_cases heq : n = number
  · exact Or.inl (Option.some.inj (hn.symm.trans (heq ▸ h.behind)))
  · rw [h.others n heq] at hn
    exact Or.inr (List.mem_of_getElem? hn)

theorem OneActs.mem_before {p p' q : Provider} (h : s.OneActs e number p p')
    (hq : q ∈ s.threads) :
    q = p ∨ ∃ n, n ≠ number ∧ (s.after e).threads[n]? = some q := by
  obtain ⟨n, hn⟩ := List.mem_iff_getElem?.mp hq
  by_cases heq : n = number
  · exact Or.inl (Option.some.inj (hn.symm.trans (heq ▸ h.before)))
  · exact Or.inr ⟨n, heq, (h.others n heq).trans hn⟩

theorem OneActs.gone_iff {p p' : Provider} (h : s.OneActs e number p p') :
    (s.after e).Gone i ↔ s.Gone i ∨ .removeDir (osdDir i) ∈ s.acted e := by
  constructor
  · rintro ⟨q, hq, hmem⟩
    rcases h.mem_after hq with rfl | hold
    · rw [h.acts, List.mem_append] at hmem
      exact hmem.imp_left fun hmem => ⟨p, List.mem_of_getElem? h.before, hmem⟩
    · exact Or.inl ⟨q, hold, hmem⟩
  · rintro (⟨q, hq, hmem⟩ | hnew)
    · rcases h.mem_before hq with rfl | ⟨n, -, hn⟩
      · exact ⟨p', List.mem_of_getElem? h.behind, h.acts ▸ List.mem_append_left _ hmem⟩
      · exact ⟨q, List.mem_of_getElem? hn, hmem⟩
    · exact ⟨p', List.mem_of_getElem? h.behind, h.acts ▸ List.mem_append_right _ hnew⟩

theorem OneActs.sent_of {p p' : Provider} (h : s.OneActs e number p p')
    (hsent : (s.after e).Sent msg) :
    s.Sent msg := by
  obtain ⟨q, hq, hmem⟩ := hsent
  rcases h.mem_after hq with rfl | hold
  · exact ⟨p, List.mem_of_getElem? h.before, h.sent ▸ hmem⟩
  · exact ⟨q, hold, hmem⟩

theorem Linked.closed_of_gone (h : s.Linked) (hgone : s.Gone i) :
    ∃ osd, s.osds.osds[i]? = some osd ∧ osd.closed = true := by
  obtain ⟨p, hp, hmem⟩ := hgone
  obtain ⟨n, hn⟩ := List.mem_iff_getElem?.mp hp
  obtain ⟨before, behind, hacts⟩ := List.append_of_mem hmem
  obtain ⟨index, osd, ports, hremoved⟩ := h.removed hn hacts
  obtain rfl := osdDir_injective hremoved.dir
  exact ⟨osd, hremoved.listed, hremoved.closed⟩

/-- A directory that goes is the one of an OSD, and has not gone before. -/
theorem OneActs.removes {p p' : Provider} (h : s.OneActs e number p p')
    (hafter : (s.after e).Linked) {dir : Bytes} (hacted : s.acted e = [.removeDir dir]) :
    ∃ index, dir = osdDir index ∧ index < (s.after e).osds.osds.length ∧ ¬ s.Gone index := by
  have hacts : p'.acts = p.acts ++ .removeDir dir :: [] := by rw [h.acts, hacted]
  obtain ⟨index, osd, ports, hremoved⟩ := hafter.removed h.behind hacts
  obtain rfl := hremoved.dir
  refine ⟨index, rfl, (List.getElem?_eq_some_iff.mp hremoved.listed).1, ?_⟩
  rintro ⟨q, hq, hmem⟩
  rcases h.mem_before hq with rfl | ⟨n, hne, hn⟩
  · have hcount := hafter.count_removed h.behind (osdDir index)
    rw [hacts, List.count_append, List.count_singleton_self] at hcount
    have hpos := List.count_pos_iff.mpr hmem
    omega
  · obtain ⟨before, behind, hold⟩ := List.append_of_mem hmem
    obtain ⟨other, osd', ports', hremoved'⟩ := hafter.removed hn hold
    obtain rfl := osdDir_injective hremoved'.dir
    obtain rfl : osd = osd' := Option.some.inj (hremoved.listed.symm.trans hremoved'.listed)
    exact hne (hremoved'.provider.symm.trans hremoved.provider)

variable {c : Call}

theorem told_acts (s : System) (c : Call) (k : Nat) (p : Provider) :
    (s.told c k p).acts = p.acts := by
  unfold told
  dsimp only
  split <;> rfl

theorem gone_call : (s.after (.call c)).Gone i ↔ s.Gone i := by
  constructor
  · rintro ⟨q, hq, hmem⟩
    obtain ⟨n, hn⟩ := List.mem_iff_getElem?.mp hq
    rcases threads_call hn with ⟨p, hp, rfl⟩ | ⟨-, rfl⟩
    · exact ⟨p, List.mem_of_getElem? hp, told_acts s c n p ▸ hmem⟩
    · cases hmem
  · rintro ⟨p, hp, hmem⟩
    obtain ⟨n, hn⟩ := List.mem_iff_getElem?.mp hp
    have hn' : (s.after (.call c)).threads[n]? = some (s.told c n p) := by
      rw [threads_call_lt (List.getElem?_eq_some_iff.mp hn).1, hn, Option.map_some]
    exact ⟨_, List.mem_of_getElem? hn', (told_acts s c n p).symm ▸ hmem⟩

theorem sent_call (hsent : (s.after (.call c)).Sent msg) :
    s.Sent msg ∨ ∃ send ∈ s.osds.sends c, send.2 = msg := by
  obtain ⟨q, hq, hmem⟩ := hsent
  obtain ⟨n, hn⟩ := List.mem_iff_getElem?.mp hq
  rcases threads_call hn with ⟨p, hp, rfl⟩ | ⟨-, rfl⟩
  · rw [told_sent] at hmem
    rcases List.mem_append.mp hmem with hold | hnew
    · exact Or.inl ⟨p, List.mem_of_getElem? hp, hold⟩
    · obtain ⟨send, hsend, hsome⟩ := List.mem_filterMap.mp hnew
      refine Or.inr ⟨send, hsend, ?_⟩
      split_ifs at hsome
      exact Option.some.inj hsome
  · cases hmem

end System

/-! ### The pictures -/

namespace Disk

variable {cwd : Route Name} {writable : Route Name → Bool} {t₀ : FileTree Name} {d d' : Disk}
    {c : Call}

/-- The directory of the OSD has been made and has not gone yet. -/
def There (d : Disk) (i : Nat) : Prop := i < d.system.osds.osds.length ∧ ¬ d.system.Gone i

structure Sound (t₀ : FileTree Name) (d : Disk) : Prop where
  linked : d.system.Linked
  written : d.failed = false
  layout : Layout t₀ d.tree d.There
  pictures : ∀ msg, d.system.Sent msg → msg.action = .Display → ∀ i, OfOsd i msg.file →
    ¬ d.system.Gone i → HasFile d.tree i msg.file

theorem sound_initial (hprepared : Prepared writable t₀) : Sound t₀ { tree := t₀ } where
  linked := System.linked_initial
  written := rfl
  layout := hprepared.layout.congr fun i => iff_of_false not_false fun hthere =>
    absurd hthere.1 (Nat.not_lt_zero i)
  pictures msg hsent := by
    obtain ⟨p, hp, -⟩ := hsent
    cases hp

/-- The OSD of a message that has been sent is there, or its directory has gone. -/
theorem Sound.there_of_sent (h : Sound t₀ d) {msg : Msg} (hsent : d.system.Sent msg) {i : Nat}
    (hof : OfOsd i msg.file) (hgone : ¬ d.system.Gone i) : d.There i := by
  obtain ⟨p, hp, hmem⟩ := hsent
  obtain ⟨n, hn⟩ := List.mem_iff_getElem?.mp hp
  obtain ⟨j, hj, hofj⟩ := h.linked.known n p hn msg hmem
  exact ⟨hof.unique hofj ▸ hj, hgone⟩

theorem Sound.next (h : Sound t₀ d) {e : SystemEvent} {tree : FileTree Name}
    (hlinked : (d.system.after e).Linked) (htree : d.treeAfter cwd writable e = some tree)
    (hlayout : Layout t₀ tree (d.after cwd writable e).There)
    (hgone : ∀ i, d.system.Gone i → (d.system.after e).Gone i)
    (hkeep : ∀ i, d.There i → ¬ (d.system.after e).Gone i → ∀ n,
      d.tree.kind (osdPath i ++ [n]) = some .file → tree.kind (osdPath i ++ [n]) = some .file)
    (hsent : ∀ msg, (d.system.after e).Sent msg → d.system.Sent msg ∨
      (msg.action = .Display → ∀ i, OfOsd i msg.file → HasFile tree i msg.file)) :
    Sound t₀ (d.after cwd writable e) := by
  have hafter : d.after cwd writable e = { d with system := d.system.after e, tree } := by
    rw [after, htree]
  rw [hafter] at hlayout ⊢
  refine ⟨hlinked, h.written, hlayout, fun msg hmsg hdisplay i hof hnot => ?_⟩
  rcases hsent msg hmsg with hold | hnew
  · have hthere : d.There i := h.there_of_sent hold hof fun hi => hnot (hgone i hi)
    exact (h.pictures msg hold hdisplay i hof hthere.2).congr (hkeep i hthere hnot)
  · exact hnew hdisplay i hof

theorem after_system (d : Disk) (e : SystemEvent) :
    (d.after cwd writable e).system = d.system.after e := by
  unfold after
  split <;> rfl

theorem Sound.thread (h : Sound t₀ d) (hprepared : Prepared writable t₀) {e : SystemEvent}
    {number : Nat} {p p' : Provider} (hone : d.system.OneActs e number p p')
    (hlinked : (d.system.after e).Linked) (hosds : (d.system.after e).osds = d.system.osds)
    (htree : d.treeAfter cwd writable e =
      some ((d.system.acted e).foldl (act cwd writable) d.tree)) :
    Sound t₀ (d.after cwd writable e) := by
  have hthere : ∀ i, (d.after cwd writable e).There i ↔
      d.There i ∧ .removeDir (osdDir i) ∉ d.system.acted e := by
    intro i
    simp only [There, after_system, hosds, hone.gone_iff, not_or, and_assoc]
  by_cases hquiet : ∃ dir, d.system.acted e = [.removeDir dir]
  · obtain ⟨dir, hacted⟩ := hquiet
    obtain ⟨index, rfl, hlt, hnot⟩ := hone.removes hlinked hacted
    have hthis : d.There index := ⟨hosds ▸ hlt, hnot⟩
    obtain ⟨hlayout, hother⟩ := h.layout.remove cwd hprepared hthis
    have hmem : ∀ i, Act.removeDir (osdDir i) ∈ d.system.acted e ↔ i = index := by
      intro i
      rw [hacted, List.mem_singleton, Act.removeDir.injEq]
      exact ⟨osdDir_injective, congrArg osdDir⟩
    rw [hacted] at htree
    refine h.next hlinked htree (hlayout.congr fun i => ?_) (fun i hi =>
      hone.gone_iff.mpr (Or.inl hi))
      (fun i _ hi n hfile => ?_) fun msg hmsg => Or.inl (hone.sent_of hmsg)
    · rw [hthere, hmem]
    · have hne : i ≠ index := fun heq => hi (hone.gone_iff.mpr (Or.inr ((hmem i).mpr heq)))
      exact (hother i [n] hne).trans hfile
  · have hsame : (d.system.acted e).foldl (act cwd writable) d.tree = d.tree ∧
        ∀ i, Act.removeDir (osdDir i) ∉ d.system.acted e := by
      rcases hone.once with hnone | ⟨signal, hsignal⟩ | hdir
      · rw [hnone]
        exact ⟨rfl, fun i => List.not_mem_nil⟩
      · rw [hsignal]
        exact ⟨rfl, fun i => by simp⟩
      · exact absurd hdir hquiet
    rw [hsame.1] at htree
    refine h.next hlinked htree (h.layout.congr fun i => ?_) (fun i hi =>
      hone.gone_iff.mpr (Or.inl hi))
      (fun i _ _ n hfile => hfile) fun msg hmsg => Or.inl (hone.sent_of hmsg)
    rw [hthere, and_iff_left (hsame.2 i)]

/-! The calls that reach the disk, and the others -/

theorem Sound.call (h : Sound t₀ d) (hlinked : (d.system.after (.call c)).Linked)
    {tree : FileTree Name} (htree : d.treeAfter cwd writable (.call c) = some tree)
    (hlayout : Layout t₀ tree fun i => i < (d.system.osds.after c).osds.length ∧
      ¬ d.system.Gone i)
    (hkeep : ∀ i, d.There i → ∀ n,
      d.tree.kind (osdPath i ++ [n]) = some .file → tree.kind (osdPath i ++ [n]) = some .file)
    (hnew : ∀ send ∈ d.system.osds.sends c, send.2.action = .Display →
      ∀ i, OfOsd i send.2.file → HasFile tree i send.2.file) :
    Sound t₀ (d.after cwd writable (.call c)) := by
  refine h.next hlinked htree (hlayout.congr fun i => ?_) (fun i => System.gone_call.mpr)
    (fun i hi _ => hkeep i hi) fun msg hmsg => ?_
  · rw [There, after_system, System.gone_call]
    rfl
  · rcases System.sent_call hmsg with hold | ⟨send, hsend, rfl⟩
    · exact Or.inl hold
    · exact Or.inr (hnew send hsend)

theorem Sound.createOsd (h : Sound t₀ d) (hprepared : Prepared writable t₀) {left top : Int}
    (he : d.system.osds.Enabled (.createOsd left top))
    (hlinked : (d.system.after (.call (.createOsd left top))).Linked) :
    Sound t₀ (d.after cwd writable (.call (.createOsd left top))) := by
  obtain ⟨provider, hinUse⟩ := Option.ne_none_iff_exists'.mp he
  have hlength : (d.system.osds.after (.createOsd left top)).osds.length =
      d.system.osds.osds.length + 1 := by
    simp [Osds.after, Osds.createOsd, hinUse]
  have hnot : ¬ d.There d.system.osds.osds.length :=
    fun hthere => absurd hthere.1 (Nat.lt_irrefl _)
  have hgone : ¬ d.system.Gone d.system.osds.osds.length := by
    intro hgone
    obtain ⟨osd, hosd, -⟩ := h.linked.closed_of_gone hgone
    exact absurd (List.getElem?_eq_some_iff.mp hosd).1 (Nat.lt_irrefl _)
  obtain ⟨hlayout, hother⟩ := h.layout.make cwd hprepared hnot
  refine h.call hlinked rfl (hlayout.congr fun i => ?_)
    (fun i hi n hfile => ?_) fun send hsend hdisplay => ?_
  · rw [hlength, Nat.lt_succ_iff_lt_or_eq, There]
    constructor
    · rintro (⟨hlt, hi⟩ | rfl)
      · exact ⟨Or.inl hlt, hi⟩
      · exact ⟨Or.inr rfl, hgone⟩
    · rintro ⟨hlt | rfl, hi⟩
      · exact Or.inl ⟨hlt, hi⟩
      · exact Or.inr rfl
  · exact (hother i [n] (Nat.ne_of_lt hi.1)).trans hfile
  · rw [System.sends_createOsd hinUse, List.map_singleton, List.mem_singleton] at hsend
    subst hsend
    cases hdisplay

theorem Sound.flush (h : Sound t₀ d) (hprepared : Prepared writable t₀) {index : Nat}
    {rendered : List (Int × Int)} (he : d.system.osds.Enabled (.flush index rendered))
    (hlinked : (d.system.after (.call (.flush index rendered))).Linked) :
    Sound t₀ (d.after cwd writable (.call (.flush index rendered))) := by
  obtain ⟨osd, hosd, hopen⟩ := he
  have hsends := System.sends_flush hosd rendered
  have hthere : d.There index := by
    refine ⟨(List.getElem?_eq_some_iff.mp hosd).1, fun hgone => ?_⟩
    obtain ⟨osd', hosd', hclosed⟩ := h.linked.closed_of_gone hgone
    obtain rfl : osd = osd' := Option.some.inj (hosd.symm.trans hosd')
    rw [hopen] at hclosed
    cases hclosed
  have hfiles : ∀ file ∈
    (d.system.osds.sends (.flush index rendered)).map (fun send => send.2.file),
      ∃ n : Name, file = osdDir index ++ slash :: n.bytes := by
    intro file hfile
    obtain ⟨send, hsend, rfl⟩ := List.mem_map.mp hfile
    rw [hsends] at hsend
    obtain ⟨msg, hmsg, rfl⟩ := List.mem_map.mp hsend
    obtain ⟨port, -, rfl⟩ := List.mem_map.mp hmsg
    exact filename_eq osd index _ _ _
  obtain ⟨tree, hwrite, hlayout, hall, hkeep⟩ := h.layout.writes cwd hprepared hthere _ hfiles
  refine h.call hlinked hwrite (hlayout.congr fun i => ?_)
    (fun i hi n => hkeep _) fun send hsend _ i hof => ?_
  · rw [Osds.after, List.length_modify]
    rfl
  · have hfile := hall _ (List.mem_map_of_mem hsend)
    rw [hsends] at hsend
    obtain ⟨msg, hmsg, rfl⟩ := List.mem_map.mp hsend
    obtain rfl := hof.unique (System.ofOsd_displayMsgs osd index rendered msg hmsg)
    exact hfile

theorem Sound.otherCall (h : Sound t₀ d) (hlinked : (d.system.after (.call c)).Linked)
    (htree : d.treeAfter cwd writable (.call c) = some d.tree)
    (hlength : (d.system.osds.after c).osds.length = d.system.osds.osds.length)
    (hsends : ∀ send ∈ d.system.osds.sends c, send.2.action ≠ .Display) :
    Sound t₀ (d.after cwd writable (.call c)) := by
  refine h.call hlinked htree (h.layout.congr fun i => ?_) (fun i _ n hfile => hfile)
    fun send hsend hdisplay => absurd hdisplay (hsends send hsend)
  rw [hlength]
  rfl

theorem sound_step (hprepared : Prepared writable t₀) (d : Disk) (e : SystemEvent) (d' : Disk)
    (h : Sound t₀ d) (hnone : d.NoneOpen e) (hstep : step cwd writable d e = some d') :
    Sound t₀ d' := by
  obtain ⟨he, rfl⟩ := step_eq_some.mp hstep
  have hlinked := System.linked_step _ e _ h.linked hnone (System.step_eq_some.mpr ⟨he, rfl⟩)
  cases e with
  | turn number =>
      obtain ⟨p, p', hone⟩ := System.oneActs_turn he
      exact h.thread hprepared hone hlinked rfl rfl
  | destroy number =>
      obtain ⟨p, p', hone⟩ := h.linked.oneActs_destroy he
      exact h.thread hprepared hone hlinked rfl rfl
  | call c =>
      cases c with
      | createOsd left top => exact h.createOsd hprepared he hlinked
      | flush index rendered => exact h.flush hprepared he hlinked
      | destroyOsd index =>
          obtain ⟨osd, hosd, -⟩ := he
          refine h.otherCall hlinked rfl (List.length_modify ..) fun send hsend => ?_
          rw [System.sends_destroyOsd hosd, List.map_singleton, List.mem_singleton] at hsend
          subst hsend
          exact Action.noConfusion
      | createProvider | deleteProvider | otherProvider | shutdown =>
          refine h.otherCall hlinked rfl (congrArg List.length (System.osds_after_of_sends rfl)) ?_
          exact fun send hsend => absurd hsend List.not_mem_nil

/-- **Pictures.** In a run that deletes no provider with an open OSD every picture is written. Until
the message `Close` of an OSD is deleted, its directory is there with all pictures of the signals it
is to send; then it has gone with everything in it. Elsewhere nothing changes, but for `DBUSOSDDIR`
and the way to it. -/
theorem pictures_of_run (hprepared : Prepared writable t₀) {es : List SystemEvent}
    (hrun : run (step cwd writable) { tree := t₀ } es = some d)
    (hnone : Along (step cwd writable) NoneOpen { tree := t₀ } es) :
    d.failed = false ∧
    (∀ i < d.system.osds.osds.length, ¬ d.system.Gone i →
      d.tree.kind (osdPath i) = some .dir ∧
      ∀ msg, d.system.Sent msg → msg.action = .Display → OfOsd i msg.file →
        HasFile d.tree i msg.file) ∧
    (∀ i, d.system.Gone i → (∀ r, d.tree.kind (osdPath i ++ r) = none) ∧
      ∃ osd, d.system.osds.osds[i]? = some osd ∧ osd.closed = true) ∧
    ∀ p, (∀ i, ¬ osdPath i <+: p) →
      d.tree.kind p = t₀.kind p ∨ (p = [tmp] ∨ p = base) ∧ d.tree.kind p = some .dir := by
  have h : Sound t₀ d :=
    run_guarded_invariant (sound_step hprepared) hrun hnone (sound_initial hprepared)
  refine ⟨h.written, fun i hi hgone =>
    ⟨(h.layout.present i ⟨hi, hgone⟩).1, fun msg hsent hdisplay hof => ?_⟩,
    fun i hgone =>
    ⟨h.layout.away i fun hthere => hthere.2 hgone, h.linked.closed_of_gone hgone⟩,
    h.layout.elsewhere⟩
  exact h.pictures msg hsent hdisplay i hof hgone

theorem prepared_bare : Prepared (fun _ => true) bare where
  tmp := Or.inr ⟨rfl, rfl⟩
  base := Or.inr ⟨rfl, rfl⟩
  inBase := rfl
  inside _ := rfl
  fresh _ _ := rfl

theorem pictures_of_run_shown :
    ∃ d, run (step [] fun _ => true) { tree := bare } System.shown = some d ∧
    d.failed = false ∧
      ∀ r, d.tree.kind (osdPath 0 ++ r) = none :=
  have hrun := Option.eq_some_of_isSome
    (o := run (step [] fun _ => true) { tree := bare } System.shown) (by decide +kernel)
  have hpictures := pictures_of_run prepared_bare hrun (by decide +kernel)
  ⟨_, hrun, hpictures.1, (hpictures.2.2.1 0 (by decide +kernel)).1⟩

end Disk

end Dbus2vdr.Osd

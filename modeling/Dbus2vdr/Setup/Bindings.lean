import Dbus2vdr.Objects.Settings

/-!
# The bindings

`InitBindings` binds names to the variables of VDR's `Setup`, most of them to `int`s with a range.
What a `Set` does to the variables, the lines and the file is put together here from what it calls:
`set_frame` says that a `Set` with another reply than 900 does nothing to them, and that one with
reply 900 for a bound name changes the variable with the name and no other.
-/

namespace Dbus2vdr

/-- The numbers of VDR's headers that the bindings have as bounds. -/
structure Limits where
  maxLocaleLen : Int
  maxSkinName : Int
  maxThemeName : Int
  maxFileName : Int
  maxFontName : Int
  /-- `cDevice::NumDevices()` -/
  numDevices : Int
  maxEpgBugfixLevel : Int
  maxPriority : Int
  maxLifetime : Int
  minVideoFileSize : Int
  maxVideoFileSizeTs : Int

inductive BindingType where
  | string (maxLength : Int)
  | int32 (minValue maxValue : Int)
  | timeT
  deriving DecidableEq, Repr

/-- A binding has the name of its variable. `since` and `before` are the versions of VDR that have
it. -/
structure Binding where
  name : Bytes
  type : BindingType
  since : Nat := 0
  before : Option Nat := none
  deriving DecidableEq, Repr

namespace Binding

def newString (name : String) (maxLength : Int) : Binding :=
  ⟨ascii name, .string maxLength, 0, none⟩

def newInt32 (name : String) (minValue maxValue : Int) : Binding :=
  ⟨ascii name, .int32 minValue maxValue, 0, none⟩

def newTimeT (name : String) : Binding := ⟨ascii name, .timeT, 0, none⟩

/-- `InitBindings` for all versions of VDR. -/
def table (limits : Limits) : List Binding :=
  [newString "OSDLanguage" limits.maxLocaleLen,
    newString "OSDSkin" limits.maxSkinName,
    newString "OSDTheme" limits.maxThemeName,
    newInt32 "PrimaryDVB" 1 limits.numDevices,
    newInt32 "ShowInfoOnChSwitch" 0 1,
    newInt32 "TimeoutRequChInfo" 0 1,
    newInt32 "MenuScrollPage" 0 1,
    newInt32 "MenuScrollWrap" 0 1,
    newInt32 "MenuKeyCloses" 0 1,
    newInt32 "MarkInstantRecord" 0 1,
    newString "NameInstantRecord" limits.maxFileName,
    newInt32 "InstantRecordTime" 1 (24 * 60 - 1),
    newInt32 "LnbSLOF" 0 intMax,
    newInt32 "LnbFrequLo" 0 intMax,
    newInt32 "LnbFrequHi" 0 intMax,
    newInt32 "DiSEqC" 0 1,
    newInt32 "SetSystemTime" 0 1,
    newInt32 "MarginStart" 0 intMax,
    newInt32 "MarginStop" 0 intMax,
    newInt32 "DisplaySubtitles" 0 1,
    newInt32 "SubtitleOffset" (-100) 100,
    newInt32 "SubtitleFgTransparency" 0 9,
    newInt32 "SubtitleBgTransparency" 0 10,
    newInt32 "EPGScanTimeout" 0 intMax,
    newInt32 "EPGBugfixLevel" 0 limits.maxEpgBugfixLevel,
    newInt32 "EPGLinger" 0 intMax,
    newInt32 "SVDRPTimeout" 0 intMax,
    newInt32 "ZapTimeout" 0 intMax,
    newInt32 "ChannelEntryTimeout" 0 intMax,
    { newInt32 "PrimaryLimit" 0 limits.maxPriority with before := some 10726 },
    newInt32 "DefaultPriority" 0 limits.maxPriority,
    newInt32 "DefaultLifetime" 0 limits.maxLifetime,
    newInt32 "PausePriority" 0 limits.maxPriority,
    newInt32 "PauseLifetime" 0 limits.maxLifetime,
    newInt32 "UseSubtitle" 0 1,
    newInt32 "UseVps" 0 1,
    newInt32 "VpsMargin" 0 intMax,
    newInt32 "RecordingDirs" 0 1,
    { newInt32 "FoldersInTimerMenu" 0 1 with since := 10712 },
    { newInt32 "NumberKeysForChars" 0 1 with since := 10715 },
    newInt32 "UseDolbyDigital" 0 1,
    newInt32 "ChannelInfoPos" 0 1,
    newInt32 "ChannelInfoTime" 1 60,
    newInt32 "OSDMessageTime" 1 60,
    newInt32 "AntiAlias" 0 1,
    newString "FontOsd" limits.maxFontName,
    newString "FontSml" limits.maxFontName,
    newString "FontFix" limits.maxFontName,
    { newInt32 "MaxVideoFileSize" limits.minVideoFileSize limits.maxVideoFileSizeTs with
      since := 10704 },
    newInt32 "SplitEditedFiles" 0 1,
    newInt32 "MinEventTimeout" 0 intMax,
    newInt32 "MinUserInactivity" 0 intMax,
    newTimeT "NextWakeupTime",
    newInt32 "MultiSpeedMode" 0 1,
    newInt32 "ShowReplayMode" 0 1,
    newInt32 "ResumeID" 0 99,
    newInt32 "InitialVolume" (-1) 255,
    { newInt32 "ChannelsWrap" 0 1 with since := 10712 },
    newInt32 "EmergencyExit" 0 1]

def present (versnum : Nat) (b : Binding) : Bool :=
  b.since ≤ versnum && b.before.all (versnum < ·)

/-- `_bindings`, sorted by `strcasecmp`. -/
def bindings (limits : Limits) (versnum : Nat) : List Binding :=
  ((table limits).filter (present versnum)).mergeSort fun a b =>
    decide (a.name.map tolower ≤ b.name.map tolower)

/-! ### The names -/

/-- The names do not depend on the bounds. -/
def names : List Bytes := (table ⟨0, 0, 0, 0, 0, 0, 0, 0, 0, 0, 0⟩).map (·.name)

theorem map_name_table (limits : Limits) : (table limits).map (·.name) = names := rfl

theorem nodup_names : (names.map fun name => name.map tolower).Nodup := by decide +kernel

theorem nodup_bindings (limits : Limits) (versnum : Nat) :
    ((bindings limits versnum).map fun b => b.name.map tolower).Nodup := by
  have htable : ((table limits).map fun b => b.name.map tolower).Nodup := by
    have hnames := nodup_names
    rwa [← map_name_table limits, List.map_map] at hnames
  have hperm := (List.mergeSort_perm ((table limits).filter (present versnum)) fun a b =>
    decide (a.name.map tolower ≤ b.name.map tolower)).map fun b => b.name.map tolower
  exact hperm.nodup_iff.mpr (htable.sublist (List.filter_sublist.map _))

end Binding

/-! ### The variables -/

/-- What a `Set` may change: the variables by their names, and `setup.conf` in memory and as a
file. -/
structure SetupState where
  strings : Bytes → Bytes
  numbers : Bytes → Int
  setup : Setup

/-- What VDR and the plugins do for the settings. -/
structure SetupVdr where
  limits : Limits
  versnum : Nat
  load : Bytes → Option SetupLine
  parseLine : Bytes → Option SetupLine
  setupParse : Bytes → Bytes → Bytes → Bool
  utf8Strn0Cpy : Bytes → Int → Bytes
  /-- The lines and the file after `Setup.Save()`, which stores the variables. -/
  save : SetupState → Setup
  /-- The variables after `Setup.Load`. -/
  reread : SetupState → SetupState
  /-- `cPlugin::SetupStore` -/
  setupStore : Bytes → Bytes → Bytes → Setup → Setup

def Binding.read (st : SetupState) (b : Binding) : BindingValue :=
  match b.type with
  | .string maxLength => .string (st.strings b.name) maxLength
  | .int32 minValue maxValue => .int32 (st.numbers b.name) minValue maxValue
  | .timeT => .timeT (st.numbers b.name)

namespace SetupHelper

variable {settings : Settings} {plugins : LoadedPlugins} {skins : Skins} {name : Bytes}
  {child : Variant}

theorem set_unbound (hfind : find settings name = none) :
    set settings plugins skins [.string name, .variant child] =
      setUnbound settings plugins name child := by
  have hname : Params.string [.string name, .variant child] 0 = some name := rfl
  unfold set
  rw [hname]
  dsimp only
  rw [hfind]
  rfl

theorem set_bound {b : SetupBinding} (hfind : find settings name = some b) :
    set settings plugins skins [.string name, .variant child] = setBound skins name b child := by
  have hname : Params.string [.string name, .variant child] 0 = some name := rfl
  unfold set
  rw [hname]
  dsimp only
  rw [hfind]
  rfl

end SetupHelper

namespace SetupVdr

def bindings (v : SetupVdr) : List Binding := Binding.bindings v.limits v.versnum

/-- The settings as the methods find them. -/
def settings (v : SetupVdr) (st : SetupState) : Settings where
  bindings := v.bindings.map fun b => ⟨b.name, b.read st⟩
  setup := st.setup
  load := v.load
  save := fun lines => (v.save { st with setup := { st.setup with lines } }).lines
  parseLine := v.parseLine
  setupParse := v.setupParse

/-- What a call of `Set` changes; the skin, its theme and the size of the OSD are no variables of a
binding. -/
def exec (v : SetupVdr) (plugins : LoadedPlugins) (st : SetupState) : VdrCall → SetupState
  | .setString name value maxLength =>
      { st with strings := Function.update st.strings name (v.utf8Strn0Cpy value maxLength) }
  | .setNumber name value => { st with numbers := Function.update st.numbers name value }
  | .saveSetup => { st with setup := v.save st }
  | .storeLine plugin key value =>
      let vdr := SetupHelper.vdr (v.settings st) plugins
      v.reread { st with setup := st.setup.store vdr plugin key value }
  | .setupStore plugin key value => { st with setup := v.setupStore plugin key value st.setup }
  | _ => st

def calls (trace : Trace) : List VdrCall :=
  trace.filterMap fun act =>
    match act with
    | .did c => some c
    | _ => none

/-- The state after a `Set`. -/
def run (v : SetupVdr) (plugins : LoadedPlugins) (st : SetupState) (trace : Trace) : SetupState :=
  (calls trace).foldl (v.exec plugins) st

section Run

variable (v : SetupVdr) (plugins : LoadedPlugins) (st : SetupState)

@[simp]
theorem run_did_cons (c : VdrCall) (trace : Trace) :
    v.run plugins st (.did c :: trace) = v.run plugins (v.exec plugins st c) trace := rfl

theorem run_did_append (cs : List VdrCall) (trace : Trace) :
    v.run plugins st (cs.map .did ++ trace) =
      v.run plugins (cs.foldl (v.exec plugins) st) trace := by
  induction cs generalizing st with
  | nil => rfl
  | cons c cs ih => exact ih (v.exec plugins st c)

/-! ### What `Set` changes -/

theorem binding_unique {name : Bytes} {a b : Binding} (ha : a ∈ v.bindings)
    (hb : b ∈ v.bindings) (haname : strcaseeq a.name name) (hbname : strcaseeq b.name name) :
    a = b := by
  rw [strcaseeq_iff] at haname hbname
  exact List.inj_on_of_nodup_map (Binding.nodup_bindings v.limits v.versnum) ha hb
    (haname.trans hbname.symm)

theorem name_injective {a b : Binding} (ha : a ∈ v.bindings) (hb : b ∈ v.bindings)
    (hname : a.name = b.name) : a = b :=
  v.binding_unique ha hb (strcaseeq_iff.mpr (by rw [hname])) (strcaseeq_refl _)

theorem find_settings {name : Bytes} {b : Binding} (hb : b ∈ v.bindings)
    (hname : strcaseeq b.name name) :
    SetupHelper.find (v.settings st) name = some ⟨b.name, b.read st⟩ := by
  have hfind : v.bindings.find? (fun b => strcaseeq b.name name) = some b :=
    LineFile.find?_of_unique hb hname fun a ha haname => v.binding_unique ha hb haname hname
  unfold SetupHelper.find settings
  dsimp only
  rw [List.find?_map]
  exact congrArg (Option.map _) hfind

theorem exists_of_find_settings {name : Bytes} {found : SetupBinding}
    (hfind : SetupHelper.find (v.settings st) name = some found) :
    ∃ b ∈ v.bindings, strcaseeq b.name name ∧ found = ⟨b.name, b.read st⟩ := by
  have hmem := List.mem_of_find?_eq_some hfind
  obtain ⟨b, hb, rfl⟩ := List.mem_map.mp hmem
  exact ⟨b, hb, by simpa using List.find?_some hfind, rfl⟩

theorem exec_appearance {skins : Skins} {name str : Bytes} {cs : List VdrCall}
    {modifiedAppearance : Bool}
    (hcalls : SetupHelper.appearance skins name str = some (cs, modifiedAppearance)) :
    cs.foldl (v.exec plugins) st = st := by
  unfold SetupHelper.appearance at hcalls
  split_ifs at hcalls
  · cases hcalls
    rfl
  · cases hcalls
    rfl
  · obtain ⟨skin, -, hskin⟩ := Option.map_eq_some_iff.mp hcalls
    split_ifs at hskin <;> cases hskin <;> rfl
  · cases hcalls
    rfl

theorem exec_saved (modifiedAppearance : Bool) :
    (SetupHelper.saved modifiedAppearance).foldl (v.exec plugins) st =
      { st with setup := v.save st } := by
  cases modifiedAppearance <;> rfl

/-- A setting without a binding is rejected before anything is changed. -/
theorem setUnbound_cases {settings : Settings} {name : Bytes} {child : Variant} {code : Int}
    (hreply : RepliesCode (SetupHelper.setUnbound settings plugins name child) code) :
    code = 900 ∨ v.run plugins st (SetupHelper.setUnbound settings plugins name child) = st := by
  unfold SetupHelper.setUnbound at hreply ⊢
  dsimp only at hreply ⊢
  cases child with
  | string value =>
      dsimp only at hreply ⊢
      cases hset : settings.setup.set (SetupHelper.vdr settings plugins) name (.string value) with
      | some stored =>
          obtain ⟨setup, reply⟩ := stored
          have hcode : reply.code = 900 := by
            unfold Setup.set at hset
            dsimp only at hset
            split_ifs at hset
            exact congrArg (fun r : Setup × SetReply => r.2.code) (Option.some.inj hset).symm
          rw [hset] at hreply
          exact Or.inl
            ((repliesCode_sendReply.mp (repliesCode_did_cons.mp hreply)).symm.trans hcode)
      | none =>
          rw [hset] at hreply
          dsimp only at hreply ⊢
          split_ifs at hreply ⊢
          · simp only [repliesCode_did_cons, repliesCode_sendReply] at hreply
            exact Or.inl hreply.symm
          · exact Or.inr rfl
  | _ => exact Or.inr rfl

/-- The variable with the name may have changed. -/
structure SameElsewhere (name : Bytes) (st st' : SetupState) : Prop where
  strings : ∀ other, other ≠ name → st'.strings other = st.strings other
  numbers : ∀ other, other ≠ name → st'.numbers other = st.numbers other

theorem SameElsewhere.read_eq {name : Bytes} {st st' : SetupState} {b : Binding}
    (h : SameElsewhere name st st') (hname : b.name ≠ name) : b.read st' = b.read st := by
  unfold Binding.read
  rw [h.strings b.name hname, h.numbers b.name hname]

/-- The variable of the binding is written, with a number in its range if it is an `int`. -/
structure Writes (b : Binding) (child : Variant) (st st' : SetupState) : Prop where
  frame : SameElsewhere b.name st st'
  int : ∀ minValue maxValue, b.type = .int32 minValue maxValue →
    ∃ n, child = .int32 n ∧ st'.numbers b.name = n ∧ minValue ≤ n ∧ n ≤ maxValue

/-- The reply is 900 and the variable is written, or it is 501 and nothing is changed. -/
def Settled (b : Binding) (child : Variant) (code : Int) (trace : Trace) : Prop :=
  (code = 900 ∧ Writes b child st (v.run plugins st trace)) ∨
    (code = 501 ∧ v.run plugins st trace = st)

variable {b : Binding} {child : Variant} {code : Int}

theorem settled_wrongArgument {name : Bytes} {problem : String}
    (hreply : RepliesCode (SetupHelper.wrongArgument name problem) code) :
    v.Settled plugins st b child code (SetupHelper.wrongArgument name problem) :=
  Or.inr ⟨(repliesCode_sendReply.mp hreply).symm, rfl⟩

theorem settled_setNumber {n : Int} {modifiedAppearance : Bool} {message : Option Bytes}
    (hint : ∀ minValue maxValue, b.type = .int32 minValue maxValue →
      child = .int32 n ∧ minValue ≤ n ∧ n ≤ maxValue)
    (hreply : RepliesCode (.did (.setNumber b.name n) ::
      ((SetupHelper.saved modifiedAppearance).map .did ++ sendReply 900 message)) code) :
    v.Settled plugins st b child code (.did (.setNumber b.name n) ::
      ((SetupHelper.saved modifiedAppearance).map .did ++ sendReply 900 message)) := by
  simp only [repliesCode_did_cons, repliesCode_did_append, repliesCode_sendReply] at hreply
  unfold Settled
  rw [run_did_cons, run_did_append, exec_saved]
  refine Or.inl ⟨hreply.symm,
    ⟨fun _ _ => rfl, fun _ hother => Function.update_of_ne hother _ _⟩, ?_⟩
  intro minValue maxValue htype
  obtain ⟨hchild, hmin, hmax⟩ := hint minValue maxValue htype
  exact ⟨n, hchild, Function.update_self _ _ _, hmin, hmax⟩

theorem settled_setString {skins : Skins} {name str : Bytes} {maxLength bound : Int}
    {cs : List VdrCall} {modifiedAppearance : Bool} {message : Option Bytes}
    (htype : b.type = .string bound)
    (hcalls : SetupHelper.appearance skins name str = some (cs, modifiedAppearance))
    (hreply : RepliesCode (.did (.setString b.name str maxLength) ::
      ((cs ++ SetupHelper.saved modifiedAppearance).map .did ++ sendReply 900 message)) code) :
    v.Settled plugins st b child code (.did (.setString b.name str maxLength) ::
      ((cs ++ SetupHelper.saved modifiedAppearance).map .did ++ sendReply 900 message)) := by
  simp only [repliesCode_did_cons, repliesCode_did_append, repliesCode_sendReply] at hreply
  unfold Settled
  rw [run_did_cons, run_did_append, List.foldl_append, v.exec_appearance plugins _ hcalls,
    exec_saved]
  refine Or.inl ⟨hreply.symm,
    ⟨fun _ hother => Function.update_of_ne hother _ _, fun _ _ => rfl⟩, ?_⟩
  intro minValue maxValue hint
  rw [htype] at hint
  cases hint

/-- A setting with a binding is rejected before anything is changed, or its variable is written. -/
theorem setBound_settled {skins : Skins} {name : Bytes}
    (hreply : RepliesCode (SetupHelper.setBound skins name ⟨b.name, b.read st⟩ child) code) :
    v.Settled plugins st b child code
      (SetupHelper.setBound skins name ⟨b.name, b.read st⟩ child) := by
  unfold SetupHelper.setBound Binding.read at hreply ⊢
  cases htype : b.type with
  | string maxLength =>
      rw [htype] at hreply
      cases child with
      | string str =>
          dsimp only at hreply ⊢
          cases hcalls : SetupHelper.appearance skins name str with
          | none =>
              rw [hcalls] at hreply
              obtain ⟨message, hmessage⟩ := hreply
              cases hmessage
          | some changes =>
              rw [hcalls] at hreply
              exact v.settled_setString plugins st htype hcalls hreply
      | _ => exact v.settled_wrongArgument plugins st hreply
  | int32 minValue maxValue =>
      rw [htype] at hreply
      cases child with
      | int32 n =>
          dsimp only at hreply ⊢
          by_cases hrange : n < minValue ∨ maxValue < n
          · rw [if_pos hrange] at hreply ⊢
            exact v.settled_wrongArgument plugins st hreply
          · rw [if_neg hrange] at hreply ⊢
            refine v.settled_setNumber plugins st (fun lo hi hint => ?_) hreply
            rw [htype] at hint
            cases hint
            exact ⟨rfl, by omega, by omega⟩
      | _ => exact v.settled_wrongArgument plugins st hreply
  | timeT =>
      rw [htype] at hreply
      cases child with
      | int64 n =>
          refine v.settled_setNumber plugins st (fun lo hi hint => ?_) hreply
          rw [htype] at hint
          cases hint
      | _ => exact v.settled_wrongArgument plugins st hreply

/-- **Rejected or written.** A `Set` that does not reply 900 changes nothing; one that does for a
bound name changes no other variable of a binding, and an `int` is then the given number, within its
range. -/
theorem set_frame (skins : Skins) (name : Bytes) (child : Variant) (code : Int)
    (hreply : RepliesCode
      (SetupHelper.set (v.settings st) plugins skins [.string name, .variant child]) code) :
    (code ≠ 900 → v.run plugins st
      (SetupHelper.set (v.settings st) plugins skins [.string name, .variant child]) = st) ∧
    (code = 900 → ∀ b ∈ v.bindings, strcaseeq b.name name →
      Writes b child st (v.run plugins st
        (SetupHelper.set (v.settings st) plugins skins [.string name, .variant child])) ∧
      ∀ other ∈ v.bindings, other ≠ b → other.read (v.run plugins st
        (SetupHelper.set (v.settings st) plugins skins [.string name, .variant child])) =
          other.read st) := by
  cases hfind : SetupHelper.find (v.settings st) name with
  | none =>
      rw [SetupHelper.set_unbound hfind] at hreply ⊢
      refine ⟨fun hcode => ?_, fun _ b hb hname => ?_⟩
      · exact (v.setUnbound_cases plugins st hreply).resolve_left hcode
      · rw [v.find_settings st hb hname] at hfind
        cases hfind
  | some found =>
      obtain ⟨b, hb, hname, rfl⟩ := v.exists_of_find_settings st hfind
      rw [SetupHelper.set_bound hfind] at hreply ⊢
      rcases v.setBound_settled plugins st hreply with ⟨hcode, hwrites⟩ | ⟨hcode, hsame⟩
      · refine ⟨fun hne => absurd hcode hne, fun _ a ha hname' => ?_⟩
        obtain rfl : a = b := v.binding_unique ha hb hname' hname
        exact ⟨hwrites, fun other hother hne =>
          hwrites.frame.read_eq fun heq => hne (v.name_injective hother ha heq)⟩
      · exact ⟨fun _ => hsame, fun h900 => absurd (hcode.symm.trans h900) (by decide)⟩

end Run

/-- VDR 1.7.28 with one device and no plugins. -/
def plain : SetupVdr where
  limits := ⟨16, 32, 32, 256, 64, 1, 3, 99, 99, 100, 1048570⟩
  versnum := 10728
  load := SetupLine.parse
  parseLine := SetupLine.parse
  setupParse := fun _ _ _ => false
  utf8Strn0Cpy := fun value maxLength => value.take (maxLength.toNat - 1)
  save := fun st => st.setup
  reread := id
  setupStore := fun _ _ _ setup => setup

theorem antiAlias_mem_plain : Binding.newInt32 "AntiAlias" 0 1 ∈ plain.bindings := by
  unfold bindings Binding.bindings
  rw [List.mem_mergeSort, List.mem_filter]
  exact ⟨by simp [Binding.table], rfl⟩

def noPlugins : LoadedPlugins := ⟨[], List.nodup_nil⟩

def noSkins : Skins := ⟨none, [], fun _ => false⟩

def cleared : SetupState := ⟨fun _ => [], fun _ => 0, {}⟩

def setAntiAlias (n : Int) : Trace :=
  SetupHelper.set (plain.settings cleared) noPlugins noSkins
    [.string (ascii "antialias"), .variant (.int32 n)]

/-- Anti-aliasing is switched on, and not set to 2. -/
theorem set_frame_antiAlias :
    Writes (Binding.newInt32 "AntiAlias" 0 1) (.int32 1) cleared
      (plain.run noPlugins cleared (setAntiAlias 1)) ∧
    plain.run noPlugins cleared (setAntiAlias 2) = cleared := by
  have hname : strcaseeq (ascii "AntiAlias") (ascii "antialias") := by decide
  have hfind := plain.find_settings cleared antiAlias_mem_plain hname
  have hset : ∀ n, setAntiAlias n = SetupHelper.setBound noSkins (ascii "antialias")
      ⟨ascii "AntiAlias", .int32 0 0 1⟩ (.int32 n) := fun _ => SetupHelper.set_bound hfind
  have hone : RepliesCode (setAntiAlias 1) 900 := by
    rw [hset]
    exact ⟨_, rfl⟩
  have htwo : RepliesCode (setAntiAlias 2) 501 := by
    rw [hset]
    exact ⟨_, rfl⟩
  refine ⟨?_, ?_⟩
  · exact ((plain.set_frame noPlugins cleared noSkins _ _ 900 hone).2 rfl _ antiAlias_mem_plain
      hname).1
  · exact (plain.set_frame noPlugins cleared noSkins _ _ 501 htwo).1 (by decide)

end SetupVdr

end Dbus2vdr

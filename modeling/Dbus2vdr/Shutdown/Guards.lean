import Dbus2vdr.Objects.Settings
import Dbus2vdr.Objects.System

/-!
# When VDR may go down, and when it wakes up

`ConfirmShutdown` looks at the activities, at the next timer and at the plugin that wakes VDR up
next. It compares their distance with `MinEventTimeout * 60`, a product of two `int`s, while
`setup.Set` takes every `int` that is not negative for `MinEventTimeout`: from 35791395 minutes on
the product is no longer that number of seconds.

`NextWakeupTime` selects the earlier one of the two anew, and differs from `ConfirmShutdown` where
there is only a plugin.
-/

namespace Dbus2vdr.ShutdownHelper

/-! ### The setting -/

/-- `cSetupBinding::NewInt32(&Setup.MinEventTimeout, "MinEventTimeout")`, with the default
bounds. -/
def minEventTimeoutBinding (n : Int) : SetupBinding :=
  ⟨ascii "MinEventTimeout", .int32 n 0 intMax⟩

/-- `setup.Set` stores the value. -/
def SettingAccepted (minutes : Int) : Prop :=
  ∃ skins name n, .did (.setNumber (ascii "MinEventTimeout") minutes) ∈
    SetupHelper.setBound skins name (minEventTimeoutBinding n) (.int32 minutes)

theorem settingAccepted_iff (minutes : Int) :
    SettingAccepted minutes ↔ 0 ≤ minutes ∧ minutes ≤ intMax := by
  constructor
  · rintro ⟨skins, name, n, hset⟩
    by_contra hrange
    have hout : minutes < 0 ∨ intMax < minutes := by omega
    simp [SetupHelper.setBound, minEventTimeoutBinding, hout, SetupHelper.wrongArgument,
      sendReply] at hset
  · rintro ⟨hmin, hmax⟩
    have hin : ¬ (minutes < 0 ∨ intMax < minutes) := by omega
    refine ⟨⟨none, [], fun _ => false⟩, [], 0, ?_⟩
    simp [SetupHelper.setBound, minEventTimeoutBinding, hin]

/-! ### The guards -/

variable {s : ShutdownState} {params : Params}

def ReadyReply : Reply → Prop
  | .value (.int code :: _) => code = 250 ∨ code = 990
  | _ => False

/-- The reply is 250 or 990. -/
def Confirms (trace : Trace) : Prop := ∃ r ∈ Answer.replies trace, ReadyReply r

@[simp]
theorem confirms_answer {reply : Shutdown.Reply} :
    Confirms (answer reply) ↔ reply.replyCode = 250 ∨ reply.replyCode = 990 := by
  simp [Confirms, answer, Answer.replies, Answer.Act.reply?, ReadyReply]

theorem not_confirms_refuse {code : Int} {message : Bytes} (hcode : code ≠ 250 ∧ code ≠ 990) :
    ¬ Confirms (refuse code message) := by
  rw [refuse, confirms_answer]
  exact not_or.mpr hcode

/-- What `ConfirmShutdown` asks about activities is all answered in its favour. -/
structure Clear (s : ShutdownState) (params : Params) : Prop where
  user : params.boolean 0 false = true ∨ s.userInactive = true
  cutter : s.cutterActive = false
  recording : s.recording = false
  plugin : s.pluginActive = false
  vdr : s.remoteEnabled = true → s.confirmed = true

/-- The replies 903 and 904 for the next timer. -/
def TimerNear (s : ShutdownState) : Prop :=
  next s ≠ 0 ∧ (delta s ≤ 0 ∨ delta s ≤ minEventSeconds s)

def PluginNear (s : ShutdownState) : Prop :=
  nextPlugin s ≠ 0 ∧ deltaPlugin s ≤ minEventSeconds s

def hooks (s : ShutdownState) : Option (Bytes × Bytes) :=
  match s.hooksDir.filter (· ≠ []), s.hooksWrapper.filter (· ≠ []) with
  | some hooksDir, some hooksWrapper => some (hooksDir, hooksWrapper)
  | _, _ => none

def hookCommand (s : ShutdownState) (hooksDir hooksWrapper : Bytes) : Bytes :=
  let params := strescape (hookParameters s) (ascii "\\\"")
  let call := hooksWrapper ++ ascii " " ++ hooksDir ++ ascii " \"" ++ params ++ ascii "\""
  if s.wrapperExecutable then call else ascii "/bin/sh " ++ call

/-- The wrapper ends well and does not ask for another try. -/
def HooksAgree (s : ShutdownState) : Prop :=
  ∀ h ∈ hooks s, (s.wrapper (hookCommand s h.1 h.2)).1 = 0 ∧
    Shutdown.tryAgain (Shutdown.result (s.wrapper (hookCommand s h.1 h.2)).2) = none

theorem confirms_judge (ret : Int) (output params : Bytes) :
    Confirms (answer (Shutdown.judge ret output params)) ↔
      ret = 0 ∧ Shutdown.tryAgain (Shutdown.result output) = none := by
  rw [confirms_answer]
  unfold Shutdown.judge
  by_cases hret : ret = 0
  · rw [if_neg (not_not.mpr hret)]
    cases Shutdown.tryAgain (Shutdown.result output) with
    | some again => simp
    | none =>
        refine iff_of_true ?_ ⟨hret, rfl⟩
        dsimp only
        split
        · exact .inr rfl
        · exact .inl rfl
  · rw [if_pos hret]
    refine iff_of_false ?_ fun hboth => hret hboth.1
    split <;> simp

theorem confirms_askHooks (s : ShutdownState) (hooksDir hooksWrapper : Bytes) :
    Confirms (askHooks s hooksDir hooksWrapper) ↔
      (s.wrapper (hookCommand s hooksDir hooksWrapper)).1 = 0 ∧
        Shutdown.tryAgain
          (Shutdown.result (s.wrapper (hookCommand s hooksDir hooksWrapper)).2) = none := by
  rw [← confirms_judge _ _ (strescape (hookParameters s) (ascii "\\\""))]
  simp [Confirms, askHooks, hookCommand, answer, Answer.replies, Answer.Act.reply?]

/-- No guard replies. -/
structure Unguarded (s : ShutdownState) (params : Params) : Prop extends Clear s params where
  timerFar : ¬ TimerNear s
  pluginFar : ¬ PluginNear s

theorem confirmShutdown_of_unguarded (h : Unguarded s params) :
    confirmShutdown s params =
      match hooks s with
      | some (hooksDir, hooksWrapper) => askHooks s hooksDir hooksWrapper
      | none => refuse 250 Shutdown.readyMessage := by
  have huser : ¬ ((!params.boolean 0 false && !s.userInactive) = true) := by
    cases h.user with
    | inl hignore => simp [hignore]
    | inr hinactive => simp [hinactive]
  have hactive : ¬ (s.recording = true ∨ next s ≠ 0 ∧ delta s ≤ 0) := by
    rintro (hrecording | ⟨hnext, hdelta⟩)
    · exact absurd (h.recording.symm.trans hrecording) Bool.false_ne_true
    · exact h.timerFar ⟨hnext, .inl hdelta⟩
  have hnear : ¬ (next s ≠ 0 ∧ delta s ≤ minEventSeconds s) :=
    fun hnear => h.timerFar ⟨hnear.1, .inr hnear.2⟩
  have hpluginNear : ¬ (nextPlugin s ≠ 0 ∧ deltaPlugin s ≤ minEventSeconds s) := h.pluginFar
  have hvdr : ¬ ((s.remoteEnabled && !s.confirmed) = true) := by
    cases hremote : s.remoteEnabled with
    | false => simp
    | true => simp [h.vdr hremote]
  rw [confirmShutdown, if_neg huser, if_neg (by simp [h.cutter]), if_neg hactive, if_neg hnear,
    if_neg (by simp [h.plugin]), if_neg hpluginNear, if_neg hvdr, hooks]
  cases s.hooksDir.filter (· ≠ []) with
  | none => rfl
  | some hooksDir => cases s.hooksWrapper.filter (· ≠ []) <;> rfl

/-- Where a guard replies, it refuses, and the hooks are not asked. -/
theorem confirmShutdown_of_guarded (h : ¬ Unguarded s params) :
    ∃ code message, confirmShutdown s params = refuse code message ∧
    code ≠ 250 ∧ code ≠ 990 := by
  unfold confirmShutdown
  split_ifs with huser hcutter hactive hnear hplugin hpluginNear hvdr
  case neg =>
    refine absurd ⟨⟨?_, ?_, ?_, ?_, ?_⟩, ?_, hpluginNear⟩ h
    · cases hignore : params.boolean 0 false with
      | true => exact .inl rfl
      | false => exact .inr (by simpa [hignore] using huser)
    · exact Bool.not_eq_true _ ▸ hcutter
    · exact Bool.eq_false_iff.mpr fun hrecording => hactive (.inl hrecording)
    · exact Bool.not_eq_true _ ▸ hplugin
    · intro hremote
      simpa [hremote] using hvdr
    · rintro ⟨hnext, hdelta | hdelta⟩
      · exact hactive (.inr ⟨hnext, hdelta⟩)
      · exact hnear ⟨hnext, hdelta⟩
  all_goals exact ⟨_, _, rfl, by decide, by decide⟩

theorem confirms_iff :
    Confirms (confirmShutdown s params) ↔ Unguarded s params ∧ HooksAgree s := by
  by_cases h : Unguarded s params
  · rw [confirmShutdown_of_unguarded h, and_iff_right h, HooksAgree]
    cases hooks s with
    | none => simp [refuse]
    | some h => simp [confirms_askHooks]
  · obtain ⟨code, message, hrefuse, hcode⟩ := confirmShutdown_of_guarded h
    rw [hrefuse]
    exact iff_of_false (not_confirms_refuse hcode) fun hboth => h hboth.1

/-! ### Whether it is safe -/

/-- What a shutdown takes, in exact numbers. -/
structure Safe (s : ShutdownState) (params : Params) : Prop where
  user : params.boolean 0 false = true ∨ s.userInactive = true
  cutter : s.cutterActive = false
  recording : s.recording = false
  plugin : s.pluginActive = false
  timerLater : ∀ t ∈ s.timer, s.now + s.minEventTimeout * 60 < t.startTime
  wakeupLater : ∀ p ∈ s.plugin, s.now + s.minEventTimeout * 60 < p.wakeupTime

/-- The timer starts within the time out, but its time is taken for none, or the product has come
out too small. -/
def TimerOverlooked (s : ShutdownState) : Prop :=
  ∃ t ∈ s.timer, (t.startTime = 0 ∨ s.now + max 0 (minEventSeconds s) < t.startTime) ∧
    t.startTime ≤ s.now + s.minEventTimeout * 60

def PluginOverlooked (s : ShutdownState) : Prop :=
  ∃ p ∈ s.plugin, (p.wakeupTime = 0 ∨ s.now + minEventSeconds s < p.wakeupTime) ∧
    p.wakeupTime ≤ s.now + s.minEventTimeout * 60

theorem timerLater_iff (hfar : ¬ TimerNear s) :
    (∀ t ∈ s.timer, s.now + s.minEventTimeout * 60 < t.startTime) ↔ ¬ TimerOverlooked s := by
  unfold TimerNear delta next at hfar
  unfold TimerOverlooked
  cases htimer : s.timer with
  | none => simp
  | some t =>
      rw [htimer] at hfar
      simp only [Option.map_some, Option.getD_some, Option.isSome_some, if_true] at hfar
      simp only [Option.mem_some_iff, forall_eq', exists_eq_left']
      omega

theorem wakeupLater_iff (hfar : ¬ PluginNear s) :
    (∀ p ∈ s.plugin, s.now + s.minEventTimeout * 60 < p.wakeupTime) ↔
    ¬ PluginOverlooked s := by
  unfold PluginNear deltaPlugin nextPlugin at hfar
  unfold PluginOverlooked
  cases hplugin : s.plugin with
  | none => simp
  | some p =>
      rw [hplugin] at hfar
      simp only [Option.map_some, Option.getD_some] at hfar
      simp only [Option.mem_some_iff, forall_eq', exists_eq_left']
      by_cases hzero : p.wakeupTime = 0
      · simp [hzero]
      · rw [if_pos hzero] at hfar
        omega

/-- **Safe shutdowns.** A confirmed shutdown is safe exactly when, should no guard and no hook
object to it, neither event is overlooked. -/
theorem confirmShutdown_safe_iff (s : ShutdownState) (params : Params) :
    (Confirms (confirmShutdown s params) → Safe s params) ↔
      (Unguarded s params → HooksAgree s → ¬ TimerOverlooked s ∧ ¬ PluginOverlooked s) := by
  rw [confirms_iff, and_imp]
  refine forall_congr' fun hun => imp_congr_right fun _ => ?_
  rw [← timerLater_iff hun.timerFar, ← wakeupLater_iff hun.pluginFar]
  constructor
  · intro hsafe
    exact ⟨hsafe.timerLater, hsafe.wakeupLater⟩
  · rintro ⟨htimer, hwakeup⟩
    exact ⟨hun.user, hun.cutter, hun.recording, hun.plugin, htimer, hwakeup⟩

/-- Up to 35791394 minutes the product is the number of seconds, and only times of 0 are
overlooked. -/
theorem minEventSeconds_of_le (hmin : 0 ≤ s.minEventTimeout)
    (hmax : s.minEventTimeout * 60 ≤ intMax) :
    minEventSeconds s = s.minEventTimeout * 60 := by
  unfold intMax at hmax
  rw [minEventSeconds, longToInt, Int.bmod_eq_of_le (by omega) (by omega)]

theorem not_overlooked_of_le (hmin : 0 ≤ s.minEventTimeout)
    (hmax : s.minEventTimeout * 60 ≤ intMax) (htimer : ∀ t ∈ s.timer, t.startTime ≠ 0)
    (hplugin : ∀ p ∈ s.plugin, p.wakeupTime ≠ 0) :
    ¬ TimerOverlooked s ∧ ¬ PluginOverlooked s := by
  have hproduct := minEventSeconds_of_le hmin hmax
  constructor
  · rintro ⟨t, ht, hfar, hnear⟩
    have hzero := htimer t ht
    omega
  · rintro ⟨p, hp, hfar, hnear⟩
    have hzero := hplugin p hp
    omega

/-- An idle VDR without hooks; `timer` and `plugin` come next, and the time out is `minutes`. -/
def idle (now minutes : Int) (timer : Option NextTimer) (plugin : Option WakeupPlugin) :
    ShutdownState where
  userInactive := true
  cutterActive := false
  now := now
  timer := timer
  recording := false
  minEventTimeout := minutes
  pluginActive := false
  plugin := plugin
  remoteEnabled := false
  confirmed := false
  hooksDir := none
  hooksWrapper := none
  wrapperExecutable := false
  wrapper := fun _ => (0, [])
  nextWakeupTime := 0
  startupTime := 0

/-- The greatest time out but for the ones that fit, and a timer that starts in a minute. -/
theorem not_forall_safe :
    ¬ ∀ s params, SettingAccepted s.minEventTimeout →
      Confirms (confirmShutdown s params) → Safe s params := by
  intro h
  let s := idle 1000 35791395 (some ⟨1060, 1, []⟩) none
  have haccepted : SettingAccepted s.minEventTimeout := (settingAccepted_iff _).mpr (by decide)
  have hfar : ¬ TimerNear s := by
    rintro ⟨-, hnear⟩
    exact absurd hnear (by decide)
  have hclear : Clear s [] := ⟨.inr rfl, rfl, rfl, rfl, fun hremote => by cases hremote⟩
  have hun : Unguarded s [] := ⟨hclear, hfar, fun hnear => hnear.1 rfl⟩
  have hsafe := h s [] haccepted (confirms_iff.mpr ⟨hun, fun _ hnone => by cases hnone⟩)
  exact absurd (hsafe.timerLater _ rfl) (by decide)

/-! ### The next wake-up -/

/-- The start of the next timer and the plugin's wake-up as `NextWakeupTime` reports them, so far as
they exist and are still to come. -/
def wakeups (s : ShutdownState) : List (Int × Bytes) :=
  ((s.timer.map fun t => (t.startTime, ascii "timer")).toList ++
    (s.plugin.map fun p => (p.wakeupTime, ascii "plugin:" ++ p.name)).toList).filter
      fun w => s.now < w.1

def IsNextWakeup (s : ShutdownState) (time : Int) (info : Bytes) : Prop :=
  (wakeups s = [] ∧ time = 0) ∨
    (time ≠ 0 ∧ (time, info) ∈ wakeups s ∧ ∀ w ∈ wakeups s, time ≤ w.1)

/-- The call of the wrapper up to the quote its parameters stand in. -/
def commandHead (s : ShutdownState) (hooksDir hooksWrapper : Bytes) : Bytes :=
  (if s.wrapperExecutable then [] else ascii "/bin/sh ") ++
    (hooksWrapper ++ ascii " " ++ hooksDir ++ ascii " \"")

/-- The first of the parameters in a command for the hooks is the number `time`. -/
def HandsNext (s : ShutdownState) (cmd : Bytes) (time : Int) : Prop :=
  ∃ h ∈ hooks s, ∃ rest, cmd = commandHead s h.1 h.2 ++ (decimal time ++ (ascii " " ++ rest))

/-- `Next` as `ConfirmShutdown` selects it for the hooks. -/
def handedNext (s : ShutdownState) : Int :=
  if nextPlugin s ≠ 0 ∧ (next s = 0 ∨ nextPlugin s < next s) then nextPlugin s else next s

theorem parameters_next (next delta : Int) (timer : Option (Int × Bytes)) (plugin : Option Bytes) :
    ∃ rest, Shutdown.parameters next delta timer plugin =
      decimal next ++ (ascii " " ++ rest) := by
  have hformat : ∀ channel name, ∃ rest,
      Shutdown.format next delta channel name = decimal next ++ (ascii " " ++ rest) := by
    intro channel name
    refine ⟨decimal delta ++ (ascii " " ++ (decimal channel ++ (ascii " \"" ++ (name ++
      (ascii "\" " ++ decimal 0))))), ?_⟩
    simp only [Shutdown.format, List.append_assoc]
  unfold Shutdown.parameters
  split
  · exact hformat 0 []
  · split
    · exact hformat _ _
    · exact hformat 0 _
    · exact hformat 0 []

theorem hookParameters_next (s : ShutdownState) :
    ∃ rest, hookParameters s = decimal (handedNext s) ++ (ascii " " ++ rest) :=
  parameters_next (handedNext s) _ _ _

/-- `NextWakeupTime` reports the next wake-up, and every command `ConfirmShutdown` runs for the
hooks tells them the same. -/
def WakeupReported (s : ShutdownState) (params : Params) : Prop :=
  ∃ time info, nextWakeupTime s = [.reply (.value [.int time, .string (some info)])] ∧
    IsNextWakeup s time info ∧
      ∀ cmd, .did (.runHooks cmd) ∈ confirmShutdown s params → HandsNext s cmd time

theorem hookCommand_next (s : ShutdownState) (hooksDir hooksWrapper : Bytes) :
    ∃ rest, hookCommand s hooksDir hooksWrapper =
      commandHead s hooksDir hooksWrapper ++ (decimal (handedNext s) ++ (ascii " " ++ rest)) := by
  obtain ⟨rest, hrest⟩ := hookParameters_next s
  have hplain : ∀ b ∈ decimal (handedNext s) ++ ascii " ", b ∉ ascii "\\\"" := by
    intro b hb
    rcases List.mem_append.mp hb with hdecimal | hblank
    · rcases mem_decimal hdecimal with rfl | hdigit
      · decide
      · intro hspecial
        have hspecial : b = 92 ∨ b = 34 := by simpa [ascii] using hspecial
        rcases hspecial with rfl | rfl <;> exact absurd hdigit (by decide)
    · obtain rfl := List.mem_singleton.mp hblank
      decide
  have hescaped : strescape (hookParameters s) (ascii "\\\"") =
      decimal (handedNext s) ++ (ascii " " ++ strescape rest (ascii "\\\"")) := by
    rw [hrest, strescape_eq, strescape_eq, ← List.append_assoc, Escape.escape_append,
      Escape.escape_of_disjoint hplain, List.append_assoc]
  refine ⟨strescape rest (ascii "\\\"") ++ ascii "\"", ?_⟩
  unfold hookCommand commandHead
  rw [hescaped]
  split_ifs <;> simp only [List.append_assoc, List.nil_append]

theorem mem_confirmShutdown_iff {cmd : Bytes} :
    .did (.runHooks cmd) ∈ confirmShutdown s params ↔
      Unguarded s params ∧ ∃ h ∈ hooks s, cmd = hookCommand s h.1 h.2 := by
  by_cases h : Unguarded s params
  · rw [confirmShutdown_of_unguarded h, and_iff_right h]
    cases hooks s with
    | none => simp [refuse, answer]
    | some h => simp [askHooks, answer, hookCommand]
  · obtain ⟨code, message, hrefuse, -⟩ := confirmShutdown_of_guarded h
    rw [hrefuse]
    refine iff_of_false ?_ fun hboth => h hboth.1
    intro hcmd
    simp [refuse, answer] at hcmd

/-- The number is read off the command, so it can only be the one that was selected. -/
theorem handsNext_hookCommand_iff {h : Bytes × Bytes} (hhooks : hooks s = some h) (time : Int) :
    HandsNext s (hookCommand s h.1 h.2) time ↔ handedNext s = time := by
  obtain ⟨rest, hcommand⟩ := hookCommand_next s h.1 h.2
  constructor
  · rintro ⟨h', hh', rest', hcommand'⟩
    obtain rfl : h = h' := Option.some.inj (hhooks.symm.trans hh')
    have hword (n : Int) (t : Bytes) :
        (decimal n ++ (ascii " " ++ t)).takeWhile (fun b => b ≠ 32) = decimal n := by
      rw [List.takeWhile_append_of_pos, show ascii " " ++ t = 32 :: t from rfl,
        List.takeWhile_cons_of_neg (by decide), List.append_nil]
      intro b hb
      rcases mem_decimal hb with rfl | hdigit
      · decide
      · have hne : b ≠ 32 := by
          rintro rfl
          exact absurd hdigit (by decide)
        simpa using hne
    have hequal := List.append_cancel_left (hcommand.symm.trans hcommand')
    apply decimal_injective
    rw [← hword (handedNext s) rest, hequal, hword]
  · rintro rfl
    exact ⟨h, hhooks, rest, hcommand⟩

/-- What `NextWakeupTime` selects. -/
def selected (s : ShutdownState) : Int × Bytes :=
  let timer := if s.now < next s then (next s, ascii "timer") else ((0 : Int), ([] : Bytes))
  if s.now < nextPlugin s ∧ nextPlugin s < timer.1 then
    (nextPlugin s, ascii "plugin:" ++ printed (s.plugin.map (·.name)))
  else timer

theorem nextWakeupTime_eq (s : ShutdownState) :
    nextWakeupTime s = [.reply (.value [.int (selected s).1, .string (some (selected s).2)])] := by
  unfold nextWakeupTime selected
  split_ifs <;> rfl

theorem wakeupReported_iff_selected :
    WakeupReported s params ↔ IsNextWakeup s (selected s).1 (selected s).2 ∧
      (Unguarded s params → hooks s ≠ none → handedNext s = (selected s).1) := by
  have hhanded (time : Int) :
      (∀ cmd, .did (.runHooks cmd) ∈ confirmShutdown s params → HandsNext s cmd time) ↔
        (Unguarded s params → hooks s ≠ none → handedNext s = time) := by
    simp only [mem_confirmShutdown_iff]
    constructor
    · intro hall hun hset
      obtain ⟨h, hhooks⟩ := Option.ne_none_iff_exists'.mp hset
      exact (handsNext_hookCommand_iff hhooks time).mp (hall _ ⟨hun, h, hhooks, rfl⟩)
    · rintro hright cmd ⟨hun, h, hhooks, rfl⟩
      exact (handsNext_hookCommand_iff hhooks time).mpr
        (hright hun (Option.ne_none_iff_exists'.mpr ⟨h, hhooks⟩))
  constructor
  · rintro ⟨time, info, hreply, hright⟩
    rw [nextWakeupTime_eq] at hreply
    simp only [List.cons.injEq, Answer.Act.reply.injEq, Reply.value.injEq, Value.int.injEq,
      Value.string.injEq, Option.some.injEq, and_true] at hreply
    rw [hreply.1, hreply.2]
    exact ⟨hright.1, (hhanded time).mp hright.2⟩
  · intro hright
    exact ⟨_, _, nextWakeupTime_eq s, hright.1, (hhanded _).mpr hright.2⟩

theorem isNextWakeup_selected_iff (hnow : 0 ≤ s.now) :
    IsNextWakeup s (selected s).1 (selected s).2 ↔ (s.now < nextPlugin s → s.now < next s) := by
  unfold IsNextWakeup wakeups selected next nextPlugin
  cases s.timer with
  | none =>
      have hnone : ¬ s.now < 0 := by omega
      cases s.plugin with
      | none => simp [hnone]
      | some p =>
          by_cases hp : s.now < p.wakeupTime
          · have hpositive : ¬ p.wakeupTime < 0 := by omega
            simp [hnone, hp, hpositive]
          · simp [hnone, hp]
  | some t =>
      cases s.plugin with
      | none =>
          have hnone : ¬ s.now < 0 := by omega
          by_cases ht : s.now < t.startTime
          · have hzero : t.startTime ≠ 0 := by omega
            simp [ht, hnone, hzero]
          · simp [ht, hnone]
      | some p =>
          by_cases ht : s.now < t.startTime
          · have hzero : t.startTime ≠ 0 := by omega
            by_cases hp : s.now < p.wakeupTime
            · have hzero' : p.wakeupTime ≠ 0 := by omega
              by_cases hfirst : p.wakeupTime < t.startTime
              · simp [ht, hp, hfirst, hzero', printed, hfirst.le]
              · simp [ht, hp, hfirst, hzero, Int.not_lt.mp hfirst]
            · simp [ht, hp, hzero]
          · by_cases hp : s.now < p.wakeupTime
            · have hpositive : ¬ p.wakeupTime < 0 := by omega
              simp [ht, hp, hpositive]
            · simp [ht, hp]

/-- When the hooks are asked, the timer is still to come, and so is the plugin's wake-up unless the
product has come out below zero. -/
theorem handedNext_eq_selected_iff (hnow : 0 ≤ s.now) (hun : Unguarded s params)
    (hfirst : s.now < nextPlugin s → s.now < next s) :
    handedNext s = (selected s).1 ↔ (nextPlugin s ≠ 0 → s.now < nextPlugin s) := by
  have htimer : next s = 0 ∨ s.now < next s := by
    have hfar := hun.timerFar
    unfold TimerNear delta at hfar
    cases htimer : s.timer with
    | none => exact .inl (by simp [next, htimer])
    | some t =>
        rw [htimer, Option.isSome_some, if_pos rfl] at hfar
        omega
  by_cases hcoming : s.now < nextPlugin s
  · -- Both are to come, and the earlier one is taken on either side.
    have hnext : s.now < next s := hfirst hcoming
    have hpositive : nextPlugin s ≠ 0 := by omega
    have hset : next s ≠ 0 := by omega
    refine iff_of_true ?_ fun _ => hcoming
    by_cases hearlier : nextPlugin s < next s
    · simp [handedNext, selected, hcoming, hnext, hpositive, hearlier]
    · simp [handedNext, selected, hnext, hset, hearlier]
  · have hselected : (selected s).1 = next s := by
      obtain hzero | hnext := htimer
      · simp [selected, hcoming, hzero, Int.not_lt.mpr hnow]
      · simp [selected, hcoming, hnext]
    rw [hselected]
    unfold handedNext
    by_cases hplugin : nextPlugin s = 0
    · simp [hplugin]
    · -- It has passed, so that it is taken for the next one.
      have hdiffers : nextPlugin s ≠ next s := by omega
      have hearlier : next s = 0 ∨ nextPlugin s < next s := by omega
      simp [hplugin, hearlier, hdiffers, hcoming]

/-- **The next wake-up.** It is reported, and the hooks are told the same, exactly when no plugin's
wake-up is to come without a timer that is to come, and the hooks are not asked while a plugin's
wake-up has passed. -/
theorem wakeupReported_iff (params : Params) (hnow : 0 ≤ s.now) :
    WakeupReported s params ↔ (s.now < nextPlugin s → s.now < next s) ∧
      (Unguarded s params → hooks s ≠ none → nextPlugin s ≠ 0 →
        s.now < nextPlugin s) := by
  rw [wakeupReported_iff_selected, isNextWakeup_selected_iff hnow]
  refine and_congr_right fun hfirst => forall_congr' fun hun => imp_congr_right fun _ => ?_
  exact handedNext_eq_selected_iff hnow hun hfirst

def epgScan : WakeupPlugin := ⟨ascii "epgscan", 2000⟩

def evening : ShutdownState := idle 1000 0 (some ⟨3000, 1, []⟩) (some epgScan)

theorem wakeupReported_evening :
    0 ≤ evening.now ∧ (WakeupReported evening [] ↔
      (evening.now < nextPlugin evening → evening.now < next evening) ∧
        (Unguarded evening [] → hooks evening ≠ none → nextPlugin evening ≠ 0 →
          evening.now < nextPlugin evening)) :=
  ⟨by decide, wakeupReported_iff [] (by decide)⟩

/-- Only a plugin is to wake VDR up, and nothing is reported. -/
theorem not_forall_wakeupReported :
    ¬ ∀ (s : ShutdownState) (params : Params), 0 ≤ s.now → WakeupReported s params := by
  intro h
  have hright := wakeupReported_iff_selected.mp (h (idle 1000 0 none (some epgScan)) [] (by decide))
  exact absurd ((isNextWakeup_selected_iff (by decide)).mp hright.1 (by decide)) (by decide)

end Dbus2vdr.ShutdownHelper

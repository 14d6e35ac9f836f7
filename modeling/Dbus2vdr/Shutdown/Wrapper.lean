import Dbus2vdr.Shutdown.ReplyCodes

/-!
# The hooks the wrapper asks

`ConfirmShutdown` of the wrapper with the hooks it runs. The verdict is a walk over the hooks in
their order, with three ways to end it. `confirmShutdown_folds_iff` says when it is the one that is
promised: the hook that ends the walk has to say so in a way that can be read.
-/

namespace Dbus2vdr.Shutdown

/-- A directory with hooks. One that cannot be run has status -1 and no output. -/
structure HooksDir where
  path : Bytes
  /-- The names as `rd.Next()` finds them. -/
  files : List Bytes
  outcome : Bytes → Outcome

/-- What has been run, what is printed, and the value `ConfirmShutdown` returns. -/
structure Confirmation where
  ran : List Bytes
  printed : Bytes
  status : Int
  deriving DecidableEq, Repr

def confirmLoop (outcome : Bytes → Outcome) : List Bytes → Option Bytes → Confirmation
  | [], shutdowncmd =>
      match shutdowncmd with
      | some cmd => if 0 < cmd.length then ⟨[], cmd, 0⟩ else ⟨[], readyMessage, 0⟩
      | none => ⟨[], readyMessage, 0⟩
  | hook :: hooks, shutdowncmd =>
      let result := result (outcome hook).output
      if (outcome hook).status ≠ 0 then
        match result with
        | some r => ⟨[hook], r, 992⟩
        | none => ⟨[hook], failedMessage, 999⟩
      else if (tryAgain result).isSome then ⟨[hook], result.getD [], 991⟩
      else
        let rest := confirmLoop outcome hooks
          (if (behind shutdownCmdMessage result).isSome then result else shutdowncmd)
        { rest with ran := hook :: rest.ran }

namespace HooksDir

def hooks (dir : HooksDir) : List Bytes :=
  if dir.path = [] then []
  else dir.files.filter fun name => name ≠ ascii "." ∧ name ≠ ascii ".."

/-- `hooks.Sort()`, by `strcmp`. -/
def order (dir : HooksDir) : List Bytes := dir.hooks.mergeSort fun a b => decide (a ≤ b)

def confirmShutdown (dir : HooksDir) : Confirmation :=
  if dir.path ≠ [] ∧ dir.hooks ≠ [] then confirmLoop dir.outcome dir.order none
  else ⟨[], readyMessage, 0⟩

end HooksDir

/-- The loop without the names. -/
theorem askHooks_map (outcome : Bytes → Outcome) (hooks : List Bytes)
    (shutdowncmd : Option Bytes) :
    askHooks (hooks.map outcome) shutdowncmd =
      ((confirmLoop outcome hooks shutdowncmd).printed,
        (confirmLoop outcome hooks shutdowncmd).status) := by
  induction hooks generalizing shutdowncmd with
  | nil =>
      cases shutdowncmd with
      | none => rfl
      | some cmd =>
          rw [List.map_nil, askHooks, confirmLoop]
          split_ifs <;> rfl
  | cons hook hooks ih =>
      rw [List.map_cons, askHooks, confirmLoop]
      dsimp only
      split_ifs
      · cases result (outcome hook).output <;> rfl
      · rfl
      · exact ih _
      · exact ih _

/-! ### The walk that is promised -/

/-- What a hook has printed without the white space at the end. -/
def stripped (hook : Outcome) : Bytes := stripspace (cString hook.output)

inductive Stops : Outcome → Bytes → Prop
  | failed {hook : Outcome} : hook.status ≠ 0 → stripped hook ≠ [] →
  Stops hook (stripped hook)
  | silent {hook : Outcome} : hook.status ≠ 0 → stripped hook = [] → Stops hook failedMessage
  | tryAgain {hook : Outcome} {n : Bytes} : hook.status = 0 → IsPositiveInt n →
      stripped hook = tryAgainMessage ++ n ++ ascii "\"" → Stops hook (stripped hook)

/-- `SHUTDOWNCMD="` with something behind it. -/
def IsCommand (text : Bytes) : Prop :=
  shutdownCmdMessage <+: text ∧ shutdownCmdMessage.length < text.length

instance decidableIsCommand : DecidablePred IsCommand := fun text =>
  inferInstanceAs (Decidable (shutdownCmdMessage <+: text ∧ _))

def lastCommand (outcome : Bytes → Outcome) (hooks : List Bytes) : Option Bytes :=
  ((hooks.map fun hook => stripped (outcome hook)).filter (IsCommand ·)).getLast?

inductive Folds (outcome : Bytes → Outcome) (hooks : List Bytes) : Confirmation → Prop
  | stopped {front back : List Bytes} {hook printed : Bytes} {status : Int} :
      hooks = front ++ hook :: back →
        (∀ name ∈ front, ∀ text, ¬ Stops (outcome name) text) →
        Stops (outcome hook) printed → status ≠ 0 →
        Folds outcome hooks ⟨front ++ [hook], printed, status⟩
  | passed : (∀ name ∈ hooks, ∀ text, ¬ Stops (outcome name) text) →
      Folds outcome hooks ⟨hooks, (lastCommand outcome hooks).getD readyMessage, 0⟩

/-! ### The walk of the code -/

/-- `TRY_AGAIN="` with digits behind it that leave something positive in an `int`, and one more
character. -/
def AsksAgain (hook : Outcome) : Prop :=
  ∃ n c, stripped hook = tryAgainMessage ++ n ++ [c] ∧ isnumber n ∧ 0 < atoi n

def Ends (hook : Outcome) : Prop := hook.status ≠ 0 ∨ AsksAgain hook

/-- A failing hook prints nothing at all or some text; one that does not fail closes its quote, and
its number is none above the greatest `int`. -/
def Legible (hook : Outcome) : Prop :=
  (hook.status ≠ 0 → hook.output = [] ∨ stripped hook ≠ []) ∧
    (hook.status = 0 → ∃ n, IsPositiveInt n ∧
      stripped hook = tryAgainMessage ++ n ++ ascii "\"")

/-- The first hook that ends the walk is legible. -/
def EndsLegibly (outcome : Bytes → Outcome) (hooks : List Bytes) : Prop :=
  ∀ front hook back, hooks = front ++ hook :: back →
    (∀ name ∈ front, ¬ Ends (outcome name)) →
      Ends (outcome hook) → Legible (outcome hook)

theorem result_eq (hook : Outcome) :
    result hook.output = if hook.output = [] then none else some (stripped hook) := rfl

theorem stripped_of_nil {hook : Outcome} (hnil : hook.output = []) : stripped hook = [] := by
  rw [stripped, hnil]
  rfl

theorem behind_eq_some_iff {message text r : Bytes} :
    behind message (some r) = some text ↔ ∃ c, r = message ++ text ++ [c] := by
  rw [behind, Option.bind_some]
  constructor
  · intro h
    split_ifs at h with hcond
    obtain ⟨rest, rfl⟩ := startswith_iff.mp hcond.2
    have hne : rest ≠ [] := by
      rintro rfl
      simp at hcond
    rw [List.drop_left, Option.some.injEq, truncateLast] at h
    refine ⟨rest.getLast hne, ?_⟩
    rw [← h, List.append_assoc, List.dropLast_append_getLast hne]
  · rintro ⟨c, rfl⟩
    have hprefix : startswith (message ++ text ++ [c]) message := by
      rw [startswith_iff, List.append_assoc]
      exact List.prefix_append _ _
    rw [if_pos ⟨by simp, hprefix⟩, List.append_assoc, List.drop_left, truncateLast,
      List.dropLast_concat]

theorem isCommand_iff {text : Bytes} :
    (behind shutdownCmdMessage (some text)).isSome ↔ IsCommand text := by
  rw [behind, Option.bind_some]
  split_ifs with hcond
  · exact iff_of_true rfl ⟨startswith_iff.mp hcond.2, hcond.1⟩
  · refine iff_of_false (by simp) fun h => hcond ⟨h.2, startswith_iff.mpr h.1⟩

theorem asksAgain_iff {hook : Outcome} :
    (tryAgain (result hook.output)).isSome ↔ AsksAgain hook := by
  rw [result_eq]
  split_ifs with hnil
  · refine iff_of_false (by decide) ?_
    rintro ⟨n, c, htext, -⟩
    rw [stripped_of_nil hnil] at htext
    simp at htext
  · rw [Option.isSome_iff_exists]
    constructor
    · rintro ⟨n, hn⟩
      obtain ⟨hbehind, hpositive⟩ := Option.filter_eq_some_iff.mp hn
      obtain ⟨c, htext⟩ := behind_eq_some_iff.mp hbehind
      rw [Bool.and_eq_true, Bool.and_eq_true, decide_eq_true_eq, decide_eq_true_eq] at hpositive
      exact ⟨n, c, htext, hpositive.1.2, hpositive.2⟩
    · rintro ⟨n, c, htext, hnumber, hpositive⟩
      have hlength : 0 < n.length := List.length_pos_of_ne_nil (by rintro rfl; cases hnumber)
      refine ⟨n, Option.filter_eq_some_iff.mpr ⟨behind_eq_some_iff.mpr ⟨c, htext⟩, ?_⟩⟩
      rw [Bool.and_eq_true, Bool.and_eq_true, decide_eq_true_eq, decide_eq_true_eq]
      exact ⟨⟨hlength, hnumber⟩, hpositive⟩

/-- Where a hook is promised to end the walk, it does. -/
theorem Stops.ends {hook : Outcome} {text : Bytes} (h : Stops hook text) : Ends hook := by
  cases h with
  | failed hstatus => exact Or.inl hstatus
  | silent hstatus => exact Or.inl hstatus
  | @tryAgain n _ hint htext =>
      exact Or.inr ⟨n, _, htext, hint.1, longToInt_of_isPositiveInt hint⟩

theorem not_isCommand_nil : ¬ IsCommand [] := by decide

theorem kept_eq (hook : Outcome) (shutdowncmd : Option Bytes) :
    (if (behind shutdownCmdMessage (result hook.output)).isSome then result hook.output
      else shutdowncmd) =
      if IsCommand (stripped hook) then some (stripped hook) else shutdowncmd := by
  rw [result_eq]
  by_cases hnil : hook.output = []
  · rw [if_pos hnil, if_neg (by decide), stripped_of_nil hnil, if_neg not_isCommand_nil]
  · rw [if_neg hnil]
    by_cases hcommand : IsCommand (stripped hook)
    · rw [if_pos hcommand, if_pos (isCommand_iff.mpr hcommand)]
    · rw [if_neg hcommand, if_neg (isCommand_iff.not.mpr hcommand)]

/-- What the code makes of the hook that ends its walk. -/
def ended (hook : Outcome) : Bytes × Int :=
  if hook.status ≠ 0 then
    if hook.output = [] then (failedMessage, 999) else (stripped hook, 992)
  else (stripped hook, 991)

section Loop

variable {outcome : Bytes → Outcome} {hook : Bytes} {hooks : List Bytes}

theorem confirmLoop_cons (hends : ¬ Ends (outcome hook)) (hooks : List Bytes)
    (shutdowncmd : Option Bytes) :
    ∃ rest, rest = confirmLoop outcome hooks (if IsCommand (stripped (outcome hook)) then
        some (stripped (outcome hook)) else shutdowncmd) ∧
      confirmLoop outcome (hook :: hooks) shutdowncmd = { rest with ran := hook :: rest.ran } := by
  obtain ⟨hstatus, hasks⟩ := not_or.mp hends
  refine ⟨_, rfl, ?_⟩
  rw [confirmLoop]
  dsimp only
  rw [if_neg hstatus, if_neg (asksAgain_iff.not.mpr hasks), kept_eq]

theorem confirmLoop_of_ends (hends : Ends (outcome hook)) (hooks : List Bytes)
    (shutdowncmd : Option Bytes) :
    confirmLoop outcome (hook :: hooks) shutdowncmd =
      ⟨[hook], (ended (outcome hook)).1, (ended (outcome hook)).2⟩ := by
  rw [confirmLoop, ended]
  dsimp only
  by_cases hstatus : (outcome hook).status = 0
  · have hasks : AsksAgain (outcome hook) := hends.resolve_left (not_not.mpr hstatus)
    rw [if_neg (not_not.mpr hstatus), if_neg (not_not.mpr hstatus),
      if_pos (asksAgain_iff.mpr hasks), result_eq]
    split_ifs with hnil
    · rw [stripped_of_nil hnil]
      rfl
    · rfl
  · rw [if_pos hstatus, if_pos hstatus, result_eq]
    split_ifs with hnil
    · rfl
    · rfl

theorem confirmLoop_ends {front back : List Bytes}
    (hfront : ∀ name ∈ front, ¬ Ends (outcome name)) (hends : Ends (outcome hook))
    (shutdowncmd : Option Bytes) :
    confirmLoop outcome (front ++ hook :: back) shutdowncmd =
      ⟨front ++ [hook], (ended (outcome hook)).1, (ended (outcome hook)).2⟩ := by
  induction front generalizing shutdowncmd with
  | nil => exact confirmLoop_of_ends hends back shutdowncmd
  | cons name front ih =>
      obtain ⟨rest, hrest, hloop⟩ :=
        confirmLoop_cons (hfront name List.mem_cons_self) (front ++ hook :: back) shutdowncmd
      rw [ih fun other hother => hfront other (List.mem_cons_of_mem name hother)] at hrest
      rw [List.cons_append, hloop, hrest]
      rfl

theorem lastCommand_cons (hook : Bytes) (hooks : List Bytes) (shutdowncmd : Option Bytes) :
    (lastCommand outcome (hook :: hooks)).or shutdowncmd =
      (lastCommand outcome hooks).or (if IsCommand (stripped (outcome hook)) then
        some (stripped (outcome hook)) else shutdowncmd) := by
  unfold lastCommand
  by_cases hcommand : IsCommand (stripped (outcome hook))
  · rw [List.map_cons, List.filter_cons_of_pos (by simpa using hcommand), if_pos hcommand,
      List.getLast?_cons]
    cases ((hooks.map fun hook => stripped (outcome hook)).filter (IsCommand ·)).getLast? with
    | none => rfl
    | some cmd => rfl
  · rw [List.map_cons, List.filter_cons_of_neg (by simpa using hcommand), if_neg hcommand]

theorem confirmLoop_passes (hpasses : ∀ name ∈ hooks, ¬ Ends (outcome name))
    {shutdowncmd : Option Bytes} (hne : shutdowncmd ≠ some []) :
    confirmLoop outcome hooks shutdowncmd =
      ⟨hooks, ((lastCommand outcome hooks).or shutdowncmd).getD readyMessage, 0⟩ := by
  induction hooks generalizing shutdowncmd with
  | nil =>
      cases shutdowncmd with
      | none => rfl
      | some cmd =>
          have hlength : 0 < cmd.length :=
            List.length_pos_of_ne_nil fun hnil => hne (congrArg some hnil)
          rw [confirmLoop, if_pos hlength]
          rfl
  | cons hook hooks ih =>
      obtain ⟨rest, hrest, hloop⟩ :=
        confirmLoop_cons (hpasses hook List.mem_cons_self) hooks shutdowncmd
      rw [ih (fun name hname => hpasses name (List.mem_cons_of_mem hook hname)) ?_] at hrest
      · rw [hloop, hrest, lastCommand_cons]
      · split_ifs with hcommand
        · intro hnil
          exact not_isCommand_nil (Option.some.inj hnil ▸ hcommand)
        · exact hne

theorem legible_of_stops {text : Bytes} {hook : Outcome} (hstops : Stops hook text)
    (htext : text = (ended hook).1) : Legible hook := by
  cases hstops with
  | failed hstatus hne => exact ⟨fun _ => Or.inr hne, fun hzero => absurd hzero hstatus⟩
  | silent hstatus hnil =>
      refine ⟨fun _ => Or.inl ?_, fun hzero => absurd hzero hstatus⟩
      by_contra hne
      rw [ended, if_pos hstatus, if_neg hne, hnil] at htext
      exact absurd htext (by decide)
  | @tryAgain n hstatus hint htry =>
      exact ⟨fun hne => absurd hstatus hne, fun _ => ⟨n, hint, htry⟩⟩

theorem Legible.stops {hook : Outcome} (h : Legible hook) : Stops hook (ended hook).1 := by
  rw [ended]
  by_cases hstatus : hook.status = 0
  · obtain ⟨n, hint, htext⟩ := h.2 hstatus
    rw [if_neg (not_not.mpr hstatus)]
    exact .tryAgain hstatus hint htext
  · rw [if_pos hstatus]
    by_cases hnil : hook.output = []
    · rw [if_pos hnil]
      exact .silent hstatus (stripped_of_nil hnil)
    · rw [if_neg hnil]
      exact .failed hstatus ((h.1 hstatus).resolve_left hnil)

theorem ended_status (hook : Outcome) : (ended hook).2 ≠ 0 := by
  rw [ended]
  split_ifs <;> simp

theorem folds_iff_of_ends {front back : List Bytes}
    (hfront : ∀ name ∈ front, ¬ Ends (outcome name)) (hends : Ends (outcome hook)) :
    Folds outcome (front ++ hook :: back) (confirmLoop outcome (front ++ hook :: back) none) ↔
      Legible (outcome hook) := by
  rw [confirmLoop_ends hfront hends]
  constructor
  · intro h
    generalize hconfirmation : (⟨front ++ [hook], (ended (outcome hook)).1,
      (ended (outcome hook)).2⟩ : Confirmation) = confirmation at h
    cases h with
    | @stopped front' back' hook' printed status hsplit hbefore hstops hstatus =>
        obtain ⟨hran, hprinted, -⟩ := Confirmation.mk.inj hconfirmation
        obtain ⟨-, hhook⟩ := List.append_inj' hran rfl
        cases hhook
        exact legible_of_stops hstops hprinted.symm
    | passed hbefore => exact absurd (congrArg Confirmation.status hconfirmation) (ended_status _)
  · intro h
    exact .stopped rfl (fun name hname text hstops => hfront name hname hstops.ends) h.stops
      (ended_status _)

theorem folds_of_passes (hpasses : ∀ name ∈ hooks, ¬ Ends (outcome name)) :
    Folds outcome hooks (confirmLoop outcome hooks none) := by
  rw [confirmLoop_passes hpasses (by simp), Option.or_none]
  exact .passed fun name hname text hstops => hpasses name hname hstops.ends

theorem folds_iff :
    Folds outcome hooks (confirmLoop outcome hooks none) ↔ EndsLegibly outcome hooks := by
  constructor
  · intro hfolds front hook back hsplit hfront hends
    rw [hsplit] at hfolds
    exact (folds_iff_of_ends hfront hends).mp hfolds
  · intro h
    classical
    cases hfirst : hooks.find? fun name => decide (Ends (outcome name)) with
    | none => exact folds_of_passes (by simpa using hfirst)
    | some hook =>
        obtain ⟨hends, front, back, rfl, hfront⟩ := List.find?_eq_some_iff_append.mp hfirst
        have hends : Ends (outcome hook) := of_decide_eq_true hends
        have hfront : ∀ name ∈ front, ¬ Ends (outcome name) := by simpa using hfront
        exact (folds_iff_of_ends hfront hends).mpr (h front hook back rfl hfront hends)

end Loop

namespace HooksDir

theorem confirmShutdown_eq_loop (dir : HooksDir) :
    dir.confirmShutdown = confirmLoop dir.outcome dir.order none := by
  unfold confirmShutdown
  split_ifs with hasked
  · rfl
  · have hnone : dir.hooks = [] := by
      by_contra hsome
      refine hasked ⟨fun hpath => hsome ?_, hsome⟩
      rw [hooks, if_pos hpath]
    rw [order, hnone, List.mergeSort_nil]
    rfl

/-- The order is that of `strcmp`, and no hook is lost or asked twice. -/
theorem order_perm (dir : HooksDir) : dir.order.Perm dir.hooks := List.mergeSort_perm _ _

theorem order_sorted (dir : HooksDir) : dir.order.Pairwise (· ≤ ·) :=
  List.pairwise_mergeSort' (fun a b : Bytes => a ≤ b) dir.hooks

theorem confirmShutdown_folds_iff (dir : HooksDir) :
    dir.order.Perm dir.hooks ∧ dir.order.Pairwise (· ≤ ·) ∧
      (Folds dir.outcome dir.order dir.confirmShutdown ↔ EndsLegibly dir.outcome dir.order) := by
  rw [confirmShutdown_eq_loop]
  exact ⟨dir.order_perm, dir.order_sorted, folds_iff⟩

/-- `ConfirmShutdown` of the plugin reads what this one prints. -/
theorem wrapper_eq (dir : HooksDir) :
    wrapper (dir.hooks.map fun name => (name, dir.outcome name)) =
      ⟨dir.confirmShutdown.status % 256, dir.confirmShutdown.printed ++ ascii "\n"⟩ := by
  have hsorted : (sortHooks (dir.hooks.map fun name => (name, dir.outcome name))).map (·.2) =
      dir.order.map dir.outcome := by
    rw [sortHooks,
      ← List.map_mergeSort (r := fun a b : Bytes => decide (a ≤ b)) fun _ _ _ _ => rfl,
      List.map_map]
    rfl
  unfold wrapper
  dsimp only
  rw [hsorted, askHooks_map, ← confirmShutdown_eq_loop]

def oneHook (outcome : Outcome) : HooksDir :=
  ⟨ascii "/usr/share/vdr/shutdown-hooks", [ascii "S90.custom"], fun _ => outcome⟩

theorem legible_of_folds_oneHook {outcome : Outcome} (hends : Ends outcome)
    (h : Folds (fun _ => outcome) (oneHook outcome).order (oneHook outcome).confirmShutdown) :
    Legible outcome := by
  have horder : (oneHook outcome).order = [ascii "S90.custom"] := by
    have hhooks : (oneHook outcome).hooks = [ascii "S90.custom"] := rfl
    rw [order, hhooks, List.mergeSort_singleton]
  rw [confirmShutdown_eq_loop, horder] at h
  exact (folds_iff.mp h) [] (ascii "S90.custom") [] rfl (fun name hname => (by cases hname)) hends

/-- A hook that fails with a line end only, a text that is not closed, and a number above the range
of an `int`. -/
theorem not_folds_oneHook :
    ¬ Folds (fun _ => ⟨1, ascii "\n"⟩) (oneHook ⟨1, ascii "\n"⟩).order
        (oneHook ⟨1, ascii "\n"⟩).confirmShutdown ∧
      ¬ Folds (fun _ => ⟨0, ascii "TRY_AGAIN=\"55"⟩)
        (oneHook ⟨0, ascii "TRY_AGAIN=\"55"⟩).order
        (oneHook ⟨0, ascii "TRY_AGAIN=\"55"⟩).confirmShutdown ∧
      ¬ Folds (fun _ => ⟨0, ascii "TRY_AGAIN=\"4294967297\""⟩)
        (oneHook ⟨0, ascii "TRY_AGAIN=\"4294967297\""⟩).order
        (oneHook ⟨0, ascii "TRY_AGAIN=\"4294967297\""⟩).confirmShutdown := by
  refine ⟨fun h => ?_, fun h => ?_, fun h => ?_⟩
  · have hlegible := legible_of_folds_oneHook (Or.inl (by decide)) h
    exact absurd (hlegible.1 (by decide)) (by decide)
  · have hends : Ends ⟨0, ascii "TRY_AGAIN=\"55"⟩ :=
      Or.inr ⟨ascii "5", 53, by decide, by decide, by decide⟩
    obtain ⟨n, -, htext⟩ := (legible_of_folds_oneHook hends h).2 rfl
    have hlast := congrArg List.getLast? htext
    have hquote : (tryAgainMessage ++ n ++ ascii "\"").getLast? = some 34 :=
      List.getLast?_concat
    rw [hquote] at hlast
    exact absurd hlast (by decide)
  · have hstripped : stripped ⟨0, ascii "TRY_AGAIN=\"4294967297\""⟩ =
        tryAgainMessage ++ ascii "4294967297" ++ ascii "\"" := by decide
    have hends : Ends ⟨0, ascii "TRY_AGAIN=\"4294967297\""⟩ :=
      Or.inr ⟨ascii "4294967297", 34, hstripped, by decide, by decide⟩
    obtain ⟨n, hint, htext⟩ := (legible_of_folds_oneHook hends h).2 rfl
    rw [hstripped] at htext
    have hn := List.append_cancel_left (List.append_cancel_right htext)
    rw [← hn] at hint
    exact absurd hint.2.2 (by decide)

end HooksDir

end Dbus2vdr.Shutdown

import Dbus2vdr.CString

/-!
# The verdict of the shutdown hooks

The wrapper asks the hooks one after the other and tells `ConfirmShutdown` the outcome by a line of
text and its exit status, which keeps eight bits only. `ConfirmShutdown` looks at the exit status
first. `confirmShutdown_eq` follows every verdict through both programs; `verdict_iff` compares the
result with the reply codes the README promises.
-/

namespace Dbus2vdr.Shutdown

/-- What is known of a hook after it ran: what `Close` returned, and what came through the pipe. -/
structure Outcome where
  status : Int
  output : Bytes

/-- `result` behind the loop that fills `tmp`, which is `NULL` when nothing came. -/
def result (output : Bytes) : Option Bytes :=
  if output = [] then none else some (stripspace (cString output))

def tryAgainMessage : Bytes := ascii "TRY_AGAIN=\""
def shutdownCmdMessage : Bytes := ascii "SHUTDOWNCMD=\""
def abortMessage : Bytes := ascii "ABORT_MESSAGE=\""
def failedMessage : Bytes := ascii "shutdown-hook returned a non-zero exit code"
def readyMessage : Bytes := ascii "vdr is ready for shutdown"

/-- `tmp + strlen(message)` without its last character, when the result begins with `message` and is
longer. -/
def behind (message : Bytes) (result : Option Bytes) : Option Bytes :=
  result.bind fun r =>
    if message.length < r.length ∧ startswith r message then
      some (truncateLast (r.drop message.length))
    else none

def tryAgain (result : Option Bytes) : Option Bytes :=
  (behind tryAgainMessage result).filter fun s =>
    0 < s.length && isnumber s && 0 < longToInt (strtol s)

/-! ### The wrapper -/

def askHooks : List Outcome → Option Bytes → Bytes × Int
  | [], shutdowncmd =>
      match shutdowncmd with
      | some cmd => if 0 < cmd.length then (cmd, 0) else (readyMessage, 0)
      | none => (readyMessage, 0)
  | hook :: hooks, shutdowncmd =>
      let result := result hook.output
      if hook.status ≠ 0 then
        match result with
        | some r => (r, 992)
        | none => (failedMessage, 999)
      else if (tryAgain result).isSome then (result.getD [], 991)
      else
        askHooks hooks (if (behind shutdownCmdMessage result).isSome then result else shutdowncmd)

/-- `hooks.Sort()`, by `strcmp`. -/
def sortHooks (hooks : List (Bytes × Outcome)) : List (Bytes × Outcome) :=
  hooks.mergeSort fun a b => decide (a.1 ≤ b.1)

def wrapper (hooks : List (Bytes × Outcome)) : Outcome :=
  let reply := askHooks ((sortHooks hooks).map (·.2)) none
  ⟨reply.2 % 256, reply.1 ++ ascii "\n"⟩

/-! ### `ConfirmShutdown` -/

structure Reply where
  replyCode : Int
  replyMessage : Bytes
  shExitCode : Int
  shParameter : Bytes
  deriving DecidableEq

/-- The part of `ConfirmShutdown` behind `p.Close()`. -/
def judge (ret : Int) (output params : Bytes) : Reply :=
  let result := result output
  if ret ≠ 0 then
    match behind abortMessage result with
    | some message => ⟨992, message, ret, []⟩
    | none => ⟨999, failedMessage, ret, []⟩
  else
    match tryAgain result with
    | some s => ⟨991, s, 0, []⟩
    | none =>
        match (behind shutdownCmdMessage result).filter (0 < ·.length) with
        | some cmd => ⟨990, cmd, 0, params⟩
        | none => ⟨250, readyMessage, 0, []⟩

def confirmShutdown (hooks : List (Bytes × Outcome)) (params : Bytes) : Reply :=
  judge (wrapper hooks).status (wrapper hooks).output params

/-! ### Readings of the hooks

Both what the two programs do together and what the README says is a walk over the hooks; they
differ in how the result of one hook is read.
-/

structure Reading where
  abort : Option Bytes → Option Bytes
  tryAgain : Option Bytes → Option (Int × Bytes)
  shutdownCmd : Option Bytes → Option Bytes

def Reading.verdict (reading : Reading) : List Outcome → Option Bytes → Int × Bytes
  | [], cmd =>
      match cmd.filter (0 < ·.length) with
      | some cmd => (990, cmd)
      | none => (250, readyMessage)
  | hook :: hooks, cmd =>
      let result := result hook.output
      if hook.status ≠ 0 then
        match reading.abort result with
        | some message => (992, message)
        | none => (999, failedMessage)
      else
        match reading.tryAgain result with
        | some verdict => verdict
        | none => reading.verdict hooks ((reading.shutdownCmd result).or cmd)

/-- `key="text"` and nothing else. -/
def quoted (message : Bytes) (result : Option Bytes) : Option Bytes :=
  (behind message result).filter fun text => result = some (message ++ text ++ ascii "\"")

def IsPositiveInt (s : Bytes) : Prop :=
  isnumber s ∧ 0 < (digitsValue s : Int) ∧ (digitsValue s : Int) ≤ intMax

instance : DecidablePred IsPositiveInt := fun s =>
  inferInstanceAs (Decidable (isnumber s ∧ 0 < (digitsValue s : Int) ∧
    (digitsValue s : Int) ≤ intMax))

/-- The reply codes as the README gives them. -/
def documented : Reading where
  abort := quoted abortMessage
  tryAgain result := ((quoted tryAgainMessage result).filter (IsPositiveInt ·)).map (991, ·)
  shutdownCmd := quoted shutdownCmdMessage

/-- What becomes of a hook's result in the two programs. -/
def coded : Reading where
  abort := behind abortMessage
  tryAgain result := (tryAgain result).map fun _ => (999, failedMessage)
  shutdownCmd := behind shutdownCmdMessage

/-! ### Reading a text back -/

theorem startswith_head {s : Bytes} {a : UInt8} {p : Bytes} (h : startswith s (a :: p) = true) :
    s.head? = some a := by
  cases s with
  | nil => cases h
  | cons c s =>
      unfold startswith at h
      split_ifs at h with hc
      rw [List.head?_cons, hc]

theorem behind_eq_some {message r text : Bytes} (h : behind message (some r) = some text) :
    startswith r message = true := by
  unfold behind at h
  rw [Option.bind_some] at h
  split_ifs at h with hcond
  exact hcond.2

theorem behind_eq_none {a b : UInt8} {p q : Bytes} (hne : a ≠ b) {result : Option Bytes}
    (h : (behind (a :: p) result).isSome) : behind (b :: q) result = none := by
  obtain ⟨text, htext⟩ := Option.isSome_iff_exists.mp h
  cases result with
  | none => rfl
  | some r =>
      have hfirst := startswith_head (behind_eq_some htext)
      cases hother : behind (b :: q) (some r) with
      | none => rfl
      | some text' =>
          have hsecond := startswith_head (behind_eq_some hother)
          exact absurd (Option.some.inj (hfirst.symm.trans hsecond)) hne

theorem quoted_le_behind {message : Bytes} {result : Option Bytes} {text : Bytes}
    (h : quoted message result = some text) : behind message result = some text :=
  (Option.filter_eq_some_iff.mp h).1

theorem result_line {r output : Bytes} (hr : result output = some r) :
    result (r ++ ascii "\n") = some r := by
  unfold result at hr ⊢
  split_ifs at hr with hempty
  rw [Option.some.injEq] at hr
  have hzero : ∀ c ∈ r, c ≠ 0 := by
    intro c hc
    have hfront := List.rdropWhile_prefix isspace (cString output)
    have hmem : c ∈ cString output := hfront.subset (by rw [← hr] at hc; exact hc)
    simpa using List.mem_takeWhile_imp hmem
  have hwhole : cString (r ++ ascii "\n") = r ++ ascii "\n" := by
    apply List.takeWhile_eq_self_iff.mpr
    intro c hc
    rcases List.mem_append.mp hc with hc | hc
    · simpa using hzero c hc
    · rw [List.mem_singleton.mp hc]
      decide
  have hspace : isspace 10 = true := by decide
  rw [if_neg (by simp [ascii]), hwhole]
  have hnewline : ascii "\n" = [10] := rfl
  rw [stripspace, hnewline, List.rdropWhile_concat_pos _ _ _ hspace, ← hr, stripspace,
    List.rdropWhile_idempotent]

/-! ### The two programs together -/

def Reply.verdict (reply : Reply) : Int × Bytes := (reply.replyCode, reply.replyMessage)

theorem head_messages :
    tryAgainMessage = 84 :: tryAgainMessage.tail ∧
    shutdownCmdMessage = 83 :: shutdownCmdMessage.tail ∧
    abortMessage = 65 :: abortMessage.tail := by decide

theorem behind_abort_of_tryAgain {result : Option Bytes} (h : (tryAgain result).isSome) :
    behind abortMessage result = none := by
  obtain ⟨text, htext⟩ := Option.isSome_iff_exists.mp h
  have hbehind := (Option.filter_eq_some_iff.mp htext).1
  rw [head_messages.1] at hbehind
  rw [head_messages.2.2]
  exact behind_eq_none (by decide) (Option.isSome_iff_exists.mpr ⟨text, hbehind⟩)

theorem tryAgain_of_shutdownCmd {result : Option Bytes}
    (h : (behind shutdownCmdMessage result).isSome) : tryAgain result = none := by
  rw [head_messages.2.1] at h
  rw [tryAgain, head_messages.1, behind_eq_none (by decide) h]
  rfl

def Kept (shutdowncmd : Option Bytes) : Prop :=
  ∀ cmd ∈ shutdowncmd, (∃ output, result output = some cmd) ∧
    (behind shutdownCmdMessage (some cmd)).isSome

theorem judge_failed {r output : Bytes} (hr : result output = some r) {ret : Int} (hret : ret ≠ 0)
    (params : Bytes) :
    (judge ret (r ++ ascii "\n") params).verdict =
      match behind abortMessage (some r) with
      | some message => (992, message)
      | none => (999, failedMessage) := by
  unfold judge
  rw [result_line hr, if_pos hret]
  cases behind abortMessage (some r) <;> rfl

theorem judge_command {r output : Bytes} (hr : result output = some r)
    (hcmd : (behind shutdownCmdMessage (some r)).isSome) (params : Bytes) :
    (judge 0 (r ++ ascii "\n") params).verdict =
      coded.verdict [] (behind shutdownCmdMessage (some r)) := by
  unfold judge
  rw [result_line hr, if_neg (by decide), tryAgain_of_shutdownCmd hcmd, Reading.verdict]
  cases (behind shutdownCmdMessage (some r)).filter (0 < ·.length) <;> rfl

/-- What `ConfirmShutdown` makes of the outcome of the wrapper's loop is the coded reading of the
hooks. -/
theorem judge_askHooks (hooks : List Outcome) {shutdowncmd : Option Bytes}
    (hkept : Kept shutdowncmd) (params : Bytes) :
    (judge ((askHooks hooks shutdowncmd).2 % 256) ((askHooks hooks shutdowncmd).1 ++ ascii "\n")
        params).verdict =
      coded.verdict hooks (behind shutdownCmdMessage shutdowncmd) := by
  induction hooks generalizing shutdowncmd with
  | nil =>
      cases shutdowncmd with
      | none => rfl
      | some cmd =>
          obtain ⟨⟨output, houtput⟩, hlong⟩ := hkept cmd rfl
          have hlength : 0 < cmd.length := by
            by_contra hzero
            rw [List.eq_nil_of_length_eq_zero (by omega : cmd.length = 0)] at hlong
            exact absurd hlong (by decide)
          rw [askHooks, if_pos hlength]
          exact judge_command houtput hlong params
  | cons hook hooks ih =>
      unfold askHooks Reading.verdict
      by_cases hstatus : hook.status = 0
      · simp only [hstatus, ne_eq, not_true, if_false]
        cases htry : tryAgain (result hook.output) with
        | some text =>
            -- 991 becomes 223, and `ConfirmShutdown` does not look for `TRY_AGAIN` then
            obtain ⟨r, hr⟩ : ∃ r, result hook.output = some r := by
              cases hresult : result hook.output with
              | none => rw [hresult] at htry; cases htry
              | some r => exact ⟨r, rfl⟩
            rw [hr] at htry ⊢
            have habort : behind abortMessage (some r) = none :=
              behind_abort_of_tryAgain (by rw [htry]; rfl)
            have hexit : (991 : Int) % 256 ≠ 0 := by decide
            simp only [Option.isSome_some, if_true, Option.getD_some, judge_failed hr hexit, habort,
              coded, htry, Option.map_some]
        | none =>
            have hread : coded.tryAgain (result hook.output) = none := by
              simp only [coded, htry, Option.map_none]
            simp only [Option.isSome_none, Bool.false_eq_true, if_false, hread]
            cases hcmd : behind shutdownCmdMessage (result hook.output) with
            | none =>
                have hcoded : coded.shutdownCmd (result hook.output) = none := hcmd
                simpa only [Option.isSome_none, Bool.false_eq_true, if_false, hcoded,
                  Option.none_or]
                  using ih hkept
            | some text =>
                have hcoded : coded.shutdownCmd (result hook.output) = some text := hcmd
                have hkept' : Kept (result hook.output) := fun cmd hmem =>
                  ⟨⟨hook.output, hmem⟩, by rw [← Option.mem_def.mp hmem, hcmd]; rfl⟩
                simpa only [Option.isSome_some, if_true, hcoded, Option.some_or, hcmd]
                  using ih hkept'
      · simp only [hstatus, ne_eq, not_false_eq_true, if_true]
        cases hresult : result hook.output with
        | none => rfl
        | some r =>
            have hexit : (992 : Int) % 256 ≠ 0 := by decide
            exact judge_failed hresult hexit params

def outcomes (hooks : List (Bytes × Outcome)) : List Outcome := (sortHooks hooks).map (·.2)

theorem confirmShutdown_eq (hooks : List (Bytes × Outcome)) (params : Bytes) :
    (confirmShutdown hooks params).verdict = coded.verdict (outcomes hooks) none :=
  judge_askHooks (outcomes hooks) (fun _ h => by cases h) params

end Dbus2vdr.Shutdown

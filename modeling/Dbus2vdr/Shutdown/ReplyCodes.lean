import Dbus2vdr.Shutdown.Verdict

/-!
# The reply codes of the README

Where the two programs agree with the documented reading of the hooks, and where they do not. They
never reply 991: the wrapper exits with 991 modulo 256, and `ConfirmShutdown` takes every exit
status but 0 for a failure. Besides, they do not look for the closing quote of a text, nor at the
size of a number.
-/

namespace Dbus2vdr.Shutdown

def Fails : List Outcome → Prop
  | [] => False
  | hook :: hooks =>
      if hook.status ≠ 0 then documented.abort (result hook.output) = none
      else documented.tryAgain (result hook.output) = none ∧ Fails hooks

instance decidableFails : DecidablePred Fails
  | [] => isFalse id
  | hook :: hooks =>
      have := decidableFails hooks
      inferInstanceAs (Decidable (if hook.status ≠ 0 then _ else _))

/-- The hooks, asked with the last shutdown commands as the programs and as the README read them,
are understood: a failing hook closes the text of its reason; no hook that passes asks to try again,
unless in a way that does not count, when a later hook fails; and in the end the command is the
same. -/
def Understood : List Outcome → Option Bytes → Option Bytes → Prop
  | [], kept, meant => kept.getD [] = meant.getD []
  | hook :: hooks, kept, meant =>
      if hook.status ≠ 0 then
        (behind abortMessage (result hook.output)).isSome →
          (quoted abortMessage (result hook.output)).isSome
      else if (tryAgain (result hook.output)).isSome then
        documented.tryAgain (result hook.output) = none ∧ Fails hooks
      else
        Understood hooks ((behind shutdownCmdMessage (result hook.output)).or kept)
          ((quoted shutdownCmdMessage (result hook.output)).or meant)

instance decidableUnderstood :
    (hooks : List Outcome) → (kept meant : Option Bytes) →
      Decidable (Understood hooks kept meant)
  | [], kept, meant => inferInstanceAs (Decidable (kept.getD [] = meant.getD []))
  | hook :: hooks, kept, meant =>
      have := decidableUnderstood hooks ((behind shutdownCmdMessage (result hook.output)).or kept)
        ((quoted shutdownCmdMessage (result hook.output)).or meant)
      inferInstanceAs (Decidable (ite (hook.status ≠ 0) (_ → _)
        (ite ((tryAgain (result hook.output)).isSome = true) (_ ∧ Fails hooks) _)))

theorem longToInt_of_isPositiveInt {s : Bytes} (hs : IsPositiveInt s) :
    0 < longToInt (strtol s) := by
  obtain ⟨-, hpos, hmax⟩ := hs
  have hatoi : longToInt (strtol s) = digitsValue s := atoi_of_le hmax
  rwa [hatoi]

theorem tryAgain_of_documented {result : Option Bytes} {verdict : Int × Bytes}
    (h : documented.tryAgain result = some verdict) :
    (tryAgain result).isSome ∧ verdict.1 = 991 := by
  obtain ⟨text, htext, rfl⟩ := Option.map_eq_some_iff.mp h
  obtain ⟨hquoted, hint⟩ := Option.filter_eq_some_iff.mp htext
  have hint : IsPositiveInt text := by simpa using hint
  refine ⟨Option.isSome_iff_exists.mpr ⟨text, Option.filter_eq_some_iff.mpr
    ⟨quoted_le_behind hquoted, ?_⟩⟩, rfl⟩
  have hnumber := hint.1
  have hlength : 0 < text.length := by
    cases text with
    | nil => cases hnumber
    | cons c s => exact Nat.succ_pos _
  simp [hlength, hnumber, longToInt_of_isPositiveInt hint]

theorem verdict_nil (reading : Reading) (cmd : Option Bytes) :
    reading.verdict [] cmd =
      if cmd.getD [] = [] then (250, readyMessage) else (990, cmd.getD []) := by
  unfold Reading.verdict
  cases cmd with
  | none => rfl
  | some cmd =>
      cases cmd with
      | nil => rfl
      | cons c s => rfl

theorem verdict_cons (reading : Reading) (hook : Outcome) (hooks : List Outcome)
    (cmd : Option Bytes) :
    reading.verdict (hook :: hooks) cmd =
      if hook.status ≠ 0 then
        match reading.abort (result hook.output) with
        | some message => (992, message)
        | none => (999, failedMessage)
      else
        match reading.tryAgain (result hook.output) with
        | some verdict => verdict
        | none => reading.verdict hooks ((reading.shutdownCmd (result hook.output)).or cmd) := rfl

theorem fails_iff (hooks : List Outcome) (cmd : Option Bytes) :
    documented.verdict hooks cmd = (999, failedMessage) ↔ Fails hooks := by
  induction hooks generalizing cmd with
  | nil =>
      rw [verdict_nil]
      split_ifs <;> simp [Fails]
  | cons hook hooks ih =>
      rw [verdict_cons, Fails]
      split_ifs with hstatus
      · cases documented.abort (result hook.output) <;> simp
      · cases htry : documented.tryAgain (result hook.output) with
        | none => simpa using ih _
        | some verdict =>
            have hcode := (tryAgain_of_documented htry).2
            simp only [reduceCtorEq, false_and, iff_false]
            intro heq
            rw [heq] at hcode
            cases hcode

theorem coded_eq_documented_iff (hooks : List Outcome) (kept meant : Option Bytes) :
    coded.verdict hooks kept = documented.verdict hooks meant ↔ Understood hooks kept meant := by
  induction hooks generalizing kept meant with
  | nil =>
      rw [verdict_nil, verdict_nil, Understood]
      split_ifs with hkept hmeant hmeant
      · simp [hkept, hmeant]
      · simp [hkept, Ne.symm hmeant]
      · simp [hmeant, hkept]
      · simp
  | cons hook hooks ih =>
      rw [verdict_cons, verdict_cons, Understood]
      split_ifs with hstatus htry
      · change (match behind abortMessage (result hook.output) with
            | some message => ((992 : Int), message)
            | none => (999, failedMessage)) =
          (match quoted abortMessage (result hook.output) with
            | some message => ((992 : Int), message)
            | none => (999, failedMessage)) ↔ _
        cases hquoted : quoted abortMessage (result hook.output) with
        | some text => simp [quoted_le_behind hquoted]
        | none => cases behind abortMessage (result hook.output) <;> simp
      · obtain ⟨text, htext⟩ := Option.isSome_iff_exists.mp htry
        have hcoded : coded.tryAgain (result hook.output) = some (999, failedMessage) := by
          simp only [coded, htext, Option.map_some]
        simp only [hcoded]
        cases hdoc : documented.tryAgain (result hook.output) with
        | some verdict =>
            have hcode := (tryAgain_of_documented hdoc).2
            simp only [reduceCtorEq, false_and, iff_false]
            intro heq
            rw [← heq] at hcode
            cases hcode
        | none =>
            rw [eq_comm, fails_iff]
            simp
      · have hnone : tryAgain (result hook.output) = none := by simpa using htry
        have hcoded : coded.tryAgain (result hook.output) = none := by
          simp only [coded, hnone, Option.map_none]
        have hdoc : documented.tryAgain (result hook.output) = none := by
          cases hdoc : documented.tryAgain (result hook.output) with
          | none => rfl
          | some verdict => exact absurd (tryAgain_of_documented hdoc).1 htry
        simp only [hcoded, hdoc]
        exact ih _ _

/-- **The verdict.** For all hooks with their exit statuses and outputs, `ConfirmShutdown` replies
what the README says if and only if the hooks are understood. -/
theorem verdict_iff (hooks : List (Bytes × Outcome)) (params : Bytes) :
    (confirmShutdown hooks params).verdict = documented.verdict (outcomes hooks) none ↔
      Understood (outcomes hooks) none none := by
  rw [confirmShutdown_eq, coded_eq_documented_iff]

theorem try_again_is_lost :
    ¬ ∀ (hooks : List (Bytes × Outcome)) (params : Bytes),
      (confirmShutdown hooks params).verdict = documented.verdict (outcomes hooks) none := by
  intro hall
  have heq := hall [(ascii "S90.wait", ⟨0, ascii "TRY_AGAIN=\"5\"\n"⟩)] []
  rw [confirmShutdown_eq, coded_eq_documented_iff] at heq
  have hsorted : outcomes [(ascii "S90.wait", ⟨0, ascii "TRY_AGAIN=\"5\"\n"⟩)] =
      [⟨0, ascii "TRY_AGAIN=\"5\"\n"⟩] := by simp [outcomes, sortHooks]
  rw [hsorted] at heq
  exact absurd heq (by decide)

theorem coded_ne_991 (hooks : List Outcome) (cmd : Option Bytes) :
    (coded.verdict hooks cmd).1 ≠ 991 := by
  have h250 : (250 : Int) ≠ 991 := by decide
  have h990 : (990 : Int) ≠ 991 := by decide
  have h992 : (992 : Int) ≠ 991 := by decide
  have h999 : (999 : Int) ≠ 991 := by decide
  induction hooks generalizing cmd with
  | nil =>
      rw [verdict_nil]
      split_ifs
      · exact h250
      · exact h990
  | cons hook hooks ih =>
      rw [verdict_cons]
      split_ifs
      · cases coded.abort (result hook.output) with
        | none => exact h999
        | some message => exact h992
      · cases htry : tryAgain (result hook.output) with
        | none =>
            simp only [coded, htry, Option.map_none]
            exact ih _
        | some text =>
            simp only [coded, htry, Option.map_some]
            exact h999

/-- **No 991.** The reply code for `TRY_AGAIN` is never sent. -/
theorem replyCode_ne_991 (hooks : List (Bytes × Outcome)) (params : Bytes) :
    (confirmShutdown hooks params).replyCode ≠ 991 := by
  have hcode := congrArg Prod.fst (confirmShutdown_eq hooks params)
  rw [show (confirmShutdown hooks params).replyCode = _ from hcode]
  exact coded_ne_991 _ _

end Dbus2vdr.Shutdown

import Mathlib.Data.List.Induction
import Dbus2vdr.Connection.Delivery

/-!
# The order of signals

One batch is worked off in order, but ten threads work on ten batches. Two signals that wait in two
batches at the same moment may go out either way round; `in_order_of_never_apart` says that this is
the only way in which signals overtake each other.
-/

namespace Dbus2vdr

open Batches (Apart)

namespace Mail

/-- What a step passes on comes behind everything older, unless that waits in another batch. -/
theorem Sound.order_of_passed {m : Mail} {e : MailEvent} (hm : m.Sound) {s t : Nat} (hlt : s < t)
    (ht : m.passed e = some t) : s ∈ m.emittedSignals ∨ Apart m.unfinished s t := by
  obtain ⟨i, rest, hbatch⟩ := unfinished_of_passed ht
  exact hm.cut.done_or_apart hbatch hlt

end Mail

namespace Conn

/-- **The order of signals.** In every run, two signals that never wait in two batches at the same
time are emitted in the order in which they were queued, each once. -/
theorem in_order_of_never_apart {target : BusTarget} {named : Bool} {es : List Event} {c : Conn}
    (hrun : Machine.run step (new target named) es = some c) {s t : Nat} (hlt : s < t)
    (ht : t ∈ c.mail.emittedSignals)
    (hnever : Machine.Throughout step (fun d => ¬ Apart d.mail.unfinished s t)
      (new target named) es) :
    [s, t].Sublist c.mail.emittedSignals ∧ c.mail.emittedSignals.Nodup := by
  refine ⟨?_, (mailSound_of_run hrun).cut.done_nodup⟩
  rw [Machine.throughout_iff_front] at hnever
  induction es using List.reverseRecOn generalizing c with
  | nil =>
      rw [Machine.run_nil, Option.some.injEq] at hrun
      subst hrun
      cases ht
  | append_singleton es e ih =>
      obtain ⟨mid, hmid, hstep⟩ := Machine.run_concat_eq_some.mp hrun
      have hbefore := hnever es [e] mid rfl hmid
      have ih := fun ht => ih hmid ht fun front back s' hsplit =>
        hnever front (back ++ [e]) s' (by rw [hsplit, List.append_assoc])
      obtain ⟨-, rfl⟩ := step_eq_some.mp hstep
      cases e with
      | link e => exact ih ht
      | mail e =>
          simp only [after, Mail.emittedSignals_after] at ht ⊢
          rcases List.mem_append.mp ht with hold | hnew
          · exact (ih hold).trans (List.sublist_append_left ..)
          · have hs : s ∈ mid.mail.emittedSignals := ((mailSound_of_run hmid).order_of_passed hlt
              (Option.mem_toList.mp hnew)).resolve_right hbefore
            exact (List.singleton_sublist.mpr hs).append (List.singleton_sublist.mpr hnew)

theorem in_order_one_by_one :
    ∃ es c, Machine.run step (new .address true) es = some c ∧
      [0, 1].Sublist c.mail.emittedSignals ∧ c.mail.emittedSignals.Nodup := by
  have hrun : Machine.run step (new .address true) (bringUp ++ [.mail .emitSignal,
    .mail .doEmitSignal, .mail (.handOver true), .mail .workerStart, .mail (.workerEmit 0),
    .mail .emitSignal, .mail .doEmitSignal, .mail (.handOver true), .mail .workerStart,
    .mail (.workerEmit 1)]) = some _ := rfl
  exact ⟨_, _, hrun, in_order_of_never_apart hrun (by decide) (by decide) (by decide)⟩

theorem overtaken :
    ¬ ∀ (target : BusTarget) (named : Bool) (es : List MailEvent) (c : Conn),
      Machine.run step (new target named) (bringUp ++ es.map .mail) = some c →
        c.mail.emittedSignals.Pairwise (· < ·) := by
  intro hall
  have hsorted := hall .address true [.emitSignal, .doEmitSignal, .handOver true, .emitSignal,
    .doEmitSignal, .handOver true, .workerStart, .workerStart, .workerEmit 1, .workerEmit 0] _ rfl
  exact absurd hsorted (by decide)

end Conn

end Dbus2vdr

import Dbus2vdr.CString
import Dbus2vdr.Lib.Critical

/-!
# Requests for another primary device

`RequestPrimary` only leaves a number behind, under a mutex; VDR's main thread fetches it with its
next turn and changes the device. `switched_of_run` says that the newest request is carried out, and
no request twice.
-/

namespace Dbus2vdr.PrimaryDevice

open Machine Critical

inductive Call where
  /-- `SetPrimaryDeviceRequest` -/
  | setRequest (index : Int)
  /-- `RequestedPrimaryDevice` -/
  | requested (clear : Bool)
  deriving DecidableEq, Repr

/-- Shared is `_requestedPrimaryDevice`; a call has `ret`. -/
def sections : Sections Call Int Int where
  start _ := -1
  body
    | .setRequest index => [fun _ ret => (index, ret)]
    | .requested clear =>
        (fun request _ => (request, request)) :: if clear then [fun _ ret => (-1, ret)] else []

inductive Act where
  | controlShutdown
  | setPrimaryDevice (n : Int)
  deriving DecidableEq, Repr

/-- What `MainThreadHook` does about the request it has got. -/
def mainThreadHook (requestPrimaryDevice : Int) : List Act :=
  if 0 ≤ requestPrimaryDevice then
    [.controlShutdown, .setPrimaryDevice (requestPrimaryDevice + 1)]
  else []

/-! ### One call after the other -/

/-- The newest request that has not been fetched. -/
def pending (calls : List Call) : Int :=
  calls.foldl (fun now call =>
    match call with
    | .setRequest index => index
    | .requested clear => if clear then -1 else now) (-1)

/-- The acts of the main thread that answer a request. -/
def wanted : Call × Int → List Act
  | (.setRequest index, _) => mainThreadHook index
  | (.requested _, _) => []

/-- The acts of the main thread, which fetches with `clear`. -/
def done : Call × Int → List Act
  | (.requested true, ret) => mainThreadHook ret
  | _ => []

theorem shared_eq_pending (ks : List Call) : sections.shared (-1) ks = pending ks := by
  have hstep : ∀ (x : Int) (k : Call), (sections.whole x k).1 =
      match k with
      | .setRequest index => index
      | .requested clear => if clear then -1 else x := by
    intro x k
    rcases k with index | (_ | _) <;> rfl
  unfold Sections.shared pending
  congr 1
  funext x k
  exact hstep x k

theorem done_sublist (x : Int) (ks : List Call) :
    ((sections.results x ks).flatMap done).Sublist
      (mainThreadHook x ++ (sections.results x ks).flatMap wanted) := by
  induction ks generalizing x with
  | nil => exact List.nil_sublist _
  | cons k ks ih =>
      rcases k with index | (_ | _)
      · exact (ih index).trans (List.sublist_append_right _ _)
      · exact ih x
      · have hrest := ih (-1)
        exact hrest.append_left _

/-- **Requests.** Whichever way the calls interleave, what is fetched is the newest request since
the last time, if there was one; the main thread never answers a request twice, nor two of them in
the wrong order. -/
theorem switched_of_run {s : State Call Int Int} {es : List (Critical.Event Call)}
    (hrun : run sections.step { shared := -1 } es = some s) :
    (∀ front clear ret back, s.order = front ++ (.requested clear, ret) :: back →
      ret = pending (front.map Prod.fst)) ∧
    (s.order.flatMap done).Sublist (s.order.flatMap wanted) ∧
    (Sections.found s.calls).Perm s.order ∧
    Inevitably sections.step Event.IsTurn (fun s => ∀ p ∈ s.calls, p.2.result ≠ none) s := by
  have hserial := Sections.serial_of_run hrun
  refine ⟨?_, ?_, hserial.found, Sections.inevitably_left hrun⟩
  · intro front clear ret back hsplit
    have hret := Sections.results_split (hserial.order.symm.trans hsplit)
    rw [shared_eq_pending] at hret
    rw [hret]
    cases clear <;> rfl
  · rw [hserial.order]
    exact done_sublist (-1) _

/-- Two requests before the main thread comes. -/
def overtaken : List (Critical.Event Call) :=
  [.call (.setRequest 0), .call (.setRequest 2), .call (.requested true),
    .turn 1, .turn 1, .turn 1, .turn 0, .turn 0, .turn 0, .turn 2, .turn 2, .turn 2, .turn 2]

theorem switched_of_run_overtaken :
    ∃ s, run sections.step { shared := -1 } overtaken = some s ∧
      s.order.flatMap done = [.controlShutdown, .setPrimaryDevice 1] ∧
      (s.order.flatMap done).Sublist (s.order.flatMap wanted) := by
  obtain ⟨s, hrun, hdone⟩ : ∃ s, run sections.step { shared := -1 } overtaken = some s ∧
      s.order.flatMap done = [.controlShutdown, .setPrimaryDevice 1] := ⟨_, rfl, rfl⟩
  exact ⟨s, hrun, hdone, (switched_of_run hrun).2.1⟩

end Dbus2vdr.PrimaryDevice

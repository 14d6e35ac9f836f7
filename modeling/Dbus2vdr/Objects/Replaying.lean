import Dbus2vdr.Objects.System
import Dbus2vdr.Lib.Critical

/-!
# What is being replayed

VDR tells `cVdrStatus` from any thread what it replays, and the threads for the method calls answer
`IsReplaying` meanwhile. Both work on three members, piece by piece, under `_replay_mutex`.
`truthful_of_run` says that every answer is what the last signal has said, or empty when nothing is
replayed.
-/

namespace Dbus2vdr.Replaying

open Machine Critical

/-- A `gchar*` that owns its string. -/
inductive Ptr where
  | null
  | string (s : Bytes)
  /-- The string has been freed. -/
  | dangling
  deriving DecidableEq, Repr

inductive Report where
  /-- The signal `Replaying` -/
  | signal (name fileName : Bytes) (on : Bool)
  /-- The reply of `IsReplaying` -/
  | reply (name fileName : Bytes) (on : Bool)
  deriving DecidableEq, Repr

/-- The members of `cVdrStatus`. -/
structure Members where
  replayOn : Bool := false
  replayName : Ptr := .null
  replayFilename : Ptr := .null
  /-- What has been handed to D-Bus. -/
  reports : List Report := []
  /-- A freed string has been read, or freed again. -/
  fault : Bool := false
  deriving DecidableEq, Repr

/-- The reply that `IsReplaying` builds. -/
structure Builder where
  name : Bytes := []
  fileName : Bytes := []
  on : Bool := false
  deriving DecidableEq, Repr

inductive Call where
  | replaying (name fileName : Option Bytes) (on : Bool)
  | isReplaying
  deriving DecidableEq, Repr

/-- `EMPTY` -/
def empty (s : Option Bytes) : Bytes := s.getD []

namespace Ptr

def ofOption : Option Bytes → Ptr
  | none => null
  | some s => string s

/-- `EMPTY` for a member; there is no text at a dangling pointer. -/
def text : Ptr → Option Bytes
  | null => some []
  | string s => some s
  | dangling => none

end Ptr

abbrev Micro := Members → Builder → Members × Builder

/-! ### `SetReplay` -/

def free : Ptr → Ptr
  | .null => .null
  | _ => .dangling

def freeName : Micro := fun x own =>
  ({ x with replayName := free x.replayName, fault := x.fault || x.replayName = .dangling }, own)

def clearName : Micro := fun x own => ({ x with replayName := .null }, own)

def dupName (name : Option Bytes) : Micro := fun x own =>
  ({ x with replayName := .ofOption name }, own)

def freeFilename : Micro := fun x own =>
  ({ x with
    replayFilename := free x.replayFilename
    fault := x.fault || x.replayFilename = .dangling }, own)

def clearFilename : Micro := fun x own => ({ x with replayFilename := .null }, own)

def dupFilename (fileName : Option Bytes) : Micro := fun x own =>
  ({ x with replayFilename := .ofOption fileName }, own)

def setReplay (name fileName : Option Bytes) : List Micro :=
  [freeName, clearName, dupName name, freeFilename, clearFilename, dupFilename fileName]

/-! ### The calls -/

def setOn (on : Bool) : Micro := fun x own => ({ x with replayOn := on }, own)

def emitSignal (name fileName : Option Bytes) : Micro := fun x own =>
  ({ x with reports := x.reports ++ [.signal (empty name) (empty fileName) x.replayOn] }, own)

def addName : Micro := fun x own =>
  ({ x with fault := x.fault || x.replayName.text.isNone },
    { own with name := empty x.replayName.text })

def addFilename : Micro := fun x own =>
  ({ x with fault := x.fault || x.replayFilename.text.isNone },
    { own with fileName := empty x.replayFilename.text })

def addOn : Micro := fun x own => (x, { own with on := x.replayOn })

def returnValue : Micro := fun x own =>
  ({ x with reports := x.reports ++ [.reply own.name own.fileName own.on] }, own)

/-- What `Replaying` and `IsReplaying` do under `_replay_mutex`. -/
def sections : Sections Call Members Builder where
  start _ := {}
  body
    | .replaying name fileName on =>
        setOn on :: (if on then setReplay name fileName else setReplay none none) ++
          [emitSignal name fileName]
    | .isReplaying => [addName, addFilename, addOn, returnValue]

/-! ### What has been said -/

/-- What is replayed, going by the signals: when one says that a replay has ended, nothing, whatever
name and file it carries. -/
def shown (reports : List Report) : Bytes × Bytes × Bool :=
  reports.foldl (fun now report =>
    match report with
    | .signal name fileName on => if on then (name, fileName, true) else ([], [], false)
    | .reply _ _ _ => now) ([], [], false)

def Truthful (reports : List Report) : Prop :=
  ∀ front name fileName on back, reports = front ++ .reply name fileName on :: back →
    (name, fileName, on) = shown front

def Call.report : Call × Builder → Report
  | (.replaying name fileName on, _) => .signal (empty name) (empty fileName) on
  | (.isReplaying, own) => .reply own.name own.fileName own.on

/-- The members are what the signals have said. -/
structure Settled (x : Members) : Prop where
  name : x.replayName.text = some (shown x.reports).1
  fileName : x.replayFilename.text = some (shown x.reports).2.1
  on : x.replayOn = (shown x.reports).2.2
  truthful : Truthful x.reports
  fault : x.fault = false

theorem truthful_nil : Truthful [] := by
  intro front name fileName on back hsplit
  exact absurd hsplit (by simp)

theorem Truthful.concat {reports : List Report} (h : Truthful reports) {report : Report}
    (hreport : ∀ name fileName on, report = .reply name fileName on →
      (name, fileName, on) = shown reports) : Truthful (reports ++ [report]) := by
  intro front name fileName on back hsplit
  rcases List.eq_nil_or_concat' back with rfl | ⟨back, last, rfl⟩
  · obtain ⟨rfl, hlast⟩ := List.append_inj' hsplit rfl
    exact hreport name fileName on (List.cons.inj hlast).1
  · have hmore : front ++ Report.reply name fileName on :: (back ++ [last]) =
        (front ++ Report.reply name fileName on :: back) ++ [last] := by simp
    have hreports := (List.append_inj' (hsplit.trans hmore) rfl).1
    exact h front name fileName on back hreports

@[simp]
theorem shown_signal (reports : List Report) (name fileName : Bytes) (on : Bool) :
    shown (reports ++ [.signal name fileName on]) =
      if on then (name, fileName, true) else ([], [], false) := by
  simp [shown]

@[simp]
theorem shown_reply (reports : List Report) (name fileName : Bytes) (on : Bool) :
    shown (reports ++ [.reply name fileName on]) = shown reports := by
  simp [shown]

theorem Truthful.signal {reports : List Report} (h : Truthful reports) (name fileName : Bytes)
    (on : Bool) : Truthful (reports ++ [.signal name fileName on]) :=
  h.concat fun _ _ _ hreport => by cases hreport

theorem text_ofOption (s : Option Bytes) : (Ptr.ofOption s).text = some (empty s) := by
  cases s <;> rfl

theorem empty_text {p : Ptr} {s : Bytes} (h : p.text = some s) : empty p.text = s := by
  rw [h]
  rfl

theorem Ptr.ne_dangling {p : Ptr} {s : Bytes} (h : p.text = some s) : p ≠ .dangling := by
  rintro rfl
  cases h

/-! ### Each section alone -/

variable {x : Members}

/-- What holds between any two steps. -/
def Sane (x : Members) : Prop := x.fault = false ∧ Truthful x.reports

theorem Settled.sane (h : Settled x) : Sane x := ⟨h.fault, h.truthful⟩

theorem whole_replaying (x : Members) (name fileName : Option Bytes) (on : Bool) :
    (sections.whole x (.replaying name fileName on)).1 =
      { replayOn := on
        replayName := .ofOption (if on then name else none)
        replayFilename := .ofOption (if on then fileName else none)
        reports := x.reports ++ [.signal (empty name) (empty fileName) on]
        fault := (x.fault || x.replayName = .dangling) || x.replayFilename = .dangling } := by
  cases on <;> rfl

theorem whole_isReplaying (x : Members) :
    (sections.whole x .isReplaying).1 =
      { x with
        reports := x.reports ++
          [.reply (empty x.replayName.text) (empty x.replayFilename.text) x.replayOn]
        fault := (x.fault || x.replayName.text.isNone) || x.replayFilename.text.isNone } := rfl

theorem Settled.replaying (h : Settled x) (name fileName : Option Bytes) (on : Bool) :
    Settled (sections.whole x (.replaying name fileName on)).1 := by
  have hfault : ((x.fault || decide (x.replayName = .dangling)) ||
      decide (x.replayFilename = .dangling)) = false := by
    simp [h.fault, Ptr.ne_dangling h.name, Ptr.ne_dangling h.fileName]
  rw [whole_replaying, hfault]
  refine ⟨?_, ?_, ?_, h.truthful.signal _ _ _, rfl⟩
  · rw [text_ofOption, shown_signal]
    cases on <;> rfl
  · rw [text_ofOption, shown_signal]
    cases on <;> rfl
  · rw [shown_signal]
    cases on <;> rfl

theorem Settled.reply (h : Settled x) :
    (empty x.replayName.text, empty x.replayFilename.text, x.replayOn) = shown x.reports := by
  rw [empty_text h.name, empty_text h.fileName, h.on]

theorem Settled.isReplaying (h : Settled x) : Settled (sections.whole x .isReplaying).1 := by
  have hfault :
      ((x.fault || x.replayName.text.isNone) || x.replayFilename.text.isNone) = false := by
    rw [h.fault, h.name, h.fileName]
    rfl
  rw [whole_isReplaying, hfault]
  refine ⟨?_, ?_, ?_, h.truthful.concat ?_, rfl⟩
  · rw [shown_reply]
    exact h.name
  · rw [shown_reply]
    exact h.fileName
  · rw [shown_reply]
    exact h.on
  · rintro name fileName on hreport
    obtain ⟨rfl, rfl, rfl⟩ := Report.reply.inj hreport
    exact h.reply

theorem Settled.whole (h : Settled x) (k : Call) : Settled (sections.whole x k).1 := by
  cases k with
  | replaying name fileName on => exact h.replaying name fileName on
  | isReplaying => exact h.isReplaying

theorem Settled.through (h : Settled x) (k : Call) :
    Sections.Through Sane (sections.body k) (x, sections.start k) := by
  have hname := Ptr.ne_dangling h.name
  have hfileName := Ptr.ne_dangling h.fileName
  cases k with
  | replaying name fileName on =>
      cases on <;>
        simp [sections, setReplay, Sections.Through, Sane, setOn, freeName, clearName, dupName,
          freeFilename, clearFilename, dupFilename, emitSignal, h.fault, hname, hfileName,
          h.truthful, h.truthful.signal]
  | isReplaying =>
      have hlast := h.isReplaying.sane
      rw [whole_isReplaying] at hlast
      refine ⟨h.sane, ⟨?_, h.truthful⟩, ⟨?_, h.truthful⟩, ⟨?_, h.truthful⟩, hlast⟩
      · simp [addName, h.fault, h.name]
      · simp [addName, addFilename, h.fault, h.name, h.fileName]
      · simp [addName, addFilename, addOn, h.fault, h.name, h.fileName]

/-! ### All of them -/

theorem reports_whole (x : Members) (k : Call) :
    (sections.whole x k).1.reports =
      x.reports ++ [Call.report (k, (sections.whole x k).2)] := by
  cases k with
  | replaying name fileName on => cases on <;> rfl
  | isReplaying => rfl

theorem reports_shared (x : Members) (ks : List Call) :
    (sections.shared x ks).reports = x.reports ++ (sections.results x ks).map Call.report := by
  induction ks generalizing x with
  | nil => exact (List.append_nil _).symm
  | cons k ks ih =>
      calc (sections.shared (sections.whole x k).1 ks).reports
          = (sections.whole x k).1.reports ++
              (sections.results (sections.whole x k).1 ks).map Call.report := ih _
        _ = x.reports ++ (sections.results x (k :: ks)).map Call.report := by
            rw [reports_whole, List.append_assoc]
            rfl

theorem settled_initial : Settled {} where
  name := rfl
  fileName := rfl
  on := rfl
  truthful := truthful_nil
  fault := rfl

/-- **`IsReplaying` tells the truth.** Whichever way the steps of the calls interleave, every reply
is what the last signal before it has said, and is empty when that was about the end of a replay; no
string is used after it has been freed, every call has its report once and all calls return in the
end. -/
theorem truthful_of_run {s : State Call Members Builder} {es : List (Critical.Event Call)}
    (hrun : run sections.step { shared := {} } es = some s) :
    Truthful s.shared.reports ∧ s.shared.fault = false ∧
      (s.holder = none → s.shared.reports = s.order.map Call.report) ∧
      (Sections.found s.calls).Perm s.order ∧
      Inevitably sections.step Event.IsTurn (fun s =>
        ∀ p ∈ s.calls, p.2.result ≠ none) s := by
  have hserial := Sections.serial_of_run hrun
  obtain ⟨hsane, -⟩ := Sections.invariant_of_run (fun k x h => h.whole k) (fun x h => h.sane)
    (fun k x h => h.through k) hrun settled_initial
  refine ⟨hsane.2, hsane.1, fun hfree => ?_, hserial.found, Sections.inevitably_left hrun⟩
  rw [hserial.free hfree, reports_shared, ← hserial.order]
  exact List.nil_append _

/-- A question that comes while the members are being changed. -/
def asked : List (Critical.Event Call) :=
  .call (.replaying (some (ascii "film")) none true) :: .call .isReplaying ::
    List.replicate 10 (.turn 0) ++ List.replicate 6 (.turn 1)

theorem truthful_of_run_asked :
    ∃ s, run sections.step { shared := {} } asked = some s ∧
      s.shared.reports =
        [.signal (ascii "film") [] true, .reply (ascii "film") [] true] ∧
      Truthful s.shared.reports := by
  obtain ⟨s, hrun, hreports⟩ : ∃ s, run sections.step { shared := {} } asked = some s ∧
      s.shared.reports = [.signal (ascii "film") [] true, .reply (ascii "film") [] true] :=
    ⟨_, rfl, rfl⟩
  exact ⟨s, hrun, hreports, (truthful_of_run hrun).1⟩

end Dbus2vdr.Replaying

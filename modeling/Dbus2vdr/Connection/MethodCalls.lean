import Mathlib.Data.List.Induction
import Dbus2vdr.Connection.Mail
import Dbus2vdr.Lib.Sweep

/-!
# The objects of the method calls

A `cDBusMethodCall` belongs to the queue until `do_call_method` has called it. One without a
callback is deleted then, with the rest of the queue; one with a callback is taken out and belongs
to its `do_call_reply`, which deletes it. `doCallMethod_dispatches` follows every object through
that, and `Represents.after` says that the queue does what `Mail` says of it.

An object is known by its number in the order of the calls of `CallMethod`.
-/

namespace Dbus2vdr

open Intrusive

structure CallQueue where
  /-- `_method_calls`, and the calls that have been deleted. -/
  heap : Heap Nat
  made : Nat
  /-- `_on_reply != NULL` -/
  onReply : Nat → Bool
  /-- The calls that `g_dbus_connection_call` has been called for. -/
  called : List Nat
  /-- Those of them whose `do_call_reply` is still to come. -/
  replies : List Nat

namespace CallQueue

inductive Event where
  | callMethod (reply : Bool)
  | doCallMethod (disconnectStatus connectStatus : Nat)
  | doCallReply (call : Nat)
  deriving DecidableEq, Repr

def new : CallQueue where
  heap := ⟨⟨fun _ => none, fun _ => none⟩, Base.empty, []⟩
  made := 0
  onReply := fun _ => false
  called := []
  replies := []

def callMethod (q : CallQueue) (reply : Bool) : Option CallQueue :=
  (q.heap.add q.made).map fun heap =>
    { q with heap, made := q.made + 1, onReply := Function.update q.onReply q.made reply }

/-- `g_dbus_connection_call`, with `do_call_reply` when there is a callback. -/
def call (onReply : Nat → Bool) (s : List Nat × List Nat) (c : Nat) : List Nat × List Nat :=
  (s.1 ++ [c], if onReply c then s.2 ++ [c] else s.2)

def doCallMethod (q : CallQueue) (disconnectStatus connectStatus : Nat) : Option CallQueue :=
  if 0 < disconnectStatus then some q
  else if connectStatus < 3 then some q
  else
    -- there are no more objects than have been made
    (Heap.sweep (call q.onReply) q.onReply false q.made (q.called, q.replies) q.heap
      q.heap.base.objects).bind fun (sent, heap) =>
        (Heap.clearLoop q.made heap).map fun heap =>
          { q with heap, called := sent.1, replies := sent.2 }

def doCallReply (q : CallQueue) (call : Nat) : Option CallQueue :=
  (q.heap.free call).map fun heap => { q with heap, replies := q.replies.erase call }

/-- GDBus calls back once for every call that has been given a callback. -/
def Enabled (q : CallQueue) : Event → Prop
  | .doCallReply call => call ∈ q.replies
  | _ => True

instance decidableEnabled (q : CallQueue) : DecidablePred q.Enabled
  | .callMethod _ | .doCallMethod _ _ => inferInstanceAs (Decidable True)
  | .doCallReply call => inferInstanceAs (Decidable (call ∈ q.replies))

/-- Without a result when a deleted object is touched. -/
def after (q : CallQueue) : Event → Option CallQueue
  | .callMethod reply => q.callMethod reply
  | .doCallMethod disconnectStatus connectStatus => q.doCallMethod disconnectStatus connectStatus
  | .doCallReply call => q.doCallReply call

def step : Machine.Step CallQueue Event := fun q e => if q.Enabled e then q.after e else none

/-! ### What holds of the objects -/

/-- `xs` is what `_method_calls` holds. -/
structure Sound (q : CallQueue) (xs : List Nat) : Prop where
  tidy : q.heap.Tidy xs
  posted : q.called ++ xs = List.range q.made
  unborn : ∀ n, q.made ≤ n → q.heap.links.next n = none ∧ q.heap.links.prev n = none
  waiting : ∀ n, n ∈ q.replies ↔ n ∈ q.called ∧ q.onReply n ∧ n ∉ q.heap.freed
  done : ∀ n ∈ q.called, ¬ q.onReply n → n ∈ q.heap.freed
  called : ∀ n ∈ q.heap.freed, n ∈ q.called
  once : q.heap.freed.Nodup
  repliesOnce : q.replies.Nodup

theorem sound_new : new.Sound [] where
  tidy := ⟨holds_empty _, fun x hx => (by cases hx)⟩
  posted := rfl
  unborn _ _ := ⟨rfl, rfl⟩
  waiting n := by simp [new]
  done n hn := by cases hn
  called n hn := by cases hn
  once := List.nodup_nil
  repliesOnce := List.nodup_nil

section Steps

variable {q q' : CallQueue} {xs : List Nat}

theorem Sound.lt_made (h : q.Sound xs) {n : Nat} (hn : n ∈ q.called ++ xs) : n < q.made := by
  rw [h.posted] at hn
  exact List.mem_range.mp hn

theorem Sound.nodup (h : q.Sound xs) : (q.called ++ xs).Nodup := by
  rw [h.posted]
  exact List.nodup_range

theorem Sound.notMem (h : q.Sound xs) {n : Nat} (hn : n ∈ q.called) : n ∉ xs := fun hmem =>
  (List.nodup_append.mp h.nodup).2.2 n hn n hmem rfl

theorem Sound.length_le (h : q.Sound xs) : xs.length ≤ q.made := by
  have hlength := congrArg List.length h.posted
  rw [List.length_append, List.length_range] at hlength
  omega

theorem foldl_call (onReply : Nat → Bool) (xs : List Nat) (s : List Nat × List Nat) :
    xs.foldl (call onReply) s = (s.1 ++ xs, s.2 ++ xs.filter onReply) := by
  induction xs generalizing s with
  | nil => simp
  | cons c xs ih =>
      rw [List.foldl_cons, ih, call]
      cases hreply : onReply c with
      | true => simp [hreply]
      | false => simp [hreply]

/-- What `do_call_method` has done with the queue. -/
structure Dispatched (q : CallQueue) (xs : List Nat) (q' : CallQueue) : Prop where
  called : q'.called = q.called ++ xs
  empty : q'.heap.base = Base.empty
  freed : q'.heap.freed = q.heap.freed ++ xs.filter fun c => !q.onReply c
  replies : q'.replies = q.replies ++ xs.filter q.onReply
  made : q'.made = q.made
  onReply : q'.onReply = q.onReply
  same : SameOutside xs q.heap.links q'.heap.links

theorem Sound.doCallMethod (h : q.Sound xs) {connectStatus : Nat}
    (hconnected : 3 ≤ connectStatus) :
    ∃ q', q.doCallMethod 0 connectStatus = some q' ∧ Dispatched q xs q' := by
  have htidy : q.heap.Tidy ([] ++ xs) := h.tidy
  obtain ⟨heap, hsweep, htidy', hfreed, hsame⟩ :=
    htidy.sweep (call q.onReply) q.onReply false (q.called, q.replies) h.length_le
  rw [List.nil_append] at htidy' hsame
  have hleft : (xs.filter fun c => !q.onReply c).length ≤ q.made :=
    Nat.le_trans (List.length_filter_le _ _) h.length_le
  have hclear := Heap.Tidy.clearLoop htidy'.holds.forward htidy'.alive htidy'.holds.nodup hleft
  have hafter : q.doCallMethod 0 connectStatus = some { q with
      heap := { heap with
        base := Base.empty, freed := heap.freed ++ xs.filter fun c => !q.onReply c }
      called := q.called ++ xs
      replies := q.replies ++ xs.filter q.onReply } := by
    unfold CallQueue.doCallMethod
    rw [if_neg (by decide), if_neg (by omega), h.tidy.holds.objects, hsweep, Option.bind_some]
    dsimp only
    rw [hclear, Option.map_some, foldl_call]
  refine ⟨_, hafter, rfl, rfl, ?_, rfl, rfl, rfl, hsame⟩
  dsimp only
  rw [hfreed]
  simp

theorem Dispatched.sound (h : Dispatched q xs q') (hsound : q.Sound xs) : q'.Sound [] where
  tidy := by
    refine ⟨?_, fun x hx => (by cases hx)⟩
    rw [h.empty]
    exact holds_empty _
  posted := by rw [h.called, h.made, List.append_nil, hsound.posted]
  unborn n hn := by
    rw [h.made] at hn
    have hout : n ∉ xs := fun hmem =>
      absurd (hsound.lt_made (List.mem_append_right _ hmem)) (by omega)
    obtain ⟨hnext, hprev⟩ := h.same n hout
    rw [hnext, hprev]
    exact hsound.unborn n hn
  waiting n := by
    rw [h.replies, h.called, h.onReply, h.freed]
    simp only [List.mem_append, List.mem_filter, hsound.waiting n, Bool.not_eq_true']
    have hfresh : n ∈ xs → n ∉ q.heap.freed := fun hmem => hsound.tidy.alive n hmem
    have hnew : n ∈ q.called → n ∉ xs := hsound.notMem
    cases q.onReply n with
    | true => simp; tauto
    | false => simp
  done n hn hreply := by
    rw [h.onReply] at hreply
    rw [h.called] at hn
    rw [h.freed, List.mem_append, List.mem_filter]
    cases List.mem_append.mp hn with
    | inl hmem => exact Or.inl (hsound.done n hmem hreply)
    | inr hmem => exact Or.inr ⟨hmem, by simpa using hreply⟩
  called n hn := by
    rw [h.freed] at hn
    rw [h.called]
    cases List.mem_append.mp hn with
    | inl hmem => exact List.mem_append_left _ (hsound.called n hmem)
    | inr hmem => exact List.mem_append_right _ (List.mem_filter.mp hmem).1
  once := by
    rw [h.freed, List.nodup_append]
    refine ⟨hsound.once, hsound.tidy.holds.nodup.filter _, ?_⟩
    rintro n hn m hm rfl
    exact hsound.tidy.alive n (List.mem_filter.mp hm).1 hn
  repliesOnce := by
    rw [h.replies, List.nodup_append]
    refine ⟨hsound.repliesOnce, hsound.tidy.holds.nodup.filter _, ?_⟩
    rintro n hn m hm rfl
    exact hsound.notMem ((hsound.waiting n).mp hn).1 (List.mem_filter.mp hm).1

theorem Sound.callMethod (h : q.Sound xs) (reply : Bool) :
    ∃ q', q.callMethod reply = some q' ∧ q'.Sound (xs ++ [q.made]) ∧ q'.called = q.called ∧
      q'.heap.freed = q.heap.freed ∧ q'.replies = q.replies ∧ q'.made = q.made + 1 ∧
      q'.onReply = Function.update q.onReply q.made reply := by
  have hnew : ∀ n ∈ q.called ++ xs, n ≠ q.made := fun n hn => Nat.ne_of_lt (h.lt_made hn)
  have hxs : q.made ∉ xs := fun hmem => hnew _ (List.mem_append_right _ hmem) rfl
  have hcalled : q.made ∉ q.called := fun hmem => hnew _ (List.mem_append_left _ hmem) rfl
  have hfreed : q.made ∉ q.heap.freed := fun hmem => hcalled (h.called _ hmem)
  obtain ⟨hnext, hprev⟩ := h.unborn q.made (Nat.le_refl _)
  obtain ⟨heap, hadd, htidy, hsame, hlinks⟩ := h.tidy.add hnext hprev hxs hfreed
  have hkept : ∀ n ∈ q.called, Function.update q.onReply q.made reply n = q.onReply n :=
    fun n hn =>
    Function.update_of_ne (hnew n (List.mem_append_left _ hn)) _ _
  have hafter : q.callMethod reply = some { q with
      heap, made := q.made + 1, onReply := Function.update q.onReply q.made reply } := by
    rw [CallQueue.callMethod, hadd, Option.map_some]
  refine ⟨_, hafter, ?_, rfl, hsame, rfl, rfl, rfl⟩
  constructor
  case tidy => exact htidy
  case posted =>
    dsimp only
    rw [← List.append_assoc, h.posted, List.range_succ]
  case unborn =>
    intro n hn
    have hout : n ∉ xs ++ [q.made] := by
      intro hmem
      cases List.mem_append.mp hmem with
      | inl hmem =>
          exact absurd (h.lt_made (List.mem_append_right _ hmem)) (by dsimp only at hn; omega)
      | inr hmem =>
          rw [List.mem_singleton] at hmem
          dsimp only at hn
          omega
    obtain ⟨hnext, hprev⟩ := hlinks n hout
    dsimp only at hn ⊢
    rw [hnext, hprev]
    exact h.unborn n (by omega)
  case waiting =>
    intro n
    dsimp only
    rw [hsame, h.waiting n]
    refine and_congr_right fun hn => ?_
    rw [hkept n hn]
  case done =>
    intro n hn hreply
    dsimp only at hn hreply ⊢
    rw [hkept n hn] at hreply
    rw [hsame]
    exact h.done n hn hreply
  case called =>
    intro n hn
    dsimp only at hn ⊢
    rw [hsame] at hn
    exact h.called n hn
  case once =>
    dsimp only
    rw [hsame]
    exact h.once
  case repliesOnce => exact h.repliesOnce

theorem Sound.doCallReply (h : q.Sound xs) {call : Nat} (hcall : call ∈ q.replies) :
    ∃ q', q.doCallReply call = some q' ∧ q'.Sound xs ∧ q'.called = q.called ∧
      q'.heap.freed = q.heap.freed ++ [call] ∧ q'.replies = q.replies.erase call ∧
      q'.made = q.made ∧ q'.onReply = q.onReply := by
  obtain ⟨hcalled, hreply, halive⟩ := (h.waiting call).mp hcall
  have hafter : q.doCallReply call = some { q with
      heap := { q.heap with freed := q.heap.freed ++ [call] }, replies :=
        q.replies.erase call } := by
    rw [CallQueue.doCallReply, Heap.free_of_alive halive, Option.map_some]
  refine ⟨_, hafter, ?_, rfl, rfl, rfl, rfl, rfl⟩
  constructor
  case tidy =>
    refine ⟨h.tidy.holds, fun x hx => ?_⟩
    dsimp only
    rw [List.mem_append, List.mem_singleton, not_or]
    refine ⟨h.tidy.alive x hx, ?_⟩
    rintro rfl
    exact h.notMem hcalled hx
  case posted => exact h.posted
  case unborn => exact h.unborn
  case waiting =>
    intro n
    dsimp only
    rw [h.repliesOnce.mem_erase_iff, h.waiting n, List.mem_append, List.mem_singleton]
    tauto
  case done =>
    intro n hn hreply
    exact List.mem_append_left _ (h.done n hn hreply)
  case called =>
    intro n hn
    cases List.mem_append.mp hn with
    | inl hmem => exact h.called n hmem
    | inr hmem =>
        rw [List.mem_singleton.mp hmem]
        exact hcalled
  case once =>
    dsimp only
    rw [List.nodup_append]
    refine ⟨h.once, List.nodup_singleton _, ?_⟩
    rintro n hn m hm rfl
    rw [List.mem_singleton.mp hm] at hn
    exact halive hn
  case repliesOnce => exact h.repliesOnce.erase _

end Steps

/-! ### Every step and every run -/

section Runs

variable {q q' q'' : CallQueue} {xs : List Nat}

/-- What a step does with the calls that have been made before: it deletes none of them, unless it
is their `do_call_reply`. -/
structure Keeps (q : CallQueue) (e : Event) (q' : CallQueue) : Prop where
  called : ∀ c ∈ q.called, c ∈ q'.called
  freed : ∀ c ∈ q.called, c ∈ q'.heap.freed ↔ c ∈ q.heap.freed ∨ e = .doCallReply c

/-- Nothing that has been deleted is touched. -/
theorem Sound.after (h : q.Sound xs) {e : Event} (henabled : q.Enabled e) :
    ∃ q', step q e = some q' ∧ (∃ ys, q'.Sound ys) ∧ Keeps q e q' := by
  cases e with
  | callMethod reply =>
      obtain ⟨q', hafter, hsound, hcalled, hfreed, -⟩ := h.callMethod reply
      refine ⟨q', (if_pos henabled).trans hafter, ⟨_, hsound⟩, fun c hc =>
        hcalled ▸ hc, fun c _ => ?_⟩
      rw [hfreed]
      simp
  | doCallMethod disconnectStatus connectStatus =>
      by_cases hstatus : 0 < disconnectStatus ∨ connectStatus < 3
      · have hafter : q.doCallMethod disconnectStatus connectStatus = some q := by
          unfold CallQueue.doCallMethod
          split_ifs
          · rfl
          · rfl
          · omega
        exact ⟨q, (if_pos henabled).trans hafter, ⟨xs, h⟩, fun c hc =>
          hc, fun c _ => by simp⟩
      · obtain ⟨hdisconnect, hconnect⟩ := not_or.mp hstatus
        obtain rfl : disconnectStatus = 0 := by omega
        obtain ⟨q', hafter, hdispatched⟩ := h.doCallMethod (Nat.le_of_not_lt hconnect)
        refine ⟨q', (if_pos henabled).trans hafter, ⟨[], hdispatched.sound h⟩, fun c hc => ?_,
          fun c hc => ?_⟩
        · rw [hdispatched.called]
          exact List.mem_append_left _ hc
        · rw [hdispatched.freed]
          simp [h.notMem hc]
  | doCallReply call =>
      obtain ⟨q', hafter, hsound, hcalled, hfreed, -⟩ := h.doCallReply henabled
      refine ⟨q', (if_pos henabled).trans hafter, ⟨_, hsound⟩, fun c hc =>
        hcalled ▸ hc, fun c _ => ?_⟩
      rw [hfreed]
      simp [eq_comm]

theorem enabled_of_step {e : Event} (hstep : step q e = some q') : q.Enabled e := by
  by_contra hnot
  rw [step, if_neg hnot] at hstep
  cases hstep

theorem Sound.step (h : q.Sound xs) {e : Event} (hstep : step q e = some q') :
    (∃ ys, q'.Sound ys) ∧ Keeps q e q' := by
  obtain ⟨q₁, hafter, hsound⟩ := h.after (enabled_of_step hstep)
  rw [hstep] at hafter
  cases hafter
  exact hsound

theorem sound_of_run {es : List Event} (hrun : Machine.run CallQueue.step q es = some q')
    (hsound : ∃ xs, q.Sound xs) : ∃ xs, q'.Sound xs := by
  refine Machine.run_invariant (I := fun q => ∃ xs, q.Sound xs) ?_ hrun hsound
  rintro q e q' ⟨xs, h⟩ hstep
  exact (h.step hstep).1

/-- Of a call that has been made nothing comes but its reply, which comes once and deletes it. -/
theorem Sound.run (h : q.Sound xs) {es : List Event}
    (hrun : Machine.run CallQueue.step q es = some q') {c : Nat} (hc : c ∈ q.called) :
    (c ∈ q'.heap.freed ↔ c ∈ q.heap.freed ∨ .doCallReply c ∈ es) ∧
      es.count (.doCallReply c) ≤ if c ∈ q.heap.freed then 0 else 1 := by
  induction es generalizing q xs with
  | nil =>
      rw [Machine.run_nil, Option.some.injEq] at hrun
      simp [hrun]
  | cons e es ih =>
      obtain ⟨q₁, hstep, hrest⟩ := Machine.run_cons_eq_some.mp hrun
      obtain ⟨⟨ys, hsound⟩, hkeeps⟩ := h.step hstep
      obtain ⟨hfreed, hcount⟩ := ih hsound hrest (hkeeps.called c hc)
      refine ⟨?_, ?_⟩
      · rw [hfreed, hkeeps.freed c hc, List.mem_cons, or_assoc, eq_comm (a := e)]
      · by_cases he : e = .doCallReply c
        · subst he
          have halive : c ∉ q.heap.freed := ((h.waiting c).mp (enabled_of_step hstep)).2.2
          rw [if_pos ((hkeeps.freed c hc).mpr (Or.inr rfl))] at hcount
          rw [List.count_cons_self, if_neg halive]
          omega
        · have hsame : c ∈ q₁.heap.freed ↔
            c ∈ q.heap.freed := by simp [hkeeps.freed c hc, he]
          rw [List.count_cons_of_ne he]
          simpa only [hsame] using hcount

/-- Every mix of calls can be in the queue. -/
theorem holds_any (replies : List Bool) :
    ∃ q, Machine.run CallQueue.step new (replies.map .callMethod) = some q ∧
      Holds q.heap.links q.heap.base (List.range replies.length) ∧ q.called = [] ∧
      (List.range replies.length).map q.onReply = replies := by
  induction replies using List.reverseRecOn with
  | nil => exact ⟨new, rfl, holds_empty _, rfl, rfl⟩
  | append_singleton replies reply ih =>
      obtain ⟨q, hrun, hholds, hcalled, hreplies⟩ := ih
      obtain ⟨xs, hsound⟩ := sound_of_run hrun ⟨_, sound_new⟩
      obtain rfl := hholds.unique hsound.tidy.holds
      have hmade : q.made = replies.length := by
        have hlength := congrArg List.length hsound.posted
        simpa [hcalled] using hlength.symm
      obtain ⟨q', hafter, hsound', hcalled', -, -, -, honReply⟩ := hsound.callMethod reply
      refine ⟨q', ?_, ?_, hcalled'.trans hcalled, ?_⟩
      · rw [List.map_append, Machine.run_append, hrun, Option.bind_some]
        exact Machine.run_cons_eq_some.mpr ⟨q', (if_pos trivial).trans hafter, rfl⟩
      · rw [List.length_append, List.length_singleton, List.range_succ, ← hmade]
        exact hmade ▸ hsound'.tidy.holds
      · rw [List.length_append, List.length_singleton, List.range_succ, List.map_append, honReply,
          hmade]
        congr 1
        · refine Eq.trans (List.map_congr_left fun n hn => ?_) hreplies
          exact Function.update_of_ne (Nat.ne_of_lt (List.mem_range.mp hn)) _ _
        · simp

end Runs

/-! ### The queue of the connection -/

/-- The queue with its objects is the one of `Mail`. -/
structure Represents (q : CallQueue) (xs : List Nat) (m : Mail) : Prop where
  sound : q.Sound xs
  methodCalls : m.methodCalls = xs.map fun n => ⟨n, q.onReply n⟩
  called : m.called = q.called
  replies : m.replies = q.replies
  posted : m.posted = q.made

/-- What an event of `Mail` is for the queue of the method calls. -/
def event (l : Link) : MailEvent → Option Event
  | .callMethod reply => some (.callMethod reply)
  | .doCallMethod => some (.doCallMethod l.disconnectStatus l.connectStatus)
  | .doCallReply call => some (.doCallReply call)
  | _ => none

section Represents

variable {q : CallQueue} {xs : List Nat} {m : Mail}

theorem Represents.callMethod (h : Represents q xs m) (reply : Bool) :
    ∃ q' ys, q.callMethod reply = some q' ∧ Represents q' ys (m.callMethod reply) := by
  obtain ⟨q', hafter, hsound, hcalled, -, hreplies, hmade, honReply⟩ := h.sound.callMethod reply
  refine ⟨q', _, hafter, hsound, ?_, h.called.trans hcalled.symm, h.replies.trans hreplies.symm,
    ?_⟩
  · have hkept : ∀ n ∈ xs, (⟨n, q.onReply n⟩ : MethodCall) =
        ⟨n, Function.update q.onReply q.made reply n⟩ := by
      intro n hn
      have hne := Nat.ne_of_lt (h.sound.lt_made (List.mem_append_right _ hn))
      rw [Function.update_of_ne hne]
    rw [Mail.callMethod, h.methodCalls, h.posted, honReply, List.map_append,
      List.map_congr_left hkept]
    simp
  · rw [hmade, ← h.posted]
    rfl

theorem Represents.doCallMethod (h : Represents q xs m) (l : Link) :
    ∃ q' ys, q.doCallMethod l.disconnectStatus l.connectStatus = some q' ∧
      Represents q' ys (m.doCallMethod l) := by
  unfold CallQueue.doCallMethod Mail.doCallMethod
  by_cases hdisconnect : 0 < l.disconnectStatus
  · rw [if_pos hdisconnect, if_pos hdisconnect]
    exact ⟨q, xs, rfl, h.sound, h.methodCalls, h.called, h.replies, h.posted⟩
  by_cases hconnect : l.connectStatus < 3
  · rw [if_neg hdisconnect, if_neg hdisconnect, if_pos hconnect, if_pos hconnect]
    exact ⟨q, xs, rfl, h⟩
  · obtain ⟨q', hafter, hdispatched⟩ := h.sound.doCallMethod (Nat.le_of_not_lt hconnect)
    rw [CallQueue.doCallMethod, if_neg (by decide), if_neg hconnect] at hafter
    rw [if_neg hdisconnect, if_neg hdisconnect, if_neg hconnect, if_neg hconnect]
    refine ⟨q', [], hafter, hdispatched.sound h.sound, rfl, ?_, ?_, ?_⟩
    · rw [hdispatched.called, h.methodCalls, h.called]
      simp [Function.comp_def]
    · rw [hdispatched.replies, h.methodCalls, h.replies]
      simp [List.filter_map, Function.comp_def]
    · exact h.posted.trans hdispatched.made.symm

theorem Represents.doCallReply (h : Represents q xs m) {call : Nat} (hcall : call ∈ m.replies) :
    ∃ q' ys, q.doCallReply call = some q' ∧ Represents q' ys (m.doCallReply call) := by
  obtain ⟨q', hafter, hsound, hcalled, -, hreplies, hmade, honReply⟩ :=
    h.sound.doCallReply (h.replies ▸ hcall)
  refine ⟨q', xs, hafter, hsound, ?_, h.called.trans hcalled.symm, ?_,
    h.posted.trans hmade.symm⟩
  · rw [honReply]
    exact h.methodCalls
  · rw [hreplies, ← h.replies]
    rfl

/-- The queue with its objects follows the queue of `Mail` through every event, and no deleted
object is touched. -/
theorem Represents.after (h : Represents q xs m) {l : Link} {e : MailEvent}
    (henabled : m.Enabled l e) :
    match event l e with
    | some e' => ∃ q' ys, step q e' = some q' ∧ Represents q' ys (m.after l e)
    | none => Represents q xs (m.after l e) := by
  have hframe : ∀ m' : Mail, m'.methodCalls = m.methodCalls → m'.called = m.called →
      m'.replies = m.replies → m'.posted = m.posted → Represents q xs m' :=
    fun m' hmethodCalls hcalled hreplies hposted => ⟨h.sound, hmethodCalls.trans h.methodCalls,
      hcalled.trans h.called, hreplies.trans h.replies, hposted.trans h.posted⟩
  cases e with
  | callMethod reply =>
      obtain ⟨q', ys, hafter, hrepresents⟩ := h.callMethod reply
      exact ⟨q', ys, (if_pos trivial).trans hafter, hrepresents⟩
  | doCallMethod =>
      obtain ⟨q', ys, hafter, hrepresents⟩ := h.doCallMethod l
      exact ⟨q', ys, (if_pos trivial).trans hafter, hrepresents⟩
  | doCallReply call =>
      obtain ⟨q', ys, hafter, hrepresents⟩ := h.doCallReply henabled.1
      have hreply : call ∈ q.replies := h.replies ▸ henabled.1
      exact ⟨q', ys, (if_pos hreply).trans hafter, hrepresents⟩
  | flushCall | doEmitSignal | handOver poolOk | directEmit | workerEmit i =>
      simp only [event, Mail.after, Mail.flushCall, Mail.doEmitSignal, Mail.handOver,
        Mail.directEmit, Mail.workerEmit]
      (repeat' split) <;> first | exact h | exact hframe _ rfl rfl rfl rfl
  | emitSignal | flushReturn i | directFinish | workerStart | workerFinish i =>
      exact hframe _ rfl rfl rfl rfl

end Represents

end CallQueue

end Dbus2vdr

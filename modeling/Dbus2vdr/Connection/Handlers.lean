import Dbus2vdr.Connection.Mail

/-!
# The handlers of the send queues

`EmitSignal` and `CallMethod` attach a source only when they find their queue empty, so each of the
two relies on the other end: a queue with something in it has its source, and that source goes only
when it has emptied the queue. `do_emit_signal` and `do_call_method` break this when they run while
`Disconnect` waits. They end then, "so forget the pending signals", but leave the queue as it is,
and no source is ever attached for it again: not after `Disconnect`, and not after the next
`Connect`.
-/

namespace Dbus2vdr

/-! ### A queue and its sources -/

section Queue

variable {α : Type} {queue : List α} {sources : Nat} {x : α}

/-- A source exists only while the queue has something in it, and then at most one. -/
def AtMostOne (queue : List α) (sources : Nat) : Prop :=
  sources ≤ if queue = [] then 0 else 1

/-- The queue has something in it and no source. -/
def Lost (queue : List α) (sources : Nat) : Prop :=
  queue ≠ [] ∧ sources = 0

theorem AtMostOne.served_iff (hone : AtMostOne queue sources) :
    (queue ≠ [] → sources = 1) ↔ ¬ Lost queue sources := by
  unfold AtMostOne at hone
  unfold Lost
  split_ifs at hone with hnil
  · simp [hnil]
  · simp only [ne_eq, hnil, not_false_eq_true, true_and, forall_const]
    omega

theorem AtMostOne.post (hone : AtMostOne queue sources) :
    AtMostOne (queue ++ [x]) (sources + if queue.length = 0 then 1 else 0) := by
  unfold AtMostOne at hone ⊢
  rw [if_neg (List.append_ne_nil_of_right_ne_nil queue (List.cons_ne_nil x []))]
  by_cases hnil : queue = []
  · rw [if_pos hnil] at hone
    rw [if_pos (List.length_eq_zero_iff.mpr hnil)]
    omega
  · rw [if_neg hnil] at hone
    rw [if_neg (mt List.length_eq_zero_iff.mp hnil)]
    exact hone

theorem AtMostOne.drop (hone : AtMostOne queue sources) : AtMostOne queue (sources - 1) :=
  Nat.le_trans (Nat.sub_le sources 1) hone

theorem AtMostOne.drain (hone : AtMostOne queue sources) :
    AtMostOne ([] : List α) (sources - 1) := by
  unfold AtMostOne at hone ⊢
  rw [if_pos rfl]
  split_ifs at hone <;> omega

theorem lost_post_iff :
    Lost (queue ++ [x]) (sources + if queue.length = 0 then 1 else 0) ↔ Lost queue sources := by
  unfold Lost
  cases queue <;> simp

theorem not_lost_nil : ¬ Lost ([] : List α) sources := fun hlost => hlost.1 rfl

/-- A source that ends without emptying its queue was the only one. -/
theorem AtMostOne.lost_of_drop (hone : AtMostOne queue sources) (hsource : 0 < sources) :
    Lost queue (sources - 1) := by
  unfold AtMostOne at hone
  split_ifs at hone with hnil
  · omega
  · exact ⟨hnil, by omega⟩

end Queue

/-- The events that touch a send queue or its source. -/
def MailEvent.queues : MailEvent → Bool
  | .emitSignal | .callMethod _ | .doEmitSignal | .doCallMethod => true
  | _ => false

namespace Mail

structure HandlerSound (m : Mail) : Prop where
  emit : AtMostOne m.signals m.doEmitSignalSources
  call : AtMostOne m.methodCalls m.doCallMethodSources

/-- Each queue with something in it has exactly one source, whose callback empties the queue when it
finds the connection up and goes on being called when it does not. -/
structure Served (m : Mail) : Prop where
  emit : m.signals ≠ [] → m.doEmitSignalSources = 1
  call : m.methodCalls ≠ [] → m.doCallMethodSources = 1
  emitDrains : ∀ l : Link, l.disconnectStatus = 0 →
    if l.connectStatus < 3 then m.doEmitSignal l = m else (m.doEmitSignal l).signals = []
  callDrains : ∀ l : Link, l.disconnectStatus = 0 →
    if l.connectStatus < 3 then m.doCallMethod l = m else (m.doCallMethod l).methodCalls = []

def Stranded (m : Mail) : Prop :=
  Lost m.signals m.doEmitSignalSources ∨ Lost m.methodCalls m.doCallMethodSources

theorem handlerSound_new : HandlerSound {} := ⟨Nat.le_refl 0, Nat.le_refl 0⟩

/-- Outside of `Disconnect` the callback of a source tries again later or empties the queue. -/
theorem doEmitSignal_drains (m : Mail) {l : Link} (hdown : l.disconnectStatus = 0) :
    if l.connectStatus < 3 then m.doEmitSignal l = m else (m.doEmitSignal l).signals = [] := by
  have hsteady : ¬ 0 < l.disconnectStatus := by omega
  by_cases hstatus : l.connectStatus < 3
  · rw [if_pos hstatus, doEmitSignal, if_neg hsteady, if_pos hstatus]
  · rw [if_neg hstatus, doEmitSignal, if_neg hsteady, if_neg hstatus]
    by_cases hnil : m.signals = []
    · rw [if_pos hnil]
      exact hnil
    · rw [if_neg hnil]

theorem doCallMethod_drains (m : Mail) {l : Link} (hdown : l.disconnectStatus = 0) :
    if l.connectStatus < 3 then m.doCallMethod l = m else (m.doCallMethod l).methodCalls = [] := by
  have hsteady : ¬ 0 < l.disconnectStatus := by omega
  by_cases hstatus : l.connectStatus < 3
  · rw [if_pos hstatus, doCallMethod, if_neg hsteady, if_pos hstatus]
  · rw [if_neg hstatus, doCallMethod, if_neg hsteady, if_neg hstatus]

theorem HandlerSound.served_iff {m : Mail} (hm : m.HandlerSound) : m.Served ↔ ¬ m.Stranded := by
  rw [Stranded, not_or, ← hm.emit.served_iff, ← hm.call.served_iff]
  constructor
  · intro hserved
    exact ⟨hserved.emit, hserved.call⟩
  · rintro ⟨hemit, hcall⟩
    exact ⟨hemit, hcall, fun l => m.doEmitSignal_drains, fun l => m.doCallMethod_drains⟩

theorem after_queues (l : Link) (m : Mail) {e : MailEvent} (hother : ¬ e.queues) :
    (m.after l e).signals = m.signals ∧ (m.after l e).methodCalls = m.methodCalls ∧
      (m.after l e).doEmitSignalSources = m.doEmitSignalSources ∧
        (m.after l e).doCallMethodSources = m.doCallMethodSources := by
  cases e with
  | emitSignal | callMethod | doEmitSignal | doCallMethod => exact absurd rfl hother
  | handOver poolOk =>
      simp only [Mail.after, handOver]
      split
      · split_ifs <;> exact ⟨rfl, rfl, rfl, rfl⟩
      · exact ⟨rfl, rfl, rfl, rfl⟩
  | directEmit =>
      simp only [Mail.after, directEmit]
      split <;> exact ⟨rfl, rfl, rfl, rfl⟩
  | flushCall =>
      simp only [Mail.after, flushCall]
      split_ifs <;> exact ⟨rfl, rfl, rfl, rfl⟩
  | workerEmit i =>
      simp only [Mail.after, workerEmit]
      split <;> exact ⟨rfl, rfl, rfl, rfl⟩
  | flushReturn | directFinish | doCallReply | workerStart | workerFinish =>
      exact ⟨rfl, rfl, rfl, rfl⟩

theorem Served.after_other {l : Link} {m : Mail} {e : MailEvent} (hm : m.Served)
    (hother : ¬ e.queues) : (m.after l e).Served := by
  obtain ⟨hsignals, hcalls, hemits, hcallers⟩ := after_queues l m hother
  refine ⟨?_, ?_, fun l' => (m.after l e).doEmitSignal_drains,
    fun l' => (m.after l e).doCallMethod_drains⟩
  · rw [hsignals, hemits]
    exact hm.emit
  · rw [hcalls, hcallers]
    exact hm.call

theorem HandlerSound.after {l : Link} {m : Mail} {e : MailEvent} (hm : m.HandlerSound) :
    (m.after l e).HandlerSound := by
  obtain ⟨hemit, hcall⟩ := hm
  by_cases hother : e.queues
  · cases e with
    | emitSignal => exact ⟨hemit.post, hcall⟩
    | callMethod reply => exact ⟨hemit, hcall.post⟩
    | doEmitSignal =>
        simp only [Mail.after, doEmitSignal]
        split_ifs
        · exact ⟨hemit.drop, hcall⟩
        · exact ⟨hemit, hcall⟩
        · exact ⟨hemit.drop, hcall⟩
        · exact ⟨hemit.drain, hcall⟩
    | doCallMethod =>
        simp only [Mail.after, doCallMethod]
        split_ifs
        · exact ⟨hemit, hcall.drop⟩
        · exact ⟨hemit, hcall⟩
        · exact ⟨hemit, hcall.drain⟩
    | _ => cases hother
  · obtain ⟨hsignals, hcalls, hemits, hcallers⟩ := after_queues l m hother
    constructor
    · rwa [hemits, hsignals]
    · rwa [hcallers, hcalls]

/-- **Stranding.** A queue loses its source when a handler ends inside of `Disconnect`, by no other
step, and for ever. -/
theorem stranded_after_iff {l : Link} {m : Mail} {e : MailEvent} (hm : m.HandlerSound)
    (he : m.Enabled l e) :
    (m.after l e).Stranded ↔ m.Stranded ∨
      (e = .doEmitSignal ∨ e = .doCallMethod) ∧ 0 < l.disconnectStatus := by
  obtain ⟨hemit, hcall⟩ := hm
  by_cases hother : e.queues
  · cases e with
    | emitSignal =>
        simp only [Mail.after, emitSignal, Stranded, lost_post_iff]
        simp
    | callMethod reply =>
        simp only [Mail.after, callMethod, Stranded, lost_post_iff]
        simp
    | doEmitSignal =>
        have hserved : ¬ Lost m.signals m.doEmitSignalSources := fun hlost =>
          absurd hlost.2 (by have := he.1; omega)
        simp only [Mail.after, doEmitSignal, Stranded, true_or, true_and]
        split_ifs with hdown hstatus hnil
        · simp [hemit.lost_of_drop he.1, hdown]
        · simp [hdown]
        · simp [hdown, hnil, not_lost_nil]
        · simp [hdown, hserved, not_lost_nil]
    | doCallMethod =>
        have hserved : ¬ Lost m.methodCalls m.doCallMethodSources := fun hlost =>
          absurd hlost.2 (by have := he.1; omega)
        simp only [Mail.after, doCallMethod, Stranded, or_true, true_and]
        split_ifs with hdown hstatus
        · simp [hcall.lost_of_drop he.1, hdown]
        · simp [hdown]
        · simp [hdown, hserved, not_lost_nil]
    | _ => cases hother
  · obtain ⟨hsignals, hcalls, hemits, hcallers⟩ := after_queues l m hother
    unfold Stranded
    rw [hsignals, hcalls, hemits, hcallers]
    cases e <;> simp_all [MailEvent.queues]

end Mail

namespace Conn

/-- Neither handler runs while `Disconnect` has set `_disconnect_status`. -/
def HandlersOutside (c : Conn) : Event → Prop
  | .mail .doEmitSignal | .mail .doCallMethod => c.link.disconnectStatus = 0
  | _ => True

instance decidableHandlersOutside (c : Conn) : (e : Event) → Decidable (c.HandlersOutside e)
  | .mail .doEmitSignal | .mail .doCallMethod =>
      inferInstanceAs (Decidable (c.link.disconnectStatus = 0))
  | .link _ | .mail .emitSignal | .mail (.callMethod _) | .mail .flushCall | .mail (.flushReturn _)
  | .mail (.handOver _) | .mail .directEmit | .mail .directFinish | .mail (.doCallReply _)
  | .mail .workerStart | .mail (.workerEmit _) | .mail (.workerFinish _) =>
      inferInstanceAs (Decidable True)

theorem handlerSound_step {c c' : Conn} {e : Event} (hc : c.mail.HandlerSound)
    (hstep : step c e = some c') : c'.mail.HandlerSound :=
  mail_invariant (fun _ _ _ hm _ => hm.after) hc hstep

theorem stranded_step_iff {c c' : Conn} {e : Event} (hc : c.mail.HandlerSound)
    (hstep : step c e = some c') : c'.mail.Stranded ↔
    c.mail.Stranded ∨ ¬ c.HandlersOutside e := by
  obtain ⟨henabled, rfl⟩ := step_eq_some.mp hstep
  cases e with
  | link e => simp [after, HandlersOutside]
  | mail e =>
      rw [after, Mail.stranded_after_iff hc henabled]
      cases e <;> simp [HandlersOutside, Nat.pos_iff_ne_zero]

/-- **No lost wake-up.** In every run in which no handler runs inside of `Disconnect`, each queue
with something in it has exactly one source that will still drain it, whenever no `Disconnect` is in
progress; and in a run that ends outside of `Disconnect` only then. -/
theorem served_throughout {target : BusTarget} {named : Bool} {es : List Event} {c : Conn}
    (hrun : Machine.run step (new target named) es = some c) :
    (Machine.Along step HandlersOutside (new target named) es →
      Machine.Throughout step (fun t => t.link.disconnectStatus = 0 → t.mail.Served)
        (new target named) es) ∧
    (c.link.disconnectStatus = 0 →
      Machine.Throughout step (fun t => t.link.disconnectStatus = 0 → t.mail.Served)
        (new target named) es →
      Machine.Along step HandlersOutside (new target named) es) := by
  have hnew : (new target named).mail.HandlerSound := Mail.handlerSound_new
  constructor
  · intro halong
    have hserved : Machine.Throughout step (fun t => t.mail.Served) (new target named) es := by
      refine (Machine.throughout_iff_along (I := fun t => t.mail.HandlerSound)
        (fun t e t' => handlerSound_step) (fun t e t' ht hserved hstep => ?_) hrun hnew ?_).mpr
        halong
      · rw [(handlerSound_step ht hstep).served_iff, stranded_step_iff ht hstep, not_or, not_not]
        exact and_iff_right (ht.served_iff.mp hserved)
      · rw [hnew.served_iff]
        rintro (hlost | hlost) <;> exact not_lost_nil hlost
    refine hserved.imp ?_
    intro t ht _
    exact ht
  · intro hend hthrough
    refine Machine.along_of_absorbing (I := fun t => t.mail.HandlerSound)
      (D := fun t => t.mail.HandlerSound ∧ t.mail.Stranded) (fun t e t' => handlerSound_step)
      (fun t e t' ht hinside hstep => ?_) (fun t e t' ht hstep => ?_) hrun hnew ?_
    · exact ⟨handlerSound_step ht hstep, (stranded_step_iff ht hstep).mpr (.inr hinside)⟩
    · exact ⟨handlerSound_step ht.1 hstep, (stranded_step_iff ht.1 hstep).mpr (.inl ht.2)⟩
    · rintro ⟨hsound, hstranded⟩
      exact hsound.served_iff.mp (hthrough.last hrun hend) hstranded

/-- `Disconnect` is called once the signal has been emitted, and the connection comes up again. -/
theorem served_over_reconnect :
    Machine.Throughout step (fun t => t.link.disconnectStatus = 0 → t.mail.Served)
      (new .address true)
      (bringUp ++ [.mail .emitSignal, .mail .doEmitSignal, .mail (.handOver true),
        .link .disconnectEnter, .link .disconnectMark, .link .disconnectAttach, .mail .emitSignal,
        .link .doFlush, .link .onFlush, .link .doDisconnect, .link .onDisconnectClose,
        .link .disconnectReturn, .link (.connect true)]) :=
  (served_throughout rfl).1 (by decide)

/-- The signal that `do_emit_signal` "forgets" keeps its place in the queue. -/
theorem forgotten_signal_blocks_queue :
    ¬ ∀ (target : BusTarget) (named : Bool) (es : List Event) (c : Conn),
      Machine.run step (new target named) es = some c → c.link.disconnectStatus = 0 →
        c.mail.Served := by
  intro hall
  have hserved := hall .address true (bringUp ++ [.mail .emitSignal, .link .disconnectEnter,
    .link .disconnectMark, .link .disconnectAttach, .mail .doEmitSignal, .link .doFlush,
    .link .onFlush, .link .doDisconnect, .link .onDisconnectClose, .link .disconnectReturn,
    .mail .emitSignal]) _ rfl rfl
  exact absurd (hserved.emit (by decide)) (by decide)

end Conn

end Dbus2vdr

import Dbus2vdr.Connection.Delivery

/-!
# What `Flush` waits for

`Flush` waits until both queues are empty. A method call leaves its queue when it is made, but a
signal leaves it for a batch, and `do_emit_signal` wakes `Flush` before it hands that batch over. So
a `Flush` that waits for a signal is let go by the very step that takes the signal out of the queue.
`flush_delivers_iff` says which steps may let a `Flush` go so that it keeps its promise, and what
that means for the destructor, which calls `Flush` and then `Disconnect`.
-/

namespace Dbus2vdr

namespace Mail

/-- What was queued before a call of `Flush` has been passed to GDBus. -/
def Delivered (m : Mail) (f : FlushCall) : Prop :=
  (∀ n < f.signals, n ∈ m.emittedSignals) ∧ ∀ n < f.calls, n ∈ m.called

/-- No batch holds a signal that was accepted before that call of `Flush`. -/
def PassedOn (m : Mail) (f : FlushCall) : Prop :=
  ∀ n ∈ m.unfinished.flatten, f.signals ≤ n

instance (m : Mail) (f : FlushCall) : Decidable (m.PassedOn f) :=
  inferInstanceAs (Decidable (∀ n ∈ m.unfinished.flatten, f.signals ≤ n))

/-- A `Flush` that finds both queues empty finds all delivered that it has waited for. -/
def FlushTrue (m : Mail) : Prop :=
  m.signals = [] → m.methodCalls = [] → ∀ f ∈ m.flushCalls, m.Delivered f

/-- Which steps let a `Flush` go that keeps its promise: not the `do_emit_signal` that takes a
signal it waits for, and no step that empties the last queue, or finds both empty, while such a
signal is in a batch. -/
def LetsGo (l : Link) (m : Mail) : MailEvent → Prop
  | .flushCall => l.connectStatus ≠ 0 → m.signals = [] → m.methodCalls = [] →
      m.unfinished.flatten = []
  | .doEmitSignal => l.disconnectStatus = 0 → 3 ≤ l.connectStatus → m.methodCalls = [] →
      ∀ f ∈ m.flushCalls, f.signals ≤ m.taken ∧ m.PassedOn f
  | .doCallMethod => l.disconnectStatus = 0 → 3 ≤ l.connectStatus → m.signals = [] →
      ∀ f ∈ m.flushCalls, m.PassedOn f
  | _ => True

instance decidableLetsGo (l : Link) (m : Mail) : DecidablePred (m.LetsGo l)
  | .flushCall => inferInstanceAs (Decidable (l.connectStatus ≠ 0 → m.signals = [] →
      m.methodCalls = [] → m.unfinished.flatten = []))
  | .doEmitSignal =>
      inferInstanceAs (Decidable (l.disconnectStatus = 0 → 3 ≤ l.connectStatus →
      m.methodCalls = [] → ∀ f ∈ m.flushCalls, f.signals ≤ m.taken ∧ m.PassedOn f))
  | .doCallMethod =>
      inferInstanceAs (Decidable (l.disconnectStatus = 0 → 3 ≤ l.connectStatus →
      m.signals = [] → ∀ f ∈ m.flushCalls, m.PassedOn f))
  | .emitSignal | .callMethod _ | .flushReturn _ | .handOver _ | .directEmit | .directFinish
  | .doCallReply _ | .workerStart | .workerEmit _ | .workerFinish _ =>
      inferInstanceAs (Decidable True)

theorem Sound.delivered_iff_passedOn {m : Mail} (hm : m.Sound) {f : FlushCall}
    (hf : f ∈ m.flushCalls) (hsignals : m.signals = []) (hcalls : m.methodCalls = []) :
    m.Delivered f ↔ m.PassedOn f := by
  have hbound := hm.flushes f hf
  have hcalled : ∀ n < f.calls, n ∈ m.called := by
    intro n hn
    have hposted := hm.posted
    rw [hcalls, List.map_nil, List.append_nil] at hposted
    rw [hposted, List.mem_range]
    omega
  have htaken : m.taken = m.accepted := by rw [taken, hsignals, List.length_nil, Nat.sub_zero]
  unfold Delivered PassedOn
  rw [and_iff_left hcalled, hm.cut.all_done_iff (htaken ▸ hbound.1)]
  simp only [List.mem_flatten]
  constructor
  · rintro h n ⟨batch, hbatch, hn⟩
    exact h batch hbatch n hn
  · intro h batch hbatch n hn
    exact h n ⟨batch, hbatch, hn⟩

theorem Sound.flushTrue_iff {m : Mail} (hm : m.Sound) :
    m.FlushTrue ↔
    (m.signals = [] → m.methodCalls = [] → ∀ f ∈ m.flushCalls, m.PassedOn f) := by
  unfold FlushTrue
  refine imp_congr_right fun hsignals => imp_congr_right fun hcalls => ?_
  exact forall₂_congr fun f hf => hm.delivered_iff_passedOn hf hsignals hcalls

/-! ### Steps that let no `Flush` go -/

theorem called_after (l : Link) (m : Mail) (e : MailEvent) : m.called ⊆ (m.after l e).called := by
  cases e with
  | doCallMethod =>
      simp only [Mail.after, Mail.doCallMethod]
      split_ifs
      · exact List.Subset.refl _
      · exact List.Subset.refl _
      · exact List.subset_append_left _ _
  | flushCall =>
      simp only [Mail.after, Mail.flushCall]
      split_ifs <;> exact List.Subset.refl _
  | doEmitSignal =>
      simp only [Mail.after, Mail.doEmitSignal]
      split_ifs <;> exact List.Subset.refl _
  | handOver poolOk =>
      simp only [Mail.after, Mail.handOver]
      split
      · split_ifs <;> exact List.Subset.refl _
      · exact List.Subset.refl _
  | directEmit =>
      simp only [Mail.after, Mail.directEmit]
      split <;> exact List.Subset.refl _
  | workerEmit i =>
      simp only [Mail.after, Mail.workerEmit]
      split <;> exact List.Subset.refl _
  | emitSignal | callMethod | flushReturn | directFinish | doCallReply | workerStart
  | workerFinish => exact List.Subset.refl _

theorem Delivered.after {m : Mail} {f : FlushCall} (hm : m.Delivered f) (l : Link) (e : MailEvent) :
    (m.after l e).Delivered f := by
  constructor
  · intro n hn
    rw [emittedSignals_after]
    exact List.mem_append_left _ (hm.1 n hn)
  · intro n hn
    exact called_after l m e (hm.2 n hn)

theorem flushCalls_after (l : Link) (m : Mail) {e : MailEvent} (hother : e ≠ .flushCall) :
    (m.after l e).flushCalls ⊆ m.flushCalls := by
  cases e with
  | flushCall => exact absurd rfl hother
  | flushReturn i => exact fun f hf => List.mem_of_mem_eraseIdx hf
  | doEmitSignal =>
      simp only [Mail.after, Mail.doEmitSignal]
      split_ifs <;> exact List.Subset.refl _
  | doCallMethod =>
      simp only [Mail.after, Mail.doCallMethod]
      split_ifs <;> exact List.Subset.refl _
  | handOver poolOk =>
      simp only [Mail.after, Mail.handOver]
      split
      · split_ifs <;> exact List.Subset.refl _
      · exact List.Subset.refl _
  | directEmit =>
      simp only [Mail.after, Mail.directEmit]
      split <;> exact List.Subset.refl _
  | workerEmit i =>
      simp only [Mail.after, Mail.workerEmit]
      split <;> exact List.Subset.refl _
  | emitSignal | callMethod | directFinish | doCallReply | workerStart | workerFinish =>
      exact List.Subset.refl _

/-- While the queues do not get shorter and no `Flush` is called, none is let go. -/
theorem FlushTrue.after {m : Mail} {l : Link} {e : MailEvent} (hm : m.FlushTrue)
    (hother : e ≠ .flushCall) (hsignals : (m.after l e).signals = [] → m.signals = [])
    (hcalls : (m.after l e).methodCalls = [] → m.methodCalls = []) : (m.after l e).FlushTrue :=
  fun hnil hnone f hf =>
    (hm (hsignals hnil) (hcalls hnone) f (flushCalls_after l m hother hf)).after l e

/-! ### Steps that may -/

theorem Sound.flushTrue_after_flushCall {m : Mail} {l : Link} (hm : m.Sound) (htrue : m.FlushTrue) :
    (m.flushCall l).FlushTrue ↔ m.LetsGo l .flushCall := by
  have hsound := hm.flushCall l
  unfold Mail.flushCall at hsound ⊢
  by_cases hdown : l.connectStatus = 0
  · rw [if_pos hdown]
    exact iff_of_true htrue fun hup => absurd hdown hup
  · rw [if_neg hdown] at hsound ⊢
    rw [hsound.flushTrue_iff]
    refine Iff.trans ?_ (forall_prop_of_true hdown).symm
    refine imp_congr_right fun hsignals => imp_congr_right fun hcalls => ?_
    have hold := (hm.flushTrue_iff.mp htrue) hsignals hcalls
    have hbound : ∀ n ∈ m.unfinished.flatten, n < m.accepted := fun n hn => by
      have := hm.cut.mem_iff.mp (.inl hn)
      have := hm.taken_add
      omega
    constructor
    · intro hall
      have hnew := hall ⟨m.accepted, m.posted⟩ (List.mem_append_right _ List.mem_cons_self)
      refine List.eq_nil_iff_forall_not_mem.mpr fun n hn => ?_
      exact absurd (hbound n hn) (Nat.not_lt.mpr (hnew n hn))
    · intro hnil f hf
      rcases List.mem_append.mp hf with hmem | hnew
      · exact hold f hmem
      · obtain rfl := List.mem_singleton.mp hnew
        intro n hn
        change n ∈ m.unfinished.flatten at hn
        rw [hnil] at hn
        cases hn

theorem Sound.flushTrue_after_doEmitSignal {m : Mail} {l : Link} (hm : m.Sound)
    (htrue : m.FlushTrue) (hfree : m.hand = .free) :
    (m.doEmitSignal l).FlushTrue ↔ m.LetsGo l .doEmitSignal := by
  have hsound := hm.doEmitSignal l hfree
  unfold Mail.doEmitSignal at hsound ⊢
  by_cases hdisconnect : 0 < l.disconnectStatus
  · rw [if_pos hdisconnect]
    exact iff_of_true htrue fun hzero => by omega
  rw [if_neg hdisconnect] at hsound ⊢
  by_cases hstatus : l.connectStatus < 3
  · rw [if_pos hstatus]
    exact iff_of_true htrue fun _ hup => by omega
  rw [if_neg hstatus] at hsound ⊢
  by_cases hnil : m.signals = []
  · rw [if_pos hnil]
    refine iff_of_true htrue fun _ _ hcalls f hf =>
      ⟨?_, hm.flushTrue_iff.mp htrue hnil hcalls f hf⟩
    rw [taken, hnil, List.length_nil, Nat.sub_zero]
    exact (hm.flushes f hf).1
  rw [if_neg hnil] at hsound ⊢
  -- the queue becomes a batch in the hand of the main loop
  rw [hsound.flushTrue_iff]
  refine Iff.trans ?_ (forall_prop_of_true (by omega)).symm
  refine Iff.trans ?_ (forall_prop_of_true (by omega)).symm
  refine Iff.trans (forall_prop_of_true rfl) (imp_congr_right fun hcalls => ?_)
  refine forall₂_congr fun f hf => ?_
  have hfirst : (∀ n ∈ m.signals, f.signals ≤ n) ↔ f.signals ≤ m.taken := by
    have hlength := List.length_pos_iff.mpr hnil
    rw [hm.queue]
    simp only [List.mem_range'_1]
    constructor
    · intro hall
      exact hall m.taken ⟨Nat.le_refl _, by omega⟩
    · rintro hle n ⟨htaken, -⟩
      exact Nat.le_trans hle htaken
  simp only [PassedOn, unfinished, hfree, Hand.batches, List.append_nil, List.flatten_append,
    List.flatten_cons, List.flatten_nil, List.mem_append]
  rw [← hfirst]
  constructor
  · intro hall
    exact ⟨fun n hn => hall n (.inr hn), fun n hn => hall n (.inl hn)⟩
  · rintro ⟨hqueue, hbatches⟩ n (hn | hn)
    · exact hbatches n hn
    · exact hqueue n hn

theorem Sound.flushTrue_after_doCallMethod {m : Mail} {l : Link} (hm : m.Sound)
    (htrue : m.FlushTrue) : (m.doCallMethod l).FlushTrue ↔ m.LetsGo l .doCallMethod := by
  have hsound := hm.doCallMethod l
  unfold Mail.doCallMethod at hsound ⊢
  by_cases hdisconnect : 0 < l.disconnectStatus
  · rw [if_pos hdisconnect]
    exact iff_of_true htrue fun hzero => by omega
  rw [if_neg hdisconnect] at hsound ⊢
  by_cases hstatus : l.connectStatus < 3
  · rw [if_pos hstatus]
    exact iff_of_true htrue fun _ hup => by omega
  rw [if_neg hstatus] at hsound ⊢
  rw [hsound.flushTrue_iff]
  refine Iff.trans ?_ (forall_prop_of_true (by omega)).symm
  refine Iff.trans ?_ (forall_prop_of_true (by omega)).symm
  exact imp_congr_right fun _ => forall_prop_of_true rfl

/-- **Letting go.** A step lets go only a `Flush` whose promise is kept exactly if it meets
`LetsGo`. -/
theorem Sound.flushTrue_after_iff {m : Mail} {l : Link} {e : MailEvent} (hm : m.Sound)
    (he : m.Enabled l e) (htrue : m.FlushTrue) : (m.after l e).FlushTrue ↔ m.LetsGo l e := by
  by_cases hqueues : e.queues
  · cases e with
    | doEmitSignal => exact hm.flushTrue_after_doEmitSignal htrue he.2.2
    | doCallMethod => exact hm.flushTrue_after_doCallMethod htrue
    | emitSignal =>
        exact iff_of_true (fun hnil => by simp [Mail.after, Mail.emitSignal] at hnil) trivial
    | callMethod reply =>
        exact iff_of_true (fun _ hnil => by simp [Mail.after, Mail.callMethod] at hnil) trivial
    | _ => cases hqueues
  · obtain ⟨hsignals, hcalls, -⟩ := after_queues l m hqueues
    by_cases hcall : e = .flushCall
    · subst hcall
      exact hm.flushTrue_after_flushCall htrue
    · refine iff_of_true (htrue.after hcall (by rw [hsignals]; exact id)
        (by rw [hcalls]; exact id)) ?_
      cases e <;> trivial

end Mail

namespace Conn

def LetsGo (c : Conn) : Event → Prop
  | .link _ => True
  | .mail e => c.mail.LetsGo c.link e

instance decidableLetsGo (c : Conn) : DecidablePred c.LetsGo
  | .link _ => inferInstanceAs (Decidable True)
  | .mail e => Mail.decidableLetsGo c.link c.mail e

/-- Every `Flush` that may return finds all delivered that was queued before it was called. -/
def FlushKept (c : Conn) : Prop :=
  ∀ i f, c.mail.flushCalls[i]? = some f → c.Enabled (.mail (.flushReturn i)) →
    c.mail.Delivered f

/-- What was queued before a `Flush` that has returned is dropped by nothing that follows, be it the
`Disconnect` of the destructor: it is in no queue and no batch any more. Its signals have been
passed to a bus that was open, unless that was taken away under a batch before `Flush` returned. -/
def NothingDropped (c₀ : Conn) (es : List Event) : Prop :=
  ∀ front back i f d c, es = front ++ .mail (.flushReturn i) :: back →
    Machine.run step c₀ front = some d → d.mail.flushCalls[i]? = some f →
    Machine.run step d (.mail (.flushReturn i) :: back) = some c →
      (∀ n < f.signals, n ∉ c.mail.signals ∧ n ∉ c.mail.unfinished.flatten) ∧
      (∀ n < f.calls, n ∉ c.mail.methodCalls.map (·.number)) ∧
      (Machine.Along step LossesApart c₀ front →
        ∀ n < f.signals, ∃ emission ∈ c.mail.emitted,
          emission.signal = n ∧ emission.handle.isSome ∧ emission.isOpen)

theorem flushKept_iff {c : Conn} : c.FlushKept ↔ c.mail.FlushTrue := by
  constructor
  · intro hkept hsignals hcalls f hf
    obtain ⟨i, hi⟩ := List.getElem?_of_mem hf
    obtain ⟨hlt, -⟩ := List.getElem?_eq_some_iff.mp hi
    exact hkept i f hi ⟨hlt, hsignals, hcalls⟩
  · rintro htrue i f hi ⟨-, hsignals, hcalls⟩
    exact htrue hsignals hcalls f (List.mem_of_getElem? hi)

/-- What has been delivered is so for the rest of the run. -/
theorem delivered_of_run {c c' : Conn} {es : List Event} {f : FlushCall}
    (hrun : Machine.run step c es = some c') (hc : c.mail.Delivered f) :
    c'.mail.Delivered f ∧ c.mail.emitted ⊆ c'.mail.emitted := by
  refine Machine.run_invariant
    (I := fun d => d.mail.Delivered f ∧ c.mail.emitted ⊆ d.mail.emitted)
    (fun d e d' hd hstep => ?_) hrun ⟨hc, List.Subset.refl _⟩
  obtain ⟨-, rfl⟩ := step_eq_some.mp hstep
  cases e with
  | link e => exact hd
  | mail e =>
      refine ⟨hd.1.after d.link e, fun emission hem => ?_⟩
      simp only [after, Mail.emitted_after]
      exact List.mem_append_left _ (hd.2 hem)

theorem not_waiting_of_delivered {m : Mail} {f : FlushCall} (hm : m.Sound) (hdone : m.Delivered f) :
    (∀ n < f.signals, n ∉ m.signals ∧ n ∉ m.unfinished.flatten) ∧
      ∀ n < f.calls, n ∉ m.methodCalls.map (·.number) := by
  refine ⟨fun n hn => ⟨fun hqueued => ?_, fun hbatch => ?_⟩, fun n hn hqueued => ?_⟩
  · -- what has been taken comes before what is queued
    have htaken := hm.cut.mem_iff.mp (.inr (hdone.1 n hn))
    rw [hm.queue, List.mem_range'_1] at hqueued
    omega
  · exact (List.nodup_append.mp hm.cut.nodup).2.2 n hbatch n (hdone.1 n hn) rfl
  · have hnodup : (m.called ++ m.methodCalls.map (·.number)).Nodup := by
      rw [hm.posted]
      exact List.nodup_range
    exact (List.nodup_append.mp hnodup).2.2 n (hdone.2 n hn) n hqueued rfl

theorem nothingDropped_of_flushKept {target : BusTarget} {named : Bool} {es : List Event}
    (hkept : Machine.Throughout step FlushKept (new target named) es) :
    NothingDropped (new target named) es := by
  intro front back i f d c hsplit hfront hcall hback
  obtain ⟨mid, hreturn, -⟩ := Machine.run_cons_eq_some.mp hback
  have hd := Machine.throughout_iff_front.mp hkept front _ d hsplit hfront
  have hdone := hd i f hcall (step_eq_some.mp hreturn).1
  obtain ⟨hdone', hemitted⟩ := delivered_of_run hback hdone
  have hsound : c.mail.Sound :=
    mailSound_of_run (Machine.run_append_eq_some.mpr ⟨d, hfront, hback⟩)
  obtain ⟨hsignals, hcalls⟩ := not_waiting_of_delivered hsound hdone'
  refine ⟨hsignals, hcalls, fun hapart n hn => ?_⟩
  obtain ⟨emission, hem, rfl⟩ := List.mem_map.mp (hdone.1 n hn)
  have hwell := wellPassed_of_run hfront (emitsWhileUp_of_lossesApart hapart)
  exact ⟨emission, hemitted hem, rfl, hwell emission hem⟩

/-- **`Flush` and delivery.** In every run, each `Flush` that may return finds delivered what was
queued before, and nothing of it is dropped by a `Disconnect` afterwards, if and only if no step
lets a `Flush` go that still waits for a signal in a batch or in the queue it takes. -/
theorem flush_delivers_iff {target : BusTarget} {named : Bool} {es : List Event} {c : Conn}
    (hrun : Machine.run step (new target named) es = some c) :
    (Machine.Throughout step FlushKept (new target named) es ∧
      NothingDropped (new target named) es)
      ↔ Machine.Along step LetsGo (new target named) es := by
  rw [and_iff_left_of_imp nothingDropped_of_flushKept]
  refine Machine.throughout_iff_along (I := fun d => d.mail.Sound)
    (fun _ _ _ hd hstep => mail_invariant (fun _ _ _ hm he => hm.after he) hd hstep)
    (fun d e d' hd hkept hstep => ?_) hrun Mail.sound_new
    (flushKept_iff.mpr fun _ _ f hf => by cases hf)
  obtain ⟨henabled, rfl⟩ := step_eq_some.mp hstep
  rw [flushKept_iff] at hkept ⊢
  cases e with
  | link e => exact iff_of_true hkept trivial
  | mail e => exact hd.flushTrue_after_iff henabled hkept

/-- The signal has been emitted when the destructor calls `Flush`, and a method call is made under
it; then the destructor disconnects. -/
theorem flush_delivers_worked_off :
    ∃ es c, Machine.run step (new .address true) es = some c ∧
      Machine.Throughout step FlushKept (new .address true) es ∧
        NothingDropped (new .address true) es := by
  have hrun : Machine.run step (new .address true) (bringUp ++ [.mail .emitSignal,
    .mail .doEmitSignal, .mail (.handOver true), .mail .workerStart, .mail (.workerEmit 0),
    .mail (.callMethod false), .mail .flushCall, .mail .doCallMethod, .mail (.flushReturn 0),
    .link .disconnectEnter, .link .disconnectMark, .link .disconnectAttach, .link .doFlush,
    .link .onFlush, .link .doDisconnect, .link .onDisconnectClose,
    .link .disconnectReturn]) = some _ := rfl
  exact ⟨_, _, hrun, (flush_delivers_iff hrun).mpr (by decide)⟩

/-- `Flush` finds the queue empty while no thread has touched the batch, and the destructor has
disconnected by the time one does. -/
theorem flush_outruns_worker :
    ¬ (∀ (target : BusTarget) (named : Bool) (es : List Event) (c : Conn),
        Machine.run step (new target named) es = some c → c.FlushKept) ∧
      ¬ ∀ (target : BusTarget) (named : Bool) (es : List Event) (c : Conn),
        Machine.run step (new target named) es = some c →
        NothingDropped (new target named) es := by
  constructor
  · intro hall
    have hdelivered := hall .address true (bringUp ++ [.mail .emitSignal, .mail .flushCall,
      .mail .doEmitSignal, .mail (.handOver true)]) _ rfl 0 _ rfl (by decide)
    exact absurd (hdelivered.1 0 (by decide)) (by decide)
  · intro hall
    have hkept := hall .address true (bringUp ++ [.mail .emitSignal, .mail .flushCall,
      .mail .doEmitSignal, .mail (.flushReturn 0), .mail (.handOver true), .link .disconnectEnter,
      .link .disconnectMark, .link .disconnectAttach, .link .doFlush, .link .onFlush,
      .link .doDisconnect, .link .onDisconnectClose, .link .disconnectReturn]) _ rfl
      (bringUp ++ [.mail .emitSignal, .mail .flushCall, .mail .doEmitSignal])
      [.mail (.handOver true), .link .disconnectEnter, .link .disconnectMark,
        .link .disconnectAttach, .link .doFlush, .link .onFlush, .link .doDisconnect,
        .link .onDisconnectClose, .link .disconnectReturn] 0 _ _ _ rfl rfl rfl rfl
    exact absurd (hkept.1 0 (by decide)).2 (by decide)

end Conn

end Dbus2vdr

import Dbus2vdr.Lib.Machine
import Dbus2vdr.Shutdown.Verdict

/-!
# `cExitPipe`

What `Close` returns of a process it has asked depends on when the process ends. A process that has
closed its output and does not end within five looks at it is killed, and the one that asked goes on
at once. So a process is either waited for or killed; what is not so is that one that has been
killed counts as one that agrees. `settled_of_run` says this of one program, `agreed_of_run` of the
plugin, the wrapper and the hooks.
-/

namespace Dbus2vdr.Shutdown.ExitPipe

open Machine

inductive WaitStatus where
  | exited (code : Nat)
  | signaled (signal : Nat)
  deriving DecidableEq, Repr

/-- `WEXITSTATUS`, or the -1 that `Close` has instead. -/
def WaitStatus.ret : WaitStatus → Int
  | .exited code => code
  | .signaled _ => -1

inductive Life where
  | running
  | zombie (status : WaitStatus)
  /-- Waited for; another process may have its pid now. -/
  | reaped (status : WaitStatus)
  deriving DecidableEq, Repr

structure Child where
  life : Life := .running
  /-- `kill` has sent `SIGKILL`. -/
  killed : Bool := false
  /-- How often `waitpid` has found it running. -/
  seen : Nat := 0
  /-- How often `waitpid` has failed. -/
  failed : Nat := 0
  deriving DecidableEq, Repr

def Life.Reaped : Life → Prop
  | .reaped _ => True
  | _ => False

/-- `waitpid` fails for a process that has been waited for. -/
def Life.answer : Life → Option (Option WaitStatus)
  | .running => some none
  | .zombie status => some (some status)
  | .reaped _ => none

instance (life : Life) : Decidable life.Reaped := by
  cases life <;> unfold Life.Reaped <;> infer_instance

inductive Phase where
  | idle
  /-- `Open` has succeeded. -/
  | opened
  /-- In the loop of `Close`; what it returns is not told if the destructor has called it. -/
  | polling (i : Nat) (told : Bool)
  deriving DecidableEq, Repr

/-- The steps that `Close` has to take. -/
def Phase.toGo : Phase → Nat
  | .polling i _ => i + 1
  | _ => 0

/-- A process that the program wanted to ask, and the answer. -/
structure Asked where
  child : Option Nat
  ret : Int
  deriving DecidableEq, Repr

/-- A program with a `cExitPipe` for one process after the other, and the processes it has
started. -/
structure State where
  children : List Child := []
  pid : Option Nat := none
  phase : Phase := .idle
  /-- The descriptors of pipes that are open. -/
  fds : Nat := 0
  log : List Asked := []
  deriving DecidableEq, Repr

inductive Opening where
  | pipeFails | forkFails | fdopenFails | succeeds
  deriving DecidableEq, Repr

inductive Event where
  | openPipe (opening : Opening)
  | close
  /-- `waitpid`, which a signal may interrupt. -/
  | poll (interrupted : Bool)
  /-- Behind the loop of `Close`, when it has not found the end of the process. -/
  | kill
  | exit (k : Nat) (status : WaitStatus)
  deriving DecidableEq, Repr

def Event.IsClosing : Event → Prop
  | .poll _ | .kill => True
  | _ => False

namespace State

def Enabled (s : State) : Event → Prop
  | .openPipe _ => s.phase = .idle
  | .close => s.phase = .opened
  | .poll _ => match s.phase with
      | .polling (_ + 1) _ => True
      | _ => False
  | .kill => match s.phase with
      | .polling 0 _ => True
      | _ => False
  | .exit k _ => (s.children[k]?.map (·.life)) = some .running

instance (s : State) (e : Event) : Decidable (s.Enabled e) := by
  cases e <;> simp only [Enabled] <;> (try split) <;> infer_instance

def modify (s : State) (f : Child → Child) : State :=
  match s.pid with
  | some k => { s with children := s.children.modify k f }
  | none => s

/-- `Close` returns. -/
def finish (s : State) (told : Bool) (ret : Int) : State :=
  { s with
    pid := none
    phase := .idle
    log := if told then s.log ++ [⟨s.pid, ret⟩] else s.log }

/-- What `waitpid` returns with `WNOHANG`: -1, 0, or the pid and the status. -/
def waitpid (s : State) (interrupted : Bool) : Option (Option WaitStatus) :=
  if interrupted then none
  else (s.pid.bind fun k => s.children[k]?).bind fun c => c.life.answer

/-- One turn of the loop in `Close`. -/
def poll (s : State) (interrupted : Bool) (i : Nat) (told : Bool) : State :=
  match s.waitpid interrupted with
  | none => { s.modify (fun c => { c with failed := c.failed + 1 }) with phase := .polling i told }
  | some none => { s.modify (fun c => { c with seen := c.seen + 1 }) with phase := .polling i told }
  | some (some status) =>
      (s.modify fun c => { c with life := .reaped status }).finish told status.ret

def after (s : State) : Event → State
  | .openPipe .pipeFails | .openPipe .forkFails => { s with log := s.log ++ [⟨none, -1⟩] }
  | .openPipe .fdopenFails =>
      { s with
        children := s.children ++ [{}]
        pid := some s.children.length
        phase := .polling 5 false
        log := s.log ++ [⟨none, -1⟩] }
  | .openPipe .succeeds =>
      { s with
        children := s.children ++ [{}]
        pid := some s.children.length
        phase := .opened
        fds := s.fds + 1 }
  | .close => { s with phase := .polling 5 true, fds := s.fds - 1 }
  | .poll interrupted => match s.phase with
      | .polling (i + 1) told => s.poll interrupted i told
      | _ => s
  | .kill => match s.phase with
      | .polling _ told => (s.modify fun c => { c with killed := true }).finish told (-1)
      | _ => s
  | .exit k status =>
      { s with children := s.children.modify k ({ · with life := .zombie status }) }

def step (s : State) (e : Event) : Option State := if s.Enabled e then some (s.after e) else none

theorem step_eq_some {s s' : State} {e : Event} (h : step s e = some s') :
    s.Enabled e ∧ s' = s.after e := by
  unfold step at h
  split at h
  · next henabled => exact ⟨henabled, (Option.some.inj h).symm⟩
  · exact absurd h (by simp)

theorem phase_of_poll {s : State} {interrupted : Bool} (h : s.Enabled (.poll interrupted)) :
    ∃ i told, s.phase = .polling (i + 1) told := by
  unfold Enabled at h
  rcases hphase : s.phase with _ | _ | ⟨_ | i, told⟩ <;> rw [hphase] at h
  · exact h.elim
  · exact h.elim
  · exact h.elim
  · exact ⟨i, told, rfl⟩

theorem after_poll {s : State} {interrupted told : Bool} {i : Nat}
    (hphase : s.phase = .polling (i + 1) told) :
    s.after (.poll interrupted) = s.poll interrupted i told := by
  unfold after
  rw [hphase]

theorem phase_of_kill {s : State} (h : s.Enabled .kill) : ∃ told, s.phase = .polling 0 told := by
  unfold Enabled at h
  rcases hphase : s.phase with _ | _ | ⟨_ | i, told⟩ <;> rw [hphase] at h
  · exact h.elim
  · exact h.elim
  · exact ⟨told, rfl⟩
  · exact h.elim

theorem after_kill {s : State} {told : Bool} (hphase : s.phase = .polling 0 told) :
    s.after .kill = (s.modify fun c => { c with killed := true }).finish told (-1) := by
  unfold after
  rw [hphase]

/-- A look at the process ends `Close`, or there is one less to come. -/
theorem toGo_poll (s : State) (interrupted : Bool) (i : Nat) (told : Bool) :
    (s.poll interrupted i told).phase.toGo ≤ i + 1 := by
  unfold poll
  rcases s.waitpid interrupted with _ | _ | status
  · exact Nat.le_refl _
  · exact Nat.le_refl _
  · exact Nat.zero_le _

end State

/-! ### Every process is waited for or killed -/

/-- A process that the program is through with. -/
def Child.Settled (c : Child) : Prop :=
  (c.life.Reaped ∧ c.killed = false) ∨
    (¬ c.life.Reaped ∧ c.killed = true ∧ c.seen + c.failed = 5)

/-- The answer is what is known of the process. -/
def Asked.Correct (a : Asked) (children : List Child) : Prop :=
  match a.child with
  | none => a.ret = -1
  | some k => ∃ c, children[k]? = some c ∧ c.Settled ∧
      if c.killed then a.ret = -1 else ∃ status, c.life = .reaped status ∧ a.ret = status.ret

/-- The looks at the process that are left. -/
def Phase.left : Phase → Nat
  | .polling i _ => i
  | _ => 5

/-- The program has started this process and is not through with it. -/
structure Child.Current (c : Child) (phase : Phase) : Prop where
  life : ¬ c.life.Reaped
  killed : c.killed = false
  polls : c.seen + c.failed + phase.left = 5

theorem Child.Current.not_settled {c : Child} {phase : Phase} (h : c.Current phase) :
    ¬ c.Settled := by
  rintro (⟨hreaped, -⟩ | ⟨-, hkilled, -⟩)
  · exact h.life hreaped
  · exact absurd (h.killed.symm.trans hkilled) Bool.false_ne_true

structure Sound (s : State) : Prop where
  idle : s.phase = .idle ↔ s.pid = none
  fds : s.fds = if s.phase = .opened then 1 else 0
  current : ∀ k, s.pid = some k → ∃ c, s.children[k]? = some c ∧ c.Current s.phase
  others : ∀ k c, s.children[k]? = some c → s.pid ≠ some k → c.Settled
  asked : ∀ a ∈ s.log, a.Correct s.children

theorem sound_initial : Sound {} where
  idle := iff_of_true rfl rfl
  fds := rfl
  current _ hk := by cases hk
  others k c hc := by simp at hc
  asked a ha := by simp at ha

/-- What is known of the processes that the program is through with stays so. -/
def Keeps (children children' : List Child) : Prop :=
  ∀ (k : Nat) (c : Child), children[k]? = some c → c.Settled →
    ∃ c' : Child, children'[k]? = some c' ∧ c'.Settled ∧ c'.killed = c.killed ∧
      (c.killed = false → c'.life = c.life)

theorem Asked.Correct.keep {a : Asked} {children children' : List Child} (h : a.Correct children)
    (hkeeps : Keeps children children') : a.Correct children' := by
  unfold Correct at h ⊢
  cases hchild : a.child with
  | none =>
      rw [hchild] at h
      exact h
  | some k =>
      rw [hchild] at h
      obtain ⟨c, hc, hsettled, hret⟩ := h
      obtain ⟨c', hc', hsettled', hkilled, hlife⟩ := hkeeps k c hc hsettled
      refine ⟨c', hc', hsettled', ?_⟩
      rw [hkilled]
      cases hk : c.killed with
      | true =>
          rw [hk] at hret
          exact hret
      | false =>
          rw [hk] at hret
          rw [hlife hk]
          exact hret

theorem keeps_append (children new : List Child) : Keeps children (children ++ new) := by
  intro k c hc hsettled
  have hlt := (List.getElem?_eq_some_iff.mp hc).choose
  exact ⟨c, (List.getElem?_append_left hlt).trans hc, hsettled, rfl, fun _ => rfl⟩

theorem keeps_modify {children : List Child} {k : Nat} {f : Child → Child}
    (h : ∀ c, children[k]? = some c → c.Settled →
      (f c).Settled ∧ (f c).killed = c.killed ∧ (c.killed = false → (f c).life = c.life)) :
    Keeps children (children.modify k f) := by
  intro j c hc hsettled
  by_cases hj : k = j
  · subst hj
    obtain ⟨hsettled', hkilled, hlife⟩ := h c hc hsettled
    refine ⟨f c, ?_, hsettled', hkilled, hlife⟩
    rw [List.getElem?_modify_eq, hc]
    rfl
  · refine ⟨c, ?_, hsettled, rfl, fun _ => rfl⟩
    rw [List.getElem?_modify_ne _ _ hj, hc]

variable {s s' : State} {e : Event}

theorem Sound.keeps_current (h : Sound s) {k : Nat} (hk : s.pid = some k) (f : Child → Child) :
    Keeps s.children (s.children.modify k f) := by
  obtain ⟨c, hc, hcurrent⟩ := h.current k hk
  refine keeps_modify fun d hd hsettled => absurd hsettled ?_
  obtain rfl : c = d := Option.some.inj (hc.symm.trans hd)
  exact hcurrent.not_settled

theorem Sound.start (h : Sound s) (hidle : s.phase = .idle) {phase : Phase}
    (hphase : phase ≠ .idle) (hleft : phase.left = 5) {log : List Asked}
    (hlog : ∀ a ∈ log, a ∈ s.log ∨ a = ⟨none, -1⟩) {fds : Nat}
    (hfds : fds = if phase = .opened then 1 else 0) :
    Sound ⟨s.children ++ [({} : Child)], some s.children.length, phase, fds, log⟩ where
  idle := iff_of_false hphase (by simp)
  fds := hfds
  current k hk := by
    obtain rfl := Option.some.inj hk
    refine ⟨{}, List.getElem?_concat_length, id, rfl, ?_⟩
    rw [hleft]
    rfl
  others k c hc hk := by
    rw [List.getElem?_append] at hc
    split_ifs at hc with hlt
    · refine h.others k c hc ?_
      rw [h.idle.mp hidle]
      simp
    · rw [List.getElem?_singleton] at hc
      split_ifs at hc with hzero
      exact absurd (congrArg some (show s.children.length = k by omega)) hk
  asked a ha := by
    cases hlog a ha with
    | inl hold => exact (h.asked a hold).keep (keeps_append _ _)
    | inr hnew =>
        rw [hnew]
        rfl

theorem Sound.finish (h : Sound s) {k : Nat} (hk : s.pid = some k) {f : Child → Child} {ret : Int}
    (hphase : s.phase ≠ .opened)
    (hf : ∀ c, c.Current s.phase → s.children[k]? = some c → (f c).Settled ∧
      if (f c).killed then ret = -1 else ∃ status, (f c).life = .reaped status ∧
      ret = status.ret)
    (told : Bool) : Sound ((s.modify f).finish told ret) := by
  have hmodify : s.modify f = { s with children := s.children.modify k f } := by
    unfold State.modify
    rw [hk]
  obtain ⟨c, hc, hcurrent⟩ := h.current k hk
  obtain ⟨hsettled, hret⟩ := hf c hcurrent hc
  have hkeeps := h.keeps_current hk f
  have hfc : (s.children.modify k f)[k]? = some (f c) := by
    rw [List.getElem?_modify_eq, hc]
    rfl
  rw [hmodify]
  refine ⟨iff_of_true rfl rfl, ?_, fun j hj => absurd hj (by simp [State.finish]),
    fun j d hd _ => ?_, fun a ha => ?_⟩
  · have hfds := h.fds
    rw [if_neg hphase] at hfds
    exact hfds
  · by_cases hj : k = j
    · subst hj
      obtain rfl : f c = d := Option.some.inj (hfc.symm.trans hd)
      exact hsettled
    · refine h.others j d ?_ fun heq => hj (Option.some.inj (hk.symm.trans heq))
      rw [← hd]
      exact (List.getElem?_modify_ne _ _ hj).symm
  · have hold : a ∈ s.log → a.Correct (s.children.modify k f) :=
      fun hmem => (h.asked a hmem).keep hkeeps
    cases told with
    | false => exact hold ha
    | true =>
        cases List.mem_append.mp ha with
        | inl hmem => exact hold hmem
        | inr hnew =>
            rw [List.mem_singleton.mp hnew]
            unfold Asked.Correct
            rw [hk]
            exact ⟨f c, hfc, hsettled, hret⟩

theorem Sound.look (h : Sound s) {i : Nat} {told : Bool} (hphase : s.phase = .polling (i + 1) told)
    {f : Child → Child}
    (hf : ∀ c, (f c).life = c.life ∧ (f c).killed = c.killed ∧
      (f c).seen + (f c).failed = c.seen + c.failed + 1) :
    Sound { s.modify f with phase := .polling i told } := by
  have hsome : s.pid ≠ none := fun hnone => by
    have hidle := h.idle.mpr hnone
    rw [hphase] at hidle
    cases hidle
  obtain ⟨k, hk⟩ := Option.ne_none_iff_exists'.mp hsome
  have hmodify : s.modify f = { s with children := s.children.modify k f } := by
    unfold State.modify
    rw [hk]
  obtain ⟨c, hc, hcurrent⟩ := h.current k hk
  rw [hmodify]
  refine ⟨iff_of_false (by simp) hsome, ?_, fun j hj => ?_, fun j d hd hj => ?_, fun a ha => ?_⟩
  · have hfds := h.fds
    rw [hphase] at hfds
    exact hfds
  · obtain rfl : k = j := Option.some.inj (hk.symm.trans hj)
    obtain ⟨hlife, hkilled, hpolls⟩ := hf c
    refine ⟨f c, ?_, ?_, ?_, ?_⟩
    · rw [List.getElem?_modify_eq, hc]
      rfl
    · rw [hlife]
      exact hcurrent.life
    · rw [hkilled]
      exact hcurrent.killed
    · have htotal := hcurrent.polls
      rw [hphase] at htotal
      rw [hpolls]
      simp only [Phase.left] at htotal ⊢
      omega
  · have hne : k ≠ j := fun heq => hj (heq ▸ hk)
    refine h.others j d ?_ hj
    rw [← hd]
    exact (List.getElem?_modify_ne _ _ hne).symm
  · exact (h.asked a ha).keep (h.keeps_current hk f)

theorem Sound.poll (h : Sound s) {i : Nat} {told : Bool} (hphase : s.phase = .polling (i + 1) told)
    (interrupted : Bool) : Sound (s.poll interrupted i told) := by
  unfold State.poll
  cases hwait : s.waitpid interrupted with
  | none => exact h.look hphase fun c => ⟨rfl, rfl, rfl⟩
  | some found =>
      cases found with
      | none => exact h.look hphase fun c => ⟨rfl, rfl, by dsimp only; omega⟩
      | some status =>
          unfold State.waitpid at hwait
          split_ifs at hwait
          obtain ⟨c, hchild, hanswer⟩ := Option.bind_eq_some_iff.mp hwait
          obtain ⟨k, hk, hc⟩ := Option.bind_eq_some_iff.mp hchild
          refine h.finish hk (by simp [hphase]) (fun d hd hd' => ?_) told
          have hkilled := hd.killed
          refine ⟨Or.inl ⟨trivial, hkilled⟩, ?_⟩
          dsimp only
          rw [hkilled]
          exact ⟨status, rfl, rfl⟩

theorem Sound.kill (h : Sound s) {told : Bool} (hphase : s.phase = .polling 0 told) :
    Sound ((s.modify fun c => { c with killed := true }).finish told (-1)) := by
  have hsome : s.pid ≠ none := fun hnone => by
    have hidle := h.idle.mpr hnone
    rw [hphase] at hidle
    cases hidle
  obtain ⟨k, hk⟩ := Option.ne_none_iff_exists'.mp hsome
  refine h.finish (f := fun c => { c with killed := true }) hk (by simp [hphase])
    (fun c hc _ => ⟨Or.inr ⟨hc.life, rfl, ?_⟩, rfl⟩) told
  have hpolls := hc.polls
  rw [hphase] at hpolls
  exact hpolls

theorem Sound.exit (h : Sound s) {k : Nat}
    (hrunning : (s.children[k]?.map (·.life)) = some .running) (status : WaitStatus) :
    Sound { s with children := s.children.modify k ({ · with life := .zombie status }) } := by
  obtain ⟨c, hc, hlife⟩ := Option.map_eq_some_iff.mp hrunning
  have hnot : ¬ c.life.Reaped := by
    rw [hlife]
    exact id
  have hsettled : ∀ d, s.children[k]? = some d → d.Settled →
      ({ d with life := .zombie status } : Child).Settled ∧ d.killed = true := by
    intro d hd hsettled
    obtain rfl : c = d := Option.some.inj (hc.symm.trans hd)
    rcases hsettled with ⟨hreaped, -⟩ | ⟨-, hkilled, hpolls⟩
    · exact absurd hreaped hnot
    · exact ⟨Or.inr ⟨id, hkilled, hpolls⟩, hkilled⟩
  refine ⟨h.idle, h.fds, fun j hj => ?_, fun j d hd hj => ?_, fun a ha =>
    (h.asked a ha).keep ?_⟩
  · obtain ⟨d, hd, hcurrent⟩ := h.current j hj
    by_cases hkj : k = j
    · subst hkj
      refine ⟨{ d with life := .zombie status }, ?_, id, hcurrent.killed, hcurrent.polls⟩
      rw [List.getElem?_modify_eq, hd]
      rfl
    · exact ⟨d, (List.getElem?_modify_ne _ _ hkj).trans hd, hcurrent⟩
  · by_cases hkj : k = j
    · subst hkj
      rw [List.getElem?_modify_eq, hc] at hd
      obtain rfl := Option.some.inj hd
      exact (hsettled c hc (h.others k c hc hj)).1
    · rw [List.getElem?_modify_ne _ _ hkj] at hd
      exact h.others j d hd hj
  · exact keeps_modify fun d hd hd' =>
      ⟨(hsettled d hd hd').1, rfl, fun hfalse =>
        absurd ((hsettled d hd hd').2.symm.trans hfalse) (by simp)⟩

theorem sound_step (h : Sound s) (hstep : State.step s e = some s') : Sound s' := by
  obtain ⟨henabled, rfl⟩ := State.step_eq_some hstep
  cases e with
  | openPipe opening =>
      have hidle : s.phase = .idle := henabled
      have hlog : ∀ a ∈ s.log ++ [⟨none, -1⟩], a ∈ s.log ∨ a = ⟨none, -1⟩ :=
        fun a ha =>
        (List.mem_append.mp ha).imp_right List.mem_singleton.mp
      have hfailed : Sound { s with log := s.log ++ [⟨none, -1⟩] } :=
        ⟨h.idle, h.fds, h.current, h.others, fun a ha =>
          (hlog a ha).elim (h.asked a) fun hnew => by rw [hnew]; rfl⟩
      have hfds := h.fds
      rw [hidle] at hfds
      cases opening with
      | pipeFails => exact hfailed
      | forkFails => exact hfailed
      | fdopenFails => exact h.start hidle (by simp) rfl hlog hfds
      | succeeds => exact h.start hidle (by simp) rfl (fun a ha => Or.inl ha) (by simp [hfds])
  | close =>
      have hopened : s.phase = .opened := henabled
      have hfds := h.fds
      rw [if_pos hopened] at hfds
      have hsome : s.pid ≠ none := fun hnone => by
        have hidle := h.idle.mpr hnone
        rw [hopened] at hidle
        cases hidle
      refine ⟨iff_of_false (by simp [State.after]) hsome, ?_, fun k hk => ?_, h.others, h.asked⟩
      · change s.fds - 1 = 0
        rw [hfds]
      · obtain ⟨c, hc, hcurrent⟩ := h.current k hk
        rw [hopened] at hcurrent
        exact ⟨c, hc, hcurrent.life, hcurrent.killed, hcurrent.polls⟩
  | poll interrupted =>
      obtain ⟨i, told, hphase⟩ := State.phase_of_poll henabled
      rw [State.after_poll hphase]
      exact h.poll hphase interrupted
  | kill =>
      obtain ⟨told, hphase⟩ := State.phase_of_kill henabled
      rw [State.after_kill hphase]
      exact h.kill hphase
  | exit k status => exact h.exit henabled status

/-- `Close` returns, whatever the process does meanwhile. -/
theorem inevitably_closed (s : State) :
    Inevitably State.step Event.IsClosing (fun s => s.phase.toGo = 0) s := by
  refine Inevitably.of_measure (I := fun _ => True) (fun s => s.phase.toGo) (fun s _ hnot => ?_)
    (fun s e s' _ hnot hclosing hstep => ⟨trivial, ?_⟩) trivial
  · rcases hphase : s.phase with _ | _ | ⟨_ | i, told⟩
    · exact absurd (by rw [hphase]; rfl) hnot
    · exact absurd (by rw [hphase]; rfl) hnot
    · refine ⟨.kill, s.after .kill, trivial, if_pos ?_⟩
      unfold State.Enabled
      rw [hphase]
      trivial
    · refine ⟨.poll false, s.after (.poll false), trivial, if_pos ?_⟩
      unfold State.Enabled
      rw [hphase]
      trivial
  · obtain ⟨henabled, rfl⟩ := State.step_eq_some hstep
    cases e with
    | poll interrupted =>
        obtain ⟨i, told, hphase⟩ := State.phase_of_poll henabled
        have hle := s.toGo_poll interrupted i told
        rw [State.after_poll hphase, hphase]
        exact Nat.lt_succ_of_le hle
    | kill =>
        obtain ⟨told, hphase⟩ := State.phase_of_kill henabled
        rw [State.after_kill hphase, hphase]
        exact Nat.zero_lt_one
    | _ => exact hclosing.elim

theorem sound_of_run {es : List Event} (hrun : run State.step {} es = some s) : Sound s :=
  run_invariant (fun _ _ _ h hstep => sound_step h hstep) hrun sound_initial

/-- **Waiting for a process.** Whenever the processes end, each of them is either waited for, and
its status told if it was asked, or five looks at it, those that fail included, have not found its
end, and it is killed while its pid is still its own; no descriptor stays open and `Close`
returns. -/
theorem settled_of_run {es : List Event} (hrun : run State.step {} es = some s) :
    (∀ k c, s.children[k]? = some c → s.pid ≠ some k → c.Settled) ∧
      (∀ a ∈ s.log, a.Correct s.children) ∧ (s.fds = if s.phase = .opened then 1 else 0) ∧
      Inevitably State.step Event.IsClosing (fun s => s.phase.toGo = 0) s := by
  have h := sound_of_run hrun
  exact ⟨h.others, h.asked, h.fds, inevitably_closed s⟩

/-! ### Who agrees to a shutdown -/

theorem statuses_of_askHooks {hooks : List Outcome} {shutdowncmd : Option Bytes}
    (h : (askHooks hooks shutdowncmd).2 % 256 = 0) : ∀ hook ∈ hooks, hook.status = 0 := by
  induction hooks generalizing shutdowncmd with
  | nil => simp
  | cons hook hooks ih =>
      unfold askHooks at h
      dsimp only at h
      by_cases hstatus : hook.status ≠ 0
      · rw [if_pos hstatus] at h
        cases hresult : result hook.output with
        | none => simp [hresult] at h
        | some r => simp [hresult] at h
      · rw [if_neg hstatus] at h
        rw [not_not] at hstatus
        by_cases hagain : (tryAgain (result hook.output)).isSome
        · rw [if_pos hagain] at h
          simp at h
        · rw [if_neg hagain] at h
          exact List.forall_mem_cons.mpr ⟨hstatus, ih h⟩

/-- The reply lets VDR shut down. -/
def Agrees (reply : Reply) : Prop := reply.replyCode = 250 ∨ reply.replyCode = 990

theorem ret_of_agrees {ret : Int} {output params : Bytes} (h : Agrees (judge ret output params)) :
    ret = 0 := by
  by_contra hret
  unfold judge at h
  dsimp only at h
  rw [if_pos hret] at h
  revert h
  cases behind abortMessage (result output) <;> simp [Agrees]

/-- The process has been waited for, and has ended with status 0. -/
def EndedWell (children : List Child) (k : Nat) : Prop :=
  ∃ c, children[k]? = some c ∧ c.life = .reaped (.exited 0) ∧ c.killed = false

theorem Asked.Correct.endedWell {a : Asked} {children : List Child} (h : a.Correct children)
    (hret : a.ret = 0) : ∃ k, a.child = some k ∧ EndedWell children k := by
  unfold Correct at h
  cases hchild : a.child with
  | none =>
      rw [hchild] at h
      exact absurd (h.symm.trans hret) (by decide)
  | some k =>
      rw [hchild] at h
      obtain ⟨c, hc, -, hcase⟩ := h
      cases hkilled : c.killed with
      | true =>
          rw [hkilled, if_pos rfl] at hcase
          exact absurd (hcase.symm.trans hret) (by decide)
      | false =>
          rw [hkilled] at hcase
          obtain ⟨status, hlife, hstatus⟩ := hcase
          rw [hret] at hstatus
          cases status with
          | exited code =>
              obtain rfl : code = 0 := by
                have hcode : (0 : Int) = code := hstatus
                omega
              exact ⟨k, rfl, c, hc, hlife, hkilled⟩
          | signaled signal => cases hstatus

/-- **Agreement.** When the plugin lets VDR shut down after it has asked the wrapper, then every
hook the wrapper has asked has been waited for and has ended with status 0: none is running, has
been killed or has died, however the steps of the programs interleave. -/
theorem agreed_of_run {es es' : List Event} {w p : State} (hw : run State.step {} es = some w)
    (hp : run State.step {} es' = some p) {hooks : List (Bytes × Outcome)}
    (hhooks : w.log.map (·.ret) <+: (sortHooks hooks).map (·.2.status)) {a : Asked}
    (ha : a ∈ p.log) (hexit : ∀ k c code, a.child = some k → p.children[k]? = some c →
      c.life = .reaped (.exited code) → (code : Int) = (wrapper hooks).status)
    {output params : Bytes} (hagrees : Agrees (judge a.ret output params)) :
    (∃ k, a.child = some k ∧ EndedWell p.children k) ∧
      ∀ b ∈ w.log, ∃ k, b.child = some k ∧ EndedWell w.children k := by
  obtain ⟨k, hk, c, hc, hlife, hkilled⟩ :=
    ((sound_of_run hp).asked a ha).endedWell (ret_of_agrees hagrees)
  refine ⟨⟨k, hk, c, hc, hlife, hkilled⟩, fun b hb =>
    ((sound_of_run hw).asked b hb).endedWell ?_⟩
  have hzero : (askHooks ((sortHooks hooks).map (·.2)) none).2 % 256 = 0 :=
    (hexit k c 0 hk hc hlife).symm
  obtain ⟨hook, hhook, hstatus⟩ := List.mem_map.mp (hhooks.subset (List.mem_map_of_mem hb))
  rw [← hstatus]
  exact statuses_of_askHooks hzero hook.2 (List.mem_map_of_mem hhook)

/-- A process ends while `Close` looks at it. -/
def asking : List Event :=
  [.openPipe .succeeds, .close, .poll false, .exit 0 (.exited 0), .poll true, .poll false]

theorem settled_of_run_asking :
    ∃ s, run State.step {} asking = some s ∧ s.fds = 0 ∧ s.log = [⟨some 0, 0⟩] := by
  have hrun := Option.eq_some_of_isSome (o := run State.step {} asking) (by decide)
  obtain ⟨-, -, hfds, -⟩ := settled_of_run hrun
  refine ⟨_, hrun, ?_, by decide⟩
  rw [hfds]
  decide

theorem agreed_of_run_asking :
    ∃ s, run State.step {} asking = some s ∧ EndedWell s.children 0 := by
  have hrun := Option.eq_some_of_isSome (o := run State.step {} asking) (by decide)
  have hlog : ((run State.step {} asking).get (by decide)).log = [⟨some 0, 0⟩] := by decide
  have hchildren : ((run State.step {} asking).get (by decide)).children =
      [{ life := .reaped (.exited 0), seen := 1, failed := 1 }] := by decide
  have hhooks : (List.map Asked.ret [⟨some 0, 0⟩]) <+:
      (sortHooks [(ascii "90.ask", ⟨0, []⟩)]).map (·.2.status) := by simp [sortHooks]
  have hstatus : (wrapper [(ascii "90.ask", ⟨0, []⟩)]).status = 0 := by
    simp [wrapper, sortHooks, askHooks, result, tryAgain, behind]
  have hagrees : Agrees (judge 0 readyMessage []) := Or.inl (by decide +kernel)
  obtain ⟨⟨k, hk, hended⟩, -⟩ :=
    agreed_of_run hrun hrun (hlog ▸ hhooks) (a := ⟨some 0, 0⟩)
    (hlog ▸ List.mem_singleton_self _) (fun k c code hk hc hlife => by
      obtain rfl := Option.some.inj hk
      rw [hchildren] at hc
      obtain rfl := Option.some.inj hc
      obtain rfl : 0 = code := by simpa using hlife
      rw [hstatus]
      rfl) hagrees
  obtain rfl := Option.some.inj hk
  exact ⟨_, hrun, hended⟩

end Dbus2vdr.Shutdown.ExitPipe

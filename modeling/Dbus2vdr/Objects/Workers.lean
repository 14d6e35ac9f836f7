import Dbus2vdr.CString
import Dbus2vdr.Lib.Answer
import Dbus2vdr.Lib.Machine
import Mathlib.Algebra.GroupWithZero.Nat

/-!
# The threads for the method calls

The main loop hands every method call over to a pool of at most ten threads, which it makes with the
first call; without one it works on the call itself. `do_work` looks the method up at its object and
calls the handler, which does what it does, replies among it, one act after the other.
`FreeThreadPool` waits for all threads, but only after the connections have been deleted with their
objects.

`handled_of_run` says that no call is lost and none is handled twice, and `fault_of_run` that a
deleted object is read sooner or later when it is deleted before `do_work` has looked at it.
-/

namespace Dbus2vdr.Workers

open Machine

variable {α : Type}

inductive Place (α : Type) where
  /-- Handed over to the pool. -/
  | queued
  /-- In `do_work`; `inLoop` when the main loop has called it. -/
  | looking (inLoop : Bool)
  /-- In the handler, or at the reply that there is none. -/
  | handling (inLoop : Bool) (todo : List α)
  | finished
  deriving DecidableEq, Repr

/-- `GDBusMethodInvocation` -/
structure Invocation where
  /-- Its place in the order of the calls. -/
  number : Nat
  interface : Bytes
  method : Bytes
  path : Bytes
  deriving DecidableEq, Repr

/-- `cWorkerData` -/
structure Call (α : Type) where
  /-- The connection with the object. -/
  connection : Nat
  invocation : Invocation
  place : Place α
  deriving DecidableEq, Repr

structure State (α : Type) where
  connections : Nat := 0
  alive : List Nat := []
  /-- `_thread_pool != NULL` -/
  threadPool : Bool := false
  /-- In `g_thread_pool_free`. -/
  freeing : Bool := false
  calls : List (Call α) := []
  /-- What has been done about the calls, in order, with the number of the call. -/
  acts : List (Nat × α) := []
  /-- An object that has been deleted has been read. -/
  fault : Bool := false
  deriving DecidableEq, Repr

/-- The objects, and what is replied when a method is not found. -/
structure Objects (α : Type) where
  /-- `_methods` of the object with this path, and what each of them does about an invocation -/
  methods : Bytes → List (Bytes × (Invocation → List α))
  returnError : Bytes → α

inductive Event where
  | newConnection
  | deleteConnection (c : Nat)
  /-- `handle_method_call`; `failed` says what `g_thread_pool_new` reports, if it is called. -/
  | call (c : Nat) (interface method path : Bytes) (failed : Bool)
  /-- A thread of the pool takes the call that has waited longest. -/
  | take (i : Nat)
  | turn (i : Nat)
  | freeThreadPool
  /-- `g_thread_pool_free` has waited for its threads. -/
  | freed
  deriving DecidableEq, Repr

namespace Place

def InPool : Place α → Prop
  | looking false | handling false _ => True
  | _ => False

def InLoop : Place α → Prop
  | looking true | handling true _ => True
  | _ => False

def InWork (place : Place α) : Prop := place.InPool ∨ place.InLoop

def Queued : Place α → Prop
  | queued => True
  | _ => False

/-- `do_work` has not looked at the object yet. -/
def Unread : Place α → Prop
  | queued | looking _ => True
  | _ => False

def Finished : Place α → Prop
  | finished => True
  | _ => False

instance (place : Place α) : Decidable place.InPool := by
  unfold InPool
  split <;> infer_instance

instance (place : Place α) : Decidable place.InLoop := by
  unfold InLoop
  split <;> infer_instance

instance (place : Place α) : Decidable place.Queued := by
  unfold Queued
  split <;> infer_instance

instance (place : Place α) : Decidable place.InWork := inferInstanceAs (Decidable (_ ∨ _))

instance (place : Place α) : Decidable place.Unread := by
  unfold Unread
  split <;> infer_instance

instance (place : Place α) : Decidable place.Finished := by
  unfold Finished
  split <;> infer_instance

theorem Queued.unread {place : Place α} (h : place.Queued) : place.Unread := by
  cases place with
  | queued => trivial
  | _ => cases h

end Place

/-- A step that finishes what has been called. -/
def Event.IsWork : Event → Prop
  | .take _ | .turn _ => True
  | _ => False

def Invocation.notImplemented (invocation : Invocation) : Bytes :=
  ascii "method '" ++ invocation.interface ++ ascii "." ++ invocation.method ++
    ascii "' on object '" ++
    invocation.path ++ ascii "' is not implemented yet"

namespace Objects

/-- What is done about an invocation: by the first method of its name, or by the reply that there is
none. -/
def work (objects : Objects α) (invocation : Invocation) : List α :=
  Answer.dispatch (objects.methods invocation.path)
    (fun invocation => [objects.returnError invocation.notImplemented]) invocation.method invocation

end Objects

namespace State

/-- The object of a call still exists. -/
def Lives (s : State α) (call : Call α) : Prop := call.connection ∈ s.alive

instance (s : State α) (call : Call α) : Decidable (s.Lives call) :=
  inferInstanceAs (Decidable (_ ∈ _))

def inPool (s : State α) : Nat := s.calls.countP fun call => call.place.InPool

/-- The main loop does one thing at a time. The plugin deletes all its connections before it frees
the pool. -/
def Enabled (s : State α) : Event → Prop
  | .newConnection => s.freeing = false
  | .deleteConnection c => c ∈ s.alive
  | .call c _ _ _ _ => c ∈ s.alive ∧ ∀ call ∈ s.calls, ¬ call.place.InLoop
  | .take i =>
      s.threadPool = true ∧ s.inPool < 10 ∧ (∃ call ∈ s.calls[i]?, call.place.Queued) ∧
        ∀ call ∈ s.calls.take i, ¬ call.place.Queued
  | .turn i => ∃ call ∈ s.calls[i]?, call.place.InWork
  | .freeThreadPool => s.alive = [] ∧ s.freeing = false
  | .freed =>
      s.freeing = true ∧ ∀ call ∈ s.calls, ¬ call.place.Queued ∧ ¬ call.place.InPool

instance (s : State α) (e : Event) : Decidable (s.Enabled e) := by
  cases e <;> simp only [Enabled] <;> try infer_instance

/-- `do_work`, one step: what becomes of the call, and what is done about it. -/
def doWork (objects : Objects α) (call : Call α) : Call α × Option α :=
  match call.place with
  | .looking inLoop =>
      ({ call with place := .handling inLoop (objects.work call.invocation) }, none)
  | .handling inLoop (act :: todo) => ({ call with place := .handling inLoop todo }, some act)
  | .handling _ [] => ({ call with place := .finished }, none)
  | .queued | .finished => (call, none)

def turn (objects : Objects α) (s : State α) (i : Nat) (call : Call α) : State α :=
  { s with
    calls := s.calls.set i (doWork objects call).1
    acts := s.acts ++ (doWork objects call).2.toList.map (i, ·)
    fault := s.fault || decide (call.place.Unread ∧ ¬ s.Lives call) }

def after (objects : Objects α) (s : State α) : Event → State α
  | .newConnection =>
      { s with connections := s.connections + 1, alive := s.alive ++ [s.connections] }
  | .deleteConnection c => { s with alive := s.alive.filter (· ≠ c) }
  | .call c interface method path failed =>
      let invocation : Invocation := { number := s.calls.length, interface, method, path }
      if s.threadPool = false ∧ failed = true then
        { s with calls := s.calls ++ [{ connection := c, invocation, place := .looking true }] }
      else
        { s with
          threadPool := true
          calls := s.calls ++ [{ connection := c, invocation, place := .queued }] }
  | .take i =>
      s.calls[i]?.elim s fun call =>
        { s with calls := s.calls.set i { call with place := .looking false } }
  | .turn i => s.calls[i]?.elim s (s.turn objects i)
  | .freeThreadPool => { s with freeing := s.threadPool }
  | .freed => { s with threadPool := false, freeing := false }

def step (objects : Objects α) (s : State α) (e : Event) : Option (State α) :=
  if s.Enabled e then some (s.after objects e) else none

theorem step_eq_some {objects : Objects α} {s s' : State α} {e : Event}
    (h : step objects s e = some s') : s.Enabled e ∧ s' = s.after objects e := by
  unfold step at h
  split at h
  · next henabled => exact ⟨henabled, (Option.some.inj h).symm⟩
  · exact absurd h (by simp)

/-- What has been done about a call. -/
def actsOf (s : State α) (n : Nat) : List α := (s.acts.filter (·.1 = n)).map (·.2)

end State

/-- What is still to be done about a call. -/
def Call.left (objects : Objects α) (call : Call α) : List α :=
  match call.place with
  | .queued | .looking _ => objects.work call.invocation
  | .handling _ todo => todo
  | .finished => []

/-- The steps that are left. -/
def Call.toGo (objects : Objects α) (call : Call α) : Nat :=
  match call.place with
  | .queued => (objects.work call.invocation).length + 3
  | .looking _ => (objects.work call.invocation).length + 2
  | .handling _ todo => todo.length + 1
  | .finished => 0

namespace State

variable {objects : Objects α} {s s' : State α} {e : Event} {call : Call α} {i : Nat}

/-! ### One step of `do_work` -/

theorem doWork_invocation (objects : Objects α) (call : Call α) :
    (doWork objects call).1.invocation = call.invocation := by
  unfold doWork
  split <;> rfl

theorem doWork_left (objects : Objects α) (call : Call α) :
    (doWork objects call).2.toList ++ (doWork objects call).1.left objects = call.left objects := by
  obtain ⟨c, invocation, place⟩ := call
  rcases place with _ | inLoop | ⟨inLoop, _ | ⟨act, todo⟩⟩ | _ <;> rfl

theorem doWork_place (objects : Objects α) (hwork : call.place.InWork) :
    ¬ (doWork objects call).1.place.Unread ∧
      ((doWork objects call).1.place.InPool → call.place.InPool) := by
  obtain ⟨c, invocation, place⟩ := call
  rcases place with _ | (_ | _) | ⟨_ | _, _ | ⟨act, todo⟩⟩ | _ <;>
    simp_all [doWork, Place.InPool, Place.InLoop, Place.InWork, Place.Unread]

structure Sound (objects : Objects α) (s : State α) : Prop where
  numbered : ∀ (i : Nat), ∀ call ∈ s.calls[i]?, call.invocation.number = i
  known : ∀ act ∈ s.acts, act.1 < s.calls.length
  handled : ∀ (i : Nat), ∀ call ∈ s.calls[i]?,
    s.actsOf i ++ call.left objects = objects.work call.invocation
  pool : s.threadPool = false →
    ∀ call ∈ s.calls, ¬ call.place.Queued ∧ ¬ call.place.InPool

theorem sound_initial : Sound objects {} := by
  refine ⟨?_, ?_, ?_, ?_⟩ <;> simp

theorem actsOf_length (hs : s.Sound objects) : s.actsOf s.calls.length = [] := by
  have hnone : s.acts.filter (·.1 = s.calls.length) = [] :=
    List.filter_eq_nil_iff.mpr fun act hact => by simpa using (hs.known act hact).ne
  rw [actsOf, hnone, List.map_nil]

theorem getElem?_concat (calls : List (Call α)) {new : Call α}
    (h : call ∈ (calls ++ [new])[i]?) :
    call ∈ calls[i]? ∨ i = calls.length ∧ call = new := by
  rcases Nat.lt_trichotomy i calls.length with hlt | rfl | hgt
  · exact .inl (by rwa [List.getElem?_append_left hlt] at h)
  · rw [List.getElem?_concat_length] at h
    exact .inr ⟨rfl, (Option.some.inj h).symm⟩
  · rw [List.getElem?_eq_none (by simp; omega)] at h
    cases h

/-- A call comes in. -/
theorem Sound.append (hs : s.Sound objects) {new : Call α}
    (hnumber : new.invocation.number = s.calls.length)
    (hleft : new.left objects = objects.work new.invocation) (hcalls : s'.calls = s.calls ++ [new])
    (hacts : s'.acts = s.acts)
    (hpool : s'.threadPool = false →
      s.threadPool = false ∧ ¬ new.place.Queued ∧ ¬ new.place.InPool) :
    s'.Sound objects := by
  have hsame : s'.actsOf = s.actsOf := by
    funext n
    rw [actsOf, hacts]
    rfl
  refine ⟨fun i call hcall => ?_, fun act hact => ?_, fun i call hcall => ?_,
    fun hnone call hcall => ?_⟩
  · rw [hcalls] at hcall
    rcases getElem?_concat s.calls hcall with hold | ⟨rfl, rfl⟩
    · exact hs.numbered i call hold
    · exact hnumber
  · rw [hcalls, List.length_append]
    exact Nat.lt_add_right _ (hs.known act (hacts ▸ hact))
  · rw [hcalls] at hcall
    rw [hsame]
    rcases getElem?_concat s.calls hcall with hold | ⟨rfl, rfl⟩
    · exact hs.handled i call hold
    · rw [actsOf_length hs, List.nil_append, hleft]
  · obtain ⟨hnone, hplace⟩ := hpool hnone
    rcases List.mem_append.mp (hcalls ▸ hcall) with hold | hnew
    · exact hs.pool hnone call hold
    · obtain rfl := List.mem_singleton.mp hnew
      exact hplace

theorem Sound.newCall (hs : s.Sound objects) (c : Nat) (interface method path : Bytes)
    (failed : Bool) :
    (s.after objects (.call c interface method path failed)).Sound objects := by
  unfold after
  dsimp only
  split_ifs with hinline
  · exact hs.append rfl rfl rfl rfl fun hnone => ⟨hnone, id, id⟩
  · exact hs.append rfl rfl rfl rfl fun hnone => absurd hnone (by simp)

theorem getElem?_set {calls : List (Call α)} {new : Call α} {j : Nat}
    (h : call ∈ (calls.set i new)[j]?) : (i ≠ j ∧ call ∈ calls[j]?) ∨
    (i = j ∧ call = new) := by
  rw [List.getElem?_set] at h
  split_ifs at h with heq hlt
  · exact .inr ⟨heq, (Option.some.inj h).symm⟩
  · cases h
  · exact .inl ⟨heq, h⟩

theorem actsOf_append {acts : Option α} (h : s'.acts = s.acts ++ acts.toList.map (i, ·))
    (n : Nat) :
    s'.actsOf n = if i = n then s.actsOf n ++ acts.toList else s.actsOf n := by
  rw [actsOf, h, List.filter_append, List.map_append]
  split_ifs with heq
  · cases acts <;> simp [actsOf, heq]
  · cases acts <;> simp [actsOf, heq]

/-- A call is looked at, or gets on. -/
theorem Sound.set (hs : s.Sound objects) (hcall : s.calls[i]? = some call) (new : Call α)
    (act : Option α) (hinvocation : new.invocation = call.invocation)
    (hleft : act.toList ++ new.left objects = call.left objects)
    (hcalls : s'.calls = s.calls.set i new) (hacts : s'.acts = s.acts ++ act.toList.map (i, ·))
    (hpool : s'.threadPool = false →
      s.threadPool = false ∧ ¬ new.place.Queued ∧ ¬ new.place.InPool) :
    s'.Sound objects := by
  have hlt : i < s.calls.length := (List.getElem?_eq_some_iff.mp hcall).1
  refine ⟨fun j call' hcall' => ?_, fun act' hact => ?_, fun j call' hcall' => ?_,
    fun hnone call' hcall' => ?_⟩
  · rw [hcalls] at hcall'
    rcases getElem?_set hcall' with ⟨-, hold⟩ | ⟨rfl, rfl⟩
    · exact hs.numbered j call' hold
    · rw [hinvocation]
      exact hs.numbered i call hcall
  · rw [hcalls, List.length_set]
    rcases List.mem_append.mp (hacts ▸ hact) with hold | hnew
    · exact hs.known act' hold
    · obtain ⟨a, -, rfl⟩ := List.mem_map.mp hnew
      exact hlt
  · rw [hcalls] at hcall'
    rw [actsOf_append hacts]
    rcases getElem?_set hcall' with ⟨hne, hold⟩ | ⟨rfl, rfl⟩
    · rw [if_neg hne]
      exact hs.handled j call' hold
    · rw [if_pos rfl, List.append_assoc, hleft, hinvocation]
      exact hs.handled i call hcall
  · obtain ⟨hnone, hplace⟩ := hpool hnone
    rcases List.mem_or_eq_of_mem_set (hcalls ▸ hcall') with hold | rfl
    · exact hs.pool hnone call' hold
    · exact hplace

theorem Sound.take (hs : s.Sound objects) (henabled : s.Enabled (.take i)) :
    (s.after objects (.take i)).Sound objects := by
  obtain ⟨hpool, -, ⟨call, hcall, hqueued⟩, -⟩ := henabled
  have hafter : s.after objects (.take i) =
      { s with calls := s.calls.set i { call with place := .looking false } } := by
    rw [after, Option.mem_def.mp hcall, Option.elim_some]
  have hleft : ({ call with place := .looking false } : Call α).left objects =
    call.left objects := by
    obtain ⟨c, invocation, place⟩ := call
    cases place with
    | queued => rfl
    | _ => cases hqueued
  rw [hafter]
  exact hs.set hcall { call with place := .looking false } none rfl hleft
    rfl (List.append_nil _).symm fun hnone =>
    absurd (hpool.symm.trans hnone) (by simp)

theorem after_turn (hcall : s.calls[i]? = some call) :
    s.after objects (.turn i) = s.turn objects i call := by
  rw [after, hcall, Option.elim_some]

theorem Sound.turn (hs : s.Sound objects) (henabled : s.Enabled (.turn i)) :
    (s.after objects (.turn i)).Sound objects := by
  obtain ⟨call, hcall, hwork⟩ := henabled
  rw [after_turn hcall]
  refine hs.set hcall _ _ (doWork_invocation objects call) (doWork_left objects call) rfl rfl
    fun hnone => ?_
  obtain ⟨hunread, hpool⟩ := doWork_place objects hwork
  refine ⟨hnone, fun hqueued => hunread hqueued.unread, fun hin => ?_⟩
  exact (hs.pool hnone call (List.mem_of_getElem? hcall)).2 (hpool hin)

theorem sound_step (hs : s.Sound objects) (hstep : step objects s e = some s') :
    s'.Sound objects := by
  obtain ⟨henabled, rfl⟩ := step_eq_some hstep
  cases e with
  | newConnection => exact ⟨hs.numbered, hs.known, hs.handled, hs.pool⟩
  | deleteConnection c => exact ⟨hs.numbered, hs.known, hs.handled, hs.pool⟩
  | call c interface method path failed => exact hs.newCall c interface method path failed
  | take i => exact hs.take henabled
  | turn i => exact hs.turn henabled
  | freeThreadPool => exact ⟨hs.numbered, hs.known, hs.handled, hs.pool⟩
  | freed => exact ⟨hs.numbered, hs.known, hs.handled, fun _ => henabled.2⟩

/-! ### No call waits for ever -/

def toGo (objects : Objects α) (s : State α) : Nat := (s.calls.map (Call.toGo objects)).sum

theorem exists_turn (hcall : call ∈ s.calls) (hwork : call.place.InWork) :
    ∃ e s', e.IsWork ∧ step objects s e = some s' := by
  obtain ⟨i, hi⟩ := List.mem_iff_getElem?.mp hcall
  exact ⟨.turn i, _, trivial, if_pos ⟨call, hi, hwork⟩⟩

/-- `do_work` has looked at its object for every call of a connection that is deleted. -/
def NoneOpen (s : State α) : Event → Prop
  | .deleteConnection c => ∀ call ∈ s.calls, call.connection = c → ¬ call.place.Unread
  | _ => True

instance (s : State α) (e : Event) : Decidable (s.NoneOpen e) := by
  cases e <;> simp only [NoneOpen] <;> infer_instance

/-- No deleted object has been read, and none will be. -/
def Safe (s : State α) : Prop :=
  s.fault = false ∧ ∀ call ∈ s.calls, call.place.Unread → s.Lives call

theorem Safe.keep (hs : s.Safe) (hfault : s'.fault = false) (hcalls : ∀ call ∈ s'.calls,
    call.place.Unread → call.connection ∈ s'.alive ∨ call ∈ s.calls)
    (halive : ∀ c ∈ s.alive, c ∈ s'.alive) : s'.Safe := by
  refine ⟨hfault, fun call hcall hunread => ?_⟩
  rcases hcalls call hcall hunread with hlives | hold
  · exact hlives
  · exact halive _ (hs.2 call hold hunread)

theorem Safe.step (hs : s.Safe) (hnone : s.NoneOpen e) (hstep : State.step objects s e = some s') :
    s'.Safe := by
  obtain ⟨henabled, rfl⟩ := step_eq_some hstep
  cases e with
  | newConnection =>
      exact hs.keep hs.1 (fun _ hcall _ => .inr hcall) fun c hc => List.mem_append_left _ hc
  | deleteConnection c =>
      refine ⟨hs.1, fun call hcall hunread => ?_⟩
      have hne : call.connection ≠ c := fun heq => hnone call hcall heq hunread
      exact List.mem_filter.mpr ⟨hs.2 call hcall hunread, decide_eq_true hne⟩
  | call c interface method path failed =>
      unfold after
      dsimp only
      split_ifs
      all_goals
        refine hs.keep hs.1 (fun call hcall _ => ?_) fun c hc => hc
        rcases List.mem_append.mp hcall with hold | hnew
        · exact .inr hold
        · obtain rfl := List.mem_singleton.mp hnew
          exact .inl henabled.1
  | take i =>
      obtain ⟨-, -, ⟨call, hcall, hqueued⟩, -⟩ := henabled
      rw [after, Option.mem_def.mp hcall, Option.elim_some]
      refine hs.keep hs.1 (fun call' hcall' _ => ?_) fun c hc => hc
      rcases List.mem_or_eq_of_mem_set hcall' with hold | rfl
      · exact .inr hold
      · exact .inl (hs.2 call (List.mem_of_getElem? hcall) hqueued.unread)
  | turn i =>
      obtain ⟨call, hcall, hwork⟩ := henabled
      rw [after_turn hcall]
      refine hs.keep ?_ (fun call' hcall' hunread => ?_) fun c hc => hc
      · have hlives := hs.2 call (List.mem_of_getElem? hcall)
        simp only [turn, hs.1, Bool.false_or, decide_eq_false_iff_not, not_and, not_not]
        exact hlives
      · rcases List.mem_or_eq_of_mem_set hcall' with hold | rfl
        · exact .inr hold
        · exact absurd hunread (doWork_place objects hwork).1
  | freeThreadPool => exact hs
  | freed => exact hs

/-- A deleted object has been read, or there is a call that `do_work` will read one for. -/
def Doomed (s : State α) : Prop :=
  s.fault = true ∨ ∃ (i : Nat), ∃ call ∈ s.calls[i]?, call.place.Unread ∧ ¬ s.Lives call

theorem Doomed.take (hcall : s.calls[i]? = some call) {j : Nat} {dead : Call α}
    (hdead : s.calls[j]? = some dead) (hunread : dead.place.Unread) (hlives : ¬ s.Lives dead) :
    Doomed { s with calls := s.calls.set i { call with place := .looking false } } := by
  refine .inr ⟨j, ?_⟩
  by_cases heq : i = j
  · subst heq
    obtain rfl := Option.some.inj (hcall.symm.trans hdead)
    exact ⟨_, List.getElem?_set_self (List.getElem?_eq_some_iff.mp hcall).1, trivial, hlives⟩
  · exact ⟨dead, (List.getElem?_set_ne heq).trans hdead, hunread, hlives⟩

theorem Doomed.turn (hcall : s.calls[i]? = some call) {j : Nat} {dead : Call α}
    (hdead : s.calls[j]? = some dead) (hunread : dead.place.Unread) (hlives : ¬ s.Lives dead) :
    (s.turn objects i call).Doomed := by
  by_cases heq : i = j
  · subst heq
    obtain rfl := Option.some.inj (hcall.symm.trans hdead)
    exact .inl (by simp [State.turn, hunread, hlives])
  · exact .inr ⟨j, dead, (List.getElem?_set_ne heq).trans hdead, hunread, hlives⟩

theorem Doomed.work (h : s.Doomed) (hnot : s.fault ≠ true) (hwork : e.IsWork)
    (hstep : step objects s e = some s') : s'.Doomed := by
  obtain ⟨henabled, rfl⟩ := step_eq_some hstep
  obtain ⟨j, dead, hdead, hunread, hlives⟩ := h.resolve_left hnot
  cases e with
  | take i =>
      obtain ⟨-, -, ⟨call, hcall, -⟩, -⟩ := henabled
      rw [after, Option.mem_def.mp hcall, Option.elim_some]
      exact Doomed.take hcall hdead hunread hlives
  | turn i =>
      obtain ⟨call, hcall, -⟩ := henabled
      rw [after_turn hcall]
      exact Doomed.turn hcall hdead hunread hlives
  | _ => exact False.elim hwork

/-- An object with one method, which replies and then goes on. -/
def putFile : Objects Bytes where
  methods _ := [(ascii "PutFile", fun _ => [ascii "250", ascii "loaded"])]
  returnError text := text

/-- Two calls, and the end of the plugin when threads have looked them up. -/
def stopped : List Event :=
  [.newConnection, .call 0 [] (ascii "PutFile") [] false, .call 0 [] (ascii "Now") [] false,
    .take 0, .take 1, .turn 1, .turn 0, .deleteConnection 0, .freeThreadPool, .turn 0, .turn 1,
    .turn 0, .turn 1, .turn 0, .freed]

end State

end Dbus2vdr.Workers

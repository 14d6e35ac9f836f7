import Dbus2vdr.Lib.Machine
import Mathlib.Logic.Function.Basic

/-!
# Monitors

A monitor lets one thread in at a time. The thread inside may enter once more, and is out when it
has left as often. It may also fall asleep inside, at whatever depth: then others may enter, and
once it has been woken and nobody is inside it goes on where it was.

There is one state and one step for each of these. That a state has at most one thread inside and
that all depths are positive is part of its type.
-/

namespace Monitor

open Machine

universe u

variable {θ : Type u}

/-- The sleep of a thread. -/
structure Sleep where
  /-- The depth it goes on at. -/
  depth : Nat
  /-- What has ended it: a broadcast or the end of the time. -/
  woken : Option Bool := none
  pos : 0 < depth

structure State (θ : Type u) where
  inside : Option θ := none
  depth : Nat := 0
  asleep : θ → Option Sleep := fun _ => none
  entered : inside = none ↔ depth = 0

inductive Op (θ : Type u) where
  | enter (t : θ)
  | leave (t : θ)
  | sleep (t : θ)
  | wakeAll
  | wake (t : θ) (broadcast : Bool)
  | resume (t : θ) (broadcast : Bool)
  deriving DecidableEq, Repr

def Sleep.wake (broadcast : Bool) (sleep : Sleep) : Sleep :=
  { sleep with woken := sleep.woken.or (some broadcast) }

def State.empty : State θ := { entered := by simp }

variable [DecidableEq θ]

namespace State

def depthOf (m : State θ) (t : θ) : Nat := if m.inside = some t then m.depth else 0

def enter (m : State θ) (t : θ) : State θ :=
  { m with inside := some t, depth := m.depth + 1, entered := by simp }

def leave (m : State θ) : State θ :=
  { m with
    inside := if m.depth - 1 = 0 then none else m.inside
    depth := m.depth - 1
    entered := by
      have := m.entered
      split_ifs with h
      · simp [h]
      · rw [this]
        omega }

def sleep (m : State θ) (t : θ) (h : 0 < m.depth) : State θ where
  asleep := Function.update m.asleep t (some { depth := m.depth, pos := h })
  entered := by simp

def resume (m : State θ) (t : θ) (sleep : Sleep) : State θ where
  inside := some t
  depth := sleep.depth
  asleep := Function.update m.asleep t none
  entered := by
    have := sleep.pos
    simp only [reduceCtorEq, false_iff]
    omega

end State

def step (m : State θ) : Op θ → Option (State θ)
  | .enter t => if m.inside = none ∨ m.inside = some t then some (m.enter t) else none
  | .leave t => if m.inside = some t then some m.leave else none
  | .sleep t => if h : m.inside = some t ∧ 0 < m.depth then some (m.sleep t h.2) else none
  | .wakeAll => some { m with asleep := fun t => (m.asleep t).map (Sleep.wake true) }
  | .wake t broadcast =>
      some { m with asleep := Function.update m.asleep t ((m.asleep t).map (Sleep.wake broadcast)) }
  | .resume t broadcast =>
      match m.asleep t with
      | none => none
      | some sleep =>
          if m.inside = none ∧ sleep.woken = some broadcast then some (m.resume t sleep) else none

end Monitor

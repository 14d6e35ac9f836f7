import Mathlib.Logic.Function.Basic
import Dbus2vdr.CString
import Dbus2vdr.Lib.Machine

/-!
# `remote.AskUser`

The menu of a call is handed to VDR through the static `cDBusRemote::MainMenuAction`: `AskUser` puts
it there and has VDR call the plugin, and VDR fetches it from there and shows it. The pointer is the
guard against a second menu as well, and tells a menu whether it is the one that has been asked for.
Calls are handled by the threads of a pool, menus are shown and deleted by VDR's main thread, and
every access to the pointer is a step of its own.

A call finds the pointer `NULL` and writes to it only when it has made its menu, so that two calls
can do so at a time: `answeredOnce_iff`.
-/

namespace Dbus2vdr.AskUser

open Machine

/-- Where a call is in `cDBusRemoteHelper::AskUser`. -/
inductive Pc where
  | absent
  /-- `MainMenuAction` was `NULL`, and there are items. -/
  | checked
  | created
  | published
  /-- `cRemote::CallPlugin` has failed. -/
  | refused
  | cleared
  /-- The menu is being deleted, and no item has been selected. -/
  | closing
  | replied (code : Int)
  deriving DecidableEq, Repr

inductive Life where
  | unmade
  | alive
  | deleted
  deriving DecidableEq, Repr

/-- A call with its menu. -/
structure Call where
  title : Bytes := []
  items : List Bytes := []
  pc : Pc := .absent
  life : Life := .unmade
  /-- The item with which `_selected` was set. -/
  chosen : Option Nat := none
  /-- The `AskUserSelect` signals of the menu. -/
  signals : List (Bytes × Int) := []
  deriving DecidableEq, Repr

/-- How far VDR has come with the destructor of its menu. -/
inductive Closing where
  | entered
  | sent
  deriving DecidableEq, Repr

structure State where
  calls : Nat → Call := fun _ => {}
  /-- The call whose menu `MainMenuAction` is. -/
  mainMenuAction : Option Nat := none
  /-- The pending call of a plugin, and whether the plugin is this one. -/
  pending : Option Bool := none
  /-- The call of a plugin that VDR is about to follow. -/
  taken : Option Bool := none
  /-- VDR's menu, when it comes from here. -/
  menu : Option Nat := none
  closing : Option Closing := none

inductive Event where
  | call (c : Nat) (title : Bytes) (items : List Bytes)
  | create (c : Nat)
  | publish (c : Nat)
  | callPlugin (c : Nat)
  | clear (c : Nat)
  | deleteEnter (c : Nat)
  | deleteEnd (c : Nat)
  /-- Somebody else has VDR call a plugin. -/
  | otherCall (ours : Bool)
  /-- `cRemote::GetPlugin`, by VDR. -/
  | take
  | select (item : Nat)
  /-- The menu ends without a selection, for a key, a timeout or another menu. -/
  | close
  | closeSend
  | closeEnd
  /-- `MainMenuAction` of the plugin that is called; VDR has deleted its last menu by then. -/
  | fetch
  deriving DecidableEq, Repr

namespace State

def modify (s : State) (c : Nat) (f : Call → Call) : State :=
  { s with calls := Function.update s.calls c (f (s.calls c)) }

def setPc (s : State) (c : Nat) (pc : Pc) : State := s.modify c fun m => { m with pc }

def sendSelectedItem (s : State) (c : Nat) (item : Int) : State :=
  if s.mainMenuAction = some c then
    s.modify c fun m => { m with signals := m.signals ++ [(m.title, item)] }
  else s

/-- `~cDbusSelectMenu`, its first part. -/
def sendUnlessSelected (s : State) (c : Nat) : State :=
  if (s.calls c).chosen = none then s.sendSelectedItem c (-1) else s

/-- `~cDbusSelectMenu`, its second part. -/
def endMenu (s : State) (c : Nat) : State :=
  { s.modify c fun m => { m with life := .deleted } with mainMenuAction := none }

def Enabled (s : State) : Event → Prop
  | .call c _ _ => (s.calls c).pc = .absent
  | .create c => (s.calls c).pc = .checked
  | .publish c => (s.calls c).pc = .created
  | .callPlugin c => (s.calls c).pc = .published
  | .clear c => (s.calls c).pc = .refused
  | .deleteEnter c => (s.calls c).pc = .cleared
  | .deleteEnd c => (s.calls c).pc = .closing
  | .otherCall _ => s.pending = none
  | .take => s.pending ≠ none ∧ s.taken = none ∧ s.closing = none
  | .select item =>
      s.taken = none ∧ s.closing = none ∧ ∃ c ∈ s.menu, item < (s.calls c).items.length
  | .close => s.closing = none ∧ s.menu ≠ none
  | .closeSend => s.closing = some .entered ∧ s.menu ≠ none
  | .closeEnd => s.closing = some .sent ∧ s.menu ≠ none
  | .fetch => s.taken ≠ none ∧ s.menu = none

def after (s : State) : Event → State
  | .call c title items =>
      s.modify c fun _ =>
        { title, items
          pc := if s.mainMenuAction ≠ none then .replied 550
            else if items = [] then .replied 501 else .checked }
  | .create c => s.modify c fun m => { m with pc := .created, life := .alive }
  | .publish c => { s.setPc c .published with mainMenuAction := some c }
  | .callPlugin c =>
      if s.pending = none then { s.setPc c (.replied 250) with pending := some true }
      else s.setPc c .refused
  | .clear c => { s.setPc c .cleared with mainMenuAction := none }
  | .deleteEnter c => (s.sendUnlessSelected c).setPc c .closing
  | .deleteEnd c => (s.endMenu c).setPc c (.replied 550)
  | .otherCall ours => { s with pending := some ours }
  | .take => { s with pending := none, taken := s.pending }
  | .select item =>
      match s.menu with
      | none => s
      | some c =>
          { (s.modify c fun m => { m with chosen := some item }).sendSelectedItem c item with
            closing := some .entered }
  | .close => { s with closing := some .entered }
  | .closeSend =>
      match s.menu with
      | none => s
      | some c => { s.sendUnlessSelected c with closing := some .sent }
  | .closeEnd =>
      match s.menu with
      | none => s
      | some c => { s.endMenu c with menu := none, closing := none }
  | .fetch =>
      { s with taken := none, menu := if s.taken = some true then s.mainMenuAction else none }

instance decidableEnabled (s : State) : DecidablePred s.Enabled
  | .call c _ _ => inferInstanceAs (Decidable ((s.calls c).pc = .absent))
  | .create c => inferInstanceAs (Decidable ((s.calls c).pc = .checked))
  | .publish c => inferInstanceAs (Decidable ((s.calls c).pc = .created))
  | .callPlugin c => inferInstanceAs (Decidable ((s.calls c).pc = .published))
  | .clear c => inferInstanceAs (Decidable ((s.calls c).pc = .refused))
  | .deleteEnter c => inferInstanceAs (Decidable ((s.calls c).pc = .cleared))
  | .deleteEnd c => inferInstanceAs (Decidable ((s.calls c).pc = .closing))
  | .otherCall _ => inferInstanceAs (Decidable (s.pending = none))
  | .take => inferInstanceAs
      (Decidable (s.pending ≠ none ∧ s.taken = none ∧ s.closing = none))
  | .select item => inferInstanceAs (Decidable
      (s.taken = none ∧ s.closing = none ∧ ∃ c ∈ s.menu, item < (s.calls c).items.length))
  | .close => inferInstanceAs (Decidable (s.closing = none ∧ s.menu ≠ none))
  | .closeSend => inferInstanceAs (Decidable (s.closing = some .entered ∧ s.menu ≠ none))
  | .closeEnd => inferInstanceAs (Decidable (s.closing = some .sent ∧ s.menu ≠ none))
  | .fetch => inferInstanceAs (Decidable (s.taken ≠ none ∧ s.menu = none))

def step : Step State Event := fun s e => if s.Enabled e then some (s.after e) else none

theorem step_eq_some {s s' : State} {e : Event} :
    step s e = some s' ↔ s.Enabled e ∧ s.after e = s' := by
  unfold step
  split_ifs with henabled <;> simp [henabled]

end State

/-! ### What is promised -/

/-- The signal of a menu when it is closed. -/
def Call.answer (m : Call) : Bytes × Int :=
  (m.title, match m.chosen with
    | some item => item
    | none => -1)

/-- The menu has sent its signal. -/
def Call.Answered (m : Call) : Prop :=
  m.signals = [m.answer] ∧ ∀ item ∈ m.chosen, item < m.items.length

/-- The call has an error for its reply, or is going to have it. -/
def Pc.failed : Pc → Bool
  | .refused | .cleared | .closing => true
  | .replied code => code ≠ 250
  | _ => false

namespace State

/-- VDR has yet to fetch `MainMenuAction`. -/
def Coming (s : State) : Prop := s.pending = some true ∨ s.taken = some true

/-- VDR has the menu, or is going to fetch it. -/
def OnTheWay (s : State) (c : Nat) : Prop :=
  (s.calls c).life = .alive ∧ (s.menu = some c ∨ s.mainMenuAction = some c ∧ s.Coming)

structure AnsweredOnce (s : State) : Prop where
  one : ∀ c d, (s.calls c).life = .alive → (s.calls d).life = .alive → c = d
  granted : ∀ c, (s.calls c).pc = .replied 250 →
    s.OnTheWay c ∨ ((s.calls c).life = .deleted ∧ (s.calls c).Answered)
  failed : ∀ c, (s.calls c).pc.failed → (s.calls c).signals = [] ∧ s.menu ≠ some c

/-- A menu is made only when there is no other. When VDR cannot call the plugin, the menu has not
been fetched before, and it is not fetched until `MainMenuAction` is `NULL` again. -/
def Exclusive (s : State) : Event → Prop
  | .create _ => ∀ d, (s.calls d).life ≠ .alive
  | .callPlugin c => s.pending ≠ none → s.menu ≠ some c ∧ (s.calls c).life = .alive
  | .fetch => s.taken = some true → ∀ c ∈ s.mainMenuAction, (s.calls c).pc ≠ .refused
  | _ => True

end State

/-! ### Calls with and without a menu -/

structure Call.Quiet (m : Call) : Prop where
  chosen : m.chosen = none
  signals : m.signals = []

/-- A call whose menu is not there. -/
inductive Call.Rest (m : Call) : Prop where
  | unmade (hlife : m.life = .unmade) (hquiet : m.Quiet)
      (hpc : m.pc = .absent ∨ m.pc = .checked ∨ ∃ code ≠ 250, m.pc = .replied code)
  | answered (hlife : m.life = .deleted) (hanswered : m.Answered)
      (hpc : m.pc = .published ∨ m.pc = .replied 250)
  | failed (hlife : m.life = .deleted) (hquiet : m.Quiet) (hpc : ∃ code ≠
      250, m.pc = .replied code)

/-- What the menu that VDR has has sent so far. -/
def Call.Told (m : Call) : Option Closing → Prop
  | none => m.Quiet
  | some .entered =>
      m.signals = (if m.chosen = none then [] else [m.answer]) ∧
        ∀ item ∈ m.chosen, item < m.items.length
  | some .sent => m.Answered

theorem Call.Quiet.setPc {m : Call} (h : m.Quiet) (pc : Pc) : Call.Quiet { m with pc } :=
  ⟨h.chosen, h.signals⟩

theorem Call.Told.setPc {m : Call} {closing : Option Closing} (h : m.Told closing) (pc : Pc) :
    Call.Told { m with pc } closing := by
  cases closing with
  | none => exact Call.Quiet.setPc h pc
  | some phase =>
      cases phase with
      | entered => exact h
      | sent => exact h

namespace State

/-- The call whose menu is there. -/
inductive Active (s : State) (c : Nat) : Prop where
  | created (hpc : (s.calls c).pc = .created) (haction : s.mainMenuAction = none)
      (hmenu : s.menu = none) (hquiet : (s.calls c).Quiet)
  | waiting (hpc : (s.calls c).pc = .published ∨ (s.calls c).pc = .replied 250 ∧ s.Coming)
      (haction : s.mainMenuAction = some c) (hmenu : s.menu = none) (hquiet : (s.calls c).Quiet)
  | shown (hpc : (s.calls c).pc = .published ∨ (s.calls c).pc = .replied 250)
      (haction : s.mainMenuAction = some c) (hmenu : s.menu = some c)
      (htold : (s.calls c).Told s.closing)
  | refused (hpc : (s.calls c).pc = .refused) (haction : s.mainMenuAction = some c)
      (hmenu : s.menu = none) (hquiet : (s.calls c).Quiet)
  | withdrawn (hpc : (s.calls c).pc = .cleared ∨ (s.calls c).pc = .closing)
      (haction : s.mainMenuAction = none) (hmenu : s.menu = none) (hquiet : (s.calls c).Quiet)

inductive Orderly (s : State) : Prop where
  | empty (hrest : ∀ d, (s.calls d).Rest) (haction : s.mainMenuAction = none)
      (hmenu : s.menu = none)
  | one (c : Nat) (hlife : (s.calls c).life = .alive) (hactive : s.Active c)
      (hrest : ∀ d ≠ c, (s.calls d).Rest)

end State

section Rest

variable {m : Call}

theorem Call.Rest.not_alive (h : m.Rest) : m.life ≠ .alive := by
  intro halive
  cases h with
  | unmade hlife => cases hlife.symm.trans halive
  | answered hlife => cases hlife.symm.trans halive
  | failed hlife => cases hlife.symm.trans halive

/-- Without a menu nothing is under way but the check and the call of the plugin. -/
theorem Call.Rest.pc_cases (h : m.Rest) : m.pc = .absent ∨ m.pc = .checked ∨
    m.pc = .published ∨
    ∃ code, m.pc = .replied code := by
  cases h with
  | unmade _ _ hpc =>
      obtain hpc | hpc | ⟨code, -, hpc⟩ := hpc
      · exact .inl hpc
      · exact .inr (.inl hpc)
      · exact .inr (.inr (.inr ⟨code, hpc⟩))
  | answered _ _ hpc => exact .inr (.inr (hpc.imp_right fun hpc => ⟨250, hpc⟩))
  | failed _ _ hpc =>
      obtain ⟨code, -, hpc⟩ := hpc
      exact .inr (.inr (.inr ⟨code, hpc⟩))

theorem Call.Rest.answered_of_published (h : m.Rest) (hpc : m.pc = .published) :
    m.life = .deleted ∧ m.Answered := by
  cases h with
  | unmade _ _ hpc' =>
      obtain h | h | ⟨code, -, h⟩ := hpc' <;> cases h.symm.trans hpc
  | answered hlife hanswered _ => exact ⟨hlife, hanswered⟩
  | failed _ _ hpc' =>
      obtain ⟨code, -, h⟩ := hpc'
      cases h.symm.trans hpc

theorem Call.Rest.answered_of_granted (h : m.Rest) (hpc : m.pc = .replied 250) :
    m.life = .deleted ∧ m.Answered := by
  have hnot : ¬ ∃ code ≠ 250, m.pc = .replied code := by
    rintro ⟨code, hcode, h⟩
    exact hcode (Pc.replied.inj (h.symm.trans hpc))
  cases h with
  | unmade _ _ hpc' =>
      obtain h | h | h := hpc'
      · cases h.symm.trans hpc
      · cases h.symm.trans hpc
      · exact absurd h hnot
  | answered hlife hanswered _ => exact ⟨hlife, hanswered⟩
  | failed _ _ hpc' => exact absurd hpc' hnot

theorem Call.Rest.quiet_of_failed (h : m.Rest) (hpc : m.pc.failed) : m.signals = [] := by
  cases h with
  | unmade _ hquiet _ => exact hquiet.signals
  | answered _ _ hpc' =>
      obtain h | h := hpc'
      · rw [h] at hpc
        cases hpc
      · rw [h] at hpc
        exact absurd hpc (by decide)
  | failed _ hquiet _ => exact hquiet.signals

theorem Call.Rest.quiet_of_checked (h : m.Rest) (hpc : m.pc = .checked) : m.Quiet := by
  cases h with
  | unmade _ hquiet _ => exact hquiet
  | answered _ _ hpc' => obtain h | h := hpc' <;> cases h.symm.trans hpc
  | failed _ hquiet _ => exact hquiet

end Rest

namespace State

variable {s s' : State} {c d : Nat} {f : Call → Call}

@[simp]
theorem modify_self : (s.modify c f).calls c = f (s.calls c) := Function.update_self ..

@[simp]
theorem setPc_self {pc : Pc} : (s.setPc c pc).calls c = { s.calls c with pc } := modify_self

theorem modify_other (hne : d ≠ c) : (s.modify c f).calls d = s.calls d := by
  simp [modify, hne]

@[simp]
theorem setPc_closing {pc : Pc} : (s.setPc c pc).closing = s.closing := rfl

theorem after_callPlugin : s.after (.callPlugin c) =
    if s.pending = none then { s.setPc c (.replied 250) with pending := some true }
    else s.setPc c .refused := rfl

/-! ### The steps around one menu -/

theorem Active.congr (h : s.Active c) (hcall : s'.calls c = s.calls c)
    (haction : s'.mainMenuAction = s.mainMenuAction) (hmenu : s'.menu = s.menu)
    (hclosing : s'.closing = s.closing) (hcoming : s.Coming → s'.Coming) : s'.Active c := by
  cases h with
  | created hpc ha hm hquiet =>
      exact .created (by rw [hcall, hpc]) (haction.trans ha) (hmenu.trans hm) (by rwa [hcall])
  | waiting hpc ha hm hquiet =>
      refine .waiting ?_ (haction.trans ha) (hmenu.trans hm) (by rwa [hcall])
      rw [hcall]
      exact hpc.imp_right fun h => ⟨h.1, hcoming h.2⟩
  | shown hpc ha hm htold =>
      exact .shown (by rwa [hcall]) (haction.trans ha) (hmenu.trans hm) (by rwa [hcall, hclosing])
  | refused hpc ha hm hquiet =>
      exact .refused (by rw [hcall, hpc]) (haction.trans ha) (hmenu.trans hm) (by rwa [hcall])
  | withdrawn hpc ha hm hquiet =>
      exact .withdrawn (by rwa [hcall]) (haction.trans ha) (hmenu.trans hm) (by rwa [hcall])

theorem Orderly.congr (h : s.Orderly) (hcalls : s'.calls = s.calls)
    (haction : s'.mainMenuAction = s.mainMenuAction) (hmenu : s'.menu = s.menu)
    (hclosing : s'.closing = s.closing) (hcoming : s.Coming → s'.Coming) : s'.Orderly := by
  cases h with
  | empty hrest ha hm =>
      exact .empty (by rwa [hcalls]) (haction.trans ha) (hmenu.trans hm)
  | one c hlife hactive hrest =>
      exact .one c (by rwa [hcalls])
        (hactive.congr (congrFun hcalls c) haction hmenu hclosing hcoming) (by rwa [hcalls])

theorem Orderly.rest (h : s.Orderly) (hd : (s.calls d).Rest) (hrest : (f (s.calls d)).Rest)
    (hcalls : s'.calls = (s.modify d f).calls) (haction : s'.mainMenuAction = s.mainMenuAction)
    (hmenu : s'.menu = s.menu) (hclosing : s'.closing = s.closing)
    (hcoming : s.Coming → s'.Coming) : s'.Orderly := by
  have hall : ∀ e, (s.calls e).Rest → (s'.calls e).Rest := by
    intro e he
    rw [hcalls]
    by_cases hed : e = d
    · rw [hed, modify_self]
      exact hrest
    · rwa [modify_other hed]
  cases h with
  | empty hquiet ha hm =>
      exact .empty (fun e => hall e (hquiet e)) (haction.trans ha) (hmenu.trans hm)
  | one c hlife hactive hothers =>
      have hcd : c ≠ d := by
        rintro rfl
        exact hd.not_alive hlife
      have hcall : s'.calls c = s.calls c := by rw [hcalls, modify_other hcd]
      exact .one c (by rwa [hcall]) (hactive.congr hcall haction hmenu hclosing hcoming)
        fun e he => hall e (hothers e he)

theorem orderly_of_active (hothers : ∀ d ≠ c, (s.calls d).Rest)
    (hcalls : s'.calls = (s.modify c f).calls) (hlife : (f (s.calls c)).life = .alive)
    (hactive : s'.Active c) : s'.Orderly := by
  refine .one c (by rwa [hcalls, modify_self]) hactive fun d hd => ?_
  rw [hcalls, modify_other hd]
  exact hothers d hd

theorem orderly_of_setPc (pc : Pc) (hothers : ∀ d ≠ c, (s.calls d).Rest)
    (hlife : (s.calls c).life = .alive) (hcalls : s'.calls = (s.setPc c pc).calls)
    (hactive : s'.Active c) : s'.Orderly :=
  orderly_of_active (f := fun m => { m with pc }) hothers hcalls hlife hactive

theorem orderly_of_rest (hothers : ∀ d ≠ c, (s.calls d).Rest)
    (hcalls : s'.calls = (s.modify c f).calls) (hrest : (f (s.calls c)).Rest)
    (haction : s'.mainMenuAction = none) (hmenu : s'.menu = none) : s'.Orderly := by
  refine .empty (fun d => ?_) haction hmenu
  rw [hcalls]
  by_cases hd : d = c
  · rwa [hd, modify_self]
  · rw [modify_other hd]
    exact hothers d hd

theorem Orderly.rest_or_active (h : s.Orderly) (d : Nat) : (s.calls d).Rest ∨
    (s.calls d).life = .alive ∧ s.Active d ∧ ∀ e ≠ d, (s.calls e).Rest := by
  cases h with
  | empty hrest _ _ => exact .inl (hrest d)
  | one c hlife hactive hrest =>
      by_cases hd : d = c
      · subst hd
        exact .inr ⟨hlife, hactive, hrest⟩
      · exact .inl (hrest d hd)

/-- Only the call with the menu is between the making of it and its reply. -/
theorem Orderly.active_of_pc (h : s.Orderly) {pc : Pc} (hpc : (s.calls d).pc = pc)
    (habsent : pc ≠ .absent) (hchecked : pc ≠ .checked) (hpublished : pc ≠ .published)
    (hreplied : ∀ code, pc ≠ .replied code) :
    (s.calls d).life = .alive ∧ s.Active d ∧ ∀ e ≠ d, (s.calls e).Rest := by
  refine (h.rest_or_active d).resolve_left fun hrest => ?_
  obtain hpc' | hpc' | hpc' | ⟨code, hpc'⟩ := hrest.pc_cases
  · exact habsent (hpc.symm.trans hpc')
  · exact hchecked (hpc.symm.trans hpc')
  · exact hpublished (hpc.symm.trans hpc')
  · exact hreplied code (hpc.symm.trans hpc')

theorem Orderly.rest_of_pc (h : s.Orderly)
    (hpc : (s.calls d).pc = .absent ∨ (s.calls d).pc = .checked) : (s.calls d).Rest := by
  refine (h.rest_or_active d).resolve_right fun ⟨_, hactive, _⟩ => ?_
  cases hactive with
  | created hpc' => obtain hpc | hpc := hpc <;> cases hpc.symm.trans hpc'
  | waiting hpc' =>
      obtain hpc | hpc := hpc
      · obtain hpc' | ⟨hpc', -⟩ := hpc' <;> cases hpc.symm.trans hpc'
      · obtain hpc' | ⟨hpc', -⟩ := hpc' <;> cases hpc.symm.trans hpc'
  | shown hpc' => obtain hpc | hpc := hpc <;> obtain hpc' | hpc' := hpc' <;>
      cases hpc.symm.trans hpc'
  | refused hpc' => obtain hpc | hpc := hpc <;> cases hpc.symm.trans hpc'
  | withdrawn hpc' => obtain hpc | hpc := hpc <;> obtain hpc' | hpc' := hpc' <;>
      cases hpc.symm.trans hpc'

/-- The menu that VDR has is the one of `MainMenuAction`. -/
theorem Orderly.shown (h : s.Orderly) (hmenu : s.menu = some c) :
    (s.calls c).life = .alive ∧
    ((s.calls c).pc = .published ∨ (s.calls c).pc = .replied 250) ∧
      s.mainMenuAction = some c ∧ (s.calls c).Told s.closing ∧
      ∀ d ≠ c, (s.calls d).Rest := by
  cases h with
  | empty _ _ hm => cases hmenu.symm.trans hm
  | one d hlife hactive hrest =>
      cases hactive with
      | shown hpc haction hm htold =>
          obtain rfl : c = d := Option.some.inj (hmenu.symm.trans hm)
          exact ⟨hlife, hpc, haction, htold, hrest⟩
      | created _ _ hm _ => cases hmenu.symm.trans hm
      | waiting _ _ hm _ => cases hmenu.symm.trans hm
      | refused _ _ hm _ => cases hmenu.symm.trans hm
      | withdrawn _ _ hm _ => cases hmenu.symm.trans hm

theorem Active.of_created (h : s.Active c) (hpc : (s.calls c).pc = .created) :
    s.mainMenuAction = none ∧ s.menu = none ∧ (s.calls c).Quiet := by
  cases h with
  | created _ haction hmenu hquiet => exact ⟨haction, hmenu, hquiet⟩
  | waiting hpc' => simp [hpc] at hpc'
  | shown hpc' => simp [hpc] at hpc'
  | refused hpc' => simp [hpc] at hpc'
  | withdrawn hpc' => simp [hpc] at hpc'

/-- A menu that has been published waits for VDR, or VDR has it for a call that somebody else has
made. -/
theorem Active.of_published (h : s.Active c) (hpc : (s.calls c).pc = .published) :
    s.mainMenuAction = some c ∧ (s.menu = none ∧ (s.calls c).Quiet ∨
      s.menu = some c ∧ (s.calls c).Told s.closing) := by
  cases h with
  | waiting _ haction hmenu hquiet => exact ⟨haction, .inl ⟨hmenu, hquiet⟩⟩
  | shown _ haction hmenu htold => exact ⟨haction, .inr ⟨hmenu, htold⟩⟩
  | created hpc' => simp [hpc] at hpc'
  | refused hpc' => simp [hpc] at hpc'
  | withdrawn hpc' => simp [hpc] at hpc'

theorem Active.of_refused (h : s.Active c) (hpc : (s.calls c).pc = .refused) :
    s.mainMenuAction = some c ∧ s.menu = none ∧ (s.calls c).Quiet := by
  cases h with
  | refused _ haction hmenu hquiet => exact ⟨haction, hmenu, hquiet⟩
  | created hpc' => simp [hpc] at hpc'
  | waiting hpc' => simp [hpc] at hpc'
  | shown hpc' => simp [hpc] at hpc'
  | withdrawn hpc' => simp [hpc] at hpc'

theorem Active.of_withdrawn (h : s.Active c)
    (hpc : (s.calls c).pc = .cleared ∨ (s.calls c).pc = .closing) :
    s.mainMenuAction = none ∧ s.menu = none ∧ (s.calls c).Quiet := by
  cases h with
  | withdrawn _ haction hmenu hquiet => exact ⟨haction, hmenu, hquiet⟩
  | created hpc' => simp [hpc'] at hpc
  | waiting hpc' => obtain hpc' | ⟨hpc', -⟩ := hpc' <;> simp [hpc'] at hpc
  | shown hpc' => obtain hpc' | hpc' := hpc' <;> simp [hpc'] at hpc
  | refused hpc' => simp [hpc'] at hpc

/-! ### What a step keeps -/

theorem Orderly.call (h : s.Orderly) (hpc : (s.calls c).pc = .absent) (title : Bytes)
    (items : List Bytes) : (s.after (.call c title items)).Orderly := by
  refine h.rest (h.rest_of_pc (.inl hpc)) ?_ rfl rfl rfl rfl id
  refine .unmade rfl ⟨rfl, rfl⟩ (.inr ?_)
  dsimp only
  split_ifs with hopen hitems
  · exact .inr ⟨550, by decide, rfl⟩
  · exact .inr ⟨501, by decide, rfl⟩
  · exact .inl rfl

theorem Orderly.create (h : s.Orderly) (hpc : (s.calls c).pc = .checked)
    (hnone : ∀ d, (s.calls d).life ≠ .alive) : (s.after (.create c)).Orderly := by
  cases h with
  | empty hrest haction hmenu =>
      have hquiet := (hrest c).quiet_of_checked hpc
      refine orderly_of_active (fun d _ => hrest d) rfl rfl (.created ?_ haction hmenu ?_)
      · simp [after]
      · simpa [after] using ⟨hquiet.chosen, hquiet.signals⟩
  | one d hlife _ _ => exact absurd hlife (hnone d)

theorem Orderly.publish (h : s.Orderly) (hpc : (s.calls c).pc = .created) :
    (s.after (.publish c)).Orderly := by
  obtain ⟨hlife, hactive, hothers⟩ :=
    h.active_of_pc hpc (by simp) (by simp) (by simp) (by simp)
  obtain ⟨-, hmenu, hquiet⟩ := hactive.of_created hpc
  refine orderly_of_setPc .published hothers hlife rfl (.waiting (.inl ?_) rfl hmenu ?_)
  · simp [after]
  · simpa [after] using hquiet.setPc .published

theorem Orderly.callPlugin_called (h : s.Orderly) (hpc : (s.calls c).pc = .published) :
    State.Orderly { s.setPc c (.replied 250) with pending := some true } := by
  have hcoming : State.Coming { s.setPc c (.replied 250) with pending := some true } := .inl rfl
  obtain hrest | ⟨hlife, hactive, hothers⟩ := h.rest_or_active c
  · -- VDR has had the menu already, for a call that somebody else has made.
    obtain ⟨hdead, hanswered⟩ := hrest.answered_of_published hpc
    exact h.rest (f := fun m => { m with pc := .replied 250 }) hrest
      (.answered hdead hanswered (.inr rfl)) rfl rfl rfl rfl fun _ => hcoming
  · refine orderly_of_setPc (.replied 250) hothers hlife rfl ?_
    obtain ⟨haction, ⟨hmenu, hquiet⟩ | ⟨hmenu, htold⟩⟩ := hactive.of_published hpc
    · refine .waiting (.inr ⟨?_, hcoming⟩) haction hmenu ?_
      · simp
      · simpa using hquiet.setPc (.replied 250)
    · refine .shown (.inr ?_) haction hmenu ?_
      · simp
      · simpa using htold.setPc (.replied 250)

theorem Orderly.callPlugin_refused (h : s.Orderly) (hpc : (s.calls c).pc = .published)
    (hlife : (s.calls c).life = .alive) (hnot : s.menu ≠ some c) :
    (s.setPc c .refused).Orderly := by
  obtain ⟨-, hactive, hothers⟩ := (h.rest_or_active c).resolve_left fun hrest =>
    hrest.not_alive hlife
  apply orderly_of_setPc .refused hothers hlife rfl
  obtain ⟨haction, ⟨hmenu, hquiet⟩ | ⟨hmenu, -⟩⟩ := hactive.of_published hpc
  · refine .refused ?_ haction hmenu ?_
    · simp
    · simpa using hquiet.setPc .refused
  · exact absurd hmenu hnot

theorem Orderly.callPlugin (h : s.Orderly) (hpc : (s.calls c).pc = .published)
    (hcalled : s.pending ≠ none → s.menu ≠ some c ∧ (s.calls c).life = .alive) :
    (s.after (.callPlugin c)).Orderly := by
  rw [after_callPlugin]
  split_ifs with hpending
  · exact h.callPlugin_called hpc
  · obtain ⟨hnot, hlife⟩ := hcalled hpending
    exact h.callPlugin_refused hpc hlife hnot

theorem Orderly.clear (h : s.Orderly) (hpc : (s.calls c).pc = .refused) :
    (s.after (.clear c)).Orderly := by
  obtain ⟨hlife, hactive, hothers⟩ :=
    h.active_of_pc hpc (by simp) (by simp) (by simp) (by simp)
  obtain ⟨-, hmenu, hquiet⟩ := hactive.of_refused hpc
  refine orderly_of_setPc .cleared hothers hlife rfl (.withdrawn (.inl ?_) rfl hmenu ?_)
  · simp [after]
  · simpa [after] using hquiet.setPc .cleared

theorem Orderly.deleteEnter (h : s.Orderly) (hpc : (s.calls c).pc = .cleared) :
    (s.after (.deleteEnter c)).Orderly := by
  obtain ⟨hlife, hactive, hothers⟩ :=
    h.active_of_pc hpc (by simp) (by simp) (by simp) (by simp)
  obtain ⟨haction, hmenu, hquiet⟩ := hactive.of_withdrawn (.inl hpc)
  have hsilent : s.sendUnlessSelected c = s := by
    simp [sendUnlessSelected, sendSelectedItem, haction]
  rw [after, hsilent]
  refine orderly_of_setPc .closing hothers hlife rfl (.withdrawn (.inr ?_) haction hmenu ?_)
  · simp
  · simpa using hquiet.setPc .closing

theorem Orderly.deleteEnd (h : s.Orderly) (hpc : (s.calls c).pc = .closing) :
    (s.after (.deleteEnd c)).Orderly := by
  obtain ⟨-, hactive, hothers⟩ :=
    h.active_of_pc hpc (by simp) (by simp) (by simp) (by simp)
  obtain ⟨haction, hmenu, hquiet⟩ := hactive.of_withdrawn (.inr hpc)
  refine orderly_of_rest (f := fun m => { m with life := .deleted, pc := .replied 550 }) hothers
    ?_ ?_ rfl hmenu
  · simp [after, endMenu, setPc, modify]
  · exact .failed rfl ⟨hquiet.chosen, hquiet.signals⟩ ⟨550, by decide, rfl⟩

theorem Orderly.take (h : s.Orderly) (htaken : s.taken = none) : (s.after .take).Orderly := by
  refine h.congr rfl rfl rfl rfl fun hcoming => .inr (hcoming.resolve_right ?_)
  simp [htaken]

theorem Orderly.otherCall (h : s.Orderly) (hpending : s.pending = none) (ours : Bool) :
    (s.after (.otherCall ours)).Orderly := by
  refine h.congr rfl rfl rfl rfl fun hcoming => .inr (hcoming.resolve_left ?_)
  simp [hpending]

/-! ### What a step of the menu keeps -/

theorem Orderly.select (h : s.Orderly) (hclosing : s.closing = none) (hmenu : s.menu = some c)
    {item : Nat} (hitem : item < (s.calls c).items.length) :
    (s.after (.select item)).Orderly := by
  obtain ⟨hlife, hpc, haction, htold, hothers⟩ := h.shown hmenu
  rw [hclosing] at htold
  have hafter : s.after (.select item) =
      { s.modify c fun m => { m with
          chosen := some item, signals := m.signals ++ [(m.title, (item : Int))] } with
        closing := some .entered } := by
    simp [after, hmenu, sendSelectedItem, modify, haction]
  rw [hafter]
  refine orderly_of_active (f := fun m => { m with
    chosen := some item, signals := m.signals ++ [(m.title, (item : Int))] }) hothers rfl hlife
    (.shown ?_ haction hmenu ?_)
  · simpa using hpc
  · simpa [Call.Told, Call.answer, htold.signals] using hitem

theorem Orderly.close (h : s.Orderly) (hclosing : s.closing = none) (hmenu : s.menu = some c) :
    (s.after .close).Orderly := by
  obtain ⟨hlife, hpc, haction, htold, hothers⟩ := h.shown hmenu
  rw [hclosing] at htold
  refine .one c hlife (.shown hpc haction hmenu ?_) hothers
  simp [after, Call.Told, htold.signals, htold.chosen]

/-- The destructor leaves a menu that has sent its signal. -/
theorem Orderly.closeSend (h : s.Orderly) (hclosing : s.closing = some .entered)
    (hmenu : s.menu = some c) : (s.after .closeSend).Orderly := by
  obtain ⟨hlife, hpc, haction, htold, hothers⟩ := h.shown hmenu
  rw [hclosing] at htold
  obtain ⟨hsignals, hitem⟩ := htold
  have hafter : s.after .closeSend = { s.sendUnlessSelected c with closing := some .sent } := by
    simp [after, hmenu]
  rw [hafter]
  by_cases hchosen : (s.calls c).chosen = none
  · have hsend : s.sendUnlessSelected c =
        s.modify c fun m => { m with signals := m.signals ++ [(m.title, -1)] } := by
      simp [sendUnlessSelected, sendSelectedItem, hchosen, haction]
    rw [hsend]
    refine orderly_of_active (f := fun m => { m with
      signals := m.signals ++ [(m.title, -1)] }) hothers rfl hlife (.shown ?_ haction hmenu ?_)
    · simpa using hpc
    · rw [if_pos hchosen] at hsignals
      simp [Call.Told, Call.Answered, Call.answer, hsignals, hchosen]
  · have hsend : s.sendUnlessSelected c = s := by simp [sendUnlessSelected, hchosen]
    rw [hsend]
    rw [if_neg hchosen] at hsignals
    exact .one c hlife (.shown hpc haction hmenu ⟨hsignals, hitem⟩) hothers

theorem Orderly.closeEnd (h : s.Orderly) (hclosing : s.closing = some .sent)
    (hmenu : s.menu = some c) : (s.after .closeEnd).Orderly := by
  obtain ⟨-, hpc, -, htold, hothers⟩ := h.shown hmenu
  rw [hclosing] at htold
  have hafter : s.after .closeEnd = { s.endMenu c with menu := none, closing := none } := by
    simp [after, hmenu]
  rw [hafter]
  exact orderly_of_rest (f := fun m => { m with life := .deleted }) hothers rfl
    (.answered rfl htold hpc) rfl rfl

theorem after_fetch_of_none (haction : s.mainMenuAction = none) :
    s.after .fetch = { s with taken := none, menu := none } := by
  simp [after, haction]

theorem Orderly.fetch (h : s.Orderly) (hclosing : s.closing = none) (hmenu : s.menu = none)
    (hfetched : s.taken = some true → ∀ c ∈ s.mainMenuAction, (s.calls c).pc ≠ .refused) :
    (s.after .fetch).Orderly := by
  cases h with
  | empty hrest haction _ =>
      rw [after_fetch_of_none haction]
      exact .empty hrest haction rfl
  | one c hlife hactive hothers =>
      refine .one c hlife ?_ hothers
      cases hactive with
      | created hpc haction _ hquiet =>
          rw [after_fetch_of_none haction]
          exact .created hpc haction rfl hquiet
      | withdrawn hpc haction _ hquiet =>
          rw [after_fetch_of_none haction]
          exact .withdrawn hpc haction rfl hquiet
      | shown _ _ hmenu' _ => cases hmenu.symm.trans hmenu'
      | waiting hpc haction _ hquiet =>
          by_cases hours : s.taken = some true
          · have hafter : s.after .fetch = { s with taken := none, menu := some c } := by
              simp [after, hours, haction]
            rw [hafter]
            refine .shown (hpc.imp_right And.left) haction rfl ?_
            rw [hclosing]
            exact hquiet
          · -- VDR calls another plugin, and the call of this one is still to be taken.
            have hafter : s.after .fetch = { s with taken := none, menu := none } := by
              simp [after, hours]
            rw [hafter]
            exact .waiting (hpc.imp_right fun h =>
              ⟨h.1, .inl (h.2.resolve_right hours)⟩) haction
              rfl hquiet
      | refused hpc haction _ hquiet =>
          have hothers' : s.taken ≠ some true := fun hours => hfetched hours c haction hpc
          have hafter : s.after .fetch = { s with taken := none, menu := none } := by
            simp [after, hothers']
          rw [hafter]
          exact .refused hpc haction rfl hquiet

/-! ### Answered once -/

structure Invariant (s : State) : Prop where
  orderly : s.Orderly
  closed : s.menu = none → s.closing = none

theorem invariant_empty : Invariant {} where
  orderly := .empty (fun _ => .unmade rfl ⟨rfl, rfl⟩ (.inl rfl)) rfl rfl
  closed := fun _ => rfl

theorem sendUnlessSelected_menu : (s.sendUnlessSelected c).menu = s.menu := by
  unfold sendUnlessSelected sendSelectedItem
  split_ifs <;> rfl

theorem sendUnlessSelected_closing : (s.sendUnlessSelected c).closing = s.closing := by
  unfold sendUnlessSelected sendSelectedItem
  split_ifs <;> rfl

theorem Orderly.after {e : Event} (h : s.Orderly) (hclosed : s.menu = none → s.closing = none)
    (henabled : s.Enabled e) (hexclusive : s.Exclusive e) : (s.after e).Orderly := by
  cases e with
  | call c title items => exact h.call henabled title items
  | create c => exact h.create henabled hexclusive
  | publish c => exact h.publish henabled
  | callPlugin c => exact h.callPlugin henabled hexclusive
  | clear c => exact h.clear henabled
  | deleteEnter c => exact h.deleteEnter henabled
  | deleteEnd c => exact h.deleteEnd henabled
  | otherCall ours => exact h.otherCall henabled ours
  | take => exact h.take henabled.2.1
  | select item =>
      obtain ⟨-, hclosing, c, hmenu, hitem⟩ := henabled
      exact h.select hclosing hmenu hitem
  | close =>
      obtain ⟨c, hmenu⟩ := Option.ne_none_iff_exists'.mp henabled.2
      exact h.close henabled.1 hmenu
  | closeSend =>
      obtain ⟨c, hmenu⟩ := Option.ne_none_iff_exists'.mp henabled.2
      exact h.closeSend henabled.1 hmenu
  | closeEnd =>
      obtain ⟨c, hmenu⟩ := Option.ne_none_iff_exists'.mp henabled.2
      exact h.closeEnd henabled.1 hmenu
  | fetch => exact h.fetch (hclosed henabled.2) henabled.2 hexclusive

theorem closed_after {e : Event} (h : s.menu = none → s.closing = none) (henabled : s.Enabled e)
    (hmenu : (s.after e).menu = none) : (s.after e).closing = none := by
  cases e with
  | call c title items => exact h hmenu
  | create c => exact h hmenu
  | publish c => exact h hmenu
  | callPlugin c =>
      rw [after_callPlugin] at hmenu ⊢
      split_ifs at hmenu ⊢ <;> exact h hmenu
  | clear c => exact h hmenu
  | deleteEnter c =>
      have hshut : s.menu = none := sendUnlessSelected_menu.symm.trans hmenu
      calc (s.after (.deleteEnter c)).closing
          = s.closing := sendUnlessSelected_closing
        _ = none := h hshut
  | deleteEnd c => exact h hmenu
  | otherCall ours => exact h hmenu
  | take => exact h hmenu
  | select item =>
      obtain ⟨-, -, c, hopen, -⟩ := henabled
      have hopen : s.menu = some c := hopen
      simp only [State.after, hopen, sendSelectedItem] at hmenu
      split_ifs at hmenu <;> cases hopen.symm.trans hmenu
  | close => exact absurd hmenu henabled.2
  | closeSend =>
      obtain ⟨c, hopen⟩ := Option.ne_none_iff_exists'.mp henabled.2
      simp only [State.after, hopen] at hmenu
      have hstill : (s.sendUnlessSelected c).menu = some c := sendUnlessSelected_menu.trans hopen
      cases hstill.symm.trans hmenu
  | closeEnd =>
      obtain ⟨c, hopen⟩ := Option.ne_none_iff_exists'.mp henabled.2
      simp [State.after, hopen]
  | fetch => exact h henabled.2

theorem Orderly.answeredOnce (h : s.Orderly) : s.AnsweredOnce where
  one c d hc hd := by
    obtain hrest | ⟨-, -, hothers⟩ := h.rest_or_active c
    · exact absurd hc hrest.not_alive
    · by_contra hne
      exact (hothers d (Ne.symm hne)).not_alive hd
  granted c hpc := by
    obtain hrest | ⟨hlife, hactive, -⟩ := h.rest_or_active c
    · exact .inr (hrest.answered_of_granted hpc)
    · refine .inl ⟨hlife, ?_⟩
      cases hactive with
      | waiting hpc' haction _ _ =>
          obtain hpc' | ⟨-, hcoming⟩ := hpc'
          · cases hpc.symm.trans hpc'
          · exact .inr ⟨haction, hcoming⟩
      | shown _ _ hmenu _ => exact .inl hmenu
      | created hpc' => cases hpc.symm.trans hpc'
      | refused hpc' => cases hpc.symm.trans hpc'
      | withdrawn hpc' => simp [hpc] at hpc'
  failed c hpc := by
    obtain hrest | ⟨-, hactive, -⟩ := h.rest_or_active c
    · exact ⟨hrest.quiet_of_failed hpc, fun hmenu => hrest.not_alive (h.shown hmenu).1⟩
    · cases hactive with
      | refused _ _ hmenu hquiet => exact ⟨hquiet.signals, by simp [hmenu]⟩
      | withdrawn _ _ hmenu hquiet => exact ⟨hquiet.signals, by simp [hmenu]⟩
      | created hpc' => simp [hpc', Pc.failed] at hpc
      | waiting hpc' => obtain hpc' | ⟨hpc', -⟩ := hpc' <;> simp [hpc', Pc.failed] at hpc
      | shown hpc' => obtain hpc' | hpc' := hpc' <;> simp [hpc', Pc.failed] at hpc

/-- A second menu, or one that VDR shows while its call fails. -/
theorem Orderly.not_answeredOnce {e : Event} (h : s.Orderly) (henabled : s.Enabled e)
    (hnot : ¬ s.Exclusive e) : ¬ (s.after e).AnsweredOnce := by
  intro honce
  cases e with
  | create c =>
      obtain ⟨d, hd⟩ : ∃ d, (s.calls d).life = .alive := by simpa [Exclusive] using hnot
      have hne : d ≠ c := by
        rintro rfl
        exact (h.rest_of_pc (.inr henabled)).not_alive hd
      refine hne (honce.one d c ?_ ?_)
      · simpa [State.after, modify_other hne] using hd
      · simp [State.after]
  | callPlugin c =>
      obtain ⟨hpending, hfetched⟩ : s.pending ≠ none ∧
          ¬ (s.menu ≠ some c ∧ (s.calls c).life = .alive) := by
        simpa only [Exclusive, Classical.not_imp] using hnot
      rw [after_callPlugin, if_neg hpending] at honce
      obtain ⟨hsignals, hmenu⟩ := honce.failed c (by simp [setPc, Pc.failed])
      obtain hrest | ⟨hlife, -, -⟩ := h.rest_or_active c
      · have hanswered := (hrest.answered_of_published henabled).2.1
        simp [setPc, hanswered] at hsignals
      · exact hfetched ⟨hmenu, hlife⟩
  | fetch =>
      obtain ⟨hours, c, haction, hpc⟩ : s.taken = some true ∧
          ∃ c ∈ s.mainMenuAction, (s.calls c).pc = .refused := by
        simpa [Exclusive] using hnot
      have hfailed : ((s.after .fetch).calls c).pc.failed := by
        change (s.calls c).pc.failed
        rw [hpc]
        rfl
      refine (honce.failed c hfailed).2 ?_
      simpa [State.after, hours] using haction
  | _ => exact hnot trivial

/-- **Exactly once.** In a run all menus are answered once exactly if no menu is made while there is
another, and none is fetched whose call fails. -/
theorem answeredOnce_iff {s' : State} {es : List Event} (hrun : run step {} es = some s') :
    Throughout step AnsweredOnce {} es ↔ Along step Exclusive {} es := by
  refine throughout_iff_along_of_kept (I := Invariant) ?_ ?_ ?_ hrun invariant_empty
  · intro s e s' hinv hexclusive hstep
    obtain ⟨henabled, rfl⟩ := step_eq_some.mp hstep
    exact ⟨hinv.orderly.after hinv.closed henabled hexclusive,
      closed_after hinv.closed henabled⟩
  · intro s hinv
    exact hinv.orderly.answeredOnce
  · intro s e s' hinv hnot hstep
    obtain ⟨henabled, rfl⟩ := step_eq_some.mp hstep
    exact hinv.orderly.not_answeredOnce henabled hnot

/-- The second of two items is selected. -/
def answered : List Event :=
  [.call 0 [77] [[97], [98]], .create 0, .publish 0, .callPlugin 0, .take, .fetch, .select 1,
    .closeSend, .closeEnd]

theorem answeredOnce_iff_answered : (run step {} answered).isSome ∧
    (Throughout step AnsweredOnce {} answered ↔ Along step Exclusive {} answered) :=
  ⟨by decide, answeredOnce_iff (Option.eq_some_of_isSome (by decide))⟩

/-- Both calls find `MainMenuAction` to be `NULL`. VDR is going to call the plugin for the first,
the second one fails and withdraws the menu that is there now, its own. -/
def twoAtATime : List Event :=
  [.call 0 [77] [[97]], .call 1 [78] [[98]], .create 0, .create 1, .publish 0, .callPlugin 0,
    .publish 1, .callPlugin 1, .clear 1, .deleteEnter 1, .deleteEnd 1, .take, .fetch]

/-- The first call has replied 250, and nobody has its menu. -/
theorem not_forall_answeredOnce :
    ¬ ∀ es s, run step {} es = some s → Throughout step AnsweredOnce {} es := by
  intro h
  have hrun : (run step {} twoAtATime).isSome := by decide
  obtain ⟨s, hs⟩ := Option.isSome_iff_exists.mp hrun
  have hfacts : ∀ s ∈ run step {} twoAtATime, (s.calls 0).pc = .replied 250 ∧
      (s.calls 0).life = .alive ∧ s.menu = none ∧ s.mainMenuAction = none := by
    decide
  obtain ⟨hpc, halive, hmenu, haction⟩ := hfacts s hs
  obtain ⟨-, hthere | ⟨hthere, -⟩⟩ | ⟨hdeleted, -⟩ :=
    ((h twoAtATime s hs).last hs).granted 0 hpc
  · cases hmenu.symm.trans hthere
  · cases haction.symm.trans hthere
  · cases halive.symm.trans hdeleted

end State

end Dbus2vdr.AskUser

import Dbus2vdr.Setup.Store

/-!
# The log level of the plugin

`ParseSysLogLevel` takes a level and, behind a dot, the number of a syslog facility. It stores the
level before it looks at what is behind the dot, and compares numbers that `atoi` has made fit an
`int`: `exactAndAtomic_iff` says which arguments it therefore gets right.
-/

namespace Dbus2vdr

/-- `dbus2vdr_SysLogLevel` and `dbus2vdr_SysLogTarget` -/
structure SysLog where
  level : Int
  target : Int
  deriving DecidableEq, Repr

namespace SysLog

open SetupLine (dot)

def logUser : Int := 1 * 8

/-- `LOG_LOCAL0` to `LOG_LOCAL7`, by their index in `targets`. -/
def logLocal (l : Int) : Int := (16 + l) * 8

def start : SysLog := ⟨1, logUser⟩

/-- `isnumber(s)`, and `atoi(s)` is between 0 and `n`. -/
def UpTo (n : Int) (s : Bytes) : Prop := isnumber s ∧ 0 ≤ atoi s ∧ atoi s ≤ n

instance decidableUpTo (n : Int) (s : Bytes) : Decidable (UpTo n s) :=
  inferInstanceAs (Decidable (isnumber s ∧ 0 ≤ atoi s ∧ atoi s ≤ n))

/-- What is in front of the first dot. -/
def first (arg : Bytes) : Bytes := arg.takeWhile (· ≠ dot)

/-- `p + 1`, without a value when there is no dot. -/
def second (arg : Bytes) : Option Bytes :=
  match arg.dropWhile (· ≠ dot) with
  | [] => none
  | _ :: rest => some rest

def parseSysLogLevel (s : SysLog) : Option Bytes → Bool × SysLog
  | none => (false, s)
  | some arg =>
      if UpTo 4 (first arg) then
        let s := { s with level := atoi (first arg) }
        match second arg with
        | none => (true, s)
        | some rest =>
            if UpTo 7 rest then (true, { s with target := logLocal (atoi rest) })
            else (false, s)
      else (false, s)

/-- `SVDRPCommand("SetSysLogLevel", option)` with its reply code and its reply. -/
def setSysLogLevel (s : SysLog) (option : Option Bytes) : SysLog × Int × Bytes :=
  match parseSysLogLevel s option with
  | (true, s) => (s, 900, ascii "SysLogLevel set to " ++ printed option)
  | (false, s) => (s, 501, ascii "unknown SysLogLevel " ++ printed option)

/-! ### What the levels are -/

structure Valid (s : SysLog) : Prop where
  level : 0 ≤ s.level ∧ s.level ≤ 4
  target : s.target = logUser ∨ ∃ l, 0 ≤ l ∧ l ≤ 7 ∧ s.target = logLocal l

theorem valid_start : start.Valid := ⟨by decide, Or.inl rfl⟩

theorem Valid.parseSysLogLevel {s : SysLog} (h : s.Valid) (arg : Option Bytes) :
    (s.parseSysLogLevel arg).2.Valid := by
  cases arg with
  | none => exact h
  | some arg =>
      unfold SysLog.parseSysLogLevel
      dsimp only
      by_cases hfirst : UpTo 4 (first arg)
      · rw [if_pos hfirst]
        cases second arg with
        | none => exact ⟨hfirst.2, h.target⟩
        | some rest =>
            dsimp only
            by_cases hrest : UpTo 7 rest
            · rw [if_pos hrest]
              exact ⟨hfirst.2, Or.inr ⟨atoi rest, hrest.2.1, hrest.2.2, rfl⟩⟩
            · rw [if_neg hrest]
              exact ⟨hfirst.2, h.target⟩
      · rw [if_neg hfirst]
        exact h

/-- Whatever the arguments of the calls are. -/
theorem valid_run (args : List (Option Bytes)) :
    (args.foldl (fun s arg => (s.parseSysLogLevel arg).2) start).Valid := by
  induction args using List.reverseRecOn with
  | nil => exact valid_start
  | append_singleton args arg ih =>
      rw [List.foldl_append]
      exact ih.parseSysLogLevel arg

/-! ### Exact and atomic -/

/-- The arguments that are promised to be taken. -/
inductive Names : Bytes → Nat → Option Nat → Prop
  | level {n : Bytes} : isnumber n → digitsValue n ≤ 4 → Names n (digitsValue n) none
  | target {n m : Bytes} : isnumber n → digitsValue n ≤ 4 → isnumber m →
      digitsValue m ≤ 7 →
      Names (n ++ dot :: m) (digitsValue n) (some (digitsValue m))

structure ExactAndAtomic (s : SysLog) (arg : Bytes) : Prop where
  exact : (s.parseSysLogLevel (some arg)).1 = true ↔ ∃ n m, Names arg n m
  sets : ∀ n m, Names arg n m →
    (s.parseSysLogLevel (some arg)).2 = ⟨n, m.elim s.target fun m => logLocal m⟩
  keeps : (s.parseSysLogLevel (some arg)).1 = false → (s.parseSysLogLevel (some arg)).2 = s

/-- No number that is taken has become one that fits, and a level that is stored and then refused is
the level there was. -/
def Settles (s : SysLog) (arg : Bytes) : Prop :=
  UpTo 4 (first arg) →
    match second arg with
    | none => digitsValue (first arg) ≤ 4
    | some rest =>
        if UpTo 7 rest then digitsValue (first arg) ≤ 4 ∧ digitsValue rest ≤ 7
        else s.level = atoi (first arg)

theorem upTo_of_le {n : Bytes} {k : Int} (hk : k ≤ intMax) (hnumber : isnumber n)
    (hle : digitsValue n ≤ k) : UpTo k n ∧ atoi n = digitsValue n := by
  have hatoi : atoi n = digitsValue n := atoi_of_le (by omega)
  exact ⟨⟨hnumber, by omega, by omega⟩, hatoi⟩

theorem dot_notMem_of_isnumber {n : Bytes} (hnumber : isnumber n) : dot ∉ n := by
  intro hmem
  rw [isnumber, Bool.and_eq_true, List.all_eq_true] at hnumber
  exact absurd (hnumber.2 dot hmem) (by decide)

theorem first_of_isnumber {n : Bytes} (hnumber : isnumber n) : first n = n ∧ second n = none := by
  have hall : ∀ b ∈ n, decide (b ≠ dot) = true := fun b hb =>
    decide_eq_true (ne_of_mem_of_not_mem hb (dot_notMem_of_isnumber hnumber))
  refine ⟨List.takeWhile_eq_self_iff.mpr hall, ?_⟩
  rw [second, List.dropWhile_eq_nil_iff.mpr hall]

theorem first_append_dot {n : Bytes} (hnumber : isnumber n) (m : Bytes) :
    first (n ++ dot :: m) = n ∧ second (n ++ dot :: m) = some m := by
  obtain ⟨htake, hdrop⟩ := takeWhile_ne_append (dot_notMem_of_isnumber hnumber) m
  exact ⟨htake, by rw [second, hdrop]⟩

theorem eq_append_of_second {arg : Bytes} {rest : Option Bytes} (hsecond : second arg = rest) :
    arg = first arg ++ rest.elim [] (dot :: ·) := by
  have hsplit : first arg ++ arg.dropWhile (· ≠ dot) = arg := List.takeWhile_append_dropWhile
  have hhead := List.head?_dropWhile_not (fun b => decide (b ≠ dot)) arg
  unfold second at hsecond
  cases hdrop : arg.dropWhile (· ≠ dot) with
  | nil =>
      rw [hdrop] at hsecond hsplit
      subst hsecond
      exact hsplit.symm
  | cons b m =>
      rw [hdrop] at hsecond hsplit hhead
      subst hsecond
      have hdot : b = dot := not_not.mp (of_decide_eq_false hhead)
      rw [hdot] at hsplit
      exact hsplit.symm

theorem parseSysLogLevel_of_names {arg : Bytes} {n : Nat} {m : Option Nat} (h : Names arg n m)
    (s : SysLog) :
    s.parseSysLogLevel (some arg) = (true, ⟨n, m.elim s.target fun m => logLocal m⟩) := by
  cases h with
  | level hnumber hle =>
      obtain ⟨hfirst, hsecond⟩ := first_of_isnumber hnumber
      obtain ⟨hupto, hatoi⟩ := upTo_of_le (k := 4) (by decide) hnumber (by omega)
      unfold parseSysLogLevel
      dsimp only
      rw [hfirst, hsecond, if_pos hupto, hatoi]
      rfl
  | @target n m hnumber hle hrest hseven =>
      obtain ⟨hfirst, hsecond⟩ := first_append_dot hnumber m
      obtain ⟨hupto, hatoi⟩ := upTo_of_le (k := 4) (by decide) hnumber (by omega)
      obtain ⟨huptoRest, hatoiRest⟩ := upTo_of_le (k := 7) (by decide) hrest (by omega)
      unfold parseSysLogLevel
      dsimp only
      rw [hfirst, hsecond, if_pos hupto, hatoi]
      dsimp only
      rw [if_pos huptoRest, hatoiRest]
      rfl

theorem Names.fits {arg : Bytes} {n : Nat} {m : Option Nat} (h : Names arg n m) :
    digitsValue (first arg) ≤ 4 ∧ ∀ rest ∈ second arg, digitsValue rest ≤ 7 := by
  cases h with
  | level hnumber hle =>
      obtain ⟨hfirst, hsecond⟩ := first_of_isnumber hnumber
      rw [hfirst, hsecond]
      exact ⟨hle, fun rest hrest => (by cases hrest)⟩
  | @target n m hnumber hle hrest hseven =>
      obtain ⟨hfirst, hsecond⟩ := first_append_dot hnumber m
      rw [hfirst, hsecond]
      refine ⟨hle, ?_⟩
      rintro rest ⟨rfl⟩
      exact hseven

/-- A second part that is taken or missing makes the argument one that is promised to be taken, when
both numbers are as small as they seem. -/
theorem names_of_upTo {arg : Bytes} (hfirst : UpTo 4 (first arg))
    (hle : digitsValue (first arg) ≤ 4)
    (hsecond : ∀ rest ∈ second arg, UpTo 7 rest ∧ digitsValue rest ≤ 7) :
    ∃ n m, Names arg n m := by
  cases hrest : second arg with
  | none =>
      have harg := eq_append_of_second hrest
      rw [Option.elim_none, List.append_nil] at harg
      rw [harg]
      exact ⟨_, _, .level hfirst.1 hle⟩
  | some rest =>
      obtain ⟨hupto, hseven⟩ := hsecond rest hrest
      rw [eq_append_of_second hrest]
      exact ⟨_, _, .target hfirst.1 hle hupto.1 hseven⟩

theorem exactAndAtomic_of {s : SysLog} {arg : Bytes}
    (hexact : (s.parseSysLogLevel (some arg)).1 = true → ∃ n m, Names arg n m)
    (hkeeps : (s.parseSysLogLevel (some arg)).1 = false → (s.parseSysLogLevel (some arg)).2 = s) :
    s.ExactAndAtomic arg where
  exact := by
    refine ⟨hexact, ?_⟩
    rintro ⟨n, m, h⟩
    rw [parseSysLogLevel_of_names h]
  sets n m h := by rw [parseSysLogLevel_of_names h]
  keeps := hkeeps

/-- An argument is settled when what is taken is promised to be, and what is refused changes
nothing. -/
theorem settles_iff {s : SysLog} {arg : Bytes} :
    s.Settles arg ↔ ((s.parseSysLogLevel (some arg)).1 = true → ∃ n m, Names arg n m) ∧
      ((s.parseSysLogLevel (some arg)).1 = false → (s.parseSysLogLevel (some arg)).2 = s) := by
  unfold Settles parseSysLogLevel
  dsimp only
  by_cases hfirst : UpTo 4 (first arg)
  · rw [if_pos hfirst, imp_iff_right hfirst]
    cases hsecond : second arg with
    | none =>
        dsimp only
        constructor
        · intro hle
          refine ⟨fun _ => names_of_upTo hfirst hle fun rest hrest => ?_, fun h => (by cases h)⟩
          rw [hsecond] at hrest
          cases hrest
        · intro h
          obtain ⟨n, m, hnamed⟩ := h.1 rfl
          exact hnamed.fits.1
    | some rest =>
        dsimp only
        by_cases hrest : UpTo 7 rest
        · rw [if_pos hrest, if_pos hrest]
          constructor
          · rintro ⟨hle, hseven⟩
            refine ⟨fun _ => names_of_upTo hfirst hle fun other hother => ?_,
              fun h => (by cases h)⟩
            rw [hsecond] at hother
            cases hother
            exact ⟨hrest, hseven⟩
          · intro h
            obtain ⟨n, m, hnamed⟩ := h.1 rfl
            exact ⟨hnamed.fits.1, hnamed.fits.2 rest hsecond⟩
        · rw [if_neg hrest, if_neg hrest]
          constructor
          · intro hlevel
            refine ⟨fun h => (by cases h), fun _ => ?_⟩
            dsimp only
            rw [← hlevel]
          · intro h
            exact (congrArg SysLog.level (h.2 rfl)).symm
  · rw [if_neg hfirst]
    exact iff_of_true (fun h => absurd h hfirst) ⟨fun h => (by cases h), fun _ => rfl⟩

/-- The level is exact and atomic for the arguments that settle it, and for no others. -/
theorem exactAndAtomic_iff {s : SysLog} {arg : Bytes} : s.ExactAndAtomic arg ↔ s.Settles arg := by
  rw [settles_iff]
  exact ⟨fun h => ⟨h.exact.mp, h.keeps⟩, fun h => exactAndAtomic_of h.1 h.2⟩

/-- The command leaves the level alone when it replies that it does not know it. -/
theorem Settles.setSysLogLevel {s : SysLog} {arg : Bytes} (h : s.Settles arg) :
    (s.setSysLogLevel (some arg)).2.1 = 501 → (s.setSysLogLevel (some arg)).1 = s := by
  have hkeeps := (settles_iff.mp h).2
  unfold SysLog.setSysLogLevel
  cases hparsed : s.parseSysLogLevel (some arg) with
  | mk taken t =>
      rw [hparsed] at hkeeps
      cases taken with
      | false => exact fun _ => hkeeps rfl
      | true =>
          intro hcode
          cases (show (900 : Int) = 501 from hcode)

/-- A facility that is refused after the level has been stored, and a number above the range of an
`int`. -/
theorem not_exactAndAtomic_start :
    ¬ start.ExactAndAtomic (ascii "2.9") ∧
      start.parseSysLogLevel (some (ascii "2.9")) = (false, ⟨2, logUser⟩) ∧
      ¬ start.ExactAndAtomic (ascii "4294967296") ∧
      start.parseSysLogLevel (some (ascii "4294967296")) = (true, ⟨0, logUser⟩) := by
  have hstored : start.parseSysLogLevel (some (ascii "2.9")) = (false, ⟨2, logUser⟩) := by
    decide
  have htaken : start.parseSysLogLevel (some (ascii "4294967296")) = (true, ⟨0, logUser⟩) := by
    decide
  refine ⟨fun h => ?_, hstored, fun h => ?_, htaken⟩
  · have hkept := h.keeps (by rw [hstored])
    rw [hstored] at hkept
    cases hkept
  · obtain ⟨n, m, hnamed⟩ := h.exact.mp (by rw [htaken])
    exact absurd hnamed.fits.1 (by decide)

end SysLog

end Dbus2vdr

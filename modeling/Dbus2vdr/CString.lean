import Mathlib.Data.List.Chain
import Mathlib.Data.List.DropRight
import Mathlib.Data.UInt
import Dbus2vdr.Lib.Escape

/-!
# Strings of the VDR tools

The functions of `libvdr-tools.c` and of the C library that the plugin uses on strings. A C string
is the list of its bytes without the terminating NUL; `Option` is used where a pointer may be
`NULL`.
-/

namespace Dbus2vdr

abbrev Bytes := List UInt8

/-- A condition on the bytes of a string is decided by going through the string. -/
instance (priority := 2000) decidableBytes (p : UInt8 → Prop) [DecidablePred p] (s : Bytes) :
    Decidable (∀ c ∈ s, p c) := List.decidableBAll p s

def ascii (s : String) : Bytes := s.toList.map fun c => UInt8.ofNat c.toNat

/-- A buffer read as a C string ends at its first NUL. -/
def cString (buffer : Bytes) : Bytes := buffer.takeWhile (· ≠ 0)

theorem takeWhile_ne_append {s : Bytes} {c : UInt8} (hs : c ∉ s) (rest : Bytes) :
    (s ++ c :: rest).takeWhile (· ≠ c) = s ∧
    (s ++ c :: rest).dropWhile (· ≠ c) = c :: rest := by
  have hall : ∀ b ∈ s, decide (b ≠ c) = true :=
    fun b hb => decide_eq_true (ne_of_mem_of_not_mem hb hs)
  rw [List.takeWhile_append_of_pos hall, List.dropWhile_append_of_pos hall]
  simp

theorem cString_terminated (s rest : Bytes) : cString (s ++ 0 :: rest) = cString s := by
  unfold cString
  induction s with
  | nil => rfl
  | cons c s ih =>
      by_cases hc : c = 0
      · subst hc
        rfl
      · rw [List.cons_append, List.takeWhile_cons_of_pos (by simpa using hc), ih,
          List.takeWhile_cons_of_pos (by simpa using hc)]

theorem cString_append_nul {s : Bytes} (hs : 0 ∉ s) (rest : Bytes) :
    cString (s ++ 0 :: rest) = s :=
  (takeWhile_ne_append hs rest).1

def backslash : UInt8 := 92

/-- `isspace` in the C locale. -/
def isspace (c : UInt8) : Bool := c == 32 || (9 ≤ c && c ≤ 13)

def isdigit (c : UInt8) : Bool := 48 ≤ c && c ≤ 57

def stripspace (s : Bytes) : Bytes := s.rdropWhile isspace

/-- `skipspace` takes every byte up to the blank for a space, the control characters included. -/
def skipspace (s : Bytes) : Bytes := s.dropWhile (· ≤ 32)

/-- The loop of `compactspace`: at every byte, what `skipspace` would skip is cut down to one
byte. -/
def compactLoop : Nat → Bytes → Bytes
  | 0, _ => []
  | _, [] => []
  | fuel + 1, c :: s =>
      let q := skipspace (c :: s)
      c :: compactLoop fuel (if (c :: s).length - q.length > 1 then q else s)

def compactspace (s : Bytes) : Bytes :=
  if s = [] then s
  else
    let t := stripspace (skipspace s)
    compactLoop t.length t

/-- There is no white space at the ends of the string, and nowhere two bytes of it in a row. -/
structure Compact (s : Bytes) : Prop where
  head : ∀ c ∈ s.head?, 32 < c
  last : ∀ c ∈ s.getLast?, ¬ isspace c
  inner : s.IsChain fun c d => 32 < c ∨ 32 < d

/-- `cReadLine::Read` takes the line end off, and a carriage return in front of it. -/
def readLine (buffer : Bytes) : Bytes :=
  if buffer.getLast? = some 10 then
    if buffer.dropLast.getLast? = some 13 then buffer.dropLast.dropLast else buffer.dropLast
  else buffer

def startswith : Bytes → Bytes → Bool
  | _, [] => true
  | [], _ :: _ => false
  | c :: s, d :: p => if d = c then startswith s p else false

/-- `tolower` in the C locale. -/
def tolower (c : UInt8) : UInt8 := if 65 ≤ c ∧ c ≤ 90 then c + 32 else c

/-- `strcasecmp(s, t) == 0` -/
def strcaseeq (s t : Bytes) : Bool := s.map tolower == t.map tolower

theorem strcaseeq_iff {s t : Bytes} : strcaseeq s t ↔ s.map tolower = t.map tolower := beq_iff_eq

theorem strcaseeq_refl (s : Bytes) : strcaseeq s s := strcaseeq_iff.mpr rfl

theorem strcaseeq_comm {s t : Bytes} : strcaseeq s t = strcaseeq t s := BEq.comm

/-- `strcasestr(s, t) != NULL` -/
def strcasestr : Bytes → Bytes → Bool
  | [], t => t.isEmpty
  | c :: s, t => startswith ((c :: s).map tolower) (t.map tolower) || strcasestr s t

theorem startswith_iff {s p : Bytes} : startswith s p ↔ p <+: s := by
  induction p generalizing s with
  | nil => cases s <;> simp [startswith]
  | cons d p ih =>
      cases s with
      | nil => simp [startswith]
      | cons c s =>
          rw [startswith, List.cons_prefix_cons]
          split_ifs with hc
          · rw [ih, and_iff_right hc]
          · simp [hc]

theorem strcasestr_iff {s t : Bytes} : strcasestr s t ↔ t.map tolower <:+: s.map tolower := by
  induction s with
  | nil => simp [strcasestr]
  | cons c s ih =>
      rw [strcasestr, Bool.or_eq_true, startswith_iff, ih, List.map_cons, List.infix_cons_iff]

def endswith (s p : Bytes) : Bool := p.isSuffixOf s

def isnumber (s : Bytes) : Bool := !s.isEmpty && s.all isdigit

/-- `cString::Truncate(-1)` -/
def truncateLast (s : Bytes) : Bytes := s.dropLast

def digitsValue (s : Bytes) : Nat := s.foldl (fun n c => 10 * n + (c.toNat - 48)) 0

def longMax : Int := 2 ^ 63 - 1

def intMax : Int := 2 ^ 31 - 1

/-- `strtol(s, NULL, 10)` of a string of digits stops at `LONG_MAX`. -/
def strtol (s : Bytes) : Int := min (digitsValue s) longMax

/-- A `long` stored in an `int` keeps its low 32 bits. -/
def longToInt (n : Int) : Int := n.bmod (2 ^ 32)

def atoi (s : Bytes) : Int := longToInt (strtol s)

theorem atoi_of_le {s : Bytes} (hfits : digitsValue s ≤ intMax) : atoi s = digitsValue s := by
  have hsmall : strtol s = digitsValue s := by
    unfold strtol longMax
    unfold intMax at hfits
    omega
  unfold intMax at hfits
  rw [atoi, hsmall, longToInt, Int.bmod_eq_of_le (by omega) (by omega)]

def digits (n : Nat) : Bytes := (Nat.toDigits 10 n).map fun c => UInt8.ofNat c.toNat

def decimal : Int → Bytes
  | .ofNat n => digits n
  | .negSucc n => 45 :: digits (n + 1)

/-- What `%s` makes of a pointer that may be `NULL`. -/
def printed (s : Option Bytes) : Bytes := s.getD (ascii "(null)")

theorem isdigit_of_mem_digits {n : Nat} {b : UInt8} (hb : b ∈ digits n) : isdigit b := by
  obtain ⟨c, hc, rfl⟩ := List.mem_map.mp hb
  have hdigit := Nat.isDigit_of_mem_toDigits (by decide) (by decide) hc
  have hval : 48 ≤ c.toNat ∧ c.toNat ≤ 57 := by
    simpa [Char.isDigit, UInt32.le_iff_toNat_le] using hdigit
  have htoNat : (UInt8.ofNat c.toNat).toNat = c.toNat := Nat.mod_eq_of_lt (by omega)
  simp only [isdigit, UInt8.le_iff_toNat_le, htoNat, Bool.and_eq_true, decide_eq_true_eq]
  exact hval

theorem mem_decimal {n : Int} {b : UInt8} (hb : b ∈ decimal n) : b = 45 ∨ isdigit b := by
  cases n with
  | ofNat n => exact Or.inr (isdigit_of_mem_digits hb)
  | negSucc n => exact (List.mem_cons.mp hb).imp_right isdigit_of_mem_digits

theorem digitsValue_digits (n : Nat) : digitsValue (digits n) = n := by
  have hfold : ∀ (cs : List Char) (init : Nat), (∀ c ∈ cs, c.isDigit) →
      (cs.map fun c => UInt8.ofNat c.toNat).foldl (fun n c => 10 * n + (c.toNat - 48)) init =
        Nat.ofDigitChars 10 cs init := by
    intro cs
    induction cs with
    | nil => simp
    | cons c cs ih =>
        intro init hcs
        have hdigit := hcs c List.mem_cons_self
        have hval : c.toNat ≤ 57 := by
          simp only [Char.isDigit, Bool.and_eq_true, decide_eq_true_eq] at hdigit
          simpa [UInt32.le_iff_toNat_le] using hdigit.2
        have htoNat : (UInt8.ofNat c.toNat).toNat = c.toNat := Nat.mod_eq_of_lt (by omega)
        rw [List.map_cons, List.foldl_cons, htoNat, Nat.ofDigitChars_cons,
          ih _ fun c' hc' => hcs c' (List.mem_cons_of_mem c hc')]
        rfl
  rw [digits, digitsValue, hfold _ _ fun c hc =>
    Nat.isDigit_of_mem_toDigits (by decide) (by decide) hc,
    Nat.ofDigitChars_ten_toDigits]

theorem digits_injective : Function.Injective digits := fun m n h => by
  rw [← digitsValue_digits m, h, digitsValue_digits]

theorem decimal_negSucc_ne_digits (m n : Nat) : decimal (.negSucc m) ≠ digits n := by
  intro h
  have hdigit := isdigit_of_mem_digits (n := n) (b := 45) (h ▸ List.mem_cons_self)
  revert hdigit
  decide

theorem decimal_injective : Function.Injective decimal := by
  intro m n h
  cases m with
  | ofNat m =>
      cases n with
      | ofNat n => rw [digits_injective h]
      | negSucc n => exact absurd h.symm (decimal_negSucc_ne_digits n m)
  | negSucc m =>
      cases n with
      | ofNat n => exact absurd h (decimal_negSucc_ne_digits m n)
      | negSucc n =>
          have hdigits := digits_injective (List.cons.inj h).2
          rw [Nat.succ.inj hdigits]

theorem decimal_ne_nil (n : Int) : decimal n ≠ [] := by
  cases n with
  | ofNat n => simp [decimal, digits, Nat.toDigits_ne_nil]
  | negSucc n => exact List.cons_ne_nil _ _

/-- The loop of `strescape`: `done` is what has been read, `t` the new buffer, which is only made
when the first special character is met and then begins with a copy of `done`. -/
def strescapeLoop (chars : Bytes) : Bytes → Bytes → Option Bytes → Bytes
  | [], done, t => t.getD done
  | c :: p, done, t =>
      if c ∈ chars then
        strescapeLoop chars p (done ++ [c]) (some (t.getD done ++ [backslash, c]))
      else strescapeLoop chars p (done ++ [c]) (t.map (· ++ [c]))

def strescape (s chars : Bytes) : Bytes := strescapeLoop chars s [] none

theorem strescapeLoop_some (chars p done t : Bytes) :
    strescapeLoop chars p done (some t) = t ++ Escape.escape backslash chars p := by
  induction p generalizing done t with
  | nil => simp [strescapeLoop]
  | cons c p ih =>
      by_cases hc : c ∈ chars
      · rw [strescapeLoop, if_pos hc, ih, Escape.escape_cons_of_mem hc]
        simp
      · rw [strescapeLoop, if_neg hc, Option.map_some, ih, Escape.escape_cons_of_notMem hc]
        simp

theorem strescape_eq (s chars : Bytes) : strescape s chars = Escape.escape backslash chars s := by
  have hloop : ∀ p done, strescapeLoop chars p done none =
      done ++ Escape.escape backslash chars p := by
    intro p
    induction p with
    | nil => simp [strescapeLoop]
    | cons c p ih =>
        intro done
        by_cases hc : c ∈ chars
        · rw [strescapeLoop, if_pos hc, strescapeLoop_some, Escape.escape_cons_of_mem hc]
          simp
        · rw [strescapeLoop, if_neg hc, Option.map_none, ih, Escape.escape_cons_of_notMem hc]
          simp
  exact hloop s []

end Dbus2vdr

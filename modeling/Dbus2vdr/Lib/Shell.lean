import Mathlib.Data.List.Chain
import Mathlib.Data.UInt
import Dbus2vdr.Lib.Escape
import Dbus2vdr.Lib.Machine

/-!
# How a shell splits a simple command

A machine that reads a command byte by byte and splits it into words by the quoting rules of POSIX.
It refuses what would make the shell do more than that: expansions, command substitution, and
outside of quotes everything that is not an ordinary byte of a word or a blank. What it accepts is
therefore handed over byte by byte.

Inside double quotes a dollar sign that no name, brace, bracket or special parameter follows stands
for itself; the standard leaves this case open, and shells agree on it.
-/

namespace Shell

abbrev Bytes := List UInt8

def tab : UInt8 := 9
def newline : UInt8 := 10
def blank : UInt8 := 32
def dquote : UInt8 := 34
def dollar : UInt8 := 36
def squote : UInt8 := 39
def backslash : UInt8 := 92
def backquote : UInt8 := 96

def IsDigit (b : UInt8) : Prop := 48 ≤ b ∧ b ≤ 57

def IsLetter (b : UInt8) : Prop := (65 ≤ b ∧ b ≤ 90) ∨ (97 ≤ b ∧ b ≤ 122)

instance : DecidablePred IsDigit := fun b => inferInstanceAs (Decidable (48 ≤ b ∧ b ≤ 57))

instance : DecidablePred IsLetter := fun b =>
  inferInstanceAs (Decidable ((65 ≤ b ∧ b ≤ 90) ∨ (97 ≤ b ∧ b ≤ 122)))

/-- Bytes that mean nothing to a shell wherever they stand in a word: digits, letters and
`% + , - . / : @ _`. -/
def IsPlain (b : UInt8) : Prop :=
  IsDigit b ∨ IsLetter b ∨ b ∈ ([37, 43, 44, 45, 46, 47, 58, 64, 95] : Bytes)

/-- What makes a dollar sign before it an expansion: digits, letters, `_`, `{`, `(`, the special
parameters `@ * # ? - $ !`, and `[`, for the old arithmetic of some shells. -/
def StartsExpansion (b : UInt8) : Prop :=
  IsDigit b ∨ IsLetter b ∨ b ∈ ([95, 123, 40, 91, 64, 42, 35, 63, 45, 36, 33] : Bytes)

instance : DecidablePred IsPlain := fun b => inferInstanceAs
  (Decidable (IsDigit b ∨ IsLetter b ∨ b ∈ ([37, 43, 44, 45, 46, 47, 58, 64, 95] : Bytes)))

instance : DecidablePred StartsExpansion := fun b => inferInstanceAs
  (Decidable (IsDigit b ∨ IsLetter b ∨
    b ∈ ([95, 123, 40, 91, 64, 42, 35, 63, 45, 36, 33] : Bytes)))

def escapable : Bytes := [backslash, dquote, dollar, backquote]

inductive Mode where
  | bare
  | escaped
  | single
  | double
  | doubleEscaped
  | doubleDollar
  deriving DecidableEq, Repr

structure Lexer where
  mode : Mode
  words : List Bytes := []
  word : Option Bytes := none
  deriving DecidableEq, Repr

namespace Lexer

def push (s : Lexer) (b : UInt8) : Lexer :=
  { s with word := some (s.word.getD [] ++ [b]) }

def bare (s : Lexer) (b : UInt8) : Option Lexer :=
  if b = blank ∨ b = tab then some { s with words := s.words ++ s.word.toList, word := none }
  else if b = backslash then some { s with mode := .escaped }
  else if b = squote then some { s with mode := .single, word := some (s.word.getD []) }
  else if b = dquote then some { s with mode := .double, word := some (s.word.getD []) }
  else if IsPlain b then some (s.push b)
  else none

def double (s : Lexer) (b : UInt8) : Option Lexer :=
  if b = dquote then some { s with mode := .bare }
  else if b = backslash then some { s with mode := .doubleEscaped }
  else if b = dollar then some { s with mode := .doubleDollar }
  else if b = backquote then none
  else some (s.push b)

def step : Machine.Step Lexer UInt8 := fun s b =>
  match s.mode with
  | .bare => s.bare b
  | .escaped =>
      -- a backslash and a newline are nothing at all
      some (if b = newline then { s with mode := .bare } else { s with mode := .bare }.push b)
  | .single => some (if b = squote then { s with mode := .bare } else s.push b)
  | .double => s.double b
  | .doubleEscaped =>
      let s := { s with mode := .double }
      some (if b ∈ escapable then s.push b
        else if b = newline then s
        else (s.push backslash).push b)
  | .doubleDollar =>
      if StartsExpansion b then none else { s.push dollar with mode := .double }.double b

def finish (s : Lexer) : Option (List Bytes) :=
  if s.mode = .bare then some (s.words ++ s.word.toList) else none

end Lexer

/-- The words of a command, if splitting is all a shell does with it. -/
def split (command : Bytes) : Option (List Bytes) :=
  (Machine.run Lexer.step { mode := .bare } command).bind Lexer.finish

/-! ### Words outside of quotes -/

theorem ne_of_isPlain {b c : UInt8} (hb : IsPlain b) (hc : ¬ IsPlain c) : b ≠ c := by
  rintro rfl
  exact hc hb

theorem bare_of_isPlain (s : Lexer) {b : UInt8} (hb : IsPlain b) : s.bare b = some (s.push b) := by
  have hblank := ne_of_isPlain hb (c := blank) (by decide)
  have htab := ne_of_isPlain hb (c := tab) (by decide)
  have hbackslash := ne_of_isPlain hb (c := backslash) (by decide)
  have hsquote := ne_of_isPlain hb (c := squote) (by decide)
  have hdquote := ne_of_isPlain hb (c := dquote) (by decide)
  simp [Lexer.bare, hblank, htab, hbackslash, hsquote, hdquote, hb]

theorem run_plain (words : List Bytes) (word p : Bytes) (hp : ∀ b ∈ p, IsPlain b) :
    Machine.run Lexer.step ⟨.bare, words, some word⟩ p =
      some ⟨.bare, words, some (word ++ p)⟩ := by
  induction p generalizing word with
  | nil => simp
  | cons b p ih =>
      rw [Machine.run_cons, Lexer.step, bare_of_isPlain _ (hp b List.mem_cons_self)]
      simpa [Lexer.push] using ih (word ++ [b]) fun c hc => hp c (List.mem_cons_of_mem b hc)

theorem run_word (words : List Bytes) {p : Bytes} (hne : p ≠ []) (hp : ∀ b ∈ p, IsPlain b)
    (rest : Bytes) :
    Machine.run Lexer.step ⟨.bare, words, none⟩ (p ++ blank :: rest) =
      Machine.run Lexer.step ⟨.bare, words ++ [p], none⟩ rest := by
  obtain ⟨b, p, rfl⟩ := List.exists_cons_of_ne_nil hne
  have hfirst : Lexer.step ⟨.bare, words, none⟩ b = some ⟨.bare, words, some [b]⟩ := by
    rw [Lexer.step, bare_of_isPlain _ (hp b List.mem_cons_self)]
    rfl
  rw [List.cons_append, Machine.run_cons, hfirst, Option.bind_some, Machine.run_append,
    run_plain _ _ _ fun c hc => hp c (List.mem_cons_of_mem b hc)]
  rfl

theorem run_last_word (words : List Bytes) {p : Bytes} (hne : p ≠ [])
    (hp : ∀ b ∈ p, IsPlain b) :
    (Machine.run Lexer.step ⟨.bare, words, none⟩ p).bind Lexer.finish =
      some (words ++ [p]) := by
  obtain ⟨b, p, rfl⟩ := List.exists_cons_of_ne_nil hne
  have hfirst : Lexer.step ⟨.bare, words, none⟩ b = some ⟨.bare, words, some [b]⟩ := by
    rw [Lexer.step, bare_of_isPlain _ (hp b List.mem_cons_self)]
    rfl
  rw [Machine.run_cons, hfirst, Option.bind_some,
    run_plain _ _ _ fun c hc => hp c (List.mem_cons_of_mem b hc)]
  rfl

/-! ### Escaped text inside double quotes -/

/-- Text that survives double quotes when the bytes `special` in it are escaped: what the shell
would act on is either escaped or does not occur. -/
def Passes (special text : Bytes) : Prop :=
  (backquote ∈ text → backquote ∈ special) ∧
    text.IsChain fun a b => a = dollar → a ∉ special → StartsExpansion b → b ∈ special

instance (special text : Bytes) : Decidable (Passes special text) :=
  inferInstanceAs (Decidable (_ ∧ _))

theorem passes_nil (special : Bytes) : Passes special [] := ⟨by simp, .nil⟩

theorem passes_cons {special text : Bytes} {a : UInt8} :
    Passes special (a :: text) ↔
      (a = backquote → a ∈ special) ∧
      (a = dollar → a ∉ special →
        ∀ b ∈ text.head?, StartsExpansion b → b ∈ special) ∧
      Passes special text := by
  unfold Passes
  rw [List.isChain_cons, List.mem_cons]
  constructor
  · rintro ⟨hback, hhead, hchain⟩
    refine ⟨fun ha => ?_, fun ha hnot b hb => hhead b hb ha hnot, fun h =>
      hback (Or.inr h), hchain⟩
    rw [ha]
    exact hback (Or.inl ha.symm)
  · rintro ⟨hfirst, hhead, hback, hchain⟩
    refine ⟨?_, fun b hb ha hnot => hhead ha hnot b hb, hchain⟩
    rintro (rfl | hmem)
    · exact hfirst rfl
    · exact hback hmem

theorem passes_append {special p text : Bytes}
    (hp : ∀ b ∈ p, b ≠ dollar ∧ b ≠ backquote) :
    Passes special (p ++ text) ↔ Passes special text := by
  induction p with
  | nil => rfl
  | cons a p ih =>
      have ha := hp a List.mem_cons_self
      rw [List.cons_append, passes_cons, ih fun b hb => hp b (List.mem_cons_of_mem a hb)]
      simp [ha]

theorem step_doubleDollar (words : List Bytes) (word : Bytes) {b : UInt8}
    (hb : ¬ StartsExpansion b) :
    Lexer.step ⟨.doubleDollar, words, some word⟩ b =
      Lexer.step ⟨.double, words, some (word ++ [dollar])⟩ b := by
  simp only [Lexer.step, hb, if_false]
  rfl

theorem run_doubleDollar (special : Bytes) (words : List Bytes) (word text rest : Bytes)
    (s : Lexer) :
    Machine.run Lexer.step ⟨.doubleDollar, words, some word⟩
        (Escape.escape backslash special text ++ dquote :: rest) = some s ↔
      (∀ b ∈ text.head?, StartsExpansion b → b ∈ special) ∧
      Machine.run Lexer.step ⟨.double, words, some (word ++ [dollar])⟩
        (Escape.escape backslash special text ++ dquote :: rest) = some s := by
  cases text with
  | nil =>
      simp only [Escape.escape_nil, List.nil_append, Machine.run_cons, List.head?_nil]
      rw [step_doubleDollar _ _ (by decide : ¬ StartsExpansion dquote)]
      simp
  | cons b text =>
      by_cases hb : b ∈ special
      · rw [Escape.escape_cons_of_mem hb, List.cons_append, Machine.run_cons, Machine.run_cons,
          step_doubleDollar _ _ (by decide : ¬ StartsExpansion backslash)]
        simp [hb]
      · rw [Escape.escape_cons_of_notMem hb, List.cons_append, Machine.run_cons, Machine.run_cons]
        by_cases hstarts : StartsExpansion b
        · simp [Lexer.step, hstarts, hb]
        · rw [step_doubleDollar _ _ hstarts]
          simp [hstarts]

theorem run_double_escaped (words : List Bytes) (word rest : Bytes) {a : UInt8}
    (ha : a ∈ escapable) :
    Machine.run Lexer.step ⟨.double, words, some word⟩ (backslash :: a :: rest) =
      Machine.run Lexer.step ⟨.double, words, some (word ++ [a])⟩ rest := by
  have hmark : Lexer.step ⟨.double, words, some word⟩ backslash =
      some ⟨.doubleEscaped, words, some word⟩ := rfl
  have hbyte : Lexer.step ⟨.doubleEscaped, words, some word⟩ a =
      some ⟨.double, words, some (word ++ [a])⟩ := by
    simp [Lexer.step, ha, Lexer.push]
  rw [Machine.run_cons, hmark, Option.bind_some, Machine.run_cons, hbyte, Option.bind_some]

theorem run_double_push (words : List Bytes) (word rest : Bytes) {a : UInt8}
    (ha : a ∉ escapable) :
    Machine.run Lexer.step ⟨.double, words, some word⟩ (a :: rest) =
      Machine.run Lexer.step ⟨.double, words, some (word ++ [a])⟩ rest := by
  simp only [escapable, List.mem_cons, List.not_mem_nil, or_false, not_or] at ha
  have hbyte : Lexer.step ⟨.double, words, some word⟩ a =
      some ⟨.double, words, some (word ++ [a])⟩ := by
    simp [Lexer.step, Lexer.double, Lexer.push, ha]
  rw [Machine.run_cons, hbyte, Option.bind_some]

/-- **Escaped text in double quotes.** Where at least the quote and the backslash are escaped, and
nothing a backslash does not work on, the text between double quotes reaches its word byte by byte
if and only if it passes; otherwise the shell would act on it. -/
theorem run_escape {special : Bytes} (hbackslash : backslash ∈ special)
    (hdquote : dquote ∈ special) (hescapable : ∀ a ∈ special, a ∈ escapable)
    (words : List Bytes) (word text rest : Bytes) (s : Lexer) :
    Machine.run Lexer.step ⟨.double, words, some word⟩
        (Escape.escape backslash special text ++ dquote :: rest) = some s ↔
      Passes special text ∧
      Machine.run Lexer.step ⟨.bare, words, some (word ++ text)⟩ rest = some s := by
  induction text generalizing word with
  | nil =>
      simp only [Escape.escape_nil, List.nil_append, List.append_nil, Machine.run_cons, passes_nil,
        true_and]
      rfl
  | cons a text ih =>
      rw [passes_cons, List.append_cons word a text]
      by_cases ha : a ∈ special
      · rw [Escape.escape_cons_of_mem ha, List.cons_append, List.cons_append,
          run_double_escaped _ _ _ (hescapable a ha), ih]
        simp [ha]
      · rw [Escape.escape_cons_of_notMem ha, List.cons_append]
        by_cases hdollar : a = dollar
        · subst hdollar
          have hstep : Lexer.step ⟨.double, words, some word⟩ dollar =
              some ⟨.doubleDollar, words, some word⟩ := rfl
          rw [Machine.run_cons, hstep, Option.bind_some, run_doubleDollar, ih]
          simp [ha, show dollar ≠ backquote by decide, and_assoc]
        · by_cases hback : a = backquote
          · subst hback
            have hstep : Lexer.step ⟨.double, words, some word⟩ backquote = none := rfl
            rw [Machine.run_cons, hstep]
            simp [ha]
          · have hother : a ∉ escapable := by
              simp only [escapable, List.mem_cons, List.not_mem_nil, or_false, not_or]
              exact ⟨fun h => ha (h ▸ hbackslash), fun h =>
                ha (h ▸ hdquote), hdollar, hback⟩
            rw [run_double_push _ _ _ hother, ih]
            simp [hdollar, hback]

theorem run_quoted {special : Bytes} (hbackslash : backslash ∈ special)
    (hdquote : dquote ∈ special) (hescapable : ∀ a ∈ special, a ∈ escapable)
    (words : List Bytes) (text rest : Bytes) (out : List Bytes) :
    (Machine.run Lexer.step ⟨.bare, words, none⟩
        (dquote :: (Escape.escape backslash special text ++ dquote :: rest))).bind Lexer.finish =
        some out ↔
      Passes special text ∧
      (Machine.run Lexer.step ⟨.bare, words, some text⟩ rest).bind Lexer.finish = some out := by
  have hopen : Lexer.step ⟨.bare, words, none⟩ dquote = some ⟨.double, words, some []⟩ :=
    rfl
  rw [Machine.run_cons, hopen, Option.bind_some, Option.bind_eq_some_iff, Option.bind_eq_some_iff]
  simp only [run_escape hbackslash hdquote hescapable, List.nil_append]
  constructor
  · rintro ⟨s, ⟨hpasses, hrun⟩, hfinish⟩
    exact ⟨hpasses, s, hrun, hfinish⟩
  · rintro ⟨hpasses, s, hrun, hfinish⟩
    exact ⟨s, ⟨hpasses, hrun⟩, hfinish⟩

end Shell

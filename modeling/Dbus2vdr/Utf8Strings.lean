import Dbus2vdr.Helper

/-!
# Strings in UTF-8

VDR's functions for strings take a symbol at a time: as many bytes as the first one announces, if
they follow, and else a single byte. With a character table for the system every byte is a symbol.

`roundTrip` says that converting to an array of symbols and back are inverse to each other, and
`utf8Strn0Cpy_longest` that a copy of limited size has the symbols that fit, and no part of another
one.
-/

namespace Dbus2vdr.Utf8Strings

open Helper (byteAt byteAt_eq_none)
open Utf8 (Continuation WellFormed following)

/-- `SystemToUtf8`, while `systemCharacterTable` is set. -/
abbrev SystemTable := Option (List Nat)

/-! ### Symbols

A string is given by its bytes up to the NUL. Where a function reads behind that, it has no result.
-/

/-- `MT(s + i, m, v) && ...` -/
def maskTests (s : Bytes) : List (Nat × UInt8 × UInt8) → Option Bool
  | [] => some true
  | (i, m, v) :: rest =>
      (byteAt s i).bind fun b => if b &&& m = v then maskTests s rest else some false

def utf8CharLen (table : SystemTable) (s : Bytes) : Option Nat :=
  if table.isSome then some 1
  else
    (maskTests s [(0, 0xE0, 0xC0), (1, 0xC0, 0x80)]).bind fun two =>
      if two then some 2
      else
        (maskTests s [(0, 0xF0, 0xE0), (1, 0xC0, 0x80), (2, 0xC0, 0x80)]).bind fun three =>
          if three then some 3
          else
            (maskTests s [(0, 0xF8, 0xF0), (1, 0xC0, 0x80), (2, 0xC0, 0x80), (3, 0xC0, 0x80)]).bind
              fun four => some (if four then 4 else 1)

/-- A `char` is signed. -/
def charToUint (b : UInt8) : Nat := if b.toNat < 128 then b.toNat else 2 ^ 32 - 256 + b.toNat

def low (b : UInt8) (m : Nat) : Nat := b.toNat &&& m

def utf8CharGet (table : SystemTable) (s : Bytes) (length : Nat) : Option Nat :=
  match table with
  | some systemToUtf8 =>
      (byteAt s 0).map fun b => if b.toNat < 128 then b.toNat
        else systemToUtf8.getD (b.toNat - 128) 0
  | none =>
      (if length = 0 then utf8CharLen none s else some length).bind fun length =>
      (byteAt s 0).bind fun b =>
        match length with
        | 2 => (byteAt s 1).map fun c => low b 0x1F <<< 6 ||| low c 0x3F
        | 3 =>
            (byteAt s 1).bind fun c => (byteAt s 2).map fun d =>
              low b 0x0F <<< 12 ||| low c 0x3F <<< 6 ||| low d 0x3F
        | 4 =>
            (byteAt s 1).bind fun c => (byteAt s 2).bind fun d => (byteAt s 3).map fun e =>
              low b 0x07 <<< 18 ||| low c 0x3F <<< 12 ||| low d 0x3F <<< 6 ||| low e 0x3F
        | _ => some (charToUint b)

/-- The bytes that are written. -/
def utf8CharSet (table : SystemTable) (c : Nat) : Bytes :=
  if c < 0x80 ∨ table.isSome then [UInt8.ofNat c]
  else if c < 0x800 then
    [UInt8.ofNat (c >>> 6 &&& 0x1F ||| 0xC0), UInt8.ofNat (c &&& 0x3F ||| 0x80)]
  else if c < 0x10000 then
    [UInt8.ofNat (c >>> 12 &&& 0x0F ||| 0xE0), UInt8.ofNat (c >>> 6 &&& 0x3F ||| 0x80),
      UInt8.ofNat (c &&& 0x3F ||| 0x80)]
  else if c < 0x110000 then
    [UInt8.ofNat (c >>> 18 &&& 0x07 ||| 0xF0), UInt8.ofNat (c >>> 12 &&& 0x3F ||| 0x80),
      UInt8.ofNat (c >>> 6 &&& 0x3F ||| 0x80), UInt8.ofNat (c &&& 0x3F ||| 0x80)]
  else []

/-! ### Loops over the symbols of a string -/

/-- `s += n` -/
def advance (s : Bytes) (n : Nat) : Option Bytes := if n ≤ s.length then some (s.drop n) else none

def symCharsLoop : Nat → Bytes → Int → Option Nat
  | _, [], _ => some 0
  | 0, _, _ => none
  | fuel + 1, b :: s, symbols =>
      if symbols = 0 then some 0
      else
        (utf8CharLen none (b :: s)).bind fun sl => (advance (b :: s) sl).bind fun rest =>
          (symCharsLoop fuel rest (symbols - 1)).map (sl + ·)

def utf8SymChars (table : SystemTable) (s : Bytes) (symbols : Int) : Option Int :=
  if table.isSome then some symbols else (symCharsLoop s.length s symbols).map (Nat.cast)

def strLenLoop : Nat → Bytes → Option Nat
  | _, [] => some 0
  | 0, _ => none
  | fuel + 1, b :: s =>
      (utf8CharLen none (b :: s)).bind fun sl => (advance (b :: s) sl).bind fun rest =>
        (strLenLoop fuel rest).map (· + 1)

def utf8StrLen (table : SystemTable) (s : Bytes) : Option Nat :=
  if table.isSome then some s.length else strLenLoop s.length s

/-- `strn0cpy`, which takes a number that is not positive for a huge one. -/
def strn0cpy (src : Bytes) (n : Int) : Bytes := if n ≤ 0 then src else src.take (n - 1).toNat

def strn0CpyLoop : Nat → Bytes → Int → Option Bytes
  | _, [], _ => some []
  | 0, _, _ => none
  | fuel + 1, b :: src, n =>
      (utf8CharLen none (b :: src)).bind fun sl =>
        if 0 < n - sl then
          (advance (b :: src) sl).bind fun rest =>
            (strn0CpyLoop fuel rest (n - sl)).map ((b :: src).take sl ++ ·)
        else some []

/-- What is written in front of the NUL. -/
def utf8Strn0Cpy (table : SystemTable) (src : Bytes) (n : Int) : Option Bytes :=
  if table.isSome then some (strn0cpy src n) else strn0CpyLoop src.length src n

/-- An array after a conversion. -/
structure Converted (α : Type) where
  written : List α
  /-- A zero has been put behind them. -/
  terminated : Bool
  deriving DecidableEq, Repr

def toArrayLoop (table : SystemTable) : Nat → Bytes → Int → Option (Converted Nat)
  | _, [], size => some ⟨[], 0 < size⟩
  | 0, _, _ => none
  | fuel + 1, b :: s, size =>
      if 0 < size - 1 then
        if table.isSome then
          (toArrayLoop table fuel s (size - 1)).map fun a =>
            { a with written := b.toNat :: a.written }
        else
          (utf8CharLen table (b :: s)).bind fun sl =>
          (utf8CharGet table (b :: s) sl).bind fun c =>
          (advance (b :: s) sl).bind fun rest =>
            (toArrayLoop table fuel rest (size - 1)).map fun a =>
              { a with written := c :: a.written }
      else some ⟨[], 0 < size - 1⟩

def utf8ToArray (table : SystemTable) (s : Bytes) (size : Int) : Option (Converted Nat) :=
  toArrayLoop table s.length s size

/-- The loop over the array, which is given up to its zero. -/
def fromArrayLoop (table : SystemTable) (size max : Int) :
    List Nat → Int → Int → Converted UInt8
  | [], numChars, _ => ⟨[], numChars < size⟩
  | c :: a, numChars, numSyms =>
      if size ≤ numChars ∨ (0 ≤ max ∧ max ≤ numSyms) then ⟨[], numChars < size⟩
      else
        let bytes := utf8CharSet table c
        if numChars + bytes.length ≤ size then
          let rest := fromArrayLoop table size max a (numChars + bytes.length) (numSyms + 1)
          { rest with written := bytes ++ rest.written }
        else ⟨[], numChars < size⟩

def utf8FromArray (table : SystemTable) (a : List Nat) (size max : Int) : Converted UInt8 :=
  fromArrayLoop table size max a 0 0

/-! ### One symbol -/

theorem lt_of_byteAt {s : Bytes} {i : Nat} {b : UInt8} (h : byteAt s i = some b) (hb : b ≠ 0) :
    i < s.length := by
  by_contra hi
  have hle := Helper.le_of_byteAt h
  obtain rfl : i = s.length := by omega
  rw [byteAt, List.getElem?_concat_length, Option.some.injEq] at h
  exact hb h.symm

theorem exists_byteAt {s : Bytes} {i : Nat} (hi : i ≤ s.length) : ∃ b, byteAt s i = some b := by
  apply Option.ne_none_iff_exists'.mp
  rw [Ne, byteAt_eq_none]
  omega

/-- Tests of bytes in a row stop at the NUL at the latest. -/
theorem exists_maskTests (s : Bytes) (tests : List (Nat × UInt8 × UInt8)) (i : Nat)
    (hrow : tests.map Prod.fst = List.range' i tests.length) (hset : ∀ t ∈ tests, t.2.2 ≠ 0)
    (hi : i ≤ s.length) :
    ∃ r, maskTests s tests = some r ∧ (r = true → i + tests.length ≤ s.length) := by
  induction tests generalizing i with
  | nil => exact ⟨true, rfl, fun _ => hi⟩
  | cons t tests ih =>
      obtain ⟨j, m, v⟩ := t
      rw [List.map_cons, List.length_cons, List.range'_succ, List.cons.injEq] at hrow
      obtain ⟨rfl, hrow⟩ := hrow
      obtain ⟨b, hb⟩ := exists_byteAt hi
      rw [maskTests, hb, Option.bind_some]
      split_ifs with htest
      · have hne : b ≠ 0 := by
          rintro rfl
          apply hset _ List.mem_cons_self
          rw [← htest, UInt8.zero_and]
        have hlt := lt_of_byteAt hb hne
        obtain ⟨r, hr, hlength⟩ :=
          ih _ hrow (fun t ht => hset t (List.mem_cons_of_mem _ ht)) hlt
        refine ⟨r, hr, fun htrue => ?_⟩
        have := hlength htrue
        rw [List.length_cons]
        omega
      · exact ⟨false, rfl, fun h => absurd h (by simp)⟩

theorem exists_charLen {s : Bytes} (hs : s ≠ []) :
    ∃ n, utf8CharLen none s = some n ∧ 0 < n ∧ n ≤ 4 ∧ n ≤ s.length := by
  have hpos : 0 < s.length := List.length_pos_of_ne_nil hs
  obtain ⟨two, htwo, hlen2⟩ :=
    exists_maskTests s [(0, 0xE0, 0xC0), (1, 0xC0, 0x80)] 0 rfl (by decide)
    (Nat.zero_le _)
  obtain ⟨three, hthree, hlen3⟩ := exists_maskTests s
    [(0, 0xF0, 0xE0), (1, 0xC0, 0x80), (2, 0xC0, 0x80)] 0 rfl (by decide) (Nat.zero_le _)
  obtain ⟨four, hfour, hlen4⟩ := exists_maskTests s
    [(0, 0xF8, 0xF0), (1, 0xC0, 0x80), (2, 0xC0, 0x80), (3, 0xC0, 0x80)] 0 rfl (by decide)
    (Nat.zero_le _)
  unfold utf8CharLen
  rw [htwo, hthree, hfour]
  cases two with
  | true => exact ⟨2, rfl, by omega, by omega, hlen2 rfl⟩
  | false =>
      cases three with
      | true => exact ⟨3, rfl, by omega, by omega, hlen3 rfl⟩
      | false =>
          cases four with
          | true => exact ⟨4, rfl, by omega, by omega, hlen4 rfl⟩
          | false => exact ⟨1, rfl, by omega, by omega, hpos⟩

inductive Split : Bytes → List Bytes → Prop
  | nil : Split [] []
  | cons {symbol rest : Bytes} {symbols : List Bytes} (hne : symbol ≠ [])
      (hlen : utf8CharLen none (symbol ++ rest) = some symbol.length) (hrest : Split rest symbols) :
      Split (symbol ++ rest) (symbol :: symbols)

theorem Split.flatten {s : Bytes} {symbols : List Bytes} (h : Split s symbols) :
    symbols.flatten = s := by
  induction h with
  | nil => rfl
  | cons _ _ _ ih => rw [List.flatten_cons, ih]

theorem exists_split (s : Bytes) : ∃ symbols, Split s symbols := by
  induction hn : s.length using Nat.strongRecOn generalizing s with
  | _ n ih =>
      by_cases hs : s = []
      · exact ⟨[], hs ▸ .nil⟩
      · obtain ⟨k, hk, hpos, -, hle⟩ := exists_charLen hs
        have hlength : (s.take k).length = k := List.length_take_of_le hle
        obtain ⟨symbols, hsymbols⟩ :=
          ih (s.drop k).length (by rw [List.length_drop]; omega) _ rfl
        refine ⟨s.take k :: symbols, ?_⟩
        have hcons : Split (s.take k ++ s.drop k) (s.take k :: symbols) := by
          refine .cons ?_ ?_ hsymbols
          · rw [← List.length_pos_iff, hlength]
            exact hpos
          · rw [List.take_append_drop, hlength]
            exact hk
        rwa [List.take_append_drop] at hcons

theorem advance_symbol (symbol rest : Bytes) :
    advance (symbol ++ rest) symbol.length = some rest := by
  rw [advance, if_pos (by rw [List.length_append]; omega), List.drop_left]

theorem cons_of_ne_nil {symbol : Bytes} (hne : symbol ≠ []) (rest : Bytes) :
    ∃ b s, symbol ++ rest = b :: s ∧ rest.length ≤ s.length := by
  obtain ⟨b, s, rfl⟩ := List.exists_cons_of_ne_nil hne
  exact ⟨b, s ++ rest, rfl, by rw [List.length_append]; omega⟩

/-! ### The loops -/

theorem strLenLoop_split {s : Bytes} {symbols : List Bytes} (h : Split s symbols) {fuel : Nat}
    (hfuel : s.length ≤ fuel) : strLenLoop fuel s = some symbols.length := by
  induction h generalizing fuel with
  | nil => cases fuel <;> rfl
  | @cons symbol rest symbols hne hlen hrest ih =>
      obtain ⟨b, t, hcons, hle⟩ := cons_of_ne_nil hne rest
      rw [hcons] at hfuel
      cases fuel with
      | zero => exact absurd hfuel (by simp)
      | succ fuel =>
          have hrest := ih (hle.trans (Nat.le_of_succ_le_succ hfuel))
          rw [hcons, strLenLoop, ← hcons, hlen, Option.bind_some, advance_symbol,
            Option.bind_some, hrest, Option.map_some, List.length_cons]

/-- `Utf8StrLen` -/
theorem utf8StrLen_split {s : Bytes} {symbols : List Bytes} (h : Split s symbols) :
    utf8StrLen none s = some symbols.length := strLenLoop_split h (Nat.le_refl _)

theorem symCharsLoop_split {s : Bytes} {symbols : List Bytes} (h : Split s symbols) {fuel : Nat}
    (hfuel : s.length ≤ fuel) (n : Nat) :
    symCharsLoop fuel s n = some (symbols.take n).flatten.length := by
  induction h generalizing fuel n with
  | nil => cases fuel <;> simp [symCharsLoop]
  | @cons symbol rest symbols hne hlen hrest ih =>
      obtain ⟨b, t, hcons, hle⟩ := cons_of_ne_nil hne rest
      rw [hcons] at hfuel
      cases fuel with
      | zero => exact absurd hfuel (by simp)
      | succ fuel =>
          cases n with
          | zero => rw [hcons, symCharsLoop, if_pos (by rfl)]; rfl
          | succ n =>
              have hrest := ih (hle.trans (Nat.le_of_succ_le_succ hfuel)) n
              have hsub : ((n + 1 : Nat) : Int) - 1 = n := by omega
              rw [hcons, symCharsLoop, if_neg (by omega), ← hcons, hlen, Option.bind_some,
                advance_symbol, Option.bind_some, hsub, hrest, Option.map_some, List.take_succ_cons,
                List.flatten_cons, List.length_append]

/-- `Utf8SymChars` -/
theorem utf8SymChars_split {s : Bytes} {symbols : List Bytes} (h : Split s symbols) (n : Nat) :
    utf8SymChars none s n = some ((symbols.take n).flatten.length : Int) := by
  unfold utf8SymChars
  rw [symCharsLoop_split h (Nat.le_refl _)]
  rfl

/-- What is copied are whole symbols, and as many of them as there is room for. -/
theorem strn0CpyLoop_split {s : Bytes} {symbols : List Bytes} (h : Split s symbols) {fuel : Nat}
    (hfuel : s.length ≤ fuel) {n : Int} (hn : 0 < n) :
    ∃ k, strn0CpyLoop fuel s n = some (symbols.take k).flatten ∧
      (symbols.take k).flatten.length < n ∧
      (k < symbols.length → n ≤ (symbols.take (k + 1)).flatten.length) := by
  induction h generalizing fuel n with
  | nil => exact ⟨0, by cases fuel <;> rfl, hn, fun hlt => absurd hlt (by simp)⟩
  | @cons symbol rest symbols hne hlen hrest ih =>
      obtain ⟨b, t, hcons, hle⟩ := cons_of_ne_nil hne rest
      rw [hcons] at hfuel
      cases fuel with
      | zero => exact absurd hfuel (by simp)
      | succ fuel =>
          rw [hcons, strn0CpyLoop, ← hcons, hlen, Option.bind_some]
          by_cases hroom : 0 < n - symbol.length
          · obtain ⟨k, hk, hlt, hmax⟩ := ih (hle.trans (Nat.le_of_succ_le_succ hfuel)) hroom
            refine ⟨k + 1, ?_, ?_, fun hmore => ?_⟩
            · rw [if_pos hroom, advance_symbol, Option.bind_some, hk, Option.map_some,
                List.take_left, List.take_succ_cons, List.flatten_cons]
            · rw [List.take_succ_cons, List.flatten_cons, List.length_append]
              omega
            · have := hmax (Nat.lt_of_succ_lt_succ hmore)
              rw [List.take_succ_cons, List.flatten_cons, List.length_append]
              omega
          · refine ⟨0, if_neg hroom, hn, fun _ => ?_⟩
            rw [List.take_succ_cons, List.take_zero, List.flatten_cons, List.flatten_nil,
              List.append_nil]
            omega

/-! ### Symbols that have been written -/

theorem or_add {m v : Nat} (n : Nat) (hn : n < m) (h : ∀ x < m, x ||| v = x + v) :
    n ||| v = n + v := h n hn

/-- `utf8CharSet` in terms of the digits of the symbol. -/
theorem utf8CharSet_eq (c : Nat) :
    utf8CharSet none c =
      if c < 0x80 then [UInt8.ofNat c]
      else if c < 0x800 then [UInt8.ofNat (c / 64 % 32 + 0xC0), UInt8.ofNat (c % 64 + 0x80)]
      else if c < 0x10000 then
        [UInt8.ofNat (c / 4096 % 16 + 0xE0), UInt8.ofNat (c / 64 % 64 + 0x80),
          UInt8.ofNat (c % 64 + 0x80)]
      else if c < 0x110000 then
        [UInt8.ofNat (c / 262144 % 8 + 0xF0), UInt8.ofNat (c / 4096 % 64 + 0x80),
          UInt8.ofNat (c / 64 % 64 + 0x80), UInt8.ofNat (c % 64 + 0x80)]
      else [] := by
  have hlow : ∀ n, n &&& 0x3F ||| 0x80 = n % 64 + 0x80 := fun n => by
    rw [show n &&& 0x3F = n % 64 from Nat.and_two_pow_sub_one_eq_mod n 6]
    exact or_add _ (Nat.mod_lt _ (by decide)) (by decide)
  have htwo : ∀ n, n &&& 0x1F ||| 0xC0 = n % 32 + 0xC0 := fun n => by
    rw [show n &&& 0x1F = n % 32 from Nat.and_two_pow_sub_one_eq_mod n 5]
    exact or_add _ (Nat.mod_lt _ (by decide)) (by decide)
  have hthree : ∀ n, n &&& 0x0F ||| 0xE0 = n % 16 + 0xE0 := fun n => by
    rw [show n &&& 0x0F = n % 16 from Nat.and_two_pow_sub_one_eq_mod n 4]
    exact or_add _ (Nat.mod_lt _ (by decide)) (by decide)
  have hfour : ∀ n, n &&& 0x07 ||| 0xF0 = n % 8 + 0xF0 := fun n => by
    rw [show n &&& 0x07 = n % 8 from Nat.and_two_pow_sub_one_eq_mod n 3]
    exact or_add _ (Nat.mod_lt _ (by decide)) (by decide)
  have h6 : c >>> 6 = c / 64 := Nat.shiftRight_eq_div_pow c 6
  have h12 : c >>> 12 = c / 4096 := Nat.shiftRight_eq_div_pow c 12
  have h18 : c >>> 18 = c / 262144 := Nat.shiftRight_eq_div_pow c 18
  unfold utf8CharSet
  simp only [Option.isSome_none, Bool.false_eq_true, or_false, hlow, htwo, hthree, hfour, h6, h12,
    h18]

/-- For a Unicode character, these are its bytes in UTF-8. -/
theorem utf8CharSet_char (c : Char) : utf8CharSet none c.val.toNat = String.utf8EncodeChar c := by
  have hc : c.val.toNat < 0x110000 := by
    have := c.valid
    unfold UInt32.isValidChar Nat.isValidChar at this
    omega
  rw [utf8CharSet_eq]
  unfold String.utf8EncodeChar
  dsimp only
  split_ifs with h1 h1' h1' h2 h2' h2' h3 h3' h3' h4
  all_goals first | rfl | omega

theorem utf8CharSet_shape {c : Nat} (hc : c < 0x110000) :
    ∃ first rest, utf8CharSet none c = first :: rest ∧ following first = some rest.length ∧
      ∀ b ∈ rest, Continuation b := by
  have hlow : ∀ n, Continuation (UInt8.ofNat (n % 64 + 0x80)) := fun n =>
    Utf8.continuation_ofNat (Nat.mod_lt n (by decide))
  rw [utf8CharSet_eq]
  split_ifs with h1 h2 h3
  · exact ⟨_, [], rfl, Utf8.following_zero (by omega), by simp⟩
  · refine ⟨_, _, rfl, Utf8.following_one (Nat.mod_lt _ (by decide)), ?_⟩
    simp only [List.mem_singleton, forall_eq]
    exact hlow _
  · refine ⟨_, _, rfl, Utf8.following_two (Nat.mod_lt _ (by decide)), ?_⟩
    simp only [List.mem_cons, List.not_mem_nil, or_false, forall_eq_or_imp, forall_eq]
    exact ⟨hlow _, hlow _⟩
  · refine ⟨_, _, rfl, Utf8.following_three (Nat.mod_lt _ (by decide)), ?_⟩
    simp only [List.mem_cons, List.not_mem_nil, or_false, forall_eq_or_imp, forall_eq]
    exact ⟨hlow _, hlow _, hlow _⟩

theorem maskTests_cons {s : Bytes} {i : Nat} {m v b : UInt8} (hb : byteAt s i = some b)
    (tests : List (Nat × UInt8 × UInt8)) :
    maskTests s ((i, m, v) :: tests) = if b &&& m = v then maskTests s tests else some false := by
  rw [maskTests, hb, Option.bind_some]

/-- The bytes of a symbol that stand in a string. -/
theorem byteAt_append {symbol tail : Bytes} {i : Nat} {b : UInt8} (h : symbol[i]? = some b) :
    byteAt (symbol ++ tail) i = some b := by
  have hlt := (List.getElem?_eq_some_iff.mp h).1
  rw [byteAt, List.append_assoc, List.getElem?_append_left hlt, h]

theorem not_lead {b m v : UInt8} (hlow : b &&& 0x80 = 0) (hm : m &&& 0x80 = 0x80)
    (hv : v &&& 0x80 = 0x80) : ¬ b &&& m = v := by
  intro h
  have hmask : (b &&& m) &&& 0x80 = 0 := by rw [UInt8.and_assoc, hm, hlow]
  rw [h, hv] at hmask
  exact absurd hmask (by decide)

/-- A symbol is as long as its first byte announces, whatever follows. -/
theorem utf8CharLen_of_shape {first : UInt8} {rest : Bytes}
    (hfollowing : following first = some rest.length) (hrest : ∀ b ∈ rest, Continuation b)
    (tail : Bytes) :
    utf8CharLen none (first :: rest ++ tail) = some (first :: rest).length := by
  have hfirst : byteAt (first :: rest ++ tail) 0 = some first := byteAt_append rfl
  unfold following at hfollowing
  unfold utf8CharLen
  simp only [Option.isSome_none, Bool.false_eq_true, ↓reduceIte]
  rw [maskTests_cons hfirst, maskTests_cons hfirst, maskTests_cons hfirst]
  split_ifs at hfollowing with h0 h1 h2 h3
  · obtain rfl := List.eq_nil_of_length_eq_zero (Option.some.inj hfollowing).symm
    rw [if_neg (not_lead h0 rfl rfl), if_neg (not_lead h0 rfl rfl), if_neg (not_lead h0 rfl rfl)]
    rfl
  · obtain ⟨b, rfl⟩ := List.length_eq_one_iff.mp (Option.some.inj hfollowing).symm
    have hb : byteAt ([first, b] ++ tail) 1 = some b := byteAt_append rfl
    have hcb : b &&& 0xC0 = 0x80 := hrest b (by simp)
    rw [if_pos h1, maskTests_cons hb, if_pos hcb]
    rfl
  · obtain ⟨b, c, rfl⟩ := List.length_eq_two.mp (Option.some.inj hfollowing).symm
    have hb : byteAt ([first, b, c] ++ tail) 1 = some b := byteAt_append rfl
    have hc : byteAt ([first, b, c] ++ tail) 2 = some c := byteAt_append rfl
    have hcb : b &&& 0xC0 = 0x80 := hrest b (by simp)
    have hcc : c &&& 0xC0 = 0x80 := hrest c (by simp)
    rw [if_neg h1, if_pos h2, maskTests_cons hb, if_pos hcb, maskTests_cons hc, if_pos hcc]
    rfl
  · obtain ⟨b, c, d, rfl⟩ := List.length_eq_three.mp (Option.some.inj hfollowing).symm
    have hb : byteAt ([first, b, c, d] ++ tail) 1 = some b := byteAt_append rfl
    have hc : byteAt ([first, b, c, d] ++ tail) 2 = some c := byteAt_append rfl
    have hd : byteAt ([first, b, c, d] ++ tail) 3 = some d := byteAt_append rfl
    have hcb : b &&& 0xC0 = 0x80 := hrest b (by simp)
    have hcc : c &&& 0xC0 = 0x80 := hrest c (by simp)
    have hcd : d &&& 0xC0 = 0x80 := hrest d (by simp)
    rw [if_neg h1, if_neg h2, if_pos h3, maskTests_cons hb, if_pos hcb, maskTests_cons hc,
      if_pos hcc, maskTests_cons hd, if_pos hcd]
    rfl

theorem utf8CharLen_utf8CharSet {c : Nat} (hc : c < 0x110000) (tail : Bytes) :
    utf8CharLen none (utf8CharSet none c ++ tail) = some (utf8CharSet none c).length := by
  obtain ⟨first, rest, hset, hfollowing, hrest⟩ := utf8CharSet_shape hc
  rw [hset]
  exact utf8CharLen_of_shape hfollowing hrest tail

/-! ### What has been written is read -/

theorem low_first {m v x : Nat} (hx : x < m)
    (h : ∀ x < m, (UInt8.ofNat (x + v)).toNat &&& (m - 1) = x) :
    low (UInt8.ofNat (x + v)) (m - 1) = x := h x hx

theorem low_rest (n : Nat) : low (UInt8.ofNat (n % 64 + 0x80)) 0x3F = n % 64 :=
  low_first (Nat.mod_lt n (by decide)) (by decide)

theorem shiftLeft_or {x y k : Nat} (hy : y < 2 ^ k) : x <<< k ||| y = x * 2 ^ k + y := by
  rw [← Nat.shiftLeft_add_eq_or_of_lt hy, Nat.shiftLeft_eq]

theorem charToUint_ofNat {c : Nat} (hc : c < 0x80) : charToUint (UInt8.ofNat c) = c := by
  unfold charToUint
  rw [UInt8.toNat_ofNat', Nat.mod_eq_of_lt (by omega), if_pos hc]

theorem utf8CharGet_utf8CharSet {c : Nat} (hc : c < 0x110000) (tail : Bytes) :
    utf8CharGet none (utf8CharSet none c ++ tail) (utf8CharSet none c).length = some c := by
  rw [utf8CharSet_eq]
  split_ifs with h1 h2 h3
  · exact congrArg some (charToUint_ofNat h1)
  · have hfirst : low (UInt8.ofNat (c / 64 % 32 + 0xC0)) 0x1F = c / 64 % 32 :=
      low_first (Nat.mod_lt _ (by decide)) (by decide)
    change some (low _ 0x1F <<< 6 ||| low _ 0x3F) = some c
    rw [hfirst, low_rest, shiftLeft_or (by omega), Option.some.injEq]
    omega
  · have hfirst : low (UInt8.ofNat (c / 4096 % 16 + 0xE0)) 0x0F = c / 4096 % 16 :=
      low_first (Nat.mod_lt _ (by decide)) (by decide)
    change some (low _ 0x0F <<< 12 ||| low _ 0x3F <<< 6 ||| low _ 0x3F) = some c
    rw [hfirst, low_rest, low_rest, Nat.or_assoc, shiftLeft_or (k := 6) (by omega),
      shiftLeft_or (by omega), Option.some.injEq]
    omega
  · have hfirst : low (UInt8.ofNat (c / 262144 % 8 + 0xF0)) 0x07 = c / 262144 % 8 :=
      low_first (Nat.mod_lt _ (by decide)) (by decide)
    change some (low _ 0x07 <<< 18 ||| low _ 0x3F <<< 12 ||| low _ 0x3F <<< 6 ||| low _ 0x3F) =
      some c
    rw [hfirst, low_rest, low_rest, low_rest, Nat.or_assoc, Nat.or_assoc,
      shiftLeft_or (k := 6) (by omega), shiftLeft_or (k := 12) (by omega), shiftLeft_or (by omega),
      Option.some.injEq]
    omega

def text (cs : List Nat) : Bytes := cs.flatMap (utf8CharSet none)

def Encodable (cs : List Nat) : Prop := ∀ c ∈ cs, 0 < c ∧ c < 0x110000

theorem utf8CharSet_ne_nil {c : Nat} (hc : c < 0x110000) : utf8CharSet none c ≠ [] := by
  obtain ⟨first, rest, hset, -, -⟩ := utf8CharSet_shape hc
  rw [hset]
  exact List.cons_ne_nil _ _

theorem split_text {cs : List Nat} (hcs : Encodable cs) :
    Split (text cs) (cs.map (utf8CharSet none)) := by
  induction cs with
  | nil => exact .nil
  | cons c cs ih =>
      have hc := (hcs c List.mem_cons_self).2
      exact .cons (utf8CharSet_ne_nil hc) (utf8CharLen_utf8CharSet hc _)
        (ih fun c' hc' => hcs c' (List.mem_cons_of_mem _ hc'))

theorem toArrayLoop_text {cs : List Nat} (hcs : Encodable cs) {fuel : Nat}
    (hfuel : (text cs).length ≤ fuel) {size : Int} (hsize : cs.length < size) :
    toArrayLoop none fuel (text cs) size = some ⟨cs, true⟩ := by
  induction cs generalizing fuel size with
  | nil =>
      have hterminated : decide (0 < size) = true := decide_eq_true hsize
      cases fuel <;> simp [text, toArrayLoop, hterminated]
  | cons c cs ih =>
      have hc := (hcs c List.mem_cons_self).2
      have htext : text (c :: cs) = utf8CharSet none c ++ text cs := rfl
      obtain ⟨b, t, hcons, hle⟩ := cons_of_ne_nil (utf8CharSet_ne_nil hc) (text cs)
      rw [List.length_cons] at hsize
      rw [htext, hcons] at hfuel
      cases fuel with
      | zero => exact absurd hfuel (by simp)
      | succ fuel =>
          have hrest : toArrayLoop none fuel (text cs) (size - 1) = some ⟨cs, true⟩ :=
            ih (fun c' hc' => hcs c' (List.mem_cons_of_mem _ hc'))
              (hle.trans (Nat.le_of_succ_le_succ hfuel)) (by omega)
          rw [htext, hcons, toArrayLoop, ← hcons, if_pos (by omega), if_neg (by simp),
            utf8CharLen_utf8CharSet hc, Option.bind_some, utf8CharGet_utf8CharSet hc,
            Option.bind_some, advance_symbol, Option.bind_some, hrest, Option.map_some]

theorem fromArrayLoop_text (cs : List Nat) {size numChars : Int}
    (hsize : numChars + (text cs).length < size) (numSyms : Int) :
    fromArrayLoop none size (-1) cs numChars numSyms = ⟨text cs, true⟩ := by
  induction cs generalizing numChars numSyms with
  | nil =>
      have hlt : numChars < size := by simpa [text] using hsize
      simp [fromArrayLoop, text, hlt]
  | cons c cs ih =>
      have htext : text (c :: cs) = utf8CharSet none c ++ text cs := rfl
      rw [htext, List.length_append] at hsize
      have hrest : fromArrayLoop none size (-1) cs (numChars + (utf8CharSet none c).length)
          (numSyms + 1) = ⟨text cs, true⟩ := ih (by omega) _
      rw [fromArrayLoop, if_neg (by omega)]
      dsimp only
      rw [if_pos (by omega), hrest, htext]

theorem length_le_text {cs : List Nat} (hcs : Encodable cs) : cs.length ≤ (text cs).length := by
  induction cs with
  | nil => exact Nat.le_refl _
  | cons c cs ih =>
      have htext : text (c :: cs) = utf8CharSet none c ++ text cs := rfl
      have hpos := List.length_pos_iff.mpr (utf8CharSet_ne_nil (hcs c List.mem_cons_self).2)
      have hrest := ih fun c' hc' => hcs c' (List.mem_cons_of_mem _ hc')
      rw [htext, List.length_append, List.length_cons]
      omega

/-- A text in UTF-8 is the text of its characters. -/
theorem exists_text {s : Bytes} (hs : WellFormed s) (hnul : 0 ∉ s) :
    ∃ characters : List Char, s = text (characters.map fun c => c.val.toNat) ∧
      Encodable (characters.map fun c => c.val.toNat) := by
  obtain ⟨characters, rfl⟩ := hs
  refine ⟨characters, ?_, ?_⟩
  · rw [text, List.flatMap_map]
    exact List.flatMap_congr fun c _ => (utf8CharSet_char c).symm
  · intro n hn
    obtain ⟨c, hc, rfl⟩ := List.mem_map.mp hn
    have hvalid := c.valid
    unfold UInt32.isValidChar Nat.isValidChar at hvalid
    refine ⟨Nat.pos_of_ne_zero fun hzero =>
      hnul (List.mem_flatMap.mpr ⟨c, hc, ?_⟩), by omega⟩
    rw [← utf8CharSet_char, hzero]
    exact List.mem_singleton_self _

theorem wellFormed_text (characters : List Char) :
    WellFormed (text (characters.map fun c => c.val.toNat)) := by
  refine ⟨characters, ?_⟩
  rw [text, List.flatMap_map]
  exact List.flatMap_congr fun c _ => utf8CharSet_char c

/-- **Arrays and strings.** Without a character table for the system, what `Utf8FromArray` makes of
an array of symbols is what `Utf8ToArray` makes that array of, and every text in UTF-8 comes from
its array, if only the destinations have room for them. -/
theorem roundTrip (sizeChars sizeSyms : Int) :
    (∀ cs, Encodable cs → (text cs).length < sizeChars → cs.length < sizeSyms →
      utf8FromArray none cs sizeChars (-1) = ⟨text cs, true⟩ ∧
        utf8ToArray none (text cs) sizeSyms = some ⟨cs, true⟩) ∧
    ∀ s, WellFormed s → 0 ∉ s → ∃ cs, cs.length ≤ s.length ∧
      (s.length < sizeChars → cs.length < sizeSyms →
        utf8ToArray none s sizeSyms = some ⟨cs, true⟩ ∧
          utf8FromArray none cs sizeChars (-1) = ⟨s, true⟩) := by
  have harray : ∀ cs, Encodable cs → (text cs).length < sizeChars → cs.length < sizeSyms →
      utf8FromArray none cs sizeChars (-1) = ⟨text cs, true⟩ ∧
        utf8ToArray none (text cs) sizeSyms = some ⟨cs, true⟩ := by
    intro cs hcs hchars hsyms
    exact ⟨fromArrayLoop_text cs (by omega) 0, toArrayLoop_text hcs (Nat.le_refl _) (by omega)⟩
  refine ⟨harray, fun s hs hnul => ?_⟩
  obtain ⟨characters, rfl, hcs⟩ := exists_text hs hnul
  refine ⟨_, length_le_text hcs, fun hchars hsyms => ?_⟩
  exact ⟨(harray _ hcs hchars hsyms).2, (harray _ hcs hchars hsyms).1⟩

/-- A euro sign and a letter that UTF-16 needs a pair for. -/
theorem roundTrip_euro :
    utf8FromArray none [0x20AC, 0x1D11E] 8 (-1) =
      ⟨[0xE2, 0x82, 0xAC, 0xF0, 0x9D, 0x84, 0x9E], true⟩ ∧
      utf8ToArray none [0xE2, 0x82, 0xAC, 0xF0, 0x9D, 0x84, 0x9E] 3 =
        some ⟨[0x20AC, 0x1D11E], true⟩ :=
  (roundTrip 8 3).1 [0x20AC, 0x1D11E] (by unfold Encodable; decide) (by decide) (by decide)

/-! ### Copies of limited size -/

/-- The longest run of whole symbols that leaves room for the NUL. -/
def Longest (symbols : List Bytes) (n : Int) (copy : Bytes) : Prop :=
  ∃ k, copy = (symbols.take k).flatten ∧ copy.length < n ∧
    (k < symbols.length → n ≤ (symbols.take (k + 1)).flatten.length)

theorem utf8Strn0Cpy_split {src : Bytes} {symbols : List Bytes} (h : Split src symbols) {n : Int}
    (hn : 0 < n) : ∃ copy, utf8Strn0Cpy none src n = some copy ∧ Longest symbols n copy := by
  obtain ⟨k, hk, hlt, hmax⟩ := strn0CpyLoop_split h (Nat.le_refl _) hn
  exact ⟨_, hk, k, rfl, hlt, hmax⟩

theorem flatten_take_append_drop (symbols : List Bytes) (k : Nat) :
    (symbols.take k).flatten ++ (symbols.drop k).flatten = symbols.flatten := by
  rw [← List.flatten_append, List.take_append_drop]

theorem Longest.start {symbols : List Bytes} {n : Int} {copy : Bytes} (h : Longest symbols n copy) :
    copy <+: symbols.flatten := by
  obtain ⟨k, rfl, -, -⟩ := h
  exact ⟨_, flatten_take_append_drop symbols k⟩

theorem Longest.eq_of_length_lt {symbols : List Bytes} {n : Int} {copy : Bytes}
    (h : Longest symbols n copy) (hlt : symbols.flatten.length < n) : copy = symbols.flatten := by
  obtain ⟨k, rfl, -, hmax⟩ := h
  by_cases hk : k < symbols.length
  · have hmore := hmax hk
    rw [← flatten_take_append_drop symbols (k + 1), List.length_append] at hlt
    omega
  · rw [List.take_of_length_le (Nat.le_of_not_lt hk)]

theorem Split.unique {s : Bytes} {symbols symbols' : List Bytes} (h : Split s symbols)
    (h' : Split s symbols') : symbols = symbols' := by
  induction h generalizing symbols' with
  | nil =>
      generalize hs : ([] : Bytes) = s at h'
      cases h' with
      | nil => rfl
      | cons hne => exact absurd (List.append_eq_nil_iff.mp hs.symm).1 hne
  | @cons symbol rest symbols hne hlen hrest ih =>
      generalize hs : symbol ++ rest = s at h' hlen
      cases h' with
      | nil => exact absurd (List.append_eq_nil_iff.mp hs).1 hne
      | cons hne' hlen' hrest' =>
          have hlength := Option.some.inj (hlen.symm.trans hlen')
          obtain ⟨rfl, rfl⟩ := List.append_inj hs hlength
          rw [ih hrest']

theorem Longest.wellFormed {src copy : Bytes} {symbols : List Bytes} {n : Int}
    (h : Longest symbols n copy) (hsplit : Split src symbols) (hsrc : WellFormed src)
    (hnul : 0 ∉ src) : WellFormed copy := by
  obtain ⟨characters, rfl, hcs⟩ := exists_text hsrc hnul
  obtain rfl := hsplit.unique (split_text hcs)
  obtain ⟨k, rfl, -, -⟩ := h
  have hcopy : ((((characters.map fun c => c.val.toNat).map (utf8CharSet none)).take k).flatten) =
      text ((characters.take k).map fun c => c.val.toNat) := by
    rw [← List.map_take, ← List.map_take]
    rfl
  rw [hcopy]
  exact wellFormed_text _

theorem Longest.start_of_split {symbols : List Bytes} {src copy : Bytes} {n : Int}
    (h : Longest symbols n copy) (hsplit : Split src symbols) : copy <+: src := by
  rw [← hsplit.flatten]
  exact h.start

theorem Longest.eq_of_split {symbols : List Bytes} {src copy : Bytes} {n : Int}
    (h : Longest symbols n copy) (hsplit : Split src symbols) (hlt : src.length < n) :
    copy = src := by
  rw [← hsplit.flatten] at hlt ⊢
  exact h.eq_of_length_lt hlt

/-- **Copies.** Without such a table a copy is the longest run of whole symbols that has room with
its NUL; it is the string itself if that has room, and a text in UTF-8 if the string is one. -/
theorem utf8Strn0Cpy_longest (src : Bytes) {n : Int} (hn : 0 < n) :
    ∃ symbols copy, Split src symbols ∧ utf8Strn0Cpy none src n = some copy ∧
      Longest symbols n copy ∧ copy <+: src ∧ (src.length < n → copy = src) ∧
      (WellFormed src → 0 ∉ src → WellFormed copy) := by
  obtain ⟨symbols, hsplit⟩ := exists_split src
  obtain ⟨copy, hcopy, hlongest⟩ := utf8Strn0Cpy_split hsplit hn
  exact ⟨symbols, copy, hsplit, hcopy, hlongest, hlongest.start_of_split hsplit,
    hlongest.eq_of_split hsplit, hlongest.wellFormed hsplit⟩

/-- No room for a second euro sign. -/
theorem utf8Strn0Cpy_longest_euro :
    ∃ symbols copy, Split [0xE2, 0x82, 0xAC, 0xE2, 0x82, 0xAC] symbols ∧
      utf8Strn0Cpy none [0xE2, 0x82, 0xAC, 0xE2, 0x82, 0xAC] 6 = some copy ∧
      Longest symbols 6 copy ∧ copy = [0xE2, 0x82, 0xAC] := by
  obtain ⟨symbols, copy, hsplit, hcopy, hlongest, -⟩ :=
    utf8Strn0Cpy_longest [0xE2, 0x82, 0xAC, 0xE2, 0x82, 0xAC] (show (0 : Int) < 6 by decide)
  have heuro : utf8Strn0Cpy none [0xE2, 0x82, 0xAC, 0xE2, 0x82, 0xAC] 6 =
      some [0xE2, 0x82, 0xAC] := by
    decide
  exact ⟨symbols, copy, hsplit, hcopy, hlongest, Option.some.inj (hcopy.symm.trans heuro)⟩

end Dbus2vdr.Utf8Strings

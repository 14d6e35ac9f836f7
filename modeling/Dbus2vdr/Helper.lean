import Dbus2vdr.CString
import Dbus2vdr.Lib.Utf8

/-!
# `cDBusHelper::IsValidUtf8`

The scan goes by positions in a text that ends with a NUL. It takes the text for a sequence of
units: a byte that announces a length and so many continuation bytes. The length is a variable of
the function, and the bytes 0xFE and 0xFF leave it as the unit before them has set it.

A text is made of such units up to its end, or a unit is cut off by the end, or some byte breaks the
sequence; the scan accepts the first, leaves the string on the second and rejects the third.
-/

namespace Dbus2vdr.Helper

open Utf8 (Continuation WellFormed)

inductive Outcome where
  | goesOn
  /-- The condition of the outer loop has failed at this index, which makes the result true. -/
  | ended (c : Nat)
  | rejected
  /-- A byte behind the NUL has been read, and nothing is known of what follows. -/
  | outside
  deriving DecidableEq, Repr

structure Scan where
  reads : List Nat
  outcome : Outcome
  deriving DecidableEq, Repr

def Scan.andThen (s next : Scan) : Scan :=
  match s.outcome with
  | .goesOn => ⟨s.reads ++ next.reads, next.outcome⟩
  | _ => s

def Scan.result (s : Scan) : Option Bool :=
  match s.outcome with
  | .ended _ => some true
  | .rejected => some false
  | .goesOn | .outside => none

/-- `*(text + i)`, up to the NUL -/
def byteAt (text : Bytes) (i : Nat) : Option UInt8 := (text ++ [0])[i]?

/-- `nb` after the byte classes, `none` for a byte that is rejected. -/
def announced (nb : Nat) (b : UInt8) : Option Nat :=
  if b &&& 0x80 = 0x00 then some 0
  else if b &&& 0xc0 = 0x80 then none
  else if b &&& 0xe0 = 0xc0 then some 1
  else if b &&& 0xf0 = 0xe0 then some 2
  else if b &&& 0xf8 = 0xf0 then some 3
  else if b &&& 0xfc = 0xf8 then some 4
  else if b &&& 0xfe = 0xfc then some 5
  else some nb

/-- The loop over `na`, from the index `c + na` on; the first argument is `nb + 1 - na`. The byte is
read before `na` is compared with `nb`. -/
def continuationLoop (text : Bytes) : Nat → Nat → Scan
  | left, i =>
    match byteAt text i with
    | none => ⟨[i], .outside⟩
    | some x =>
        if x = 0 then ⟨[i], .goesOn⟩
        else
          match left with
          | 0 => ⟨[i], .goesOn⟩
          | left + 1 =>
              if Continuation x
                then (⟨[i], .goesOn⟩ : Scan).andThen (continuationLoop text left (i + 1))
              else ⟨[i], .rejected⟩

def scanLoop (text : Bytes) : Nat → Nat → Nat → Scan
  | 0, _, _ => ⟨[], .goesOn⟩
  | fuel + 1, c, nb =>
      match byteAt text c with
      | none => ⟨[c], .outside⟩
      | some b =>
          if b = 0 then ⟨[c], .ended c⟩
          else
            match announced nb b with
            | none => ⟨[c], .rejected⟩
            | some nb =>
                ((⟨[c], .goesOn⟩ : Scan).andThen (continuationLoop text nb (c + 1))).andThen
                  (scanLoop text fuel (c + (nb + 1)) nb)

/-- Every turn of the outer loop moves on, and a turn behind the NUL is the last one. -/
def isValidUtf8 (text : Bytes) : Scan := scanLoop text (text.length + 1) 0 0

/-! ### Reading inside the string -/

theorem byteAt_eq_none {text : Bytes} {i : Nat} : byteAt text i = none ↔ text.length < i := by
  rw [byteAt, List.getElem?_eq_none_iff, List.length_append, List.length_singleton]
  omega

theorem le_of_byteAt {text : Bytes} {i : Nat} {b : UInt8} (h : byteAt text i = some b) :
    i ≤ text.length := by
  by_contra hi
  rw [byteAt_eq_none.mpr (by omega)] at h
  cases h

theorem Scan.goesOn_andThen (reads : List Nat) (next : Scan) :
    Scan.andThen ⟨reads, .goesOn⟩ next = ⟨reads ++ next.reads, next.outcome⟩ := rfl

def Scan.Inside (text : Bytes) (s : Scan) : Prop :=
  s.outcome ≠ .outside → ∀ i ∈ s.reads, i ≤ text.length

theorem Scan.Inside.andThen {text : Bytes} {s next : Scan} (hs : s.Inside text)
    (hnext : next.Inside text) : (s.andThen next).Inside text := by
  obtain ⟨reads, outcome⟩ := s
  cases outcome with
  | goesOn =>
      intro hout i hi
      cases List.mem_append.mp hi with
      | inl hmem => exact hs (fun h => by cases h) i hmem
      | inr hmem => exact hnext hout i hmem
  | ended c => exact hs
  | rejected => exact hs
  | outside => exact hs

theorem inside_single {text : Bytes} {i : Nat} (hi : i ≤ text.length) (outcome : Outcome) :
    Scan.Inside text ⟨[i], outcome⟩ := by
  intro _ j hj
  rw [List.mem_singleton.mp hj]
  exact hi

theorem continuationLoop_inside (text : Bytes) (left i : Nat) :
    (continuationLoop text left i).Inside text := by
  induction left generalizing i with
  | zero =>
      unfold continuationLoop
      cases hbyte : byteAt text i with
      | none => exact fun h => absurd rfl h
      | some x =>
          dsimp only
          split <;> exact inside_single (le_of_byteAt hbyte) _
  | succ left ih =>
      unfold continuationLoop
      cases hbyte : byteAt text i with
      | none => exact fun h => absurd rfl h
      | some x =>
          have hsingle := inside_single (le_of_byteAt hbyte)
          dsimp only
          split
          · exact hsingle _
          · split
            · exact (hsingle _).andThen (ih (i + 1))
            · exact hsingle _

theorem scanLoop_inside (text : Bytes) (fuel c nb : Nat) :
    (scanLoop text fuel c nb).Inside text := by
  induction fuel generalizing c nb with
  | zero => exact fun _ i hi => absurd hi List.not_mem_nil
  | succ fuel ih =>
      unfold scanLoop
      cases hbyte : byteAt text c with
      | none => exact fun h => absurd rfl h
      | some b =>
          have hsingle := inside_single (le_of_byteAt hbyte)
          dsimp only
          split
          · exact hsingle _
          · cases announced nb b with
            | none => exact hsingle _
            | some n =>
                exact ((hsingle _).andThen (continuationLoop_inside text n (c + 1))).andThen
                  (ih (c + (n + 1)) n)

/-! ### Standing at a part of the text -/

def Stands (text : Bytes) (i : Nat) (suffix : Bytes) : Prop :=
  i ≤ text.length ∧ text.drop i = suffix

theorem stands_zero (text : Bytes) : Stands text 0 text := ⟨Nat.zero_le _, rfl⟩

section Stands

variable {text suffix front : Bytes} {i : Nat} {b : UInt8}

theorem Stands.add_length (h : Stands text i suffix) : i + suffix.length = text.length := by
  rw [← h.2, List.length_drop]
  have hle := h.1
  omega

theorem Stands.forward (h : Stands text i (front ++ suffix)) :
    Stands text (i + front.length) suffix := by
  refine ⟨?_, ?_⟩
  · have hlength := h.add_length
    rw [List.length_append] at hlength
    omega
  · rw [← List.drop_drop, h.2, List.drop_left]

theorem Stands.next (h : Stands text i (b :: suffix)) : Stands text (i + 1) suffix := by
  have hsplit : Stands text i ([b] ++ suffix) := h
  exact hsplit.forward

theorem Stands.byteAt (h : Stands text i (b :: suffix)) : byteAt text i = some b := by
  have hlength := h.add_length
  rw [List.length_cons] at hlength
  rw [Helper.byteAt, List.getElem?_append_left (by omega), ← List.head?_drop, h.2]
  rfl

theorem Stands.byteAt_nul (h : Stands text i []) : Helper.byteAt text i = some 0 := by
  have hlength := h.add_length
  rw [List.length_nil, Nat.add_zero] at hlength
  rw [Helper.byteAt, hlength, List.getElem?_concat_length]

theorem Stands.mem (h : Stands text i suffix) (hb : b ∈ suffix) : b ∈ text :=
  List.mem_of_mem_drop (h.2.symm ▸ hb)

end Stands

/-! ### The loop over the continuation bytes -/

section Continuations

variable {text tail rest : Bytes} {i left : Nat} (htail : ∀ x ∈ tail, Continuation x)
include htail

theorem continuationLoop_append (hstands : Stands text i (tail ++ rest)) :
    (continuationLoop text (tail.length + left) i).outcome =
      (continuationLoop text left (i + tail.length)).outcome := by
  induction tail generalizing i with
  | nil => rw [List.length_nil, Nat.zero_add, Nat.add_zero]
  | cons x tail ih =>
      have hx := htail x List.mem_cons_self
      have hrest := ih (fun y hy => htail y (List.mem_cons_of_mem x hy)) hstands.next
      rw [List.length_cons, Nat.add_right_comm tail.length, continuationLoop, hstands.byteAt]
      dsimp only
      rw [if_neg hx.ne_zero, if_pos hx, Scan.goesOn_andThen, hrest, Nat.add_assoc,
        Nat.add_comm 1]

theorem continuationLoop_full (hstands : Stands text i (tail ++ rest)) :
    (continuationLoop text tail.length i).outcome = .goesOn := by
  have hloop : (continuationLoop text (tail.length + 0) i).outcome =
      (continuationLoop text 0 (i + tail.length)).outcome := continuationLoop_append htail hstands
  rw [Nat.add_zero] at hloop
  rw [hloop, continuationLoop]
  cases rest with
  | nil => rw [hstands.forward.byteAt_nul]; rfl
  | cons y rest =>
      rw [hstands.forward.byteAt]
      dsimp only
      split <;> rfl

theorem continuationLoop_short (hstands : Stands text i tail) (hshort : tail.length < left) :
    (continuationLoop text left i).outcome = .goesOn := by
  have hstands' : Stands text i (tail ++ []) := by rwa [List.append_nil]
  obtain ⟨more, rfl⟩ := Nat.exists_eq_add_of_lt hshort
  rw [Nat.add_assoc, continuationLoop_append htail hstands', continuationLoop,
    hstands'.forward.byteAt_nul]
  rfl

theorem continuationLoop_broken {x : UInt8} (hstands : Stands text i (tail ++ x :: rest))
    (hzero : x ≠ 0) (hx : ¬ Continuation x) (hshort : tail.length < left) :
    (continuationLoop text left i).outcome = .rejected := by
  obtain ⟨more, rfl⟩ := Nat.exists_eq_add_of_lt hshort
  rw [Nat.add_assoc, continuationLoop_append htail hstands, continuationLoop,
    hstands.forward.byteAt]
  dsimp only
  rw [if_neg hzero, if_neg hx]

end Continuations

/-! ### Units -/

/-- The text begins with units, and what follows the last of them meets `P`; `nb` is what the bytes
before have left in the variable. -/
inductive AfterUnits (P : Nat → Bytes → Prop) : Nat → Bytes → Prop where
  | here {nb : Nat} {text : Bytes} (h : P nb text) : AfterUnits P nb text
  | unit {nb : Nat} {b : UInt8} {tail rest : Bytes} (hb : announced nb b = some tail.length)
      (htail : ∀ x ∈ tail, Continuation x) (hrest : AfterUnits P tail.length rest) :
      AfterUnits P nb (b :: (tail ++ rest))

inductive CutShort : Nat → Bytes → Prop where
  | intro {nb n : Nat} {b : UInt8} {tail : Bytes} (hb : announced nb b = some n)
      (htail : ∀ x ∈ tail, Continuation x) (hshort : tail.length < n) : CutShort nb (b :: tail)

inductive NoUnit : Nat → Bytes → Prop where
  | first {nb : Nat} {b : UInt8} {rest : Bytes} (hb : announced nb b = none) : NoUnit nb (b :: rest)
  | within {nb n : Nat} {b x : UInt8} {tail rest : Bytes} (hb : announced nb b = some n)
      (htail : ∀ x ∈ tail, Continuation x) (hshort : tail.length < n) (hx : ¬ Continuation x) :
      NoUnit nb (b :: (tail ++ x :: rest))

/-- The text is a sequence of units. -/
def Units (nb : Nat) (text : Bytes) : Prop := AfterUnits (fun _ rest => rest = []) nb text

/-- The end of the text cuts its last unit off. -/
def CutOff (nb : Nat) (text : Bytes) : Prop := AfterUnits CutShort nb text

/-- Behind some units comes a byte that begins none, or one whose continuation is interrupted. -/
def Broken (nb : Nat) (text : Bytes) : Prop := AfterUnits NoUnit nb text

theorem continuation_cases (n : Nat) (text : Bytes) :
    (∃ tail rest, text = tail ++ rest ∧ tail.length = n ∧ ∀ x ∈ tail, Continuation x) ∨
      (text.length < n ∧ ∀ x ∈ text, Continuation x) ∨
      ∃ tail x rest, text = tail ++ x :: rest ∧ tail.length < n ∧
      (∀ x ∈ tail, Continuation x) ∧
        ¬ Continuation x := by
  induction n generalizing text with
  | zero => exact .inl ⟨[], text, rfl, rfl, by simp⟩
  | succ n ih =>
      cases text with
      | nil => exact .inr (.inl ⟨by simp, by simp⟩)
      | cons y text =>
          by_cases hy : Continuation y
          · have hcons : ∀ l : Bytes, (∀ x ∈ l, Continuation x) →
              ∀ x ∈ y :: l, Continuation x :=
              fun l hl => List.forall_mem_cons.mpr ⟨hy, hl⟩
            obtain ⟨tail, rest, rfl, hlength, htail⟩ | ⟨hshort, htail⟩ |
              ⟨tail, x, rest, rfl, hshort, htail, hx⟩ := ih text
            · exact .inl ⟨y :: tail, rest, rfl, by simpa using hlength, hcons tail htail⟩
            · exact .inr (.inl ⟨by simpa using hshort, hcons text htail⟩)
            · exact .inr
                (.inr ⟨y :: tail, x, rest, rfl, by simpa using hshort, hcons tail htail, hx⟩)
          · exact .inr (.inr ⟨[], y, text, rfl, by simp, by simp, hy⟩)

theorem units_or_cutOff_or_broken (nb : Nat) (text : Bytes) :
    Units nb text ∨ CutOff nb text ∨ Broken nb text := by
  induction hlength : text.length using Nat.strong_induction_on generalizing nb text with
  | _ length ih =>
      cases text with
      | nil => exact .inl (.here rfl)
      | cons b text =>
          cases hb : announced nb b with
          | none => exact .inr (.inr (.here (.first hb)))
          | some n =>
              obtain ⟨tail, rest, rfl, rfl, htail⟩ | ⟨hshort, htail⟩ |
                ⟨tail, x, rest, rfl, hshort, htail, hx⟩ := continuation_cases n text
              · have hrest : rest.length < length := by
                  rw [← hlength, List.length_cons, List.length_append]
                  omega
                exact (ih rest.length hrest tail.length rest rfl).imp (.unit hb htail)
                  (.imp (.unit hb htail) (.unit hb htail))
              · exact .inr (.inl (.here (.intro hb htail hshort)))
              · exact .inr (.inr (.here (.within hb htail hshort hx)))

/-! ### The scan of units -/

section Scanning

variable {text : Bytes} (hzero : 0 ∉ text)
include hzero

theorem scanLoop_first {c nb n fuel : Nat} {b : UInt8} {rest : Bytes}
    (hstands : Stands text c (b :: rest)) (hb : announced nb b = some n) :
    (continuationLoop text n (c + 1)).outcome = .goesOn →
      (scanLoop text (fuel + 1) c nb).outcome = (scanLoop text fuel (c + (n + 1)) n).outcome := by
  intro hloop
  have hne : b ≠ 0 := fun h => hzero (h ▸ hstands.mem List.mem_cons_self)
  rw [scanLoop, hstands.byteAt]
  dsimp only
  rw [if_neg hne, hb]
  dsimp only
  rw [Scan.goesOn_andThen, hloop, Scan.goesOn_andThen]

/-- What the scan makes of the text behind the units, it makes of the whole text. -/
theorem scanLoop_afterUnits {P : Nat → Bytes → Prop} {o : Outcome}
    (hP : ∀ nb rest c fuel, P nb rest → Stands text c rest → rest.length < fuel →
      (scanLoop text fuel c nb).outcome = o)
    {nb c fuel : Nat} {rest : Bytes} (h : AfterUnits P nb rest) (hstands : Stands text c rest)
    (hfuel : rest.length < fuel) : (scanLoop text fuel c nb).outcome = o := by
  induction h generalizing c fuel with
  | here h => exact hP _ _ c fuel h hstands hfuel
  | @unit nb b tail rest hb htail _ ih =>
      rw [List.length_cons, List.length_append] at hfuel
      obtain ⟨fuel, rfl⟩ := Nat.exists_eq_add_one_of_ne_zero (Nat.ne_zero_of_lt hfuel)
      have hfull := continuationLoop_full htail hstands.next
      rw [scanLoop_first hzero hstands hb hfull]
      apply ih
      · have hnext := hstands.next.forward
        rwa [Nat.add_assoc, Nat.add_comm 1] at hnext
      · omega

theorem scanLoop_units {c nb fuel : Nat} {rest : Bytes} (h : Units nb rest)
    (hstands : Stands text c rest) (hfuel : rest.length < fuel) :
    (scanLoop text fuel c nb).outcome = .ended text.length := by
  apply scanLoop_afterUnits hzero ?_ h hstands hfuel
  rintro nb rest c fuel rfl hstands hfuel
  obtain ⟨fuel, rfl⟩ := Nat.exists_eq_add_one_of_ne_zero (Nat.ne_zero_of_lt hfuel)
  have hend := hstands.add_length
  rw [List.length_nil, Nat.add_zero] at hend
  rw [scanLoop, hstands.byteAt_nul, hend]
  rfl

theorem scanLoop_cutOff {c nb fuel : Nat} {rest : Bytes} (h : CutOff nb rest)
    (hstands : Stands text c rest) (hfuel : rest.length < fuel) :
    (scanLoop text fuel c nb).outcome = .outside := by
  apply scanLoop_afterUnits hzero ?_ h hstands hfuel
  intro nb rest c fuel hcut hstands hfuel
  cases hcut with
  | @intro n b tail hb htail hshort =>
      rw [List.length_cons] at hfuel
      obtain ⟨fuel, rfl⟩ := Nat.exists_eq_add_one_of_ne_zero (Nat.ne_zero_of_lt hfuel)
      rw [scanLoop_first hzero hstands hb (continuationLoop_short htail hstands.next hshort)]
      -- the step over the announced length goes beyond the NUL
      have hend := hstands.add_length
      rw [List.length_cons] at hend
      obtain ⟨fuel, rfl⟩ : ∃ more, fuel = more + 1 :=
        Nat.exists_eq_add_one_of_ne_zero (by omega)
      rw [scanLoop, byteAt_eq_none.mpr (by omega)]

theorem scanLoop_broken {c nb fuel : Nat} {rest : Bytes} (h : Broken nb rest)
    (hstands : Stands text c rest) (hfuel : rest.length < fuel) :
    (scanLoop text fuel c nb).outcome = .rejected := by
  apply scanLoop_afterUnits hzero ?_ h hstands hfuel
  intro nb rest c fuel hbroken hstands hfuel
  obtain ⟨fuel, rfl⟩ := Nat.exists_eq_add_one_of_ne_zero (Nat.ne_zero_of_lt hfuel)
  cases hbroken with
  | @first b rest hb =>
      have hne : b ≠ 0 := fun h => hzero (h ▸ hstands.mem List.mem_cons_self)
      rw [scanLoop, hstands.byteAt]
      dsimp only
      rw [if_neg hne, hb]
  | @within n b x tail rest hb htail hshort hx =>
      have hne : b ≠ 0 := fun h => hzero (h ▸ hstands.mem List.mem_cons_self)
      have hxne : x ≠ 0 := fun h => hzero (h ▸ hstands.mem (by simp))
      have hloop := continuationLoop_broken htail hstands.next hxne hx hshort
      rw [scanLoop, hstands.byteAt]
      dsimp only
      rw [if_neg hne, hb]
      dsimp only
      rw [Scan.goesOn_andThen, hloop]
      rfl

end Scanning

theorem isValidUtf8_outcome {text : Bytes} (hzero : 0 ∉ text) :
    (Units 0 text ∧ (isValidUtf8 text).outcome = .ended text.length) ∨
      (CutOff 0 text ∧ (isValidUtf8 text).outcome = .outside) ∨
      (Broken 0 text ∧ (isValidUtf8 text).outcome = .rejected) := by
  have hstands := stands_zero text
  have hfuel := Nat.lt_succ_self text.length
  cases units_or_cutOff_or_broken 0 text with
  | inl h => exact .inl ⟨h, scanLoop_units hzero h hstands hfuel⟩
  | inr h =>
      cases h with
      | inl h => exact .inr (.inl ⟨h, scanLoop_cutOff hzero h hstands hfuel⟩)
      | inr h => exact .inr (.inr ⟨h, scanLoop_broken hzero h hstands hfuel⟩)

/-! ### The reads -/

/-- All reads are inside the string, and the scan ends at the NUL or with a rejection. -/
def StaysInside (text : Bytes) : Prop :=
  (∀ i ∈ (isValidUtf8 text).reads, i ≤ text.length) ∧
    ((isValidUtf8 text).outcome = .ended text.length ∨ (isValidUtf8 text).outcome = .rejected)

instance : DecidablePred StaysInside := fun _ => inferInstanceAs (Decidable (_ ∧ _))

/-- **The reads.** The scan stays inside the string exactly when the end of the string does not cut
a unit off. -/
theorem staysInside_iff {text : Bytes} (hzero : 0 ∉ text) :
    StaysInside text ↔ ¬ CutOff 0 text := by
  have hinside := scanLoop_inside text (text.length + 1) 0 0
  constructor
  · rintro ⟨-, hend⟩ hcut
    have hout := scanLoop_cutOff hzero hcut (stands_zero text) (Nat.lt_succ_self _)
    rw [isValidUtf8, hout] at hend
    cases hend with
    | inl h => cases h
    | inr h => cases h
  · intro hcut
    obtain ⟨-, hout⟩ | ⟨h, -⟩ | ⟨-, hout⟩ := isValidUtf8_outcome hzero
    · exact ⟨hinside (fun h => by rw [← isValidUtf8, hout] at h; cases h), .inl hout⟩
    · exact absurd h hcut
    · exact ⟨hinside (fun h => by rw [← isValidUtf8, hout] at h; cases h), .inr hout⟩

theorem staysInside_iff_umlaut :
    0 ∉ ([0xc3, 0xa4] : Bytes) ∧ (StaysInside [0xc3, 0xa4] ↔ ¬ CutOff 0 [0xc3, 0xa4]) :=
  ⟨by decide, staysInside_iff (by decide)⟩

theorem not_forall_staysInside : ¬ ∀ text : Bytes, 0 ∉ text → StaysInside text := by
  intro h
  exact absurd (h [0xc3] (by decide)) (by decide)

/-! ### The verdict -/

/-- The scan has a result, and it is the well-formedness of the text. -/
def Exact (text : Bytes) : Prop :=
  ∃ valid, (isValidUtf8 text).result = some valid ∧ (valid = true ↔ WellFormed text)

theorem and_mask {b mask value : UInt8} (h : b &&& mask = value) {wider : UInt8}
    (hmask : mask &&& wider = wider) : b &&& wider = value &&& wider := by
  rw [← h, UInt8.and_assoc, hmask]

/-- On the first bytes of well-formed characters the byte classes are the standard ones. -/
theorem announced_of_following {b : UInt8} {n : Nat} (h : Utf8.following b = some n) (nb : Nat) :
    announced nb b = some n := by
  have hnot : ∀ {mask value : UInt8}, b &&& mask = value → mask &&& 0xc0 = 0xc0 →
      value &&& 0xc0 ≠ 0x80 → b &&& 0xc0 ≠ 0x80 := by
    intro mask value hb hmask hvalue
    rwa [and_mask hb hmask]
  unfold Utf8.following at h
  unfold announced
  split at h
  · next h0 => rw [if_pos h0]; exact h
  · next h0 =>
      rw [if_neg h0]
      split at h
      · next h1 => rw [if_neg (hnot h1 (by decide) (by decide)), if_pos h1]; exact h
      · next h1 =>
          split at h
          · next h2 => rw [if_neg (hnot h2 (by decide) (by decide)), if_neg h1, if_pos h2]; exact h
          · next h2 =>
              split at h
              · next h3 =>
                  rw [if_neg (hnot h3 (by decide) (by decide)), if_neg h1, if_neg h2, if_pos h3]
                  exact h
              · cases h

theorem units_of_wellFormed {text : Bytes} (h : WellFormed text) (nb : Nat) : Units nb text := by
  obtain ⟨characters, rfl⟩ := h
  induction characters generalizing nb with
  | nil => exact .here rfl
  | cons c characters ih =>
      obtain ⟨first, rest, hencode, hfollowing, hrest⟩ := Utf8.utf8EncodeChar_shape c
      rw [List.flatMap_cons, hencode, List.cons_append]
      exact .unit (announced_of_following hfollowing nb) hrest (ih rest.length)

theorem result_of_wellFormed {text : Bytes} (hzero : 0 ∉ text) (h : WellFormed text) :
    (isValidUtf8 text).result = some true := by
  have hunits := scanLoop_units hzero (units_of_wellFormed h 0) (stands_zero text)
    (Nat.lt_succ_self _)
  rw [Scan.result, isValidUtf8, hunits]

/-- **The verdict.** The result is right exactly when the text is well-formed or broken: what else
is made of units, or cut off behind some, is accepted, or takes the scan out of the string. -/
theorem exact_iff {text : Bytes} (hzero : 0 ∉ text) :
    Exact text ↔ WellFormed text ∨ Broken 0 text := by
  constructor
  · rintro ⟨valid, hresult, hvalid⟩
    obtain ⟨-, hout⟩ | ⟨-, hout⟩ | ⟨hbroken, -⟩ := isValidUtf8_outcome hzero
    · rw [Scan.result, hout, Option.some.injEq] at hresult
      exact .inl (hvalid.mp hresult.symm)
    · rw [Scan.result, hout] at hresult
      cases hresult
    · exact .inr hbroken
  · rintro (hwell | hbroken)
    · exact ⟨true, result_of_wellFormed hzero hwell, fun _ => hwell, fun _ => rfl⟩
    · have hout := scanLoop_broken hzero hbroken (stands_zero text) (Nat.lt_succ_self _)
      have hresult : (isValidUtf8 text).result = some false := by
        rw [Scan.result, isValidUtf8, hout]
      refine ⟨false, hresult, fun h => absurd h Bool.false_ne_true, fun hwell => ?_⟩
      rw [result_of_wellFormed hzero hwell, Option.some.injEq] at hresult
      exact absurd hresult (by decide)

theorem exact_iff_umlaut :
    0 ∉ ([0xc3, 0xa4] : Bytes) ∧
      (Exact [0xc3, 0xa4] ↔ WellFormed [0xc3, 0xa4] ∨ Broken 0 [0xc3, 0xa4]) :=
  ⟨by decide, exact_iff (by decide)⟩

/-- The byte 0xFF alone is accepted. -/
theorem not_forall_exact : ¬ ∀ text : Bytes, 0 ∉ text → Exact text := by
  intro h
  obtain ⟨valid, hresult, hvalid⟩ := h [0xff] (by decide)
  have haccepted : (isValidUtf8 [0xff]).result = some true := by decide
  rw [haccepted, Option.some.injEq] at hresult
  have hbyte := (hvalid.mp hresult.symm).byte (List.mem_singleton_self 0xff)
  exact absurd hbyte (by decide)

end Dbus2vdr.Helper

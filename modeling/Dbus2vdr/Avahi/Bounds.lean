import Dbus2vdr.Avahi.Scanner
import Dbus2vdr.Lib.Buffer

/-!
# The bounds of the option scanner

The constructor of `cAvahiHelper` once more, now with every access to its buffer as one of `Buffer`.
`construct_eq` says that it ends with the entries of `parse`, and has therefore stayed in the
buffer; in particular there is always a byte in front of a comma. `joins_scan` says which bytes the
entries keep.
-/

namespace Dbus2vdr.Avahi

/-- `while ((pos1 < len) && (s[pos1] == ','))` -/
def skipCommas (s : Bytes) (len : Nat) : Nat → Nat → Option Nat
  | 0, _ => none
  | fuel + 1, pos1 => do
      if pos1 < len then
        let b ← Buffer.read s pos1
        if b = comma then skipCommas s len fuel (pos1 + 1) else some pos1
      else some pos1

namespace Scan

/-- `step`, with an index below zero where `pos2` is zero and `s[pos2 - 1]` is read. -/
def stepInside (c : Scan) : Option Scan := do
  let b ← Buffer.read c.s c.pos2
  if b = backslash ∧ c.pos2 < c.len - 1 then
    let moved ← Buffer.move c.s c.pos2 (c.pos2 + 1) (c.len - c.pos2 - 1)
    let s ← Buffer.write moved (c.len - 1 : Nat) 0
    some { c with s, len := c.len - 1, pos2 := c.pos2 + 1 }
  else if b = comma then
    let before ← Buffer.read c.s (c.pos2 - 1)
    if before ≠ backslash then
      let s ← Buffer.write c.s c.pos2 0
      let entry ← Buffer.text 0 s c.pos1
      some { c with s, list := c.list ++ [entry], pos1 := c.pos2 + 1, pos2 := c.pos2 + 1 }
    else some { c with pos2 := c.pos2 + 1 }
  else some { c with pos2 := c.pos2 + 1 }

def loopInside : Nat → Scan → Option Scan
  | 0, _ => none
  | fuel + 1, c => do if c.pos2 < c.len then loopInside fuel (← c.stepInside) else some c

def finishInside (c : Scan) : Option (List Bytes) := do
  if c.pos1 < c.pos2 then
    let entry ← Buffer.text 0 c.s c.pos1
    some (c.list ++ [entry])
  else some c.list

end Scan

/-- The constructor, with at most `fuel` turns of each loop. -/
def construct (fuel : Nat) (options : Bytes) : Option (List Bytes) := do
  let s := options ++ [0]
  let len := options.length
  let pos1 ← skipCommas s len fuel 0
  let c ← Scan.loopInside fuel { s, len, pos1, pos2 := pos1 }
  c.finishInside

/-! ### Staying inside -/

theorem skipCommas_eq (front back : Bytes) {rest : Bytes} {fuel : Nat}
    (hfuel : rest.length < fuel) :
    skipCommas (front ++ rest ++ back) (front.length + rest.length) fuel front.length =
      some (front.length + initialCommas rest) := by
  induction rest generalizing front fuel with
  | nil =>
      cases fuel with
      | zero => cases hfuel
      | succ fuel => simp [skipCommas, initialCommas]
  | cons b rest ih =>
      cases fuel with
      | zero => cases hfuel
      | succ fuel =>
          have hread : Buffer.read (front ++ b :: rest ++ back) front.length = some b := by
            rw [List.append_assoc, Buffer.read_of_lt (by simp) 0]
            simp
          have hlt : front.length < front.length + (b :: rest).length := by simp
          rw [skipCommas, if_pos hlt, hread, Option.bind_eq_bind, Option.bind_some]
          by_cases hcomma : b = comma
          · have hnext := ih (front ++ [b]) (Nat.lt_of_succ_lt_succ hfuel)
            rw [if_pos hcomma]
            simpa [initialCommas, hcomma, Nat.add_assoc, Nat.add_comm 1] using hnext
          · rw [if_neg hcomma]
            simp [initialCommas, hcomma]

namespace Reads

variable {c : Scan} {front cur rest back : Bytes} {a : UInt8}

theorem len_lt (h : Reads c front cur rest back) : c.len < c.s.length := by
  rw [h.len, h.buffer]
  simp only [List.length_append, List.length_cons]
  omega

/-- In front of a comma stands a byte of the entry, or the NUL behind the entry before. -/
theorem pos2_pos (h : Reads c front cur (comma :: rest) back) : 0 < c.pos2 := by
  rw [h.pos2]
  cases cur with
  | cons b cur => exact Nat.add_pos_right _ (Nat.succ_pos _)
  | nil =>
      have hzero : front.getLast? = some 0 := (h.start rfl).resolve_right (by simp)
      have hfront : front ≠ [] := by
        rintro rfl
        cases hzero
      exact Nat.lt_of_lt_of_le (List.length_pos_iff.mpr hfront) (Nat.le_add_right _ _)

theorem read_pos2 (h : Reads c front cur (a :: rest) back) : Buffer.read c.s c.pos2 = some a := by
  rw [Buffer.read_of_lt (h.pos2_lt.trans h.len_lt) 0]
  exact congrArg some h.at_pos2

theorem read_before (h : Reads c front cur (comma :: rest) back) :
    Buffer.read c.s (c.pos2 - 1) = some (c.byte (c.pos2 - 1)) := by
  have hindex : (c.pos2 - 1 : Int) = (c.pos2 - 1 : Nat) := by
    have hpos := h.pos2_pos
    omega
  have hlt : c.pos2 - 1 < c.s.length :=
    Nat.lt_of_le_of_lt (Nat.sub_le _ _) (h.pos2_lt.trans h.len_lt)
  rw [hindex, Buffer.read_of_lt hlt 0]
  rfl

theorem move_eq (h : Reads c front cur (a :: rest) back) :
    Buffer.move c.s c.pos2 (c.pos2 + 1) (c.len - c.pos2 - 1) = some c.memmove := by
  have hlen := h.len_lt
  have hpos := h.pos2_lt
  have hend : c.pos2 + (c.len - c.pos2 - 1) = c.len - 1 := by omega
  unfold Buffer.move Scan.memmove
  rw [if_pos ⟨by omega, by omega⟩, hend]

theorem length_memmove (h : Reads c front cur (a :: rest) back) :
    c.memmove.length = c.s.length := by
  have hlen := h.len_lt
  have hpos := h.pos2_lt
  simp only [Scan.memmove, List.length_append, List.length_take, List.length_drop]
  omega

theorem stepInside_eq (h : Reads c front cur (a :: rest) back) : c.stepInside = some c.step := by
  have hlen := h.len_lt
  have hpos := h.pos2_lt
  unfold Scan.stepInside Scan.step
  rw [h.read_pos2, h.at_pos2, Option.bind_eq_bind, Option.bind_some]
  by_cases hescapes : a = backslash ∧ c.pos2 < c.len - 1
  · have hwrite := Buffer.write_of_lt (s := c.memmove) (i := c.len - 1)
      (by rw [h.length_memmove]; omega) 0
    rw [if_pos hescapes, if_pos hescapes, h.move_eq]
    simp only [Option.bind_eq_bind, Option.bind_some, hwrite]
  · rw [if_neg hescapes, if_neg hescapes]
    by_cases hcomma : a = comma
    · subst hcomma
      rw [if_pos rfl, h.read_before, Option.bind_some]
      by_cases hbefore : c.byte (c.pos2 - 1) ≠ backslash
      · have hnul : 0 ∈ (c.s.set c.pos2 0).drop c.pos1 := by
          rw [h.set_pos2, h.pos1, List.drop_left]
          simp
        rw [if_pos hbefore, if_pos ⟨rfl, hbefore⟩, Buffer.write_of_lt (hpos.trans hlen),
          Option.bind_eq_bind, Option.bind_some, Buffer.text_of_mem hnul]
        rfl
      · rw [if_neg hbefore, if_neg fun hboth => hbefore hboth.2]
    · rw [if_neg hcomma, if_neg fun hboth => hcomma hboth.1]

theorem finishInside_eq (h : Reads c front cur [] back) : c.finishInside = some c.finish := by
  have hnul : 0 ∈ c.s.drop c.pos1 := by
    rw [h.buffer, h.pos1, List.append_nil, List.append_assoc, List.drop_left]
    simp
  unfold Scan.finishInside Scan.finish
  rw [Buffer.text_of_mem hnul]
  by_cases hopen : c.pos1 < c.pos2
  · rw [if_pos hopen, if_pos hopen]
    rfl
  · rw [if_neg hopen, if_neg hopen]

end Reads

theorem loopInside_eq {fuel : Nat} {c : Scan} {front cur rest back : Bytes}
    (h : Reads c front cur rest back) (hfuel : rest.length < fuel) :
    ∃ c', c.loopInside fuel = some c' ∧ c'.finishInside = some (c.list ++ scan cur rest) := by
  induction fuel generalizing c front cur rest back with
  | zero => cases hfuel
  | succ fuel ih =>
      rw [Scan.loopInside]
      cases rest with
      | nil => exact ⟨c, if_neg h.not_pos2_lt, by rw [h.finishInside_eq, h.finish_eq]⟩
      | cons a rest =>
          obtain ⟨front', cur', rest', back', hreads, hle, hscan⟩ := h.next
          rw [List.length_cons] at hfuel
          obtain ⟨c', hloop, hfinish⟩ := ih hreads (by omega)
          rw [if_pos h.pos2_lt, h.stepInside_eq]
          exact ⟨c', hloop, by rw [hfinish, hscan]⟩

theorem construct_eq {options : Bytes} (hnul : 0 ∉ options) {fuel : Nat}
    (hfuel : options.length < fuel) : construct fuel options = some (parse options) := by
  have hskip := skipCommas_eq [] [0] hfuel
  rw [List.nil_append, List.length_nil, Nat.zero_add, Nat.zero_add] at hskip
  obtain ⟨c, hloop, hfinish⟩ := loopInside_eq (reads_start options hnul)
    (Nat.lt_of_le_of_lt (List.length_dropWhile_le _ _) hfuel)
  unfold construct
  dsimp only
  rw [hskip, Option.bind_eq_bind, Option.bind_some, hloop, Option.bind_eq_bind, Option.bind_some,
    hfinish, parse_eq_scan hnul, List.nil_append]

/-! ### Losing nothing -/

/-- A backslash goes when there is a byte behind it, and that byte stays whatever it is. -/
def unescape : Bytes → Bytes
  | [] => []
  | [c] => [c]
  | c :: d :: rest => if c = backslash then d :: unescape rest else c :: unescape (d :: rest)

/-- The entries with commas between them are `text`, but for one comma at its end. -/
def Joins (list : List Bytes) (text : Bytes) : Prop :=
  [comma].intercalate list = text ∨ [comma].intercalate list ++ [comma] = text

theorem Joins.cons {list : List Bytes} {text : Bytes} (h : Joins list text) (hlist : list ≠ [])
    (entry : Bytes) : Joins (entry :: list) (entry ++ comma :: text) := by
  obtain ⟨first, list, rfl⟩ := List.exists_cons_of_ne_nil hlist
  unfold Joins at h ⊢
  rw [List.intercalate_cons_cons]
  cases h with
  | inl hall => exact Or.inl (by rw [hall]; simp)
  | inr hcomma => exact Or.inr (by rw [← hcomma]; simp)

theorem scan_ne_nil {cur rest : Bytes} (hsome : cur ++ rest ≠ []) : scan cur rest ≠ [] := by
  fun_induction scan cur rest with
  | case1 => exact absurd rfl hsome
  | case2 cur hcur => simp
  | case3 cur c hseparates => simp
  | case4 cur c hinside => simp
  | case5 cur d rest ih => exact ih (by simp)
  | case6 cur c d rest hinside hseparates ih => simp
  | case7 cur c d rest hinside hnot ih => exact ih (by simp)

theorem joins_scan (cur rest : Bytes) : Joins (scan cur rest) (cur ++ unescape rest) := by
  fun_induction scan cur rest with
  | case1 => exact Or.inl (by simp [unescape])
  | case2 cur hcur => exact Or.inl (by simp [unescape])
  | case3 cur c hseparates => exact Or.inr (by simp [unescape, hseparates.1])
  | case4 cur c hinside => exact Or.inl (by simp [unescape])
  | case5 cur d rest ih =>
      rw [unescape, if_pos rfl]
      rwa [List.append_assoc, List.singleton_append] at ih
  | case6 cur c d rest hinside hseparates ih =>
      rw [unescape, if_neg hinside, hseparates.1]
      exact ih.cons (scan_ne_nil (by simp)) cur
  | case7 cur c d rest hinside hnot ih =>
      rw [unescape, if_neg hinside]
      rwa [List.append_assoc, List.singleton_append] at ih

/-- **The scanner.** For every option string both loops end, all accesses are to the bytes of the
string and its NUL, and the entries are all of the string that follows its first commas. -/
theorem construct_total {options : Bytes} (hnul : 0 ∉ options) {fuel : Nat}
    (hfuel : options.length < fuel) :
    ∃ list, construct fuel options = some list ∧
      Joins list (unescape (options.dropWhile (· = comma))) := by
  refine ⟨parse options, construct_eq hnul hfuel, ?_⟩
  rw [parse_eq_scan hnul]
  exact joins_scan [] _

/-- `,a\,,\` has the entries `a,` and `\`. -/
theorem construct_total_malformed :
    ∃ list, construct 9 [44, 97, 92, 44, 44, 92] = some list ∧
      Joins list (unescape ([44, 97, 92, 44, 44, 92].dropWhile (· = comma))) :=
  construct_total (by decide) (by decide)

end Dbus2vdr.Avahi

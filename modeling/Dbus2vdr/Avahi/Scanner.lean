import Dbus2vdr.CString

/-!
# The option scanner of `cAvahiHelper`

The constructor splits an option string at its commas and takes the backslashes out while it goes,
in one buffer and by positions. `scan` is the same as a function of lists, of the entry under way
and of what has not been read; `parse_eq_scan` is the refinement.
-/

namespace Dbus2vdr.Avahi

def comma : UInt8 := 44

def equals : UInt8 := 61

/-- The local variables of the constructor and `_list`; the buffer is the one `strdup` made. -/
structure Scan where
  s : Bytes
  len : Nat
  pos1 : Nat
  pos2 : Nat
  list : List Bytes := []

namespace Scan

def byte (c : Scan) (pos : Nat) : UInt8 := c.s.getD pos 0

/-- `memmove(s + pos2, s + pos2 + 1, len - pos2 - 1)` -/
def memmove (c : Scan) : Bytes :=
  c.s.take c.pos2 ++ (c.s.drop (c.pos2 + 1)).take (c.len - c.pos2 - 1) ++ c.s.drop (c.len - 1)

def entry (c : Scan) : Bytes := cString (c.s.drop c.pos1)

def step (c : Scan) : Scan :=
  if c.byte c.pos2 = backslash ∧ c.pos2 < c.len - 1 then
    { c with s := c.memmove.set (c.len - 1) 0, len := c.len - 1, pos2 := c.pos2 + 1 }
  else if c.byte c.pos2 = comma ∧ c.byte (c.pos2 - 1) ≠ backslash then
    let c := { c with s := c.s.set c.pos2 0 }
    { c with list := c.list ++ [c.entry], pos1 := c.pos2 + 1, pos2 := c.pos2 + 1 }
  else { c with pos2 := c.pos2 + 1 }

/-- `while (pos2 < len)`, for at most `fuel` turns. -/
def loop : Nat → Scan → Scan
  | 0, c => c
  | fuel + 1, c => if c.pos2 < c.len then loop fuel c.step else c

def finish (c : Scan) : List Bytes :=
  if c.pos1 < c.pos2 then c.list ++ [c.entry] else c.list

end Scan

def initialCommas (options : Bytes) : Nat := (options.takeWhile (· = comma)).length

/-- `_list` after the constructor. Every turn of the loop brings `pos2` and `len` closer, so the
length of the string is fuel enough. -/
def parse (options : Bytes) : List Bytes :=
  Scan.finish (Scan.loop options.length
    { s := options ++ [0]
      len := options.length
      pos1 := initialCommas options
      pos2 := initialCommas options })

/-! ### The scanner on lists -/

/-- The entries made of the entry under way and the bytes that follow. -/
def scan : Bytes → Bytes → List Bytes
  | cur, [] => if cur = [] then [] else [cur]
  | cur, [c] => if c = comma ∧ cur.getLast? ≠ some backslash then [cur] else [cur ++ [c]]
  | cur, c :: d :: rest =>
      if c = backslash then scan (cur ++ [d]) rest
      else if c = comma ∧ cur.getLast? ≠ some backslash then cur :: scan [] (d :: rest)
      else scan (cur ++ [c]) (d :: rest)

theorem scan_separator {cur : Bytes} (hlast : cur.getLast? ≠ some backslash) (rest : Bytes) :
    scan cur (comma :: rest) = cur :: scan [] rest := by
  have hne : comma ≠ backslash := by decide
  cases rest with
  | nil => simp [scan, hlast]
  | cons d rest => simp [scan, hlast, hne]

theorem scan_unescape (cur : Bytes) (d : UInt8) (rest : Bytes) :
    scan cur (backslash :: d :: rest) = scan (cur ++ [d]) rest := by
  rw [scan, if_pos rfl]

theorem scan_byte {cur rest : Bytes} {a : UInt8} (hmark : a = backslash → rest = [])
    (hcomma : a = comma → cur.getLast? = some backslash) :
    scan cur (a :: rest) = scan (cur ++ [a]) rest := by
  have hnot : ¬ (a = comma ∧ cur.getLast? ≠ some backslash) := fun h => h.2 (hcomma h.1)
  cases rest with
  | nil => simp [scan, hnot]
  | cons d rest =>
      have hne : a ≠ backslash := fun ha => by cases hmark ha
      rw [scan, if_neg hne, if_neg hnot]

/-- The buffer holds `cur`, the entry under way, and behind it `rest`, up to its NUL. -/
structure Reads (c : Scan) (front cur rest back : Bytes) : Prop where
  buffer : c.s = front ++ cur ++ rest ++ 0 :: back
  pos1 : c.pos1 = front.length
  pos2 : c.pos2 = front.length + cur.length
  len : c.len = front.length + cur.length + rest.length
  nulFree : 0 ∉ cur ++ rest
  /-- In front of an entry stands the NUL that ended the last one, or no comma comes now. -/
  start : cur = [] → front.getLast? = some 0 ∨ rest.head? ≠ some comma

namespace Reads

variable {c : Scan} {front cur rest back : Bytes} {a : UInt8}

theorem at_pos2 (h : Reads c front cur (a :: rest) back) : c.byte c.pos2 = a := by
  rw [Scan.byte, h.buffer, h.pos2, ← List.length_append, List.append_assoc (front ++ cur)]
  simp

theorem before_comma (h : Reads c front cur (comma :: rest) back) :
    c.byte (c.pos2 - 1) = backslash ↔ cur.getLast? = some backslash := by
  rcases List.eq_nil_or_concat cur with hcur | ⟨cur', b, rfl⟩
  · subst hcur
    have hzero : front.getLast? = some 0 := (h.start rfl).resolve_right (by simp)
    obtain ⟨front', rfl⟩ := List.getLast?_eq_some_iff.mp hzero
    have hat : c.byte (c.pos2 - 1) = 0 := by
      rw [Scan.byte, h.buffer, h.pos2]
      simp
    rw [hat]
    decide
  · have hat : c.byte (c.pos2 - 1) = b := by
      rw [Scan.byte, h.buffer, h.pos2]
      simp
    rw [hat]
    simp

theorem memmove_set {d : UInt8} (h : Reads c front cur (backslash :: d :: rest) back) :
    c.memmove.set (c.len - 1) 0 = front ++ (cur ++ [d]) ++ rest ++ 0 :: (0 :: back) := by
  have hpos : c.pos2 = (front ++ cur).length := by rw [h.pos2, List.length_append]
  have hlen : c.len - 1 = (front ++ cur).length + (rest.length + 1) := by
    rw [h.len, List.length_append, List.length_cons, List.length_cons]
    omega
  have hcount : c.len - c.pos2 - 1 = rest.length + 1 := by
    rw [h.len, h.pos2, List.length_cons, List.length_cons]
    omega
  have hs : c.s = (front ++ cur) ++ (backslash :: d :: (rest ++ 0 :: back)) := by
    rw [h.buffer]
    simp
  obtain ⟨x, hx⟩ : ∃ x, (d :: rest).drop rest.length = [x] :=
    List.length_eq_one_iff.mp (by simp)
  have hmoved : (c.s.drop (c.pos2 + 1)).take (c.len - c.pos2 - 1) = d :: rest := by
    rw [hs, hpos, List.drop_length_add_append, List.drop_succ_cons, List.drop_zero, ← hpos,
      hcount]
    simp
  have hbehind : c.s.drop (c.len - 1) = x :: 0 :: back := by
    rw [hs, hlen, List.drop_length_add_append, List.drop_succ_cons, ← List.cons_append,
      List.drop_append_of_le_length (by simp), hx]
    rfl
  have hfront : c.s.take c.pos2 = front ++ cur := by rw [hs, hpos, List.take_left]
  have hlast : c.len - 1 = (front ++ cur ++ d :: rest).length + 0 := by
    simp only [List.length_append, List.length_cons] at hlen ⊢
    omega
  rw [Scan.memmove, hfront, hmoved, hbehind, hlast, List.set_append_right _ _ (by omega),
    Nat.add_sub_cancel_left]
  simp

theorem step_unescape {d : UInt8} (h : Reads c front cur (backslash :: d :: rest) back) :
    Reads c.step front (cur ++ [d]) rest (0 :: back) ∧ c.step.list = c.list := by
  have hcond : c.byte c.pos2 = backslash ∧ c.pos2 < c.len - 1 := by
    refine ⟨h.at_pos2, ?_⟩
    have hlen := h.len
    rw [List.length_cons, List.length_cons] at hlen
    have hpos := h.pos2
    omega
  have hstep : c.step =
      { c with s := c.memmove.set (c.len - 1) 0, len := c.len - 1, pos2 := c.pos2 + 1 } :=
        if_pos hcond
  rw [hstep]
  refine ⟨⟨?_, h.pos1, ?_, ?_, ?_, fun hnil => by simp at hnil⟩, rfl⟩
  · exact h.memmove_set
  · simp only [h.pos2, List.length_append, List.length_cons, List.length_nil]
    omega
  · simp only [h.len, List.length_append, List.length_cons, List.length_nil]
    omega
  · have := h.nulFree
    simp only [List.mem_append, List.mem_cons, not_or] at this ⊢
    simp_all

theorem set_pos2 (h : Reads c front cur (a :: rest) back) :
    c.s.set c.pos2 0 = front ++ (cur ++ 0 :: (rest ++ 0 :: back)) := by
  rw [h.buffer, h.pos2, ← List.length_append, List.append_assoc (front ++ cur),
    List.set_append_right _ _ (Nat.le_refl _), Nat.sub_self]
  simp

theorem step_separator (h : Reads c front cur (comma :: rest) back)
    (hlast : cur.getLast? ≠ some backslash) :
    Reads c.step (front ++ cur ++ [0]) [] rest back ∧ c.step.list = c.list ++ [cur] := by
  have hpos : c.pos2 = (front ++ cur).length := by rw [h.pos2, List.length_append]
  have hset := h.set_pos2
  have hcur : 0 ∉ cur := fun hmem => h.nulFree (List.mem_append_left _ hmem)
  have hentry : cString ((c.s.set c.pos2 0).drop c.pos1) = cur := by
    rw [hset, h.pos1, List.drop_left, cString_append_nul hcur]
  have hnot : ¬ (c.byte c.pos2 = backslash ∧ c.pos2 < c.len - 1) := by
    rw [h.at_pos2]
    exact fun hcond => absurd hcond.1 (by decide)
  have hstep : c.step =
      { c with
        s := c.s.set c.pos2 0
        list := c.list ++ [cur]
        pos1 := c.pos2 + 1
        pos2 := c.pos2 + 1 } := by
    rw [Scan.step, if_neg hnot, if_pos ⟨h.at_pos2, fun heq => hlast (h.before_comma.mp heq)⟩]
    simp only [Scan.entry, hentry]
  rw [hstep]
  refine ⟨⟨?_, ?_, ?_, ?_, ?_, fun _ => Or.inl (by simp)⟩, rfl⟩
  · simp [hset]
  · simp [hpos, Nat.add_assoc]
  · simp [hpos, Nat.add_assoc]
  · simp only [h.len, List.length_append, List.length_cons, List.length_nil]
    omega
  · intro hmem
    exact h.nulFree (List.mem_append_right _ (List.mem_cons_of_mem _ hmem))

theorem step_byte (h : Reads c front cur (a :: rest) back) (hmark : a = backslash → rest = [])
    (hcomma : a = comma → cur.getLast? = some backslash) :
    Reads c.step front (cur ++ [a]) rest back ∧ c.step.list = c.list := by
  have hnot : ¬ (c.byte c.pos2 = backslash ∧ c.pos2 < c.len - 1) := by
    rw [h.at_pos2]
    rintro ⟨ha, hlt⟩
    have hlen := h.len
    rw [hmark ha, List.length_singleton] at hlen
    have hpos := h.pos2
    omega
  have hinside : ¬ (c.byte c.pos2 = comma ∧ c.byte (c.pos2 - 1) ≠ backslash) := by
    rw [h.at_pos2]
    rintro ⟨rfl, hbefore⟩
    exact hbefore (h.before_comma.mpr (hcomma rfl))
  have hstep : c.step = { c with pos2 := c.pos2 + 1 } := by
    rw [Scan.step, if_neg hnot, if_neg hinside]
  rw [hstep]
  refine ⟨⟨?_, h.pos1, ?_, ?_, ?_, fun hnil => by simp at hnil⟩, rfl⟩
  · simp [h.buffer]
  · simp only [h.pos2, List.length_append, List.length_cons, List.length_nil]
    omega
  · simp only [h.len, List.length_append, List.length_cons, List.length_nil]
    omega
  · rw [List.append_assoc]
    exact h.nulFree

theorem finish_eq (h : Reads c front cur [] back) : c.finish = c.list ++ scan cur [] := by
  have hcur : 0 ∉ cur := fun hmem => h.nulFree (List.mem_append_left _ hmem)
  have hentry : c.entry = cur := by
    rw [Scan.entry, h.buffer, h.pos1, List.append_nil, List.append_assoc, List.drop_left,
      cString_append_nul hcur]
  rw [Scan.finish, hentry, h.pos1, h.pos2, scan]
  cases cur with
  | nil => simp
  | cons b cur => simp

/-- A turn of the loop takes one or two bytes out of `rest`, and what `scan` makes is the same. -/
theorem next (h : Reads c front cur (a :: rest) back) :
    ∃ front' cur' rest' back', Reads c.step front' cur' rest' back' ∧
    rest'.length ≤ rest.length ∧
      c.step.list ++ scan cur' rest' = c.list ++ scan cur (a :: rest) := by
  by_cases hseparates : a = comma ∧ cur.getLast? ≠ some backslash
  · obtain ⟨rfl, hlast⟩ := hseparates
    obtain ⟨hreads, hlist⟩ := h.step_separator hlast
    refine ⟨_, _, _, _, hreads, Nat.le_refl _, ?_⟩
    rw [hlist, scan_separator hlast, List.append_assoc, List.singleton_append]
  · by_cases hescapes : a = backslash ∧ rest ≠ []
    · obtain ⟨rfl, hne⟩ := hescapes
      obtain ⟨d, rest, rfl⟩ := List.exists_cons_of_ne_nil hne
      obtain ⟨hreads, hlist⟩ := h.step_unescape
      refine ⟨_, _, _, _, hreads, Nat.le_succ _, ?_⟩
      rw [hlist, scan_unescape]
    · have hmark : a = backslash → rest = [] := fun ha =>
        not_not.mp fun hne => hescapes ⟨ha, hne⟩
      have hcomma : a = comma → cur.getLast? = some backslash := fun ha =>
        not_not.mp fun hne => hseparates ⟨ha, hne⟩
      obtain ⟨hreads, hlist⟩ := h.step_byte hmark hcomma
      refine ⟨_, _, _, _, hreads, Nat.le_refl _, ?_⟩
      rw [hlist, scan_byte hmark hcomma]

theorem pos2_lt (h : Reads c front cur (a :: rest) back) : c.pos2 < c.len := by
  rw [h.len, h.pos2, List.length_cons]
  omega

theorem not_pos2_lt (h : Reads c front cur [] back) : ¬ c.pos2 < c.len := by
  rw [h.len, h.pos2, List.length_nil]
  omega

end Reads

/-- **Refinement.** From a buffer that holds `cur` and `rest` on, the loop makes the entries that
`scan` makes of the two, as soon as it has a turn for every byte that is left. -/
theorem loop_eq_scan (fuel : Nat) {c : Scan} {front cur rest back : Bytes}
    (h : Reads c front cur rest back) (hfuel : rest.length ≤ fuel) :
    (c.loop fuel).finish = c.list ++ scan cur rest := by
  induction fuel generalizing c front cur rest back with
  | zero =>
      obtain rfl := List.eq_nil_of_length_eq_zero (Nat.le_zero.mp hfuel)
      exact h.finish_eq
  | succ fuel ih =>
      cases rest with
      | nil =>
          rw [Scan.loop, if_neg h.not_pos2_lt]
          exact h.finish_eq
      | cons a rest =>
          obtain ⟨front', cur', rest', back', hreads, hle, hscan⟩ := h.next
          rw [List.length_cons] at hfuel
          rw [Scan.loop, if_pos h.pos2_lt, ih hreads (by omega), hscan]

theorem reads_start (options : Bytes) (hnul : 0 ∉ options) :
    Reads
      { s := options ++ [0]
        len := options.length
        pos1 := initialCommas options
        pos2 := initialCommas options }
      (options.takeWhile (· = comma)) [] (options.dropWhile (· = comma)) [] := by
  have hsplit : options.takeWhile (· = comma) ++ options.dropWhile (· = comma) = options :=
    List.takeWhile_append_dropWhile
  refine ⟨?_, rfl, rfl, ?_, ?_, fun _ => Or.inr fun hhead => ?_⟩
  · rw [List.append_nil, hsplit]
  · rw [List.length_nil, Nat.add_zero, ← List.length_append, hsplit]
  · rw [List.nil_append]
    exact fun hmem => hnul ((List.dropWhile_suffix _).subset hmem)
  · have := List.head?_dropWhile_not (fun b => decide (b = comma)) options
    rw [hhead] at this
    simp at this

theorem parse_eq_scan {options : Bytes} (hnul : 0 ∉ options) :
    parse options = scan [] (options.dropWhile (· = comma)) := by
  rw [parse, loop_eq_scan options.length (reads_start options hnul)
    (List.length_dropWhile_le _ _), List.nil_append]

end Dbus2vdr.Avahi

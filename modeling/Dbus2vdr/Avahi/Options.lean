import Dbus2vdr.Avahi.Scanner

/-!
# Reading options back

`avahi-helper.h` promises that commas and backslashes in values are safe when they are escaped. The
scanner looks for a backslash in front of a comma among the bytes it has already unescaped, so a
value that ends in a backslash swallows the separator behind it. `decodes_iff` says that this is the
only way to lose a value.
-/

namespace Dbus2vdr.Avahi

/-- The condition of `Get` and `Count` on one entry, with what stands behind the equals sign. -/
def valueOf (name text : Bytes) : Option Bytes :=
  if name.length < text.length ∧ text.take name.length = name ∧
    text.getD name.length 0 = equals then
    some (text.drop (name.length + 1))
  else none

def getLoop (name : Bytes) : List Bytes → Int → Option Bytes
  | [], _ => none
  | text :: list, number =>
      match valueOf name text with
      | some value => if number - 1 < 0 then some value else getLoop name list (number - 1)
      | none => getLoop name list number

def get (list : List Bytes) (name : Bytes) (number : Int) : Option Bytes :=
  if name = [] then none else getLoop name list number

theorem getLoop_eq (name : Bytes) (list : List Bytes) (n : Nat) :
    getLoop name list n = (list.filterMap (valueOf name))[n]? := by
  induction list generalizing n with
  | nil => rfl
  | cons text list ih =>
      rw [getLoop]
      cases hvalue : valueOf name text with
      | none => rw [List.filterMap_cons_none hvalue, ← ih]
      | some value =>
          rw [List.filterMap_cons_some hvalue]
          cases n with
          | zero => rfl
          | succ n =>
              have hnumber : ((n + 1 : Nat) : Int) - 1 = (n : Int) := by omega
              simp only [hnumber, List.getElem?_cons_succ, ← ih]
              rw [if_neg (by omega)]

/-! ### The format -/

structure Key where
  bytes : Bytes
  ne_nil : bytes ≠ []
  clean : ∀ b ∈ bytes, b ≠ 0 ∧ b ≠ equals ∧ b ≠ comma ∧ b ≠ backslash

structure Pair where
  key : Key
  value : Bytes
  nulFree : 0 ∉ value

def Pair.text (p : Pair) : Bytes := p.key.bytes ++ equals :: p.value

/-- `"%s=%s"` with the value escaped by `strescape(value, "\\,")`. -/
def Pair.encode (p : Pair) : Bytes := p.key.bytes ++ equals :: strescape p.value [backslash, comma]

def encode (pairs : List Pair) : Bytes := [comma].intercalate (pairs.map Pair.encode)

def valuesOf (key : Key) (pairs : List Pair) : List Bytes :=
  (pairs.filter fun p => p.key.bytes = key.bytes).map (·.value)

/-- `Get` finds every value of every key, and nothing under a key that is not there. -/
def Decodes (pairs : List Pair) : Prop :=
  (∀ (key : Key) (n : Nat), n < (valuesOf key pairs).length →
    get (parse (encode pairs)) key.bytes n = (valuesOf key pairs)[n]?) ∧
  ∀ (key : Key) (n : Nat), valuesOf key pairs = [] →
    get (parse (encode pairs)) key.bytes n = none

/-- No value but the last one ends in a backslash. -/
def SafeEnds (pairs : List Pair) : Prop :=
  ∀ p ∈ pairs.dropLast, p.value.getLast? ≠ some backslash

/-! ### Scanning a pair -/

theorem scan_plain {p : Bytes} (hp : ∀ b ∈ p, b ≠ comma ∧ b ≠ backslash)
    (cur rest : Bytes) :
    scan cur (p ++ rest) = scan (cur ++ p) rest := by
  induction p generalizing cur with
  | nil => simp
  | cons b p ih =>
      have hb := hp b List.mem_cons_self
      rw [List.cons_append, scan_byte (fun h => absurd h hb.2) (fun h => absurd h hb.1),
        ih fun c hc => hp c (List.mem_cons_of_mem b hc), List.append_assoc, List.singleton_append]

theorem scan_escape (value cur rest : Bytes) :
    scan cur (Escape.escape backslash [backslash, comma] value ++ rest) =
      scan (cur ++ value) rest := by
  induction value generalizing cur with
  | nil => simp
  | cons b value ih =>
      by_cases hb : b ∈ [backslash, comma]
      · rw [Escape.escape_cons_of_mem hb, List.cons_append, List.cons_append, scan_unescape, ih,
          List.append_assoc, List.singleton_append]
      · rw [Escape.escape_cons_of_notMem hb, List.cons_append]
        simp only [List.mem_cons, List.not_mem_nil, or_false, not_or] at hb
        rw [scan_byte (fun h => absurd h hb.1) (fun h => absurd h hb.2), ih, List.append_assoc,
          List.singleton_append]

theorem scan_encode (p : Pair) (cur rest : Bytes) :
    scan cur (p.encode ++ rest) = scan (cur ++ p.text) rest := by
  have hkey : ∀ b ∈ p.key.bytes ++ [equals], b ≠ comma ∧ b ≠ backslash := by
    intro b hb
    rcases List.mem_append.mp hb with hb | hb
    · exact (p.key.clean b hb).2.2
    · rw [List.mem_singleton.mp hb]
      decide
  rw [Pair.encode, strescape_eq, List.append_cons, List.append_assoc, scan_plain hkey, scan_escape,
    Pair.text]
  simp

theorem scan_head {cur : Bytes} (hcur : cur ≠ []) (rest : Bytes) :
    ∃ more list, scan cur rest = (cur ++ more) :: list := by
  fun_induction scan cur rest with
  | case1 => exact absurd rfl hcur
  | case2 cur hne => exact ⟨[], [], by rw [List.append_nil]⟩
  | case3 cur c hsep => exact ⟨[], [], by rw [List.append_nil]⟩
  | case4 cur c hnot => exact ⟨[c], [], rfl⟩
  | case5 cur d rest ih =>
      obtain ⟨more, list, hscan⟩ := ih (by simp)
      exact ⟨d :: more, list, by rw [hscan, List.append_cons cur d more]⟩
  | case6 cur c d rest hne hsep ih => exact ⟨[], scan [] (d :: rest), by rw [List.append_nil]⟩
  | case7 cur c d rest hne hnot ih =>
      obtain ⟨more, list, hscan⟩ := ih (by simp)
      exact ⟨c :: more, list, by rw [hscan, List.append_cons cur c more]⟩

theorem encode_singleton (p : Pair) : encode [p] = p.encode := by
  simp [encode, List.intercalate]

theorem encode_cons_cons (p q : Pair) (pairs : List Pair) :
    encode (p :: q :: pairs) = p.encode ++ comma :: encode (q :: pairs) := by
  simp [encode, List.intercalate]

theorem text_ne_nil (p : Pair) : p.text ≠ [] := by
  simp [Pair.text]

theorem getLast?_text (p : Pair) :
    p.text.getLast? = some backslash ↔ p.value.getLast? = some backslash := by
  rcases List.eq_nil_or_concat p.value with hvalue | ⟨value, b, hvalue⟩
  · rw [Pair.text, hvalue, List.getLast?_concat]
    exact iff_of_false (by decide) (by simp)
  · have htext : p.text = (p.key.bytes ++ equals :: value) ++ [b] := by
      rw [Pair.text, hvalue]
      simp
    rw [htext, hvalue, List.getLast?_concat, List.concat_eq_append, List.getLast?_concat]

/-- A pair in front of others: its separator ends the entry, unless the value ends in a
backslash. -/
theorem scan_pair (p q : Pair) (pairs : List Pair) :
    scan [] (encode (p :: q :: pairs)) =
      if p.value.getLast? = some backslash then
        scan (p.text ++ [comma]) (encode (q :: pairs))
      else p.text :: scan [] (encode (q :: pairs)) := by
  rw [encode_cons_cons, scan_encode, List.nil_append]
  split_ifs with hback
  · exact scan_byte (fun h => absurd h (by decide)) fun _ => (getLast?_text p).mpr hback
  · exact scan_separator (fun h => hback ((getLast?_text p).mp h)) _

theorem scan_last (p : Pair) : scan [] (encode [p]) = [p.text] := by
  have hscan := scan_encode p [] []
  rw [List.append_nil, List.nil_append] at hscan
  rw [encode_singleton, hscan, scan, if_neg (text_ne_nil p)]

/-! ### Looking a key up -/

theorem valueOf_eq_some {name text value : Bytes} :
    valueOf name text = some value ↔ text = name ++ equals :: value := by
  unfold valueOf
  constructor
  · intro h
    split_ifs at h with hcond
    obtain ⟨hlength, hname, hequals⟩ := hcond
    rw [Option.some.injEq] at h
    rw [List.getD_eq_getElem?_getD, List.getElem?_eq_getElem hlength, Option.getD_some] at hequals
    calc text = text.take name.length ++ text.drop name.length := (List.take_append_drop _ _).symm
      _ = name ++ equals :: value := by rw [hname, List.drop_eq_getElem_cons hlength, hequals, h]
  · rintro rfl
    have hdrop : (name ++ equals :: value).drop (name.length + 1) = value := by
      rw [List.drop_length_add_append, List.drop_succ_cons, List.drop_zero]
    rw [if_pos ⟨by simp, List.take_left, by simp⟩, hdrop]

theorem key_eq_of_append {k l : Key} {v w : Bytes}
    (h : k.bytes ++ equals :: v = l.bytes ++ equals :: w) : k.bytes = l.bytes := by
  have hfront : ∀ (key : Key) (value : Bytes),
      (key.bytes ++ equals :: value).takeWhile (· ≠ equals) = key.bytes := by
    intro key value
    rw [List.takeWhile_append_of_pos fun b hb => by simpa using (key.clean b hb).2.1]
    simp
  rw [← hfront k v, h, hfront l w]

theorem valueOf_text (key : Key) (p : Pair) (more : Bytes) :
    valueOf key.bytes (p.text ++ more) =
      if p.key.bytes = key.bytes then some (p.value ++ more) else none := by
  have htext : p.text ++ more = p.key.bytes ++ equals :: (p.value ++ more) := by simp [Pair.text]
  split_ifs with hkey
  · exact valueOf_eq_some.mpr (by rw [htext, hkey])
  · refine Option.eq_none_iff_forall_ne_some.mpr fun value hvalue => hkey ?_
    exact key_eq_of_append (htext.symm.trans (valueOf_eq_some.mp hvalue))

theorem filterMap_texts (key : Key) (pairs : List Pair) :
    (pairs.map Pair.text).filterMap (valueOf key.bytes) = valuesOf key pairs := by
  induction pairs with
  | nil => rfl
  | cons p pairs ih =>
      have hvalue := valueOf_text key p []
      rw [List.append_nil, List.append_nil] at hvalue
      rw [List.map_cons, valuesOf, List.filter_cons]
      by_cases hkey : p.key.bytes = key.bytes
      · rw [if_pos hkey] at hvalue
        rw [List.filterMap_cons_some hvalue, if_pos (by simpa using hkey), List.map_cons, ih,
          valuesOf]
      · rw [if_neg hkey] at hvalue
        rw [List.filterMap_cons_none hvalue, if_neg (by simpa using hkey), ih, valuesOf]

/-! ### The round trip -/

theorem safeEnds_cons_cons {p q : Pair} {pairs : List Pair} :
    SafeEnds (p :: q :: pairs) ↔
      p.value.getLast? ≠ some backslash ∧ SafeEnds (q :: pairs) := by
  simp [SafeEnds, List.dropLast_cons_of_ne_nil]

theorem scan_of_safeEnds {pairs : List Pair} (hpairs : SafeEnds pairs) :
    scan [] (encode pairs) = pairs.map Pair.text := by
  induction pairs with
  | nil => rfl
  | cons p pairs ih =>
      cases pairs with
      | nil => exact scan_last p
      | cons q pairs =>
          obtain ⟨hp, hrest⟩ := safeEnds_cons_cons.mp hpairs
          rw [scan_pair, if_neg hp, ih hrest]
          rfl

/-- Entries that give every key its values, none of them missing or changed. -/
def Faithful (entries : List Bytes) (pairs : List Pair) : Prop :=
  ∀ (key : Key) (n : Nat), n < (valuesOf key pairs).length →
    (entries.filterMap (valueOf key.bytes))[n]? = (valuesOf key pairs)[n]?

theorem valuesOf_cons (key : Key) (p : Pair) (pairs : List Pair) :
    valuesOf key (p :: pairs) =
      if p.key.bytes = key.bytes then p.value :: valuesOf key pairs else valuesOf key pairs := by
  unfold valuesOf
  rw [List.filter_cons]
  by_cases hkey : p.key.bytes = key.bytes <;> simp [hkey]

theorem Faithful.tail {p : Pair} {pairs : List Pair} {entries : List Bytes}
    (h : Faithful (p.text :: entries) (p :: pairs)) : Faithful entries pairs := by
  intro key n hn
  have hvalue := valueOf_text key p []
  rw [List.append_nil, List.append_nil] at hvalue
  have hcons := valuesOf_cons key p pairs
  by_cases hkey : p.key.bytes = key.bytes
  · rw [if_pos hkey] at hvalue hcons
    have hnext := h key (n + 1) (by rw [hcons, List.length_cons]; omega)
    rwa [List.filterMap_cons_some hvalue, hcons, List.getElem?_cons_succ,
      List.getElem?_cons_succ] at hnext
  · rw [if_neg hkey] at hvalue hcons
    have hnext := h key n (by rw [hcons]; exact hn)
    rwa [List.filterMap_cons_none hvalue, hcons] at hnext

theorem safeEnds_of_faithful {pairs : List Pair}
    (h : Faithful (scan [] (encode pairs)) pairs) : SafeEnds pairs := by
  induction pairs with
  | nil => exact fun p hp => by cases hp
  | cons p pairs ih =>
      cases pairs with
      | nil => exact fun p hp => by cases hp
      | cons q pairs =>
          rw [scan_pair] at h
          have hsafe : p.value.getLast? ≠ some backslash := by
            intro hback
            rw [if_pos hback] at h
            have hread : p.text ++ [comma] ≠ [] := by simp
            obtain ⟨more, list, hscan⟩ := scan_head hread (encode (q :: pairs))
            have hvalue := valueOf_text p.key p (comma :: more)
            rw [if_pos rfl, List.append_cons] at hvalue
            have hcons := valuesOf_cons p.key p (q :: pairs)
            rw [if_pos rfl] at hcons
            have hfirst := h p.key 0 (by rw [hcons]; exact Nat.succ_pos _)
            rw [hscan, List.filterMap_cons_some hvalue, hcons] at hfirst
            simp at hfirst
          rw [if_neg hsafe] at h
          exact safeEnds_cons_cons.mpr ⟨hsafe, ih h.tail⟩

theorem notMem_encode_pair (p : Pair) : 0 ∉ p.encode := by
  rw [Pair.encode, strescape_eq]
  intro hmem
  rcases List.mem_append.mp hmem with hkey | hrest
  · exact (p.key.clean 0 hkey).1 rfl
  · rcases List.mem_cons.mp hrest with hequals | hvalue
    · exact absurd hequals (by decide)
    · rcases Escape.mem_escape hvalue with hmark | hvalue
      · exact absurd hmark (by decide)
      · exact p.nulFree hvalue

theorem notMem_encode (pairs : List Pair) : 0 ∉ encode pairs := by
  induction pairs with
  | nil => exact List.not_mem_nil
  | cons p pairs ih =>
      cases pairs with
      | nil =>
          rw [encode_singleton]
          exact notMem_encode_pair p
      | cons q pairs =>
          rw [encode_cons_cons]
          intro hmem
          rcases List.mem_append.mp hmem with hpair | hrest
          · exact notMem_encode_pair p hpair
          · rcases List.mem_cons.mp hrest with hcomma | hrest
            · exact absurd hcomma (by decide)
            · exact ih hrest

theorem parse_encode (pairs : List Pair) : parse (encode pairs) = scan [] (encode pairs) := by
  rw [parse_eq_scan (notMem_encode pairs)]
  cases pairs with
  | nil => rfl
  | cons p pairs =>
      obtain ⟨b, key, hkey⟩ := List.exists_cons_of_ne_nil p.key.ne_nil
      have hb : b ≠ comma := (p.key.clean b (by rw [hkey]; exact List.mem_cons_self)).2.2.1
      obtain ⟨rest, hencode⟩ : ∃ rest, encode (p :: pairs) = b :: rest := by
        cases pairs with
        | nil => exact ⟨_, by rw [encode_singleton, Pair.encode, hkey]; rfl⟩
        | cons q pairs => exact ⟨_, by rw [encode_cons_cons, Pair.encode, hkey]; rfl⟩
      rw [hencode, List.dropWhile_cons_of_neg (by simpa using hb)]

theorem get_eq (list : List Bytes) (key : Key) (n : Nat) :
    get list key.bytes n = (list.filterMap (valueOf key.bytes))[n]? := by
  rw [get, if_neg key.ne_nil, getLoop_eq]

/-- **Decoding.** For every list of pairs, `cAvahiHelper` gives all values back if and only if none
of them but the last ends in a backslash. -/
theorem decodes_iff (pairs : List Pair) : Decodes pairs ↔ SafeEnds pairs := by
  simp only [Decodes, get_eq, parse_encode]
  constructor
  · rintro ⟨hvalues, -⟩
    exact safeEnds_of_faithful hvalues
  · intro hsafe
    rw [scan_of_safeEnds hsafe]
    refine ⟨fun key n _ => ?_, fun key n hnone => ?_⟩
    · rw [filterMap_texts]
    · rw [filterMap_texts, hnone, List.getElem?_nil]

/-- A value that is a single backslash, with another pair behind it. -/
theorem separator_swallowed : ¬ ∀ pairs : List Pair, Decodes pairs := by
  intro hall
  let name : Key := ⟨ascii "name", by decide, by decide⟩
  let port : Key := ⟨ascii "port", by decide, by decide⟩
  have hvalue :=
    (hall [⟨name, [backslash], by decide⟩, ⟨port, ascii "80", by decide⟩]).1 name 0
    (by decide)
  exact absurd hvalue (by decide)

end Dbus2vdr.Avahi

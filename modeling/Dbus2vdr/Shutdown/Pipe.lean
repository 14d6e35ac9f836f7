import Dbus2vdr.Lib.Buffer
import Dbus2vdr.Shutdown.Verdict

/-!
# Reading what a hook prints

`ConfirmShutdown` and its wrapper have the same loop around `fgetc`. The buffer grows by 20 bytes
whenever `l` is a multiple of 20, and a last byte is kept for the NUL. `readHook_bounds` follows `l`
and the size of the buffer through all lengths, and through the failure of any `realloc`.
-/

namespace Dbus2vdr.Shutdown

/-- The loop from `tmp` and `l` on, for the bytes that are still to come. `granted l` says whether
`realloc(tmp, l + 21)` has a new buffer, and `junk` what its new bytes hold. There is no result when
`l` gets too large for an `int`, or when a byte is stored outside of the buffer. -/
def readLoop (junk : Nat → UInt8) (granted : Nat → Bool) :
    Bytes → Option Bytes → Nat → Option (Option Bytes × Nat)
  | [], tmp, l => some (tmp, l)
  | c :: input, tmp, l => do
      if l % 20 = 0 then
        if intMax < l + 21 then none
        else if granted l then
          let buffer ← Buffer.write (Buffer.resize junk (tmp.getD []) (l + 21)) l c
          readLoop junk granted input (some buffer) (l + 1)
        else some (tmp, l)
      else
        let buffer ← Buffer.write (← tmp) l c
        readLoop junk granted input (some buffer) (l + 1)

/-- `tmp` behind the loop and `if (tmp) tmp[l] = 0;`. -/
def readHook (junk : Nat → UInt8) (granted : Nat → Bool) (input : Bytes) :
    Option (Option Bytes) := do
  let (tmp, l) ← readLoop junk granted input none 0
  match tmp with
  | none => some none
  | some buffer => (Buffer.write buffer l 0).map some

/-- The loop stores `n` bytes of the input: it comes to the end, or to a `realloc` that fails. -/
structure EndsAt (granted : Nat → Bool) (input : Bytes) (n : Nat) : Prop where
  reason : n = input.length ∨ n < input.length ∧ n % 20 = 0 ∧ granted n = false
  before : ∀ l < n, l % 20 = 0 → granted l = true

/-- The bytes that have been stored, in a buffer with room for one more. -/
inductive Filled : Bytes → Option Bytes → Prop
  | empty : Filled [] none
  | block {done back : Bytes} (k : Nat) (hlow : 20 * k < done.length)
      (hhigh : done.length ≤ 20 * k + 20)
      (hsize : (done ++ back).length = 20 * k + 21) : Filled done (some (done ++ back))

theorem exists_cons_of_length {done back : Bytes} {n : Nat} (hn : (done ++ back).length = n)
    (hlt : done.length < n) : ∃ b back', back = b :: back' := by
  refine List.exists_cons_of_ne_nil fun hnil => ?_
  rw [hnil, List.append_nil] at hn
  exact Nat.ne_of_lt hlt hn

theorem Filled.grow {done : Bytes} {tmp : Option Bytes} (h : Filled done tmp)
    (hmod : done.length % 20 = 0) (junk : Nat → UInt8) (c : UInt8) :
    ∃ buffer, Buffer.write (Buffer.resize junk (tmp.getD []) (done.length + 21)) done.length c =
      some buffer ∧ Filled (done ++ [c]) (some buffer) := by
  obtain ⟨back, hback⟩ : ∃ back,
      Buffer.resize junk (tmp.getD []) (done.length + 21) = done ++ back := by
    cases h with
    | empty => exact ⟨_, rfl⟩
    | @block done back k hlow hhigh hsize =>
        obtain ⟨new, hnew⟩ :=
          Buffer.resize_of_le junk (s := done ++ back) (n := done.length + 21) (by omega)
        exact ⟨back ++ new, by rw [Option.getD_some, hnew, List.append_assoc]⟩
  have hlength : (done ++ back).length = done.length + 21 := by rw [← hback, Buffer.length_resize]
  obtain ⟨b, back, rfl⟩ := exists_cons_of_length hlength (by omega)
  refine ⟨done ++ c :: back, by rw [hback, Buffer.write_append], ?_⟩
  rw [List.append_cons done c back]
  refine .block (done.length / 20) ?_ ?_ ?_
  all_goals
    simp only [List.length_append, List.length_cons, List.length_nil] at hlength ⊢
    omega

theorem Filled.store {done : Bytes} {tmp : Option Bytes} (h : Filled done tmp)
    (hmod : done.length % 20 ≠ 0) (c : UInt8) :
    ∃ buffer buffer', tmp = some buffer ∧ Buffer.write buffer done.length c = some buffer' ∧
      Filled (done ++ [c]) (some buffer') := by
  cases h with
  | empty => exact absurd rfl hmod
  | @block done back k hlow hhigh hsize =>
      obtain ⟨b, back, rfl⟩ := exists_cons_of_length hsize (by omega)
      refine ⟨_, done ++ c :: back, rfl, Buffer.write_append .., ?_⟩
      rw [List.append_cons done c back]
      refine .block k ?_ ?_ ?_
      all_goals
        simp only [List.length_append, List.length_cons, List.length_nil] at hsize ⊢
        omega

theorem granted_concat {granted : Nat → Bool} {done : Bytes}
    (hbefore : ∀ l < done.length, l % 20 = 0 → granted l = true) (c : UInt8)
    (hlast : done.length % 20 = 0 → granted done.length = true) :
    ∀ l < (done ++ [c]).length, l % 20 = 0 → granted l = true := by
  intro l hl hmod
  rw [List.length_append, List.length_singleton] at hl
  cases Nat.lt_or_eq_of_le (Nat.le_of_lt_succ hl) with
  | inl hlt => exact hbefore l hlt hmod
  | inr heq => exact heq ▸ hlast (heq ▸ hmod)

theorem readLoop_eq (junk : Nat → UInt8) (granted : Nat → Bool) (input : Bytes) {done : Bytes}
    {tmp : Option Bytes} (h : Filled done tmp)
    (hfits : ((done ++ input).length : Int) < intMax - 21)
    (hbefore : ∀ l < done.length, l % 20 = 0 → granted l = true) :
    ∃ n tmp', readLoop junk granted input tmp done.length = some (tmp', n) ∧
      Filled ((done ++ input).take n) tmp' ∧ EndsAt granted (done ++ input) n := by
  induction input generalizing done tmp with
  | nil =>
      refine ⟨done.length, tmp, rfl, ?_, Or.inl ?_, hbefore⟩
      · rwa [List.append_nil, List.take_length]
      · rw [List.append_nil]
  | cons c input ih =>
      rw [List.append_cons] at hfits ⊢
      by_cases hmod : done.length % 20 = 0
      · have hfit : ¬ intMax < (done.length : Int) + 21 := by
          simp only [List.length_append] at hfits
          omega
        cases hgranted : granted done.length with
        | true =>
            obtain ⟨buffer, hwrite, hfilled⟩ := h.grow hmod junk c
            have hnext := granted_concat hbefore c fun _ => hgranted
            obtain ⟨n, tmp', hloop, hrest⟩ := ih hfilled hfits hnext
            refine ⟨n, tmp', ?_, hrest⟩
            rw [readLoop, if_pos hmod, if_neg hfit, if_pos hgranted, hwrite]
            simpa using hloop
        | false =>
            refine ⟨done.length, tmp, ?_, ?_, Or.inr ⟨?_, hmod, hgranted⟩, hbefore⟩
            · rw [readLoop, if_pos hmod, if_neg hfit, hgranted]
              rfl
            · rwa [← List.append_cons, List.take_left]
            · simp
      · obtain ⟨buffer, buffer', rfl, hwrite, hfilled⟩ := h.store hmod c
        have hnext := granted_concat hbefore c fun hzero => absurd hzero hmod
        obtain ⟨n, tmp', hloop, hrest⟩ := ih hfilled hfits hnext
        refine ⟨n, tmp', ?_, hrest⟩
        rw [readLoop, if_neg hmod]
        simpa [hwrite] using hloop

theorem Filled.terminate {done : Bytes} {tmp : Option Bytes} (h : Filled done tmp) :
    (tmp = none ∧ done = []) ∨ ∃ buffer rest, tmp = some buffer ∧ done ≠ [] ∧
      Buffer.write buffer done.length 0 = some (done ++ 0 :: rest) := by
  cases h with
  | empty => exact Or.inl ⟨rfl, rfl⟩
  | @block done back k hlow hhigh hsize =>
      obtain ⟨b, back, rfl⟩ := exists_cons_of_length hsize (by omega)
      refine Or.inr ⟨_, back, rfl, ?_, Buffer.write_append ..⟩
      rintro rfl
      cases hlow

theorem readHook_cases (junk : Nat → UInt8) (granted : Nat → Bool) (input : Bytes)
    (hfits : (input.length : Int) < intMax - 21) :
    ∃ n tmp, readHook junk granted input = some tmp ∧ EndsAt granted input n ∧
      ((tmp = none ∧ n = 0) ∨ ∃ rest, tmp = some (input.take n ++ 0 :: rest) ∧
        input.take n ≠ []) := by
  obtain ⟨n, tmp, hloop, hfilled, hends⟩ :=
    readLoop_eq junk granted input .empty hfits fun l hl => absurd hl (Nat.not_lt_zero l)
  rw [List.nil_append] at hfilled hends
  have hn : n ≤ input.length := by
    cases hends.reason with
    | inl hend => exact hend.le
    | inr hfailed => exact hfailed.1.le
  have hlength : (input.take n).length = n := by rw [List.length_take, Nat.min_eq_left hn]
  change readLoop junk granted input none 0 = _ at hloop
  unfold readHook
  rw [hloop]
  rcases hfilled.terminate with ⟨rfl, hempty⟩ | ⟨buffer, rest, rfl, hsome, hwrite⟩
  · rw [hempty, List.length_nil] at hlength
    exact ⟨n, none, rfl, hends, Or.inl ⟨rfl, hlength.symm⟩⟩
  · rw [hlength] at hwrite
    exact ⟨n, some (input.take n ++ 0 :: rest), by simp [hwrite], hends,
      Or.inr ⟨rest, rfl, hsome⟩⟩

/-- **Reading.** For every input and wherever `realloc` fails, no byte is stored outside of the
buffer, and what has been read until then is in it with a NUL behind it; there is no buffer only
when nothing has been stored. -/
theorem readHook_bounds (junk : Nat → UInt8) (granted : Nat → Bool) (input : Bytes)
    (hfits : (input.length : Int) < intMax - 21) :
    ∃ n tmp, readHook junk granted input = some tmp ∧ EndsAt granted input n ∧
    (tmp = none ↔ n = 0) ∧
      ∀ buffer ∈ tmp, ∃ rest, buffer = input.take n ++ 0 :: rest := by
  obtain ⟨n, tmp, hread, hends, ⟨rfl, rfl⟩ | ⟨rest, rfl, hsome⟩⟩ :=
    readHook_cases junk granted input hfits
  · exact ⟨0, none, hread, hends, iff_of_true rfl rfl, fun _ hbuffer => by cases hbuffer⟩
  · refine ⟨n, _, hread, hends, iff_of_false (by simp) ?_, ?_⟩
    · rintro rfl
      exact hsome List.take_zero
    · rintro _ ⟨⟩
      exact ⟨rest, rfl⟩

/-- The `realloc` for the second 20 bytes fails, and the first 20 are kept. -/
theorem readHook_bounds_failure :
    ∃ n tmp, readHook (fun _ => 255) (fun l => l = 0) (List.replicate 30 65) = some tmp ∧
      EndsAt (fun l => l = 0) (List.replicate 30 65) n ∧ (tmp = none ↔ n = 0) ∧
        ∀ buffer ∈ tmp, ∃ rest, buffer = (List.replicate 30 65).take n ++ 0 :: rest :=
  readHook_bounds _ _ _ (by decide)

/-- With enough memory, the result of a hook is made of all that it has printed. -/
theorem result_readHook (junk : Nat → UInt8) (input : Bytes)
    (hfits : (input.length : Int) < intMax - 21) :
    ∃ tmp, readHook junk (fun _ => true) input = some tmp ∧
      (tmp.map fun buffer => stripspace (cString buffer)) = result input := by
  obtain ⟨n, tmp, hread, hends, hcases⟩ := readHook_cases junk (fun _ => true) input hfits
  obtain rfl : n = input.length := hends.reason.resolve_right fun hfailed => by cases hfailed.2.2
  refine ⟨tmp, hread, ?_⟩
  unfold result
  rw [List.take_length] at hcases
  rcases hcases with ⟨rfl, hempty⟩ | ⟨rest, rfl, hsome⟩
  · rw [if_pos (List.eq_nil_of_length_eq_zero hempty), Option.map_none]
  · rw [if_neg hsome, Option.map_some, cString_terminated]

end Dbus2vdr.Shutdown

import Dbus2vdr.Osd.Providers

/-!
# What a client of the bus sees of an OSD

The OSDs and the threads of their providers, together: a call of VDR or of a D-Bus client sends its
messages at once to the queue of the provider, deletes a provider by cancelling its thread, and the
threads go on in between. A `Flush` that renders several pixmaps is as many calls of `flush`, with
what may come between them.

As long as no provider is deleted while one of its OSDs is open, a client sees for every OSD one
`Open`, then its `Display`s with rising numbers and at last one `Close`, and the directory goes
behind all of them: `session_of_noneOpen`. No other directory is ever removed, and none twice:
`removed_of_noneOpen`.
-/

namespace Dbus2vdr.Osd

open Machine

/-! ### Directories tell OSDs apart -/

def hexDigit (c : UInt8) : Nat := if c ≤ 57 then c.toNat - 48 else c.toNat - 87

def hexValue (s : Bytes) : Nat := s.foldl (fun n c => 16 * n + hexDigit c) 0

def hexByte (d : Nat) : UInt8 := UInt8.ofNat d.digitChar.toNat

theorem hexByte_spec : ∀ d < 16, hexDigit (hexByte d) = d ∧ hexByte d ≠ 47 := by decide

theorem hexValue_concat (s : Bytes) (c : UInt8) :
    hexValue (s ++ [c]) = 16 * hexValue s + hexDigit c := by
  rw [hexValue, List.foldl_append]
  rfl

theorem hexValue_replicate (k : Nat) (s : Bytes) :
    hexValue (List.replicate k 48 ++ s) = hexValue s := by
  induction k with
  | zero => rfl
  | succ k ih =>
      rw [List.replicate_succ, List.cons_append]
      exact ih

/-- The digits of `n`, one by one from the last. -/
theorem toDigits_sixteen (n : Nat) :
    ∃ s, (Nat.toDigits 16 n).map (fun c => UInt8.ofNat c.toNat) = s ∧
    hexValue s = n ∧ 47 ∉ s := by
  induction n using Nat.strongRecOn with
  | _ n ih =>
      rw [Nat.toDigits_eq_if (by decide)]
      split_ifs with hlt
      · obtain ⟨hvalue, hslash⟩ := hexByte_spec n hlt
        exact ⟨[hexByte n], rfl, by simpa [hexValue] using hvalue, by simpa using hslash.symm⟩
      · obtain ⟨s, hs, hvalue, hslash⟩ := ih (n / 16) (by omega)
        obtain ⟨hdigit, hlast⟩ := hexByte_spec (n % 16) (Nat.mod_lt n (by decide))
        refine ⟨s ++ [hexByte (n % 16)], by rw [List.map_append, hs]; rfl,
          ?_, by simp [hslash, hlast.symm]⟩
        rw [hexValue_concat, hvalue, hdigit]
        exact Nat.div_add_mod n 16

theorem hexValue_hex4 (n : Nat) : hexValue (hex4 n) = n := by
  obtain ⟨s, hs, hvalue, -⟩ := toDigits_sixteen n
  rw [hex4, hs, List.leftpad, hexValue_replicate, hvalue]

theorem slash_notMem_hex4 (n : Nat) : 47 ∉ hex4 n := by
  obtain ⟨s, hs, -, hslash⟩ := toDigits_sixteen n
  rw [hex4, hs, List.leftpad, List.mem_append, not_or]
  exact ⟨fun hmem => absurd (List.eq_of_mem_replicate hmem) (by decide), hslash⟩

/-- The file of a message or a signal is the directory of the OSD, or one in it. -/
def OfOsd (index : Nat) (file : Bytes) : Prop :=
  file = osdDir index ∨ osdDir index ++ [47] <+: file

instance decidableOfOsd (index : Nat) : DecidablePred (OfOsd index) := fun file =>
  inferInstanceAs (Decidable (file = osdDir index ∨ osdDir index ++ [47] <+: file))

/-- The number of the OSD is what a file has between the first part of the path and the next
slash. -/
theorem OfOsd.number {index : Nat} {file : Bytes} (h : OfOsd index file) :
    hexValue ((file.drop (ascii "/tmp/dbus2vdr/dbusosd-").length).takeWhile (· ≠ 47)) =
      index := by
  have hslash := slash_notMem_hex4 index
  have hall : ∀ c ∈ hex4 index, decide (c ≠ 47) = true := fun c hc =>
    decide_eq_true (ne_of_mem_of_not_mem hc hslash)
  rcases h with rfl | ⟨rest, rfl⟩
  · rw [osdDir, List.drop_left, List.takeWhile_eq_self_iff.mpr hall, hexValue_hex4]
  · rw [osdDir, List.append_assoc, List.append_assoc, List.drop_left, List.singleton_append,
      (takeWhile_ne_append hslash rest).1, hexValue_hex4]

theorem OfOsd.unique {i j : Nat} {file : Bytes} (hi : OfOsd i file) (hj : OfOsd j file) : i = j :=
  hi.number.symm.trans hj.number

theorem ofOsd_osdDir (index : Nat) : OfOsd index (osdDir index) := Or.inl rfl

theorem ofOsd_filename (osd : DBusOsd) (index counter : Nat) (vx vy : Int) :
    OfOsd index (osd.filename index counter vx vy) := by
  have hslash : ascii "/" = [47] := rfl
  refine Or.inr ?_
  rw [← hslash]
  simp only [DBusOsd.filename, List.append_assoc]
  exact (List.prefix_append_right_inj _).mpr (List.prefix_append _ _)

/-! ### OSDs and threads together -/

/-- The view ports of the pixmaps that a call renders for an OSD. -/
def Call.rendered (i : Nat) : Call → List (Int × Int)
  | .flush index rendered => if index = i then rendered else []
  | _ => []

/-- The calls that are about providers. -/
def Call.onProvider : Call → Bool
  | .createProvider | .deleteProvider _ | .otherProvider | .shutdown => true
  | _ => false

structure System where
  osds : Osds := {}
  /-- The providers that have been made, by their numbers. -/
  threads : List Provider := []
  deriving DecidableEq, Repr

inductive SystemEvent where
  | call (e : Call)
  | turn (number : Nat)
  /-- The destructor of the provider comes back from `Cancel` and destroys the members. -/
  | destroy (number : Nat)
  deriving DecidableEq, Repr

def SystemEvent.rendered (i : Nat) : SystemEvent → List (Int × Int)
  | .call e => e.rendered i
  | _ => []

/-- The view ports that the calls of `Flush` have rendered for an OSD, in their order. -/
def flushed (i : Nat) (es : List SystemEvent) : List (Int × Int) :=
  es.flatMap (SystemEvent.rendered i)

namespace System

def deliver (threads : List Provider) : List (Nat × Msg) → List Provider
  | [] => threads
  | send :: sends => deliver (threads.modify send.1 fun p => p.after (.sendMessage send.2)) sends

def cancel (threads : List Provider) : Option Nat → List Provider
  | some number => threads.modify number fun p => p.after .cancel
  | none => threads

def Enabled (s : System) : SystemEvent → Prop
  | .call e => s.osds.Enabled e
  | .turn number => ∃ p ∈ s.threads[number]?, p.Enabled .turn
  | .destroy number => ∃ p ∈ s.threads[number]?, p.Enabled .destroy

def after (s : System) : SystemEvent → System
  | .call e =>
      { osds := s.osds.after e
        threads := cancel (deliver s.threads (s.osds.sends e)) (s.osds.deletes e) ++
          List.replicate ((s.osds.after e).made - s.osds.made) {} }
  | .turn number => { s with threads := s.threads.modify number Provider.turn }
  | .destroy number => { s with threads := s.threads.modify number fun p => p.after .destroy }

instance decidableEnabled (s : System) : DecidablePred s.Enabled := by
  intro e
  cases e <;> unfold Enabled <;> infer_instance

def step : Step System SystemEvent := fun s e => if s.Enabled e then some (s.after e) else none

theorem step_eq_some {s s' : System} {e : SystemEvent} :
    step s e = some s' ↔ s.Enabled e ∧ s.after e = s' := by
  unfold step
  split_ifs with henabled <;> simp [henabled]

def NoneOpen (s : System) : SystemEvent → Prop
  | .call e => s.osds.NoneOpen e
  | _ => True

instance decidableNoneOpen (s : System) : DecidablePred s.NoneOpen := by
  intro e
  cases e <;> unfold NoneOpen Osds.NoneOpen <;> infer_instance

end System

/-! ### What a call does to a thread -/

namespace Provider

/-- After calls of `SendMessage`. -/
def receive (p : Provider) (msgs : List Msg) : Provider :=
  { p with msgQueue := p.msgQueue ++ msgs, sent := p.sent ++ msgs }

theorem receive_nil (p : Provider) : p.receive [] = p := by simp [receive]

theorem receive_cons (p : Provider) (msg : Msg) (msgs : List Msg) :
    (p.after (.sendMessage msg)).receive msgs = p.receive (msg :: msgs) := by
  simp [receive, after]

theorem Kept.receive {p : Provider} {msgs : List Msg} (hp : p.Kept)
    (hplace : msgs ≠ [] → p.place ≠ .left) : (p.receive msgs).Kept := by
  obtain ⟨⟨done, hordered⟩, hdrained⟩ := hp
  refine ⟨⟨done, ?_, hordered.acts⟩, fun hleft => ?_⟩
  · simp only [Provider.receive, hordered.sent, List.append_assoc]
  · have hnone : msgs = [] := not_not.mp fun hmsgs => hplace hmsgs hleft
    simp only [Provider.receive, hnone, List.append_nil]
    exact hdrained hleft

theorem turn_running (p : Provider) : p.turn.running = p.running := by
  unfold turn
  split
  all_goals first | rfl | (split <;> rfl)

end Provider

/-- The messages that are sent to the provider `number`. -/
def sentTo (sends : List (Nat × Msg)) (number : Nat) : List Msg :=
  sends.filterMap fun send => if send.1 = number then some send.2 else none

theorem sentTo_map_self (number : Nat) (msgs : List Msg) :
    sentTo (msgs.map (Prod.mk number)) number = msgs := by
  simp [sentTo, List.filterMap_map]

theorem sentTo_map_of_ne {number other : Nat} (hne : other ≠ number) (msgs : List Msg) :
    sentTo (msgs.map (Prod.mk other)) number = [] := by
  simp [sentTo, List.filterMap_map, hne]

theorem mem_of_sentTo_ne_nil {sends : List (Nat × Msg)} {number : Nat}
    (h : sentTo sends number ≠ []) :
    ∃ send ∈ sends, send.1 = number := by
  obtain ⟨msg, hmsg⟩ := List.exists_mem_of_ne_nil _ h
  obtain ⟨send, hsend, hsome⟩ := List.mem_filterMap.mp hmsg
  exact ⟨send, hsend, by by_contra hne; simp [hne] at hsome⟩

namespace System

theorem deliver_getElem? (threads : List Provider) (sends : List (Nat × Msg)) (k : Nat) :
    (deliver threads sends)[k]? = threads[k]?.map fun p => p.receive (sentTo sends k) := by
  induction sends generalizing threads with
  | nil => simp [deliver, sentTo, Provider.receive_nil]
  | cons send sends ih =>
      rw [deliver, ih, List.getElem?_modify]
      cases threads[k]? with
      | none => rfl
      | some p =>
          by_cases hk : send.1 = k
          · simp [sentTo, hk, Provider.receive_cons]
          · simp [sentTo, hk]

theorem length_deliver (threads : List Provider) (sends : List (Nat × Msg)) :
    (deliver threads sends).length = threads.length := by
  induction sends generalizing threads with
  | nil => rfl
  | cons send sends ih => rw [deliver, ih, List.length_modify]

theorem length_cancel (threads : List Provider) (number : Option Nat) :
    (cancel threads number).length = threads.length := by
  cases number with
  | none => rfl
  | some number => exact List.length_modify ..

/-- The threads there were get their messages, and the one of a deleted provider is cancelled. -/
def told (s : System) (e : Call) (k : Nat) (p : Provider) : Provider :=
  let p := p.receive (sentTo (s.osds.sends e) k)
  if s.osds.deletes e = some k then p.after .cancel else p

theorem threads_call_lt {s : System} {e : Call} {k : Nat} (hk : k < s.threads.length) :
    (s.after (.call e)).threads[k]? = s.threads[k]?.map (s.told e k) := by
  have hlength : k < (cancel (deliver s.threads (s.osds.sends e)) (s.osds.deletes e)).length := by
    rwa [length_cancel, length_deliver]
  simp only [after]
  rw [List.getElem?_append_left hlength]
  cases hdeletes : s.osds.deletes e with
  | none =>
      rw [cancel, deliver_getElem?]
      exact congrArg (Option.map · _) (funext fun p => by simp [told, hdeletes])
  | some number =>
      rw [cancel, List.getElem?_modify, deliver_getElem?]
      cases s.threads[k]? with
      | none => rfl
      | some p => by_cases hk : number = k <;> simp [told, hdeletes, hk]

theorem threads_call {s : System} {e : Call} {k : Nat} {p' : Provider}
    (h : (s.after (.call e)).threads[k]? = some p') :
    (∃ p, s.threads[k]? = some p ∧ p' = s.told e k p) ∨
    (s.threads.length ≤ k ∧ p' = {}) := by
  by_cases hk : k < s.threads.length
  · rw [threads_call_lt hk] at h
    obtain ⟨p, hp, rfl⟩ := Option.map_eq_some_iff.mp h
    exact Or.inl ⟨p, hp, rfl⟩
  · refine Or.inr ⟨not_lt.mp hk, ?_⟩
    simp only [after] at h
    rw [List.getElem?_append_right (by rw [length_cancel, length_deliver]; exact not_lt.mp hk)] at h
    exact (List.eq_of_mem_replicate (List.mem_of_getElem? h))

end System

namespace Osds

variable {s : Osds} {e : Call} {number : Nat}

theorem after_made_deleted (s : Osds) (e : Call) :
    ((s.after e).made = s.made ∨ (s.after e).made = s.made + 1) ∧
    s.deleted ⊆ (s.after e).deleted := by
  have hold : s.deleteOld.made = s.made ∧ s.deleted ⊆ s.deleteOld.deleted := by
    unfold deleteOld
    cases s.inUse with
    | none => exact ⟨rfl, List.Subset.refl _⟩
    | some number => exact ⟨rfl, List.subset_cons_self _ _⟩
  cases e with
  | createProvider =>
      unfold after createProvider
      cases s.provider with
      | none => exact ⟨Or.inr rfl, hold.2⟩
      | some number => exact ⟨Or.inl rfl, List.Subset.refl _⟩
  | deleteProvider deviceProvides =>
      unfold after deleteProvider
      cases s.provider with
      | none => exact ⟨Or.inl rfl, List.Subset.refl _⟩
      | some number => exact ⟨Or.inl rfl, List.subset_cons_self _ _⟩
  | otherProvider | shutdown => exact ⟨Or.inl hold.1, hold.2⟩
  | createOsd left top =>
      unfold after createOsd
      cases s.inUse <;> exact ⟨Or.inl rfl, List.Subset.refl _⟩
  | flush index rendered | destroyOsd index => exact ⟨Or.inl rfl, List.Subset.refl _⟩

theorem exists_of_after (h : (s.after e).Exists number) : s.Exists number ∨ number = s.made := by
  obtain ⟨hmade, hdeleted⟩ := after_made_deleted s e
  have hnot : number ∉ s.deleted := fun hmem => h.2 (hdeleted hmem)
  have hlt := h.1
  by_cases hnew : number = s.made
  · exact Or.inr hnew
  · exact Or.inl ⟨by omega, hnot⟩

theorem Single.not_exists_of_deletes (hs : s.Single) (h : s.deletes e = some number) :
    ¬ (s.after e).Exists number := by
  suffices number ∈ (s.after e).deleted from fun hexists => hexists.2 this
  have hold : s.inUse = some number → number ∈ s.deleteOld.deleted := by
    intro hinUse
    rw [Osds.deleteOld, hinUse]
    exact List.mem_cons_self
  cases e with
  | createProvider =>
      simp only [deletes, hs.inUse] at h
      split_ifs at h with hnone
      rw [hnone] at h
      cases h
  | deleteProvider deviceProvides =>
      have hprovider : s.provider = some number := h
      rw [Osds.after, Osds.deleteProvider, hprovider]
      exact List.mem_cons_self
  | otherProvider | shutdown => exact hold h
  | createOsd | flush | destroyOsd => cases h

end Osds

/-! ### What has been sent for an OSD -/

/-- All messages of an OSD, when it has rendered pixmaps with these view ports. -/
def DBusOsd.session (osd : DBusOsd) (index : Nat) (ports : List (Int × Int)) : List Msg :=
  openMsg index osd.left osd.top ::
    ({ osd with counter := 0 }.displayMsgs index ports ++
      if osd.closed then [closeMsg index] else [])

theorem DBusOsd.displayMsgs_append (osd : DBusOsd) (index : Nat)
    (ports rendered : List (Int × Int)) (hcounter : ports.length = osd.counter) :
    { osd with counter := 0 }.displayMsgs index (ports ++ rendered) =
      { osd with counter := 0 }.displayMsgs index ports ++ osd.displayMsgs index rendered := by
  have hmsg : ∀ counter vx vy, { osd with counter := 0 }.displayMsg index counter vx vy =
      osd.displayMsg index counter vx vy := fun _ _ _ => rfl
  simp only [displayMsgs, hmsg, Nat.zero_add]
  rw [List.zipIdx_append, List.map_append, hcounter, Nat.zero_add,
    List.zipIdx_eq_map_add (l := rendered), List.map_map]
  rfl

def Provider.sentFor (p : Provider) (index : Nat) : List Msg :=
  p.sent.filter fun msg => OfOsd index msg.file

theorem filter_sentTo {msgs : List Msg} {j : Nat} (hall : ∀ msg ∈ msgs, OfOsd j msg.file)
    (number k i : Nat) :
    ((sentTo (msgs.map (Prod.mk number)) k).filter fun msg => OfOsd i msg.file) =
      if k = number then (if i = j then msgs else []) else [] := by
  split_ifs with hk hi
  · rw [hk, sentTo_map_self, hi]
    exact List.filter_eq_self.mpr fun msg hmsg => decide_eq_true (hall msg hmsg)
  · rw [hk, sentTo_map_self]
    exact List.filter_eq_nil_iff.mpr fun msg hmsg h =>
      hi ((of_decide_eq_true h).unique (hall msg hmsg))
  · rw [sentTo_map_of_ne (Ne.symm hk), List.filter_nil]

namespace System

/-- The provider of an OSD has got the messages of this session, and no other provider has got
any. -/
structure Told (s : System) (index : Nat) (osd : DBusOsd) (ports : List (Int × Int)) : Prop where
  provider : osd.provider < s.threads.length
  counter : ports.length = osd.counter
  sent : ∀ n p, s.threads[n]? = some p →
    p.sentFor index = if n = osd.provider then osd.session index ports else []

theorem told_sent (s : System) (e : Call) (k : Nat) (p : Provider) :
    (s.told e k p).sent = p.sent ++ sentTo (s.osds.sends e) k := by
  unfold told
  dsimp only
  split <;> rfl

theorem told_sentFor (s : System) (e : Call) (k i : Nat) (p : Provider) :
    (s.told e k p).sentFor i =
      p.sentFor i ++ (sentTo (s.osds.sends e) k).filter fun msg => OfOsd i msg.file := by
  rw [Provider.sentFor, told_sent, List.filter_append]
  rfl

theorem length_after_call (s : System) (e : Call) :
    (s.after (.call e)).threads.length =
      s.threads.length + ((s.osds.after e).made - s.osds.made) := by
  simp [after, length_cancel, length_deliver]

variable {s : System} {e : Call} {i : Nat} {osd osd' : DBusOsd} {ports ports' : List (Int × Int)}

theorem Told.call (h : s.Told i osd ports) (hprovider : osd'.provider = osd.provider)
    (hcounter : ports'.length = osd'.counter) {m : List Msg}
    (hsent : ∀ k, ((sentTo (s.osds.sends e) k).filter fun msg => OfOsd i msg.file) =
      if k = osd.provider then m else [])
    (hsession : osd'.session i ports' = osd.session i ports ++ m) :
    (s.after (.call e)).Told i osd' ports' where
  provider := by
    rw [hprovider, length_after_call]
    exact Nat.lt_add_right _ h.provider
  counter := hcounter
  sent n p' hp' := by
    rw [hprovider, hsession]
    rcases threads_call hp' with ⟨p, hp, rfl⟩ | ⟨hnew, rfl⟩
    · rw [told_sentFor, h.sent n p hp, hsent n]
      split_ifs <;> rfl
    · have hlt := h.provider
      rw [if_neg (by omega)]
      rfl

/-- A step of a thread sends nothing. -/
theorem Told.modify (h : s.Told i osd ports) {number : Nat} {f : Provider → Provider}
    (hf : ∀ p, s.threads[number]? = some p → (f p).sent = p.sent) :
    Told { s with threads := s.threads.modify number f } i osd ports where
  provider := h.provider.trans_eq (List.length_modify ..).symm
  counter := h.counter
  sent n p' hp' := by
    rw [List.getElem?_modify] at hp'
    obtain ⟨p, hp, rfl⟩ := Option.map_eq_some_iff.mp hp'
    have hsent : (if number = n then f p else p).sent = p.sent := by
      split_ifs with hn
      · exact hf p (hn ▸ hp)
      · rfl
    rw [Provider.sentFor, hsent]
    exact h.sent n p hp

theorem Told.same (h : s.Told i osd ports)
    (hsent : ∀ k, ((sentTo (s.osds.sends e) k).filter fun msg => OfOsd i msg.file) = []) :
    (s.after (.call e)).Told i osd ports :=
  h.call (m := []) rfl h.counter (fun k => by rw [hsent, ite_self]) (List.append_nil _).symm

/-! ### The invariant -/

structure Linked (s : System) : Prop where
  single : s.osds.Single
  attached : s.osds.Attached
  made : s.threads.length = s.osds.made
  threads : ∀ (n : Nat) (p : Provider), s.threads[n]? = some p →
    p.Kept ∧ p.Stopped ∧ (s.osds.Exists n → p.running = true)
  told : ∀ i osd, s.osds.osds[i]? = some osd → ∃ ports, s.Told i osd ports
  known : ∀ (n : Nat) (p : Provider), s.threads[n]? = some p → ∀ msg ∈ p.sent,
    ∃ i < s.osds.osds.length, OfOsd i msg.file

theorem linked_initial : Linked {} where
  single := Osds.single_initial
  attached osd h := by cases h
  made := rfl
  threads n p h := by cases h
  told i osd h := by cases h
  known n p h := by cases h

theorem Linked.modify (h : s.Linked) {number : Nat} {f : Provider → Provider}
    (hf : ∀ p, s.threads[number]? = some p →
      (f p).sent = p.sent ∧ (f p).running = p.running ∧ (f p).Kept ∧ (f p).Stopped) :
    Linked { s with threads := s.threads.modify number f } := by
  have hold : ∀ (n : Nat) (p' : Provider), (s.threads.modify number f)[n]? = some p' →
      ∃ p, s.threads[n]? = some p ∧ p'.sent = p.sent ∧ p'.running = p.running ∧
        p'.Kept ∧ p'.Stopped := by
    intro n p' hp'
    rw [List.getElem?_modify] at hp'
    obtain ⟨p, hp, rfl⟩ := Option.map_eq_some_iff.mp hp'
    refine ⟨p, hp, ?_⟩
    split_ifs with hn
    · exact hf p (hn ▸ hp)
    · exact ⟨rfl, rfl, (h.threads n p hp).1, (h.threads n p hp).2.1⟩
  constructor
  · exact h.single
  · exact h.attached
  · exact (List.length_modify ..).trans h.made
  · intro n p' hp'
    obtain ⟨p, hp, -, hrunning, hkept, hstopped⟩ := hold n p' hp'
    exact ⟨hkept, hstopped, fun hexists => hrunning.trans ((h.threads n p hp).2.2 hexists)⟩
  · intro i osd hosd
    obtain ⟨ports, htold⟩ := h.told i osd hosd
    exact ⟨ports, htold.modify fun p hp => (hf p hp).1⟩
  · intro n p' hp' msg hmsg
    obtain ⟨p, hp, heq, -⟩ := hold n p' hp'
    exact h.known n p hp msg (heq ▸ hmsg)

theorem Linked.turn (h : s.Linked) {number : Nat} (he : s.Enabled (.turn number)) :
    (s.after (.turn number)).Linked := by
  obtain ⟨p', hp', hplace⟩ := he
  refine h.modify fun p hp => ?_
  obtain rfl : p' = p := Option.some.inj (hp'.symm.trans hp)
  obtain ⟨hkept, hstopped, -⟩ := h.threads number p' hp
  exact ⟨p'.turn_sent, p'.turn_running, hkept.after hplace trivial,
    Provider.stopped_step p' .turn _ hstopped (Provider.step_eq_some.mpr ⟨hplace, rfl⟩)⟩

theorem Linked.destroy (h : s.Linked) {number : Nat} (he : s.Enabled (.destroy number)) :
    (s.after (.destroy number)).Linked := by
  obtain ⟨p', hp', hdone⟩ := he
  refine h.modify fun p hp => ?_
  obtain rfl : p' = p := Option.some.inj (hp'.symm.trans hp)
  obtain ⟨hkept, hstopped, -⟩ := h.threads number p' hp
  exact ⟨rfl, rfl, hkept.after hdone trivial,
    Provider.stopped_step p' .destroy _ hstopped (Provider.step_eq_some.mpr ⟨hdone, rfl⟩)⟩

/-- A call leaves every thread with its invariant, because messages go to providers that exist. -/
theorem Linked.threads_call (h : s.Linked) (he : s.osds.Enabled e) {n : Nat} {p' : Provider}
    (hp' : (s.after (.call e)).threads[n]? = some p') :
    p'.Kept ∧ p'.Stopped ∧ ((s.osds.after e).Exists n → p'.running = true) := by
  rcases System.threads_call hp' with ⟨p, hp, rfl⟩ | ⟨hnew, rfl⟩
  · obtain ⟨hkept, hstopped, hrunning⟩ := h.threads n p hp
    have hreceived : (p.receive (sentTo (s.osds.sends e) n)).Kept := by
      refine hkept.receive fun hmsgs hleft => ?_
      obtain ⟨send, hsend, rfl⟩ := mem_of_sentTo_ne_nil hmsgs
      have hexists := (h.single.safe_iff.mpr h.attached).1 e he send hsend
      have hstop := hstopped (Or.inr hleft)
      rw [hrunning hexists] at hstop
      cases hstop
    unfold System.told
    dsimp only
    split_ifs with hdeletes
    · refine ⟨hreceived.after trivial trivial, fun _ => rfl, fun hexists => ?_⟩
      exact absurd hexists (h.single.not_exists_of_deletes hdeletes)
    · refine ⟨hreceived, hstopped, fun hexists => hrunning ?_⟩
      refine (Osds.exists_of_after hexists).resolve_right fun heq => ?_
      have hlt := (List.getElem?_eq_some_iff.mp hp).1
      exact absurd h.made (by omega)
  · refine ⟨Provider.kept_initial, ?_, fun _ => rfl⟩
    rintro (hplace | hplace) <;> cases hplace

/-! ### The messages of a call -/

theorem sends_createOsd {o : Osds} {provider : Nat} (hinUse : o.inUse = some provider)
    (left top : Int) :
    o.sends (.createOsd left top) = [openMsg o.osds.length left top].map (Prod.mk provider) := by
  rw [Osds.sends, hinUse]
  rfl

theorem sends_flush {o : Osds} {index : Nat} (hosd : o.osds[index]? = some osd)
    (rendered : List (Int × Int)) :
    o.sends (.flush index rendered) =
      (osd.displayMsgs index rendered).map (Prod.mk osd.provider) := by
  simp [Osds.sends, hosd]

theorem sends_destroyOsd {o : Osds} {index : Nat} (hosd : o.osds[index]? = some osd) :
    o.sends (.destroyOsd index) = [closeMsg index].map (Prod.mk osd.provider) := by
  simp [Osds.sends, hosd]

theorem ofOsd_displayMsgs (osd : DBusOsd) (index : Nat) (rendered : List (Int × Int)) :
    ∀ msg ∈ osd.displayMsgs index rendered, OfOsd index msg.file := by
  intro msg hmsg
  obtain ⟨port, -, rfl⟩ := List.mem_map.mp hmsg
  exact ofOsd_filename ..

theorem ofOsd_singleton {index : Nat} {msg : Msg} (hfile : msg.file = osdDir index) :
    ∀ m ∈ [msg], OfOsd index m.file := by
  intro m hm
  rw [List.mem_singleton.mp hm, hfile]
  exact ofOsd_osdDir index

/-- All messages of a call go to one provider, and are about one OSD. -/
theorem sends_eq {o : Osds} (he : o.Enabled e) :
    o.sends e = [] ∨ ∃ (provider index : Nat) (msgs : List Msg), o.sends e =
      msgs.map (Prod.mk provider) ∧
      (∀ msg ∈ msgs, OfOsd index msg.file) ∧ index < (o.after e).osds.length := by
  cases e with
  | createProvider | deleteProvider | otherProvider | shutdown => exact Or.inl rfl
  | createOsd left top =>
      obtain ⟨provider, hinUse⟩ := Option.ne_none_iff_exists'.mp he
      refine Or.inr ⟨provider, o.osds.length, _, sends_createOsd hinUse left top,
        ofOsd_singleton rfl, ?_⟩
      simp [Osds.after, Osds.createOsd, hinUse]
  | flush index rendered =>
      obtain ⟨osd, hosd, -⟩ := he
      refine Or.inr ⟨_, index, _, sends_flush hosd rendered, ofOsd_displayMsgs osd index rendered,
        ?_⟩
      rw [Osds.after, List.length_modify]
      exact (List.getElem?_eq_some_iff.mp hosd).1
  | destroyOsd index =>
      obtain ⟨osd, hosd, -⟩ := he
      refine Or.inr ⟨_, index, _, sends_destroyOsd hosd, ofOsd_singleton rfl, ?_⟩
      rw [Osds.after, List.length_modify]
      exact (List.getElem?_eq_some_iff.mp hosd).1

theorem length_osds_le (o : Osds) (e : Call) : o.osds.length ≤ (o.after e).osds.length := by
  have hold : o.deleteOld.osds = o.osds := by
    unfold Osds.deleteOld
    cases o.inUse <;> rfl
  cases e with
  | createProvider =>
      unfold Osds.after Osds.createProvider
      cases o.provider with
      | none => exact (congrArg List.length hold).ge
      | some number => exact le_rfl
  | deleteProvider deviceProvides =>
      unfold Osds.after Osds.deleteProvider
      cases o.provider <;> exact le_rfl
  | otherProvider | shutdown => exact (congrArg List.length hold).ge
  | createOsd left top =>
      unfold Osds.after Osds.createOsd
      cases o.inUse with
      | none => exact le_rfl
      | some provider => exact (List.prefix_append ..).length_le
  | flush index rendered | destroyOsd index => exact (List.length_modify ..).ge

theorem Linked.known_call (h : s.Linked) (he : s.osds.Enabled e) {n : Nat} {p' : Provider}
    (hp' : (s.after (.call e)).threads[n]? = some p') {msg : Msg} (hmsg : msg ∈ p'.sent) :
    ∃ i < (s.osds.after e).osds.length, OfOsd i msg.file := by
  rcases System.threads_call hp' with ⟨p, hp, rfl⟩ | ⟨-, rfl⟩
  · rw [told_sent] at hmsg
    rcases List.mem_append.mp hmsg with hold | hnew
    · obtain ⟨i, hi, hof⟩ := h.known n p hp msg hold
      exact ⟨i, hi.trans_le (length_osds_le s.osds e), hof⟩
    · rcases sends_eq he with hnone | ⟨provider, index, msgs, hsends, hall, hindex⟩
      · rw [hnone] at hnew
        cases hnew
      · refine ⟨index, hindex, hall msg ?_⟩
        rw [hsends] at hnew
        by_cases hn : n = provider
        · rwa [hn, sentTo_map_self] at hnew
        · rw [sentTo_map_of_ne (Ne.symm hn)] at hnew
          cases hnew
  · cases hmsg

theorem osds_after_of_sends {o : Osds} (hprovider : e.onProvider) : (o.after e).osds = o.osds := by
  have hold : o.deleteOld.osds = o.osds := by
    unfold Osds.deleteOld
    cases o.inUse <;> rfl
  cases e with
  | createProvider =>
      unfold Osds.after Osds.createProvider
      cases o.provider with
      | none => exact hold
      | some number => rfl
  | deleteProvider deviceProvides =>
      unfold Osds.after Osds.deleteProvider
      cases o.provider <;> rfl
  | otherProvider | shutdown => exact hold
  | createOsd | flush | destroyOsd => cases hprovider

/-- What an OSD has been told so far; nothing, if it is not there yet. -/
structure ToldSoFar (s : System) (i : Nat) (ports : List (Int × Int)) : Prop where
  told : ∀ osd, s.osds.osds[i]? = some osd → s.Told i osd ports
  fresh : s.osds.osds.length ≤ i → ports = []

/-- An OSD that a call changes is told about it, and the others are not. -/
theorem ToldSoFar.modify (h : s.ToldSoFar i ports) {index : Nat} {f : DBusOsd → DBusOsd}
    {more : List Msg} (hosd : s.osds.osds[index]? = some osd)
    (hafter : (s.osds.after e).osds = s.osds.osds.modify index f)
    (hprovider : (f osd).provider = osd.provider)
    (hsends : s.osds.sends e = more.map (Prod.mk osd.provider))
    (hmore : ∀ msg ∈ more, OfOsd index msg.file) (hother : index ≠ i → e.rendered i = [])
    (hsession : ∀ ports, ports.length = osd.counter →
      (ports ++ e.rendered index).length = (f osd).counter ∧
      (f osd).session index (ports ++ e.rendered index) = osd.session index ports ++ more)
    (hi : (s.osds.after e).osds[i]? = some osd') :
    (s.after (.call e)).Told i osd' (ports ++ e.rendered i) := by
  rw [hafter, List.getElem?_modify] at hi
  obtain ⟨old, hold, rfl⟩ := Option.map_eq_some_iff.mp hi
  have htold := h.told old hold
  by_cases hindex : index = i
  · subst hindex
    obtain rfl : osd = old := Option.some.inj (hosd.symm.trans hold)
    obtain ⟨hlength, hmsgs⟩ := hsession ports htold.counter
    rw [if_pos rfl]
    refine htold.call hprovider hlength (fun k => ?_) hmsgs
    rw [hsends, filter_sentTo hmore, if_pos rfl]
  · rw [if_neg hindex, hother hindex, List.append_nil]
    refine htold.same fun k => ?_
    rw [hsends, filter_sentTo hmore, if_neg (Ne.symm hindex), ite_self]

theorem Linked.told_createOsd (h : s.Linked) (hports : s.ToldSoFar i ports) {provider : Nat}
    (hinUse : s.osds.inUse = some provider) (left top : Int)
    (hi : (s.osds.after (.createOsd left top)).osds[i]? = some osd') :
    (s.after (.call (.createOsd left top))).Told i osd' ports := by
  have hsends := sends_createOsd hinUse left top
  have hosds : (s.osds.after (.createOsd left top)).osds =
      s.osds.osds ++ [{ provider := provider, left, top }] := by
    simp only [Osds.after, Osds.createOsd, hinUse]
  rw [hosds] at hi
  by_cases hlt : i < s.osds.osds.length
  · rw [List.getElem?_append_left hlt] at hi
    refine (hports.told osd' hi).same fun k => ?_
    rw [hsends, filter_sentTo (ofOsd_singleton rfl), if_neg (Nat.ne_of_lt hlt), ite_self]
  · -- the OSD is new: no message so far is about it
    obtain ⟨rfl, rfl⟩ : i = s.osds.osds.length ∧
        osd' = { provider := provider, left, top } := by
      rw [List.getElem?_append_right (not_lt.mp hlt)] at hi
      obtain ⟨hzero, heq⟩ := List.getElem?_eq_some_iff.mp hi
      rw [List.length_singleton] at hzero
      rw [List.getElem_singleton] at heq
      exact ⟨by omega, heq.symm⟩
    obtain rfl := hports.fresh le_rfl
    have hprovider : provider < s.threads.length := by
      rw [h.made]
      exact h.single.lt (h.single.inUse.symm.trans hinUse)
    refine ⟨hprovider.trans_le (by rw [length_after_call]; exact Nat.le_add_right ..), rfl, ?_⟩
    intro n p' hp'
    rcases System.threads_call hp' with ⟨p, hp, rfl⟩ | ⟨hnew, rfl⟩
    · have hnone : p.sentFor s.osds.osds.length = [] := by
        refine List.filter_eq_nil_iff.mpr fun msg hmsg hof => ?_
        obtain ⟨j, hj, hofj⟩ := h.known n p hp msg hmsg
        exact Nat.ne_of_lt hj (hofj.unique (of_decide_eq_true hof))
      rw [told_sentFor, hnone, List.nil_append, hsends, filter_sentTo (ofOsd_singleton rfl),
        if_pos rfl]
      rfl
    · rw [if_neg (show n ≠ provider by omega)]
      rfl

theorem Linked.told_call (h : s.Linked) (he : s.osds.Enabled e) (hports : s.ToldSoFar i ports)
    (hi : (s.osds.after e).osds[i]? = some osd') :
    (s.after (.call e)).Told i osd' (ports ++ e.rendered i) := by
  cases e with
  | createProvider | deleteProvider | otherProvider | shutdown =>
      rw [osds_after_of_sends rfl] at hi
      have hnone : ports ++ [] = ports := List.append_nil ports
      exact hnone.symm ▸ (hports.told osd' hi).same fun k => rfl
  | createOsd left top =>
      obtain ⟨provider, hinUse⟩ := Option.ne_none_iff_exists'.mp he
      have hnone : ports ++ [] = ports := List.append_nil ports
      exact hnone.symm ▸ h.told_createOsd hports hinUse left top hi
  | flush index rendered =>
      obtain ⟨osd, hosd, hopen⟩ := he
      have hself : (Call.flush index rendered).rendered index = rendered := if_pos rfl
      refine hports.modify hosd rfl rfl (sends_flush hosd rendered)
        (ofOsd_displayMsgs osd index rendered) (fun hne => if_neg hne) (fun ports hlength => ?_) hi
      rw [hself]
      refine ⟨by rw [List.length_append, hlength], ?_⟩
      have hdisplay := osd.displayMsgs_append index ports rendered hlength
      simp only [DBusOsd.session, hopen, Bool.false_eq_true, if_false, List.append_nil,
        List.cons_append]
      exact congrArg _ hdisplay
  | destroyOsd index =>
      obtain ⟨osd, hosd, hopen⟩ := he
      refine hports.modify hosd rfl rfl (sends_destroyOsd hosd) (ofOsd_singleton rfl) (fun _ => rfl)
        (fun ports hlength => ?_) hi
      have hnone : ports ++ (Call.destroyOsd index).rendered index = ports := List.append_nil ports
      rw [hnone]
      refine ⟨hlength, ?_⟩
      simp only [DBusOsd.session, hopen, Bool.false_eq_true, if_false, if_true, List.append_nil,
        List.cons_append]
      rfl

theorem Linked.toldSoFar (h : s.Linked) (i : Nat) : ∃ ports, s.ToldSoFar i ports := by
  by_cases hlt : i < s.osds.osds.length
  · obtain ⟨ports, htold⟩ := h.told i _ (List.getElem?_eq_getElem hlt)
    refine ⟨ports, fun osd hosd => ?_, fun hle => absurd hlt (not_lt.mpr hle)⟩
    rw [List.getElem?_eq_getElem hlt] at hosd
    exact Option.some.inj hosd ▸ htold
  · refine ⟨[], fun osd hosd => ?_, fun _ => rfl⟩
    exact absurd (List.getElem?_eq_some_iff.mp hosd).1 hlt

theorem linked_step (s : System) (e : SystemEvent) (s' : System) (h : s.Linked)
    (hnone : s.NoneOpen e) (hstep : step s e = some s') : s'.Linked := by
  obtain ⟨he, rfl⟩ := step_eq_some.mp hstep
  cases e with
  | turn number => exact h.turn he
  | destroy number => exact h.destroy he
  | call e =>
      constructor
      · exact h.single.after e
      · exact (h.single.attached_after_iff h.attached).mpr hnone
      · rw [length_after_call, h.made]
        have hmade := (Osds.after_made_deleted s.osds e).1
        simp only [after]
        omega
      · exact fun n p hp => h.threads_call he hp
      · intro i osd hosd
        obtain ⟨ports, hports⟩ := h.toldSoFar i
        exact ⟨_, h.told_call he hports hosd⟩
      · exact fun n p hp msg hmsg => h.known_call he hp hmsg

theorem linked_of_run {es : List SystemEvent} (hrun : run step {} es = some s)
    (hnone : Along step NoneOpen {} es) : s.Linked :=
  run_guarded_invariant linked_step hrun hnone linked_initial

theorem rendered_eq_nil (he : s.osds.Enabled e) (hi : s.osds.osds.length ≤ i) :
    e.rendered i = [] := by
  cases e with
  | flush index rendered =>
      obtain ⟨osd, hosd, -⟩ := he
      have hlt := (List.getElem?_eq_some_iff.mp hosd).1
      exact if_neg (by omega)
  | createProvider | deleteProvider | otherProvider | shutdown | createOsd | destroyOsd => rfl

theorem ToldSoFar.thread (h : s.ToldSoFar i ports) {number : Nat} {f : Provider → Provider}
    (hf : ∀ p, s.threads[number]? = some p → (f p).sent = p.sent) :
    ToldSoFar { s with threads := s.threads.modify number f } i (ports ++ []) where
  told osd hosd := by
    rw [List.append_nil]
    exact (h.told osd hosd).modify hf
  fresh hle := by
    rw [List.append_nil]
    exact h.fresh hle

theorem Linked.toldSoFar_after (h : s.Linked) {e : SystemEvent} (he : s.Enabled e)
    (hports : s.ToldSoFar i ports) : (s.after e).ToldSoFar i (ports ++ e.rendered i) := by
  cases e with
  | turn number => exact hports.thread fun p _ => p.turn_sent
  | destroy number => exact hports.thread fun p _ => rfl
  | call e =>
      refine ⟨fun osd hosd => h.told_call he hports hosd, fun hle => ?_⟩
      have hold := (length_osds_le s.osds e).trans hle
      rw [hports.fresh hold]
      exact rendered_eq_nil he hold

theorem flushed_concat (i : Nat) (es : List SystemEvent) (e : SystemEvent) :
    flushed i (es ++ [e]) = flushed i es ++ e.rendered i := by
  rw [flushed, List.flatMap_append, List.flatMap_singleton]
  rfl

/-- The view ports in the messages of an OSD are those that its calls of `Flush` have rendered. -/
theorem toldSoFar_of_run {es : List SystemEvent} (hrun : run step {} es = some s)
    (hnone : Along step NoneOpen {} es) (i : Nat) : s.ToldSoFar i (flushed i es) := by
  induction es using List.reverseRecOn generalizing s with
  | nil =>
      obtain rfl := Option.some.inj hrun
      exact ⟨fun osd hosd => (by cases hosd), fun _ => rfl⟩
  | append_singleton es e ih =>
      obtain ⟨t, ht, hstep⟩ := run_concat_eq_some.mp hrun
      have hfront := hnone.front
      obtain ⟨he, rfl⟩ := step_eq_some.mp hstep
      rw [flushed_concat]
      exact (linked_of_run ht hfront).toldSoFar_after he (ih ht hfront)

end System

/-! ### The signals of an OSD -/

theorem Msg.signal_file (msg : Msg) : msg.signal.file = msg.file := by
  unfold Msg.signal
  split <;> rfl

theorem filter_map_signal (index : Nat) (msgs : List Msg) :
    ((msgs.map Msg.signal).filter fun signal => OfOsd index signal.file) =
      (msgs.filter fun msg => OfOsd index msg.file).map Msg.signal := by
  rw [List.filter_map]
  refine congrArg _ (List.filter_congr fun msg _ => ?_)
  rw [Function.comp_apply, Msg.signal_file]

theorem DBusOsd.close_of_mem_session {osd : DBusOsd} {index : Nat} {ports : List (Int × Int)}
    {msg : Msg} (hmsg : msg ∈ osd.session index ports) (hclose : msg.action = .Close) :
    osd.closed = true ∧ msg = closeMsg index := by
  rcases List.mem_cons.mp hmsg with rfl | hrest
  · cases hclose
  · rcases List.mem_append.mp hrest with hdisplay | hlast
    · obtain ⟨port, -, rfl⟩ := List.mem_map.mp hdisplay
      cases hclose
    · split_ifs at hlast with hclosed
      · exact ⟨hclosed, List.mem_singleton.mp hlast⟩
      · cases hlast

/-- A closed OSD is through with its messages when `Close` comes. -/
theorem DBusOsd.session_closed {osd : DBusOsd} {index : Nat} {ports : List (Int × Int)}
    {front back : List Msg} (hsession : osd.session index ports = front ++ closeMsg index :: back) :
    back = [] := by
  have hmem : closeMsg index ∈ osd.session index ports := by simp [hsession]
  obtain ⟨hclosed, -⟩ := close_of_mem_session hmem rfl
  rcases List.eq_nil_or_concat' back with rfl | ⟨rest, last, rfl⟩
  · rfl
  · -- another message behind it would make `Close` one of those before the last
    have hopen : { osd with closed := false }.session index ports =
      front ++ closeMsg index :: rest := by
      have hconcat : osd.session index ports =
          { osd with closed := false }.session index ports ++ [closeMsg index] := by
        simp only [session, hclosed, if_true, Bool.false_eq_true, if_false, List.append_nil,
          List.cons_append]
        rfl
      rw [hconcat, ← List.cons_append, ← List.append_assoc] at hsession
      exact (List.append_inj' hsession rfl).1
    have hearly : closeMsg index ∈ { osd with closed := false }.session index ports := by
      simp [hopen]
    cases (close_of_mem_session hearly rfl).1

theorem count_removeDir_handled (dir : Bytes) (dbmsgs : List Msg) :
    (dbmsgs.flatMap Msg.handled).count (.removeDir dir) =
      dbmsgs.countP fun dbmsg => dbmsg.action = .Close ∧ dbmsg.file = dir := by
  induction dbmsgs with
  | nil => rfl
  | cons dbmsg dbmsgs ih =>
      rw [List.flatMap_cons, List.count_append, ih, List.countP_cons, Nat.add_comm]
      congr 1
      by_cases hclose : dbmsg.action = .Close
      · by_cases hdir : dbmsg.file = dir <;> simp [Msg.handled, Msg.delete, hclose, hdir]
      · simp [Msg.handled, Msg.delete, hclose]

namespace System

variable {s : System} {n index : Nat} {osd : DBusOsd} {p : Provider}

/-- What the client sees: `ports` are the view ports that have been rendered. -/
structure Session (s : System) (index : Nat) (osd : DBusOsd) (ports : List (Int × Int))
    (p : Provider) : Prop where
  provider : s.threads[osd.provider]? = some p
  rendered : ports.length = osd.counter
  sent : p.sentFor index = osd.session index ports
  alone : ∀ n q, s.threads[n]? = some q → n ≠ osd.provider → q.sentFor index = []
  emitted : p.emitted.filter (fun signal => OfOsd index signal.file) <+:
    (osd.session index ports).map Msg.signal
  comes : p.WillEmit

theorem Linked.session (h : s.Linked) (htold : s.Told index osd ports) :
    ∃ p, s.Session index osd ports p := by
  obtain ⟨hprovider, hcounter, hsent⟩ := htold
  have hp := List.getElem?_eq_getElem hprovider
  have hthread := hsent _ _ hp
  rw [if_pos rfl] at hthread
  have hdelivered := (h.threads _ _ hp).1.delivered
  refine ⟨_, hp, hcounter, hthread, fun n q hq hne => ?_, ?_, hdelivered.comes⟩
  · have hother := hsent n q hq
    rwa [if_neg hne] at hother
  · rw [← hthread, Provider.sentFor, ← filter_map_signal]
    exact hdelivered.inOrder.filter _

/-- **Sessions.** In a run that deletes no provider with an open OSD, every OSD has one provider,
which gets `Open`, a `Display` for every pixmap that a call of `Flush` has rendered, with rising
numbers, and `Close` when the OSD is closed; the bus gets their signals in this order, and all of
them in the end. -/
theorem session_of_noneOpen {es : List SystemEvent} (hrun : run step {} es = some s)
    (hnone : Along step NoneOpen {} es) (hosd : s.osds.osds[index]? = some osd) :
    ∃ p, s.Session index osd (flushed index es) p :=
  (linked_of_run hrun hnone).session ((toldSoFar_of_run hrun hnone index).told osd hosd)

/-- An OSD is shown and closed, and its provider deleted behind it. -/
def shown : List SystemEvent :=
  [.call .createProvider, .call (.createOsd 10 20), .turn 0, .call (.flush 0 [(0, 0)]), .turn 0,
    .call (.flush 0 [(5, 5)]), .turn 0, .turn 0, .call (.destroyOsd 0),
    .call (.deleteProvider false)] ++
    List.replicate 20 (.turn 0)

theorem session_of_noneOpen_shown :
    ∃ s p, run step {} shown = some s ∧
      s.Session 0 { provider := 0, left := 10, top := 20, counter := 2, closed := true }
        [(0, 0), (5, 5)] p :=
  have hrun := Option.eq_some_of_isSome (o := run step {} shown) (by decide)
  have hsession := session_of_noneOpen hrun (by decide)
    (show _ = some { provider := 0, left := 10, top := 20, counter := 2, closed := true } by decide)
  ⟨_, hsession.choose, hrun, hsession.choose_spec⟩

theorem Linked.close_mem (h : s.Linked) (hp : s.threads[n]? = some p) {msg : Msg}
    (hmsg : msg ∈ p.sent) (hclose : msg.action = .Close) :
    ∃ index osd, s.osds.osds[index]? = some osd ∧ osd.provider = n ∧ osd.closed = true ∧
      msg = closeMsg index := by
  obtain ⟨index, hindex, hof⟩ := h.known n p hp msg hmsg
  have hosd := List.getElem?_eq_getElem hindex
  obtain ⟨ports, -, -, hsent⟩ := h.told index _ hosd
  have hmem : msg ∈ p.sentFor index := List.mem_filter.mpr ⟨hmsg, decide_eq_true hof⟩
  rw [hsent n p hp] at hmem
  split_ifs at hmem with hprovider
  · obtain ⟨hclosed, rfl⟩ := DBusOsd.close_of_mem_session hmem hclose
    exact ⟨index, _, hosd, hprovider.symm, hclosed, rfl⟩
  · cases hmem

/-- The directory `dir` has been removed, behind the whole session of its OSD. -/
structure Removed (s : System) (n : Nat) (dir : Bytes) (before : List Act) (index : Nat)
    (osd : DBusOsd) (ports : List (Int × Int)) : Prop where
  listed : s.osds.osds[index]? = some osd
  provider : osd.provider = n
  closed : osd.closed = true
  dir : dir = osdDir index
  before : (signals before).filter (fun signal => OfOsd index signal.file) =
    (osd.session index ports).map Msg.signal

theorem Linked.removed_told (h : s.Linked) (hp : s.threads[n]? = some p) {dir : Bytes}
    {before behind : List Act} (hacts : p.acts = before ++ .removeDir dir :: behind) :
    ∃ index osd, s.osds.osds[index]? = some osd ∧
      ∀ ports, s.Told index osd ports → s.Removed n dir before index osd ports := by
  obtain ⟨front, dbmsg, back, hsent, hclose, rfl, hbefore⟩ :=
    (h.threads n p hp).1.delivered.removed before dir behind hacts
  have hmsg : dbmsg ∈ p.sent := by simp [hsent]
  obtain ⟨index, osd, hosd, hprovider, hclosed, rfl⟩ := h.close_mem hp hmsg hclose
  refine ⟨index, osd, hosd, fun ports htold => ⟨hosd, hprovider, hclosed, rfl, ?_⟩⟩
  have hclosing : [closeMsg index].filter (fun msg => OfOsd index msg.file) = [closeMsg index] :=
    List.filter_cons_of_pos (decide_eq_true (ofOsd_osdDir index))
  have hsession := htold.sent n p hp
  rw [if_pos hprovider.symm, Provider.sentFor, hsent, ← List.singleton_append, List.filter_append,
    List.filter_append, hclosing, List.singleton_append] at hsession
  have hback := DBusOsd.session_closed hsession.symm
  rw [hbefore, filter_map_signal, List.filter_append, hclosing, ← hsession, hback]

theorem Linked.removed (h : s.Linked) (hp : s.threads[n]? = some p) {dir : Bytes}
    {before behind : List Act} (hacts : p.acts = before ++ .removeDir dir :: behind) :
    ∃ index osd ports, s.Removed n dir before index osd ports := by
  obtain ⟨index, osd, hosd, hremoved⟩ := h.removed_told hp hacts
  obtain ⟨ports, htold⟩ := h.told index osd hosd
  exact ⟨index, osd, ports, hremoved ports htold⟩

theorem Linked.count_removed (h : s.Linked) (hp : s.threads[n]? = some p) (dir : Bytes) :
    p.acts.count (.removeDir dir) ≤ 1 := by
  by_cases hmem : .removeDir dir ∈ p.acts
  · obtain ⟨before, behind, hacts⟩ := List.append_of_mem hmem
    obtain ⟨index, osd, ports, hosd, rfl, hclosed, rfl, -⟩ := h.removed hp hacts
    obtain ⟨ports, -, -, hsent⟩ := h.told index osd hosd
    have hthread := hsent _ p hp
    rw [if_pos rfl] at hthread
    obtain ⟨done, hordered⟩ := (h.threads _ p hp).1.ordered
    have hbegun : (Place.begun p.place).count (.removeDir (osdDir index)) = 0 := by
      cases p.place <;> simp [Place.begun]
    have hcloses : (osd.session index ports).countP
        (fun dbmsg => dbmsg.action = .Close ∧ dbmsg.file = osdDir index) = 1 := by
      rw [DBusOsd.session, hclosed, if_pos rfl, List.countP_cons_of_neg (by simp [openMsg]),
        List.countP_append, List.countP_eq_zero.mpr, zero_add]
      · simp [closeMsg]
      · intro msg hmsg
        obtain ⟨port, -, rfl⟩ := List.mem_map.mp hmsg
        simp [DBusOsd.displayMsg]
    calc p.acts.count (.removeDir (osdDir index))
        = done.countP (fun dbmsg => dbmsg.action = .Close ∧ dbmsg.file = osdDir index) := by
          rw [hordered.acts, List.count_append, count_removeDir_handled, hbegun, Nat.add_zero]
      _ ≤ p.sent.countP (fun dbmsg => dbmsg.action = .Close ∧ dbmsg.file = osdDir index) := by
          rw [hordered.sent, List.countP_append]
          exact Nat.le_add_right ..
      _ = (p.sentFor index).countP
            (fun dbmsg => dbmsg.action = .Close ∧ dbmsg.file = osdDir index) := by
          rw [Provider.sentFor, List.countP_filter]
          refine List.countP_congr fun msg _ => ?_
          simp only [Bool.and_eq_true, decide_eq_true_eq]
          exact ⟨fun hmsg => ⟨hmsg, hmsg.2 ▸ ofOsd_osdDir index⟩, And.left⟩
      _ = 1 := by rw [hthread, hcloses]
      _ ≤ 1 := le_rfl
  · rw [List.count_eq_zero_of_not_mem hmem]
    exact Nat.zero_le 1

theorem sum_le_one {counts : List Nat}
    (hle : ∀ (n count : Nat), counts[n]? = some count → count ≤ 1)
    (hone : ∀ (n m count count' : Nat), counts[n]? = some count →
      counts[m]? = some count' → 0 < count →
      0 < count' → n = m) : counts.sum ≤ 1 := by
  induction counts with
  | nil => exact Nat.zero_le 1
  | cons count counts ih =>
      rw [List.sum_cons]
      by_cases hzero : count = 0
      · rw [hzero, Nat.zero_add]
        refine ih (fun n c hc => hle (n + 1) c hc) fun n m c c' hn hm hpos hpos' => ?_
        exact Nat.succ_injective (hone (n + 1) (m + 1) c c' hn hm hpos hpos')
      · have hrest : counts.sum = 0 := by
          refine List.sum_eq_zero_iff_forall_eq_nat.mpr fun c hc => ?_
          by_contra hne
          obtain ⟨m, hm⟩ := List.getElem?_of_mem hc
          have hsame :=
            hone 0 (m + 1) count c rfl hm (Nat.pos_of_ne_zero hzero) (Nat.pos_of_ne_zero hne)
          cases hsame
        have hfirst := hle 0 count rfl
        omega

/-- Only the provider of an OSD removes its directory. -/
theorem Linked.eq_of_removed (h : s.Linked) {m : Nat} {q : Provider} (hp : s.threads[n]? = some p)
    (hq : s.threads[m]? = some q) {dir : Bytes} (hn : .removeDir dir ∈ p.acts)
    (hm : .removeDir dir ∈ q.acts) : n = m := by
  obtain ⟨before, behind, hacts⟩ := List.append_of_mem hn
  obtain ⟨before', behind', hacts'⟩ := List.append_of_mem hm
  obtain ⟨i, osd, -, hosd, rfl, -, rfl, -⟩ := h.removed hp hacts
  obtain ⟨j, osd', -, hosd', rfl, -, hdir, -⟩ := h.removed hq hacts'
  obtain rfl : i = j := (ofOsd_osdDir i).unique (hdir ▸ ofOsd_osdDir j)
  rw [Option.some.inj (hosd.symm.trans hosd')]

theorem Linked.count_acts (h : s.Linked) (dir : Bytes) :
    (s.threads.flatMap Provider.acts).count (.removeDir dir) ≤ 1 := by
  rw [List.count_flatMap]
  refine sum_le_one (fun n count hcount => ?_) (fun n m count count' hn hm hpos hpos' => ?_)
  · obtain ⟨p, hp, rfl⟩ := List.getElem?_map ▸ hcount |> Option.map_eq_some_iff.mp
    exact h.count_removed hp dir
  · obtain ⟨p, hp, rfl⟩ := List.getElem?_map ▸ hn |> Option.map_eq_some_iff.mp
    obtain ⟨q, hq, rfl⟩ := List.getElem?_map ▸ hm |> Option.map_eq_some_iff.mp
    exact h.eq_of_removed hp hq (List.count_pos_iff.mp hpos) (List.count_pos_iff.mp hpos')

/-- **Directories.** In such a run a directory is removed once at most, by one provider and no
other, and only one of a closed OSD, behind all signals of its session. -/
theorem removed_of_noneOpen {es : List SystemEvent} (hrun : run step {} es = some s)
    (hnone : Along step NoneOpen {} es) (dir : Bytes) :
    (s.threads.flatMap Provider.acts).count (.removeDir dir) ≤ 1 ∧
    ∀ n p before behind, s.threads[n]? = some p →
      p.acts = before ++ .removeDir dir :: behind →
      ∃ index osd, s.Removed n dir before index osd (flushed index es) := by
  have h := linked_of_run hrun hnone
  refine ⟨h.count_acts dir, fun n p before behind hp hacts => ?_⟩
  obtain ⟨index, osd, hosd, hremoved⟩ := h.removed_told hp hacts
  exact ⟨index, osd, hremoved _ ((toldSoFar_of_run hrun hnone index).told osd hosd)⟩

theorem removed_of_noneOpen_shown :
    ∃ s, run step {} shown = some s ∧
      (s.threads.flatMap Provider.acts).count (.removeDir (osdDir 0)) ≤ 1 :=
  have hrun := Option.eq_some_of_isSome (o := run step {} shown) (by decide)
  ⟨_, hrun, (removed_of_noneOpen hrun (by decide) (osdDir 0)).1⟩

end System

end Dbus2vdr.Osd

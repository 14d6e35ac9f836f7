import Dbus2vdr.Lib.Sweep
import Dbus2vdr.Objects.Settings

/-!
# Deleting settings

`Del` walks over the lines of `setup.conf` as VDR has them in memory, and deletes either all those
of a plugin or the first one with a name. `del_removes` follows it through the links of the lines:
it deletes these and no others, and does not touch a line it has deleted. `del_trace` says that it
is the `del` of the settings.
-/

namespace Dbus2vdr

open Intrusive
open SetupLine (isLine)

/-- The lines of `Setup` by their objects. -/
structure SetupList where
  heap : Heap Nat
  line : Nat → SetupLine

/-- `endswith` from the last characters on; `before` is what stands in front of `s`. -/
def endswithLoop (before : UInt8) : Bytes → Bytes → Bool
  | _, [] => true
  | se, c :: pe =>
      if c ≠ se.headD before ∨ (se.tail = [] ∧ pe ≠ []) then false
      else endswithLoop before se.tail pe

namespace SetupList

/-- The line belongs to the plugin. -/
def isOf (plugin : Bytes) (line : SetupLine) : Bool := line.plugin.any fun p => strcaseeq p plugin

def deleted (s : SetupList) (n : Nat) : VdrCall :=
  .deleteLine (s.line n).plugin (s.line n).name

/-- What is done with a line in the loop for a plugin, besides deleting it. -/
def note (s : SetupList) (plugin : Bytes) (trace : Trace) (n : Nat) : Trace :=
  if isOf plugin (s.line n) then trace ++ [.did (s.deleted n)] else trace

/-- The branch for `.*`; `fuel` is a bound for the number of lines. -/
def delPlugin (fuel : Nat) (s : SetupList) (plugin : Bytes) : Option (SetupList × Trace) :=
  (Heap.sweep (s.note plugin) (fun n => isOf plugin (s.line n)) true fuel [] s.heap
    s.heap.base.objects).map
    fun (trace, heap) =>
      ({ s with heap }, trace ++ .did .saveSetup ::
        sendReply 900 (some (ascii "deleted all settings for plugin " ++ plugin)))

/-- The loop for one line, `delLine` being the parsed name. -/
def delLine (fuel : Nat) (s : SetupList) (name : Bytes) (delLine : SetupLine) :
    Option (SetupList × Trace) :=
  (Heap.find (fun n => isLine delLine.name delLine.plugin (s.line n)) fuel s.heap
    s.heap.base.objects).bind fun found =>
      match found with
      | some n => (s.heap.del n true).map fun heap =>
          ({ s with heap }, .did (s.deleted n) :: .did .saveSetup ::
            sendReply 900 (some (name ++ ascii " deleted from setup.conf")))
      | none => some (s, sendReply 550 (some (name ++ ascii " not found in setup.conf")))

/-- Without a result when a deleted line is touched. -/
def del (before : UInt8) (parseLine : Bytes → Option SetupLine) (fuel : Nat) (s : SetupList)
    (name : Bytes) : Option (SetupList × Trace) :=
  if endswithLoop before name.reverse (ascii ".*").reverse then
    s.delPlugin fuel (name.take (name.length - 2))
  else
    match parseLine (name ++ ascii "=") with
    | none => some (s, sendReply 501 (some (ascii "can't parse " ++ name)))
    | some line => s.delLine fuel name line

end SetupList

theorem endswithLoop_iff_prefix (before : UInt8) {se pe : Bytes} (hse : se ≠ [])
    (hpe : pe ≠ []) :
    endswithLoop before se pe ↔ pe <+: se := by
  induction pe generalizing se with
  | nil => exact absurd rfl hpe
  | cons c pe ih =>
      cases se with
      | nil => exact absurd rfl hse
      | cons d se =>
          rw [endswithLoop, List.headD_cons, List.tail_cons, List.cons_prefix_cons]
          by_cases hc : c = d
          · rw [and_iff_right hc]
            cases pe with
            | nil => simp [hc, endswithLoop]
            | cons c' pe =>
                cases se with
                | nil => simp
                | cons d' se =>
                    rw [if_neg (by simp [hc])]
                    exact ih (List.cons_ne_nil _ _) (List.cons_ne_nil _ _)
          · simp [hc]

/-- What stands in front of `s` does not matter when `p` has two characters. -/
theorem endswithLoop_eq (before : UInt8) (s : Bytes) {p : Bytes} (hp : 2 ≤ p.length) :
    endswithLoop before s.reverse p.reverse = endswith s p := by
  have hpe : p.reverse ≠ [] := by
    rintro hnil
    rw [List.reverse_eq_nil_iff.mp hnil] at hp
    exact absurd hp (by decide)
  rw [Bool.eq_iff_iff, endswith, List.isSuffixOf_iff_suffix, ← List.reverse_prefix]
  by_cases hs : s = []
  · subst hs
    cases hreverse : p.reverse with
    | nil => exact absurd hreverse hpe
    | cons c pe =>
        have hlength := congrArg List.length hreverse
        rw [List.length_reverse, List.length_cons] at hlength
        have hne : pe ≠ [] := by
          rintro rfl
          simp at hlength
          omega
        simp [endswithLoop, hne]
  · exact endswithLoop_iff_prefix before (by simpa using hs) hpe

namespace SetupList

variable {s s' : SetupList} {xs : List Nat} {fuel : Nat}

/-- The lines `kept` are left, and the lines `removed` have been deleted. -/
structure Removes (s s' : SetupList) (removed kept : List Nat) : Prop where
  tidy : s'.heap.Tidy kept
  freed : s'.heap.freed = s.heap.freed ++ removed
  line : s'.line = s.line

theorem foldl_note (s : SetupList) (plugin : Bytes) (xs : List Nat) (trace : Trace) :
    xs.foldl (s.note plugin) trace =
      trace ++ ((xs.filter fun n => isOf plugin (s.line n)).map s.deleted).map .did := by
  induction xs generalizing trace with
  | nil => simp
  | cons n xs ih =>
      rw [List.foldl_cons, ih, note, List.filter_cons]
      split_ifs
      · simp
      · rfl

theorem delPlugin_removes (htidy : s.heap.Tidy xs) (hfuel : xs.length ≤ fuel) (plugin : Bytes) :
    ∃ s', s.delPlugin fuel plugin = some (s',
        ((xs.filter fun n => isOf plugin (s.line n)).map s.deleted).map .did ++ .did .saveSetup ::
          sendReply 900 (some (ascii "deleted all settings for plugin " ++ plugin))) ∧
      Removes s s' (xs.filter fun n => isOf plugin (s.line n))
        (xs.filter fun n => !isOf plugin (s.line n)) := by
  have htidy' : s.heap.Tidy ([] ++ xs) := htidy
  obtain ⟨heap, hsweep, hkept, hfreed, -⟩ := htidy'.sweep (s.note plugin)
    (fun n => isOf plugin (s.line n)) true [] hfuel
  rw [foldl_note, List.nil_append] at hsweep
  refine ⟨{ s with heap }, ?_, hkept, hfreed, rfl⟩
  rw [delPlugin, htidy.holds.objects, hsweep, Option.map_some]

theorem delLine_removes {front back : List Nat} {n : Nat} {line : SetupLine} (name : Bytes)
    (htidy : s.heap.Tidy (front ++ n :: back)) (hfuel : (front ++ n :: back).length ≤ fuel)
    (hfront : ∀ m ∈ front, isLine line.name line.plugin (s.line m) = false)
    (hn : isLine line.name line.plugin (s.line n)) :
    ∃ s', s.delLine fuel name line = some (s', .did (s.deleted n) :: .did .saveSetup ::
        sendReply 900 (some (name ++ ascii " deleted from setup.conf"))) ∧
      Removes s s' [n] (front ++ back) := by
  have htidy' : s.heap.Tidy ([] ++ (front ++ n :: back)) := htidy
  have hfind : (front ++ n :: back).find? (fun n => isLine line.name line.plugin (s.line n)) =
      some n :=
    List.find?_eq_some_iff_append.mpr ⟨hn, front, back, rfl, by simpa using hfront⟩
  have hfound := htidy'.find (fun n => isLine line.name line.plugin (s.line n)) hfuel
  obtain ⟨heap, hdel, hkept, hfreed, -⟩ := htidy.del true
  refine ⟨{ s with heap }, ?_, hkept, hfreed, rfl⟩
  rw [delLine, htidy.holds.objects, hfound, hfind, Option.bind_some]
  dsimp only
  rw [hdel, Option.map_some]

theorem delLine_notFound {name : Bytes} {line : SetupLine} (htidy : s.heap.Tidy xs)
    (hfuel : xs.length ≤ fuel)
    (hnone : ∀ n ∈ xs, isLine line.name line.plugin (s.line n) = false) :
    s.delLine fuel name line =
      some (s, sendReply 550 (some (name ++ ascii " not found in setup.conf"))) := by
  have htidy' : s.heap.Tidy ([] ++ xs) := htidy
  have hfind : xs.find? (fun n => isLine line.name line.plugin (s.line n)) = none := by
    simpa using hnone
  have hfound := htidy'.find (fun n => isLine line.name line.plugin (s.line n)) hfuel
  rw [delLine, htidy.holds.objects, hfound, hfind, Option.bind_some]

theorem endswithLoop_dotStar (before : UInt8) (name : Bytes) :
    endswithLoop before name.reverse (ascii ".*").reverse = endswith name (ascii ".*") :=
  endswithLoop_eq before name (by decide)

theorem endswith_iff {name p : Bytes} : endswith name p ↔ ∃ front, name = front ++ p := by
  rw [endswith, List.isSuffixOf_iff_suffix]
  exact exists_congr fun front => eq_comm

theorem take_dotStar (plugin : Bytes) :
    (plugin ++ ascii ".*").take ((plugin ++ ascii ".*").length - 2) = plugin := by
  rw [List.length_append]
  exact List.take_left

section Del

variable (before : UInt8) (parseLine : Bytes → Option SetupLine)

theorem del_plugin (fuel : Nat) (s : SetupList) (plugin : Bytes) :
    s.del before parseLine fuel (plugin ++ ascii ".*") = s.delPlugin fuel plugin := by
  rw [del, endswithLoop_dotStar, if_pos (endswith_iff.mpr ⟨plugin, rfl⟩), take_dotStar]

theorem del_name {name : Bytes} (hname : ∀ plugin, name ≠ plugin ++ ascii ".*") (fuel : Nat)
    (s : SetupList) :
    s.del before parseLine fuel name =
      match parseLine (name ++ ascii "=") with
      | none => some (s, sendReply 501 (some (ascii "can't parse " ++ name)))
      | some line => s.delLine fuel name line := by
  have hends : ¬ endswith name (ascii ".*") := fun h => by
    obtain ⟨plugin, hplugin⟩ := endswith_iff.mp h
    exact hname plugin hplugin
  rw [del, endswithLoop_dotStar, if_neg hends]

/-- **Deleting.** `Plugin.*` deletes the lines of the plugin and no others, any other name the first
line it means, if there is one. -/
theorem del_removes (htidy : s.heap.Tidy xs) (hfuel : xs.length ≤ fuel) (name : Bytes) :
    (∀ plugin, name = plugin ++ ascii ".*" →
      ∃ s' trace, s.del before parseLine fuel name = some (s', trace) ∧
      RepliesCode trace 900 ∧
        Removes s s' (xs.filter fun n => isOf plugin (s.line n))
          (xs.filter fun n => !isOf plugin (s.line n))) ∧
    ((∀ plugin, name ≠ plugin ++ ascii ".*") →
      (parseLine (name ++ ascii "=") = none →
        ∃ trace, s.del before parseLine fuel name = some (s, trace) ∧ RepliesCode trace 501) ∧
      ∀ line, parseLine (name ++ ascii "=") = some line →
        (∀ front n back, xs = front ++ n :: back →
          (∀ m ∈ front, isLine line.name line.plugin (s.line m) = false) →
          isLine line.name line.plugin (s.line n) →
            ∃ s' trace, s.del before parseLine fuel name = some (s', trace) ∧
              RepliesCode trace 900 ∧ Removes s s' [n] (front ++ back)) ∧
        ((∀ n ∈ xs, isLine line.name line.plugin (s.line n) = false) →
          ∃ trace, s.del before parseLine fuel name = some (s, trace) ∧
          RepliesCode trace 550)) := by
  refine ⟨?_, fun hname => ⟨fun hparse => ?_, fun line hparse => ⟨?_, fun hnone => ?_⟩⟩⟩
  · rintro plugin rfl
    obtain ⟨s', hdel, hremoves⟩ := delPlugin_removes htidy hfuel plugin
    exact ⟨s', _, (del_plugin before parseLine fuel s plugin).trans hdel,
      repliesCode_did_append.mpr (by simp), hremoves⟩
  · have hdel := del_name before parseLine hname fuel s
    rw [hparse] at hdel
    exact ⟨_, hdel, repliesCode_sendReply.mpr rfl⟩
  · rintro front n back rfl hfront hn
    obtain ⟨s', hline, hremoves⟩ := delLine_removes name htidy hfuel hfront hn
    have hdel := del_name before parseLine hname fuel s
    rw [hparse] at hdel
    exact ⟨s', _, hdel.trans hline, by simp, hremoves⟩
  · have hdel := del_name before parseLine hname fuel s
    rw [hparse] at hdel
    exact ⟨_, hdel.trans (delLine_notFound htidy hfuel hnone), repliesCode_sendReply.mpr rfl⟩

def threeLines : SetupList where
  heap := ⟨((⟨fun _ => none, fun _ => none⟩ : Links Nat).append 0 1).append 1 2,
    ⟨some 0, some 2, 3⟩, []⟩
  line
    | 0 => ⟨some (ascii "osdteletext"), ascii "cacheSystem", ascii "1"⟩
    | 1 => ⟨none, ascii "OSDTeletext.cacheSystem", ascii "0"⟩
    | _ => ⟨some (ascii "OSDteletext"), ascii "startPage", ascii "100"⟩

theorem tidy_threeLines : threeLines.heap.Tidy [0, 1, 2] :=
  ⟨⟨⟨rfl, rfl, rfl, rfl⟩, ⟨rfl, rfl, rfl, rfl⟩, rfl, by decide⟩, by decide⟩

theorem del_removes_threeLines :
    ∃ s' trace, threeLines.del 0 SetupLine.parse 3 (ascii "osdteletext.*") = some (s', trace) ∧
      RepliesCode trace 900 ∧ Removes threeLines s' [0, 2] [1] :=
  (del_removes 0 SetupLine.parse tidy_threeLines (Nat.le_refl 3) (ascii "osdteletext.*")).1
    (ascii "osdteletext") rfl

/-- Every list of lines can be the one in memory. -/
theorem exists_tidy (lines : List SetupLine) :
    ∃ s : SetupList, s.heap.Tidy (List.range lines.length) ∧
      (List.range lines.length).map s.line = lines := by
  suffices hloaded : ∃ s : SetupList, s.heap.Tidy (List.range lines.length) ∧
      (List.range lines.length).map s.line = lines ∧ s.heap.freed = [] ∧
        ∀ n, lines.length ≤ n → s.heap.links.next n = none ∧ s.heap.links.prev n = none by
    obtain ⟨s, htidy, hlines, -⟩ := hloaded
    exact ⟨s, htidy, hlines⟩
  induction lines using List.reverseRecOn with
  | nil =>
      exact ⟨⟨⟨⟨fun _ => none, fun _ => none⟩, Base.empty, []⟩,
        fun _ => ⟨none, [], []⟩⟩,
        ⟨holds_empty _, fun x hx => (by cases hx)⟩, rfl, rfl, fun _ _ => ⟨rfl, rfl⟩⟩
  | append_singleton lines line ih =>
      obtain ⟨s, htidy, hlines, hfreed, hunborn⟩ := ih
      obtain ⟨hnext, hprev⟩ := hunborn lines.length (Nat.le_refl _)
      obtain ⟨heap, -, htidy', hfreed', hsame⟩ :=
        htidy.add hnext hprev List.not_mem_range_self (by simp [hfreed])
      rw [List.length_append, List.length_singleton, List.range_succ]
      refine ⟨⟨heap, Function.update s.line lines.length line⟩, htidy', ?_,
        hfreed'.trans hfreed, ?_⟩
      · dsimp only
        rw [List.map_append, List.map_singleton, Function.update_self]
        refine congrArg (· ++ [line]) (Eq.trans (List.map_congr_left fun n hn => ?_) hlines)
        exact Function.update_of_ne (Nat.ne_of_lt (List.mem_range.mp hn)) _ _
      · intro n hn
        have hout : n ∉ List.range lines.length ++ [lines.length] := by
          rw [← List.range_succ, List.mem_range]
          omega
        obtain ⟨hnext, hprev⟩ := hsame n hout
        rw [hnext, hprev]
        exact hunborn n (by omega)

/-- `Del` of the settings says what is done with the lines and what is replied. -/
theorem del_trace {settings : Settings} (htidy : s.heap.Tidy xs) (hfuel : xs.length ≤ fuel)
    (hlines : settings.setup.lines = xs.map s.line) (name : Bytes) :
    ∃ s', s.del before settings.parseLine fuel name =
      some (s', SetupHelper.del settings [.string name]) := by
  have hname : (Params.string [.string name] 0).getD [] = name := rfl
  unfold SetupHelper.del
  dsimp only
  rw [hname, hlines]
  by_cases hends : endswith name (ascii ".*")
  · rw [if_pos hends]
    obtain ⟨plugin, rfl⟩ := endswith_iff.mp hends
    obtain ⟨s', hdel, -⟩ := delPlugin_removes htidy hfuel plugin
    refine ⟨s', (del_plugin before settings.parseLine fuel s plugin).trans (hdel.trans ?_)⟩
    rw [take_dotStar, List.filter_map]
    simp only [List.map_map]
    rfl
  · have hne : ∀ plugin, name ≠ plugin ++ ascii ".*" := fun plugin heq =>
      hends (endswith_iff.mpr ⟨plugin, heq⟩)
    rw [if_neg hends, del_name before settings.parseLine hne]
    cases settings.parseLine (name ++ ascii "=") with
    | none => exact ⟨s, rfl⟩
    | some line =>
        dsimp only
        rw [List.find?_map]
        cases hfind : xs.find? (isLine line.name line.plugin ∘ s.line) with
        | none =>
            refine ⟨s, delLine_notFound htidy hfuel ?_⟩
            simpa using hfind
        | some n =>
            obtain ⟨hn, front, back, rfl, hfront⟩ := List.find?_eq_some_iff_append.mp hfind
            obtain ⟨s', hdel, -⟩ :=
              delLine_removes name htidy hfuel (by simpa using hfront) hn
            exact ⟨s', hdel⟩

end Del

end SetupList

end Dbus2vdr

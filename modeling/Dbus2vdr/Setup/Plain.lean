import Mathlib.Data.List.Sort
import Dbus2vdr.Setup.Store

/-!
# Settings that the file does not change

A line is plain when VDR reads it back as it was saved: it has no line end and no `#`, its name has
no `=`, and there is no white space to be compacted.
-/

namespace Dbus2vdr

namespace SetupLine

structure Plain (line : SetupLine) : Prop where
  oneLine : 10 ∉ line.text
  noComment : 35 ∉ line.text
  noEquals : 61 ∉ fullName line.plugin line.name
  named : fullName line.plugin line.name ≠ []
  noReturn : line.text.getLast? ≠ some 13
  compactName : compactspace (fullName line.plugin line.name ++ [32]) =
    fullName line.plugin line.name
  compactValue : compactspace (32 :: line.value) = line.value
  /-- The first dot of the name is the one behind the plugin. -/
  firstDot : match line.plugin with
    | some plugin => dot ∉ plugin
    | none => dot ∉ line.name

theorem readLine_of_not_return {s : Bytes} (hs : s.getLast? ≠ some 13) :
    readLine (s ++ [10]) = s := by
  simp [readLine, hs]

theorem Plain.parse_text {line : SetupLine} (hline : line.Plain) : parse line.text = some line := by
  have htext : line.text.takeWhile (· ≠ 35) = line.text :=
    List.takeWhile_eq_self_iff.mpr fun c hc =>
      decide_eq_true (ne_of_mem_of_not_mem hc hline.noComment)
  have hsplit : line.text = (fullName line.plugin line.name ++ [32]) ++ 61 :: 32 :: line.value := by
    simp [text, ascii]
  have hname : 61 ∉ fullName line.plugin line.name ++ [32] := by
    rw [List.mem_append, not_or]
    exact ⟨hline.noEquals, by decide⟩
  obtain ⟨htake, hdrop⟩ := takeWhile_ne_append hname (32 :: line.value)
  unfold parse
  simp only [htext]
  rw [hsplit, htake, hdrop, List.tail_cons, hline.compactName, hline.compactValue,
    if_neg (by simpa using hline.named)]
  have hdot := hline.firstDot
  obtain ⟨plugin, name, value⟩ := line
  cases plugin with
  | none => exact if_neg hdot
  | some plugin =>
      obtain ⟨htake, hdrop⟩ := takeWhile_ne_append hdot name
      rw [fullName, if_pos (by simp), htake, hdrop, List.tail_cons]

end SetupLine

/-- The order of `setup.conf`: the lines of VDR first, then plugin by plugin. -/
def SetupLine.le (a b : SetupLine) : Bool :=
  match a.plugin, b.plugin with
  | none, none => a.name.map tolower ≤ b.name.map tolower
  | none, some _ => true
  | some _, none => false
  | some p, some q => p.map tolower < q.map tolower ∨
      strcaseeq p q ∧ a.name.map tolower ≤ b.name.map tolower

def updateChannels : SetupLine := ⟨none, ascii "UpdateChannels", ascii "5"⟩

/-- VDR with a single variable, and without bindings and plugins. -/
def plainVdr : Vdr where
  bound := fun _ => false
  loaded := fun _ => false
  parse := SetupLine.parse
  save := fun lines =>
    (LineFile.put SetupLine.caseless lines updateChannels).insertionSort fun a b => a.le b

theorem plainVdr_stores : plainVdr.Stores [updateChannels] := fun _ => List.perm_insertionSort _ _

theorem updateChannels_plain : updateChannels.Plain where
  oneLine := by decide
  noComment := by decide
  noEquals := by decide
  named := by decide
  noReturn := by decide
  compactName := by decide
  compactValue := by decide
  firstDot := show SetupLine.dot ∉ updateChannels.name by decide

theorem plain_save {lines : List SetupLine} (hlines : ∀ line ∈ lines, line.Plain) :
    ∀ line ∈ plainVdr.save lines, line.Plain := by
  intro line hline
  have hput := (plainVdr_stores lines).mem_iff.mp hline
  rcases List.mem_append.mp hput with hold | hnew
  · exact hlines line (List.mem_of_mem_eraseP hold)
  · rw [List.mem_singleton.mp hnew]
    exact updateChannels_plain

theorem SetupLine.Plain.readBack {line : SetupLine} (hline : line.Plain) :
    plainVdr.format.readBack line = [line] := by
  rw [LineFile.Format.readBack_of_notMem _ hline.oneLine]
  change (parse (readLine (line.text ++ [10]))).toList = [line]
  rw [readLine_of_not_return hline.noReturn, hline.parse_text, Option.toList_some]

theorem reload_of_plain {lines : List SetupLine} (hlines : ∀ line ∈ lines, line.Plain) :
    plainVdr.format.reload lines = lines := by
  rw [LineFile.Format.reload_eq]
  induction lines with
  | nil => rfl
  | cons line lines ih =>
      rw [List.flatMap_cons, (hlines line List.mem_cons_self).readBack,
        ih fun line' hline' => hlines line' (List.mem_cons_of_mem line hline')]
      rfl

end Dbus2vdr

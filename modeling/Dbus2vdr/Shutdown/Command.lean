import Dbus2vdr.CString
import Dbus2vdr.Lib.Shell

/-!
# The command lines of the shutdown hooks

`ConfirmShutdown` hands the name of the next timer's recording to the hooks through two shells. The
first one splits the call of the wrapper, the second one, in the wrapper, the call of a hook, to
which the parameters have been appended as they came. The file name is escaped once for each shell,
but both times the first shell is reckoned without: it finds every `$` and backquote of the file
name bare inside its double quotes. `delivered_iff` says which file names get through all the same.
-/

namespace Dbus2vdr.Shutdown

open Shell (split Passes IsPlain StartsExpansion dollar dquote backquote blank)

/-- A path of the installation, which contains nothing a shell would act on. -/
structure Path where
  bytes : Bytes
  ne_nil : bytes ≠ []
  plain : ∀ b ∈ bytes, IsPlain b

structure Script where
  path : Path
  executable : Bool

/-- `"/bin/sh %s"` in front of what cannot be executed itself. -/
def Script.call (s : Script) : Bytes :=
  if s.executable then s.path.bytes else ascii "/bin/sh " ++ s.path.bytes

def Script.words (s : Script) : List Bytes :=
  if s.executable then [s.path.bytes] else [ascii "/bin/sh", s.path.bytes]

/-- `"%ld %ld %d \"%s\" %d"`, the last one being `false`. -/
def format (next delta channel : Int) (name : Bytes) : Bytes :=
  decimal next ++ ascii " " ++ decimal delta ++ ascii " " ++ decimal channel ++
    ascii " \"" ++ name ++
    ascii "\" " ++ decimal 0

/-- `tmp` in `ConfirmShutdown`, by what wakes VDR up next: the timer with the number of its channel
and its file, else the plugin, else nothing. -/
def parameters (next delta : Int) (timer : Option (Int × Bytes)) (plugin : Option Bytes) : Bytes :=
  if next = 0 then format next delta 0 []
  else
    match timer, plugin with
    | some (channel, file), _ => format next delta channel (strescape file (ascii "\\\"$"))
    | none, some name => format next delta 0 name
    | none, none => format next delta 0 []

/-- `"%s %s \"%s\""`, the call of the wrapper. -/
def wrapperCommand (wrapper : Script) (hooksDir : Path) (tmp : Bytes) : Bytes :=
  wrapper.call ++ ascii " " ++ hooksDir.bytes ++ ascii " \"" ++ strescape tmp (ascii "\\\"") ++
    ascii "\""

/-- `"%s %s"`, the call of a hook. -/
def hookCommand (hook : Script) (params : Bytes) : Bytes :=
  hook.call ++ ascii " " ++ params

/-- The wrapper is called with its two arguments, and every hook with exactly the five that are
meant for it; no shell does anything but split its command. -/
def Delivered (wrapper : Script) (hooksDir : Path) (hooks : List Script) (tmp : Bytes)
    (arguments : List Bytes) : Prop :=
  ∃ params, split (wrapperCommand wrapper hooksDir tmp) =
      some (wrapper.words ++ [hooksDir.bytes, params]) ∧
    ∀ hook ∈ hooks, split (hookCommand hook params) = some (hook.words ++ arguments)

/-- A file name without backquotes in which no `$` is followed by what makes it an expansion,
another `$` apart. -/
def Harmless (file : Bytes) : Prop :=
  backquote ∉ file ∧ file.IsChain fun a b => a = dollar → StartsExpansion b → b = dollar

instance (file : Bytes) : Decidable (Harmless file) := inferInstanceAs (Decidable (_ ∧ _))

/-! ### What the shells make of it -/

theorem strescape_eq_escape (s chars : Bytes) :
    strescape s chars = Escape.escape Shell.backslash chars s :=
  strescape_eq s chars

theorem isPlain_of_mem_decimal {n : Int} {b : UInt8} (hb : b ∈ decimal n) : IsPlain b := by
  rcases mem_decimal hb with rfl | hdigit
  · decide
  · simp only [isdigit, Bool.and_eq_true, decide_eq_true_eq] at hdigit
    exact Or.inl hdigit

theorem run_decimal (words : List Bytes) (n : Int) (rest : Bytes) :
    Machine.run Shell.Lexer.step ⟨.bare, words, none⟩ (decimal n ++ blank :: rest) =
      Machine.run Shell.Lexer.step ⟨.bare, words ++ [decimal n], none⟩ rest :=
  Shell.run_word words (decimal_ne_nil n) (fun _ hb => isPlain_of_mem_decimal hb) rest

theorem run_call (words : List Bytes) (script : Script) (rest : Bytes) :
    Machine.run Shell.Lexer.step ⟨.bare, words, none⟩ (script.call ++ blank :: rest) =
      Machine.run Shell.Lexer.step ⟨.bare, words ++ script.words, none⟩ rest := by
  unfold Script.call Script.words
  split_ifs
  · exact Shell.run_word words script.path.ne_nil script.path.plain rest
  · have hsh : ascii "/bin/sh " = ascii "/bin/sh" ++ [blank] := rfl
    rw [hsh, List.append_assoc, List.append_assoc, List.singleton_append,
      Shell.run_word words (by decide) (by decide),
      Shell.run_word _ script.path.ne_nil script.path.plain, List.append_assoc]
    rfl

theorem split_wrapperCommand_iff (wrapper : Script) (hooksDir : Path) (tmp : Bytes)
    (words : List Bytes) :
    split (wrapperCommand wrapper hooksDir tmp) = some words ↔
      Passes (ascii "\\\"") tmp ∧ words = wrapper.words ++ [hooksDir.bytes, tmp] := by
  have hcommand : wrapperCommand wrapper hooksDir tmp =
      wrapper.call ++ blank :: (hooksDir.bytes ++ blank :: dquote ::
        (Escape.escape Shell.backslash (ascii "\\\"") tmp ++ dquote :: [])) := by
    simp only [wrapperCommand, strescape_eq_escape, List.append_assoc]
    rfl
  rw [split, hcommand, run_call, List.nil_append,
    Shell.run_word _ hooksDir.ne_nil hooksDir.plain,
    Shell.run_quoted (by decide) (by decide) (by decide), Machine.run_nil, Option.bind_some,
    Shell.Lexer.finish, if_pos rfl, Option.some.injEq, List.append_assoc, eq_comm (b := words)]
  rfl

theorem split_hookCommand_iff (hook : Script) (next delta channel : Int) (file : Bytes)
    (words : List Bytes) :
    split (hookCommand hook (format next delta channel (strescape file (ascii "\\\"$")))) =
        some words ↔
      Passes (ascii "\\\"$") file ∧
      words = hook.words ++ [decimal next, decimal delta, decimal channel, file, decimal 0] := by
  have hcommand : hookCommand hook (format next delta channel (strescape file (ascii "\\\"$"))) =
      hook.call ++ blank :: (decimal next ++ blank :: (decimal delta ++ blank ::
        (decimal channel ++ blank :: dquote ::
          (Escape.escape Shell.backslash (ascii "\\\"$") file ++
            dquote :: (blank :: decimal 0))))) := by
    simp only [hookCommand, format, strescape_eq_escape, List.append_assoc]
    rfl
  have hclose : ∀ done,
    Machine.run Shell.Lexer.step ⟨.bare, done, some file⟩ (blank :: decimal 0) =
      Machine.run Shell.Lexer.step ⟨.bare, done ++ [file], none⟩ (decimal 0) := fun _ => rfl
  rw [split, hcommand, run_call, List.nil_append, run_decimal, run_decimal, run_decimal,
    Shell.run_quoted (by decide) (by decide) (by decide), hclose,
    Shell.run_last_word _ (by decide) (by decide), Option.some.injEq, eq_comm (b := words)]
  simp only [List.append_assoc, List.cons_append, List.nil_append]

theorem harmless_cons {a : UInt8} {file : Bytes} :
    Harmless (a :: file) ↔
      a ≠ backquote ∧
      (a = dollar → ∀ b ∈ file.head?, StartsExpansion b → b = dollar) ∧
      Harmless file := by
  unfold Harmless
  rw [List.isChain_cons, List.mem_cons, not_or, ne_comm (a := a)]
  constructor
  · rintro ⟨⟨hfirst, hback⟩, hhead, hchain⟩
    exact ⟨hfirst, fun ha b hb => hhead b hb ha, hback, hchain⟩
  · rintro ⟨hfirst, hhead, hback, hchain⟩
    exact ⟨⟨hfirst, hback⟩, fun b hb ha => hhead ha b hb, hchain⟩

theorem head_escape_iff {file tail : Bytes} (htail : ∀ b ∈ tail.head?, ¬ StartsExpansion b) :
    (∀ b ∈ (Escape.escape Shell.backslash (ascii "\\\"$") file ++ tail).head?,
      StartsExpansion b → b ∈ ascii "\\\"") ↔
      ∀ b ∈ file.head?, StartsExpansion b → b = dollar := by
  cases file with
  | nil =>
      simp only [Escape.escape_nil, List.nil_append, List.head?_nil]
      exact iff_of_true (fun b hb hstarts => absurd hstarts (htail b hb)) (fun b hb => by cases hb)
  | cons a file =>
      by_cases ha : a ∈ ascii "\\\"$"
      · rw [Escape.escape_cons_of_mem ha]
        have : ∀ b ∈ ascii "\\\"$", StartsExpansion b → b = dollar := by decide
        simpa [show ¬ StartsExpansion Shell.backslash by decide] using this a ha
      · rw [Escape.escape_cons_of_notMem ha]
        have hmarked : a ∉ ascii "\\\"" ∧ a ≠ dollar := by
          simp only [ascii] at ha ⊢
          simp_all [dollar]
        simp [hmarked]

/-- The file name as the first shell sees it: the backslash in front of a `$` is escaped away, that
in front of the other two is not. -/
theorem passes_escape_iff {file tail : Bytes} (htail : ∀ b ∈ tail.head?, ¬ StartsExpansion b)
    (hpasses : Passes (ascii "\\\"") tail) :
    Passes (ascii "\\\"") (Escape.escape Shell.backslash (ascii "\\\"$") file ++ tail) ↔
      Harmless file := by
  induction file with
  | nil => exact iff_of_true hpasses ⟨by simp, .nil⟩
  | cons a file ih =>
      rw [harmless_cons, ← ih, ← head_escape_iff htail]
      by_cases ha : a ∈ ascii "\\\"$"
      · rw [Escape.escape_cons_of_mem ha, List.cons_append, List.cons_append,
          Shell.passes_cons, Shell.passes_cons]
        have hback : ∀ b ∈ ascii "\\\"$", b ≠ backquote := by decide
        have hdollar : dollar ∉ ascii "\\\"" := by decide
        have hmark : Shell.backslash ≠ backquote ∧ Shell.backslash ≠ dollar := by decide
        constructor
        · rintro ⟨-, -, -, hchain, hrest⟩
          exact ⟨hback a ha, fun h => hchain h (h ▸ hdollar), hrest⟩
        · rintro ⟨-, hchain, hrest⟩
          exact ⟨fun h => absurd h hmark.1, fun h => absurd h hmark.2,
            fun h => absurd h (hback a ha), fun h _ => hchain h, hrest⟩
      · rw [Escape.escape_cons_of_notMem ha, List.cons_append, Shell.passes_cons]
        have hplain : a ∉ ascii "\\\"" ∧ a ≠ dollar := by
          simp only [ascii] at ha ⊢
          simp_all [dollar]
        constructor
        · rintro ⟨hback, -, hrest⟩
          exact ⟨fun h => hplain.1 (hback h), fun h => absurd h hplain.2, hrest⟩
        · rintro ⟨hback, -, hrest⟩
          exact ⟨fun h => absurd h hback, fun h => absurd h hplain.2, hrest⟩

theorem passes_format_iff (next delta channel : Int) (file : Bytes) :
    Passes (ascii "\\\"") (format next delta channel (strescape file (ascii "\\\"$"))) ↔
      Harmless file := by
  have hdecimal : ∀ n : Int, ∀ b ∈ decimal n, b ≠ dollar ∧ b ≠ backquote :=
    fun n b hb =>
    ⟨Shell.ne_of_isPlain (isPlain_of_mem_decimal hb) (by decide),
      Shell.ne_of_isPlain (isPlain_of_mem_decimal hb) (by decide)⟩
  simp only [format, strescape_eq_escape, List.append_assoc]
  rw [Shell.passes_append (hdecimal next), Shell.passes_append (by decide),
    Shell.passes_append (hdecimal delta), Shell.passes_append (by decide),
    Shell.passes_append (hdecimal channel), Shell.passes_append (by decide)]
  apply passes_escape_iff _ (by decide)
  intro b hb
  cases hb
  decide

/-- **File names on their way to the hooks.** Whatever the paths, the numbers and the hooks are, the
file name of the timer that wakes VDR up next reaches every hook byte by byte as its fourth
argument, and no shell acts on it, if and only if it is harmless. -/
theorem delivered_iff (wrapper : Script) (hooksDir : Path) (hooks : List Script)
    {next : Int} (hnext : next ≠ 0) (delta channel : Int) (file : Bytes) (plugin : Option Bytes) :
    Delivered wrapper hooksDir hooks (parameters next delta (some (channel, file)) plugin)
        [decimal next, decimal delta, decimal channel, file, decimal 0] ↔
      Harmless file := by
  rw [parameters, if_neg hnext]
  constructor
  · rintro ⟨params, hwrapper, -⟩
    exact (passes_format_iff next delta channel file).mp
      ((split_wrapperCommand_iff _ _ _ _).mp hwrapper).1
  · intro hharmless
    refine ⟨_, (split_wrapperCommand_iff _ _ _ _).mpr
      ⟨(passes_format_iff next delta channel file).mpr hharmless, rfl⟩, fun hook _ => ?_⟩
    refine (split_hookCommand_iff hook next delta channel file _).mpr ⟨⟨fun h => ?_, ?_⟩,
      rfl⟩
    · exact absurd h hharmless.1
    · exact hharmless.2.imp fun a b hab ha hnot => absurd (by rw [ha]; decide) hnot

def defaultHooksDir : Path := ⟨ascii "/usr/share/vdr/shutdown-hooks", by decide, by decide⟩

def defaultWrapper : Script :=
  ⟨⟨ascii "/usr/share/vdr-plugin-dbus2vdr/shutdown-wrapper", by decide, by decide⟩, true⟩

theorem delivered_quotes :
    Delivered defaultWrapper defaultHooksDir [⟨defaultHooksDir, false⟩]
      (parameters 1700000000 3600 (some (12, ascii "\"Cash $ \\ Carry\"")) none)
      [decimal 1700000000, decimal 3600, decimal 12, ascii "\"Cash $ \\ Carry\"", decimal 0] :=
  (delivered_iff _ _ _ (by decide) _ _ _ _).mpr (by decide)

/-- A recording with a command in its name. -/
theorem command_in_file_name :
    ¬ ∀ (wrapper : Script) (hooksDir : Path) (hooks : List Script) (next delta channel : Int)
        (file : Bytes), next ≠ 0 →
      Delivered wrapper hooksDir hooks (parameters next delta (some (channel, file)) none)
        [decimal next, decimal delta, decimal channel, file, decimal 0] := by
  intro hall
  obtain ⟨params, hwrapper, -⟩ := hall defaultWrapper defaultHooksDir [] 1700000000 3600 12
    (ascii "$(reboot)") (by decide)
  have hpasses := ((split_wrapperCommand_iff _ _ _ _).mp hwrapper).1
  exact absurd ((passes_format_iff _ _ _ _).mp hpasses).2 (by decide)

end Dbus2vdr.Shutdown

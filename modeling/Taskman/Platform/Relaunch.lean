import Taskman.Core.Model
import Taskman.Text.Scan
import Taskman.Text.Utf16
import Taskman.Text.WinArgs

/-!
# Relaunching with administrator rights

The arguments of a launch are quoted one by one and put behind the quoted path of the executable.
That command line then goes through the splitter of the Run dialog, which trims it, takes the file
from between the quotes, and trims the rest before the shell gets it as the parameters.

* `Relaunch.quoteWinArg` : the quoting, which the standard rules undo
  (`Relaunch.splitArgs_commandTail`);
* `Relaunch.relaunchElevatedWithArgs` : the file and the parameters the shell gets;
* `Relaunch.arguments_survive_iff` : **the shell gets the executable and the arguments, unless a
  name is no text or white space at the ends of the parameters belongs to an argument**.
-/

namespace Taskman

namespace Relaunch

/-! ### Quoting -/

/-- Space, tab or quote: what an argument without quotes cannot hold. -/
def needsQuotes (c : Char) : Bool := c == ' ' || c == '\t' || c == '"'

/-- The argument passes through `quote_win_arg` as it is. -/
def isPlain (arg : Text) : Bool := !arg.isEmpty && !arg.any needsQuotes

/-- One character of a quoted argument; the number counts the backslashes just written. -/
def quoteStep (written : Text × ℕ) (c : Char) : Text × ℕ :=
  let (out, backslashes) := written
  match c with
  | '\\' => (out ++ ['\\'], backslashes + 1)
  | '"' => (out ++ List.replicate backslashes '\\' ++ ['\\', '"'], 0)
  | _ => (out ++ [c], 0)

/-- `quote_win_arg`. -/
def quoteWinArg (arg : Text) : Text :=
  if isPlain arg then arg
  else
    let (out, backslashes) := arg.foldl quoteStep (['"'], 0)
    out ++ List.replicate backslashes '\\' ++ ['"']

/-! ### The command line and its splitter -/

/-- `split_command`. -/
def splitCommand (cmd : Text) : Text × Option Text :=
  let cmd := cmd.trim
  match (cmd.stripPrefix ['"']).bind (Text.splitOnce (· == '"')) with
  | some (file, rest) =>
    let rest := rest.trim
    (file, if rest.isEmpty then none else some rest)
  | none =>
    match Text.splitOnce (· == ' ') cmd with
    | some (f, p) => (f, some p.trim)
    | none => (cmd, none)

/-- `run_new_task`, up to the call of the shell. -/
def runNewTask (commandLine : Text) : Except TmError (Text × Option Text) :=
  let (file, params) := splitCommand commandLine
  if file.isEmpty then .error (.platform "run_new_task".toList "empty command".toList)
  else .ok (file, params)

/-- The arguments as they stand behind the executable. -/
def commandTail (args : List Text) : Text := args.flatMap fun a => ' ' :: quoteWinArg a

/-- `relaunch_elevated_with_args`, for the path the system names as the executable's. -/
def relaunchElevatedWithArgs (exe : List ℕ) (args : List Text) :
    Except TmError (Text × Option Text) :=
  runNewTask ('"' :: Text.fromUtf16Lossy exe ++ '"' :: commandTail args)

/-! ### The standard rules undo the quoting -/

theorem isPlain_iff {arg : Text} :
    isPlain arg ↔ arg ≠ [] ∧ ∀ c ∈ arg, needsQuotes c = false := by
  simp [isPlain]

theorem needsQuotes_eq_false_iff {c : Char} :
    needsQuotes c = false ↔ Text.isSeparator c = false ∧ c ≠ '"' := by
  simp [needsQuotes, Text.isSeparator, and_assoc]

/-- What the standard rules have read of a quoted argument: all of it, with the backslashes that
were just written still open. -/
theorem foldl_feed_quoteStep (d : List Text) (arg : Text) :
    ∃ text, text ++ List.replicate (arg.foldl quoteStep (['"'], 0)).2 '\\' = arg ∧
      (arg.foldl quoteStep (['"'], 0)).1.foldl Text.Splitter.feed ⟨d, none, 0, false⟩ =
        ⟨d, some text, (arg.foldl quoteStep (['"'], 0)).2, true⟩ := by
  induction arg using List.reverseRecOn with
  | nil => exact ⟨[], rfl, by simp [Text.Splitter.feed]⟩
  | append_singleton arg c ih =>
    rw [List.foldl_append, List.foldl_cons, List.foldl_nil]
    generalize arg.foldl quoteStep (['"'], 0) = e at ih
    obtain ⟨out, n⟩ := e
    obtain ⟨text, rfl, hread⟩ := ih
    simp only [quoteStep] at hread ⊢
    split
    · refine ⟨text, by simp [List.replicate_succ'], ?_⟩
      simp [List.foldl_append, hread, Text.Splitter.feed_backslash]
    · refine ⟨text ++ List.replicate n '\\' ++ ['"'], by simp, ?_⟩
      rw [List.append_assoc, List.foldl_append, hread, Text.Splitter.foldl_feed_escaped]
    · rename_i hslash hquote
      refine ⟨text ++ List.replicate n '\\' ++ [c], by simp, ?_⟩
      rw [List.foldl_append, hread, List.foldl_cons, List.foldl_nil,
        Text.Splitter.feed_literal _ hslash hquote (by simp)]
      rfl

/-- A quoted argument is read as the argument. -/
theorem foldl_feed_quoteWinArg (d : List Text) (arg : Text) :
    ((quoteWinArg arg).foldl Text.Splitter.feed ⟨d, none, 0, false⟩).finish = d ++ [arg] ∧
      ((quoteWinArg arg).foldl Text.Splitter.feed ⟨d, none, 0, false⟩).quoted = false := by
  unfold quoteWinArg
  split_ifs with hplain
  · obtain ⟨hne, hnone⟩ := isPlain_iff.mp hplain
    have hsep : ∀ c ∈ arg, Text.isSeparator c = false :=
      fun c hc => (needsQuotes_eq_false_iff.mp (hnone c hc)).1
    have hquote : '"' ∉ arg := fun h => (needsQuotes_eq_false_iff.mp (hnone _ h)).2 rfl
    obtain ⟨hdone, hq, hpending, hsome⟩ :=
      Text.Splitter.foldl_feed_plain ⟨d, none, 0, false⟩ hsep hquote rfl
    refine ⟨?_, hq⟩
    rw [Text.Splitter.finish_of_isSome _ (hsome.trans (by simp [hne])), hdone, hpending]
    rfl
  · obtain ⟨text, htext, hread⟩ := foldl_feed_quoteStep d arg
    have hclosed : (((arg.foldl quoteStep (['"'], 0)).1 ++
        List.replicate (arg.foldl quoteStep (['"'], 0)).2 '\\' ++ ['"']).foldl
          Text.Splitter.feed ⟨d, none, 0, false⟩) = ⟨d, some arg, 0, false⟩ := by
      rw [List.append_assoc, List.foldl_append, hread, Text.Splitter.foldl_feed_doubled, htext]
      rfl
    simp only [hclosed]
    exact ⟨by simp [Text.Splitter.finish, Text.Splitter.pending], trivial⟩

theorem foldl_feed_commandTail (args : List Text) (s : Text.Splitter) (hs : s.quoted = false) :
    ((commandTail args).foldl Text.Splitter.feed s).finish = s.finish ++ args := by
  induction args generalizing s with
  | nil => simp [commandTail]
  | cons a args ih =>
    rw [commandTail, List.flatMap_cons, List.cons_append, ← commandTail, List.foldl_cons,
      Text.Splitter.feed_separator s (by decide) hs, List.foldl_append]
    obtain ⟨hfinish, hquoted⟩ := foldl_feed_quoteWinArg s.finish a
    rw [ih _ hquoted, hfinish, List.append_assoc, List.singleton_append]

/-- **The standard rules undo the quoting.** -/
theorem splitArgs_commandTail (args : List Text) : Text.splitArgs (commandTail args) = args :=
  foldl_feed_commandTail args Text.Splitter.start rfl

/-! ### What the splitter of the Run dialog leaves -/

/-- White space the standard rules take for a part of an argument. -/
def isForeignSpace (c : Char) : Bool := Text.isWhitespace c && !Text.isSeparator c

theorem inert_isForeignSpace : Text.Splitter.Inert isForeignSpace where
  backslash := by decide
  quote := by decide
  separator := by simp +contextual [isForeignSpace]

/-- White space at the ends of the parameters is not part of an argument. -/
structure EndsVisible (args : List Text) : Prop where
  head : ∀ a ∈ args.head?, isPlain a → ∀ c ∈ a.head?, Text.isWhitespace c = false
  last : ∀ a ∈ args.getLast?, isPlain a → ∀ c ∈ a.getLast?, Text.isWhitespace c = false

theorem quoteWinArg_of_not_isPlain {a : Text} (h : ¬isPlain a) :
    ∃ mid, quoteWinArg a = '"' :: (mid ++ ['"']) := by
  have hstart (t : Text) : ∃ mid, (t.foldl quoteStep (['"'], 0)).1 = '"' :: mid := by
    induction t using List.reverseRecOn with
    | nil => exact ⟨[], rfl⟩
    | append_singleton t c ih =>
      obtain ⟨mid, hmid⟩ := ih
      rw [List.foldl_append, List.foldl_cons, List.foldl_nil]
      simp only [quoteStep, hmid]
      split
      · exact ⟨_, rfl⟩
      · exact ⟨_, rfl⟩
      · exact ⟨_, rfl⟩
  obtain ⟨mid, hmid⟩ := hstart a
  refine ⟨mid ++ List.replicate (a.foldl quoteStep (['"'], 0)).2 '\\', ?_⟩
  rw [quoteWinArg, if_neg h]
  simp only [hmid, List.cons_append]

theorem quoteWinArg_ne_nil (a : Text) : quoteWinArg a ≠ [] := by
  by_cases h : isPlain a
  · rw [quoteWinArg, if_pos h]
    exact (isPlain_iff.mp h).1
  · obtain ⟨mid, hmid⟩ := quoteWinArg_of_not_isPlain h
    simp [hmid]

/-- A quoted argument begins with visible ink, unless it is the plain argument itself. -/
theorem head?_quoteWinArg_visible_iff {a : Text} :
    (∀ c ∈ (quoteWinArg a).head?, Text.isWhitespace c = false) ↔
      (isPlain a → ∀ c ∈ a.head?, Text.isWhitespace c = false) := by
  by_cases h : isPlain a
  · simp [quoteWinArg, h]
  · obtain ⟨mid, hmid⟩ := quoteWinArg_of_not_isPlain h
    have hquote : Text.isWhitespace '"' = false := by decide
    simp [hmid, h, hquote]

theorem getLast?_quoteWinArg_visible_iff {a : Text} :
    (∀ c ∈ (quoteWinArg a).getLast?, Text.isWhitespace c = false) ↔
      (isPlain a → ∀ c ∈ a.getLast?, Text.isWhitespace c = false) := by
  by_cases h : isPlain a
  · simp [quoteWinArg, h]
  · obtain ⟨mid, hmid⟩ := quoteWinArg_of_not_isPlain h
    have hquote : Text.isWhitespace '"' = false := by decide
    simp [hmid, h, hquote, List.getLast?_cons]

theorem commandTail_cons (a : Text) (args : List Text) :
    commandTail (a :: args) = ' ' :: (quoteWinArg a ++ commandTail args) := by
  simp [commandTail]

theorem commandTail_concat (args : List Text) (a : Text) :
    commandTail (args ++ [a]) = commandTail args ++ ' ' :: quoteWinArg a := by
  simp [commandTail]

theorem splitArgs_space (t : Text) : Text.splitArgs (' ' :: t) = Text.splitArgs t := by
  rw [Text.splitArgs, List.foldl_cons,
    Text.Splitter.feed_separator Text.Splitter.start (by decide) rfl]
  rfl

theorem getLast?_commandTail_cons (a : Text) (args : List Text) :
    (commandTail (a :: args)).getLast? = (quoteWinArg a ++ commandTail args).getLast? := by
  have hne : quoteWinArg a ++ commandTail args ≠ [] := by simp [quoteWinArg_ne_nil]
  rw [commandTail_cons, List.getLast?_cons_of_ne_nil hne]

/-- Where only the space in front goes, the standard rules still undo the quoting. -/
theorem splitArgs_trim_commandTail {args : List Text} (h : EndsVisible args) :
    Text.splitArgs (commandTail args).trim = args := by
  cases args with
  | nil => rfl
  | cons a args =>
    have htrimmed : Text.Trimmed (quoteWinArg a ++ commandTail args) := by
      constructor
      · rw [List.head?_append_of_ne_nil _ (quoteWinArg_ne_nil a)]
        exact head?_quoteWinArg_visible_iff.mpr (h.head a rfl)
      · rw [← getLast?_commandTail_cons a args]
        intro c hc
        have hlast := List.getLast?_eq_some_getLast (List.cons_ne_nil a args)
        obtain ⟨init, hinit⟩ := List.getLast?_eq_some_iff.mp hlast
        rw [hinit, commandTail_concat, List.getLast?_append_of_ne_nil _ (List.cons_ne_nil _ _),
          List.getLast?_cons_of_ne_nil (quoteWinArg_ne_nil _)] at hc
        exact getLast?_quoteWinArg_visible_iff.mpr (h.last _ hlast) c hc
    rw [commandTail_cons, Text.trim_cons (by decide), Text.trim_eq_self htrimmed,
      ← splitArgs_space, ← commandTail_cons, splitArgs_commandTail]

/-- White space lost at an end is lost for good: the standard rules make no other. -/
theorem countP_trim_commandTail {args : List Text}
    (h : Text.splitArgs (commandTail args).trim = args) :
    (commandTail args).trim.countP isForeignSpace = (commandTail args).countP isForeignSpace := by
  rw [← Text.countP_splitArgs inert_isForeignSpace, h,
    ← Text.countP_splitArgs inert_isForeignSpace (commandTail args), splitArgs_commandTail]

theorem countP_trim_le (t : Text) :
    t.trim.countP isForeignSpace ≤ t.countP isForeignSpace :=
  (Text.trim_sublist t).countP_le

theorem countP_concat {c : Char} (h : isForeignSpace c) (t : Text) :
    (t ++ [c]).countP isForeignSpace = t.countP isForeignSpace + 1 := by
  rw [List.countP_append, List.countP_singleton, if_pos h]

theorem isForeignSpace_of_mem {a : Text} (ha : isPlain a) {c : Char} (hc : c ∈ a)
    (hspace : Text.isWhitespace c) : isForeignSpace c := by
  have hsep := (needsQuotes_eq_false_iff.mp ((isPlain_iff.mp ha).2 c hc)).1
  simp [isForeignSpace, hspace, hsep]

theorem endsVisible_of_splitArgs {args : List Text}
    (h : Text.splitArgs (commandTail args).trim = args) : EndsVisible args := by
  have hcount := countP_trim_commandTail h
  constructor
  · intro a ha hplain c hc
    by_contra hspace
    rw [Bool.not_eq_false] at hspace
    obtain ⟨args, rfl⟩ := List.head?_eq_some_iff.mp ha
    obtain ⟨a, rfl⟩ := List.head?_eq_some_iff.mp hc
    have hforeign := isForeignSpace_of_mem hplain List.mem_cons_self hspace
    rw [commandTail_cons, quoteWinArg, if_pos hplain, Text.trim_cons (by decide), List.cons_append,
      Text.trim_cons hspace, List.countP_cons, List.countP_cons, if_pos hforeign] at hcount
    have hle := countP_trim_le (a ++ commandTail args)
    omega
  · intro a ha hplain c hc
    by_contra hspace
    rw [Bool.not_eq_false] at hspace
    obtain ⟨args, rfl⟩ := List.getLast?_eq_some_iff.mp ha
    obtain ⟨a, rfl⟩ := List.getLast?_eq_some_iff.mp hc
    have hforeign := isForeignSpace_of_mem hplain (by simp) hspace
    rw [commandTail_concat, quoteWinArg, if_pos hplain, ← List.cons_append, ← List.append_assoc,
      Text.trim_concat hspace, countP_concat hforeign] at hcount
    have hle := countP_trim_le (commandTail args ++ ' ' :: a)
    omega

/-! ### What the shell gets -/

theorem splitCommand_quoted {file : Text} (h : '"' ∉ file) (tail : Text) :
    splitCommand ('"' :: file ++ '"' :: tail) =
      (file, if tail.trim.isEmpty then none else some tail.trim) := by
  have htrim : Text.trim ('"' :: file ++ '"' :: tail) =
      '"' :: (file ++ '"' :: tail.rdropWhile Text.isWhitespace) := by
    rw [Text.trim, List.cons_append, List.dropWhile_cons_of_neg (by decide), ← List.cons_append,
      Text.rdropWhile_append_cons (by decide), List.cons_append]
  have hsplit : (Text.stripPrefix ('"' :: (file ++ '"' :: tail.rdropWhile Text.isWhitespace))
      ['"']).bind (Text.splitOnce (· == '"')) =
        some (file, tail.rdropWhile Text.isWhitespace) := by
    have hstrip := Text.stripPrefix_append ['"'] (file ++ '"' :: tail.rdropWhile Text.isWhitespace)
    rw [List.singleton_append] at hstrip
    rw [hstrip, Option.bind_some, Text.splitOnce_append_cons h]
  unfold splitCommand
  simp only [htrim, hsplit, Text.trim_rdropWhile]

theorem relaunchElevatedWithArgs_eq {exe : List ℕ} (h : '"'.toNat ∉ exe) (args : List Text) :
    relaunchElevatedWithArgs exe args =
      if exe = [] then .error (.platform "run_new_task".toList "empty command".toList)
      else .ok (Text.fromUtf16Lossy exe,
        if (commandTail args).trim.isEmpty then none else some (commandTail args).trim) := by
  have hquote : '"' ∉ Text.fromUtf16Lossy exe :=
    fun hmem => h (Text.toNat_mem_of_mem_fromUtf16Lossy (by decide) (by decide) hmem)
  have hempty : (Text.fromUtf16Lossy exe).isEmpty = true ↔ exe = [] := by
    fun_cases Text.fromUtf16Lossy exe <;> simp
  simp only [relaunchElevatedWithArgs, runNewTask, splitCommand_quoted hquote, hempty]

/-- **The shell gets the executable and the arguments exactly when the path is a text and no white
space at the ends of the parameters belongs to an argument.** -/
theorem arguments_survive_iff (exe : List ℕ) (args : List Text) (hexe : '"'.toNat ∉ exe) :
    (∃ file params, relaunchElevatedWithArgs exe args = .ok (file, params) ∧
        Text.encodeUtf16 file = exe ∧ Text.splitArgs (params.getD []) = args) ↔
      (exe ≠ [] ∧ ∃ path, exe = Text.encodeUtf16 path) ∧ EndsVisible args := by
  rw [relaunchElevatedWithArgs_eq hexe]
  have hparams : (if (commandTail args).trim.isEmpty then none
      else some (commandTail args).trim : Option Text).getD [] = (commandTail args).trim := by
    split_ifs with h
    · exact (List.isEmpty_iff.mp h).symm
    · rfl
  constructor
  · rintro ⟨file, params, hrun, hfile, hargs⟩
    have hne : exe ≠ [] := by
      rintro rfl
      cases hrun
    rw [if_neg hne] at hrun
    obtain ⟨rfl, rfl⟩ := Prod.mk.inj (Except.ok.inj hrun)
    rw [hparams] at hargs
    exact ⟨⟨hne, _, hfile.symm⟩, endsVisible_of_splitArgs hargs⟩
  · rintro ⟨⟨hne, path, rfl⟩, hvisible⟩
    rw [if_neg hne]
    refine ⟨_, _, rfl, ?_, ?_⟩
    · rw [Text.fromUtf16Lossy_encodeUtf16]
    · rw [hparams]
      exact splitArgs_trim_commandTail hvisible

/-- A quoted argument, an empty one and a plain one. -/
theorem arguments_survive_iff_three :
    ∃ file params, relaunchElevatedWithArgs (Text.encodeUtf16 "C:\\taskman.exe".toList)
        ["a \"b\\".toList, [], "--tab=services".toList] = .ok (file, params) ∧
      Text.encodeUtf16 file = Text.encodeUtf16 "C:\\taskman.exe".toList ∧
      Text.splitArgs (params.getD []) = ["a \"b\\".toList, [], "--tab=services".toList] :=
  (arguments_survive_iff _ _ (by decide)).mpr
    ⟨⟨by decide, _, rfl⟩, ⟨by simp; decide, by simp; decide⟩⟩

/-- A no-break space at the end of the last argument is lost. -/
theorem no_break_space_lost :
    relaunchElevatedWithArgs (Text.encodeUtf16 "C:\\taskman.exe".toList)
        ["--tab=services\u00a0".toList] =
      .ok ("C:\\taskman.exe".toList, some "--tab=services".toList) ∧
    Text.splitArgs "--tab=services".toList ≠ ["--tab=services\u00a0".toList] := by
  decide +kernel

end Relaunch

end Taskman

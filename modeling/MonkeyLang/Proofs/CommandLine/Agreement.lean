import MonkeyLang.CommandLine.Execute
import MonkeyLang.Proofs.Lexer.Tracking
import MonkeyLang.Proofs.Text.Utf8
import MonkeyLang.Text.Letter

/-!
A program can be run from a file, and it can be given as an argument. The name of the file is used
in reports only, and the bytes of a file are decoded as the text they come from. So both ways do the
same, but for the name in a report, as long as the arguments are taken as operands: an argument
that looks like a flag is not taken as one, unless two dashes stand before it.
-/
namespace MonkeyLang

/-! ### Reports under another name -/

def Failure.under (name : String) : Failure → Failure
  | malformed messages _ => malformed messages name
  | runtime message _ => runtime message name
  | general message => general message

def RunFault.under (name : String) : RunFault → RunFault
  | failed failure => failed (failure.under name)
  | fault => fault

theorem parseClean_under [Text.Alphabet] (source filename name : String) :
    parseClean source name = (parseClean source filename).mapError (RunFault.under name) := by
  unfold parseClean
  split
  · rfl
  · split <;> rfl

theorem Ending.toResult_under (ending : Ending) (filename name : String) :
    ending.toResult name = (ending.toResult filename).mapError (RunFault.under name) := by
  cases ending with
  | nothing | untyped | unencodable => rfl
  | result value => cases value <;> rfl

section Run

variable [Text.Alphabet] [Text.Encoding] (depth : Nat) (source filename name : String)
  (scope : Scope) (heap : Heap)

theorem run_result_under : (run depth source name scope heap).result =
    (run depth source filename scope heap).result.mapError (RunFault.under name) := by
  unfold run
  rw [parseClean_under source filename name]
  cases parseClean source filename with
  | error fault => rfl
  | ok program => exact Ending.toResult_under _ filename name

theorem run_events_under :
    (run depth source name scope heap).events = (run depth source filename scope heap).events := by
  unfold run
  rw [parseClean_under source filename name]
  cases parseClean source filename <;> rfl

end Run

namespace CommandLine

def reportUnder (name : String) : Option Failure → String
  | some failure => (failure.under name).panel
  | none => ""

/-- Two outputs are the same, but for the names under which a failure is reported. -/
structure SameBut (name name' : String) (o o' : Output) : Prop where
  exit : o.exit = o'.exit
  stdout : o.stdout = o'.stdout
  crash : o.crash = o'.crash
  stderr : ∃ (lines : String) (failure : Option Failure),
    o.stderr = lines ++ reportUnder name failure ∧ o'.stderr = lines ++ reportUnder name' failure

namespace Job

def resultText (typed : Bool) (result : Except RunFault (Option Value)) :
    Except RunFault String := do
  match ← result with
  | none => return ""
  | some value => resultLine typed value

theorem resultText_under (typed : Bool) (result : Except RunFault (Option Value)) (name : String) :
    resultText typed (result.mapError (RunFault.under name)) =
      (resultText typed result).mapError (RunFault.under name) := by
  cases result with
  | error fault => rfl
  | ok shown =>
    cases shown with
    | none => rfl
    | some value =>
      change resultLine typed value = (resultLine typed value).mapError (RunFault.under name)
      unfold resultLine
      split <;> rfl

theorem ended_sameBut {job job' : Job} (hdebug : job.debug = job'.debug) (lines : List String)
    (text : Except RunFault String) (name name' : String) :
    SameBut name name' (job.ended lines (text.mapError (RunFault.under name)))
      (job'.ended lines (text.mapError (RunFault.under name'))) := by
  have htraced : job.traced lines = job'.traced lines := by simp only [traced, hdebug]
  have hquiet : ∀ name, job.traced lines = job.traced lines ++ reportUnder name none :=
    fun _ => String.append_empty.symm
  cases text with
  | ok text => exact ⟨rfl, rfl, rfl, job.traced lines, none, hquiet _, htraced ▸ hquiet _⟩
  | error fault =>
    cases fault with
    | failed failure =>
      exact ⟨rfl, rfl, rfl, job.traced lines, some failure, rfl, htraced ▸ rfl⟩
    | oversized | untyped | unencodable =>
      exact ⟨rfl, rfl, rfl, job.traced lines, none, hquiet _, htraced ▸ hquiet _⟩

theorem run_sameBut [Text.Alphabet] [Text.Encoding] (source name name' : String) (debug : Bool)
    (depth : Nat) (typed : Bool) :
    SameBut name name' (run ⟨source, name, debug, depth⟩ typed)
      (run ⟨source, name', debug, depth⟩ typed) := by
  -- Both runs are compared with the run of a file without a name.
  let scope := (Heap.globalScope {}).1
  let heap := (Heap.globalScope {}).2
  let plain := MonkeyLang.run depth source "" scope heap
  let lines := if debug then plain.trace source else []
  have hrun : ∀ file, run ⟨source, file, debug, depth⟩ typed =
      ended ⟨source, file, debug, depth⟩ lines
        ((resultText typed plain.result).mapError (RunFault.under file)) := by
    intro file
    have hresult := run_result_under depth source "" file scope heap
    have hevents := run_events_under depth source "" file scope heap
    rw [← resultText_under, ← hresult]
    simp only [lines, plain, Run.trace, ← hevents]
    rfl
  rw [hrun, hrun]
  exact ended_sameBut rfl lines _ name name'

theorem exit_run_le [Text.Alphabet] [Text.Encoding] (job : Job) (typed : Bool) :
    (job.run typed).exit ≤ 1 := by
  have hended : ∀ lines text, (job.ended lines text).exit ≤ 1 := by
    intro lines text
    unfold ended
    split <;> simp
  exact hended _ _

end Job

/-! ### Arguments -/

def Command.runs (command : Command) : Prop := command = .run ∨ command = .eval

def typedFlag (typed : Bool) : List String := if typed then ["--typed"] else []

def twoDashes (dashes : Bool) : List String := if dashes then ["--"] else []

/-- A command with its operand, with or without the flag for types, behind two dashes or not. -/
def commandArguments (command : Command) (typed dashes : Bool) (operand : String) : List String :=
  command.name :: (typedFlag typed ++ (twoDashes dashes ++ [operand]))

section Arguments

variable {command : Command} {typed dashes : Bool} {operand : String}

theorem ofArguments_commandArguments (hcommand : command.runs) :
    Invocation.ofArguments (commandArguments command typed dashes operand) =
      readCommand false command (typedFlag typed ++ (twoDashes dashes ++ [operand])) := by
  rcases hcommand with rfl | rfl <;> rfl

theorem ne_dashes_of_not_flag (h : looksLikeFlag operand = false) : operand ≠ "--" := by
  rintro rfl
  cases h

theorem mixedFlags_typed (arguments : List String) :
    mixedFlags [.typed, .help] (typedFlag typed ++ arguments) =
      (mixedFlags [.typed, .help] arguments).map fun found =>
        ((if typed then [.typed] else []) ++ found.1, found.2) := by
  cases typed with
  | false =>
    simp only [typedFlag, Bool.false_eq_true, if_false, List.nil_append]
    cases mixedFlags [.typed, .help] arguments <;> rfl
  | true =>
    have hread : readFlag [.typed, .help] "--typed" = .ok .typed := by rfl
    have hflag : looksLikeFlag "--typed" = true := by rfl
    simp only [typedFlag, if_true, List.singleton_append, mixedFlags, hflag, hread]
    cases mixedFlags [.typed, .help] arguments <;> rfl

theorem mixedFlags_operand (h : dashes = true ∨ looksLikeFlag operand = false) :
    mixedFlags [.typed, .help] (twoDashes dashes ++ [operand]) = .ok ([], [operand]) := by
  cases dashes with
  | true => rfl
  | false =>
    have hplain := h.resolve_left Bool.false_ne_true
    simp [twoDashes, mixedFlags, ne_dashes_of_not_flag hplain, hplain]

theorem ofArguments_of_operand (hcommand : command.runs)
    (h : dashes = true ∨ looksLikeFlag operand = false) :
    Invocation.ofArguments (commandArguments command typed dashes operand) =
      .perform command false typed operand [] := by
  have hflags : command.flags = [.typed, .help] := by rcases hcommand with rfl | rfl <;> rfl
  rw [ofArguments_commandArguments hcommand, readCommand, hflags, mixedFlags_typed,
    mixedFlags_operand h]
  cases typed <;> rfl

theorem readFlag_eq_ok {known : List Flag} {argument : String} {flag : Flag}
    (h : readFlag known argument = .ok flag) : flag ∈ known ∧ argument = flag.name := by
  unfold readFlag at h
  dsimp only at h
  split at h
  · next found hfound =>
    split at h
    · next hlength =>
      cases h
      have hname : flag.name = String.ofList (argument.toList.takeWhile (· ≠ '=')) := by
        simpa using List.find?_some hfound
      have hword : argument.toList.takeWhile (· ≠ '=') = argument.toList :=
        (List.takeWhile_prefix _).eq_of_length (hlength.trans String.length_toList.symm)
      refine ⟨List.mem_of_find?_eq_some hfound, ?_⟩
      rw [hname, hword, String.ofList_toList]
    · cases h
  · split at h <;> cases h

/-- An operand that looks like a flag is refused, or asks for help. -/
theorem ofArguments_of_flag (typed : Bool) (hcommand : command.runs) (h : looksLikeFlag operand) :
    (∃ cause, Invocation.ofArguments (commandArguments command typed false operand) =
      .refused (some command) cause) ∨
    operand = "--help" ∧ Invocation.ofArguments (commandArguments command typed false operand) =
      .help (some command) := by
  have hflags : command.flags = [.typed, .help] := by rcases hcommand with rfl | rfl <;> rfl
  rw [ofArguments_commandArguments hcommand, readCommand, hflags, mixedFlags_typed]
  simp only [twoDashes, Bool.false_eq_true, if_false, List.nil_append]
  by_cases hdashes : operand = "--"
  · subst hdashes
    left
    cases typed <;> exact ⟨_, rfl⟩
  · simp only [mixedFlags, hdashes, if_false, h, if_true]
    cases hread : readFlag [.typed, .help] operand with
    | error cause => exact Or.inl ⟨cause, rfl⟩
    | ok flag =>
      obtain ⟨hknown, rfl⟩ := readFlag_eq_ok hread
      rw [List.mem_pair] at hknown
      rcases hknown with rfl | rfl
      · left
        cases typed <;> exact ⟨_, rfl⟩
      · right
        cases typed <;> exact ⟨rfl, rfl⟩

end Arguments

/-! ### Both ways -/

theorem loadOperand_file {source : String} (file : String) (hsource : '\r' ∉ source.toList) :
    loadOperand .run file (.file source.toUTF8.data.toList) = .ok (source, file) := by
  unfold loadOperand
  simp only [Text.decodeUtf8_toUTF8, Text.unifyLineEnds_of_not_mem hsource, String.ofList_toList]

section Both

variable [Text.Alphabet] [Text.Encoding]

theorem exists_failure_help (depth : Nat) (filename : String) :
    ∃ failure, (MonkeyLang.run depth "--help" filename (Heap.globalScope {}).1
      (Heap.globalScope {}).2).result = .error (.failed failure) := by
  have hprogram : parseClean "--help" filename = .ok
      (.program [.expression (.prefixOp .minus (.prefixOp .minus (.identifier "help")))]) := by
    rw [parseClean, parse, Lexer.scan_of_ascii (by decide)]
    rfl
  unfold MonkeyLang.run
  rw [hprogram]
  match depth with
  | 0 | 1 | 2 | 3 | 4 | _ + 5 => exact ⟨_, rfl⟩

theorem exit_run_help (filename : String) (debug : Bool) (depth : Nat) (typed : Bool) :
    (Job.run ⟨"--help", filename, debug, depth⟩ typed).exit = 1 := by
  obtain ⟨failure, hfailure⟩ := exists_failure_help depth filename
  have hrun : Job.run ⟨"--help", filename, debug, depth⟩ typed = Job.ended _ _
      (Job.resultText typed (MonkeyLang.run depth "--help" filename (Heap.globalScope {}).1
        (Heap.globalScope {}).2).result) := rfl
  rw [hrun, hfailure]
  rfl

variable (program : String) (settings : Settings) (entry : String → Entry)

theorem respond_run {file source : String} {typed dashes : Bool}
    (hentry : entry file = .file source.toUTF8.data.toList)
    (hsource : '\r' ∉ source.toList) (hfile : dashes = true ∨ looksLikeFlag file = false) :
    respond program settings entry (commandArguments .run typed dashes file) =
      Job.run ⟨source, file, settings.debug, settings.depth⟩ typed := by
  have hentry' : ((some file).map entry).getD .missing = .file source.toUTF8.data.toList := hentry
  unfold respond
  rw [ofArguments_of_operand (.inl rfl) hfile]
  change Invocation.execute program settings (((some file).map entry).getD .missing) _ = _
  rw [hentry']
  simp only [Invocation.execute, loadOperand_file file hsource]
  rfl

theorem respond_eval {source : String} {typed dashes : Bool}
    (hsource : dashes = true ∨ looksLikeFlag source = false) :
    respond program settings entry (commandArguments .eval typed dashes source) =
      Job.run ⟨source, "<eval>", settings.debug, settings.depth⟩ typed := by
  unfold respond
  rw [ofArguments_of_operand (.inr rfl) hsource]
  rfl

theorem respond_eval_of_flag {source : String} (typed : Bool) {dashes : Bool}
    (hdashes : dashes = false) (h : looksLikeFlag source) :
    let evaluated := respond program settings entry (commandArguments .eval typed dashes source)
    evaluated.exit = 2 ∨
      source = "--help" ∧ evaluated = { stdout := helpText program (some .eval) } := by
  subst hdashes
  unfold respond
  rcases ofArguments_of_flag typed (.inr rfl) h with ⟨cause, hrefused⟩ | ⟨rfl, hhelp⟩
  · rw [hrefused]
    exact Or.inl rfl
  · rw [hhelp]
    exact Or.inr ⟨rfl, rfl⟩

/-- A program is run from a file and given as an argument with the same exit, the same output and
the same report, but for the name of the file, exactly if the argument is taken as an operand: it
does not look like a flag, or two dashes stand before it. Otherwise the argument is refused, or is
taken as a request for help. -/
theorem run_agrees_with_eval_iff (file source : String)
    (hentry : entry file = .file source.toUTF8.data.toList) (hsource : '\r' ∉ source.toList)
    (typed dashes : Bool) (hfile : dashes = true ∨ looksLikeFlag file = false) :
    let ran := respond program settings entry (commandArguments .run typed dashes file)
    let evaluated := respond program settings entry (commandArguments .eval typed dashes source)
    (SameBut file "<eval>" ran evaluated ↔ dashes = true ∨ looksLikeFlag source = false) ∧
      (dashes = false → looksLikeFlag source → evaluated.exit = 2 ∨
        source = "--help" ∧ evaluated = { stdout := helpText program (some .eval) }) := by
  refine ⟨?_, respond_eval_of_flag program settings entry typed⟩
  rw [respond_run program settings entry hentry hsource hfile]
  constructor
  · intro hsame
    by_contra hoperand
    obtain ⟨hdashes, hlooks⟩ := not_or.mp hoperand
    have hexit := hsame.exit
    -- A refusal has an exit that no run has. Help has that of a run that ends well, and the text
    -- that asks for it is a program that does not.
    rcases respond_eval_of_flag program settings entry typed (by simpa using hdashes)
      (by simpa using hlooks) with hrefused | ⟨rfl, hhelp⟩
    · have hle := Job.exit_run_le ⟨source, file, settings.debug, settings.depth⟩ typed
      rw [hexit, hrefused] at hle
      omega
    · rw [exit_run_help, hhelp] at hexit
      cases hexit
  · intro hoperand
    rw [respond_eval program settings entry hoperand]
    exact Job.run_sameBut source file "<eval>" settings.debug settings.depth typed

end Both

theorem run_agrees_with_eval_iff_behind_dashes :
    let source := "-\"é\" + 1"
    let entry := fun _ : String => Entry.file source.toUTF8.data.toList
    let ran := respond "monkey" {} entry ["run", "--typed", "--", "-p.mk"]
    let evaluated := respond "monkey" {} entry ["eval", "--typed", "--", source]
    '\r' ∉ source.toList ∧ ran.exit = 1 ∧ SameBut "-p.mk" "<eval>" ran evaluated := by
  intro source entry ran evaluated
  have hsource : '\r' ∉ source.toList := by decide
  have hexit : ran.exit = 1 := by decide +kernel
  have hagrees := run_agrees_with_eval_iff "monkey" {} entry "-p.mk" source rfl hsource true true
    (Or.inl rfl)
  exact ⟨hsource, hexit, hagrees.1.mpr (Or.inl rfl)⟩

/-- A negative number is a program that runs from a file; as an argument it looks like a flag. -/
theorem run_disagrees_with_eval_on_negative_number :
    let entry := fun _ : String => Entry.file "-5".toUTF8.data.toList
    let ran := respond "monkey" {} entry ["run", "p.mk"]
    let evaluated := respond "monkey" {} entry ["eval", "-5"]
    (ran.exit, ran.stdout) = (0, "-5\n") ∧ (evaluated.exit, evaluated.stdout) = (2, "") ∧
      ¬ SameBut "p.mk" "<eval>" ran evaluated := by
  intro entry ran evaluated
  have hran : (ran.exit, ran.stdout) = (0, "-5\n") := by decide +kernel
  have hevaluated : (evaluated.exit, evaluated.stdout) = (2, "") := by decide +kernel
  refine ⟨hran, hevaluated, fun hsame => ?_⟩
  have hexit : 0 = 2 :=
    calc
      0 = ran.exit := (congrArg Prod.fst hran).symm
      _ = evaluated.exit := hsame.exit
      _ = 2 := congrArg Prod.fst hevaluated
  omega

end CommandLine

end MonkeyLang

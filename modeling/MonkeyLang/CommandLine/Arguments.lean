import MonkeyLang.CommandLine.Refusal

/-!
Reading of arguments. Flags of the program stand before the command; flags of a command stand
anywhere among its operands. Two dashes end the flags. Every flag is checked before any of them
takes effect.
-/
namespace MonkeyLang.CommandLine

def looksLikeFlag (argument : String) : Bool :=
  match argument.toList with
  | '-' :: _ :: _ => true
  | _ => false

/-- The flag that an argument stands for. After one dash only the next character is looked at. -/
def readFlag (known : List Flag) (argument : String) : Except Refusal Flag :=
  let word := argument.toList.takeWhile (· ≠ '=')
  let name := String.ofList word
  match known.find? (·.name = name) with
  | some flag => if word.length = argument.length then .ok flag else .error (.flagValue flag)
  | none =>
    match argument.toList with
    | '-' :: '-' :: _ => .error (.unknownFlag name (suggestions (known.map Flag.name) name))
    | cs => .error (.unknownFlag (String.ofList (cs.take 2)) [])

def leadingFlags (known : List Flag) : List String → Except Refusal (List Flag × List String)
  | [] => .ok ([], [])
  | argument :: rest =>
    if argument = "--" then .ok ([], rest)
    else if looksLikeFlag argument then do
      let flag ← readFlag known argument
      let (flags, operands) ← leadingFlags known rest
      return (flag :: flags, operands)
    else .ok ([], argument :: rest)

def mixedFlags (known : List Flag) : List String → Except Refusal (List Flag × List String)
  | [] => .ok ([], [])
  | argument :: rest =>
    if argument = "--" then .ok ([], rest)
    else if looksLikeFlag argument then do
      let flag ← readFlag known argument
      let (flags, operands) ← mixedFlags known rest
      return (flag :: flags, operands)
    else do
      let (flags, operands) ← mixedFlags known rest
      return (flags, argument :: operands)

inductive Invocation where
  | version
  | help (command : Option Command)
  | bare
  | refused (command : Option Command) (cause : Refusal)
  | perform (command : Command) (debug typed : Bool) (operand : String) (extra : List String)
deriving DecidableEq

def eager? (command : Option Command) (flags : List Flag) : Option Invocation :=
  (flags.find? Flag.isEager).map fun
    | .version => .version
    | _ => .help command

def readCommand (debug : Bool) (command : Command) (arguments : List String) : Invocation :=
  match mixedFlags command.flags arguments with
  | .error cause => .refused (some command) cause
  | .ok (flags, operands) =>
    match eager? (some command) flags, operands with
    | some invocation, _ => invocation
    | none, [] => .refused (some command) (.missingOperand command.operandName)
    | none, operand :: extra => .perform command debug (flags.contains .typed) operand extra

/-- The answer to arguments that begin with a word that is no command. Behind two dashes it may
still be a flag. -/
def refuseCommand (word : String) (arguments : List String) : Invocation :=
  match leadingFlags globalFlags arguments with
  | .error cause => .refused none cause
  | .ok (flags, _) =>
    (eager? none flags).getD
      (.refused none (.unknownCommand word (suggestions (Command.all.map Command.name) word)))

def Invocation.ofArguments (arguments : List String) : Invocation :=
  if arguments.isEmpty then .bare
  else
    match leadingFlags globalFlags arguments with
    | .error cause => .refused none cause
    | .ok (flags, operands) =>
      match eager? none flags, operands with
      | some invocation, _ => invocation
      | none, [] => .refused none .missingCommand
      | none, word :: rest =>
        match Command.ofName? word with
        | some command => readCommand (flags.contains .debug) command rest
        | none => refuseCommand word operands

def expandShort : List String → List String
  | [] => ["--help"]
  | [argument] => if argument.endsWith ".mk" then ["run", argument] else [argument]
  | arguments => arguments

end MonkeyLang.CommandLine

import MonkeyLang.Layout.Line

/-!
The commands, their flags and the texts that explain them.
-/
namespace MonkeyLang.CommandLine

inductive Command where
  | run
  | eval
  | check
  | ast
  | tokens
deriving DecidableEq

inductive Flag where
  | version
  | debug
  | typed
  | help
deriving DecidableEq

namespace Flag

def name : Flag → String
  | version => "--version"
  | debug => "--debug"
  | typed => "--typed"
  | help => "--help"

def summary : Flag → String
  | version => "Show the version and exit."
  | debug => "Trace parsing and evaluation."
  | typed => "Print the result with its type."
  | help => "Show this message and exit."

def isEager : Flag → Bool
  | version => true
  | help => true
  | _ => false

end Flag

namespace Command

def name : Command → String
  | run => "run"
  | eval => "eval"
  | check => "check"
  | ast => "ast"
  | tokens => "tokens"

def summary : Command → String
  | run => "Run a Monkey program"
  | eval => "Evaluate a source string"
  | check => "Check syntax of a Monkey file"
  | ast => "Show the parsed program in its parenthesized form"
  | tokens => "Show tokens of a Monkey file"

def all : List Command := [ast, check, eval, run, tokens]

def ofName? (name : String) : Option Command := all.find? (·.name = name)

def operandName : Command → String
  | eval => "SOURCE"
  | _ => "FILE"

def flags : Command → List Flag
  | run => [.typed, .help]
  | eval => [.typed, .help]
  | _ => [.help]

end Command

def globalFlags : List Flag := [.version, .debug, .help]

def versionLine : String := "Monkey, version 0.1.0\n"

def callPath (program : String) : Option Command → String
  | none => program
  | some command => program ++ " " ++ command.name

def usageLine (program : String) (command : Option Command) : String :=
  "Usage: " ++ callPath program command ++
    match command with
    | none => " [OPTIONS] COMMAND [ARGS]...\n"
    | some command => " [OPTIONS] " ++ command.operandName ++ "\n"

def definitions (rows : List (String × String)) : String :=
  let width := Layout.widest (rows.map Prod.fst)
  String.join (rows.map fun row => "  " ++ Layout.padRight width row.1 ++ "  " ++ row.2 ++ "\n")

def flagDefinitions (flags : List Flag) : String :=
  "\nOptions:\n" ++ definitions (flags.map fun flag => (flag.name, flag.summary))

def helpText (program : String) (command : Option Command) : String :=
  usageLine program command ++
    match command with
    | none =>
      "\n  Monkey Programming Language - lexer, parser and tree-walking evaluator\n" ++
        flagDefinitions globalFlags ++
        "\nCommands:\n" ++
        definitions (Command.all.map fun command => (command.name, command.summary))
    | some command => "\n  " ++ command.summary ++ "\n" ++ flagDefinitions command.flags

def usageHint (program : String) (command : Option Command) : String :=
  usageLine program command ++ "Try '" ++ callPath program command ++ " --help' for help.\n\n"

end MonkeyLang.CommandLine

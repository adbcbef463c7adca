import MonkeyLang.CommandLine.Arguments
import MonkeyLang.Layout.Table
import MonkeyLang.Run
import MonkeyLang.Settings
import MonkeyLang.Text.Utf8
import MonkeyLang.Value.Print

/-!
Execution of an invocation. What is found under the name of a file is given as an `Entry`, so that
all of it is a function of the arguments, the settings and the files.
-/
namespace MonkeyLang.CommandLine

variable [Text.Alphabet] [Text.Encoding]

inductive Entry where
  | missing
  | directory
  | file (bytes : List UInt8)

inductive Crash where
  | oversized (run : Lexer.Oversized)
  | undecodable (fault : Text.DecodeFault)
  | untyped
  | unencodable (fault : Text.EncodeFault)
deriving DecidableEq

def Crash.message : Crash → String
  | .oversized run => run.message
  | .undecodable fault => fault.message
  | .untyped => "Subclasses must implement this method"
  | .unencodable fault => fault.message

structure Output where
  exit : Nat := 0
  stdout : String := ""
  stderr : String := ""
  crash : Option Crash := none
deriving DecidableEq

structure Job where
  source : String
  filename : String
  debug : Bool
  depth : Nat

namespace Job

def traced (job : Job) (lines : List String) : String :=
  if job.debug then String.join (lines.map (· ++ "\n")) else ""

def ended (job : Job) (lines : List String) : Except RunFault String → Output
  | .ok text => { stdout := text, stderr := job.traced lines }
  | .error (.failed failure) => { exit := 1, stderr := job.traced lines ++ failure.panel }
  | .error (.oversized run) =>
    { exit := 1, stderr := job.traced lines, crash := some (.oversized run) }
  | .error .untyped => { exit := 1, stderr := job.traced lines, crash := some .untyped }
  | .error (.unencodable fault) =>
    { exit := 1, stderr := job.traced lines, crash := some (.unencodable fault) }

def resultLine (typed : Bool) (value : Value) : Except RunFault String :=
  match if typed then value.describe? else value.inspect? with
  | some text => .ok (text ++ "\n")
  | none => .error .untyped

def run (job : Job) (typed : Bool) : Output :=
  let (scope, heap) := Heap.globalScope {}
  let r := MonkeyLang.run job.depth job.source job.filename scope heap
  job.ended (if job.debug then r.trace job.source else []) do
    match ← r.result with
    | none => return ""
    | some value => resultLine typed value

def read (job : Job) (shown : Node → String) : Output :=
  job.ended (if job.debug then parserTrace (Lexer.scan job.source) else []) do
    return shown (← parseClean job.source job.filename)

def check (job : Job) : Output := job.read fun _ => "Syntax is valid!\n"

def ast (job : Job) : Output :=
  job.read fun
    | .program statements =>
      Layout.panel "Abstract Syntax Tree" ("\n".intercalate (Node.sources statements))
    | node => Layout.panel "Abstract Syntax Tree" node.source

def tokenRow (t : Token) : List String :=
  [t.kind.name, t.literal, toString t.line, toString t.column]

def tokens (job : Job) : Output :=
  let found := Lexer.scan job.source
  match found.oversized with
  | some run => { exit := 1, crash := some (.oversized run) }
  | none =>
    { stdout := Layout.table "Tokens" ["Type", "Literal", "Line", "Column"]
        (found.tokens.map tokenRow) }

def execute (job : Job) (typed : Bool) : Command → Output
  | .run => job.run typed
  | .eval => job.run typed
  | .check => job.check
  | .ast => job.ast
  | .tokens => job.tokens

end Job

def refuse (program : String) (command : Option Command) (cause : Refusal) : Output :=
  { exit := 2, stderr := cause.report program command }

def loadOperand (command : Command) (operand : String) (entry : Entry) :
    Except (Refusal ⊕ Crash) (String × String) :=
  match command, entry with
  | .eval, _ => .ok (operand, "<eval>")
  | _, .missing => .error (.inl (.missingFile operand))
  | _, .directory => .error (.inl (.directory operand))
  | _, .file bytes =>
    match Text.decodeUtf8 bytes with
    | .error fault => .error (.inr (.undecodable fault))
    | .ok chars => .ok (String.ofList (Text.unifyLineEnds chars), operand)

namespace Invocation

def file? : Invocation → Option String
  | perform .eval _ _ _ _ => none
  | perform _ _ _ operand _ => some operand
  | _ => none

def execute (program : String) (settings : Settings) (entry : Entry) : Invocation → Output
  | version => { stdout := versionLine }
  | help command => { stdout := helpText program command }
  | bare => { exit := 2, stderr := helpText program none }
  | refused command cause => refuse program command cause
  | perform command debug typed operand extra =>
    match loadOperand command operand entry, extra with
    | .error (.inl cause), _ => refuse program (some command) cause
    | _, _ :: _ => refuse program (some command) (.extraOperands extra)
    | .error (.inr crash), [] => { exit := 1, crash := some crash }
    | .ok (source, filename), [] =>
      Job.execute { source, filename, debug := debug || settings.debug, depth := settings.depth }
        typed command

end Invocation

/-- The command line as a function of its arguments, the settings and the files. -/
def respond (program : String) (settings : Settings) (entry : String → Entry)
    (arguments : List String) : Output :=
  let invocation := Invocation.ofArguments arguments
  invocation.execute program settings ((invocation.file?.map entry).getD .missing)

end MonkeyLang.CommandLine

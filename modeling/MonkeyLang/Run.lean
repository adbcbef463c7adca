import MonkeyLang.Eval.Evaluate
import MonkeyLang.Failure
import MonkeyLang.Parser.Program

/-!
Runs of a source: it is read, and evaluated if it has no syntax errors. A run leaves a heap behind,
so that the next one in the same scope goes on where it ended.
-/
namespace MonkeyLang

variable [Text.Alphabet] [Text.Encoding]

inductive RunFault where
  | oversized (run : Lexer.Oversized)
  | failed (failure : Failure)
  | untyped
  | unencodable (fault : Text.EncodeFault)

structure Run where
  result : Except RunFault (Option Value)
  heap : Heap
  summary : Summary := {}
  events : List Event := []

def parserTrace (found : Lexer.Scan) : List String :=
  let recorded := recordedDiagnostics found
  let faults := recorded.map fun d => parserLine ("parse error: " ++ d.message)
  match found.oversized with
  | some _ => faults
  | none =>
    faults ++ [parserLine ("parsed " ++ toString (parseScan found).size ++ " statements, " ++
      toString recorded.length ++ " errors")]

def parseClean (source filename : String) : Except RunFault Node :=
  match parse source with
  | .error o => .error (.oversized o)
  | .ok parsed =>
    if parsed.hasErrors then .error (.failed (.malformed parsed.messages filename))
    else .ok parsed.program

def Ending.toResult (filename : String) : Ending → Except RunFault (Option Value)
  | .nothing => .ok none
  | .result (.error cause) => .error (.failed (.runtime cause.message filename))
  | .result value => .ok (some value)
  | .untyped => .error .untyped
  | .unencodable fault => .error (.unencodable fault)

def run (depth : Nat) (source filename : String) (scope : Scope) (heap : Heap) : Run :=
  match parseClean source filename with
  | .error fault => { result := .error fault, heap }
  | .ok program =>
    let evaluation := evaluate depth program scope heap
    { evaluation with result := evaluation.ending.toResult filename }

def Run.trace (r : Run) (source : String) : List String :=
  parserTrace (Lexer.scan source) ++ r.events.map fun event => evaluatorLine event.message

def Heap.globalScope (h : Heap) : Scope × Heap := h.newScope none Builtin.all

end MonkeyLang

import MonkeyLang.Parser.Grammar

/-!
Whole programs. Whatever the tokens are, a program is read to the end of input; the statements that
could be read are kept beside the diagnostics.
-/
namespace MonkeyLang

structure Parsed where
  program : Node
  diagnostics : List Diagnostic

namespace Parsed

def hasErrors (p : Parsed) : Bool := !p.diagnostics.isEmpty

def messages (p : Parsed) : List String := p.diagnostics.map Diagnostic.message

def size (p : Parsed) : Nat :=
  match p.program with
  | .program statements => statements.length
  | _ => 0

end Parsed

def parseScan (found : Lexer.Scan) : Parsed :=
  let o := Parser.program (.ofScan found)
  { program := o.value.getD (.program []), diagnostics := o.reports }

def parse [Text.Alphabet] (source : String) : Except Lexer.Oversized Parsed :=
  let found := Lexer.scan source
  match found.oversized with
  | some o => .error o
  | none => .ok (parseScan found)

/-! ### Scans that break off -/

def Token.isBefore (a b : Token) : Bool :=
  a.line < b.line || (a.line = b.line && a.column < b.column)

/-- Whether a diagnostic is recorded before the token behind `last` is looked at. The parser looks
one token ahead, so a token without a rule is reported only when its successor is known. -/
def Diagnostic.isRecordedBy (last : Token) (d : Diagnostic) : Bool :=
  match d.fault with
  | .unexpected _ => !last.isBefore d.token
  | _ => d.token.isBefore last

def recordedDiagnostics (found : Lexer.Scan) : List Diagnostic :=
  let all := (parseScan found).diagnostics
  match found.oversized, found.tokens.getLast? with
  | none, _ => all
  | some _, none => []
  | some _, some last => all.filter (·.isRecordedBy last)

end MonkeyLang

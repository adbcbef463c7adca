import MonkeyLang.Lexer.Cursor
import MonkeyLang.Text.Decimal
import MonkeyLang.Token

/-!
Tokens read from a cursor, one at a time and to the end. Each token is the longest one that begins
at the cursor. A number that is too large for a signed 64-bit integer is an illegal token, and a run
of more digits than can be read at all stops the scan.
-/
namespace MonkeyLang.Lexer

variable [Text.Alphabet]

def maxInteger : Int := 9223372036854775807

def minInteger : Int := -9223372036854775808

structure Oversized where
  digits : Nat
deriving DecidableEq

def Oversized.message (o : Oversized) : String :=
  "Exceeds the limit (" ++ toString Text.maxDigits ++
    " digits) for integer string conversion: value has " ++ toString o.digits ++
    " digits; use sys.set_int_max_str_digits() to increase the limit"

def digitsValue (digits : List Char) : Nat :=
  Text.ofDigits (digits.map fun c => c.toNat - 0x30)

namespace Cursor

def token (c : Cursor) (kind : TokenKind) (literal : List Char) : Token :=
  { kind, literal := String.ofList literal, line := c.line, column := c.column }

def numberToken (c : Cursor) (digits : List Char) : Token :=
  if (digitsValue digits : Int) ≤ maxInteger then c.token .int digits
  else c.token .illegal (digits.take 1)

def tokenAt (c : Cursor) (head : Char) : Except Oversized (Token × Cursor) :=
  if head = '=' ∧ c.following? = some '=' then
    .ok (c.token .equal ['=', '='], c.advance.advance)
  else if head = '!' ∧ c.following? = some '=' then
    .ok (c.token .notEqual ['!', '='], c.advance.advance)
  else match TokenKind.ofChar? head with
    | some kind => .ok (c.token kind [head], c.advance)
    | none =>
      if head = '\x22' then
        let (text, after) := c.readText
        .ok (c.token .string text, after)
      else if Text.isLetter head then
        let (word, after) := c.readWord
        .ok (c.token (.ofWord (String.ofList word)) word, after)
      else if head.isDigit then
        let (digits, after) := c.readDigits
        if digits.length ≤ Text.maxDigits then .ok (c.numberToken digits, after)
        else .error ⟨digits.length⟩
      else .ok (c.token .illegal [head], c.advance)

def next (c : Cursor) : Except Oversized (Token × Cursor) :=
  let here := c.skipBlanks
  match here.current? with
  | none => .ok (here.token .eof [], here)
  | some head => here.tokenAt head

end Cursor

/-- What a scan finds: the tokens before the end of input, the token that marks the end, and the run
of digits that stopped the scan before it, if there was one. -/
structure Scan where
  tokens : List Token
  ending : Token
  oversized : Option Oversized := none
deriving DecidableEq

def scanWithin : Nat → Cursor → Scan
  | 0, c => { tokens := [], ending := c.token .eof [] }
  | n + 1, c =>
    match c.next with
    | .error o => { tokens := [], ending := c.skipBlanks.token .eof [], oversized := some o }
    | .ok (t, after) =>
      if t.kind = .eof then { tokens := [], ending := t }
      else
        let rest := scanWithin n after
        { rest with tokens := t :: rest.tokens }

/-- Every token takes at least one character, so the length of the source bounds the scan. -/
def scan (source : String) : Scan :=
  let chars := source.toList
  scanWithin (chars.length + 1) (.start chars)

def tokens (source : String) : Except Oversized (List Token) :=
  let found := scan source
  match found.oversized with
  | some o => .error o
  | none => .ok (found.tokens ++ [found.ending])

end MonkeyLang.Lexer

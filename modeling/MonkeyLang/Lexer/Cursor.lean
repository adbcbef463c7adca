import MonkeyLang.Text.Alphabet

/-!
A cursor over source text. It holds the characters still to be read, the first of which is the
current one, and knows the place of that one: the offset from the start, the line, and the column in
the line, both counted from one.
-/
namespace MonkeyLang.Lexer

structure Cursor where
  rest : List Char
  current? : Option Char := rest.head?
  position : Nat := 0
  readPosition : Nat := position + 1
  line : Nat := 1
  column : Nat := 1
  current?_eq : current? = rest.head? := by rfl
  readPosition_eq : readPosition = position + 1 := by rfl
deriving DecidableEq

def isSkipped (c : Char) : Bool :=
  c = ' ' || c = '\t' || c = '\n' || c = '\x0c' || c = '\r'

namespace Cursor

def start (source : List Char) : Cursor := { rest := source }

def following? (c : Cursor) : Option Char := c.rest.tail.head?

/-- Moves on by one character. The cursor can be moved past the end, column by column. -/
def advance (c : Cursor) : Cursor where
  rest := c.rest.tail
  current? := c.following?
  position := c.readPosition
  readPosition := c.readPosition + 1
  line := if c.current? = some '\n' then c.line + 1 else c.line
  column := (if c.current? = some '\n' then 0 else c.column) + 1

def advanceBy : Nat → Cursor → Cursor
  | 0, c => c
  | n + 1, c => advanceBy n c.advance

def readRun (member : Char → Bool) (c : Cursor) : List Char × Cursor :=
  let run := c.rest.takeWhile member
  (run, c.advanceBy run.length)

def skipBlanks (c : Cursor) : Cursor := (c.readRun isSkipped).2

def readWord [Text.Alphabet] (c : Cursor) : List Char × Cursor := c.readRun Text.isLetter

def readDigits (c : Cursor) : List Char × Cursor := c.readRun Char.isDigit

/-- Reads text in double quotes, from the opening quote. The text ends before the next double quote,
which is skipped, or at the end of input. -/
def readText (c : Cursor) : List Char × Cursor :=
  let (text, after) := c.advance.readRun (· ≠ '\x22')
  (text, if after.current? = some '\x22' then after.advance else after)

end Cursor

end MonkeyLang.Lexer

import MonkeyLang.Text.Quoted

/-!
Tokens: a kind, the text it was read from, and the place where that text begins. Two tokens are the
same when kind and text agree, wherever they stand.
-/
namespace MonkeyLang

inductive TokenKind where
  | illegal
  | eof
  | ident
  | int
  | string
  | assign
  | plus
  | minus
  | star
  | slash
  | bang
  | less
  | greater
  | equal
  | notEqual
  | comma
  | semicolon
  | colon
  | leftParen
  | rightParen
  | leftBrace
  | rightBrace
  | leftBracket
  | rightBracket
  | fnWord
  | letWord
  | trueWord
  | falseWord
  | ifWord
  | elseWord
  | returnWord
  | other (name : String)
deriving DecidableEq

namespace TokenKind

def name : TokenKind → String
  | illegal => "ILLEGAL"
  | eof => "EOF"
  | ident => "IDENT"
  | int => "INT"
  | string => "STRING"
  | assign => "="
  | plus => "+"
  | minus => "-"
  | star => "*"
  | slash => "/"
  | bang => "!"
  | less => "<"
  | greater => ">"
  | equal => "=="
  | notEqual => "!="
  | comma => ","
  | semicolon => ";"
  | colon => ":"
  | leftParen => "("
  | rightParen => ")"
  | leftBrace => "\x7b"
  | rightBrace => "\x7d"
  | leftBracket => "["
  | rightBracket => "]"
  | fnWord => "FUNCTION"
  | letWord => "LET"
  | trueWord => "TRUE"
  | falseWord => "FALSE"
  | ifWord => "IF"
  | elseWord => "ELSE"
  | returnWord => "RETURN"
  | other name => name

def all : List TokenKind :=
  [illegal, eof, ident, int, string, assign, plus, minus, star, slash, bang, less, greater, equal,
    notEqual, comma, semicolon, colon, leftParen, rightParen, leftBrace, rightBrace, leftBracket,
    rightBracket, fnWord, letWord, trueWord, falseWord, ifWord, elseWord, returnWord]

def ofName (name : String) : TokenKind :=
  (all.find? (·.name = name)).getD (other name)

def ofChar? : Char → Option TokenKind
  | '=' => some assign
  | '+' => some plus
  | '-' => some minus
  | '*' => some star
  | '/' => some slash
  | '!' => some bang
  | '<' => some less
  | '>' => some greater
  | ',' => some comma
  | ';' => some semicolon
  | ':' => some colon
  | '(' => some leftParen
  | ')' => some rightParen
  | '\x7b' => some leftBrace
  | '\x7d' => some rightBrace
  | '[' => some leftBracket
  | ']' => some rightBracket
  | _ => none

def ofWord (word : String) : TokenKind :=
  if word = "fn" then fnWord
  else if word = "let" then letWord
  else if word = "true" then trueWord
  else if word = "false" then falseWord
  else if word = "if" then ifWord
  else if word = "else" then elseWord
  else if word = "return" then returnWord
  else ident

def hasPayload : TokenKind → Bool
  | ident | int | string | illegal => true
  | _ => false

end TokenKind

structure Token where
  kind : TokenKind
  literal : String
  line : Nat := 1
  column : Nat := 1
deriving DecidableEq

namespace Token

def same (a b : Token) : Bool :=
  a.kind = b.kind && a.literal = b.literal

def describe (t : Token) : String :=
  if t.kind.hasPayload then t.kind.name ++ "(" ++ t.literal ++ ")" else t.kind.name

def display (t : Token) : String :=
  "Token(" ++ t.kind.name ++ ", " ++ Text.quoted t.literal ++ ", line=" ++ toString t.line ++
    ", column=" ++ toString t.column ++ ")"

end Token

end MonkeyLang

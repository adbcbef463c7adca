import MonkeyLang.Parser.Basic
import MonkeyLang.Syntax.Node

/-!
The grammar. An expression is one form that begins it, followed by operators as long as they bind
more tightly than the context asks for; operators of one strength associate to the left. A statement
that cannot be read is dropped with its reports and reading goes on behind it.

Every form is written over the parser `sub` of the expressions inside it. The knot is tied by
`expression`: an expression inside another one has fewer tokens before it, so the length of the
stream bounds the nesting.
-/
namespace MonkeyLang

/-! ### Binding strength -/

namespace Precedence

def lowest : Nat := 1

def unary : Nat := 6

end Precedence

def TokenKind.precedence : TokenKind → Nat
  | .equal | .notEqual => 2
  | .less | .greater => 3
  | .plus | .minus => 4
  | .star | .slash => 5
  | .leftParen => 7
  | .leftBracket => 8
  | _ => Precedence.lowest

namespace Parser

variable {α : Type}

/-- The parser of the expressions inside a form, for each strength of the context. -/
abbrev Sub := Nat → Parser Node

/-! ### Lists -/

def listStep (item : Parser α) (items : List α) : Parser (List α ⊕ List α) := do
  if (← next).kind = .comma then
    let _ ← take
    return .inl (items ++ [← item])
  else
    return .inr items

def listOf (item : Parser α) (close : TokenKind) : Parser (List α) := do
  if (← next).kind = close then
    let _ ← take
    return []
  else
    let first ← item
    let items ← loop (listStep item) [first]
    let _ ← expect close
    return items

def bracketed (item : Parser α) (close : TokenKind) : Parser (List α) := do
  let _ ← take
  listOf item close

/-! ### Statements -/

def letStatement (sub : Sub) : Parser Node := do
  let _ ← take
  let name ← expect .ident
  let _ ← expect .assign
  let value ← sub Precedence.lowest
  skipOptional .semicolon
  return .letBind name.literal value

def returnStatement (sub : Sub) : Parser Node := do
  let _ ← take
  let value ← sub Precedence.lowest
  skipOptional .semicolon
  return .returning value

def expressionStatement (sub : Sub) : Parser Node := do
  let inner ← sub Precedence.lowest
  skipOptional .semicolon
  return .expression inner

def statement (sub : Sub) : Parser Node := do
  match (← next).kind with
  | .letWord => letStatement sub
  | .returnWord => returnStatement sub
  | _ => expressionStatement sub

def statementStep (sub : Sub) (ends : TokenKind → Bool) (found : List Node) :
    Parser (List Node ⊕ List Node) := do
  if ends (← next).kind then
    return .inr found
  else
    match ← attempt (statement sub) with
    | some node => return .inl (found ++ [node])
    | none => return .inl found

def statements (sub : Sub) (ends : TokenKind → Bool) : Parser (List Node) := do
  let found ← loop (statementStep sub ends) []
  let _ ← take
  return found

def endsBlock (kind : TokenKind) : Bool := kind = .rightBrace || kind = .eof

def endsProgram (kind : TokenKind) : Bool := kind = .eof

/-- The rest of a block behind its opening brace. The closing brace may be missing at the end of
input. -/
def blockBody (sub : Sub) : Parser Node := do
  return .block (← statements sub endsBlock)

def block (sub : Sub) : Parser Node := do
  let _ ← take
  blockBody sub

/-! ### Forms that begin an expression -/

def identifier : Parser Node := do
  return .identifier (← take).literal

def integerLiteral : Parser Node := do
  match Text.integer? (← next).literal with
  | some value =>
    let _ ← take
    return .integer value
  | none => refuse .notInteger

def textLiteral : Parser Node := do
  return .text (← take).literal

def booleanLiteral : Parser Node := do
  return .boolean ((← take).kind = .trueWord)

def prefixExpression (sub : Sub) : Parser Node := do
  let operator ← take
  let right ← sub Precedence.unary
  return .prefixOp (.ofText operator.literal) right

def groupedExpression (sub : Sub) : Parser Node := do
  let _ ← take
  let inner ← sub Precedence.lowest
  let _ ← expect .rightParen
  return .grouped inner

def elseBranch (sub : Sub) : Parser Node := do
  if (← next).kind = .elseWord then
    let _ ← take
    let _ ← expect .leftBrace
    blockBody sub
  else
    return .hole

def conditional (sub : Sub) : Parser Node := do
  let _ ← take
  let _ ← expect .leftParen
  let condition ← sub Precedence.lowest
  let _ ← expect .rightParen
  let _ ← expect .leftBrace
  let consequence ← blockBody sub
  let alternative ← elseBranch sub
  return .conditional condition consequence alternative

def parameter : Parser String := do
  return (← expect .ident).literal

def functionLiteral (sub : Sub) : Parser Node := do
  let _ ← take
  let _ ← expect .leftParen
  let parameters ← listOf parameter .rightParen
  let _ ← expect .leftBrace
  let body ← blockBody sub
  return .function parameters body

def arrayLiteral (sub : Sub) : Parser Node := do
  return .array (← bracketed (sub Precedence.lowest) .rightBracket)

def mapEntry (sub : Sub) : Parser (Node × Node) := do
  let key ← sub Precedence.lowest
  let _ ← expect .colon
  let value ← sub Precedence.lowest
  return (key, value)

def mapLiteral (sub : Sub) : Parser Node := do
  return .mapping (← bracketed (mapEntry sub) .rightBrace)

def prefixRule? (sub : Sub) : TokenKind → Option (Parser Node)
  | .ident => some identifier
  | .int => some integerLiteral
  | .string => some textLiteral
  | .bang | .minus => some (prefixExpression sub)
  | .trueWord | .falseWord => some booleanLiteral
  | .leftParen => some (groupedExpression sub)
  | .ifWord => some (conditional sub)
  | .fnWord => some (functionLiteral sub)
  | .leftBracket => some (arrayLiteral sub)
  | .leftBrace => some (mapLiteral sub)
  | _ => none

/-! ### Operators behind an expression -/

def infixExpression (sub : Sub) (left : Node) : Parser Node := do
  let operator ← take
  let right ← sub operator.kind.precedence
  return .infixOp left (.ofText operator.literal) right

def callExpression (sub : Sub) (callee : Node) : Parser Node := do
  return .call callee (← bracketed (sub Precedence.lowest) .rightParen)

def indexExpression (sub : Sub) (collection : Node) : Parser Node := do
  let _ ← take
  let position ← sub Precedence.lowest
  let _ ← expect .rightBracket
  return .index collection position

def infixRule? (sub : Sub) : TokenKind → Option (Node → Parser Node)
  | .plus | .minus | .slash | .star | .equal | .notEqual | .less | .greater =>
    some (infixExpression sub)
  | .leftParen => some (callExpression sub)
  | .leftBracket => some (indexExpression sub)
  | _ => none

def operatorStep (sub : Sub) (precedence : Nat) (left : Node) : Parser (Node ⊕ Node) := do
  let kind := (← next).kind
  if precedence < kind.precedence then
    match infixRule? sub kind with
    | some rule => return .inl (← rule left)
    | none => return .inr left
  else
    return .inr left

/-! ### Expressions and programs -/

def expressionForm (sub : Sub) (precedence : Nat) : Parser Node := do
  match prefixRule? sub (← next).kind with
  | some rule => loop (operatorStep sub precedence) (← rule)
  | none => refuse .noRule

def expressionWithin : Nat → Sub
  | 0, _ => refuse .noRule
  | depth + 1, precedence => expressionForm (expressionWithin depth) precedence

def expression (precedence : Nat) : Parser Node := fun s =>
  expressionWithin (s.pending.length + 1) precedence s

def program : Parser Node := do
  return .program (← statements expression endsProgram)

end Parser

end MonkeyLang

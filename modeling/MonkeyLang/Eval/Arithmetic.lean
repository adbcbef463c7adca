import MonkeyLang.Lexer.Scan
import MonkeyLang.Value.Basic

/-!
Operators on values. Integer arithmetic is exact; a result outside the signed 64-bit range is an
error, and division goes toward zero. `none` stands for an operand that has no type to be named in
the error.
-/
namespace MonkeyLang

def checked (value : Int) (cause : EvalError) : Value :=
  if Lexer.minInteger ≤ value ∧ value ≤ Lexer.maxInteger then .integer value else .error cause

/-- Division toward zero: the quotient of the absolute values, negated if one operand is below zero
and the other is not. -/
def truncatedQuotient (left right : Int) : Int :=
  let quotient : Int := (left.natAbs / right.natAbs : Nat)
  if decide (left < 0) != decide (right < 0) then -quotient else quotient

def integerInfix (operator : Operator) (left right : Int) : Value :=
  match operator with
  | .plus => checked (left + right) (.overflow left operator right)
  | .minus => checked (left - right) (.overflow left operator right)
  | .star => checked (left * right) (.overflow left operator right)
  | .slash =>
    if right = 0 then .error (.divisionByZero left)
    else checked (truncatedQuotient left right) (.overflow left operator right)
  | .less => .boolean (left < right)
  | .greater => .boolean (left > right)
  | .equal => .boolean (left = right)
  | .notEqual => .boolean (left ≠ right)
  | _ => .error (.unknownInfix operator .integer)

def booleanInfix (operator : Operator) (left right : Bool) : Value :=
  match operator with
  | .equal => .boolean (left = right)
  | .notEqual => .boolean (left ≠ right)
  | _ => .error (.unknownInfix operator .boolean)

def stringInfix (operator : Operator) (left right : String) : Value :=
  match operator with
  | .plus => .string (left ++ right)
  | .equal => .boolean (left = right)
  | .notEqual => .boolean (left ≠ right)
  | _ => .error (.unknownInfix operator .string)

def infixValue? (operator : Operator) : Value → Value → Option Value
  | .integer left, .integer right => some (integerInfix operator left right)
  | .boolean left, .boolean right => some (booleanInfix operator left right)
  | .string left, .string right => some (stringInfix operator left right)
  | left, right => do
    return .error (.typeMismatch (← left.kind?) operator (← right.kind?))

def prefixValue? (operator : Operator) (right : Value) : Option Value :=
  match operator, right with
  | .bang, right => some (.boolean !right.isTruthy)
  | .minus, .integer value => some (checked (-value) (.negationOverflow value))
  | operator, right => do return .error (.unknownPrefix operator (← right.kind?))

end MonkeyLang

import MonkeyLang.Syntax.Operator

/-!
Trees of a program. One type holds statements, expressions and whole programs, because a tree built
by hand may put any of them in any place, or leave a place empty; what the parser builds is tidier.
-/
namespace MonkeyLang

/-- Nodes that belong to no form of the language. -/
inductive BareKind where
  | node
  | statement
  | expression
deriving DecidableEq

inductive Node where
  | hole
  | bare (kind : BareKind)
  | program (statements : List Node)
  | block (statements : List Node)
  | letBind (name : String) (value : Node)
  | returning (value : Node)
  | expression (inner : Node)
  | identifier (name : String)
  | integer (value : Int)
  | text (value : String)
  | boolean (value : Bool)
  | prefixOp (operator : Operator) (right : Node)
  | infixOp (left : Node) (operator : Operator) (right : Node)
  | grouped (inner : Node)
  /-- A conditional; without an else branch, `alternative` is a hole. -/
  | conditional (condition consequence alternative : Node)
  | function (parameters : List String) (body : Node)
  | call (callee : Node) (arguments : List Node)
  | array (elements : List Node)
  | index (collection position : Node)
  | mapping (entries : List (Node × Node))

instance : Inhabited Node := ⟨.hole⟩

namespace Node

def isHole : Node → Bool
  | hole => true
  | _ => false

end Node

def BareKind.name : BareKind → String
  | node => "Node"
  | statement => "Statement"
  | expression => "Expression"

def Node.formName : Node → String
  | hole => "NoneType"
  | bare kind => kind.name
  | program _ => "Program"
  | block _ => "BlockStatement"
  | letBind _ _ => "LetStatement"
  | returning _ => "ReturnStatement"
  | expression _ => "ExpressionStatement"
  | identifier _ => "Identifier"
  | integer _ => "IntegerLiteral"
  | text _ => "StringLiteral"
  | boolean _ => "Boolean"
  | prefixOp _ _ => "PrefixExpression"
  | infixOp _ _ _ => "InfixExpression"
  | grouped _ => "GroupedExpression"
  | conditional _ _ _ => "IfExpression"
  | function _ _ => "FunctionLiteral"
  | call _ _ => "CallExpression"
  | array _ => "ArrayLiteral"
  | index _ _ => "IndexExpression"
  | mapping _ => "MapLiteral"

end MonkeyLang

import MonkeyLang.Syntax.Node
import MonkeyLang.Text.Escaped

/-!
Three printed forms of a tree. `source` is program text: operators carry their own parentheses, so
parentheses of the program are dropped. `outline` shows a node's constructor, its single children
in full and its lists by their length. `dump` shows the whole tree.
-/
namespace MonkeyLang

def inBraces (body : String) : String :=
  if body = "" then "\x7b \x7d" else "\x7b " ++ body ++ " \x7d"

def inParens (items : List String) : String :=
  "(" ++ " ".intercalate items ++ ")"

def boolWord (b : Bool) : String := if b then "true" else "false"

def boolCapital (b : Bool) : String := if b then "True" else "False"

namespace Node

mutual

def source : Node → String
  | hole => "None"
  | bare kind => kind.name ++ "()"
  | program statements => "; ".intercalate (sources statements)
  | block statements => "; ".intercalate (sources statements)
  | letBind name value => "let " ++ name ++ " = " ++ value.source
  | returning value => "return " ++ value.source
  | expression inner => inner.source
  | identifier name => name
  | integer value => toString value
  | text value => "\x22" ++ value ++ "\x22"
  | boolean value => boolWord value
  | prefixOp operator right => "(" ++ operator.text ++ right.source ++ ")"
  | infixOp left operator right =>
    "(" ++ left.source ++ " " ++ operator.text ++ " " ++ right.source ++ ")"
  | grouped inner => inner.source
  | conditional condition consequence alternative =>
    "if (" ++ condition.source ++ ") " ++ inBraces consequence.source ++
      match alternative with
      | hole => ""
      | other => " else " ++ inBraces other.source
  | function parameters body =>
    "fn(" ++ ", ".intercalate parameters ++ ") " ++ inBraces body.source
  | call callee arguments => callee.source ++ "(" ++ ", ".intercalate (sources arguments) ++ ")"
  | array elements => "[" ++ ", ".intercalate (sources elements) ++ "]"
  | index collection position => "(" ++ collection.source ++ "[" ++ position.source ++ "])"
  | mapping entries => "\x7b" ++ ", ".intercalate (entrySources entries) ++ "\x7d"

def sources : List Node → List String
  | [] => []
  | node :: rest => node.source :: sources rest

def entrySources : List (Node × Node) → List String
  | [] => []
  | (key, value) :: rest => (key.source ++ ": " ++ value.source) :: entrySources rest

end

def outline : Node → String
  | hole => "None"
  | bare kind => kind.name ++ "()"
  | program statements => "Program(statements=" ++ toString statements.length ++ ")"
  | block statements => "BlockStatement(statements=" ++ toString statements.length ++ ")"
  | letBind name value => "LetStatement(name=" ++ name ++ ", value=" ++ value.outline ++ ")"
  | returning value => "ReturnStatement(return_value=" ++ value.outline ++ ")"
  | expression inner => "ExpressionStatement(expression=" ++ inner.outline ++ ")"
  | identifier name => "Identifier(" ++ Text.quoted name ++ ")"
  | integer value => "IntegerLiteral(" ++ toString value ++ ")"
  | text value => "StringLiteral(" ++ Text.quoted value ++ ")"
  | boolean value => "Boolean(" ++ boolCapital value ++ ")"
  | prefixOp operator right =>
    "PrefixExpression(operator=" ++ Text.quoted operator.text ++ ", right=" ++ right.outline ++ ")"
  | infixOp left operator right =>
    "InfixExpression(left=" ++ left.outline ++ ", operator=" ++ Text.quoted operator.text ++
      ", right=" ++ right.outline ++ ")"
  | grouped inner => "GroupedExpression(expression=" ++ inner.outline ++ ")"
  | conditional condition _ alternative =>
    "IfExpression(condition=" ++ condition.outline ++ ", has_alternative=" ++
      boolCapital (!alternative.isHole) ++ ")"
  | function parameters _ => "FunctionLiteral(parameters=" ++ Text.quotedList parameters ++ ")"
  | call callee arguments =>
    "CallExpression(function=" ++ callee.outline ++ ", arguments=" ++
      toString arguments.length ++ ")"
  | array elements => "ArrayLiteral(elements=" ++ toString elements.length ++ ")"
  | index collection position =>
    "IndexExpression(left=" ++ collection.outline ++ ", index=" ++ position.outline ++ ")"
  | mapping entries => "MapLiteral(pairs=" ++ toString entries.length ++ ")"

mutual

def dump : Node → String
  | hole => "none"
  | bare kind => inParens [kind.name]
  | program statements => inParens ("Program" :: dumps statements)
  | block statements => inParens ("BlockStatement" :: dumps statements)
  | letBind name value => inParens ["LetStatement", inParens ["Identifier", name], value.dump]
  | returning value => inParens ["ReturnStatement", value.dump]
  | expression inner => inParens ["ExpressionStatement", inner.dump]
  | identifier name => inParens ["Identifier", name]
  | integer value => inParens ["IntegerLiteral", toString value]
  | text value => inParens ["StringLiteral", Text.escaped value]
  | boolean value => inParens ["Boolean", boolWord value]
  | prefixOp operator right => inParens ["PrefixExpression", operator.text, right.dump]
  | infixOp left operator right =>
    inParens ["InfixExpression", operator.text, left.dump, right.dump]
  | grouped inner => inParens ["GroupedExpression", inner.dump]
  | conditional condition consequence alternative =>
    inParens ["IfExpression", condition.dump, consequence.dump, alternative.dump]
  | function parameters body => inParens ["FunctionLiteral", inParens parameters, body.dump]
  | call callee arguments => inParens ("CallExpression" :: callee.dump :: dumps arguments)
  | array elements => inParens ("ArrayLiteral" :: dumps elements)
  | index collection position => inParens ["IndexExpression", collection.dump, position.dump]
  | mapping entries => inParens ("MapLiteral" :: entryDumps entries)

def dumps : List Node → List String
  | [] => []
  | node :: rest => node.dump :: dumps rest

def entryDumps : List (Node × Node) → List String
  | [] => []
  | (key, value) :: rest => inParens [key.dump, value.dump] :: entryDumps rest

end

end Node

end MonkeyLang

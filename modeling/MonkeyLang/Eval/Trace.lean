import MonkeyLang.Value.Basic

/-!
What an evaluation counts and what it records. Every event has one line in the trace.
-/
namespace MonkeyLang

structure Summary where
  statements : Nat := 0
  calls : Nat := 0
  errors : Nat := 0
deriving DecidableEq

def Summary.display (s : Summary) : String :=
  "\x7b'evaluated_statements': " ++ toString s.statements ++ ", 'function_calls': " ++
    toString s.calls ++ ", 'errors': " ++ toString s.errors ++ "\x7d"

inductive Event where
  | emptyPlace
  | programNode (statements : Nat)
  | programStart (statements : Nat)
  | statement (number : Nat) (form : String)
  | blockNode (statements : Nat)
  | prefixNode (operator : Operator)
  | infixNode (operator : Operator)
  | callNode (arguments : Nat)
  | mapNode (entries : Nat)
  | unknownNode (kind : BareKind)
  | unboundName (name : String)
  | bound (name : String)
  | functionCall (arguments : Nat)
  | builtinCall (primitive : Builtin)
  | programReturn (kind : Kind)
  | programError (message : String)
  | completed (summary : Summary)
deriving DecidableEq

namespace Event

def message : Event → String
  | emptyPlace => "eval_node: Node is None, returning NULL"
  | programNode statements => "  Program node: " ++ toString statements ++ " statements"
  | programStart statements => "eval_program: Processing " ++ toString statements ++ " statements"
  | statement number form => "  Statement " ++ toString number ++ ": " ++ form
  | blockNode statements => "  BlockStatement node: " ++ toString statements ++ " statements"
  | prefixNode operator => "  PrefixExpression node: " ++ operator.text
  | infixNode operator => "  InfixExpression node: " ++ operator.text
  | callNode arguments => "  CallExpression node: " ++ toString arguments ++ " args"
  | mapNode entries => "  MapLiteral node: " ++ toString entries ++ " pairs"
  | unknownNode kind => "  Unknown node type: <class 'monkey.monkey_ast." ++ kind.name ++ "'>"
  | unboundName name => "  Identifier not found: " ++ name
  | bound name => "  let binding: " ++ name
  | functionCall arguments =>
    "  Calling user-defined function: " ++ toString arguments ++ " args"
  | builtinCall primitive => "  Calling builtin: " ++ primitive.name
  | programReturn kind => "  ReturnValue encountered: " ++ kind.name
  | programError message => "  Error encountered: " ++ message
  | completed summary => "evaluate completed: " ++ summary.display

end Event

def evaluatorLine (message : String) : String := "DEBUG monkey.evaluator: " ++ message

def parserLine (message : String) : String := "DEBUG monkey.parser.parser: " ++ message

end MonkeyLang

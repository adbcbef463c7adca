import MonkeyLang.Syntax.Node

/-!
Values of the language, the names of their types, and the causes of evaluation errors. An error is a
value too: it travels up to the caller as the result of what could not be evaluated.
-/
namespace MonkeyLang

inductive Kind where
  | integer
  | boolean
  | null
  | string
  | array
  | map
  | function
  | builtin
  | returned
  | error
  | letMark
  | emptyMark
deriving DecidableEq

def Kind.name : Kind → String
  | integer => "Integer"
  | boolean => "Boolean"
  | null => "Null"
  | string => "String"
  | array => "Array"
  | map => "Map"
  | function => "Function"
  | builtin => "Builtin"
  | returned => "Return"
  | error => "Error"
  | letMark => "Let"
  | emptyMark => "Default"

inductive Builtin where
  | len
  | first
  | last
  | rest
  | push
deriving DecidableEq

namespace Builtin

def name : Builtin → String
  | len => "len"
  | first => "first"
  | last => "last"
  | rest => "rest"
  | push => "push"

def all : List Builtin := [len, first, last, rest, push]

def ofName? (name : String) : Option Builtin := all.find? (·.name = name)

end Builtin

inductive EvalError where
  | unboundName (name : String)
  | unknownNode (kind : BareKind)
  | unknownPrefix (operator : Operator) (right : Kind)
  | unknownInfix (operator : Operator) (operands : Kind)
  | typeMismatch (left : Kind) (operator : Operator) (right : Kind)
  | negationOverflow (operand : Int)
  | overflow (left : Int) (operator : Operator) (right : Int)
  | divisionByZero (left : Int)
  | unusableKey (key : Kind)
  | notIndexable (collection : Kind)
  | notCallable (callee : Kind)
  | arity (wanted got : Nat)
  | argumentCount (got wanted : Nat)
  | noLength (argument : Kind)
  | notArray (builtin : Builtin) (argument : Kind)
  | tooDeep
  | stated (message : String)
deriving DecidableEq

namespace EvalError

def message : EvalError → String
  | unboundName name => "identifier not found: " ++ name
  | unknownNode kind => "unknown node type: " ++ kind.name
  | unknownPrefix operator right => "unknown operator: " ++ operator.text ++ right.name
  | unknownInfix operator operands =>
    "unknown operator: " ++ operands.name ++ " " ++ operator.text ++ " " ++ operands.name
  | typeMismatch left operator right =>
    "type mismatch: " ++ left.name ++ " " ++ operator.text ++ " " ++ right.name
  | negationOverflow operand => "integer overflow: -" ++ toString operand
  | overflow left operator right =>
    "integer overflow: " ++ toString left ++ " " ++ operator.text ++ " " ++ toString right
  | divisionByZero left => "division by zero: " ++ toString left ++ " / 0"
  | unusableKey key => "unusable as map key: " ++ key.name
  | notIndexable collection => "index operator not supported: " ++ collection.name
  | notCallable callee => "not a function: " ++ callee.name
  | arity wanted got =>
    "expected arity to be " ++ toString wanted ++ ", got " ++ toString got ++ " instead"
  | argumentCount got wanted =>
    "wrong number of arguments. got=" ++ toString got ++ ", want=" ++ toString wanted
  | noLength argument => "argument to `len` not supported, got " ++ argument.name
  | notArray builtin argument =>
    "argument to `" ++ builtin.name ++ "` must be Array, got " ++ argument.name
  | tooDeep => "stack overflow: maximum recursion depth exceeded"
  | stated message => message

end EvalError

inductive MapKey where
  | integer (value : Int)
  | boolean (value : Bool)
  | string (value : String)
  | unusable (kind : Kind)
deriving DecidableEq

/-- A scope: a frame of the heap for its own names, the frames around it from the nearest outwards,
and the built-ins found behind all of them. -/
structure Scope where
  frame : Nat
  outers : List Nat := []
  builtins : List Builtin := Builtin.all
deriving DecidableEq

inductive Value where
  | integer (value : Int)
  | boolean (value : Bool)
  | null
  | string (value : String)
  | array (elements : List Value)
  | map (entries : List (MapKey × Value × Value))
  | function (parameters : List String) (body : Node) (scope : Scope)
  | builtin (primitive : Builtin)
  /-- The value of a return statement on its way to the caller. -/
  | returned (value : Value)
  | error (cause : EvalError)
  | letMark
  | emptyMark
  /-- A value with neither a type nor a text. -/
  | blank

instance : Inhabited Value := ⟨.null⟩

namespace Value

def kind? : Value → Option Kind
  | integer _ => some .integer
  | boolean _ => some .boolean
  | null => some .null
  | string _ => some .string
  | array _ => some .array
  | map _ => some .map
  | function _ _ _ => some .function
  | builtin _ => some .builtin
  | returned _ => some .returned
  | error _ => some .error
  | letMark => some .letMark
  | emptyMark => some .emptyMark
  | blank => none

def isTruthy : Value → Bool
  | null => false
  | boolean value => value
  | _ => true

def isError : Value → Bool
  | error _ => true
  | _ => false

def unwinds : Value → Bool
  | returned _ => true
  | error _ => true
  | _ => false

/-- The value that stands for a result in a value position: marks become null. -/
def orNull : Value → Value
  | letMark => null
  | emptyMark => null
  | value => value

def unwrapped : Value → Value
  | returned value => value
  | value => value

end Value

end MonkeyLang

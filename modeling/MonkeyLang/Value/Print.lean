import MonkeyLang.Syntax.Print
import MonkeyLang.Value.Heap

/-!
Printed forms of a value: the text that a program's user sees, with or without the type, and a dump
of the whole value. A value without a type has none of them, nor has one that holds it.
-/
namespace MonkeyLang.Value

def functionText (parameters : List String) (body : String) : String :=
  let head := "fn(" ++ ", ".intercalate parameters ++ ")"
  if body = "" then head ++ " \x7b \x7d" else head ++ " \x7b " ++ body ++ " \x7d"

mutual

def inspect? : Value → Option String
  | integer value => some (toString value)
  | boolean value => some (boolWord value)
  | null => some "null"
  | string value => some value
  | array elements => do return "[" ++ ", ".intercalate (← inspectAll? elements) ++ "]"
  | map entries => do return "\x7b" ++ ", ".intercalate (← inspectEntries? entries) ++ "\x7d"
  | function parameters body _ => some (functionText parameters body.source)
  | builtin primitive => some ("<built-in function: " ++ primitive.name ++ ">")
  | returned value => value.inspect?
  | error cause => some ("ERROR: " ++ cause.message)
  | letMark => some ""
  | emptyMark => some ""
  | blank => none

def inspectAll? : List Value → Option (List String)
  | [] => some []
  | value :: rest => do return (← value.inspect?) :: (← inspectAll? rest)

def inspectEntries? : List (MapKey × Value × Value) → Option (List String)
  | [] => some []
  | (_, key, value) :: rest => do
    return ((← key.inspect?) ++ ": " ++ (← value.inspect?)) :: (← inspectEntries? rest)

end

def describe? (value : Value) : Option String :=
  match value with
  | null => some "Null"
  | function _ _ _ => some "Function"
  | value => do return (← value.inspect?) ++ " : " ++ (← value.kind?).name

def display? (value : Value) : Option String := do
  return "<" ++ (← value.kind?).name ++ " " ++ (← value.inspect?) ++ ">"

def plain? : Value → Option String
  | string value => some value
  | error cause => some cause.message
  | value => value.display?

mutual

def dump? (h : Heap) : Value → Option String
  | integer value => some (inParens ["Integer", toString value])
  | boolean value => some (inParens ["Boolean", boolWord value])
  | null => some "(Null)"
  | string value => some (inParens ["String", Text.escaped value])
  | array elements => do return inParens ("Array" :: (← dumpAll? h elements))
  | map entries => do return inParens ("Map" :: (← dumpEntries? h entries))
  | function parameters body scope =>
    some (inParens ["Function", inParens parameters, Text.escaped body.source, scope.display h])
  | builtin primitive => some (inParens ["Builtin", primitive.name])
  | returned value => do return inParens ["Return", ← value.dump? h]
  | error cause => some (inParens ["Error", Text.escaped cause.message])
  | letMark => some "(Let)"
  | emptyMark => some "(Default)"
  | blank => none

def dumpAll? (h : Heap) : List Value → Option (List String)
  | [] => some []
  | value :: rest => do return (← value.dump? h) :: (← dumpAll? h rest)

def dumpEntries? (h : Heap) : List (MapKey × Value × Value) → Option (List String)
  | [] => some []
  | (_, key, value) :: rest => do
    return inParens [← key.dump? h, ← value.dump? h] :: (← dumpEntries? h rest)

end

end MonkeyLang.Value

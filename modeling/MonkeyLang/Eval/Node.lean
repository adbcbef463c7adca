import MonkeyLang.Eval.Arithmetic
import MonkeyLang.Eval.Basic
import MonkeyLang.Eval.Builtin
import MonkeyLang.Value.Key

/-!
Evaluation of trees. Each form is written over the evaluation `sub` of the nodes inside it. The knot
is tied by `evalNode`, which goes down at most the given number of levels.
-/
namespace MonkeyLang.Eval

abbrev SubOver (σ : Type) := Node → Scope → EvalOver σ Value

abbrev Sub := SubOver Machine

variable {σ : Type} [HasMachine σ] [Text.Encoding]

/-! ### Sequences -/

def programFrom (sub : SubOver σ) (scope : Scope) : Nat → Value → List Node → EvalOver σ Value
  | _, result, [] => return result
  | number, _, node :: rest => do
    emit (.statement number node.formName)
    let value ← sub node scope
    countStatement
    match value with
    | .returned inner =>
      emit (.programReturn (← typed inner.kind?))
      return inner
    | .error cause =>
      emit (.programError cause.message)
      countError
      return value
    | value => programFrom sub scope (number + 1) value rest

def blockFrom (sub : SubOver σ) (scope : Scope) : Value → List Node → EvalOver σ Value
  | result, [] => return result
  | _, node :: rest => do
    let value ← sub node scope
    countStatement
    if value.unwinds then return value else blockFrom sub scope value rest

def valuesOf (sub : SubOver σ) (scope : Scope) : List Node → EvalOver σ (Except Value (List Value))
  | [] => return .ok []
  | node :: rest => do
    let value ← sub node scope
    if value.unwinds then
      return .error value
    else
      match ← valuesOf sub scope rest with
      | .ok values => return .ok (value :: values)
      | .error result => return .error result

def entriesFrom (sub : SubOver σ) (scope : Scope) : Entries → List (Node × Node) → EvalOver σ Value
  | found, [] => return .map found
  | found, (keyNode, valueNode) :: rest =>
    onValue (sub keyNode scope) fun key => do
      match ← typed key.key? with
      | .unusable kind => return .error (.unusableKey kind)
      | mapKey =>
        onValue (sub valueNode scope) fun value =>
          entriesFrom sub scope (found.insert mapKey (key, value)) rest

/-! ### Calls and indexing -/

/-- Calls a function or a built-in. The body of a function is evaluated in a scope of its own inside
the scope that the function keeps. -/
def applyValue (sub : SubOver σ) (callee : Value) (arguments : List Value) : EvalOver σ Value := do
  countCall
  match callee with
  | .function parameters body scope =>
    if parameters.length = arguments.length then
      let inner ← makeScope (·.enclosed scope)
      bindNames inner parameters arguments
      emit (.functionCall arguments.length)
      let result ← sub body inner
      return result.unwrapped.orNull
    else
      return .error (.arity parameters.length arguments.length)
  | .builtin primitive =>
    emit (.builtinCall primitive)
    encodable (primitive.fault? arguments)
    typed (primitive.call? arguments)
  | callee => return .error (.notCallable (← typed callee.kind?))

def indexValue (collection position : Value) : EvalOver σ Value := do
  match collection, position with
  | .array elements, .integer place =>
    return if place < 0 then .null else elements[place.toNat]?.getD .null
  | .map entries, position =>
    match ← typed position.key? with
    | .unusable kind => return .error (.unusableKey kind)
    | key => return (Entries.find? entries key).getD .null
  | collection, _ => return .error (.notIndexable (← typed collection.kind?))

/-! ### Nodes -/

def evalForm (sub : SubOver σ) (scope : Scope) : Node → EvalOver σ Value
  | .hole => do
    emit .emptyPlace
    return .null
  | .bare kind => do
    emit (.unknownNode kind)
    return .error (.unknownNode kind)
  | .program statements => do
    emit (.programNode statements.length)
    emit (.programStart statements.length)
    programFrom sub scope 1 .emptyMark statements
  | .block statements => do
    emit (.blockNode statements.length)
    blockFrom sub scope .emptyMark statements
  | .letBind name value =>
    onValue (sub value scope) fun value => do
      bindName scope name value
      emit (.bound name)
      return .letMark
  | .returning value => onValue (sub value scope) fun value => return .returned value
  | .expression inner => sub inner scope
  | .identifier name => do
    match ← resolve? scope name with
    | some value => return value
    | none =>
      emit (.unboundName name)
      return .error (.unboundName name)
  | .integer value => return .integer value
  | .text value => return .string value
  | .boolean value => return .boolean value
  | .prefixOp operator right => do
    emit (.prefixNode operator)
    onValue (sub right scope) fun right => typed (prefixValue? operator right)
  | .infixOp left operator right => do
    emit (.infixNode operator)
    onValue (sub left scope) fun left =>
      onValue (sub right scope) fun right => typed (infixValue? operator left right)
  | .grouped inner => sub inner scope
  | .conditional condition consequence alternative =>
    onValue (sub condition scope) fun condition => do
      if condition.isTruthy then
        return (← sub consequence scope).orNull
      else
        match alternative with
        | .hole => return .null
        | alternative => return (← sub alternative scope).orNull
  | .function parameters body => return .function parameters body (← makeScope (·.snapshot scope))
  | .call callee arguments => do
    emit (.callNode arguments.length)
    onValue (sub callee scope) fun callee => do
      match ← valuesOf sub scope arguments with
      | .ok arguments => applyValue sub callee arguments
      | .error result => return result
  | .array elements => do
    match ← valuesOf sub scope elements with
    | .ok elements => return .array elements
    | .error result => return result
  | .index collection position =>
    onValue (sub collection scope) fun collection =>
      onValue (sub position scope) fun position => indexValue collection position
  | .mapping entries => do
    emit (.mapNode entries.length)
    entriesFrom sub scope [] entries

/-- Evaluates a node in a scope, going down at most the given number of levels. -/
def evalNode : Nat → Sub
  | 0, _, _ => throw .tooDeep
  | depth + 1, node, scope => evalForm (evalNode depth) scope node

def apply (depth : Nat) (callee : Value) (arguments : List Value) : Eval Value :=
  applyValue (evalNode depth) callee arguments

end MonkeyLang.Eval

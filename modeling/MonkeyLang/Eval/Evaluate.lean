import MonkeyLang.Eval.Node

/-!
One evaluation from a fresh count to its end. Marks are no values to show, and an evaluation that is
nested too deeply ends with an error.
-/
namespace MonkeyLang

inductive Ending where
  | nothing
  | result (value : Value)
  | untyped
  | unencodable (fault : Text.EncodeFault)

structure Evaluation where
  ending : Ending
  heap : Heap
  summary : Summary
  events : List Event

def Ending.ofValue : Value → Ending
  | .letMark => .nothing
  | .emptyMark => .nothing
  | value => .result value

def Ending.value? : Ending → Option Value
  | result value => some value
  | _ => none

def defaultDepth : Nat := 10000

def Evaluation.complete (ending : Ending) (m : Machine) : Evaluation :=
  { ending, heap := m.heap, summary := m.summary,
    events := (Event.completed m.summary :: m.events).reverse }

def evaluate [Text.Encoding] (depth : Nat) (node : Node) (scope : Scope) (heap : Heap) :
    Evaluation :=
  match Eval.evalNode depth node scope { heap } with
  | .ok value m => .complete (.ofValue value) m
  | .error .tooDeep m =>
    .complete (.result (.error .tooDeep))
      { m with summary.errors := m.summary.errors + 1 }
  | .error .untyped m =>
    { ending := .untyped, heap := m.heap, summary := m.summary, events := m.events.reverse }
  | .error (.unencodable fault) m =>
    { ending := .unencodable fault, heap := m.heap, summary := m.summary,
      events := m.events.reverse }

end MonkeyLang

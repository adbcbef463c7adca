import MonkeyLang.Proofs.Eval.Accord
import MonkeyLang.Proofs.Eval.Journal

/-!
Everything that happens during an evaluation. An observed evaluation notes every node that is
entered, every value that a node gives and every call with its arguments, together with the machine
at that moment, and is the plain evaluation otherwise.
-/
namespace MonkeyLang.Eval

variable [Text.Alphabet] [Text.Encoding]

inductive Note where
  | entered (node : Node)
  | gave (node : Node) (value : Value)
  | applied (callee : Value) (arguments : List Value)

namespace Note

def node? : Note → Option Node
  | entered node | gave node _ => some node
  | applied _ _ => none

def values : Note → List Value
  | entered _ => []
  | gave _ value => [value]
  | applied callee arguments => callee :: arguments

def measured? : Note → Option String
  | applied (.builtin .len) [.string text] => some text
  | _ => none

end Note

structure Observation where
  note : Note
  machine : Machine

def Observation.Shows (o : Observation) (v : Value) : Prop :=
  v ∈ o.note.values ∨ ∃ i, ∃ b ∈ o.machine.heap.frame i, b.2 = v

/-- A machine with what was observed before, in order. -/
structure Observer where
  machine : Machine
  seen : List Observation := []

instance : HasMachine Observer where
  machine s := s.machine
  update f s := { s with machine := f s.machine }
  machine_update _ _ := rfl

def Observer.noting (s : Observer) (note : Note) : Observer :=
  { s with seen := s.seen ++ [⟨note, s.machine⟩] }

def observe (note : Note) : EvalOver Observer Unit := modify (·.noting note)

def observedForm (sub : SubOver Observer) (scope : Scope) : Node → EvalOver Observer Value
  | .call callee arguments => do
    emit (.callNode arguments.length)
    onValue (sub callee scope) fun callee => do
      match ← valuesOf sub scope arguments with
      | .ok arguments =>
        observe (.applied callee arguments)
        applyValue sub callee arguments
      | .error result => return result
  | node => evalForm sub scope node

def observed : Nat → SubOver Observer
  | 0, _, _ => throw .tooDeep
  | depth + 1, node, scope => do
    observe (.entered node)
    let value ← observedForm (observed depth) scope node
    observe (.gave node value)
    return value

def observations {α : Type} : EStateM.Result Halt Observer α → List Observation
  | .ok _ s | .error _ s => s.seen

def withoutNotes {α : Type} : EStateM.Result Halt Observer α → EStateM.Result Halt Machine α
  | .ok a s => .ok a s.machine
  | .error halt s => .error halt s.machine

/-- Sessions from the empty heap: scopes are opened inside any others, and programs that were parsed
are evaluated in any scopes, to any depth. A session has its heap and everything observed so far. -/
inductive Recorded : Heap → List Observation → Prop
  | fresh : Recorded {} []
  | opened {heap : Heap} {history : List Observation} (h : Recorded heap history)
      (outer : Option Scope) (builtins : List Builtin) :
      Recorded (heap.newScope outer builtins).2 history
  | evaluated {heap : Heap} {history : List Observation} (h : Recorded heap history)
      {source : String} {parsed : Parsed} (hparsed : parse source = .ok parsed) (depth : Nat)
      (scope : Scope) :
      Recorded (evaluate depth parsed.program scope heap).heap
        (observations
          (observed depth parsed.program scope { machine := { heap }, seen := history }))

end MonkeyLang.Eval

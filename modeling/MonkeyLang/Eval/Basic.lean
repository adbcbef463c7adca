import MonkeyLang.Eval.Trace
import MonkeyLang.Text.Utf8
import MonkeyLang.Value.Heap

/-!
Evaluations: computations that read and write a heap, count, and record events. An evaluation ends
with a value, or halts because it is nested too deeply, asks for the type of a value that has none,
or for the bytes of a text that has none. What was written before a halt stays written. The state of
an evaluation is a machine, or anything that holds one.
-/
namespace MonkeyLang

structure Machine where
  heap : Heap := {}
  summary : Summary := {}
  /-- The events so far, the latest first. -/
  events : List Event := []

inductive Halt where
  | tooDeep
  | untyped
  | unencodable (fault : Text.EncodeFault)
deriving DecidableEq

class HasMachine (σ : Type) where
  machine : σ → Machine
  update : (Machine → Machine) → σ → σ
  machine_update : ∀ (f : Machine → Machine) (s : σ), machine (update f s) = f (machine s)

instance : HasMachine Machine where
  machine m := m
  update f := f
  machine_update _ _ := rfl

abbrev EvalOver (σ : Type) := EStateM Halt σ

abbrev Eval := EvalOver Machine

namespace Eval

variable {σ : Type} [HasMachine σ]

def emit (event : Event) : EvalOver σ Unit :=
  modify (HasMachine.update fun m => { m with events := event :: m.events })

def countStatement : EvalOver σ Unit :=
  modify (HasMachine.update fun m => { m with summary.statements := m.summary.statements + 1 })

def countCall : EvalOver σ Unit :=
  modify (HasMachine.update fun m => { m with summary.calls := m.summary.calls + 1 })

def countError : EvalOver σ Unit :=
  modify (HasMachine.update fun m => { m with summary.errors := m.summary.errors + 1 })

def resolve? (scope : Scope) (name : String) : EvalOver σ (Option Value) := do
  return (HasMachine.machine (← get)).heap.resolve? scope name

def bindName (scope : Scope) (name : String) (value : Value) : EvalOver σ Unit :=
  modify (HasMachine.update fun m => { m with heap := m.heap.set scope name value })

def bindNames (scope : Scope) : List String → List Value → EvalOver σ Unit
  | name :: names, value :: values => do
    bindName scope name value
    bindNames scope names values
  | _, _ => return

def makeScope (make : Heap → Scope × Heap) : EvalOver σ Scope :=
  modifyGet fun s =>
    let (scope, heap) := make (HasMachine.machine s).heap
    (scope, HasMachine.update (fun m => { m with heap }) s)

def typed {α : Type} : Option α → EvalOver σ α
  | some a => return a
  | none => throw .untyped

def encodable : Option Text.EncodeFault → EvalOver σ Unit
  | some fault => throw (.unencodable fault)
  | none => return

def onValue (first : EvalOver σ Value) (next : Value → EvalOver σ Value) : EvalOver σ Value := do
  let value ← first
  if value.unwinds then return value else next value

end Eval

end MonkeyLang

import MonkeyLang.Value.Environment

/-!
The environments of a run. A scope stands for one of them: it has the number of the environment, and
what never changes about it, the environments around it and the built-ins. What a scope reads and
writes are the stores of the environments.
-/
namespace MonkeyLang

def Scope.builtin? (scope : Scope) (name : String) : Option Value :=
  (scope.builtins.find? (·.name = name)).map Value.builtin

structure Heap where
  environments : Environments := {}
  wellFormed : environments.WellFormed := by exact Environments.wellFormed_empty

namespace Heap

def size (h : Heap) : Nat := h.environments.size

def frame (h : Heap) (i : Nat) : Frame := h.environments.frame i

def chain (scope : Scope) : List Nat := scope.frame :: scope.outers

def find? (h : Heap) (scope : Scope) (name : String) : Option Value :=
  (chain scope).findSome? fun i => (h.frame i).get? name

def resolve? (h : Heap) (scope : Scope) (name : String) : Option Value :=
  (h.find? scope name).or (scope.builtin? name)

def set (h : Heap) (scope : Scope) (name : String) (value : Value) : Heap where
  environments := h.environments.set scope.frame name value
  wellFormed := h.wellFormed.set scope.frame name value

def outerFor (h : Heap) (outer : Option Scope) : Option Nat :=
  (outer.map Scope.frame).filter (· < h.size)

theorem lt_of_outerFor {h : Heap} {outer : Option Scope} {o : Nat}
    (ho : h.outerFor outer = some o) : o < h.size := by
  simpa using (Option.filter_eq_some_iff.mp ho).2

def newScope (h : Heap) (outer : Option Scope) (builtins : List Builtin) : Scope × Heap :=
  ({ frame := h.size, outers := (outer.map chain).getD [], builtins },
    { environments := (h.environments.new (h.outerFor outer) builtins).2
      wellFormed := h.wellFormed.new (fun _ => lt_of_outerFor) builtins })

def enclosed (h : Heap) (scope : Scope) : Scope × Heap := h.newScope (some scope) scope.builtins

/-- A scope that keeps the bindings of the moment. -/
def snapshot (h : Heap) (scope : Scope) : Scope × Heap :=
  ({ scope with frame := h.size },
    { environments := (h.environments.snapshot scope.frame).2
      wellFormed := h.wellFormed.snapshot scope.frame })

end Heap

def Scope.depth (scope : Scope) : Nat := scope.outers.length

def Scope.display (scope : Scope) (h : Heap) : String :=
  "Environment(names=" ++ Text.quotedList (h.frame scope.frame).names ++ ", depth=" ++
    toString scope.depth ++ ")"

end MonkeyLang

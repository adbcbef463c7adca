import Mathlib.Order.Basic
import MonkeyLang.Proofs.Value.Environments
import MonkeyLang.Proofs.Value.Heap

/-!
Scopes and the environments that they stand for. A scope lists all environments around it, and an
environment knows only the one directly around it. Where the two agree, a scope finds what a walk
from environment to environment finds. They agree from the moment that a scope is made, and no
change of the heap moves an environment to another place, so they agree from then on.
-/
namespace MonkeyLang.Heap

variable {h h' : Heap} {scope : Scope}

/-- The scope stands for an environment of the heap. -/
structure Knows (h : Heap) (scope : Scope) : Prop where
  lt : scope.frame < h.size
  chain : h.environments.chain scope.frame = Heap.chain scope
  builtins : h.environments.builtins scope.frame = scope.builtins

/-! ### Answers of known scopes -/

namespace Knows

variable (hk : h.Knows scope)
include hk

theorem find?_eq (name : String) :
    h.find? scope name = h.environments.get? scope.frame name := by
  rw [Environments.get?, hk.chain]
  rfl

theorem resolve?_eq (name : String) :
    h.resolve? scope name = h.environments.resolve? scope.frame name := by
  rw [Environments.resolve?, Environments.builtin?, hk.builtins, ← hk.find?_eq]
  rfl

theorem depth_eq : scope.depth = h.environments.depth scope.frame := by
  rw [Environments.depth, hk.chain]
  rfl

theorem display_eq : scope.display h = h.environments.display scope.frame := by
  have hframe : h.frame scope.frame = h.environments.frame scope.frame := rfl
  unfold Scope.display Environments.display
  rw [hk.depth_eq, hframe]

theorem outerFor_eq : h.outerFor (some scope) = some scope.frame :=
  Option.filter_eq_some_iff.mpr ⟨rfl, decide_eq_true hk.lt⟩

theorem environments_enclosed :
    (h.enclosed scope).2.environments = (h.environments.enclosed scope.frame).2 := by
  show (h.environments.new (h.outerFor (some scope)) scope.builtins).2 = _
  rw [hk.outerFor_eq, ← hk.builtins]
  rfl

end Knows

/-! ### Environments stay in their places -/

instance : Preorder Heap where
  le h h' := h.size ≤ h'.size ∧ ∀ i < h.size,
    h'.environments.outer? i = h.environments.outer? i ∧
      h'.environments.builtins i = h.environments.builtins i
  le_refl _ := ⟨Nat.le_refl _, fun _ _ => ⟨rfl, rfl⟩⟩
  le_trans _ _ _ h h' := by
    refine ⟨Nat.le_trans h.1 h'.1, fun i hi => ?_⟩
    obtain ⟨houter, hbuiltins⟩ := h.2 i hi
    obtain ⟨houter', hbuiltins'⟩ := h'.2 i (Nat.lt_of_lt_of_le hi h.1)
    exact ⟨houter'.trans houter, hbuiltins'.trans hbuiltins⟩

theorem le_set (h : Heap) (scope : Scope) (name : String) (value : Value) :
    h ≤ h.set scope name value :=
  ⟨Nat.le_of_eq (size_set scope name value).symm, fun i _ => Environments.of_set _ name value i⟩

theorem set_le (h : Heap) (scope : Scope) (name : String) (value : Value) :
    h.set scope name value ≤ h := by
  refine ⟨Nat.le_of_eq (size_set scope name value), fun i _ => ?_⟩
  obtain ⟨houter, hbuiltins⟩ := Environments.of_set (e := h.environments) scope.frame name value i
  exact ⟨houter.symm, hbuiltins.symm⟩

theorem le_newScope (h : Heap) (outer : Option Scope) (builtins : List Builtin) :
    h ≤ (h.newScope outer builtins).2 := by
  refine ⟨(adds_newScope outer builtins).size ▸ Nat.le_succ _, fun i hi => ?_⟩
  have hne : i ≠ h.environments.size := Nat.ne_of_lt hi
  exact ⟨(Environments.outer?_new _ _ i).trans (if_neg hne),
    (Environments.builtins_new _ _ i).trans (if_neg hne)⟩

theorem le_snapshot (h : Heap) (scope : Scope) : h ≤ (h.snapshot scope).2 := by
  refine ⟨(adds_snapshot scope).size ▸ Nat.le_succ _, fun i hi => ?_⟩
  have hne : i ≠ h.environments.size := Nat.ne_of_lt hi
  obtain ⟨houter, hbuiltins⟩ := Environments.of_snapshot (e := h.environments) scope.frame i
  exact ⟨houter.trans (if_neg hne), hbuiltins.trans (if_neg hne)⟩

theorem Knows.mono (hle : h ≤ h') (hk : h.Knows scope) : h'.Knows scope where
  lt := Nat.lt_of_lt_of_le hk.lt hle.1
  chain := by
    rw [← hk.chain]
    exact h.wellFormed.chain_congr h'.wellFormed fun j hj =>
      (hle.2 j (Nat.lt_of_le_of_lt hj hk.lt)).1
  builtins := (hle.2 _ hk.lt).2.trans hk.builtins

/-! ### Scopes that are made -/

theorem knows_newScope {outer : Option Scope} (houter : ∀ o ∈ outer, h.Knows o)
    (builtins : List Builtin) :
    (h.newScope outer builtins).2.Knows (h.newScope outer builtins).1 where
  lt := (adds_newScope outer builtins).size ▸ Nat.lt_succ_self _
  chain := by
    have hnext : (h.newScope outer builtins).2.environments.outer? h.size = h.outerFor outer :=
      (Environments.outer?_new _ _ _).trans (if_pos rfl)
    rw [(h.newScope outer builtins).2.wellFormed.chain_eq]
    show h.size :: (((h.newScope outer builtins).2.environments.outer? h.size).map _).getD [] =
      h.size :: (outer.map Heap.chain).getD []
    rw [hnext]
    cases outer with
    | none => rfl
    | some o =>
      have ho := houter o rfl
      rw [ho.outerFor_eq, Option.map_some, (ho.mono (h.le_newScope (some o) builtins)).chain]
      rfl
  builtins := (Environments.builtins_new _ _ _).trans (if_pos rfl)

theorem knows_enclosed (hk : h.Knows scope) : (h.enclosed scope).2.Knows (h.enclosed scope).1 :=
  knows_newScope (fun _ ho => Option.some.inj ho ▸ hk) scope.builtins

theorem knows_snapshot (hk : h.Knows scope) :
    (h.snapshot scope).2.Knows (h.snapshot scope).1 where
  lt := (adds_snapshot scope).size ▸ Nat.lt_succ_self _
  chain := by
    have htail : ((h.snapshot scope).2.environments.chain h.size).tail = scope.outers := by
      have hsame := h.wellFormed.tail_chain_snapshot hk.lt
      rwa [hk.chain] at hsame
    show (h.snapshot scope).2.environments.chain h.size = h.size :: scope.outers
    rw [← htail, (h.snapshot scope).2.wellFormed.chain_eq]
    rfl
  builtins := ((Environments.of_snapshot _ _).2.trans (if_pos rfl)).trans hk.builtins

end MonkeyLang.Heap

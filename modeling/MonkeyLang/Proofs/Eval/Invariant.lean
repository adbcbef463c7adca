import MonkeyLang.Proofs.Eval.Link

/-!
Invariants of an evaluation. An invariant of the states, the scopes and the functions of an
evaluation is a link between the evaluation and the plain one of the same node: as long as each step
of a machine keeps it, the two have equal results and equal heaps, and the invariant holds at the
end, also where the evaluation halts.
-/
namespace MonkeyLang.Eval

open HasMachine

def heapAfter {α : Type} : EStateM.Result Halt Machine α → Heap
  | .ok _ m | .error _ m => m.heap

structure Invariant (W σ : Type) [Preorder W] [HasMachine σ] where
  state : W → σ → Prop
  scope : W → Scope → Prop
  fn : W → Closure → Prop
  node : Scope → Node → Prop
  owns : Scope → String → Prop
  scope_mono : ∀ {w w' sc}, w ≤ w' → scope w sc → scope w' sc
  fn_mono : ∀ {w w' c}, w ≤ w' → fn w c → fn w' c
  node_parts : ∀ {sc n c}, node sc n → c ∈ n.parts → node sc c
  owns_target? : ∀ {sc n name}, node sc n → name ∈ n.target? → owns sc name
  recorded : ∀ {w s} (event : Event), state w s → state w (update (Machine.recorded event) s)
  counted : ∀ {w s} (k : Summary), state w s → state w (update (Machine.counted k) s)
  resolved : ∀ {w s sc name v}, state w s → scope w sc →
    (machine s).heap.resolve? sc name = some v → ∀ c ∈ v.closures, fn w c
  bound : ∀ {w s sc name v}, state w s → scope w sc → owns sc name → (∀ c ∈ v.closures, fn w c) →
    state w (update (Machine.bound sc name v) s)
  snapshot : ∀ {w s sc} (parameters : List String) (body : Node), state w s → scope w sc →
    ∃ w', w ≤ w' ∧ state w' (update (Machine.placed ((machine s).heap.snapshot sc).2) s) ∧
      fn w' ⟨parameters, body, ((machine s).heap.snapshot sc).1⟩
  enclosed : ∀ {w s c}, state w s → fn w c →
    ∃ w', w ≤ w' ∧ state w' (update (Machine.placed ((machine s).heap.enclosed c.scope).2) s) ∧
      scope w' ((machine s).heap.enclosed c.scope).1 ∧
      node ((machine s).heap.enclosed c.scope).1 c.body ∧
      ∀ name, owns ((machine s).heap.enclosed c.scope).1 name

namespace Invariant

variable {W σ : Type} [Preorder W] [HasMachine σ] (I : Invariant W σ)

def link : Link W σ Machine where
  state w s m := (machine s).heap = m.heap ∧ I.state w s
  scopes w sc sc' := sc = sc' ∧ I.scope w sc
  fn w c c' := c = c' ∧ I.fn w c
  nodes sc n n' := n = n' ∧ I.node sc n
  owns := I.owns
  bodies := Eq
  lenient := False
  scopes_mono hw h := ⟨h.1, I.scope_mono hw h.2⟩
  fn_mono hw h := ⟨h.1, I.fn_mono hw h.2⟩
  parameters_eq h := congrArg Closure.parameters h.1
  recorded event event' hs := by
    rw [machine_update]
    exact ⟨hs.1, I.recorded event hs.2⟩
  counted k hs := by
    rw [machine_update]
    exact ⟨hs.1, I.counted k hs.2⟩
  resolved {w s s' sc sc'} name hs hsc := by
    obtain ⟨rfl, hscope⟩ := hsc
    rw [show (machine s').heap = (machine s).heap from hs.1.symm]
    cases hfound : (machine s).heap.resolve? sc name with
    | none => exact .none
    | some v =>
      have hfn := I.resolved hs.2 hscope hfound
      exact .some (v.matches_self fun c hc => ⟨rfl, hfn c hc⟩)
  bound {w s s' sc sc' name v v'} hs hsc hname hv := by
    obtain ⟨rfl, hscope⟩ := hsc
    obtain rfl := hv.eq fun _ _ h => h.1
    have hfn := List.forall₂_same.mp hv.closures
    rw [machine_update]
    refine ⟨?_, I.bound hs.2 hscope hname fun c hc => (hfn c hc).2⟩
    simp only [Machine.bound, update, hs.1]
  snapshot {w s s' sc sc' body body'} parameters hs hsc hbody := by
    obtain ⟨rfl, hscope⟩ := hsc
    obtain rfl := hbody
    obtain ⟨w', hw, hs', hfn⟩ := I.snapshot parameters body hs.2 hscope
    rw [show (machine s').heap = (machine s).heap from hs.1.symm]
    exact ⟨w', hw, ⟨by rw [machine_update]; rfl, hs'⟩, rfl, hfn⟩
  enclosed {w s s' c c'} hs hfn := by
    obtain ⟨rfl, hfn⟩ := hfn
    obtain ⟨w', hw, hs', hscope, hnode, howns⟩ := I.enclosed hs.2 hfn
    rw [show (machine s').heap = (machine s).heap from hs.1.symm]
    exact ⟨w', hw, ⟨by rw [machine_update]; rfl, hs'⟩, ⟨rfl, hscope⟩, ⟨rfl, hnode⟩, howns⟩

variable {I}

theorem link_values {w : W} {v v' : Value} :
    I.link.values w v v' ↔ v = v' ∧ ∀ c ∈ v.closures, I.fn w c := by
  constructor
  · intro h
    obtain rfl := h.eq fun _ _ h => h.1
    exact ⟨rfl, fun c hc => (List.forall₂_same.mp h.closures c hc).2⟩
  · rintro ⟨rfl, h⟩
    exact v.matches_self fun c hc => ⟨rfl, h c hc⟩

theorem related_evalForm [Text.Encoding] {sub : SubOver σ} {sub' : Sub}
    (hsub : I.link.SubRelated sub sub') {w : W}
    {sc : Scope} {n : Node} (hscope : I.scope w sc) (hnode : I.node sc n) :
    I.link.Related I.link.values w (evalForm sub sc n) (evalForm sub' sc n) := by
  have halike : n.Alike (I.link.owns sc) (I.link.nodes sc) I.link.bodies n :=
    n.alike_self (fun _ h => I.owns_target? hnode h) (fun _ h => ⟨rfl, I.node_parts hnode h⟩)
      fun _ _ => rfl
  exact Link.related_evalForm hsub ⟨rfl, hscope⟩ halike

/-- What each step of a machine keeps, the evaluation of a node keeps. -/
theorem subRelated_evalNode [Text.Encoding] (I : Invariant W Machine) (depth : Nat) :
    I.link.SubRelated (evalNode depth) (evalNode depth) := by
  induction depth with
  | zero => exact fun _ _ _ _ _ _ _ => Link.related_throw .tooDeep
  | succ depth ih =>
    rintro w sc _ n _ ⟨rfl, hscope⟩ ⟨rfl, hnode⟩
    exact related_evalForm ih hscope hnode

end Invariant

end MonkeyLang.Eval

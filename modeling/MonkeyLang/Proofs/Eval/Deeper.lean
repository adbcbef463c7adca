import MonkeyLang.Eval.Evaluate
import MonkeyLang.Proofs.Eval.Accord
import MonkeyLang.Proofs.Eval.Renaming

/-!
The limit on the depth decides nothing but whether an evaluation ends. An evaluation that may go
deeper does what the other one does, step by step, until the other one halts at its limit; and what
halts there is not caught anywhere, so an evaluation that does not halt never came to its limit.
-/
namespace MonkeyLang

namespace Eval

/-- Two evaluations from one machine on, the first of which may be nested too deeply. -/
def limited : Accord OneWorld Machine Machine where
  state _ := Eq
  leaf _ _ := True
  node _ _ _ := True
  owns _ _ _ := True
  lenient := True
  leaf_mono _ h := h
  node_mono _ h := h
  owns_mono _ h := h
  node_visited h _ := h
  owns_target? h _ := h
  indifferent _ := ⟨fun _ _ => trivial, fun _ => trivial, fun _ => trivial⟩
  integer h := h
  prefixed h _ := h
  infixed h _ := h
  emptyMap := trivial
  inserted h _ _ := h
  unknown h := h
  size_eq hs := by rw [hs]
  recorded _ hs := congrArg _ hs
  recorded_hole _ hs := congrArg _ hs
  recorded_bare _ hs := congrArg _ hs
  counted _ hs := congrArg _ hs
  resolved hs _ := ⟨by rw [hs], fun _ _ _ _ => trivial⟩
  bound hs _ _ := congrArg _ hs
  snapshot hs _ := ⟨⟨⟩, le_rfl, by rw [hs], trivial⟩
  enclosed hs _ := ⟨⟨⟩, le_rfl, by rw [hs], trivial, fun _ _ => trivial⟩

theorem subJoint_limited [Text.Encoding] {depth depth' : Nat} (hle : depth ≤ depth') :
    limited.SubJoint (evalNode depth) (evalNode depth') := by
  induction depth generalizing depth' with
  | zero => exact fun _ _ _ _ _ _ _ => .deep trivial
  | succ depth ih =>
    obtain ⟨deeper, rfl⟩ := Nat.exists_eq_add_of_le' hle
    intro w sc n hn
    exact Accord.joint_evalForm (ih (Nat.le_add_left depth deeper)) hn fun _ _ _ _ _ _ => trivial

theorem evalNode_deeper [Text.Encoding] {depth depth' : Nat} (hle : depth ≤ depth') (node : Node)
    (scope : Scope) (m : Machine) :
    TooDeep (evalNode depth node scope m) ∨
      evalNode depth' node scope m = evalNode depth node scope m := by
  have hends := subJoint_limited hle ⟨⟩ scope node trivial m m rfl
  generalize evalNode depth node scope m = r, evalNode depth' node scope m = r' at hends
  cases hends with
  | ok _ hs _ => exact Or.inr (congrArg _ hs.symm)
  | halt _ hs => exact Or.inr (congrArg _ hs.symm)
  | deep _ => exact Or.inl ⟨_, rfl⟩

end Eval

/-- An evaluation that does not end with the error of the depth limit ends in the same way, with the
same heap, counts and events, under every higher limit. -/
theorem evaluate_within_limit [Text.Encoding] {depth depth' : Nat} (hle : depth ≤ depth')
    {node : Node} {scope : Scope} {heap : Heap}
    (h : (evaluate depth node scope heap).ending ≠ .result (.error .tooDeep)) :
    evaluate depth' node scope heap = evaluate depth node scope heap := by
  rcases Eval.evalNode_deeper hle node scope { heap } with ⟨m, hdeep⟩ | hsame
  · refine absurd ?_ h
    simp only [evaluate, hdeep]
    rfl
  · simp only [evaluate, hsame]

theorem evaluate_within_limit_calls :
    let node : Node := .program
      [.letBind "f" (.function ["x"] (.block [.returning
        (.infixOp (.identifier "x") .plus (.integer 1))])),
      .expression (.call (.identifier "f") [.call (.identifier "f") [.integer 1]])]
    let scope := (Heap.newScope {} none Builtin.all).1
    let heap := (Heap.newScope {} none Builtin.all).2
    8 ≤ 1000 ∧ (evaluate 8 node scope heap).ending.value?.bind Value.inspect? = some "3" ∧
      evaluate 1000 node scope heap = evaluate 8 node scope heap := by
  intro node scope heap
  have hending : (evaluate 8 node scope heap).ending.value?.bind Value.inspect? = some "3" := by
    decide +kernel
  refine ⟨by decide, hending, evaluate_within_limit (by decide) fun hresult => ?_⟩
  rw [hresult] at hending
  exact absurd hending (by decide)

end MonkeyLang

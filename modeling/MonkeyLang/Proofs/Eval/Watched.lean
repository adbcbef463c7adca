import MonkeyLang.Proofs.Eval.Outcome
import MonkeyLang.Run
import MonkeyLang.Text.Letter
import MonkeyLang.Value.Print

/-!
Marks, errors and returns never become values of a program. A watched evaluation halts as soon as a
value that is not proper is bound, passed to a function, returned or given as a result. For trees
that were parsed, and heaps that such trees left behind, the watched evaluation is the evaluation:
there is nothing to halt at.
-/
namespace MonkeyLang

namespace Eval

open Value

variable [Text.Encoding]

/-! ### The watched evaluation -/

open Classical in
/-- Halts unless the evaluation begins with a proper heap and ends as it should. -/
noncomputable def watch (good : Value → Prop) (x : Eval Value) : Eval Value := fun m =>
  if m.heap.Proper ∧ Ends good (x m) then x m else .error .untyped m

open Classical in
noncomputable def watchedForm (sub : Sub) (scope : Scope) : Node → Eval Value
  | .call callee arguments => do
    emit (.callNode arguments.length)
    onValue (sub callee scope) fun callee => do
      match ← valuesOf sub scope arguments with
      | .ok arguments =>
        if ∀ v ∈ arguments, v.Proper then applyValue sub callee arguments else throw .untyped
      | .error result => return result
  | node => evalForm sub scope node

/-- The evaluation of a node, watched at every node inside it and at every call. -/
noncomputable def watched : Nat → Sub
  | 0, _, _ => throw .tooDeep
  | depth + 1, node, scope => watch (Gives node) (watchedForm (watched depth) scope node)

section Watched

variable {base : Summary} {s t : Sub} {n : Node}

theorem settles_watchedForm (h : SubSettles base s t) (scope : Scope) (hn : Runnable n) :
    Settles base (Gives n) (watchedForm s scope n) (evalForm t scope n) := by
  cases n with
  | call callee arguments =>
    obtain ⟨hcallee, harguments⟩ : Shaped (.expression callee) ∧
        ∀ n ∈ arguments, Shaped (.expression n) := by
      cases hn with
      | expression hn =>
        cases hn with
        | call hcallee harguments => exact ⟨hcallee, harguments⟩
      | statement hn => cases hn
      | block hn => cases hn
    refine settles_call h (fun {f values} hf hvalues => ?_) scope hcallee harguments
    rw [if_pos hvalues]
    exact settles_applyValue h hf hvalues
  | _ => exact settles_evalForm h scope hn

theorem accounts_watch {before : Machine → Prop} {after : Value → Machine → Prop}
    {good : Value → Prop} {x y : Eval Value} (h : Accounts base before good after x y) :
    Accounts base before good after (watch good x) y := by
  intro m hproper hm
  obtain ⟨heq, hends, hleaves⟩ := h m hproper hm
  have hkept : m.heap.Proper ∧ Ends good (x m) := ⟨hproper, heq ▸ hends⟩
  refine ⟨?_, hends, hleaves⟩
  unfold watch
  rw [if_pos hkept, heq]

theorem subSettles_watched (depth : Nat) : SubSettles base (watched depth) (evalNode depth) := by
  induction depth with
  | zero => exact fun _ _ _ => settles_tooDeep
  | succ depth ih => exact fun n hn scope => accounts_watch (settles_watchedForm ih scope hn)

theorem accounts_watched (depth : Nat) (scope : Scope) {nodes : List Node}
    (hnodes : Shaped (.statements nodes)) :
    Accounts base (Machine.Owes base 0 0) IsAnswer
      (fun v => Machine.Owes base v.unshown v.isError.toNat)
      (watched depth (.program nodes) scope) (evalNode depth (.program nodes) scope) := by
  cases depth with
  | zero => exact settles_tooDeep
  | succ depth =>
    exact accounts_watch (accounts_programForm (subSettles_watched depth) scope hnodes)

end Watched

end Eval

/-! ### Whole evaluations -/

inductive Ending.Proper : Ending → Prop
  | nothing : Proper nothing
  | error (fault : EvalError) : Proper (result (.error fault))
  | value {v : Value} (hv : v.Proper) : Proper (result v)

def Ending.fault? : Ending → Option Text.EncodeFault
  | unencodable fault => some fault
  | _ => none

theorem Value.IsAnswer.ending {v : Value} (h : v.IsAnswer) : (Ending.ofValue v).Proper := by
  cases v with
  | letMark | emptyMark => exact .nothing
  | error fault => exact .error fault
  | _ => exact .value h

theorem Ending.Proper.fault?_eq {ending : Ending} (h : ending.Proper) : ending.fault? = none := by
  cases h <;> rfl

section Reached

variable [Text.Encoding]

/-- The heaps that the evaluation of parsed programs leads to, in any scopes. -/
inductive Reached : Heap → Prop
  | empty : Reached {}
  | opened {h : Heap} (outer : Option Scope) (builtins : List Builtin) (hh : Reached h) :
      Reached (h.newScope outer builtins).2
  | evaluated {h : Heap} (found : Lexer.Scan) (depth : Nat) (scope : Scope) (hh : Reached h) :
      Reached (evaluate depth (parseScan found).program scope h).heap

theorem accounts_parseScan (base : Summary) (found : Lexer.Scan) (depth : Nat) (scope : Scope) :
    Eval.Accounts base (Machine.Owes base 0 0) Value.IsAnswer
      (fun v => Machine.Owes base v.unshown v.isError.toNat)
      (Eval.watched depth (parseScan found).program scope)
      (Eval.evalNode depth (parseScan found).program scope) := by
  obtain ⟨nodes, hprogram, hnodes⟩ := shaped_parseScan found
  rw [hprogram]
  exact Eval.accounts_watched depth scope hnodes

theorem proper_evaluate {h : Heap} (hh : h.Proper) (found : Lexer.Scan) (depth : Nat)
    (scope : Scope) :
    let evaluation := evaluate depth (parseScan found).program scope h
    evaluation.heap.Proper ∧ (evaluation.ending.Proper ∨
      evaluation.ending.fault?.isSome ∧ ∃ c, (Text.Encoding.surrogate? c).isSome) := by
  obtain ⟨-, hends, -⟩ := accounts_parseScan {} found depth scope { heap := h } hh ⟨rfl, rfl⟩
  unfold evaluate
  cases hresult : Eval.evalNode depth (parseScan found).program scope { heap := h } with
  | ok v m =>
    rw [hresult] at hends
    exact ⟨hends.2, Or.inl hends.1.ending⟩
  | error halt m =>
    rw [hresult] at hends
    obtain ⟨htolerated, hheap⟩ := hends
    cases halt with
    | tooDeep => exact ⟨hheap, Or.inl (.error .tooDeep)⟩
    | untyped => exact htolerated.elim
    | unencodable fault => exact ⟨hheap, Or.inr ⟨rfl, htolerated⟩⟩

theorem Reached.proper {h : Heap} (hh : Reached h) : h.Proper := by
  induction hh with
  | empty => exact Heap.proper_empty
  | opened outer builtins _ ih => exact Heap.Proper.newScope ih outer builtins
  | evaluated found depth scope _ ih => exact (proper_evaluate ih found depth scope).1

/-- In a run of parsed programs nothing but proper values is bound, held, passed, captured or
returned. Each evaluation ends with nothing to show, an error or a proper value, unless it asks for
the bytes of a text with a surrogate in it. -/
theorem evaluate_proper_throughout {heap : Heap} (reached : Reached heap) (found : Lexer.Scan)
    (depth : Nat) (scope : Scope) :
    let program := (parseScan found).program
    let evaluation := evaluate depth program scope heap
    (evaluation.ending.Proper ↔ evaluation.ending.fault? = none) ∧
      ((∀ c, Text.Encoding.surrogate? c = none) → evaluation.ending.Proper) ∧
      heap.Proper ∧ evaluation.heap.Proper ∧
      Eval.watched depth program scope { heap } = Eval.evalNode depth program scope { heap } := by
  have hheap := reached.proper
  obtain ⟨hleft, hending⟩ := proper_evaluate hheap found depth scope
  obtain ⟨hsame, -⟩ := accounts_parseScan {} found depth scope { heap } hheap ⟨rfl, rfl⟩
  refine ⟨⟨Ending.Proper.fault?_eq, fun hnone => ?_⟩, fun hplain => ?_, hheap, hleft, hsame⟩
  · refine hending.resolve_right fun hfault => ?_
    rw [hnone] at hfault
    exact Bool.false_ne_true hfault.1
  · refine hending.resolve_right fun hfault => ?_
    obtain ⟨-, c, hc⟩ := hfault
    rw [hplain c] at hc
    exact Bool.false_ne_true hc

end Reached

theorem evaluate_proper_throughout_branches :
    let scope := (Heap.globalScope {}).1
    let first := Lexer.scan "let f = fn(x) \x7b if (x) \x7b let y = x; \x7d \x7d;"
    let second := Lexer.scan "[f(true), if (f) \x7b \x7d]"
    let heap := (evaluate 20 (parseScan first).program scope (Heap.globalScope {}).2).heap
    let program := (parseScan second).program
    let evaluation := evaluate 20 program scope heap
    Reached heap ∧ evaluation.ending.value?.bind Value.inspect? = some "[null, null]" ∧
      evaluation.ending.Proper ∧ heap.Proper ∧ evaluation.heap.Proper ∧
      Eval.watched 20 program scope { heap } = Eval.evalNode 20 program scope { heap } := by
  intro scope first second heap program evaluation
  have hreached : Reached heap := .evaluated first 20 scope (.opened none Builtin.all .empty)
  have hending : evaluation.ending.value?.bind Value.inspect? = some "[null, null]" := by
    decide +kernel
  obtain ⟨-, hproper, hrest⟩ := evaluate_proper_throughout hreached second 20 scope
  exact ⟨hreached, hending, hproper fun _ => rfl, hrest⟩

theorem length_of_surrogate_not_proper :
    letI : Text.Encoding := ⟨fun c => if c = '\uf8ff' then some 0xdcff else none⟩
    let scope := (Heap.globalScope {}).1
    let program := (parseScan (Lexer.scan "len(\"\uf8ff\")")).program
    let evaluation := evaluate 20 program scope (Heap.globalScope {}).2
    evaluation.ending.fault?.map Text.EncodeFault.message =
      some "'utf-8' codec can't encode character '\\udcff' in position 0: surrogates not allowed" ∧
      ¬ evaluation.ending.Proper := by
  intro scope program evaluation
  have hfault : evaluation.ending.fault?.map Text.EncodeFault.message = some
      "'utf-8' codec can't encode character '\\udcff' in position 0: surrogates not allowed" := by
    decide +kernel
  refine ⟨hfault, fun hproper => ?_⟩
  rw [hproper.fault?_eq] at hfault
  cases hfault

end MonkeyLang

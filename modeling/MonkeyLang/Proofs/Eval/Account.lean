import MonkeyLang.Proofs.Eval.Watched

/-!
The summary of an evaluation and its trace tell the same. A call that is refused is counted and not
shown. The error that says so ends the whole program without a further call, and therefore the two
numbers of calls differ by that one call at most.
-/
namespace MonkeyLang

def Ending.cause? : Ending → Option EvalError
  | result (.error cause) => some cause
  | _ => none

def Evaluation.lines (evaluation : Evaluation) : List String :=
  evaluation.events.map fun event => evaluatorLine event.message

theorem Evaluation.countP_lines (evaluation : Evaluation) :
    evaluation.lines.countP showsCall = evaluation.events.countP Event.isCall := by
  have hshows : (showsCall ∘ fun event : Event => evaluatorLine event.message) = Event.isCall :=
    funext Event.showsCall_line
  rw [Evaluation.lines, List.countP_map, hshows]

theorem Evaluation.countP_complete (ending : Ending) (m : Machine) :
    (Evaluation.complete ending m).events.countP Event.isCall = m.events.countP Event.isCall := by
  unfold Evaluation.complete
  rw [List.countP_reverse]
  exact List.countP_cons_of_neg Bool.false_ne_true

theorem Ending.isSome_cause?_ofValue (v : Value) :
    (Ending.ofValue v).cause?.isSome = v.isError := by
  cases v <;> rfl

theorem Ending.any_cause?_ofValue (v : Value) :
    ((Ending.ofValue v).cause?.any fun cause => saysRefused cause.message).toNat = v.unshown := by
  cases v with
  | error cause => exact congrArg Bool.toNat cause.saysRefused_message
  | _ => rfl

/-- An evaluation counts an error exactly if it ends with one. Unless it was nested too deeply, the
calls that it counts are those that its trace shows, and one more exactly if the error says that a
call was refused. -/
theorem summary_matches_trace [Text.Encoding] {heap : Heap} (reached : Reached heap)
    (found : Lexer.Scan) (depth : Nat) (scope : Scope) :
    let evaluation := evaluate depth (parseScan found).program scope heap
    let cause? := evaluation.ending.cause?
    evaluation.summary.errors = cause?.isSome.toNat ∧
      (cause? ≠ some .tooDeep → evaluation.summary.calls =
        evaluation.lines.countP showsCall +
          (cause?.any fun cause => saysRefused cause.message).toNat) := by
  obtain ⟨-, hends, hleaves⟩ :=
    accounts_parseScan {} found depth scope { heap } reached.proper ⟨rfl, rfl⟩
  simp only [Evaluation.countP_lines]
  unfold evaluate
  cases hresult : Eval.evalNode depth (parseScan found).program scope { heap } with
  | ok v m =>
    rw [hresult] at hleaves
    refine ⟨?_, fun _ => ?_⟩
    · exact hleaves.errors_eq.trans
        ((Nat.zero_add _).trans (congrArg Bool.toNat (Ending.isSome_cause?_ofValue v).symm))
    · rw [Evaluation.countP_complete]
      exact hleaves.calls_eq.trans
        (congrArg₂ _ (Nat.zero_add _) (Ending.any_cause?_ofValue v).symm)
  | error halt m =>
    rw [hresult] at hends hleaves
    cases halt with
    | tooDeep => exact ⟨congrArg (· + 1) hleaves, fun hdeep => absurd rfl hdeep⟩
    | untyped => exact hends.1.elim
    | unencodable fault =>
      refine ⟨hleaves.errors_eq, fun _ => ?_⟩
      rw [List.countP_reverse]
      exact hleaves.calls_eq.trans (congrArg (· + 0) (Nat.zero_add _))

/-- Four calls are shown. The fifth one comes with too few arguments and ends the program. -/
theorem summary_matches_trace_refused :
    let scope := (Heap.globalScope {}).1
    let found := Lexer.scan "let f = fn(x) \x7b len(\"ab\") + x \x7d; f(1); [f(2), f(), f(3)]"
    let evaluation := evaluate 20 (parseScan found).program scope (Heap.globalScope {}).2
    let cause? := evaluation.ending.cause?
    Reached (Heap.globalScope {}).2 ∧ cause? = some (.arity 1 0) ∧
      evaluation.summary = ⟨5, 5, 1⟩ ∧ evaluation.summary.errors = cause?.isSome.toNat ∧
      evaluation.summary.calls = evaluation.lines.countP showsCall +
        (cause?.any fun cause => saysRefused cause.message).toNat := by
  intro scope found
  have hreached : Reached (Heap.globalScope {}).2 := .opened none Builtin.all .empty
  have hcounts := summary_matches_trace hreached found 20 scope
  have hcause :
      (evaluate 20 (parseScan found).program scope (Heap.globalScope {}).2).ending.cause? =
        some (.arity 1 0) := by decide +kernel
  have hsummary : (evaluate 20 (parseScan found).program scope (Heap.globalScope {}).2).summary =
      ⟨5, 5, 1⟩ := by decide +kernel
  -- From here on the evaluation is any one with this summary and this ending.
  generalize evaluate 20 (parseScan found).program scope (Heap.globalScope {}).2 = evaluation at *
  have hdeep : evaluation.ending.cause? ≠ some .tooDeep := by
    rw [hcause]
    decide
  exact ⟨hreached, hcause, hsummary, hcounts.1, hcounts.2 hdeep⟩

end MonkeyLang

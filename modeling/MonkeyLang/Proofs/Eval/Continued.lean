import MonkeyLang.Proofs.Eval.Layers
import MonkeyLang.Proofs.Parser.Joined
import MonkeyLang.Run

/-!
A session can be cut where a statement ends. A program either goes behind all its statements or is
stopped by one of them, by a return or by a failure. In the first case the statements that follow
are evaluated as a program of their own would be in the heap left behind, and the counts add up. In
the second case they are not looked at. With what is known of sources one behind the other, the
same holds of their runs.
-/
namespace MonkeyLang

namespace Eval

open Machine

/-! ### Behind all statements, or stopped -/

section Statements

variable {α : Type} {sub : Sub} {scope : Scope} {depth : Nat} {nodes : List Node}
  {m m' m₀ m₁ : Machine}

theorem Leads.unique {x : Eval α} {a b : α} (h : Leads x m a m') (h' : Leads x m₀ b m₁)
    (htwin : m.Twin m₀) : a = b ∧ m'.Twin m₁ := by
  obtain ⟨m₂, h₂, hx⟩ := h m₀ htwin
  obtain ⟨m₃, h₃, hx'⟩ := h' m₀ (.refl m₀)
  cases hx.symm.trans hx'
  exact ⟨rfl, h₂.trans h₃.symm⟩

theorem Arrives.unique (h : Arrives sub scope (nodes.map .statement) m m')
    (h' : Arrives sub scope (nodes.map .statement) m₀ m₁) (htwin : m.Twin m₀) : m'.Twin m₁ := by
  induction nodes generalizing m m₀ with
  | nil =>
    cases h
    cases h'
    exact htwin
  | cons n nodes ih =>
    cases h with
    | behind hpart _ hparts =>
      cases h' with
      | behind hpart' _ hparts' =>
        exact ih hparts hparts' ((hpart.unique hpart' htwin).2.counted ⟨1, 0, 0⟩)

variable [Text.Encoding]

/-- The evaluation of the statements comes to one that gives a return. -/
def ReturnsFrom (depth : Nat) (scope : Scope) (nodes : List Node) (m : Machine) : Prop :=
  ∃ done n rest v m₁ m₂, nodes = done ++ n :: rest ∧
    Arrives (evalNode depth) scope (done.map .statement) m m₁ ∧
    Leads (evalNode depth n scope) m₁ (.returned v) m₂

theorem Arrives.not_returnsFrom (h : Arrives (evalNode depth) scope (nodes.map .statement) m m') :
    ¬ ReturnsFrom depth scope nodes m := by
  rintro ⟨done, n, rest, v, m₁, m₂, rfl, hdone, hn⟩
  rw [List.map_append] at h
  obtain ⟨m₃, hdone', hrest⟩ := h.split
  cases hrest with
  | behind hpart hpasses _ =>
    obtain ⟨rfl, -⟩ := hpart.unique hn (hdone'.unique hdone (.refl m))
    cases hpasses

theorem ReturnsFrom.behind {n : Node} {v : Value} (hn : Leads (evalNode depth n scope) m v m')
    (hv : v.unwinds = false) (h : ReturnsFrom depth scope nodes (m'.counted ⟨1, 0, 0⟩)) :
    ReturnsFrom depth scope (n :: nodes) m := by
  obtain ⟨done, n', rest, v', m₁, m₂, rfl, hdone, hreturn⟩ := h
  exact ⟨n :: done, n', rest, v', m₁, m₂, rfl, .behind hn hv hdone, hreturn⟩

inductive Fails : EStateM.Result Halt Machine Value → Prop
  | error (cause : EvalError) (m : Machine) : Fails (.ok (.error cause) m)
  | halt (halt : Halt) (m : Machine) : Fails (.error halt m)

omit [Text.Encoding] in
theorem Fails.programFrom_cons {n : Node} {rest : List Node} {number : Nat} {result : Value}
    (h : Fails (sub n scope (m.recorded (.statement number n.formName)))) :
    Fails (programFrom sub scope number result (n :: rest) m) := by
  change Fails (EStateM.bind (sub n scope) _ (m.recorded (.statement number n.formName)))
  unfold EStateM.bind
  generalize sub n scope (m.recorded (.statement number n.formName)) = r at h
  cases h with
  | error cause m₁ => exact .error cause _
  | halt halt m₁ => exact .halt halt m₁

/-- A program that does not go behind all its statements and comes to no return fails. -/
theorem programFrom_cases (depth : Nat) (scope : Scope) (nodes : List Node) (htwin : m.Twin m₀)
    (number : Nat) (result : Value) :
    (∃ m', Arrives (evalNode depth) scope (nodes.map .statement) m m') ∨
      ReturnsFrom depth scope nodes m ∨
      Fails (programFrom (evalNode depth) scope number result nodes m₀) := by
  induction nodes generalizing m m₀ number result with
  | nil => exact Or.inl ⟨m, .here m⟩
  | cons n nodes ih =>
    cases hn : evalNode depth n scope (m₀.recorded (.statement number n.formName)) with
    | error halt m₁ =>
      have hfails := Fails.halt halt m₁
      rw [← hn] at hfails
      exact Or.inr (Or.inr hfails.programFrom_cons)
    | ok v m₁ =>
      have hleads : Leads (evalNode depth n scope) m v m₁ := by
        intro m₂ h₂
        have h₃ := htwin.symm.trans h₂
        exact leads_evalNode hn m₂ ⟨h₃.heap, h₃.summary⟩
      cases hunwinds : v.unwinds with
      | false =>
        rw [programFrom_cons_of_ok hn hunwinds]
        rcases ih (.refl (m₁.counted ⟨1, 0, 0⟩)) (number + 1) v with
          ⟨m', harrives⟩ | hreturns | hfails
        · exact Or.inl ⟨m', .behind hleads hunwinds harrives⟩
        · exact Or.inr (Or.inl (hreturns.behind hleads hunwinds))
        · exact Or.inr (Or.inr hfails)
      | true =>
        cases v with
        | returned inner => exact Or.inr (Or.inl ⟨[], n, nodes, inner, m, m₁, rfl, .here m, hleads⟩)
        | error cause =>
          have hfails := Fails.error cause m₁
          rw [← hn] at hfails
          exact Or.inr (Or.inr hfails.programFrom_cons)
        | _ => cases hunwinds

end Statements

/-! ### Evaluations -/

section Evaluations

variable [Text.Encoding] {scope : Scope} {depth : Nat} {ns ms : List Node} {heap heap' : Heap}
  {base base' : Summary} {m m' : Machine} {v v' : Value}

theorem sameResult_programFrom (h : Tallies base base' m m') (depth : Nat) (scope : Scope)
    (number number' : Nat) (result : Value) (nodes : List Node) :
    SameResult base base' (programFrom (evalNode depth) scope number result nodes m)
      (programFrom (evalNode depth) scope number' result nodes m') := by
  have hnodes : List.Forall₂ ((tallied base base').nodes scope) nodes nodes :=
    List.forall₂_same.mpr fun _ _ => rfl
  have hresult : (tallied base base').values ⟨⟩ result result := result.matches_self fun _ _ => rfl
  exact sameResult_of_ends (Link.related_programFrom (subRelated_tallied base base' depth) rfl
    hnodes hresult number number' m m' h)

theorem SameResult.evaluate {n n' : Node}
    (h : SameResult base base' (evalNode depth n scope { heap })
      (evalNode depth n' scope { heap := heap' })) :
    let first := evaluate depth n scope heap
    let second := evaluate depth n' scope heap'
    first.ending = second.ending ∧ first.heap = second.heap ∧
      ∃ k, first.summary = base.plus k ∧ second.summary = base'.plus k := by
  unfold MonkeyLang.evaluate
  generalize evalNode depth n scope { heap } = r at h
  generalize evalNode depth n' scope { heap := heap' } = r' at h
  cases h with
  | ok hm => exact ⟨rfl, hm⟩
  | @halt halt m m' hm =>
    cases halt with
    | untyped | unencodable fault => exact ⟨rfl, hm⟩
    | tooDeep =>
      obtain ⟨hheap, k, hk, hk'⟩ := hm
      refine ⟨rfl, hheap, k.plus ⟨0, 0, 1⟩, ?_, ?_⟩
      · simp [Evaluation.complete, hk, Summary.plus, Nat.add_assoc]
      · simp [Evaluation.complete, hk', Summary.plus, Nat.add_assoc]

theorem evalNode_program (depth : Nat) (ns : List Node) (scope : Scope) (m : Machine) :
    ∃ m₀, m.Twin m₀ ∧ evalNode (depth + 1) (.program ns) scope m =
      programFrom (evalNode depth) scope 1 .emptyMark ns m₀ :=
  ⟨(m.recorded (.programNode ns.length)).recorded (.programStart ns.length), ⟨rfl, rfl⟩, rfl⟩

theorem sameResult_of_not_arrives
    (h : ¬ ∃ m', Arrives (evalNode depth) scope (ns.map .statement) { heap } m') (ms : List Node) :
    SameResult {} {} (evalNode (depth + 1) (.program (ns ++ ms)) scope { heap })
      (evalNode (depth + 1) (.program ns) scope { heap }) := by
  obtain ⟨m₀, h₀, hboth⟩ := evalNode_program depth (ns ++ ms) scope { heap }
  obtain ⟨m₁, h₁, hone⟩ := evalNode_program depth ns scope { heap }
  have hsame : SameFrom { heap } (programFrom (evalNode depth) scope 1 .emptyMark (ns ++ ms))
      (programFrom (evalNode depth) scope 1 .emptyMark (ns ++ [])) :=
    sameFrom_programFrom (fun n => steady_evalNode depth n scope)
      (fun m' hm' => absurd ⟨m', hm'⟩ h) 1 .emptyMark
  rw [hboth, hsame m₀ h₀, List.append_nil, hone]
  have htallies := tallies_iff_twin.mpr (h₀.symm.trans h₁)
  exact sameResult_programFrom htallies depth scope 1 1 .emptyMark ns

theorem Arrives.evaluate (h : Arrives (evalNode depth) scope (ns.map .statement) { heap } m') :
    ∃ v, v.unwinds = false ∧ (evaluate (depth + 1) (.program ns) scope heap).ending = .ofValue v ∧
      (evaluate (depth + 1) (.program ns) scope heap).heap = m'.heap ∧
      (evaluate (depth + 1) (.program ns) scope heap).summary = m'.summary := by
  obtain ⟨m₀, h₀, hone⟩ := evalNode_program depth ns scope { heap }
  obtain ⟨u, m₁, h₁, hgoes, happend⟩ := h.programFrom_append h₀ 1 .emptyMark
  have hend := happend []
  rw [List.append_nil, ← hone] at hend
  refine ⟨u, hgoes rfl, ?_⟩
  unfold MonkeyLang.evaluate
  rw [hend]
  exact ⟨rfl, h₁.heap.symm, h₁.summary.symm⟩

theorem Arrives.sameResult (h : Arrives (evalNode depth) scope (ns.map .statement) { heap } m')
    (hms : ms ≠ []) :
    SameResult m'.summary {} (evalNode (depth + 1) (.program (ns ++ ms)) scope { heap })
      (evalNode (depth + 1) (.program ms) scope { heap := m'.heap }) := by
  obtain ⟨m₀, h₀, hboth⟩ := evalNode_program depth (ns ++ ms) scope { heap }
  obtain ⟨m₁, h₁, htwo⟩ := evalNode_program depth ms scope { heap := m'.heap }
  obtain ⟨u, m₂, h₂, -, happend⟩ := h.programFrom_append h₀ 1 .emptyMark
  have htallies : Tallies m'.summary {} m₂ m₁ :=
    ⟨h₂.heap.symm.trans h₁.heap, {}, by simp [h₂.summary], by simp [← h₁.summary]⟩
  -- The value of the statements before is forgotten, for there is another statement.
  have hfirst : programFrom (evalNode depth) scope (1 + ns.length) u ms m₂ =
      programFrom (evalNode depth) scope (1 + ns.length) .emptyMark ms m₂ := by
    obtain ⟨n, ms, rfl⟩ := List.exists_cons_of_ne_nil hms
    rfl
  rw [hboth, happend, hfirst, htwo]
  exact sameResult_programFrom htallies depth scope (1 + ns.length) 1 .emptyMark ms

theorem Fails.toResult {n : Node} (h : Fails (evalNode depth n scope { heap }))
    (filename : String) :
    ∃ fault, (evaluate depth n scope heap).ending.toResult filename = .error fault := by
  unfold MonkeyLang.evaluate
  generalize evalNode depth n scope { heap } = r at h
  cases h with
  | error cause m => exact ⟨_, rfl⟩
  | halt halt m => cases halt <;> exact ⟨_, rfl⟩

omit [Text.Encoding] in
theorem toResult_ofValue (hv : v.unwinds = false) (filename : String) :
    ∃ shown, (Ending.ofValue v).toResult filename = .ok shown := by
  cases v with
  | returned inner | error cause => cases hv
  | _ => exact ⟨_, rfl⟩

end Evaluations

end Eval

open Eval

def ReturnsAtTop [Text.Encoding] (depth : Nat) (nodes : List Node) (scope : Scope) (heap : Heap) :
    Prop :=
  ∃ inner, depth = inner + 1 ∧ ReturnsFrom inner scope nodes { heap }

/-- Two programs one behind the other: the second one is evaluated in the heap that the first one
leaves behind, or the first one has stopped both. -/
theorem evaluate_append [Text.Encoding] {ns ms : List Node} (hms : ms ≠ []) (depth : Nat)
    (filename : String) (scope : Scope) (heap : Heap) :
    let one := evaluate depth (.program ns) scope heap
    let two := evaluate depth (.program ms) scope one.heap
    let both := evaluate depth (.program (ns ++ ms)) scope heap
    ((∃ shown, one.ending.toResult filename = .ok shown) ∧ ¬ ReturnsAtTop depth ns scope heap ∧
      both.ending = two.ending ∧ both.heap = two.heap ∧
      both.summary = one.summary.plus two.summary) ∨
    (((∃ fault, one.ending.toResult filename = .error fault) ∨ ReturnsAtTop depth ns scope heap) ∧
      both.ending = one.ending ∧ both.heap = one.heap ∧ both.summary = one.summary) := by
  intro one two both
  cases depth with
  | zero => exact Or.inr ⟨Or.inl ⟨_, rfl⟩, rfl, rfl, rfl⟩
  | succ depth =>
    by_cases harrives : ∃ m, Arrives (evalNode depth) scope (ns.map .statement) { heap } m
    · obtain ⟨m, harrives⟩ := harrives
      obtain ⟨v, hv, hending, hheap, hsummary⟩ := harrives.evaluate
      have hsame := harrives.sameResult hms
      rw [← hheap, ← hsummary] at hsame
      obtain ⟨hendings, hheaps, k, hk, hk'⟩ := hsame.evaluate
      refine Or.inl ⟨?_, ?_, hendings, hheaps, ?_⟩
      · simp only [one, hending]
        exact toResult_ofValue hv filename
      · rintro ⟨inner, hinner, hreturns⟩
        cases hinner
        exact harrives.not_returnsFrom hreturns
      · simp only [one, two, both, hk, hk', Summary.zero_plus]
    · obtain ⟨hendings, hheaps, k, hk, hk'⟩ := (sameResult_of_not_arrives harrives ms).evaluate
      refine Or.inr ⟨?_, hendings, hheaps, hk.trans hk'.symm⟩
      obtain ⟨m₀, h₀, hone⟩ := evalNode_program depth ns scope { heap }
      rcases programFrom_cases depth scope ns h₀ 1 .emptyMark with hall | hreturns | hfails
      · exact absurd hall harrives
      · exact Or.inr ⟨depth, rfl, hreturns⟩
      · rw [← hone] at hfails
        exact Or.inl (hfails.toResult filename)

theorem run_of_parse [Text.Alphabet] [Text.Encoding] {source : String} {program : Node}
    (h : parse source = .ok { program, diagnostics := [] }) (depth : Nat) (filename : String)
    (scope : Scope) (heap : Heap) :
    let evaluation := evaluate depth program scope heap
    run depth source filename scope heap =
      { evaluation with result := evaluation.ending.toResult filename } := by
  have hclean : parseClean source filename = .ok program := by
    rw [parseClean, h]
    rfl
  rw [run, hclean]

/-- A session can be cut where a statement ends. Behind a finished source another one is read as if
it stood alone, with its diagnostics moved. Run together, the sources give what they give one after
the other, and the counts add up; if the first one fails or returns, they give what it gives. -/
theorem session_cut_at_statement_end [Text.Alphabet] [Text.Encoding] {first second : String}
    {parsed : Parsed} (h : Finished first parsed) (hsecond : Lexer.Readable second.toList) :
    ∃ ns ms reports, parsed.program = .program ns ∧
      parse second = .ok { program := .program ms, diagnostics := reports } ∧
      parse (first ++ second) =
        .ok { program := .program (ns ++ ms)
              diagnostics := reports.map (Diagnostic.behind first.toList) } ∧
      (reports = [] → ms ≠ [] → ∀ depth filename scope heap,
        let one := run depth first filename scope heap
        let two := run depth second filename scope one.heap
        let both := run depth (first ++ second) filename scope heap
        ((∃ shown, one.result = .ok shown) → ¬ ReturnsAtTop depth ns scope heap →
          both.result = two.result ∧ both.heap = two.heap ∧
            both.summary = one.summary.plus two.summary) ∧
        ((∃ fault, one.result = .error fault) ∨ ReturnsAtTop depth ns scope heap →
          both.result = one.result ∧ both.heap = one.heap ∧ both.summary = one.summary)) := by
  obtain ⟨ns, ms, reports, hprogram, hparse, hjoined⟩ := h.parse_append hsecond
  refine ⟨ns, ms, reports, hprogram, hparse, hjoined, ?_⟩
  rintro rfl hms depth filename scope heap
  have hfirst : parse first = .ok { program := .program ns, diagnostics := [] } := by
    rw [h.parse_eq, ← hprogram, ← h.clean]
  simp only [run_of_parse hfirst, run_of_parse hparse, run_of_parse hjoined]
  rcases evaluate_append hms depth filename scope heap with
    ⟨⟨shown, hshown⟩, hreturns, hending, hheap, hsummary⟩ | ⟨hstops, hending, hheap, hsummary⟩
  · refine ⟨fun _ _ => ⟨congrArg (Ending.toResult filename) hending, hheap, hsummary⟩, ?_⟩
    rintro (⟨fault, hfault⟩ | hreturns')
    · cases hshown.symm.trans hfault
    · exact absurd hreturns' hreturns
  · refine ⟨?_, fun _ => ⟨congrArg (Ending.toResult filename) hending, hheap, hsummary⟩⟩
    rintro ⟨shown, hshown⟩ hreturns
    rcases hstops with ⟨fault, hfault⟩ | hreturns'
    · cases hshown.symm.trans hfault
    · exact absurd hreturns' hreturns

/-- A function is bound in one source and called in the next one. Behind a return the call is not
looked at. -/
theorem session_cut_at_statement_end_call :
    let scope := (Heap.globalScope {}).1
    let heap := (Heap.globalScope {}).2
    let bound := "let x = 1;\nlet f = fn(n) \x7b n + x; \x7d;"
    let one := run 10 bound "" scope heap
    let two := run 10 " f(x)" "" scope one.heap
    let both := run 10 (bound ++ " f(x)") "" scope heap
    let early := run 10 "return 5;" "" scope heap
    let late := run 10 ("return 5;" ++ " f(x)") "" scope heap
    Lexer.Readable " f(x)".toList ∧
      (∃ parsed, Finished bound parsed) ∧ two.result = .ok (some (.integer 2)) ∧
      both.result = two.result ∧ both.heap = two.heap ∧
      both.summary = one.summary.plus two.summary ∧
      (∃ parsed, Finished "return 5;" parsed) ∧ early.result = .ok (some (.integer 5)) ∧
      late.result = early.result ∧ late.heap = early.heap ∧ late.summary = early.summary := by
  have hreadable : Lexer.Readable " f(x)".toList := by
    intro run hrun _
    exact Nat.le_trans hrun.length_le (by decide)
  have hcall : parse " f(x)" = .ok
      { program := .program [.expression (.call (.identifier "f") [.identifier "x"])]
        diagnostics := [] } := by rfl
  have hbound : Finished "let x = 1;\nlet f = fn(n) \x7b n + x; \x7d;"
      { program := .program [.letBind "x" (.integer 1), .letBind "f" (.function ["n"]
          (.block [.expression (.infixOp (.identifier "n") .plus (.identifier "x"))]))]
        diagnostics := [] } := ⟨rfl, rfl, ⟨_, rfl, rfl⟩, rfl⟩
  have hreturning : Finished "return 5;"
      { program := .program [.returning (.integer 5)], diagnostics := [] } :=
    ⟨rfl, rfl, ⟨_, rfl, rfl⟩, rfl⟩
  have htwo : (run 10 " f(x)" "" (Heap.globalScope {}).1
      (run 10 "let x = 1;\nlet f = fn(n) \x7b n + x; \x7d;" "" (Heap.globalScope {}).1
        (Heap.globalScope {}).2).heap).result = .ok (some (.integer 2)) := by rfl
  have hearly : (run 10 "return 5;" "" (Heap.globalScope {}).1 (Heap.globalScope {}).2).result =
      .ok (some (.integer 5)) := by rfl
  intro scope heap bound one two both early late
  obtain ⟨ns, ms, reports, hns, hms, -, hruns⟩ := session_cut_at_statement_end hbound hreadable
  obtain ⟨ns', ms', reports', hns', hms', -, hruns'⟩ :=
    session_cut_at_statement_end hreturning hreadable
  cases hns
  cases hns'
  cases hcall.symm.trans hms
  cases hcall.symm.trans hms'
  have hnoReturn : ¬ ReturnsAtTop 10 [.letBind "x" (.integer 1), .letBind "f" (.function ["n"]
      (.block [.expression (.infixOp (.identifier "n") .plus (.identifier "x"))]))] scope heap := by
    rintro ⟨inner, hinner, hreturns⟩
    cases hinner
    refine Arrives.not_returnsFrom (.behind (leads_evalNode rfl) ?_ (.behind (leads_evalNode rfl) ?_
      (.here _))) hreturns <;> rfl
  have hreturn : ReturnsAtTop 10 [.returning (.integer 5)] scope heap :=
    ⟨9, rfl, [], _, [], .integer 5, { heap }, _, rfl, .here _, leads_evalNode rfl⟩
  have hgoesOn := (hruns rfl (by simp) 10 "" scope heap).1 ⟨_, rfl⟩ hnoReturn
  have hstops := (hruns' rfl (by simp) 10 "" scope heap).2 (Or.inr hreturn)
  exact ⟨hreadable, ⟨_, hbound⟩, htwo, hgoesOn.1, hgoesOn.2.1, hgoesOn.2.2, ⟨_, hreturning⟩,
    hearly, hstops⟩

end MonkeyLang

import MonkeyLang.Proofs.Eval.Renaming
import MonkeyLang.Proofs.RoundTrip
import MonkeyLang.Run

/-!
The printed form of a program means what the program means. It is read as the same program with
other parentheses, and parentheses change nothing but the depth of nesting: the two evaluations end
alike in every scope of every heap, unless one of them is nested too deeply.
-/
namespace MonkeyLang

open Eval

inductive Ending.ShownAlike (h h' : Heap) : Ending → Ending → Prop
  | nothing : ShownAlike h h' .nothing .nothing
  | result {v v' : Value} (hv : MonkeyLang.ShownAlike h h' v v') :
      ShownAlike h h' (.result v) (.result v')
  | untyped : ShownAlike h h' .untyped .untyped
  | unencodable (fault : Text.EncodeFault) :
      ShownAlike h h' (.unencodable fault) (.unencodable fault)

theorem parse_regrouped [Text.Alphabet] {source : String} {parsed : Parsed}
    (h : parse source = .ok parsed) (hclean : parsed.diagnostics = []) :
    ∃ ns, parsed.program = .program ns ∧ Shaped (.statements ns) ∧
      parse parsed.program.source =
        .ok { program := .program (Node.regroupedAll ns), diagnostics := [] } := by
  obtain ⟨ns, hprogram, ⟨taken, missing, htaken, -, -, hwritten⟩, -⟩ := takes_of_parse h hclean
  have hshaped : Shaped (.statements ns) := by
    obtain ⟨ns', hns', hshaped⟩ := shaped_parseScan (Lexer.scan source)
    rw [(parse_eq_ok.mp h).2, hprogram] at hns'
    cases hns'
    exact hshaped
  have hlexed : ∀ l ∈ taken.map Token.lexeme ++
      List.replicate missing TokenKind.rightBrace.lexeme, l.Lexed := by
    have htokens := (supplies_ofScan source).lexed
    rw [htaken, List.append_nil] at htokens
    refine List.forall_mem_append.mpr ⟨List.forall_mem_map.mpr htokens, fun l hl => ?_⟩
    rw [List.eq_of_mem_replicate hl]
    rfl
  obtain ⟨-, ls, hls, hspells⟩ := hwritten.reprints hlexed
  have hsource : parsed.program.source = (Phrase.statements ns).text := by
    rw [hprogram, Node.source, Phrase.text]
  obtain ⟨hoversized, htokens⟩ := hspells.scan
  rw [← hsource] at hoversized htokens
  rw [← htokens] at hls
  have hholds := holds_ofScan hls (Lexer.scanWithin_ending _ _)
  obtain ⟨t, hread, -⟩ := accepts_program hls (Node.allGraded_regroupedAll ns) _ hholds
  exact ⟨ns, hprogram, hshaped, parse_eq_ok.mpr ⟨hoversized, Parser.parseScan_of_reads hread⟩⟩

section Evaluate

variable {n n' : Node} {scope : Scope} {heap : Heap} {depth depth' : Nat}

theorem shownAlike_ofValue {ρ : Renaming} {h h' : Heap} {v v' : Value} (hh : ρ.Heaps h h')
    (hv : v.Matches ρ.closures v') : Ending.ShownAlike h h' (.ofValue v) (.ofValue v') := by
  have hshown := hh.shownAlike hv
  cases hv with
  | letMark | emptyMark => exact .nothing
  | _ => exact .result hshown

theorem evaluate_shownAlike [Text.Encoding] (hsame : n.Same n')
    (h : ¬ TooDeep (evalNode depth n scope { heap }))
    (h' : ¬ TooDeep (evalNode depth' n' scope { heap })) :
    let first := evaluate depth n scope heap
    let second := evaluate depth' n' scope heap
    Ending.ShownAlike first.heap second.heap first.ending second.ending ∧
      scope.display first.heap = scope.display second.heap ∧ first.summary = second.summary := by
  have hscopes : (Renaming.on fun _ => True).scopes scope scope :=
    Renaming.scopes_on fun _ _ => trivial
  have hheaps : (Renaming.on fun _ => True).Heaps heap heap :=
    Renaming.heaps_on (fun _ _ => .inr rfl) (fun _ _ => rfl) fun _ _ _ _ _ _ _ _ => trivial
  have hends := subRelated_renamed {} {} depth depth' _ scope scope n n' hscopes hsame
    { heap } { heap } ⟨hheaps, {}, rfl, rfl⟩
  unfold evaluate
  generalize evalNode depth n scope { heap } = r,
    evalNode depth' n' scope { heap } = r' at hends h h'
  cases hends with
  | ok hle hs hv =>
    obtain ⟨hheaps, k, hk, hk'⟩ := hs
    have hdisplay := hheaps.display_eq (Renaming.scopes_mono hle hscopes)
    exact ⟨shownAlike_ofValue hheaps hv, hdisplay, hk.trans hk'.symm⟩
  | @halt _ halt _ _ hle hs =>
    obtain ⟨hheaps, k, hk, hk'⟩ := hs
    have hdisplay := hheaps.display_eq (Renaming.scopes_mono hle hscopes)
    cases halt with
    | tooDeep => exact absurd ⟨_, rfl⟩ h
    | untyped => exact ⟨.untyped, hdisplay, hk.trans hk'.symm⟩
    | unencodable fault => exact ⟨.unencodable fault, hdisplay, hk.trans hk'.symm⟩
  | left _ => exact absurd ⟨_, rfl⟩ h
  | right _ => exact absurd ⟨_, rfl⟩ h'

end Evaluate

/-- Unless it is nested too deeply, the printed form of a program that was read without diagnostics
gives the same dump or the same error as the program, leaves a scope that prints alike, and counts
the same, wherever it is evaluated. -/
theorem evaluate_reprinted [Text.Encoding] [Text.Alphabet] {source : String} {parsed : Parsed}
    (h : parse source = .ok parsed) (hclean : parsed.diagnostics = []) :
    ∃ again, parse parsed.program.source = .ok again ∧ again.diagnostics = [] ∧
      ∀ (depth depth' : Nat) (scope : Scope) (heap : Heap),
        ¬ TooDeep (evalNode depth parsed.program scope { heap }) →
        ¬ TooDeep (evalNode depth' again.program scope { heap }) →
        let first := evaluate depth parsed.program scope heap
        let second := evaluate depth' again.program scope heap
        Ending.ShownAlike first.heap second.heap first.ending second.ending ∧
          scope.display first.heap = scope.display second.heap ∧
          first.summary = second.summary := by
  obtain ⟨ns, hprogram, hshaped, hagain⟩ := parse_regrouped h hclean
  have hsame : parsed.program.Same (.program (Node.regroupedAll ns)) := by
    rw [hprogram]
    exact .form (.program (Node.forall₂_regroupedAll hshaped.regroups))
  exact ⟨_, hagain, rfl, fun _ _ _ _ => evaluate_shownAlike hsame⟩

theorem evaluate_reprinted_call :
    let source := "let r = y + (fn(x) { ((x + 1)) * -(2) })(3); [r, fn() { (r) }]"
    let scope := (Heap.globalScope {}).1
    let heap := (Heap.globalScope {}).2.set scope "y" (.integer 50)
    ∃ parsed again, parse source = .ok parsed ∧ parsed.diagnostics = [] ∧
      parse parsed.program.source = .ok again ∧ again.diagnostics = [] ∧
      ¬ TooDeep (evalNode 20 parsed.program scope { heap }) ∧
      ¬ TooDeep (evalNode 20 again.program scope { heap }) ∧
      parsed.program.source =
        "let r = (y + fn(x) { ((x + 1) * (-2)) }(3)); [r, fn() { r }]" ∧
      let first := evaluate 20 parsed.program scope heap
      let second := evaluate 20 again.program scope heap
      Ending.ShownAlike first.heap second.heap first.ending second.ending ∧
        scope.display first.heap = scope.display second.heap ∧
        first.summary = second.summary := by
  let program : Node := .program
    [.letBind "r" (.infixOp (.identifier "y") .plus (.call (.grouped (.function ["x"]
      (.block [.expression (.infixOp (.grouped (.grouped (.infixOp (.identifier "x") .plus
        (.integer 1)))) .star (.prefixOp .minus (.grouped (.integer 2))))])))
      [.integer 3])),
    .expression (.array [.identifier "r", .function [] (.block [.expression
      (.grouped (.identifier "r"))])])]
  let printed : Node := .program
    [.letBind "r" (.grouped (.infixOp (.identifier "y") .plus (.call (.function ["x"]
      (.block [.expression (.grouped (.infixOp (.grouped (.infixOp (.identifier "x") .plus
        (.integer 1))) .star (.grouped (.prefixOp .minus (.integer 2)))))]))
      [.integer 3]))),
    .expression (.array [.identifier "r", .function [] (.block [.expression
      (.identifier "r")])])]
  have h : parse "let r = y + (fn(x) \x7b ((x + 1)) * -(2) \x7d)(3); [r, fn() \x7b (r) \x7d]" =
      .ok { program, diagnostics := [] } := by rfl
  have hprinted : parse "let r = (y + fn(x) \x7b ((x + 1) * (-2)) \x7d(3)); [r, fn() \x7b r \x7d]" =
      .ok { program := printed, diagnostics := [] } := by rfl
  have hdeep : ¬ TooDeep (evalNode 20 program (Heap.globalScope {}).1
      { heap := (Heap.globalScope {}).2.set (Heap.globalScope {}).1 "y" (.integer 50) }) := by
    decide +kernel
  have hdeep' : ¬ TooDeep (evalNode 20 printed (Heap.globalScope {}).1
      { heap := (Heap.globalScope {}).2.set (Heap.globalScope {}).1 "y" (.integer 50) }) := by
    decide +kernel
  intro source scope heap
  obtain ⟨again, hagain, hclean, hmeans⟩ := evaluate_reprinted h rfl
  cases hagain.symm.trans hprinted
  exact ⟨_, _, h, rfl, hagain, hclean, hdeep, hdeep', rfl, hmeans 20 20 scope heap hdeep hdeep'⟩

end MonkeyLang

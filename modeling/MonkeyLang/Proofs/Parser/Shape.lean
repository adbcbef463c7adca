import MonkeyLang.Proofs.Parser.Reads
import MonkeyLang.Proofs.Syntax.Written

/-!
What the parser builds, whether or not it reports anything: expressions stand where expressions
belong, statements where statements belong, and a parser that gives no value has reported why. One
contract says both, and one pass over the grammar proves it.
-/
namespace MonkeyLang

inductive Shaped : Phrase → Prop
  | identifier (name : String) : Shaped (.expression (.identifier name))
  | integer (value : Int) : Shaped (.expression (.integer value))
  | text (value : String) : Shaped (.expression (.text value))
  | boolean (value : Bool) : Shaped (.expression (.boolean value))
  | prefixOp (operator : Operator) {right : Node} (hright : Shaped (.expression right)) :
      Shaped (.expression (.prefixOp operator right))
  | infixOp {left : Node} (operator : Operator) {right : Node} (hleft : Shaped (.expression left))
      (hright : Shaped (.expression right)) : Shaped (.expression (.infixOp left operator right))
  | grouped {inner : Node} (hinner : Shaped (.expression inner)) :
      Shaped (.expression (.grouped inner))
  | conditional {condition consequence : Node} (hcondition : Shaped (.expression condition))
      (hconsequence : Shaped (.block consequence)) :
      Shaped (.expression (.conditional condition consequence .hole))
  | conditionalElse {condition consequence alternative : Node}
      (hcondition : Shaped (.expression condition)) (hconsequence : Shaped (.block consequence))
      (halternative : Shaped (.block alternative)) :
      Shaped (.expression (.conditional condition consequence alternative))
  | function (parameters : List String) {body : Node} (hbody : Shaped (.block body)) :
      Shaped (.expression (.function parameters body))
  | call {callee : Node} {arguments : List Node} (hcallee : Shaped (.expression callee))
      (harguments : ∀ n ∈ arguments, Shaped (.expression n)) :
      Shaped (.expression (.call callee arguments))
  | array {elements : List Node} (helements : ∀ n ∈ elements, Shaped (.expression n)) :
      Shaped (.expression (.array elements))
  | index {collection position : Node} (hcollection : Shaped (.expression collection))
      (hposition : Shaped (.expression position)) :
      Shaped (.expression (.index collection position))
  | mapping {entries : List (Node × Node)} (hentries : ∀ e ∈ entries, Shaped (.entry e.1 e.2)) :
      Shaped (.expression (.mapping entries))
  | entry {key value : Node} (hkey : Shaped (.expression key))
      (hvalue : Shaped (.expression value)) : Shaped (.entry key value)
  | letBind (name : String) {value : Node} (hvalue : Shaped (.expression value)) :
      Shaped (.statement (.letBind name value))
  | returning {value : Node} (hvalue : Shaped (.expression value)) :
      Shaped (.statement (.returning value))
  | expression {inner : Node} (hinner : Shaped (.expression inner)) :
      Shaped (.statement (.expression inner))
  | statements {nodes : List Node} (hnodes : ∀ n ∈ nodes, Shaped (.statement n)) :
      Shaped (.statements nodes)
  | block {nodes : List Node} (hnodes : Shaped (.statements nodes)) : Shaped (.block (.block nodes))

theorem Shaped.forall_mem {nodes : List Node} (h : Shaped (.statements nodes)) :
    ∀ n ∈ nodes, Shaped (.statement n) := by
  cases h with
  | statements hnodes => exact hnodes

namespace Parser

variable {α β σ : Type} {good : α → Prop} {sub : Sub}

/-- Whatever the stream, the parser gives a good value, or none and a report. -/
def Yields (p : Parser α) (good : α → Prop) : Prop :=
  ∀ s, ((p s).value = none → (p s).reports ≠ []) ∧ ∀ a ∈ (p s).value, good a

/-! ### Combinators -/

theorem yields_pure {a : α} (h : good a) : Yields (pure a) good := by
  refine fun s => ⟨nofun, ?_⟩
  rintro _ ⟨⟩
  exact h

theorem yields_next : Yields next fun _ => True := fun _ => ⟨nofun, fun _ _ => trivial⟩

theorem yields_take : Yields take fun _ => True := fun _ => ⟨nofun, fun _ _ => trivial⟩

theorem yields_skipOptional (kind : TokenKind) : Yields (skipOptional kind) fun _ => True :=
  fun _ => ⟨nofun, fun _ _ => trivial⟩

theorem yields_refuse (fault : Fault) : Yields (refuse fault) good :=
  fun _ => ⟨fun _ => nofun, nofun⟩

theorem yields_expect (kind : TokenKind) : Yields (expect kind) fun _ => True := by
  intro s
  by_cases hkind : s.next.kind = kind <;> simp [expect, hkind]

theorem Yields.attempt {p : Parser α} (h : Yields p good) :
    Yields (attempt p) fun o => ∀ a ∈ o, good a := by
  refine fun s => ⟨nofun, ?_⟩
  rintro _ ⟨⟩
  exact (h s).2

theorem Yields.bind {good' : β → Prop} {p : Parser α} {k : α → Parser β} (hp : Yields p good)
    (hk : ∀ a, good a → Yields (k a) good') : Yields (p >>= k) good' := by
  intro s
  cases hvalue : (p s).value with
  | none =>
    rw [bind_of_none hvalue]
    exact ⟨fun _ => (hp s).1 hvalue, nofun⟩
  | some a =>
    rw [bind_of_some hvalue]
    obtain ⟨hloud, hgood⟩ := hk a ((hp s).2 a hvalue) (p s).rest
    refine ⟨fun hnone hreports => ?_, hgood⟩
    exact hloud hnone (List.append_eq_nil_iff.mp hreports).2

theorem yields_loop {invariant : σ → Prop} {step : σ → Parser (σ ⊕ α)}
    (hstep : ∀ state, invariant state → Yields (step state) (Sum.elim invariant good)) {state : σ}
    (h : invariant state) : Yields (loop step state) good := by
  have hwithin : ∀ bound state, invariant state → Yields (loopWithin bound step state) good := by
    intro bound
    induction bound with
    | zero => exact fun _ _ => yields_refuse .noRule
    | succ bound ih =>
      intro state hstate
      refine (hstep state hstate).bind fun result hresult => ?_
      cases result with
      | inl state' => exact ih state' hresult
      | inr a => exact yields_pure hresult
  exact fun s => hwithin (s.pending.length + 1) state h s

theorem Yields.reads {p : Parser α} (h : Yields p good) {s : Stream} (hclean : (p s).reports = []) :
    ∃ a t, Reads p s a t := by
  unfold Reads
  rcases hp : p s with ⟨value, rest, reports⟩
  rw [hp] at hclean
  obtain rfl : reports = [] := hclean
  cases value with
  | none =>
    have hloud := (h s).1
    rw [hp] at hloud
    exact absurd rfl (hloud rfl)
  | some a => exact ⟨a, rest, rfl⟩

/-! ### Lists, statements and blocks -/

theorem yields_listOf {item : Parser α} (hitem : Yields item good) (close : TokenKind) :
    Yields (listOf item close) fun items => ∀ a ∈ items, good a := by
  have hstep : ∀ items, (∀ a ∈ items, good a) → Yields (listStep item items)
      (Sum.elim (fun items => ∀ a ∈ items, good a) fun items => ∀ a ∈ items, good a) := by
    intro items hitems
    refine yields_next.bind fun t _ => ?_
    split
    · refine yields_take.bind fun _ _ => hitem.bind fun a ha => yields_pure ?_
      intro b hb
      rcases List.mem_append.mp hb with hb | hb
      · exact hitems b hb
      · exact List.mem_singleton.mp hb ▸ ha
    · exact yields_pure hitems
  refine yields_next.bind fun t _ => ?_
  split
  · exact yields_take.bind fun _ _ => yields_pure nofun
  · refine hitem.bind fun a ha => ?_
    refine (yields_loop hstep fun b hb => List.mem_singleton.mp hb ▸ ha).bind fun items hitems => ?_
    exact (yields_expect close).bind fun _ _ => yields_pure hitems

theorem yields_bracketed {item : Parser α} (hitem : Yields item good) (close : TokenKind) :
    Yields (bracketed item close) fun items => ∀ a ∈ items, good a :=
  yields_take.bind fun _ _ => yields_listOf hitem close

def YieldsShaped (sub : Sub) : Prop := ∀ p, Yields (sub p) fun n => Shaped (.expression n)

theorem yields_statement (hsub : YieldsShaped sub) :
    Yields (statement sub) fun n => Shaped (.statement n) := by
  refine yields_next.bind fun t _ => ?_
  split
  · exact yields_take.bind fun _ _ => (yields_expect _).bind fun name _ =>
      (yields_expect _).bind fun _ _ => (hsub _).bind fun value hvalue =>
      (yields_skipOptional _).bind fun _ _ => yields_pure (.letBind name.literal hvalue)
  · exact yields_take.bind fun _ _ => (hsub _).bind fun value hvalue =>
      (yields_skipOptional _).bind fun _ _ => yields_pure (.returning hvalue)
  · exact (hsub _).bind fun inner hinner =>
      (yields_skipOptional _).bind fun _ _ => yields_pure (.expression hinner)

theorem yields_statements (hsub : YieldsShaped sub) (ends : TokenKind → Bool) :
    Yields (statements sub ends) fun ns => Shaped (.statements ns) := by
  have hstep : ∀ found, (∀ n ∈ found, Shaped (.statement n)) → Yields (statementStep sub ends found)
      (Sum.elim (fun ns => ∀ n ∈ ns, Shaped (.statement n))
        fun ns => ∀ n ∈ ns, Shaped (.statement n)) := by
    intro found hfound
    refine yields_next.bind fun t _ => ?_
    split
    · exact yields_pure hfound
    · refine (yields_statement hsub).attempt.bind fun node hnode => ?_
      cases node with
      | none => exact yields_pure hfound
      | some node =>
        refine yields_pure fun n hn => ?_
        rcases List.mem_append.mp hn with hn | hn
        · exact hfound n hn
        · exact List.mem_singleton.mp hn ▸ hnode node rfl
  exact (yields_loop hstep (by simp)).bind fun found hfound =>
    yields_take.bind fun _ _ => yields_pure (.statements hfound)

theorem yields_blockBody (hsub : YieldsShaped sub) :
    Yields (blockBody sub) fun n => Shaped (.block n) :=
  (yields_statements hsub endsBlock).bind fun _ hfound => yields_pure (.block hfound)

/-! ### Expressions -/

theorem yields_integerLiteral : Yields integerLiteral fun n => Shaped (.expression n) := by
  refine yields_next.bind fun t _ => ?_
  split
  · exact yields_take.bind fun _ _ => yields_pure (.integer _)
  · exact yields_refuse _

theorem yields_prefixExpression (hsub : YieldsShaped sub) :
    Yields (prefixExpression sub) fun n => Shaped (.expression n) :=
  yields_take.bind fun _ _ => (hsub _).bind fun _ hright => yields_pure (.prefixOp _ hright)

theorem yields_groupedExpression (hsub : YieldsShaped sub) :
    Yields (groupedExpression sub) fun n => Shaped (.expression n) :=
  yields_take.bind fun _ _ => (hsub _).bind fun _ hinner => (yields_expect _).bind fun _ _ =>
    yields_pure (.grouped hinner)

theorem yields_conditional (hsub : YieldsShaped sub) :
    Yields (conditional sub) fun n => Shaped (.expression n) := by
  have helse : Yields (elseBranch sub) fun n => n = .hole ∨ Shaped (.block n) := by
    refine yields_next.bind fun t _ => ?_
    split
    · exact yields_take.bind fun _ _ => (yields_expect _).bind fun _ _ =>
        (yields_statements hsub endsBlock).bind fun _ hfound => yields_pure (.inr (.block hfound))
    · exact yields_pure (.inl rfl)
  refine yields_take.bind fun _ _ => (yields_expect _).bind fun _ _ =>
    (hsub _).bind fun condition hcondition => (yields_expect _).bind fun _ _ =>
    (yields_expect _).bind fun _ _ => (yields_blockBody hsub).bind fun consequence hconsequence =>
    helse.bind fun alternative halternative => yields_pure ?_
  rcases halternative with rfl | halternative
  · exact .conditional hcondition hconsequence
  · exact .conditionalElse hcondition hconsequence halternative

theorem yields_functionLiteral (hsub : YieldsShaped sub) :
    Yields (functionLiteral sub) fun n => Shaped (.expression n) := by
  have hparameter : Yields parameter fun _ => True :=
    (yields_expect _).bind fun _ _ => yields_pure trivial
  exact yields_take.bind fun _ _ => (yields_expect _).bind fun _ _ =>
    (yields_listOf hparameter _).bind fun parameters _ => (yields_expect _).bind fun _ _ =>
    (yields_blockBody hsub).bind fun _ hbody => yields_pure (.function parameters hbody)

theorem yields_mapLiteral (hsub : YieldsShaped sub) :
    Yields (mapLiteral sub) fun n => Shaped (.expression n) := by
  have hentry : Yields (mapEntry sub) fun e => Shaped (.entry e.1 e.2) :=
    (hsub _).bind fun _ hkey => (yields_expect _).bind fun _ _ => (hsub _).bind fun _ hvalue =>
      yields_pure (.entry hkey hvalue)
  exact (yields_bracketed hentry _).bind fun _ hentries => yields_pure (.mapping hentries)

theorem yields_prefixRule? (hsub : YieldsShaped sub) {kind : TokenKind} {rule : Parser Node}
    (h : prefixRule? sub kind = some rule) : Yields rule fun n => Shaped (.expression n) := by
  have hboolean : Yields booleanLiteral fun n => Shaped (.expression n) :=
    yields_take.bind fun _ _ => yields_pure (.boolean _)
  unfold prefixRule? at h
  split at h <;> cases h
  · exact yields_take.bind fun _ _ => yields_pure (.identifier _)
  · exact yields_integerLiteral
  · exact yields_take.bind fun _ _ => yields_pure (.text _)
  · exact yields_prefixExpression hsub
  · exact yields_prefixExpression hsub
  · exact hboolean
  · exact hboolean
  · exact yields_groupedExpression hsub
  · exact yields_conditional hsub
  · exact yields_functionLiteral hsub
  · exact (yields_bracketed (hsub _) _).bind fun _ helements => yields_pure (.array helements)
  · exact yields_mapLiteral hsub

theorem yields_infixRule? (hsub : YieldsShaped sub) {kind : TokenKind} {rule : Node → Parser Node}
    (h : infixRule? sub kind = some rule) {left : Node} (hleft : Shaped (.expression left)) :
    Yields (rule left) fun n => Shaped (.expression n) := by
  have hinfix : Yields (infixExpression sub left) fun n => Shaped (.expression n) :=
    yields_take.bind fun _ _ => (hsub _).bind fun _ hright => yields_pure (.infixOp _ hleft hright)
  unfold infixRule? at h
  split at h <;> cases h
  iterate 8 exact hinfix
  · exact (yields_bracketed (hsub _) _).bind fun _ harguments =>
      yields_pure (.call hleft harguments)
  · exact yields_take.bind fun _ _ => (hsub _).bind fun _ hposition =>
      (yields_expect _).bind fun _ _ => yields_pure (.index hleft hposition)

theorem yieldsShaped_expressionForm (hsub : YieldsShaped sub) :
    YieldsShaped (expressionForm sub) := by
  intro p
  have hstep : ∀ left, Shaped (.expression left) → Yields (operatorStep sub p left)
      (Sum.elim (fun n => Shaped (.expression n)) fun n => Shaped (.expression n)) := by
    intro left hleft
    refine yields_next.bind fun t _ => ?_
    dsimp only
    split
    · split
      · next rule hrule =>
        exact (yields_infixRule? hsub hrule hleft).bind fun _ hn => yields_pure hn
      · exact yields_pure hleft
    · exact yields_pure hleft
  refine yields_next.bind fun t _ => ?_
  split
  · next rule hrule =>
    exact (yields_prefixRule? hsub hrule).bind fun _ hn => yields_loop hstep hn
  · exact yields_refuse _

theorem yieldsShaped_expressionWithin (depth : Nat) : YieldsShaped (expressionWithin depth) := by
  induction depth with
  | zero => exact fun _ => yields_refuse _
  | succ depth ih => exact yieldsShaped_expressionForm ih

theorem yieldsShaped_expression : YieldsShaped Parser.expression :=
  fun p s => yieldsShaped_expressionWithin (s.pending.length + 1) p s

/-! ### Programs -/

theorem yields_program : Yields program fun n => ∃ ns, n = .program ns ∧ Shaped (.statements ns) :=
  (yields_statements yieldsShaped_expression endsProgram).bind fun ns hns =>
    yields_pure ⟨ns, rfl, hns⟩

end Parser

theorem shaped_parseScan (found : Lexer.Scan) :
    ∃ ns, (parseScan found).program = .program ns ∧ Shaped (.statements ns) := by
  have hgood := (Parser.yields_program (.ofScan found)).2
  rw [parseScan]
  cases hvalue : (Parser.program (.ofScan found)).value with
  | none => exact ⟨[], rfl, .statements (List.forall_mem_nil _)⟩
  | some n => exact hgood n hvalue

end MonkeyLang

import MonkeyLang.Proofs.Parser.Lockstep

/-!
The grammar on two streams that begin alike, with two parsers of inner expressions that do the same
on them. Every form of the grammar then does the same, and a form that takes a token of its own
first does so on streams that are longer by one token. This is the one pass over the grammar that
compares two runs: the streams may differ in the places of their tokens, in what stands behind them,
or not at all, and the parsers in how deep they may nest.
-/
namespace MonkeyLang

open MonkeyLang.Parser

/-- What can be asked of a parser, by what it gives. -/
inductive Method : Type → Type
  | program : Method Node
  | statement : Method Node
  | letStatement : Method Node
  | returnStatement : Method Node
  | expressionStatement : Method Node
  | block : Method Node
  | expression (precedence : Nat) : Method Node
  | identifier : Method Node
  | integerLiteral : Method Node
  | textLiteral : Method Node
  | booleanLiteral : Method Node
  | prefixExpression : Method Node
  | groupedExpression : Method Node
  | conditional : Method Node
  | functionLiteral : Method Node
  | arrayLiteral : Method Node
  | mapLiteral : Method Node
  | infixExpression (left : Node) : Method Node
  | callExpression (callee : Node) : Method Node
  | indexExpression (collection : Node) : Method Node
  | mapEntry : Method (Node × Node)
  | expressions (close : TokenKind) : Method (List Node)
  | entries (close : TokenKind) : Method (List (Node × Node))
  | parameters : Method (List String)

namespace Method

open MonkeyLang.Parser

def form (sub : Sub) : {α : Type} → Method α → Parser α
  | _, program => do return .program (← statements sub endsProgram)
  | _, statement => Parser.statement sub
  | _, letStatement => Parser.letStatement sub
  | _, returnStatement => Parser.returnStatement sub
  | _, expressionStatement => Parser.expressionStatement sub
  | _, block => Parser.block sub
  | _, expression precedence => sub precedence
  | _, identifier => Parser.identifier
  | _, integerLiteral => Parser.integerLiteral
  | _, textLiteral => Parser.textLiteral
  | _, booleanLiteral => Parser.booleanLiteral
  | _, prefixExpression => Parser.prefixExpression sub
  | _, groupedExpression => Parser.groupedExpression sub
  | _, conditional => Parser.conditional sub
  | _, functionLiteral => Parser.functionLiteral sub
  | _, arrayLiteral => Parser.arrayLiteral sub
  | _, mapLiteral => Parser.mapLiteral sub
  | _, infixExpression left => Parser.infixExpression sub left
  | _, callExpression callee => Parser.callExpression sub callee
  | _, indexExpression collection => Parser.indexExpression sub collection
  | _, mapEntry => Parser.mapEntry sub
  | _, expressions close => bracketed (sub Precedence.lowest) close
  | _, entries close => bracketed (Parser.mapEntry sub) close
  | _, parameters => bracketed parameter .rightParen

def parser {α : Type} (m : Method α) : Parser α := m.form Parser.expression

/-- Whether the method takes a token before it comes to an expression inside. -/
def leads : {α : Type} → Method α → Bool
  | _, program | _, statement | _, expressionStatement | _, expression _ | _, mapEntry => false
  | _, _ => true

def ofPrefix? : TokenKind → Option (Method Node)
  | .ident => some identifier
  | .int => some integerLiteral
  | .string => some textLiteral
  | .bang | .minus => some prefixExpression
  | .trueWord | .falseWord => some booleanLiteral
  | .leftParen => some groupedExpression
  | .ifWord => some conditional
  | .fnWord => some functionLiteral
  | .leftBracket => some arrayLiteral
  | .leftBrace => some mapLiteral
  | _ => none

def ofInfix? : TokenKind → Option (Node → Method Node)
  | .plus | .minus | .slash | .star | .equal | .notEqual | .less | .greater => some infixExpression
  | .leftParen => some callExpression
  | .leftBracket => some indexExpression
  | _ => none

theorem prefixRule?_eq (sub : Sub) (kind : TokenKind) :
    prefixRule? sub kind = (ofPrefix? kind).map (form sub) := by
  cases kind <;> rfl

theorem infixRule?_eq (sub : Sub) (kind : TokenKind) :
    infixRule? sub kind = (ofInfix? kind).map fun m left => (m left).form sub := by
  cases kind <;> rfl

theorem leads_of_ofPrefix? {kind : TokenKind} {m : Method Node} (h : ofPrefix? kind = some m) :
    m.leads = true := by
  cases kind <;> cases h <;> rfl

theorem leads_of_ofInfix? {kind : TokenKind} {m : Node → Method Node} (h : ofInfix? kind = some m)
    (left : Node) : (m left).leads = true := by
  cases kind <;> cases h <;> rfl

end Method

namespace Lockstep

variable {α : Type} {L : Lockstep} {depth depth' l : Nat} {sub sub' : Sub}

theorem kind_of_lexeme {t t' : Token} (h : t.lexeme = t'.lexeme) : t.kind = t'.kind :=
  congrArg Lexeme.kind h

theorem literal_of_lexeme {t t' : Token} (h : t.lexeme = t'.lexeme) : t.literal = t'.literal :=
  congrArg Lexeme.literal h

/-! ### Lists -/

theorem tracks_listStep {item item' : Parser α}
    (hitem : L.Tracks depth depth' (fun _ => l) item item') (found : List α) :
    L.Tracks depth depth' stepLeast (listStep item found) (listStep item' found) := by
  refine tracks_next_bind fun t t' ht => ?_
  rw [← kind_of_lexeme ht]
  split
  · refine (tracks_take_bind (fun _ _ _ => ?_) stepLeast_le).shallower
    exact hitem.bind (fun a => tracks_pure rfl) fun _ => Nat.zero_le l
  · exact tracks_pure rfl

theorem listStep_of_eof {item : Parser α} {found : List α} {s : Stream} (h : s.next.kind = .eof) :
    (listStep item found s).value = some (.inr found) := by
  rw [listStep, bind_of_reads (reads_next.mpr ⟨rfl, rfl⟩), if_neg (by rw [h]; decide)]
  rfl

theorem tracks_listOf {item item' : Parser α}
    (hitem : L.Tracks depth depth' (fun _ => l) item item') (close : TokenKind) :
    L.Tracks depth depth' (fun _ => 0) (listOf item close) (listOf item' close) := by
  refine tracks_next_bind fun t t' ht => ?_
  rw [← kind_of_lexeme ht]
  split
  · exact (tracks_take_bind (fun _ _ _ => tracks_pure rfl) fun _ => Nat.zero_le 1).shallower
  · refine hitem.bind (fun a => ?_) fun _ => Nat.zero_le l
    have hloop := Tracks.loop (tracks_listStep hitem) (fun _ _ h => ⟨_, listStep_of_eof h⟩) [a]
    refine (hloop.weaken fun _ => Nat.zero_le _).bind (fun items => ?_) fun _ => Nat.le_refl 0
    exact tracks_expect_bind fun _ _ _ => tracks_pure rfl

theorem tracks_bracketed {item item' : Parser α}
    (hitem : L.Tracks depth depth' (fun _ => l) item item') (close : TokenKind) :
    L.Tracks (depth + 1) (depth' + 1) (fun _ => 1) (bracketed item close)
      (bracketed item' close) :=
  tracks_take_bind (fun _ _ _ => tracks_listOf hitem close) fun _ => Nat.le_refl 1

/-! ### Statements and blocks -/

/-- The parsers of inner expressions meet, and have taken a token. -/
def TracksSub (L : Lockstep) (depth depth' : Nat) (sub sub' : Sub) : Prop :=
  ∀ p, L.Tracks depth depth' (fun _ => 1) (sub p) (sub' p)

section Statements

variable (hsub : L.TracksSub depth depth' sub sub')
include hsub

theorem tracks_terminated (p : Nat) (node : Node → Node) :
    L.Tracks depth depth' (fun _ => 1)
      (do let n ← sub p; skipOptional .semicolon; return node n)
      (do let n ← sub' p; skipOptional .semicolon; return node n) :=
  (hsub p).bind
    (fun _ => tracks_skipOptional.bind (fun _ => tracks_pure rfl) fun _ => Nat.le_refl 0)
    fun _ => Nat.le_refl 1

theorem tracks_letStatement :
    L.Tracks (depth + 1) (depth' + 1) (fun _ => 1) (letStatement sub) (letStatement sub') := by
  refine tracks_take_bind (fun _ _ _ => ?_) fun _ => Nat.le_refl 1
  refine tracks_expect_bind fun name name' hname => tracks_expect_bind fun _ _ _ => ?_
  rw [← literal_of_lexeme hname]
  exact (tracks_terminated hsub _ (.letBind name.literal)).weaken fun _ => Nat.zero_le 1

theorem tracks_returnStatement :
    L.Tracks (depth + 1) (depth' + 1) (fun _ => 1) (returnStatement sub) (returnStatement sub') :=
  tracks_take_bind
    (fun _ _ _ => (tracks_terminated hsub _ .returning).weaken fun _ => Nat.zero_le 1)
    fun _ => Nat.le_refl 1

theorem tracks_statement :
    L.Tracks depth depth' (fun _ => 1) (statement sub) (statement sub') := by
  refine tracks_next_bind fun t t' ht => ?_
  rw [← kind_of_lexeme ht]
  split
  · exact (tracks_letStatement hsub).shallower
  · exact (tracks_returnStatement hsub).shallower
  · exact tracks_terminated hsub _ .expression

theorem tracks_statementStep (ends : TokenKind → Bool) (found : List Node) :
    L.Tracks depth depth' stepLeast (statementStep sub ends found)
      (statementStep sub' ends found) := by
  refine tracks_next_bind fun t t' ht => ?_
  rw [← kind_of_lexeme ht]
  split
  · exact tracks_pure rfl
  · refine (tracks_statement hsub).attempt.andThen (fun _ => 0) (fun node => ?_)
      (Nat.le_refl 1) fun _ => stepLeast_le
    cases node <;> exact tracks_pure rfl

theorem tracks_statements {ends : TokenKind → Bool} (hends : ends .eof) :
    L.Tracks depth depth' (fun _ => 1) (statements sub ends) (statements sub' ends) := by
  have hloop := Tracks.loop (tracks_statementStep hsub ends)
    (fun found s h => ⟨found, by rw [statementStep_of_ends (by rwa [h])]⟩) []
  refine hloop.andThen (fun _ => 1) (fun found => ?_) (Nat.le_refl 1)
    fun _ _ => Nat.le_refl 1
  exact (tracks_take_bind (fun _ _ _ => tracks_pure rfl) fun _ => Nat.le_refl 1).shallower

theorem tracks_blockBody :
    L.Tracks depth depth' (fun _ => 0) (blockBody sub) (blockBody sub') :=
  (tracks_statements hsub rfl).bind (fun _ => tracks_pure rfl) fun _ => Nat.zero_le 1

end Statements

/-! ### Expressions -/

theorem tracks_parameter : L.Tracks depth depth' (fun _ => 0) parameter parameter := by
  refine tracks_expect_bind fun t t' ht => ?_
  rw [← literal_of_lexeme ht]
  exact tracks_pure rfl

theorem tracks_integerLiteral :
    L.Tracks (depth + 1) (depth' + 1) (fun _ => 1) integerLiteral integerLiteral := by
  refine tracks_next_bind fun t t' ht => ?_
  rw [← literal_of_lexeme ht]
  split
  · exact tracks_take_bind (fun _ _ _ => tracks_pure rfl) fun _ => Nat.le_refl 1
  · exact tracks_refuse (Nat.le_refl 1)

section Expressions

variable (hsub : L.TracksSub depth depth' sub sub')
include hsub

theorem tracks_prefixExpression :
    L.Tracks (depth + 1) (depth' + 1) (fun _ => 1) (prefixExpression sub)
      (prefixExpression sub') := by
  refine tracks_take_bind (fun t t' ht => ?_) fun _ => Nat.le_refl 1
  rw [← literal_of_lexeme ht]
  exact (hsub _).bind (fun right => tracks_pure rfl) fun _ => Nat.zero_le 1

theorem tracks_groupedExpression :
    L.Tracks (depth + 1) (depth' + 1) (fun _ => 1) (groupedExpression sub)
      (groupedExpression sub') := by
  refine tracks_take_bind (fun _ _ _ => ?_) fun _ => Nat.le_refl 1
  refine (hsub _).bind (fun inner => ?_) fun _ => Nat.zero_le 1
  exact tracks_expect_bind fun _ _ _ => tracks_pure rfl

theorem tracks_elseBranch :
    L.Tracks depth depth' (fun _ => 0) (elseBranch sub) (elseBranch sub') := by
  refine tracks_next_bind fun t t' ht => ?_
  rw [← kind_of_lexeme ht]
  split
  · refine (tracks_take_bind (fun _ _ _ => ?_) fun _ => Nat.zero_le 1).shallower
    exact tracks_expect_bind fun _ _ _ => tracks_blockBody hsub
  · exact tracks_pure rfl

theorem tracks_conditional :
    L.Tracks (depth + 1) (depth' + 1) (fun _ => 1) (conditional sub) (conditional sub') := by
  refine tracks_take_bind (fun _ _ _ => tracks_expect_bind fun _ _ _ => ?_) fun _ => Nat.le_refl 1
  refine (hsub _).bind (fun condition => ?_) fun _ => Nat.zero_le 1
  refine tracks_expect_bind fun _ _ _ => tracks_expect_bind fun _ _ _ => ?_
  refine (tracks_blockBody hsub).bind (fun consequence => ?_) fun _ => Nat.le_refl 0
  exact (tracks_elseBranch hsub).bind (fun alternative => tracks_pure rfl) fun _ => Nat.le_refl 0

theorem tracks_functionLiteral :
    L.Tracks (depth + 1) (depth' + 1) (fun _ => 1) (functionLiteral sub)
      (functionLiteral sub') := by
  refine tracks_take_bind (fun _ _ _ => tracks_expect_bind fun _ _ _ => ?_) fun _ => Nat.le_refl 1
  refine (tracks_listOf tracks_parameter .rightParen).bind (fun names => ?_) fun _ => Nat.le_refl 0
  refine tracks_expect_bind fun _ _ _ => ?_
  exact (tracks_blockBody hsub).bind (fun body => tracks_pure rfl) fun _ => Nat.le_refl 0

theorem tracks_mapEntry :
    L.Tracks depth depth' (fun _ => 1) (mapEntry sub) (mapEntry sub') := by
  refine (hsub _).bind (fun key => ?_) fun _ => Nat.le_refl 1
  refine tracks_expect_bind fun _ _ _ => ?_
  exact (hsub _).bind (fun value => tracks_pure rfl) fun _ => Nat.zero_le 1

theorem tracks_infixExpression (left : Node) :
    L.Tracks (depth + 1) (depth' + 1) (fun _ => 1) (infixExpression sub left)
      (infixExpression sub' left) := by
  refine tracks_take_bind (fun t t' ht => ?_) fun _ => Nat.le_refl 1
  rw [← kind_of_lexeme ht, ← literal_of_lexeme ht]
  exact (hsub _).bind (fun right => tracks_pure rfl) fun _ => Nat.zero_le 1

theorem tracks_indexExpression (left : Node) :
    L.Tracks (depth + 1) (depth' + 1) (fun _ => 1) (indexExpression sub left)
      (indexExpression sub' left) := by
  refine tracks_take_bind (fun _ _ _ => ?_) fun _ => Nat.le_refl 1
  refine (hsub _).bind (fun position => ?_) fun _ => Nat.zero_le 1
  exact tracks_expect_bind fun _ _ _ => tracks_pure rfl

theorem tracks_of_leads (m : Method α) (hleads : m.leads = true) :
    L.Tracks (depth + 1) (depth' + 1) (fun _ => 1) (m.form sub) (m.form sub') := by
  have hliteral : ∀ f : String → Node, L.Tracks (depth + 1) (depth' + 1) (fun _ => 1)
      (do return f (← take).literal) (do return f (← take).literal) := by
    intro f
    refine tracks_take_bind (fun t t' ht => ?_) fun _ => Nat.le_refl 1
    rw [← literal_of_lexeme ht]
    exact tracks_pure rfl
  have hboolean : L.Tracks (depth + 1) (depth' + 1) (fun _ => 1) booleanLiteral booleanLiteral := by
    refine tracks_take_bind (fun t t' ht => ?_) fun _ => Nat.le_refl 1
    rw [← kind_of_lexeme ht]
    exact tracks_pure rfl
  have hbracketed : ∀ {β : Type} {item item' : Parser β} (k : List β → Node) (close : TokenKind),
      L.Tracks depth depth' (fun _ => 1) item item' →
      L.Tracks (depth + 1) (depth' + 1) (fun _ => 1) (do return k (← bracketed item close))
        (do return k (← bracketed item' close)) :=
    fun k close hitem =>
      (tracks_bracketed hitem close).bind (fun _ => tracks_pure rfl) fun _ => Nat.le_refl 1
  cases m with
  | program => cases hleads
  | statement => cases hleads
  | expressionStatement => cases hleads
  | expression precedence => cases hleads
  | mapEntry => cases hleads
  | letStatement => exact tracks_letStatement hsub
  | returnStatement => exact tracks_returnStatement hsub
  | block =>
    exact tracks_take_bind (fun _ _ _ => tracks_blockBody hsub) fun _ => Nat.le_refl 1
  | identifier => exact hliteral .identifier
  | integerLiteral => exact tracks_integerLiteral
  | textLiteral => exact hliteral .text
  | booleanLiteral => exact hboolean
  | prefixExpression => exact tracks_prefixExpression hsub
  | groupedExpression => exact tracks_groupedExpression hsub
  | conditional => exact tracks_conditional hsub
  | functionLiteral => exact tracks_functionLiteral hsub
  | arrayLiteral => exact hbracketed _ _ (hsub _)
  | mapLiteral => exact hbracketed _ _ (tracks_mapEntry hsub)
  | infixExpression left => exact tracks_infixExpression hsub left
  | callExpression callee => exact hbracketed _ _ (hsub _)
  | indexExpression collection => exact tracks_indexExpression hsub collection
  | expressions close => exact tracks_bracketed (hsub _) close
  | entries close => exact tracks_bracketed (tracks_mapEntry hsub) close
  | parameters => exact tracks_bracketed tracks_parameter .rightParen

theorem tracks_method (m : Method α) :
    L.Tracks depth depth' (fun _ => 1) (m.form sub) (m.form sub') := by
  by_cases hleads : m.leads = true
  · exact (tracks_of_leads hsub m hleads).shallower
  · cases m with
    | program =>
      exact (tracks_statements hsub rfl).bind (fun _ => tracks_pure rfl) fun _ => Nat.le_refl 1
    | statement => exact tracks_statement hsub
    | expressionStatement => exact tracks_terminated hsub _ .expression
    | expression precedence => exact hsub precedence
    | mapEntry => exact tracks_mapEntry hsub
    | _ => exact absurd rfl hleads

theorem tracks_operatorStep (precedence : Nat) (left : Node) :
    L.Tracks (depth + 1) (depth' + 1) stepLeast (operatorStep sub precedence left)
      (operatorStep sub' precedence left) := by
  refine tracks_next_bind fun t t' ht => ?_
  rw [← kind_of_lexeme ht]
  dsimp only
  split
  · rw [Method.infixRule?_eq, Method.infixRule?_eq]
    cases hrule : Method.ofInfix? t.kind with
    | none => exact tracks_pure rfl
    | some m =>
      have hm := tracks_of_leads hsub (m left) (Method.leads_of_ofInfix? hrule left)
      exact hm.bind (fun _ => tracks_pure rfl) stepLeast_le
  · exact tracks_pure rfl

omit hsub in
theorem operatorStep_of_eof {precedence : Nat} {left : Node} {s : Stream}
    (h : s.next.kind = .eof) : (operatorStep sub precedence left s).value = some (.inr left) := by
  rw [operatorStep, bind_of_reads (reads_next.mpr ⟨rfl, rfl⟩), h]
  split <;> rfl

theorem tracksSub_expressionForm :
    L.TracksSub (depth + 1) (depth' + 1) (expressionForm sub) (expressionForm sub') := by
  intro precedence
  refine tracks_next_bind fun t t' ht => ?_
  rw [← kind_of_lexeme ht, Method.prefixRule?_eq, Method.prefixRule?_eq]
  cases hrule : Method.ofPrefix? t.kind with
  | none => exact tracks_refuse (Nat.le_refl 1)
  | some m =>
    have hm := tracks_of_leads hsub m (Method.leads_of_ofPrefix? hrule)
    refine hm.bind (fun left => ?_) fun _ => Nat.le_refl 1
    have hloop := Tracks.loop (tracks_operatorStep hsub precedence)
      (fun left _ h => ⟨left, operatorStep_of_eof h⟩) left
    exact hloop.weaken fun _ => Nat.zero_le _

end Expressions

end Lockstep

/-! ### Nesting -/

namespace Parser

/-- Nested expressions, with `floor` in the place of those below the given number of levels. -/
def expressionOver (floor : Sub) : Nat → Sub
  | 0 => floor
  | depth + 1 => expressionForm (expressionOver floor depth)

theorem expressionOver_add (floor : Sub) (m n : Nat) :
    expressionOver (expressionOver floor n) m = expressionOver floor (m + n) := by
  induction m with
  | zero => rw [Nat.zero_add]; rfl
  | succ m ih => rw [Nat.add_right_comm, expressionOver, expressionOver, ih]

theorem expressionWithin_eq (depth : Nat) :
    expressionWithin depth = expressionOver (fun _ => refuse .noRule) depth := by
  induction depth with
  | zero => rfl
  | succ depth ih =>
    funext precedence
    rw [expressionWithin, ih]
    rfl

theorem expressionForm_of_eof {sub : Sub} {precedence : Nat} {s : Stream}
    (h : s.next.kind = .eof) : expressionForm sub precedence s = refuse .noRule s := by
  rw [expressionForm, bind_of_reads (reads_next.mpr ⟨rfl, rfl⟩), h]
  rfl

theorem keeps_expressionOver {floor : Sub} (hfloor : ∀ p, Keeps (floor p)) (n p : Nat) :
    Keeps (expressionOver floor n p) := by
  induction n generalizing p with
  | zero => exact hfloor p
  | succ n ih =>
    -- Where nothing is compared, to keep to the stream is all there is to it.
    have hsub : Lockstep.nowhere.TracksSub 0 0 (expressionOver floor n) (expressionOver floor n) :=
      fun p => ⟨fun _ => ⟨ih p, ih p⟩, fun hi => hi.near.elim⟩
    exact Lockstep.keeps_of_nowhere (Lockstep.tracksSub_expressionForm hsub p).shallower

theorem keeps_expression (p : Nat) : Keeps (expression p) := by
  intro s
  rw [expression, expressionWithin_eq]
  exact keeps_expressionOver (fun _ => keeps_refuse) _ p s

end Parser

namespace Lockstep

variable {α : Type} {L : Lockstep} {depth depth' : Nat} {floor floor' : Sub}

/-- As many levels as there are tokens, and one more, decide what an expression is read as. -/
theorem tracksSub_expressionOver
    (hkeeps : ∀ {j}, ¬ L.near j → ∀ p, Keeps (floor p) ∧ Keeps (floor' p)) (depth depth' : Nat) :
    L.TracksSub depth depth' (expressionOver floor (depth + 1))
      (expressionOver floor' (depth' + 1)) := by
  -- Where no token is left, the end of input is next on both streams.
  have hdone : ∀ {sub sub' : Sub} {p i : Nat}, L.near i → (L.first.skip i).next.kind = .eof →
      L.Meets (fun _ => 1) i (expressionForm sub p (L.first.skip i))
        (expressionForm sub' p (L.second.skip i)) := by
    intro sub sub' p i hnear heof
    rw [expressionForm_of_eof heof, expressionForm_of_eof (L.kind_eq hnear ▸ heof)]
    exact (tracks_refuse (Nat.le_refl 1)).meets ⟨hnear, Nat.le_refl _, Nat.le_refl _⟩
  have hempty : ∀ {s : Stream} {i : Nat}, s.ending.kind = .eof →
      (s.skip i).pending.length ≤ 0 → (s.skip i).next.kind = .eof := by
    intro s i hending hle
    rw [Stream.length_skip] at hle
    refine Decidable.of_not_not fun hkind => ?_
    have hlt := Stream.lt_length_of_next hending hkind
    omega
  have hboth : ∀ {j : Nat}, ¬ L.near j → ∀ n n' p,
      Keeps (expressionOver floor n p) ∧ Keeps (expressionOver floor' n' p) :=
    fun hj n n' p => ⟨keeps_expressionOver (fun p => (hkeeps hj p).1) n p,
      keeps_expressionOver (fun p => (hkeeps hj p).2) n' p⟩
  induction depth generalizing depth' with
  | zero =>
    refine fun p => ⟨fun hj => hboth hj 1 (depth' + 1) p, fun hi => hdone hi.near ?_⟩
    exact hempty L.first_ending hi.first_le
  | succ depth ih =>
    cases depth' with
    | zero =>
      refine fun p => ⟨fun hj => hboth hj (depth + 2) 1 p, fun hi => hdone hi.near ?_⟩
      rw [L.kind_eq hi.near]
      exact hempty L.second_ending hi.second_le
    | succ depth' => exact tracksSub_expressionForm (ih depth')

theorem tracksSub_expression : L.TracksSub depth depth' expression expression := by
  refine fun p => ⟨fun _ => ⟨keeps_expression p, keeps_expression p⟩, fun hi => ?_⟩
  rw [expression, expression, expressionWithin_eq, expressionWithin_eq]
  exact (tracksSub_expressionOver (fun _ p => ⟨keeps_refuse, keeps_refuse⟩) _ _ p).meets
    ⟨hi.near, Nat.le_refl _, Nat.le_refl _⟩

theorem tracks_call (L : Lockstep) (m : Method α) :
    L.Tracks depth depth' (fun _ => 1) m.parser m.parser :=
  tracks_method tracksSub_expression m

end Lockstep

/-- What two programs report about their near tokens is the same, and comes first. -/
theorem Lockstep.exists_shared (L : Lockstep) (hnear : L.near 0) :
    ∃ shared shared' later later', List.Forall₂ L.SameReport shared shared' ∧
      (program L.first).reports = shared ++ later ∧ L.Far L.first later ∧
      (program L.second).reports = shared' ++ later' ∧ L.Far L.second later' :=
  ((L.tracks_call .program).meets (i := 0)
    ⟨hnear, Nat.le_refl _, Nat.le_refl _⟩).exists_shared

theorem Parser.keeps_program : Keeps program :=
  Lockstep.keeps_of_nowhere (Lockstep.tracks_call _ .program)

end MonkeyLang

import MonkeyLang.Proofs.Lexer.Lexed
import MonkeyLang.Proofs.Parser.Shape
import MonkeyLang.Proofs.Syntax.Numeral
import MonkeyLang.Proofs.Syntax.Opening
import MonkeyLang.Text.Letter

/-!
What is read without reports was written in the tokens. A tree read from a scan is graded, and the
tokens taken for it write it down, up to closing braces of blocks that the end of input stands for.
Such braces are missing only where nothing follows, so every part but the last is written in full.
-/
namespace MonkeyLang

open MonkeyLang.Parser

/-! ### Blocks left open -/

namespace Node

mutual

/-- The number of blocks that end where the node ends. -/
def blocksAtEnd : Node → Nat
  | letBind _ value | returning value => value.blocksAtEnd
  | expression inner => inner.blocksAtEnd
  | prefixOp _ right => right.blocksAtEnd
  | infixOp _ _ right => right.blocksAtEnd
  | conditional _ consequence hole => consequence.blocksAtEnd
  | conditional _ _ alternative => alternative.blocksAtEnd
  | function _ body => body.blocksAtEnd
  | block statements => blocksAtLast statements + 1
  | _ => 0

def blocksAtLast : List Node → Nat
  | [] => 0
  | [node] => node.blocksAtEnd
  | _ :: rest => blocksAtLast rest

end

end Node

def Phrase.blocksAtEnd : Phrase → Nat
  | expression node | statement node | block node => node.blocksAtEnd
  | statements nodes => Node.blocksAtLast nodes
  | _ => 0

/-! ### Tokens taken for a phrase -/

section Taken

variable {phrase : Phrase} {ts us : List Token}

def Consumes (phrase : Phrase) (ts us : List Token) : Prop :=
  ∃ taken, ts = taken ++ us ∧ Written phrase (taken.map Token.lexeme)

/-- As `Consumes`, but at the end of input the braces of blocks that end there may be missing. -/
def Takes (phrase : Phrase) (ts us : List Token) : Prop :=
  ∃ taken missing, ts = taken ++ us ∧ missing ≤ phrase.blocksAtEnd ∧ (us ≠ [] → missing = 0) ∧
    Written phrase (taken.map Token.lexeme ++ List.replicate missing TokenKind.rightBrace.lexeme)

theorem Consumes.takes (h : Consumes phrase ts us) : Takes phrase ts us := by
  obtain ⟨taken, hts, hwritten⟩ := h
  exact ⟨taken, 0, hts, Nat.zero_le _, fun _ => rfl, by simpa using hwritten⟩

theorem Takes.consumes (h : Takes phrase ts us) (hus : us ≠ []) : Consumes phrase ts us := by
  obtain ⟨taken, missing, hts, -, hmissing, hwritten⟩ := h
  obtain rfl := hmissing hus
  exact ⟨taken, hts, by simpa using hwritten⟩

theorem Takes.extend {outer : Phrase} (h : Takes phrase ts us) (leading : List Token)
    (hblocks : phrase.blocksAtEnd ≤ outer.blocksAtEnd)
    (hwritten : ∀ ls, Written phrase ls → Written outer (leading.map Token.lexeme ++ ls)) :
    Takes outer (leading ++ ts) us := by
  obtain ⟨taken, missing, rfl, hle, hmissing, hphrase⟩ := h
  refine ⟨leading ++ taken, missing, by simp, Nat.le_trans hle hblocks, hmissing, ?_⟩
  simpa using hwritten _ hphrase

end Taken

structure Stream.Supplies [Text.Alphabet] (s : Stream) (ts : List Token) :
    Prop extends s.Holds ts where
  lexed : ∀ t ∈ ts, t.lexeme.Lexed

namespace Stream.Supplies

variable {s : Stream} {ts : List Token}

theorem uncons [Text.Alphabet] (h : s.Supplies ts) (hkind : s.next.kind ≠ .eof) :
    ∃ us, ts = s.next :: us ∧ s.advance.Supplies us ∧ s.next.lexeme.Lexed := by
  obtain ⟨us, rfl, hus⟩ := h.toHolds.uncons hkind
  exact ⟨us, rfl, ⟨hus, fun t ht => h.lexed t (List.mem_cons_of_mem _ ht)⟩, h.lexed _ (by simp)⟩

theorem fixed [Text.Alphabet] (h : s.Supplies ts) {kind : TokenKind} (hkind : s.next.kind = kind)
    (hfixed : kind.isFixed) (heof : kind ≠ .eof) :
    ∃ us, ts = s.next :: us ∧ s.advance.Supplies us ∧ s.next.lexeme = kind.lexeme := by
  obtain ⟨us, hts, hus, hlexed⟩ := h.uncons (hkind ▸ heof)
  exact ⟨us, hts, hus, hlexed.eq_lexeme hkind hfixed⟩

end Stream.Supplies

/-! ### Lists -/

section Lists

variable {α : Type} {item : Parser α} {part : α → Phrase} {good : α → Prop}

def TakesItems [Text.Alphabet] (item : Parser α) (part : α → Phrase) (good : α → Prop) : Prop :=
  ∀ {s t : Stream} {ts : List Token} {a : α}, s.Supplies ts → Reads item s a t →
    ∃ us, t.Supplies us ∧ (us ≠ [] → Consumes (part a) ts us) ∧ good a

theorem reads_listStep {found : List α} {s t : Stream} {r : List α ⊕ List α}
    (h : Reads (listStep item found) s r t) :
    (s.next.kind = .comma ∧ ∃ a, Reads item s.advance a t ∧ r = .inl (found ++ [a])) ∨
      (r = .inr found ∧ s = t) := by
  simp only [listStep, reads_bind, reads_next] at h
  obtain ⟨_, _, ⟨rfl, rfl⟩, h⟩ := h
  split at h
  · next hcomma =>
    simp only [reads_bind, reads_take, reads_pure] at h
    obtain ⟨_, _, ⟨rfl, rfl⟩, a, _, ha, rfl, rfl⟩ := h
    exact Or.inl ⟨hcomma, a, ha, rfl⟩
  · obtain ⟨rfl, rfl⟩ := reads_pure.mp h
    exact Or.inr ⟨rfl, rfl⟩

theorem Consumes.more {a b : Phrase} {rest : List Phrase} {c : Token} {ts us vs : List Token}
    (ha : Consumes a ts (c :: us)) (hc : c.lexeme = TokenKind.comma.lexeme)
    (hrest : Consumes (.list (b :: rest)) us vs) : Consumes (.list (a :: b :: rest)) ts vs := by
  obtain ⟨first, rfl, hfirst⟩ := ha
  obtain ⟨second, rfl, hsecond⟩ := hrest
  refine ⟨first ++ c :: second, by simp, ?_⟩
  simpa [hc] using Written.more hfirst hsecond

variable [Text.Alphabet]

theorem takes_items (hitem : TakesItems item part good) {n : Nat} {found result : List α}
    {s t : Stream} (h : Iterates (listStep item) n found s result t) :
    ∀ {ts₀ ts : List Token} {a : α}, s.Supplies ts → (ts ≠ [] → Consumes (part a) ts₀ ts) →
      ∃ more us, result = found ++ more ∧ t.Supplies us ∧ (∀ b ∈ more, good b) ∧
        (us ≠ [] → Consumes (.list ((a :: more).map part)) ts₀ us) := by
  induction h with
  | done last =>
    intro ts₀ ts a hs ha
    rcases reads_listStep last with ⟨_, _, _, hr⟩ | ⟨hr, rfl⟩
    · cases hr
    · cases hr
      refine ⟨[], ts, by simp, hs, nofun, fun hts => ?_⟩
      obtain ⟨taken, htaken, hwritten⟩ := ha hts
      exact ⟨taken, htaken, .single hwritten⟩
  | again first _ ih =>
    intro ts₀ ts a hs ha
    rcases reads_listStep first with ⟨hcomma, b, hb, hr⟩ | ⟨hr, _⟩
    · cases hr
      obtain ⟨ts₁, rfl, hts₁, hlexeme⟩ := hs.fixed hcomma rfl nofun
      obtain ⟨us₁, hus₁, hb, hgood⟩ := hitem hts₁ hb
      obtain ⟨more, us, rfl, hus, hmore, hlist⟩ := ih hus₁ hb
      refine ⟨b :: more, us, by simp, hus, ?_, fun hne => ?_⟩
      · exact List.forall_mem_cons.mpr ⟨hgood, hmore⟩
      · exact (ha (by simp)).more hlexeme (hlist hne)
    · cases hr

theorem takes_listOf (hitem : TakesItems item part good) {close : TokenKind} {s t : Stream}
    {ts : List Token} {items : List α} (hs : s.Supplies ts)
    (h : Reads (listOf item close) s items t) (hfixed : close.isFixed) (heof : close ≠ .eof) :
    ∃ c us, t.Supplies us ∧ c.lexeme = close.lexeme ∧
      Consumes (.list (items.map part)) ts (c :: us) ∧ ∀ a ∈ items, good a := by
  simp only [listOf, reads_bind, reads_next] at h
  obtain ⟨_, _, ⟨rfl, rfl⟩, h⟩ := h
  split at h
  · next hclose =>
    simp only [reads_bind, reads_take, reads_pure] at h
    obtain ⟨_, _, ⟨rfl, rfl⟩, rfl, rfl⟩ := h
    obtain ⟨us, rfl, hus, hlexeme⟩ := hs.fixed hclose hfixed heof
    exact ⟨_, us, hus, hlexeme, ⟨[], rfl, .empty⟩, nofun⟩
  · simp only [reads_bind, reads_loop, reads_expect, reads_pure] at h
    obtain ⟨a, u, ha, _, v, ⟨_, _, hloop⟩, _, _, ⟨hclose, rfl, rfl⟩, rfl, rfl⟩ := h
    obtain ⟨us₁, hus₁, ha, hgood⟩ := hitem hs ha
    obtain ⟨more, us₂, rfl, hus₂, hmore, hlist⟩ := takes_items hitem hloop hus₁ ha
    obtain ⟨us, rfl, hus, hlexeme⟩ := hus₂.fixed hclose hfixed heof
    exact ⟨_, us, hus, hlexeme, hlist (by simp), List.forall_mem_cons.mpr ⟨hgood, hmore⟩⟩

theorem takes_bracketed (hitem : TakesItems item part good) {opening close : TokenKind}
    {s t : Stream} {ts : List Token} {items : List α} (hs : s.Supplies ts)
    (hkind : s.next.kind = opening) (h : Reads (bracketed item close) s items t)
    (hopening : opening.isFixed ∧ opening ≠ .eof) (hclose : close.isFixed ∧ close ≠ .eof) :
    ∃ es c us, ts = s.next :: (es ++ c :: us) ∧ t.Supplies us ∧
      s.next.lexeme = opening.lexeme ∧ c.lexeme = close.lexeme ∧
      Written (.list (items.map part)) (es.map Token.lexeme) ∧ ∀ a ∈ items, good a := by
  simp only [bracketed, reads_bind, reads_take] at h
  obtain ⟨_, _, ⟨rfl, rfl⟩, hlist⟩ := h
  obtain ⟨ts₁, rfl, hts₁, hopen⟩ := hs.fixed hkind hopening.1 hopening.2
  obtain ⟨c, us, hus, hc, ⟨es, rfl, hes⟩, hgood⟩ :=
    takes_listOf hitem hts₁ hlist hclose.1 hclose.2
  exact ⟨es, c, us, rfl, hus, hopen, hc, hes, hgood⟩

end Lists

/-! ### Statements and blocks -/

/-- What the parser of inner expressions gives was written in the tokens it took. It is graded,
holds no operator too weak for the context at its root, and stops before a token that does not go
on. -/
def Sound [Text.Alphabet] (sub : Sub) : Prop :=
  ∀ {p : Nat} {s t : Stream} {ts : List Token} {n : Node}, Precedence.lowest ≤ p →
    s.Supplies ts → Reads (sub p) s n t →
    ∃ us, t.Supplies us ∧ Takes (.expression n) ts us ∧ n.Graded ∧ (∀ q ∈ n.level?, p < q) ∧
      (firstKind us).precedence ≤ p

section Statements

variable {sub : Sub} {ends : TokenKind → Bool} {s t : Stream} {ts us vs : List Token}

theorem takes_skipOptional [Text.Alphabet] {a : Unit} (hs : s.Supplies ts)
    (h : Reads (skipOptional .semicolon) s a t) :
    ∃ us, t.Supplies us ∧
      (ts = us ∨ ∃ c, c.lexeme = TokenKind.semicolon.lexeme ∧ ts = c :: us) := by
  have ht := reads_skipOptional.mp h
  split at ht
  · next hsemicolon =>
    obtain ⟨us, rfl, hus, hlexeme⟩ := hs.fixed hsemicolon rfl nofun
    exact ⟨us, ht ▸ hus, Or.inr ⟨_, hlexeme, rfl⟩⟩
  · exact ⟨ts, ht ▸ hs, Or.inl rfl⟩

theorem takes_statement [Text.Alphabet] (hsub : Sound sub) {n : Node} (hs : s.Supplies ts)
    (h : Reads (statement sub) s n t) :
    ∃ us vs, t.Supplies vs ∧ Takes (.statement n) ts us ∧ n.Graded ∧
      (firstKind us).precedence ≤ Precedence.lowest ∧
      (us = vs ∨ ∃ c, c.lexeme = TokenKind.semicolon.lexeme ∧ us = c :: vs) := by
  simp only [statement, reads_bind, reads_next] at h
  obtain ⟨_, _, ⟨rfl, rfl⟩, h⟩ := h
  split at h
  · next hlet =>
    simp only [letStatement, reads_bind, reads_take, reads_expect, reads_pure] at h
    obtain ⟨_, _, ⟨rfl, rfl⟩, name, _, ⟨hident, rfl, rfl⟩, _, _, ⟨hassign, rfl, rfl⟩, value, u,
      hvalue, _, v, hskip, rfl, rfl⟩ := h
    obtain ⟨ts₁, rfl, hts₁, hletLexeme⟩ := hs.fixed hlet rfl nofun
    obtain ⟨ts₂, rfl, hts₂, -⟩ := hts₁.uncons (hident ▸ nofun)
    obtain ⟨ts₃, rfl, hts₃, hassignLexeme⟩ := hts₂.fixed hassign rfl nofun
    obtain ⟨us, hus, htakes, hgraded, -, hnext⟩ := hsub (Nat.le_refl _) hts₃ hvalue
    obtain ⟨vs, hvs, hend⟩ := takes_skipOptional hus hskip
    refine ⟨us, vs, hvs, ?_, hgraded, hnext, hend⟩
    refine htakes.extend [_, _, _] (Nat.le_refl _) fun ls hls => ?_
    simpa [hletLexeme, Token.lexeme_of_kind hident, hassignLexeme] using Written.letBind _ hls
  · next hreturn =>
    simp only [returnStatement, reads_bind, reads_take, reads_pure] at h
    obtain ⟨_, _, ⟨rfl, rfl⟩, value, u, hvalue, _, v, hskip, rfl, rfl⟩ := h
    obtain ⟨ts₁, rfl, hts₁, hlexeme⟩ := hs.fixed hreturn rfl nofun
    obtain ⟨us, hus, htakes, hgraded, -, hnext⟩ := hsub (Nat.le_refl _) hts₁ hvalue
    obtain ⟨vs, hvs, hend⟩ := takes_skipOptional hus hskip
    refine ⟨us, vs, hvs, ?_, hgraded, hnext, hend⟩
    refine htakes.extend [_] (Nat.le_refl _) fun ls hls => ?_
    simpa [hlexeme] using Written.returning hls
  · simp only [expressionStatement, reads_bind, reads_pure] at h
    obtain ⟨inner, u, hinner, _, v, hskip, rfl, rfl⟩ := h
    obtain ⟨us, hus, htakes, hgraded, -, hnext⟩ := hsub (Nat.le_refl _) hs hinner
    obtain ⟨vs, hvs, hend⟩ := takes_skipOptional hus hskip
    exact ⟨us, vs, hvs, htakes.extend [] (Nat.le_refl _) fun ls hls => .expression hls, hgraded,
      hnext, hend⟩

theorem reads_statementStep (hsub : YieldsShaped sub) {found : List Node}
    {r : List Node ⊕ List Node} (h : Reads (statementStep sub ends found) s r t) :
    (∃ n, Reads (statement sub) s n t ∧ r = .inl (found ++ [n])) ∨
      (ends s.next.kind ∧ r = .inr found ∧ s = t) := by
  simp only [statementStep, reads_bind, reads_next] at h
  obtain ⟨_, _, ⟨rfl, rfl⟩, h⟩ := h
  split at h
  · next hends =>
    obtain ⟨rfl, rfl⟩ := reads_pure.mp h
    exact Or.inr ⟨hends, rfl, rfl⟩
  · simp only [reads_bind, reads_attempt] at h
    obtain ⟨node, u, hnode, h⟩ := h
    cases node with
    | none =>
      -- A statement that gave no tree has reported why.
      have hloud := (yields_statement hsub s).1
      rw [hnode] at hloud
      exact absurd rfl (hloud rfl)
    | some n =>
      obtain ⟨rfl, rfl⟩ := reads_pure.mp h
      exact Or.inl ⟨n, hnode, rfl⟩

theorem Node.blocksAtLast_le_cons (n : Node) (ns : List Node) :
    blocksAtLast ns ≤ blocksAtLast (n :: ns) := by
  cases ns with
  | nil => exact Nat.zero_le _
  | cons m rest => exact Nat.le_refl _

theorem Takes.terminated {n : Node} {ns : List Node} {c : Token}
    (h : Takes (.statement n) ts (c :: us)) (hc : c.lexeme = TokenKind.semicolon.lexeme)
    (hrest : Takes (.statements ns) us vs) : Takes (.statements (n :: ns)) ts vs := by
  obtain ⟨taken, rfl, hwritten⟩ := h.consumes (by simp)
  have hall : Takes (.statements (n :: ns)) ((taken ++ [c]) ++ us) vs := by
    refine hrest.extend (taken ++ [c]) (Node.blocksAtLast_le_cons n ns) fun ls hls => ?_
    simpa [hc] using Written.terminated hwritten hls
  simpa using hall

theorem TokenKind.goesOn_eq_false {kind : TokenKind} (h : kind.precedence ≤ Precedence.lowest) :
    kind.goesOn = false := by
  cases kind <;> first | rfl | exact absurd h (by decide)

theorem Written.statements_nil {ns : List Node} (h : Written (.statements ns) []) : ns = [] := by
  generalize hls : ([] : List Lexeme) = ls at h
  cases h with
  | done => rfl
  | terminated => simp at hls
  | unterminated hnode =>
    obtain ⟨l, rest, rfl, -⟩ := hnode.statement_begins
    cases hls

theorem Written.statements_braces {ns : List Node} {missing : Nat}
    (h : Written (.statements ns) (List.replicate missing TokenKind.rightBrace.lexeme)) :
    ns = [] ∧ missing = 0 := by
  cases missing with
  | zero => exact ⟨h.statements_nil, rfl⟩
  | succ missing =>
    rcases h.statements_begin with hnil | ⟨l, rest, hl, hbegins⟩
    · cases hnil
    · rw [List.replicate_succ, List.cons.injEq] at hl
      rw [← hl.1] at hbegins
      cases hbegins

theorem Takes.unterminated {n : Node} {ns : List Node} (h : Takes (.statement n) ts us)
    (hnext : (firstKind us).precedence ≤ Precedence.lowest)
    (hrest : Takes (.statements ns) us vs) : Takes (.statements (n :: ns)) ts vs := by
  obtain ⟨second, missing', rfl, hle, hvs, hsecond⟩ := hrest
  by_cases hnone : second ++ vs = []
  · -- The statement ends the input, so no statement comes behind it.
    obtain ⟨rfl, rfl⟩ := List.append_eq_nil_iff.mp hnone
    obtain ⟨rfl, rfl⟩ := Written.statements_braces hsecond
    refine h.extend [] (Nat.le_refl _) fun ls hls => ?_
    simpa using Written.unterminated hls .done nofun
  · obtain ⟨first, rfl, hfirst⟩ := h.consumes hnone
    refine ⟨first ++ second, missing', by simp,
      Nat.le_trans hle (Node.blocksAtLast_le_cons n ns), hvs, ?_⟩
    rw [List.map_append, List.append_assoc]
    refine .unterminated hfirst hsecond ?_
    cases second with
    | nil =>
      obtain rfl := hvs hnone
      exact nofun
    | cons t rest =>
      rintro _ ⟨⟩
      exact TokenKind.goesOn_eq_false hnext

theorem takes_statements [Text.Alphabet] (hsub : Sound sub) (hshape : YieldsShaped sub) {k : Nat}
    {found result : List Node} (h : Iterates (statementStep sub ends) k found s result t) :
    ∀ {ts : List Token}, s.Supplies ts →
      ∃ ns us, result = found ++ ns ∧ t.Supplies us ∧ ends (firstKind us) ∧
        Takes (.statements ns) ts us ∧ Node.AllGraded ns := by
  induction h with
  | done last =>
    intro ts hs
    rcases reads_statementStep hshape last with ⟨_, _, hr⟩ | ⟨hends, hr, rfl⟩
    · cases hr
    · cases hr
      have htakes : Takes (.statements []) ts ts := Consumes.takes ⟨[], rfl, .done⟩
      exact ⟨[], ts, by simp, hs, hs.next_kind ▸ hends, htakes, trivial⟩
  | again first _ ih =>
    intro ts hs
    rcases reads_statementStep hshape first with ⟨n, hn, hr⟩ | ⟨_, hr, _⟩
    · cases hr
      obtain ⟨us₁, vs₁, hvs₁, htakes, hgraded, hnext, hend⟩ := takes_statement hsub hs hn
      obtain ⟨ns, us, rfl, hus, hends, hrest, hall⟩ := ih hvs₁
      refine ⟨n :: ns, us, by simp, hus, hends, ?_, hgraded, hall⟩
      rcases hend with rfl | ⟨c, hc, rfl⟩
      · exact htakes.unterminated hnext hrest
      · exact htakes.terminated hc hrest
    · cases hr

theorem takes_blockBody [Text.Alphabet] (hsub : Sound sub) (hshape : YieldsShaped sub) {n : Node}
    {o : Token} (ho : o.lexeme = TokenKind.leftBrace.lexeme) (hs : s.Supplies ts)
    (h : Reads (blockBody sub) s n t) :
    ∃ us, t.Supplies us ∧ Takes (.block n) (o :: ts) us ∧ n.Graded := by
  simp only [blockBody, statements, reads_bind, reads_loop, reads_take, reads_pure] at h
  obtain ⟨_, _, ⟨_, u, ⟨_, _, hloop⟩, _, _, ⟨rfl, rfl⟩, rfl, rfl⟩, rfl, rfl⟩ := h
  obtain ⟨ns, us₁, rfl, hus₁, hends, htakes, hall⟩ := takes_statements hsub hshape hloop hs
  cases us₁ with
  | nil =>
    obtain ⟨taken, missing, rfl, hle, -, hwritten⟩ := htakes
    refine ⟨[], ⟨hus₁.toHolds.advance_nil, hus₁.lexed⟩, ?_, hall⟩
    refine ⟨o :: taken, missing + 1, by simp, Nat.succ_le_succ hle, fun hne => absurd rfl hne, ?_⟩
    simpa [ho, List.replicate_succ'] using Written.block hwritten
  | cons c us =>
    have hc : c.kind = .rightBrace := by
      have hkind : endsBlock c.kind := hends
      simp only [endsBlock, Bool.or_eq_true, decide_eq_true_eq] at hkind
      exact hkind.resolve_right (hus₁.before_eof c (by simp))
    have hlexeme := (hus₁.lexed c (by simp)).eq_lexeme hc rfl
    obtain ⟨taken, rfl, hwritten⟩ := htakes.consumes (by simp)
    refine ⟨us, ⟨hus₁.advance_cons, fun x hx => hus₁.lexed x (List.mem_cons_of_mem c hx)⟩, ?_, hall⟩
    refine Consumes.takes ⟨o :: (taken ++ [c]), by simp, ?_⟩
    simpa [ho, hlexeme] using Written.block hwritten

end Statements

/-! ### Forms that begin an expression -/

/-- An expression read as far as `us`. The next token has not been refused yet; an operator there
would bind the expression as its left operand. -/
structure ReadAs (p : Nat) (n : Node) (ts us : List Token) : Prop where
  takes : Takes (.expression n) ts us
  graded : n.Graded
  strong : ∀ q ∈ n.level?, p < q
  binary : ∀ q ∈ n.level?, (firstKind us).precedence ≤ q
  prefixed : n.isPrefixed → (firstKind us).precedence ≤ Precedence.unary

theorem readAs_of_closed {p : Nat} {n : Node} {ts us : List Token}
    (htakes : Takes (.expression n) ts us) (hgraded : n.Graded) (hlevel : n.level? = none)
    (hplain : n.isPrefixed = false) : ReadAs p n ts us := by
  refine ⟨htakes, hgraded, ?_, ?_, ?_⟩ <;> simp [hlevel, hplain]

theorem Written.level_lt_unary {n : Node} {ls : List Lexeme} (h : Written (.expression n) ls) :
    ∀ q ∈ n.level?, q < Precedence.unary := by
  cases h with
  | infixOp known =>
    intro q hq
    obtain rfl := Option.some.inj hq
    exact Operator.level_lt_unary known
  | _ => intro q hq; cases hq

theorem Takes.level_lt_unary {n : Node} {ts us : List Token} (h : Takes (.expression n) ts us) :
    ∀ q ∈ n.level?, q < Precedence.unary := by
  obtain ⟨_, _, _, _, _, hwritten⟩ := h
  exact hwritten.level_lt_unary

section Forms

variable [Text.Alphabet] {sub : Sub} {s t : Stream} {ts : List Token} {n : Node} {p : Nat}

theorem readAs_token (hs : s.Supplies ts) (hkind : s.next.kind ≠ .eof)
    (hwritten : s.next.lexeme.Lexed → Written (.expression n) [s.next.lexeme]) (hgraded : n.Graded)
    (hlevel : n.level? = none) (hplain : n.isPrefixed = false) :
    ∃ us, s.advance.Supplies us ∧ ReadAs p n ts us := by
  obtain ⟨us, rfl, hus, hlexed⟩ := hs.uncons hkind
  have htakes : Takes (.expression n) (s.next :: us) us :=
    Consumes.takes ⟨[s.next], rfl, hwritten hlexed⟩
  exact ⟨us, hus, readAs_of_closed htakes hgraded hlevel hplain⟩

theorem readAs_identifier (hs : s.Supplies ts) (hkind : s.next.kind = .ident)
    (h : Reads identifier s n t) : ∃ us, t.Supplies us ∧ ReadAs p n ts us := by
  simp only [identifier, reads_bind, reads_take, reads_pure] at h
  obtain ⟨_, _, ⟨rfl, rfl⟩, rfl, rfl⟩ := h
  refine readAs_token hs (hkind ▸ nofun) (fun _ => ?_) trivial rfl rfl
  rw [Token.lexeme_of_kind hkind]
  exact .identifier _

theorem readAs_textLiteral (hs : s.Supplies ts) (hkind : s.next.kind = .string)
    (h : Reads textLiteral s n t) : ∃ us, t.Supplies us ∧ ReadAs p n ts us := by
  simp only [textLiteral, reads_bind, reads_take, reads_pure] at h
  obtain ⟨_, _, ⟨rfl, rfl⟩, rfl, rfl⟩ := h
  refine readAs_token hs (hkind ▸ nofun) (fun _ => ?_) trivial rfl rfl
  rw [Token.lexeme_of_kind hkind]
  exact .text _

theorem readAs_integerLiteral (hs : s.Supplies ts) (hkind : s.next.kind = .int)
    (h : Reads integerLiteral s n t) : ∃ us, t.Supplies us ∧ ReadAs p n ts us := by
  simp only [integerLiteral, reads_bind, reads_next] at h
  obtain ⟨_, _, ⟨rfl, rfl⟩, h⟩ := h
  split at h
  · next value hvalue =>
    simp only [reads_bind, reads_take, reads_pure] at h
    obtain ⟨_, _, ⟨rfl, rfl⟩, rfl, rfl⟩ := h
    refine readAs_token hs (hkind ▸ nofun) (fun hlexed => ?_) trivial rfl rfl
    rw [Token.lexeme_of_kind hkind] at hlexed ⊢
    obtain ⟨value', hnumeral⟩ := hlexed
    have hread := hnumeral.integer?_eq
    rw [String.ofList_toList, hvalue] at hread
    obtain rfl := Option.some.inj hread
    simpa using Written.integer hnumeral
  · exact absurd h not_reads_refuse

theorem readAs_booleanLiteral (hs : s.Supplies ts)
    (hkind : s.next.kind = .trueWord ∨ s.next.kind = .falseWord) (h : Reads booleanLiteral s n t) :
    ∃ us, t.Supplies us ∧ ReadAs p n ts us := by
  simp only [booleanLiteral, reads_bind, reads_take, reads_pure] at h
  obtain ⟨_, _, ⟨rfl, rfl⟩, rfl, rfl⟩ := h
  have heof : s.next.kind ≠ .eof := by rcases hkind with hkind | hkind <;> rw [hkind] <;> nofun
  refine readAs_token hs heof (fun hlexed => ?_) trivial rfl rfl
  rcases hkind with hkind | hkind <;> rw [hlexed.eq_lexeme hkind rfl, hkind]
  · exact .boolean true
  · exact .boolean false

theorem readAs_prefixExpression (hsub : Sound sub) (hs : s.Supplies ts) (operator : Operator)
    (known : operator ∈ Operator.leading) (hkind : s.next.kind = operator.kind)
    (h : Reads (prefixExpression sub) s n t) : ∃ us, t.Supplies us ∧ ReadAs p n ts us := by
  simp only [prefixExpression, reads_bind, reads_take, reads_pure] at h
  obtain ⟨_, _, ⟨rfl, rfl⟩, right, u, hright, rfl, rfl⟩ := h
  obtain ⟨ts₁, rfl, hts₁, hlexeme⟩ := hs.fixed hkind (Operator.isFixed_kind operator)
    (Operator.kind_ne_eof operator)
  obtain ⟨us, hus, htakes, hgraded, hstrong, hnext⟩ := hsub (by decide) hts₁ hright
  have hop := Operator.ofText_literal (List.mem_append_left _ known) hlexeme
  have hnone : right.level? = none := by
    refine Option.eq_none_iff_forall_not_mem.mpr fun q hq => ?_
    exact Nat.lt_asymm (hstrong q hq) (htakes.level_lt_unary q hq)
  rw [hop]
  refine ⟨us, hus, ?_, ⟨hnone, hgraded⟩, nofun, nofun, fun _ => hnext⟩
  refine htakes.extend [_] (Nat.le_refl _) fun ls hls => ?_
  simpa [hlexeme, Operator.lexeme] using Written.prefixOp known hls

theorem readAs_groupedExpression (hsub : Sound sub) (hs : s.Supplies ts)
    (hkind : s.next.kind = .leftParen) (h : Reads (groupedExpression sub) s n t) :
    ∃ us, t.Supplies us ∧ ReadAs p n ts us := by
  simp only [groupedExpression, reads_bind, reads_take, reads_expect, reads_pure] at h
  obtain ⟨_, _, ⟨rfl, rfl⟩, inner, u, hinner, _, _, ⟨hclose, rfl, rfl⟩, rfl, rfl⟩ := h
  obtain ⟨ts₁, rfl, hts₁, hopen⟩ := hs.fixed hkind rfl nofun
  obtain ⟨us₁, hus₁, htakes, hgraded, -⟩ := hsub (Nat.le_refl _) hts₁ hinner
  obtain ⟨us, rfl, hus, hclosed⟩ := hus₁.fixed hclose rfl nofun
  obtain ⟨taken, rfl, hwritten⟩ := htakes.consumes (by simp)
  refine ⟨us, hus, readAs_of_closed (Consumes.takes ?_) hgraded rfl rfl⟩
  refine ⟨s.next :: (taken ++ [u.next]), by simp, ?_⟩
  simpa [hopen, hclosed] using Written.grouped hwritten

theorem takes_elseBranch (hsub : Sound sub) (hshape : YieldsShaped sub) (hs : s.Supplies ts)
    (h : Reads (elseBranch sub) s n t) :
    (n = .hole ∧ t.Supplies ts) ∨ ∃ e us vs, ts = e :: us ∧ e.lexeme = TokenKind.elseWord.lexeme ∧
      t.Supplies vs ∧ Takes (.block n) us vs ∧ n.Graded := by
  simp only [elseBranch, reads_bind, reads_next] at h
  obtain ⟨_, _, ⟨rfl, rfl⟩, h⟩ := h
  split at h
  · next helse =>
    simp only [reads_bind, reads_take, reads_expect] at h
    obtain ⟨_, _, ⟨rfl, rfl⟩, _, _, ⟨hopen, rfl, rfl⟩, hblock⟩ := h
    obtain ⟨ts₁, rfl, hts₁, helseLexeme⟩ := hs.fixed helse rfl nofun
    obtain ⟨ts₂, rfl, hts₂, hopenLexeme⟩ := hts₁.fixed hopen rfl nofun
    obtain ⟨us, hus, htakes, hgraded⟩ := takes_blockBody hsub hshape hopenLexeme hts₂ hblock
    exact Or.inr ⟨_, _, us, rfl, helseLexeme, hus, htakes, hgraded⟩
  · obtain ⟨rfl, rfl⟩ := reads_pure.mp h
    exact Or.inl ⟨rfl, hs⟩

theorem readAs_conditional (hsub : Sound sub) (hshape : YieldsShaped sub) (hs : s.Supplies ts)
    (hkind : s.next.kind = .ifWord) (h : Reads (conditional sub) s n t) :
    ∃ us, t.Supplies us ∧ ReadAs p n ts us := by
  simp only [conditional, reads_bind, reads_take, reads_expect, reads_pure] at h
  obtain ⟨_, _, ⟨rfl, rfl⟩, _, _, ⟨hopen, rfl, rfl⟩, condition, u, hcondition, _, _,
    ⟨hclose, rfl, rfl⟩, _, _, ⟨hbrace, rfl, rfl⟩, consequence, v, hconsequence, alternative, w,
    helse, rfl, rfl⟩ := h
  obtain ⟨ts₁, rfl, hts₁, hifLexeme⟩ := hs.fixed hkind rfl nofun
  obtain ⟨ts₂, rfl, hts₂, hopenLexeme⟩ := hts₁.fixed hopen rfl nofun
  obtain ⟨us₁, hus₁, hcond, hgcond, -⟩ := hsub (Nat.le_refl _) hts₂ hcondition
  obtain ⟨us₂, rfl, hus₂, hcloseLexeme⟩ := hus₁.fixed hclose rfl nofun
  obtain ⟨us₃, rfl, hus₃, hbraceLexeme⟩ := hus₂.fixed hbrace rfl nofun
  obtain ⟨us₄, hus₄, hblock, hgblock⟩ := takes_blockBody hsub hshape hbraceLexeme hus₃ hconsequence
  obtain ⟨cs, rfl, hcs⟩ := hcond.consumes (by simp)
  rcases takes_elseBranch hsub hshape hus₄ helse with
    ⟨rfl, hus⟩ | ⟨e, us₅, us, rfl, helseLexeme, hus, halternative, hgalternative⟩
  · refine ⟨us₄, hus, readAs_of_closed ?_ ⟨hgcond, hgblock, trivial⟩ rfl rfl⟩
    have hall : Takes (.expression (.conditional condition consequence .hole))
        (s.next :: s.advance.next :: (cs ++ [u.next]) ++ u.advance.next :: us₃) us₄ := by
      refine hblock.extend _ (Nat.le_refl _) fun ls hls => ?_
      simpa [hifLexeme, hopenLexeme, hcloseLexeme] using Written.conditional hcs hls
    simpa using hall
  · refine ⟨us, hus, readAs_of_closed ?_ ⟨hgcond, hgblock, hgalternative⟩ rfl rfl⟩
    obtain ⟨bs, hbs, hwritten⟩ := hblock.consumes (by simp)
    have hall : Takes (.expression (.conditional condition consequence alternative))
        (s.next :: s.advance.next :: (cs ++ u.next :: (bs ++ [e])) ++ us₅) us := by
      refine halternative.extend _ ?_ fun ls hls => ?_
      · obtain ⟨_, _, _, _, _, hwritten⟩ := halternative
        obtain ⟨ns, rfl⟩ := hwritten.block_form
        exact Nat.le_refl _
      · simpa [hifLexeme, hopenLexeme, hcloseLexeme, helseLexeme] using
          Written.conditionalElse hcs hwritten hls
    rw [hbs]
    simpa using hall

theorem takesItems_parameter : TakesItems parameter .parameter fun _ => True := by
  intro s t ts name hs h
  simp only [parameter, reads_bind, reads_expect, reads_pure] at h
  obtain ⟨_, _, ⟨hkind, rfl, rfl⟩, rfl, rfl⟩ := h
  obtain ⟨us, rfl, hus, -⟩ := hs.uncons (hkind ▸ nofun)
  refine ⟨us, hus, fun _ => ⟨[s.next], rfl, ?_⟩, trivial⟩
  rw [List.map_singleton, Token.lexeme_of_kind hkind]
  exact .parameter _

theorem takesItems_expression (hsub : Sound sub) :
    TakesItems (sub Precedence.lowest) .expression Node.Graded := by
  intro s t ts n hs h
  obtain ⟨us, hus, htakes, hgraded, -⟩ := hsub (Nat.le_refl _) hs h
  exact ⟨us, hus, htakes.consumes, hgraded⟩

theorem takesItems_mapEntry (hsub : Sound sub) :
    TakesItems (mapEntry sub) (fun e => .entry e.1 e.2) fun e => e.1.Graded ∧ e.2.Graded := by
  intro s t ts e hs h
  simp only [mapEntry, reads_bind, reads_expect, reads_pure] at h
  obtain ⟨key, u, hkey, _, _, ⟨hcolon, rfl, rfl⟩, value, v, hvalue, rfl, rfl⟩ := h
  obtain ⟨us₁, hus₁, hkeyTakes, hgkey, -⟩ := hsub (Nat.le_refl _) hs hkey
  obtain ⟨us₂, rfl, hus₂, hlexeme⟩ := hus₁.fixed hcolon rfl nofun
  obtain ⟨us, hus, hvalueTakes, hgvalue, -⟩ := hsub (Nat.le_refl _) hus₂ hvalue
  refine ⟨us, hus, fun hne => ?_, hgkey, hgvalue⟩
  obtain ⟨ks, rfl, hks⟩ := hkeyTakes.consumes (by simp)
  obtain ⟨vs, rfl, hvs⟩ := hvalueTakes.consumes hne
  refine ⟨ks ++ u.next :: vs, by simp, ?_⟩
  simpa [hlexeme] using Written.entry hks hvs

theorem readAs_functionLiteral (hsub : Sound sub) (hshape : YieldsShaped sub) (hs : s.Supplies ts)
    (hkind : s.next.kind = .fnWord) (h : Reads (functionLiteral sub) s n t) :
    ∃ us, t.Supplies us ∧ ReadAs p n ts us := by
  simp only [functionLiteral, reads_bind, reads_take, reads_expect, reads_pure] at h
  obtain ⟨_, _, ⟨rfl, rfl⟩, _, _, ⟨hopen, rfl, rfl⟩, parameters, u, hparameters, _, _,
    ⟨hbrace, rfl, rfl⟩, body, v, hbody, rfl, rfl⟩ := h
  obtain ⟨ts₁, rfl, hts₁, hfnLexeme⟩ := hs.fixed hkind rfl nofun
  obtain ⟨ts₂, rfl, hts₂, hopenLexeme⟩ := hts₁.fixed hopen rfl nofun
  obtain ⟨c, us₁, hus₁, hc, ⟨ps, rfl, hps⟩, -⟩ :=
    takes_listOf takesItems_parameter hts₂ hparameters rfl nofun
  obtain ⟨us₂, rfl, hus₂, hbraceLexeme⟩ := hus₁.fixed hbrace rfl nofun
  obtain ⟨us, hus, hblock, hgraded⟩ := takes_blockBody hsub hshape hbraceLexeme hus₂ hbody
  refine ⟨us, hus, readAs_of_closed ?_ hgraded rfl rfl⟩
  have hall : Takes (.expression (.function parameters body))
      (s.next :: s.advance.next :: (ps ++ [c]) ++ u.next :: us₂) us := by
    refine hblock.extend _ (Nat.le_refl _) fun ls hls => ?_
    simpa [hfnLexeme, hopenLexeme, hc] using Written.function hps hls
  simpa using hall

theorem readAs_arrayLiteral (hsub : Sound sub) (hs : s.Supplies ts)
    (hkind : s.next.kind = .leftBracket) (h : Reads (arrayLiteral sub) s n t) :
    ∃ us, t.Supplies us ∧ ReadAs p n ts us := by
  simp only [arrayLiteral, reads_bind, reads_pure] at h
  obtain ⟨elements, _, helements, rfl, rfl⟩ := h
  obtain ⟨es, c, us, rfl, hus, hopen, hc, hes, hgraded⟩ :=
    takes_bracketed (takesItems_expression hsub) hs hkind helements ⟨rfl, nofun⟩ ⟨rfl, nofun⟩
  refine ⟨us, hus, readAs_of_closed (Consumes.takes ?_) (Node.allGraded_iff.mpr hgraded) rfl rfl⟩
  refine ⟨s.next :: (es ++ [c]), by simp, ?_⟩
  simpa [hopen, hc] using Written.array hes

theorem readAs_mapLiteral (hsub : Sound sub) (hs : s.Supplies ts)
    (hkind : s.next.kind = .leftBrace) (h : Reads (mapLiteral sub) s n t) :
    ∃ us, t.Supplies us ∧ ReadAs p n ts us := by
  simp only [mapLiteral, reads_bind, reads_pure] at h
  obtain ⟨entries, _, hentries, rfl, rfl⟩ := h
  obtain ⟨es, c, us, rfl, hus, hopen, hc, hes, hgraded⟩ :=
    takes_bracketed (takesItems_mapEntry hsub) hs hkind hentries ⟨rfl, nofun⟩ ⟨rfl, nofun⟩
  have hall := Node.entriesGraded_iff.mpr hgraded
  refine ⟨us, hus, readAs_of_closed (Consumes.takes ?_) hall rfl rfl⟩
  refine ⟨s.next :: (es ++ [c]), by simp, ?_⟩
  simpa [hopen, hc] using Written.mapping hes

theorem readAs_prefixRule? (hsub : Sound sub) (hshape : YieldsShaped sub) (hs : s.Supplies ts)
    {rule : Parser Node} (hrule : prefixRule? sub s.next.kind = some rule) (h : Reads rule s n t) :
    ∃ us, t.Supplies us ∧ ReadAs p n ts us := by
  cases hkind : s.next.kind <;> rw [hkind] at hrule <;> cases hrule
  case ident => exact readAs_identifier hs hkind h
  case int => exact readAs_integerLiteral hs hkind h
  case string => exact readAs_textLiteral hs hkind h
  case bang => exact readAs_prefixExpression hsub hs .bang (by decide) hkind h
  case minus => exact readAs_prefixExpression hsub hs .minus (by decide) hkind h
  case trueWord => exact readAs_booleanLiteral hs (Or.inl hkind) h
  case falseWord => exact readAs_booleanLiteral hs (Or.inr hkind) h
  case leftParen => exact readAs_groupedExpression hsub hs hkind h
  case ifWord => exact readAs_conditional hsub hshape hs hkind h
  case fnWord => exact readAs_functionLiteral hsub hshape hs hkind h
  case leftBracket => exact readAs_arrayLiteral hsub hs hkind h
  case leftBrace => exact readAs_mapLiteral hsub hs hkind h

end Forms

/-! ### Operators behind an expression -/

section Operators

variable {sub : Sub} {s t : Stream} {ts us : List Token} {left n : Node} {p : Nat}

theorem infixRule?_cases {kind : TokenKind} {rule : Node → Parser Node}
    (h : infixRule? sub kind = some rule) :
    (∃ operator ∈ Operator.between, kind = operator.kind ∧ rule = infixExpression sub) ∨
      (kind = .leftParen ∧ rule = callExpression sub) ∨
      (kind = .leftBracket ∧ rule = indexExpression sub) := by
  cases kind <;> cases h
  case plus => exact Or.inl ⟨.plus, by decide, rfl, rfl⟩
  case minus => exact Or.inl ⟨.minus, by decide, rfl, rfl⟩
  case star => exact Or.inl ⟨.star, by decide, rfl, rfl⟩
  case slash => exact Or.inl ⟨.slash, by decide, rfl, rfl⟩
  case less => exact Or.inl ⟨.less, by decide, rfl, rfl⟩
  case greater => exact Or.inl ⟨.greater, by decide, rfl, rfl⟩
  case equal => exact Or.inl ⟨.equal, by decide, rfl, rfl⟩
  case notEqual => exact Or.inl ⟨.notEqual, by decide, rfl, rfl⟩
  case leftParen => exact Or.inr (Or.inl ⟨rfl, rfl⟩)
  case leftBracket => exact Or.inr (Or.inr ⟨rfl, rfl⟩)

theorem infixRule?_ne_none {kind : TokenKind} (h : Precedence.lowest < kind.precedence) :
    infixRule? sub kind ≠ none := by
  cases kind <;> first | exact absurd h (Nat.lt_irrefl _) | exact nofun

theorem ReadAs.closed (h : ReadAs p left ts us)
    (hnext : Precedence.unary < (firstKind us).precedence) :
    left.level? = none ∧ left.isPrefixed = false := by
  constructor
  · refine Option.eq_none_iff_forall_not_mem.mpr fun q hq => ?_
    have hbinary := h.binary q hq
    have hunary := h.takes.level_lt_unary q hq
    omega
  · refine Bool.eq_false_iff.mpr fun hprefixed => ?_
    have hunary := h.prefixed hprefixed
    omega

variable [Text.Alphabet]

theorem readAs_infixExpression (hsub : Sound sub) (hleft : ReadAs p left ts us)
    (hs : s.Supplies us) {operator : Operator} (known : operator ∈ Operator.between)
    (hkind : s.next.kind = operator.kind) (hp : p < s.next.kind.precedence)
    (h : Reads (infixExpression sub left) s n t) : ∃ vs, t.Supplies vs ∧ ReadAs p n ts vs := by
  simp only [infixExpression, reads_bind, reads_take, reads_pure] at h
  obtain ⟨_, _, ⟨rfl, rfl⟩, right, u, hright, rfl, rfl⟩ := h
  obtain ⟨us₁, rfl, hus₁, hlexeme⟩ := hs.fixed hkind (Operator.isFixed_kind operator)
    (Operator.kind_ne_eof operator)
  have hop := Operator.ofText_literal (List.mem_append_right _ known) hlexeme
  have hlevel : s.next.kind.precedence = operator.level := congrArg TokenKind.precedence hkind
  have hlowest := Operator.lowest_lt_level known
  rw [hlevel] at hp hright
  obtain ⟨vs, hvs, htakes, hgraded, hstrong, hnext⟩ := hsub (Nat.le_of_lt hlowest) hus₁ hright
  obtain ⟨taken, rfl, hwritten⟩ := hleft.takes.consumes (by simp)
  have hbinary : ∀ q ∈ left.level?, operator.level ≤ q := by
    intro q hq
    rw [← hlevel]
    exact hleft.binary q hq
  rw [hop]
  refine ⟨vs, hvs, ?_, ⟨hbinary, hstrong, hleft.graded, hgraded⟩, ?_, ?_, nofun⟩
  · have hall :
        Takes (.expression (.infixOp left operator right)) (taken ++ [s.next] ++ us₁) vs := by
      refine htakes.extend _ (Nat.le_refl _) fun ls hls => ?_
      simpa [hlexeme, Operator.lexeme] using Written.infixOp known hwritten hls
    simpa using hall
  · rintro _ ⟨⟩
    exact hp
  · rintro _ ⟨⟩
    exact hnext

theorem readAs_callExpression (hsub : Sound sub) (hleft : ReadAs p left ts us)
    (hs : s.Supplies us) (hkind : s.next.kind = .leftParen)
    (h : Reads (callExpression sub left) s n t) : ∃ vs, t.Supplies vs ∧ ReadAs p n ts vs := by
  simp only [callExpression, reads_bind, reads_pure] at h
  obtain ⟨arguments, _, harguments, rfl, rfl⟩ := h
  obtain ⟨as, c, vs, rfl, hvs, hopen, hc, has, hgraded⟩ :=
    takes_bracketed (takesItems_expression hsub) hs hkind harguments ⟨rfl, nofun⟩ ⟨rfl, nofun⟩
  obtain ⟨hlevel, hplain⟩ := hleft.closed (by rw [firstKind_cons, hkind]; decide)
  obtain ⟨taken, rfl, hwritten⟩ := hleft.takes.consumes (by simp)
  refine ⟨vs, hvs, readAs_of_closed (Consumes.takes ?_)
    ⟨hlevel, hplain, hleft.graded, Node.allGraded_iff.mpr hgraded⟩ rfl rfl⟩
  refine ⟨taken ++ s.next :: (as ++ [c]), by simp, ?_⟩
  simpa [hopen, hc] using Written.call hwritten has

theorem readAs_indexExpression (hsub : Sound sub) (hleft : ReadAs p left ts us)
    (hs : s.Supplies us) (hkind : s.next.kind = .leftBracket)
    (h : Reads (indexExpression sub left) s n t) : ∃ vs, t.Supplies vs ∧ ReadAs p n ts vs := by
  simp only [indexExpression, reads_bind, reads_take, reads_expect, reads_pure] at h
  obtain ⟨_, _, ⟨rfl, rfl⟩, position, u, hposition, _, _, ⟨hclose, rfl, rfl⟩, rfl, rfl⟩ := h
  obtain ⟨us₁, rfl, hus₁, hopen⟩ := hs.fixed hkind rfl nofun
  obtain ⟨us₂, hus₂, htakes, hgraded, -⟩ := hsub (Nat.le_refl _) hus₁ hposition
  obtain ⟨vs, rfl, hvs, hclosed⟩ := hus₂.fixed hclose rfl nofun
  obtain ⟨hlevel, hplain⟩ := hleft.closed (by rw [firstKind_cons, hkind]; decide)
  obtain ⟨taken, rfl, hwritten⟩ := hleft.takes.consumes (by simp)
  obtain ⟨ps, rfl, hps⟩ := htakes.consumes (by simp)
  refine ⟨vs, hvs, readAs_of_closed (Consumes.takes ?_)
    ⟨hlevel, hplain, hleft.graded, hgraded⟩ rfl rfl⟩
  refine ⟨taken ++ s.next :: (ps ++ [u.next]), by simp, ?_⟩
  simpa [hopen, hclosed] using Written.index hwritten hps

omit [Text.Alphabet] in
theorem reads_operatorStep {r : Node ⊕ Node} (h : Reads (operatorStep sub p left) s r t) :
    (p < s.next.kind.precedence ∧ ∃ rule n, infixRule? sub s.next.kind = some rule ∧
        Reads (rule left) s n t ∧ r = .inl n) ∨
      ((p < s.next.kind.precedence → infixRule? sub s.next.kind = none) ∧ r = .inr left ∧
        s = t) := by
  simp only [operatorStep, reads_bind, reads_next] at h
  obtain ⟨_, _, ⟨rfl, rfl⟩, h⟩ := h
  split at h
  · next hp =>
    split at h
    · next rule hrule =>
      simp only [reads_bind, reads_pure] at h
      obtain ⟨n, _, hn, rfl, rfl⟩ := h
      exact Or.inl ⟨hp, rule, n, hrule, hn, rfl⟩
    · next hrule =>
      obtain ⟨rfl, rfl⟩ := reads_pure.mp h
      exact Or.inr ⟨fun _ => hrule, rfl, rfl⟩
  · next hp =>
    obtain ⟨rfl, rfl⟩ := reads_pure.mp h
    exact Or.inr ⟨fun hlt => absurd hlt hp, rfl, rfl⟩

theorem readAs_infixRule? (hsub : Sound sub) (hleft : ReadAs p left ts us) (hs : s.Supplies us)
    (hp : p < s.next.kind.precedence) {rule : Node → Parser Node}
    (hrule : infixRule? sub s.next.kind = some rule) (h : Reads (rule left) s n t) :
    ∃ vs, t.Supplies vs ∧ ReadAs p n ts vs := by
  rcases infixRule?_cases hrule with ⟨operator, known, hkind, rfl⟩ | ⟨hkind, rfl⟩ | ⟨hkind, rfl⟩
  · exact readAs_infixExpression hsub hleft hs known hkind hp h
  · exact readAs_callExpression hsub hleft hs hkind h
  · exact readAs_indexExpression hsub hleft hs hkind h

theorem readAs_operators (hsub : Sound sub) (hlowest : Precedence.lowest ≤ p) {k : Nat}
    (h : Iterates (operatorStep sub p) k left s n t) :
    ∀ {us : List Token}, s.Supplies us → ReadAs p left ts us →
      ∃ vs, t.Supplies vs ∧ ReadAs p n ts vs ∧ (firstKind vs).precedence ≤ p := by
  induction h with
  | done last =>
    intro us hs hleft
    rcases reads_operatorStep last with ⟨_, _, _, _, _, hr⟩ | ⟨hnone, hr, rfl⟩
    · cases hr
    · cases hr
      refine ⟨us, hs, hleft, Nat.le_of_not_lt fun hlt => ?_⟩
      rw [← hs.next_kind] at hlt
      exact infixRule?_ne_none (Nat.lt_of_le_of_lt hlowest hlt) (hnone hlt)
  | again first _ ih =>
    intro us hs hleft
    rcases reads_operatorStep first with ⟨hp, rule, n', hrule, hn', hr⟩ | ⟨_, hr, _⟩
    · cases hr
      obtain ⟨vs, hvs, hread⟩ := readAs_infixRule? hsub hleft hs hp hrule hn'
      exact ih hvs hread
    · cases hr

theorem sound_expressionForm (hsub : Sound sub) (hshape : YieldsShaped sub) :
    Sound (expressionForm sub) := by
  intro p s t ts n hlowest hs h
  simp only [expressionForm, reads_bind, reads_next] at h
  obtain ⟨_, _, ⟨rfl, rfl⟩, h⟩ := h
  split at h
  · next rule hrule =>
    simp only [reads_bind, reads_loop] at h
    obtain ⟨first, u, hfirst, k, _, hloop⟩ := h
    obtain ⟨us, hus, hread⟩ := readAs_prefixRule? hsub hshape hs hrule hfirst
    obtain ⟨vs, hvs, hread, hnext⟩ := readAs_operators hsub hlowest hloop hus hread
    exact ⟨vs, hvs, hread.takes, hread.graded, hread.strong, hnext⟩
  · exact absurd h not_reads_refuse

end Operators

theorem sound_expressionWithin [Text.Alphabet] (depth : Nat) : Sound (expressionWithin depth) := by
  induction depth with
  | zero => exact fun _ _ h => absurd h not_reads_refuse
  | succ depth ih => exact sound_expressionForm ih (yieldsShaped_expressionWithin depth)

theorem sound_expression [Text.Alphabet] : Sound Parser.expression :=
  fun {_ s _ _ _} => sound_expressionWithin (s.pending.length + 1)

/-! ### Programs -/

theorem supplies_ofScan [Text.Alphabet] (source : String) :
    (Stream.ofScan (Lexer.scan source)).Supplies (Lexer.scan source).tokens := by
  have htokens := Lexer.lexed_scanWithin (source.toList.length + 1) (.start source.toList)
  exact ⟨⟨Lexer.scanWithin_ending _ _, fun t ht => (htokens t ht).2, Or.inl rfl⟩,
    fun t ht => (htokens t ht).1⟩

theorem takes_program [Text.Alphabet] {s t : Stream} {ts : List Token} {n : Node}
    (hs : s.Supplies ts) (h : Reads program s n t) :
    ∃ ns, n = .program ns ∧ Takes (.statements ns) ts [] ∧ Node.AllGraded ns := by
  simp only [program, statements, reads_bind, reads_loop, reads_take, reads_pure] at h
  obtain ⟨_, _, ⟨_, u, ⟨_, _, hloop⟩, _, _, ⟨rfl, rfl⟩, rfl, rfl⟩, rfl, rfl⟩ := h
  obtain ⟨ns, us, rfl, hus, hends, htakes, hall⟩ :=
    takes_statements sound_expression yieldsShaped_expression hloop hs
  refine ⟨_, rfl, ?_, hall⟩
  cases us with
  | nil => exact htakes
  | cons c us =>
    have hkind : c.kind = .eof := of_decide_eq_true hends
    exact absurd hkind (hus.before_eof c (by simp))

theorem parse_eq_ok [Text.Alphabet] {source : String} {parsed : Parsed} :
    parse source = .ok parsed ↔
      (Lexer.scan source).oversized = none ∧ parseScan (Lexer.scan source) = parsed := by
  simp only [parse]
  split <;> simp_all

theorem takes_of_parse [Text.Alphabet] {source : String} {parsed : Parsed}
    (h : parse source = .ok parsed) (hclean : parsed.diagnostics = []) :
    ∃ ns, parsed.program = .program ns ∧ Takes (.statements ns) (Lexer.scan source).tokens [] ∧
      Node.AllGraded ns := by
  obtain ⟨-, rfl⟩ := parse_eq_ok.mp h
  obtain ⟨n, t, hread⟩ := yields_program.reads hclean
  obtain ⟨ns, rfl, htakes, hgraded⟩ := takes_program (supplies_ofScan source) hread
  exact ⟨ns, congrArg Parsed.program (parseScan_of_reads hread), htakes, hgraded⟩

/-- A source without diagnostics is, token by token, the program read from it. A statement may end
in a semicolon or not, and at the end of input the closing braces of the blocks that end there may
be missing. -/
theorem written_of_parse [Text.Alphabet] {source : String} {parsed : Parsed}
    (h : parse source = .ok parsed) (hclean : parsed.diagnostics = []) :
    ∃ ns missing, parsed.program = .program ns ∧ Node.AllGraded ns ∧
      missing ≤ Node.blocksAtLast ns ∧
      Written (.statements ns) ((Lexer.scan source).tokens.map Token.lexeme ++
        List.replicate missing TokenKind.rightBrace.lexeme) := by
  obtain ⟨ns, hprogram, ⟨taken, missing, htaken, hle, -, hwritten⟩, hgraded⟩ :=
    takes_of_parse h hclean
  rw [List.append_nil] at htaken
  exact ⟨ns, missing, hprogram, hgraded, hle, htaken ▸ hwritten⟩

theorem written_of_parse_open_block :
    ∃ parsed, parse "if (a) \x7b -b * (c + 01);" = .ok parsed ∧ parsed.diagnostics = [] ∧
      ∃ ns missing, parsed.program = .program ns ∧ Node.AllGraded ns ∧
        missing ≤ Node.blocksAtLast ns ∧
        Written (.statements ns)
          ((Lexer.scan "if (a) \x7b -b * (c + 01);").tokens.map Token.lexeme ++
            List.replicate missing TokenKind.rightBrace.lexeme) :=
  ⟨_, rfl, rfl, written_of_parse rfl rfl⟩

end MonkeyLang

import MonkeyLang.Proofs.Syntax.Numeral
import MonkeyLang.Proofs.Syntax.Opening

/-!
Every graded tree is read from the tokens that write it down. The parser of inner expressions is
assumed to read everything that is shorter than a bound; a form takes at least one token before it
reads an inner expression, so one more level of nesting reads one more token.

The left operand of an operator is not read by a call of its own: it is what the loop has read so
far. The statement about expressions therefore says what is read when the loop goes on behind them.
-/
namespace MonkeyLang

open MonkeyLang.Parser

/-! ### Where an expression stops -/

/-- The tokens neither go on with an expression in a context of the given strength nor begin an else
branch. -/
def Stops (p : Nat) (us : List Token) : Prop :=
  (firstKind us).precedence ≤ p ∧ firstKind us ≠ .elseWord

theorem stops_cons {p : Nat} {t : Token} {us : List Token} (ht : t.kind.precedence ≤ p)
    (helse : t.kind ≠ .elseWord) : Stops p (t :: us) := ⟨ht, helse⟩

/-- The parser of inner expressions reads every graded expression, as long as the tokens up to the
end of input are fewer than the bound. -/
def Complete (bound : Nat) (sub : Sub) : Prop :=
  ∀ {p : Nat} {n : Node} {ts us : List Token}, p ≤ Precedence.unary →
    Written (.expression n) (ts.map Token.lexeme) → n.Graded → (∀ q ∈ n.level?, p < q) →
    Stops p us → (ts ++ us).length < bound → Accepts (sub p) (ts ++ us) n us

theorem Complete.accepts_lowest {bound : Nat} {sub : Sub} (hsub : Complete bound sub) {n : Node}
    {ts us : List Token} (h : Written (.expression n) (ts.map Token.lexeme)) (hg : n.Graded)
    (hstop : Stops Precedence.lowest us) (hlen : (ts ++ us).length < bound) :
    Accepts (sub Precedence.lowest) (ts ++ us) n us :=
  hsub (by decide) h hg h.lowest_lt hstop hlen

/-! ### Lists -/

section Lists

variable {α : Type} {item : Parser α} {part : α → Phrase} {bound : Nat}

def ReadsItems (bound : Nat) (item : Parser α) (part : α → Phrase) (close : TokenKind)
    (items : List α) : Prop :=
  ∀ a ∈ items, ∀ {ts us : List Token}, Written (part a) (ts.map Token.lexeme) →
    firstKind us = .comma ∨ firstKind us = close → (ts ++ us).length < bound →
    Accepts item (ts ++ us) a us

theorem accepts_listStep_comma {t : Token} {ts us : List Token} {found : List α} {a : α}
    (ht : t.kind = .comma) (h : Accepts item ts a us) :
    Accepts (listStep item found) (t :: ts) (.inl (found ++ [a])) us := by
  refine accepts_next_bind fun u hu => ?_
  rw [if_pos (hu.trans ht)]
  exact accepts_take.bind (h.bind accepts_pure)

theorem accepts_listStep_end {ts : List Token} {found : List α} (ht : firstKind ts ≠ .comma) :
    Accepts (listStep item found) ts (.inr found) ts := by
  refine accepts_next_bind fun u hu => ?_
  rw [if_neg (hu ▸ ht)]
  exact accepts_pure

theorem accepts_items {c : Token} {us : List Token} (hc : c.kind ≠ .comma) :
    ∀ (items : List α) (a : α) (found : List α) (ts : List Token),
      ReadsItems bound item part c.kind (a :: items) →
      Written (.list ((a :: items).map part)) (ts.map Token.lexeme) →
      (ts ++ c :: us).length < bound →
      ∃ ws, Accepts item (ts ++ c :: us) a ws ∧ ws.length ≤ (ts ++ c :: us).length ∧
        Repeats (listStep item) (found ++ [a]) ws (found ++ a :: items) (c :: us) := by
  intro items
  induction items with
  | nil =>
    intro a found ts hitems h hlen
    cases h with
    | single hpart =>
      refine ⟨c :: us, hitems a (by simp) hpart (Or.inr rfl) hlen, by simp, ?_⟩
      exact .done (accepts_listStep_end hc)
  | cons b rest ih =>
    intro a found ts hitems h hlen
    generalize hls : ts.map Token.lexeme = ls at h
    cases h with
    | more hpart hrest =>
      obtain ⟨ts₁, ts', rfl, rfl, hts'⟩ := List.map_eq_append_iff.mp hls
      obtain ⟨comma, ts₂, rfl, -, hcomma, rfl⟩ := map_lexeme_eq_cons hts'
      simp only [List.append_assoc, List.cons_append] at hlen ⊢
      have hrestItems : ReadsItems bound item part c.kind (b :: rest) :=
        fun x hx => hitems x (List.mem_cons_of_mem a hx)
      have hlen₂ : (ts₂ ++ c :: us).length < bound := by
        simp only [List.length_append, List.length_cons] at hlen ⊢
        omega
      obtain ⟨ws, hb, hws, hloop⟩ := ih b (found ++ [a]) ts₂ hrestItems hrest hlen₂
      refine ⟨comma :: (ts₂ ++ c :: us), ?_, by simp, ?_⟩
      · exact hitems a (by simp) hpart (Or.inl hcomma) hlen
      · simp only [List.append_assoc, List.singleton_append] at hloop
        refine .again (accepts_listStep_comma hcomma hb) ?_ (by simpa using hloop)
        simp only [List.length_cons]
        omega

theorem accepts_listOf {c : Token} {us : List Token} (hc : c.kind ≠ .comma)
    (hcloses : c.kind.opens = false) {items : List α} {ts : List Token}
    (hitems : ReadsItems bound item part c.kind items)
    (hopens : ∀ a ls, Written (part a) ls → StartsWith TokenKind.opens ls)
    (h : Written (.list (items.map part)) (ts.map Token.lexeme))
    (hlen : (ts ++ c :: us).length < bound) :
    Accepts (listOf item c.kind) (ts ++ c :: us) items us := by
  refine accepts_next_bind fun t ht => ?_
  cases items with
  | nil =>
    have hnone : ts = [] := by
      generalize hls : ts.map Token.lexeme = ls at h
      cases h
      exact List.map_eq_nil_iff.mp hls
    subst hnone
    have hkind : t.kind = c.kind := ht
    rw [if_pos hkind]
    exact accepts_take.bind accepts_pure
  | cons a items =>
    have hparts : ∀ phrase ∈ (a :: items).map part, ∀ ls, Written phrase ls →
        StartsWith TokenKind.opens ls := by
      intro phrase hmem
      obtain ⟨b, -, rfl⟩ := List.mem_map.mp hmem
      exact hopens b
    have hfirst := (h.list_opens hparts (by simp)).firstKind_append (c :: us)
    have hne : t.kind ≠ c.kind := by
      intro heq
      rw [← ht, heq, hcloses] at hfirst
      cases hfirst
    rw [if_neg hne]
    obtain ⟨ws, hfirst, -, hloop⟩ := accepts_items hc items a [] ts hitems h hlen
    exact hfirst.bind ((accepts_loop hloop).bind ((accepts_expect rfl).bind accepts_pure))

end Lists

/-! ### Statements and blocks -/

section Statements

variable {bound : Nat} {sub : Sub} {ends : TokenKind → Bool}

theorem TokenKind.apart_of_begins {kind : TokenKind} (h : kind.begins)
    (hapart : kind.goesOn = false) :
    kind.precedence ≤ Precedence.lowest ∧ kind ≠ .elseWord ∧ kind ≠ .semicolon := by
  cases kind <;> simp_all [begins, opens, goesOn, precedence, Precedence.lowest]

def Apart (us : List Token) : Prop := Stops Precedence.lowest us ∧ firstKind us ≠ .semicolon

theorem apart_append {ns : List Node} {ts us : List Token}
    (h : Written (.statements ns) (ts.map Token.lexeme))
    (hhead : ∀ l ∈ (ts.map Token.lexeme).head?, l.kind.goesOn = false) (hus : Apart us) :
    Apart (ts ++ us) := by
  rcases h.statements_begin with hnone | ⟨l, rest, hls, hl⟩
  · rw [List.map_eq_nil_iff.mp hnone]
    exact hus
  · obtain ⟨t, ts', rfl, rfl, -⟩ := List.map_eq_cons_iff.mp hls
    have hkind := TokenKind.apart_of_begins hl (hhead t.lexeme (by simp))
    exact ⟨⟨hkind.1, hkind.2.1⟩, hkind.2.2⟩

theorem accepts_letStatement (hsub : Complete bound sub) {name : String} {value : Node}
    {l i e : Token} {ts us vs : List Token} (hi : i.lexeme = ⟨.ident, name⟩) (he : e.kind = .assign)
    (h : Written (.expression value) (ts.map Token.lexeme)) (hg : value.Graded)
    (hstop : Stops Precedence.lowest us) (hlen : (ts ++ us).length < bound)
    (hend : Accepts (skipOptional .semicolon) us () vs) :
    Accepts (letStatement sub) (l :: i :: e :: (ts ++ us)) (.letBind name value) vs := by
  obtain rfl : i.literal = name := congrArg Lexeme.literal hi
  have hident : i.kind = .ident := congrArg Lexeme.kind hi
  have hvalue := hsub.accepts_lowest h hg hstop hlen
  exact accepts_take.bind ((accepts_expect hident).bind ((accepts_expect he).bind
    (hvalue.bind (hend.bind accepts_pure))))

theorem accepts_statement (hsub : Complete bound sub) {n : Node} {ts us vs : List Token}
    (h : Written (.statement n) (ts.map Token.lexeme)) (hg : n.Graded)
    (hstop : Stops Precedence.lowest us) (hlen : (ts ++ us).length < bound)
    (hend : Accepts (skipOptional .semicolon) us () vs) :
    Accepts (statement sub) (ts ++ us) n vs := by
  refine accepts_next_bind fun t ht => ?_
  generalize hls : ts.map Token.lexeme = ls at h
  cases h with
  | letBind name hvalue =>
    obtain ⟨l, ts₁, rfl, -, hl, hts₁⟩ := map_lexeme_eq_cons hls
    obtain ⟨i, ts₂, rfl, hi, hts₂⟩ := List.map_eq_cons_iff.mp hts₁
    obtain ⟨e, ts₃, rfl, -, he, rfl⟩ := map_lexeme_eq_cons hts₂
    rw [ht, List.cons_append, firstKind_cons, hl]
    simp only [List.cons_append, List.length_cons] at hlen ⊢
    exact accepts_letStatement hsub hi he hvalue hg hstop (by omega) hend
  | returning hvalue =>
    obtain ⟨r, ts₁, rfl, -, hr, rfl⟩ := map_lexeme_eq_cons hls
    rw [ht, List.cons_append, firstKind_cons, hr]
    simp only [List.cons_append, List.length_cons] at hlen ⊢
    have hread := hsub.accepts_lowest hvalue hg hstop (by omega)
    exact accepts_take.bind (hread.bind (hend.bind accepts_pure))
  | expression hinner =>
    subst hls
    have hopens : t.kind.opens := ht ▸ (hinner.expression_opens _ rfl).firstKind_append us
    have hread := hsub.accepts_lowest hinner hg hstop hlen
    split
    · next hlet => rw [hlet] at hopens; cases hopens
    · next hreturn => rw [hreturn] at hopens; cases hopens
    · exact hread.bind (hend.bind accepts_pure)

theorem accepts_statementStep_end {found : List Node} {us : List Token}
    (hends : ends (firstKind us)) : Accepts (statementStep sub ends found) us (.inr found) us := by
  refine accepts_next_bind fun t ht => ?_
  rw [if_pos (ht ▸ hends)]
  exact accepts_pure

theorem accepts_statementStep {found : List Node} {n : Node} {ts us : List Token}
    (hends : ends (firstKind ts) = false) (h : Accepts (statement sub) ts n us) :
    Accepts (statementStep sub ends found) ts (.inl (found ++ [n])) us := by
  refine accepts_next_bind fun t ht => ?_
  rw [if_neg (by rw [ht, hends]; decide)]
  exact h.attempt.bind accepts_pure

theorem repeats_statements (hsub : Complete bound sub)
    (hbegins : ∀ kind : TokenKind, kind.begins → ends kind = false) {us : List Token}
    (hends : ends (firstKind us)) (hus : Apart us) :
    ∀ (ns found : List Node) (ts : List Token),
      Written (.statements ns) (ts.map Token.lexeme) → Node.AllGraded ns →
      (ts ++ us).length < bound →
      Repeats (statementStep sub ends) found (ts ++ us) (found ++ ns) us := by
  intro ns
  induction ns with
  | nil =>
    intro found ts h _ _
    generalize hls : ts.map Token.lexeme = ls at h
    cases h
    obtain rfl := List.map_eq_nil_iff.mp hls
    rw [List.append_nil]
    exact .done (accepts_statementStep_end hends)
  | cons n rest ih =>
    intro found ts h hg hlen
    generalize hls : ts.map Token.lexeme = ls at h
    cases h with
    | terminated hnode hrest =>
      obtain ⟨ts₁, ts', rfl, rfl, hts'⟩ := List.map_eq_append_iff.mp hls
      obtain ⟨c, ts₂, rfl, -, hc, rfl⟩ := map_lexeme_eq_cons hts'
      have hfirst := hbegins _ (hnode.statement_begins.firstKind_append (c :: (ts₂ ++ us)))
      have hstop : Stops Precedence.lowest (c :: (ts₂ ++ us)) :=
        stops_cons (by rw [hc]; decide) (by rw [hc]; decide)
      simp only [List.append_assoc, List.cons_append, List.length_append, List.length_cons]
        at hlen hfirst ⊢
      have hread := accepts_statement hsub hnode hg.1 hstop
        (by simp only [List.length_append, List.length_cons]; omega)
        (accepts_skipOptional_cons hc)
      have hloop := ih (found ++ [n]) ts₂ hrest hg.2 (by simp only [List.length_append]; omega)
      rw [List.append_assoc] at hloop
      refine .again (accepts_statementStep hfirst hread) ?_ hloop
      simp only [List.length_append, List.length_cons]
      omega
    | unterminated hnode hrest apart =>
      obtain ⟨ts₁, ts₂, rfl, rfl, rfl⟩ := List.map_eq_append_iff.mp hls
      have hfirst := hbegins _ (hnode.statement_begins.firstKind_append (ts₂ ++ us))
      have hapart := apart_append hrest apart hus
      have hsome : 0 < ts₁.length := by
        obtain ⟨l, rest', hl, -⟩ := hnode.statement_begins
        have hlength := congrArg List.length hl
        simp only [List.length_map, List.length_cons] at hlength
        omega
      rw [List.append_assoc] at hlen ⊢
      have hread := accepts_statement hsub hnode hg.1 hapart.1 hlen
        (accepts_skipOptional_of_ne hapart.2)
      rw [List.length_append] at hlen
      have hloop := ih (found ++ [n]) ts₂ hrest hg.2 (by omega)
      rw [List.append_assoc] at hloop
      refine .again (accepts_statementStep hfirst hread) ?_ hloop
      simp only [List.length_append]
      omega

theorem accepts_blockBody (hsub : Complete bound sub) {ns : List Node} {c : Token}
    {ts : List Token} (us : List Token) (hc : c.kind = .rightBrace)
    (h : Written (.statements ns) (ts.map Token.lexeme)) (hg : Node.AllGraded ns)
    (hlen : (ts ++ c :: us).length < bound) :
    Accepts (blockBody sub) (ts ++ c :: us) (.block ns) us := by
  have hbegins : ∀ kind : TokenKind, kind.begins → endsBlock kind = false := by
    intro kind hkind
    cases kind <;> first | rfl | cases hkind
  have hapart : Apart (c :: us) :=
    ⟨stops_cons (by rw [hc]; decide) (by rw [hc]; decide), by rw [firstKind_cons, hc]; decide⟩
  have hends : endsBlock (firstKind (c :: us)) := by
    rw [firstKind_cons, hc]
    rfl
  have hloop := repeats_statements hsub hbegins hends hapart ns [] ts h hg hlen
  have hstatements : Accepts (statements sub endsBlock) (ts ++ c :: us) ns us :=
    (accepts_loop hloop).bind (accepts_take.bind accepts_pure)
  exact hstatements.bind accepts_pure

theorem Written.block_tokens {n : Node} {ts : List Token}
    (h : Written (.block n) (ts.map Token.lexeme)) :
    ∃ o inner c ns, ts = o :: (inner ++ [c]) ∧ n = .block ns ∧ o.kind = .leftBrace ∧
      c.kind = .rightBrace ∧ Written (.statements ns) (inner.map Token.lexeme) := by
  generalize hls : ts.map Token.lexeme = ls at h
  cases h with
  | @block ns _ hstatements =>
    obtain ⟨o, ts₁, rfl, -, ho, hts₁⟩ := map_lexeme_eq_cons hls
    obtain ⟨inner, c, rfl, rfl, hc⟩ := map_lexeme_eq_concat hts₁
    exact ⟨o, inner, c, ns, rfl, rfl, ho, hc, hstatements⟩

end Statements

/-! ### Items of lists -/

section Items

variable {bound : Nat} {sub : Sub} {ts us : List Token}

theorem readsItems_expression (hsub : Complete bound sub) {close : TokenKind}
    (hclose : close.precedence ≤ Precedence.lowest) (helse : close ≠ .elseWord)
    {items : List Node} (hg : Node.AllGraded items) :
    ReadsItems bound (sub Precedence.lowest) .expression close items := by
  intro n hn ts us h hend hlen
  refine hsub.accepts_lowest h (Node.allGraded_iff.mp hg n hn) ?_ hlen
  rcases hend with hend | hend
  · exact ⟨by rw [hend]; decide, by rw [hend]; decide⟩
  · exact ⟨by rw [hend]; exact hclose, by rw [hend]; exact helse⟩

theorem readsItems_mapEntry (hsub : Complete bound sub) {entries : List (Node × Node)}
    (hg : Node.EntriesGraded entries) :
    ReadsItems bound (mapEntry sub) (fun e => .entry e.1 e.2) .rightBrace entries := by
  intro e he ts us h hend hlen
  obtain ⟨hkey, hvalue⟩ := Node.entriesGraded_iff.mp hg e he
  generalize hls : ts.map Token.lexeme = ls at h
  cases h with
  | entry hk hv =>
    obtain ⟨ks, ts', rfl, rfl, hts'⟩ := List.map_eq_append_iff.mp hls
    obtain ⟨c, vs, rfl, -, hc, rfl⟩ := map_lexeme_eq_cons hts'
    have hcolon : Stops Precedence.lowest (c :: (vs ++ us)) :=
      stops_cons (by rw [hc]; decide) (by rw [hc]; decide)
    have hstop : Stops Precedence.lowest us := by
      rcases hend with hend | hend <;> exact ⟨by rw [hend]; decide, by rw [hend]; decide⟩
    simp only [List.append_assoc, List.cons_append, List.length_append, List.length_cons]
      at hlen ⊢
    have hreadKey := hsub.accepts_lowest hk hkey hcolon
      (by simp only [List.length_append, List.length_cons]; omega)
    have hreadValue := hsub.accepts_lowest hv hvalue hstop
      (by simp only [List.length_append]; omega)
    exact hreadKey.bind ((accepts_expect hc).bind (hreadValue.bind accepts_pure))

theorem readsItems_parameter {names : List String} :
    ReadsItems bound parameter .parameter .rightParen names := by
  intro name _ ts us h _ _
  generalize hls : ts.map Token.lexeme = ls at h
  cases h with
  | parameter =>
    obtain ⟨t, none, rfl, ht, hnone⟩ := List.map_eq_cons_iff.mp hls
    obtain rfl := List.map_eq_nil_iff.mp hnone
    obtain rfl : t.literal = name := congrArg Lexeme.literal ht
    exact (accepts_expect (congrArg Lexeme.kind ht)).bind accepts_pure

theorem accepts_expressions (hsub : Complete bound sub) {items : List Node} (o : Token) {c : Token}
    (us : List Token) (hc : c.kind = .rightParen ∨ c.kind = .rightBracket)
    (hg : Node.AllGraded items) (h : Written (.list (items.map .expression)) (ts.map Token.lexeme))
    (hlen : (ts ++ c :: us).length < bound) :
    Accepts (bracketed (sub Precedence.lowest) c.kind) (o :: (ts ++ c :: us)) items us := by
  have hkind : c.kind.precedence ≤ Precedence.lowest ∧ c.kind ≠ .elseWord ∧ c.kind ≠ .comma ∧
      c.kind.opens = false := by
    rcases hc with hc | hc <;> rw [hc] <;> decide
  have hitems := readsItems_expression hsub hkind.1 hkind.2.1 hg
  exact accepts_take.bind (accepts_listOf hkind.2.2.1 hkind.2.2.2 hitems
    (fun _ _ hn => hn.expression_opens _ rfl) h hlen)

theorem accepts_entries (hsub : Complete bound sub) {entries : List (Node × Node)} (o : Token)
    {c : Token} (us : List Token) (hc : c.kind = .rightBrace) (hg : Node.EntriesGraded entries)
    (h : Written (.list (entries.map fun e => .entry e.1 e.2)) (ts.map Token.lexeme))
    (hlen : (ts ++ c :: us).length < bound) :
    Accepts (bracketed (mapEntry sub) .rightBrace) (o :: (ts ++ c :: us)) entries us := by
  have hopens : ∀ (e : Node × Node) (ls : List Lexeme), Written (.entry e.1 e.2) ls →
      StartsWith TokenKind.opens ls := by
    intro e ls he
    cases he with
    | entry hkey => exact (hkey.expression_opens _ rfl).append _
  have hitems := readsItems_mapEntry hsub hg
  rw [← hc] at hitems ⊢
  exact accepts_take.bind
    (accepts_listOf (by rw [hc]; decide) (by rw [hc]; rfl) hitems hopens h hlen)

theorem accepts_parameters {parameters : List String} {c : Token} (us : List Token)
    (hc : c.kind = .rightParen)
    (h : Written (.list (parameters.map .parameter)) (ts.map Token.lexeme)) :
    Accepts (listOf parameter .rightParen) (ts ++ c :: us) parameters us := by
  have hopens : ∀ (name : String) (ls : List Lexeme), Written (.parameter name) ls →
      StartsWith TokenKind.opens ls := by
    intro name ls hname
    cases hname
    exact ⟨_, _, rfl, rfl⟩
  have hitems : ReadsItems ((ts ++ c :: us).length + 1) parameter .parameter .rightParen
      parameters := readsItems_parameter
  rw [← hc] at hitems ⊢
  exact accepts_listOf (by rw [hc]; decide) (by rw [hc]; rfl) hitems hopens h (Nat.lt_succ_self _)

end Items

/-! ### Forms that begin an expression -/

section Forms

variable {bound : Nat} {sub : Sub} {ts us : List Token}

def Begins (sub : Sub) (ts : List Token) (n : Node) (us : List Token) : Prop :=
  ∃ rule, prefixRule? sub (firstKind ts) = some rule ∧ Accepts rule ts n us

theorem begins_cons {t : Token} {kind : TokenKind} (ht : t.kind = kind) {rule : Parser Node}
    (hrule : prefixRule? sub kind = some rule) {n : Node} (h : Accepts rule (t :: ts) n us) :
    Begins sub (t :: ts) n us :=
  ⟨rule, by rw [firstKind_cons, ht, hrule], h⟩

theorem begins_integer {digits : List Char} {value : Int} (h : Numeral digits value) {t : Token}
    (ht : t.lexeme = ⟨.int, String.ofList digits⟩) : Begins sub (t :: us) (.integer value) us := by
  have hread : Text.integer? t.literal = some value := by
    rw [show t.literal = String.ofList digits from congrArg Lexeme.literal ht, h.integer?_eq]
  refine begins_cons (congrArg Lexeme.kind ht) rfl (accepts_next_cons_bind ?_)
  rw [hread]
  exact accepts_take.bind accepts_pure

theorem begins_boolean {value : Bool} {t : Token}
    (ht : t.kind = if value then .trueWord else .falseWord) :
    Begins sub (t :: us) (.boolean value) us := by
  have hvalue : decide (t.kind = .trueWord) = value := by rw [ht]; cases value <;> rfl
  have hread : Accepts booleanLiteral (t :: us) (.boolean (decide (t.kind = .trueWord))) us :=
    accepts_take.bind accepts_pure
  rw [hvalue] at hread
  exact begins_cons ht (by cases value <;> rfl) hread

theorem begins_prefixOp {operator : Operator} (known : operator ∈ Operator.leading)
    {t : Token} (ht : t.lexeme = operator.lexeme) {right : Node}
    (h : Accepts (sub Precedence.unary) ts right us) :
    Begins sub (t :: ts) (.prefixOp operator right) us := by
  have hop := Operator.ofText_literal (List.mem_append_left _ known) ht
  refine begins_cons (congrArg Lexeme.kind ht) (Operator.prefixRule?_of_mem_leading known sub) ?_
  rw [← hop]
  exact accepts_take.bind (h.bind accepts_pure)

theorem begins_grouped (hsub : Complete bound sub) {inner : Node} {o c : Token}
    (ho : o.kind = .leftParen) (hc : c.kind = .rightParen)
    (h : Written (.expression inner) (ts.map Token.lexeme)) (hg : inner.Graded)
    (hlen : (ts ++ c :: us).length < bound) :
    Begins sub (o :: (ts ++ c :: us)) (.grouped inner) us := by
  have hstop : Stops Precedence.lowest (c :: us) :=
    stops_cons (by rw [hc]; decide) (by rw [hc]; decide)
  have hread := hsub.accepts_lowest h hg hstop hlen
  exact begins_cons ho rfl (accepts_take.bind (hread.bind ((accepts_expect hc).bind accepts_pure)))

theorem begins_function (hsub : Complete bound sub) {parameters : List String} {body : Node}
    {f o c : Token} {bs : List Token} (hf : f.kind = .fnWord) (ho : o.kind = .leftParen)
    (hc : c.kind = .rightParen)
    (h : Written (.list (parameters.map .parameter)) (ts.map Token.lexeme))
    (hbody : Written (.block body) (bs.map Token.lexeme)) (hg : body.Graded)
    (hlen : (bs ++ us).length ≤ bound) :
    Begins sub (f :: o :: (ts ++ c :: (bs ++ us))) (.function parameters body) us := by
  obtain ⟨b, inner, e, ns, rfl, rfl, hb, he, hstatements⟩ := hbody.block_tokens
  simp only [List.append_assoc, List.cons_append, List.nil_append, List.length_cons] at hlen ⊢
  have hlist := accepts_parameters (b :: (inner ++ e :: us)) hc h
  have hblock := accepts_blockBody hsub us he hstatements hg hlen
  exact begins_cons hf rfl (accepts_take.bind ((accepts_expect ho).bind
    (hlist.bind ((accepts_expect hb).bind (hblock.bind accepts_pure)))))

theorem accepts_elseBranch (hsub : Complete bound sub) {e : Token} (us : List Token)
    (he : e.kind = .elseWord) {alternative : Node}
    (h : Written (.block alternative) (ts.map Token.lexeme)) (hg : alternative.Graded)
    (hlen : (ts ++ us).length ≤ bound) :
    Accepts (elseBranch sub) (e :: (ts ++ us)) alternative us := by
  obtain ⟨b, inner, c, ns, rfl, rfl, hb, hc, hstatements⟩ := h.block_tokens
  simp only [List.append_assoc, List.cons_append, List.nil_append, List.length_cons] at hlen ⊢
  have hblock := accepts_blockBody hsub us hc hstatements hg hlen
  refine accepts_next_bind fun t ht => ?_
  rw [if_pos (ht.trans he)]
  exact accepts_take.bind ((accepts_expect hb).bind hblock)

theorem accepts_elseBranch_none (helse : firstKind us ≠ .elseWord) :
    Accepts (elseBranch sub) us .hole us := by
  refine accepts_next_bind fun t ht => ?_
  rw [if_neg (ht ▸ helse)]
  exact accepts_pure

theorem begins_conditional (hsub : Complete bound sub) {condition consequence alternative : Node}
    {i o c : Token} {bs vs : List Token} (hi : i.kind = .ifWord) (ho : o.kind = .leftParen)
    (hc : c.kind = .rightParen) (h : Written (.expression condition) (ts.map Token.lexeme))
    (hg : condition.Graded) (hblock : Written (.block consequence) (bs.map Token.lexeme))
    (hgblock : consequence.Graded) (helse : Accepts (elseBranch sub) vs alternative us)
    (hlen : (ts ++ c :: (bs ++ vs)).length < bound) :
    Begins sub (i :: o :: (ts ++ c :: (bs ++ vs)))
      (.conditional condition consequence alternative) us := by
  obtain ⟨b, inner, e, ns, rfl, rfl, hb, he, hstatements⟩ := hblock.block_tokens
  have hstop : Stops Precedence.lowest (c :: (b :: (inner ++ [e]) ++ vs)) :=
    stops_cons (by rw [hc]; decide) (by rw [hc]; decide)
  have hread := hsub.accepts_lowest h hg hstop hlen
  simp only [List.append_assoc, List.cons_append, List.nil_append, List.length_append,
    List.length_cons] at hlen hread ⊢
  have hbody := accepts_blockBody hsub vs he hstatements hgblock
    (by simp only [List.length_append, List.length_cons]; omega)
  exact begins_cons hi rfl (accepts_take.bind ((accepts_expect ho).bind (hread.bind
    ((accepts_expect hc).bind ((accepts_expect hb).bind (hbody.bind (helse.bind accepts_pure)))))))

end Forms

/-! ### Expressions -/

section Expressions

variable {bound p : Nat} {sub : Sub} {ts us vs : List Token}

structure Follows (n : Node) (kind : TokenKind) : Prop where
  binary : ∀ q ∈ n.level?, kind.precedence ≤ q
  prefixed : n.isPrefixed → kind.precedence ≤ Precedence.unary
  ne_else : kind ≠ .elseWord

theorem follows_of_closed {n : Node} {kind : TokenKind} (hlevel : n.level? = none)
    (hplain : n.isPrefixed = false) (helse : kind ≠ .elseWord) : Follows n kind := by
  refine ⟨fun q hq => ?_, fun h => ?_, helse⟩
  · rw [hlevel] at hq
    cases hq
  · rw [hplain] at h
    cases h

def Node.extendsLeft : Node → Bool
  | .infixOp _ _ _ | .call _ _ | .index _ _ => true
  | _ => false

theorem begins_written (hsub : Complete bound sub) {n : Node}
    (h : Written (.expression n) (ts.map Token.lexeme)) (hform : n.extendsLeft = false)
    (hg : n.Graded) (hfollows : Follows n (firstKind us)) (hlen : (ts ++ us).length ≤ bound) :
    Begins sub (ts ++ us) n us := by
  generalize hls : ts.map Token.lexeme = ls at h
  cases h with
  | identifier name | text name =>
    obtain ⟨t, none, rfl, ht, hnone⟩ := List.map_eq_cons_iff.mp hls
    obtain rfl := List.map_eq_nil_iff.mp hnone
    obtain rfl : t.literal = name := congrArg Lexeme.literal ht
    exact begins_cons (congrArg Lexeme.kind ht) rfl (accepts_take.bind accepts_pure)
  | integer number =>
    obtain ⟨t, none, rfl, ht, hnone⟩ := List.map_eq_cons_iff.mp hls
    obtain rfl := List.map_eq_nil_iff.mp hnone
    exact begins_integer number ht
  | boolean value =>
    obtain ⟨t, none, rfl, -, ht, hnone⟩ := map_lexeme_eq_cons hls
    obtain rfl := List.map_eq_nil_iff.mp hnone
    exact begins_boolean ht
  | @prefixOp operator right _ known hright =>
    obtain ⟨t, ts₁, rfl, ht, -, rfl⟩ := map_lexeme_eq_cons hls
    obtain ⟨hnone, hgright⟩ := hg
    have hlevel : ∀ q ∈ right.level?, Precedence.unary < q := by
      rw [hnone]
      exact fun _ h => nomatch h
    have hoperand := hsub (by decide) hright hgright hlevel
      ⟨hfollows.prefixed rfl, hfollows.ne_else⟩ hlen
    exact begins_prefixOp known ht hoperand
  | grouped hinner =>
    obtain ⟨o, ts₁, rfl, -, ho, hts₁⟩ := map_lexeme_eq_cons hls
    obtain ⟨ts₂, c, rfl, rfl, hc⟩ := map_lexeme_eq_concat hts₁
    simp only [List.append_assoc, List.cons_append, List.nil_append] at hlen ⊢
    exact begins_grouped hsub ho hc hinner hg hlen
  | conditional hcondition hconsequence =>
    obtain ⟨i, ts₁, rfl, -, hi, hts₁⟩ := map_lexeme_eq_cons hls
    obtain ⟨o, ts₂, rfl, -, ho, hts₂⟩ := map_lexeme_eq_cons hts₁
    obtain ⟨cs, ts₃, rfl, rfl, hts₃⟩ := List.map_eq_append_iff.mp hts₂
    obtain ⟨c, bs, rfl, -, hc, rfl⟩ := map_lexeme_eq_cons hts₃
    simp only [List.append_assoc, List.cons_append, List.length_cons] at hlen ⊢
    exact begins_conditional hsub hi ho hc hcondition hg.1 hconsequence hg.2.1
      (accepts_elseBranch_none hfollows.ne_else) (by omega)
  | conditionalElse hcondition hconsequence halternative =>
    obtain ⟨i, ts₁, rfl, -, hi, hts₁⟩ := map_lexeme_eq_cons hls
    obtain ⟨o, ts₂, rfl, -, ho, hts₂⟩ := map_lexeme_eq_cons hts₁
    obtain ⟨cs, ts₃, rfl, rfl, hts₃⟩ := List.map_eq_append_iff.mp hts₂
    obtain ⟨c, ts₄, rfl, -, hc, hts₄⟩ := map_lexeme_eq_cons hts₃
    obtain ⟨bs, ts₅, rfl, rfl, hts₅⟩ := List.map_eq_append_iff.mp hts₄
    obtain ⟨e, as, rfl, -, he, rfl⟩ := map_lexeme_eq_cons hts₅
    simp only [List.append_assoc, List.cons_append, List.length_append, List.length_cons]
      at hlen ⊢
    have helse := accepts_elseBranch hsub us he halternative hg.2.2
      (by simp only [List.length_append]; omega)
    exact begins_conditional hsub hi ho hc hcondition hg.1 hconsequence hg.2.1 helse
      (by simp only [List.length_append, List.length_cons]; omega)
  | function hparameters hbody =>
    obtain ⟨f, ts₁, rfl, -, hf, hts₁⟩ := map_lexeme_eq_cons hls
    obtain ⟨o, ts₂, rfl, -, ho, hts₂⟩ := map_lexeme_eq_cons hts₁
    obtain ⟨ps, ts₃, rfl, rfl, hts₃⟩ := List.map_eq_append_iff.mp hts₂
    obtain ⟨c, bs, rfl, -, hc, rfl⟩ := map_lexeme_eq_cons hts₃
    simp only [List.append_assoc, List.cons_append, List.length_append, List.length_cons]
      at hlen ⊢
    exact begins_function hsub hf ho hc hparameters hbody hg
      (by simp only [List.length_append]; omega)
  | array helements =>
    obtain ⟨o, ts₁, rfl, -, ho, hts₁⟩ := map_lexeme_eq_cons hls
    obtain ⟨ts₂, c, rfl, rfl, hc⟩ := map_lexeme_eq_concat hts₁
    simp only [List.append_assoc, List.cons_append, List.nil_append] at hlen ⊢
    have hlist := accepts_expressions hsub o us (Or.inr hc) hg helements hlen
    rw [hc] at hlist
    exact begins_cons ho rfl (hlist.bind accepts_pure)
  | mapping hentries =>
    obtain ⟨o, ts₁, rfl, -, ho, hts₁⟩ := map_lexeme_eq_cons hls
    obtain ⟨ts₂, c, rfl, rfl, hc⟩ := map_lexeme_eq_concat hts₁
    simp only [List.append_assoc, List.cons_append, List.nil_append] at hlen ⊢
    have hlist := accepts_entries hsub o us hc hg hentries hlen
    exact begins_cons ho rfl (hlist.bind accepts_pure)
  | infixOp | call | index => cases hform

/-! ### Operators behind an expression -/

theorem accepts_expressionForm {first result : Node} (h : Begins sub ts first us)
    (hloop : Repeats (operatorStep sub p) first us result vs) :
    Accepts (expressionForm sub p) ts result vs := by
  obtain ⟨rule, hrule, hread⟩ := h
  refine accepts_next_bind fun t ht => ?_
  rw [ht, hrule]
  exact hread.bind (accepts_loop hloop)

theorem repeats_operatorStep_end {left : Node} (hstop : (firstKind us).precedence ≤ p) :
    Repeats (operatorStep sub p) left us left us := by
  refine .done (accepts_next_bind fun t ht => ?_)
  rw [ht, if_neg (by omega)]
  exact accepts_pure

theorem repeats_operatorStep {rule : Node → Parser Node} {left left' result : Node}
    (hrule : infixRule? sub (firstKind ts) = some rule) (hp : p < (firstKind ts).precedence)
    (h : Accepts (rule left) ts left' us) (hlen : us.length < ts.length)
    (hloop : Repeats (operatorStep sub p) left' us result vs) :
    Repeats (operatorStep sub p) left ts result vs := by
  refine .again (accepts_next_bind fun t ht => ?_) hlen hloop
  rw [ht]
  simp only [hrule, if_pos hp]
  exact h.bind accepts_pure

theorem repeats_infixOp (hsub : Complete bound sub) {operator : Operator}
    (known : operator ∈ Operator.between) {t : Token} (ht : t.lexeme = operator.lexeme)
    {left right result : Node} (hp : p < operator.level)
    (h : Written (.expression right) (ts.map Token.lexeme)) (hg : right.Graded)
    (hlevel : ∀ q ∈ right.level?, operator.level < q) (hstop : Stops operator.level us)
    (hlen : (ts ++ us).length < bound)
    (hloop : Repeats (operatorStep sub p) (.infixOp left operator right) us result vs) :
    Repeats (operatorStep sub p) left (t :: (ts ++ us)) result vs := by
  have hop := Operator.ofText_literal (List.mem_append_right _ known) ht
  have hkind : firstKind (t :: (ts ++ us)) = operator.kind := congrArg Lexeme.kind ht
  have hrule := Operator.infixRule?_of_mem_between known sub
  have hunary := Nat.le_of_lt (Operator.level_lt_unary known)
  have hright : Accepts (sub t.kind.precedence) (ts ++ us) right us := by
    rw [show t.kind = operator.kind from hkind]
    exact hsub hunary h hg hlevel hstop hlen
  rw [← hkind] at hrule
  rw [← hop] at hloop
  refine repeats_operatorStep hrule ?_ (accepts_take.bind (hright.bind accepts_pure)) ?_ hloop
  · rw [hkind]
    exact hp
  · simp only [List.length_append, List.length_cons]
    omega

theorem repeats_call (hsub : Complete bound sub) {o c : Token} (ho : o.kind = .leftParen)
    (hc : c.kind = .rightParen) {callee result : Node} {arguments : List Node}
    (hp : p ≤ Precedence.unary)
    (h : Written (.list (arguments.map .expression)) (ts.map Token.lexeme))
    (hg : Node.AllGraded arguments) (hlen : (ts ++ c :: us).length < bound)
    (hloop : Repeats (operatorStep sub p) (.call callee arguments) us result vs) :
    Repeats (operatorStep sub p) callee (o :: (ts ++ c :: us)) result vs := by
  have hlist := accepts_expressions hsub o us (Or.inl hc) hg h hlen
  rw [hc] at hlist
  have hrule : infixRule? sub (firstKind (o :: (ts ++ c :: us))) = some (callExpression sub) := by
    rw [firstKind_cons, ho]
    rfl
  refine repeats_operatorStep hrule ?_ (hlist.bind accepts_pure) ?_ hloop
  · rw [firstKind_cons, ho]
    exact Nat.lt_succ_of_le hp
  · simp only [List.length_append, List.length_cons]
    omega

theorem repeats_index (hsub : Complete bound sub) {o c : Token} (ho : o.kind = .leftBracket)
    (hc : c.kind = .rightBracket) {collection position result : Node} (hp : p ≤ Precedence.unary)
    (h : Written (.expression position) (ts.map Token.lexeme)) (hg : position.Graded)
    (hlen : (ts ++ c :: us).length < bound)
    (hloop : Repeats (operatorStep sub p) (.index collection position) us result vs) :
    Repeats (operatorStep sub p) collection (o :: (ts ++ c :: us)) result vs := by
  have hstop : Stops Precedence.lowest (c :: us) :=
    stops_cons (by rw [hc]; decide) (by rw [hc]; decide)
  have hread := hsub.accepts_lowest h hg hstop hlen
  have hrule : infixRule? sub (firstKind (o :: (ts ++ c :: us))) = some (indexExpression sub) := by
    rw [firstKind_cons, ho]
    rfl
  refine repeats_operatorStep hrule ?_
    (accepts_take.bind (hread.bind ((accepts_expect hc).bind accepts_pure))) ?_ hloop
  · rw [firstKind_cons, ho]
    exact Nat.lt_of_le_of_lt hp (by decide)
  · simp only [List.length_append, List.length_cons]
    omega

/-- Reading a written expression comes down to going on with the loop behind it. The recursion is on
the expression: left operands are read by the same loop, all other parts by `sub`. -/
theorem accepts_written (hsub : Complete bound sub) (hp : p ≤ Precedence.unary) {n result : Node}
    {ts us vs : List Token} (h : Written (.expression n) (ts.map Token.lexeme)) (hg : n.Graded)
    (hlevel : ∀ q ∈ n.level?, p < q) (hfollows : Follows n (firstKind us))
    (hlen : (ts ++ us).length ≤ bound) (hloop : Repeats (operatorStep sub p) n us result vs) :
    Accepts (expressionForm sub p) (ts ++ us) result vs := by
  cases hform : n.extendsLeft with
  | false => exact accepts_expressionForm (begins_written hsub h hform hg hfollows hlen) hloop
  | true =>
    generalize hls : ts.map Token.lexeme = ls at h
    cases h with
    | @infixOp left right operator _ _ known hleft hright =>
      obtain ⟨ts₁, ts', rfl, rfl, hts'⟩ := List.map_eq_append_iff.mp hls
      obtain ⟨t, ts₂, rfl, ht, hkind, rfl⟩ := map_lexeme_eq_cons hts'
      obtain ⟨hleftLevel, hrightLevel, hgleft, hgright⟩ := hg
      have hstrong : p < operator.level := hlevel _ rfl
      have hunary := Operator.level_lt_unary known
      simp only [List.append_assoc, List.cons_append] at hlen ⊢
      have hlen₂ : (ts₂ ++ us).length < bound := by
        simp only [List.length_append, List.length_cons] at hlen ⊢
        omega
      have hnext := repeats_infixOp hsub known ht hstrong hright hgright hrightLevel
        ⟨hfollows.binary _ rfl, hfollows.ne_else⟩ hlen₂ hloop
      have hfollowsLeft : Follows left operator.kind :=
        ⟨hleftLevel, fun _ => Nat.le_of_lt hunary, Operator.kind_ne_else operator⟩
      rw [← hkind] at hfollowsLeft
      refine accepts_written hsub hp hleft hgleft (fun q hq => ?_) hfollowsLeft hlen hnext
      exact Nat.lt_of_lt_of_le hstrong (hleftLevel q hq)
    | @call callee arguments _ _ hcallee harguments =>
      obtain ⟨ts₁, ts', rfl, rfl, hts'⟩ := List.map_eq_append_iff.mp hls
      obtain ⟨o, ts'', rfl, -, ho, hts''⟩ := map_lexeme_eq_cons hts'
      obtain ⟨ts₂, c, rfl, rfl, hc⟩ := map_lexeme_eq_concat hts''
      obtain ⟨hcalleeLevel, hcalleePlain, hgcallee, hgarguments⟩ := hg
      simp only [List.append_assoc, List.cons_append, List.nil_append] at hlen ⊢
      have hlen₂ : (ts₂ ++ c :: us).length < bound := by
        simp only [List.length_append, List.length_cons] at hlen ⊢
        omega
      have hnext := repeats_call hsub ho hc hp harguments hgarguments hlen₂ hloop
      refine accepts_written hsub hp hcallee hgcallee (fun q hq => ?_) ?_ hlen hnext
      · rw [hcalleeLevel] at hq
        cases hq
      · exact follows_of_closed hcalleeLevel hcalleePlain (by rw [firstKind_cons, ho]; decide)
    | @index collection position _ _ hcollection hposition =>
      obtain ⟨ts₁, ts', rfl, rfl, hts'⟩ := List.map_eq_append_iff.mp hls
      obtain ⟨o, ts'', rfl, -, ho, hts''⟩ := map_lexeme_eq_cons hts'
      obtain ⟨ts₂, c, rfl, rfl, hc⟩ := map_lexeme_eq_concat hts''
      obtain ⟨hcollectionLevel, hcollectionPlain, hgcollection, hgposition⟩ := hg
      simp only [List.append_assoc, List.cons_append, List.nil_append] at hlen ⊢
      have hlen₂ : (ts₂ ++ c :: us).length < bound := by
        simp only [List.length_append, List.length_cons] at hlen ⊢
        omega
      have hnext := repeats_index hsub ho hc hp hposition hgposition hlen₂ hloop
      refine accepts_written hsub hp hcollection hgcollection (fun q hq => ?_) ?_ hlen hnext
      · rw [hcollectionLevel] at hq
        cases hq
      · exact follows_of_closed hcollectionLevel hcollectionPlain
          (by rw [firstKind_cons, ho]; decide)
    | _ => cases hform
termination_by sizeOf n

theorem complete_expressionWithin (depth : Nat) : Complete depth (expressionWithin depth) := by
  induction depth with
  | zero => exact fun _ _ _ _ _ hlen => absurd hlen (Nat.not_lt_zero _)
  | succ depth ih =>
    intro p n ts us hp h hg hlevel hstop hlen
    have hfollows : Follows n (firstKind us) := by
      refine ⟨fun q hq => ?_, fun _ => Nat.le_trans hstop.1 hp, hstop.2⟩
      exact Nat.le_of_lt (Nat.lt_of_le_of_lt hstop.1 (hlevel q hq))
    exact accepts_written ih hp h hg hlevel hfollows (Nat.le_of_lt_succ hlen)
      (repeats_operatorStep_end hstop.1)

theorem complete_expression (bound : Nat) : Complete bound Parser.expression := by
  intro p n ts us hp h hg hlevel hstop _ s hs
  have hlen : (ts ++ us).length < s.pending.length + 1 := Nat.lt_succ_of_le hs.length_le
  exact complete_expressionWithin (s.pending.length + 1) hp h hg hlevel hstop hlen s hs

end Expressions

/-! ### Programs -/

theorem accepts_program {ns : List Node} {ts : List Token}
    (h : Written (.statements ns) (ts.map Token.lexeme)) (hg : Node.AllGraded ns) :
    Accepts program ts (.program ns) [] := by
  have hbegins : ∀ kind : TokenKind, kind.begins → endsProgram kind = false := by
    intro kind hkind
    cases kind <;> first | rfl | cases hkind
  have hapart : Apart [] := ⟨⟨by decide, by decide⟩, by decide⟩
  have hends : endsProgram (firstKind []) := rfl
  have hloop := repeats_statements (complete_expression (ts.length + 1)) hbegins hends hapart ns []
    ts h hg (by simp)
  rw [List.append_nil] at hloop
  have hstatements : Accepts (statements Parser.expression endsProgram) ts ns [] :=
    (accepts_loop hloop).bind (accepts_take_nil_bind fun _ => accepts_pure)
  exact hstatements.bind accepts_pure

theorem holds_ofScan {phrase : Phrase} {found : Lexer.Scan}
    (h : Written phrase (found.tokens.map Token.lexeme)) (hending : found.ending.kind = .eof) :
    (Stream.ofScan found).Holds found.tokens := by
  refine ⟨hending, fun t ht => ?_, Or.inl rfl⟩
  exact h.before_eof t.lexeme (List.mem_map_of_mem ht)

/-- A program that is written down as tokens is read back as it was, without a diagnostic. -/
theorem parseScan_written {ns : List Node} {ts : List Token} {ending : Token}
    (h : Written (.statements ns) (ts.map Token.lexeme)) (hg : Node.AllGraded ns)
    (hending : ending.kind = .eof) :
    parseScan { tokens := ts, ending } = { program := .program ns, diagnostics := [] } := by
  have hholds : (Stream.ofScan { tokens := ts, ending }).Holds ts := holds_ofScan h hending
  obtain ⟨t, hread, -⟩ := accepts_program h hg _ hholds
  exact parseScan_of_reads hread

/-- `-a - b * 07 fn(x) { return x }; (d)`, where the first statement ends without a semicolon. -/
theorem parseScan_written_without_semicolon :
    parseScan
      { tokens := [⟨.minus, "-", 1, 1⟩, ⟨.ident, "a", 1, 2⟩, ⟨.minus, "-", 1, 4⟩,
          ⟨.ident, "b", 1, 6⟩, ⟨.star, "*", 1, 8⟩, ⟨.int, "07", 1, 10⟩, ⟨.fnWord, "fn", 2, 1⟩,
          ⟨.leftParen, "(", 2, 3⟩, ⟨.ident, "x", 2, 4⟩, ⟨.rightParen, ")", 2, 5⟩,
          ⟨.leftBrace, "\x7b", 2, 7⟩,
          ⟨.returnWord, "return", 2, 9⟩, ⟨.ident, "x", 2, 16⟩, ⟨.rightBrace, "\x7d", 2, 18⟩,
          ⟨.semicolon, ";", 2, 19⟩, ⟨.leftParen, "(", 3, 1⟩, ⟨.ident, "d", 3, 2⟩,
          ⟨.rightParen, ")", 3, 3⟩]
        ending := ⟨.eof, "", 3, 4⟩ } =
      { program := .program
          [.expression (.infixOp (.prefixOp .minus (.identifier "a")) .minus
            (.infixOp (.identifier "b") .star (.integer 7))),
          .expression (.function ["x"] (.block [.returning (.identifier "x")])),
          .expression (.grouped (.identifier "d"))]
        diagnostics := [] } := by
  have hseven : Numeral ['0', '7'] 7 := ⟨nofun, by simp, by decide, rfl, by decide⟩
  have hleading : Operator.minus ∈ Operator.leading := by decide
  have hbetween : Operator.minus ∈ Operator.between ∧ Operator.star ∈ Operator.between := by decide
  have hproduct := Written.infixOp hbetween.2 (.identifier "b") (.integer hseven)
  have hdifference := Written.infixOp hbetween.1 (.prefixOp hleading (.identifier "a")) hproduct
  have hbody := Written.block (.unterminated (.returning (.identifier "x")) .done nofun)
  have hparameters : Written (.list (["x"].map .parameter)) [⟨.ident, "x"⟩] :=
    .single (.parameter "x")
  have hfunction := Written.function hparameters hbody
  have hlast := Written.unterminated (.expression (.grouped (.identifier "d"))) .done nofun
  have hall := Written.unterminated (.expression hdifference)
    (.terminated (.expression hfunction) hlast) (by rintro _ ⟨⟩; rfl)
  refine parseScan_written hall ?_ rfl
  simp [Node.AllGraded, Node.Graded, Node.level?, Operator.level, Operator.kind,
    TokenKind.precedence]

end MonkeyLang

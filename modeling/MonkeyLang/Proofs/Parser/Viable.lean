import MonkeyLang.Proofs.Parser.Blames
import MonkeyLang.Proofs.Parser.Soundness

/-!
What stands before the first reported token can be completed. A phrase is read up to that token
without a report; each part of it that was read to its end is written in the tokens taken for it,
and each part still missing has some written form. So the tokens taken so far begin a phrase of the
kind that was to be read, whatever was nested in what.
-/
namespace MonkeyLang

open MonkeyLang.Parser

variable [Text.Alphabet]

/-! ### Languages -/

section Languages

variable {language part whole : List Lexeme → Prop} {ls ms : List Lexeme} {l : Lexeme}

/-- The lexemes begin a member of the language, whose other lexemes can be scanned. -/
def Begun (language : List Lexeme → Prop) (ls : List Lexeme) : Prop :=
  ∃ ms, (∀ l ∈ ms, l.Lexed) ∧ language (ls ++ ms)

theorem begun_of_mem (h : language ls) : Begun language ls :=
  ⟨[], List.forall_mem_nil _, by rwa [List.append_nil]⟩

theorem Begun.of_append (h : Begun language (ls ++ ms)) (hms : ∀ l ∈ ms, l.Lexed) :
    Begun language ls := by
  obtain ⟨rest, hrest, hmem⟩ := h
  refine ⟨ms ++ rest, fun l hl => ?_, by rwa [← List.append_assoc]⟩
  rcases List.mem_append.mp hl with hl | hl
  · exact hms l hl
  · exact hrest l hl

theorem TokenKind.lexed_lexeme {kind : TokenKind} (h : kind.isFixed) : kind.lexeme.Lexed :=
  Lexeme.lexed_of_text h rfl

theorem Begun.of_kinds (kinds : List TokenKind)
    (h : Begun language (ls ++ kinds.map TokenKind.lexeme))
    (hkinds : ∀ kind ∈ kinds, kind.isFixed) : Begun language ls := by
  refine h.of_append fun l hl => ?_
  obtain ⟨kind, hkind, rfl⟩ := List.mem_map.mp hl
  exact TokenKind.lexed_lexeme (hkinds kind hkind)

theorem Begun.extend (h : Begun part ls) (leading : List Lexeme) (closing : List TokenKind)
    (hclosing : ∀ kind ∈ closing, kind.isFixed)
    (hwhole : ∀ ms, part ms → whole (leading ++ (ms ++ closing.map TokenKind.lexeme))) :
    Begun whole (leading ++ ls) := by
  obtain ⟨rest, hrest, hmem⟩ := h
  have hall : Begun whole (leading ++ ls ++ rest ++ closing.map TokenKind.lexeme) := by
    refine begun_of_mem ?_
    simpa using hwhole _ hmem
  exact (hall.of_kinds closing hclosing).of_append hrest

theorem Begun.lead (h : Begun part ls) (leading : List Lexeme)
    (hwhole : ∀ ms, part ms → whole (leading ++ ms)) : Begun whole (leading ++ ls) := by
  obtain ⟨rest, hrest, hmem⟩ := h
  exact ⟨rest, hrest, by simpa using hwhole _ hmem⟩

end Languages

def Spelled {α : Type} (part : α → Phrase) (good : α → Prop) (ls : List Lexeme) : Prop :=
  ∃ a, Written (part a) ls ∧ good a

def Listed {α : Type} (part : α → Phrase) (good : α → Prop) (ls : List Lexeme) : Prop :=
  ∃ a items, Written (.list ((a :: items).map part)) ls ∧ ∀ b ∈ a :: items, good b

def IsExpression (p : Nat) : List Lexeme → Prop :=
  Spelled .expression fun n => n.Graded ∧ ∀ q ∈ n.level?, p < q

def IsBlock : List Lexeme → Prop := Spelled .block Node.Graded

def IsStatement : List Lexeme → Prop := Spelled .statement Node.Graded

def AreStatements : List Lexeme → Prop := Spelled .statements Node.AllGraded

def anyName : Lexeme := ⟨.ident, "a"⟩

theorem lexed_anyName : ∀ l ∈ [anyName], l.Lexed := by
  intro l hl
  obtain rfl := List.mem_singleton.mp hl
  refine ⟨by decide, fun c hc => ?_, by decide⟩
  obtain rfl : c = 'a' := by simpa [anyName] using hc
  exact Text.isLetter_of_lt (by decide)

omit [Text.Alphabet] in
theorem isExpression_of_closed {p : Nat} {ls : List Lexeme} (n : Node)
    (hn : Written (.expression n) ls) (hg : n.Graded) (hlevel : n.level? = none) :
    IsExpression p ls := by
  refine ⟨n, hn, hg, fun q hq => ?_⟩
  rw [hlevel] at hq
  exact absurd hq (Option.not_mem_none q)

theorem begun_isExpression (p : Nat) : Begun (IsExpression p) [] := by
  have htrue : IsExpression p [TokenKind.trueWord.lexeme] :=
    isExpression_of_closed (.boolean true) (.boolean true) trivial rfl
  exact Begun.of_kinds [.trueWord] (begun_of_mem htrue) (by decide)

theorem begun_isBlock : Begun IsBlock [] := by
  have hblock : IsBlock [TokenKind.leftBrace.lexeme, TokenKind.rightBrace.lexeme] :=
    ⟨.block [], .block .done, trivial⟩
  exact Begun.of_kinds [.leftBrace, .rightBrace] (begun_of_mem hblock) (by decide)

omit [Text.Alphabet] in
theorem areStatements_nil : AreStatements [] := ⟨[], .done, trivial⟩

/-! ### Tokens before a report -/

section Tokens

variable {language part whole : List Lexeme → Prop} {ts us : List Token} {t : Token} {s u : Stream}

/-- The tokens up to `us` are in the language, with lexemes added where they are at an end. -/
def Covers (language : List Lexeme → Prop) (ts us : List Token) : Prop :=
  ∃ taken closing, ts = taken ++ us ∧ (us ≠ [] → closing = []) ∧ (∀ l ∈ closing, l.Lexed) ∧
    language (taken.map Token.lexeme ++ closing)

/-- The tokens before the given one begin a member of the language. -/
def Breaks (language : List Lexeme → Prop) (ts : List Token) (t : Token) : Prop :=
  ∃ before us, ∃ u : Stream, ts = before ++ us ∧ u.Supplies us ∧ u.next = t ∧
    Begun language (before.map Token.lexeme)

theorem Takes.covers {phrase : Phrase} (h : Takes phrase ts us)
    (hphrase : ∀ ls, Written phrase ls → language ls) : Covers language ts us := by
  obtain ⟨taken, missing, hts, -, hmissing, hwritten⟩ := h
  refine ⟨taken, _, hts, fun hne => by rw [hmissing hne]; rfl, fun l hl => ?_, hphrase _ hwritten⟩
  rw [List.eq_of_mem_replicate hl]
  exact TokenKind.lexed_lexeme rfl

theorem Covers.consumed (h : Covers language ts us) (hne : us ≠ []) :
    ∃ taken, ts = taken ++ us ∧ language (taken.map Token.lexeme) := by
  obtain ⟨taken, closing, hts, hclosing, -, hmem⟩ := h
  rw [hclosing hne, List.append_nil] at hmem
  exact ⟨taken, hts, hmem⟩

theorem Covers.behind {vs : List Token} (h : Covers part us vs) (leading : List Token)
    (hwhole : ∀ ls, part ls → whole (leading.map Token.lexeme ++ ls)) :
    Covers whole (leading ++ us) vs := by
  obtain ⟨taken, closing, rfl, hvs, hclosing, hmem⟩ := h
  refine ⟨leading ++ taken, closing, by simp, hvs, hclosing, ?_⟩
  simpa using hwhole _ hmem

theorem breaks_behind (leading : List Token) (hs : s.Supplies us)
    (h : Begun language (leading.map Token.lexeme)) : Breaks language (leading ++ us) s.next :=
  ⟨leading, us, s, rfl, hs, rfl, h⟩

theorem Covers.breaks (h : Covers part ts us) (hu : u.Supplies us)
    (hpart : ∀ ls, part ls → Begun whole ls) : Breaks whole ts u.next := by
  obtain ⟨taken, closing, hts, -, hclosing, hmem⟩ := h
  exact ⟨taken, us, u, hts, hu, rfl, (hpart _ hmem).of_append hclosing⟩

theorem Breaks.behind (h : Breaks part us t) (leading : List Token)
    (hwhole : ∀ ls, Begun part ls → Begun whole (leading.map Token.lexeme ++ ls)) :
    Breaks whole (leading ++ us) t := by
  obtain ⟨before, vs, u, rfl, hu, ht, hbegun⟩ := h
  refine ⟨leading ++ before, vs, u, by simp, hu, ht, ?_⟩
  rw [List.map_append]
  exact hwhole _ hbegun

end Tokens

/-! ### Lists -/

section Lists

variable {α : Type} {item : Parser α} {part : α → Phrase} {good : α → Prop} {ts : List Token}
  {s : Stream} {t : Token}

structure TracesItems (item : Parser α) (part : α → Phrase) (good : α → Prop) : Prop where
  covers : ∀ {s u : Stream} {ts : List Token} {a : α}, s.Supplies ts → Reads item s a u →
    ∃ us, u.Supplies us ∧ Covers (Spelled part good) ts us
  breaks : ∀ {s : Stream} {ts : List Token} {t : Token}, s.Supplies ts → Blames item s t →
    Breaks (Spelled part good) ts t

theorem Begun.single {ls : List Lexeme} (h : Begun (Spelled part good) ls) :
    Begun (Listed part good) ls := by
  obtain ⟨ms, hms, a, hwritten, hgood⟩ := h
  exact ⟨ms, hms, a, [], .single hwritten, fun b hb => List.mem_singleton.mp hb ▸ hgood⟩

theorem Begun.more {ls ms : List Lexeme} (h : Begun (Listed part good) ms)
    (hls : Spelled part good ls) :
    Begun (Listed part good) (ls ++ TokenKind.comma.lexeme :: ms) := by
  obtain ⟨a, ha, hgood⟩ := hls
  obtain ⟨rest, hrest, b, items, hwritten, hitems⟩ := h
  refine ⟨rest, hrest, a, b :: items, ?_, List.forall_mem_cons.mpr ⟨hgood, hitems⟩⟩
  simpa using Written.more ha hwritten

theorem Covers.more {c : Token} {us : List Token} (h : Covers (Spelled part good) ts (c :: us))
    (hc : c.lexeme = TokenKind.comma.lexeme) (hus : Breaks (Listed part good) us t) :
    Breaks (Listed part good) ts t := by
  obtain ⟨taken, rfl, hmem⟩ := h.consumed (by simp)
  have hall : Breaks (Listed part good) ((taken ++ [c]) ++ us) t := by
    refine hus.behind (taken ++ [c]) fun ls hls => ?_
    simpa [hc] using hls.more hmem
  simpa using hall

theorem breaks_items (hitem : TracesItems item part good) {found last : List α} {u : Stream}
    (h : Reaches (listStep item) found s last u) :
    ∀ {ts₀ ts : List Token}, s.Supplies ts → Covers (Spelled part good) ts₀ ts →
      Blames (listStep item last) u t ∨ u.next = t → Breaks (Listed part good) ts₀ t := by
  induction h with
  | here =>
    intro ts₀ ts hs hcovers hlast
    rcases hlast with hlast | rfl
    · rw [listStep, blames_next_bind] at hlast
      split at hlast
      · next hcomma =>
        obtain ⟨ts₁, rfl, hts₁, hlexeme⟩ := hs.fixed hcomma rfl (by decide)
        rw [blames_take_bind] at hlast
        have hblames := hlast.of_bind fun _ _ => not_blames_pure
        have hbreaks := (hitem.breaks hts₁ hblames).behind [] fun ls hls => hls.single
        exact hcovers.more hlexeme hbreaks
      · exact absurd hlast not_blames_pure
    · exact hcovers.breaks hs fun ls hls => (begun_of_mem hls).single
  | again first _ ih =>
    intro ts₀ ts hs hcovers hlast
    rcases reads_listStep first with ⟨hcomma, b, hb, hr⟩ | ⟨hr, _⟩
    · cases hr
      obtain ⟨ts₁, rfl, hts₁, hlexeme⟩ := hs.fixed hcomma rfl (by decide)
      obtain ⟨us, hus, hitemCovers⟩ := hitem.covers hts₁ hb
      exact hcovers.more hlexeme (ih hus hitemCovers hlast)
    · cases hr

theorem breaks_listOf (hitem : TracesItems item part good) {close : TokenKind} (hs : s.Supplies ts)
    (h : Blames (listOf item close) s t) : Breaks (Listed part good) ts t := by
  rw [listOf, blames_next_bind] at h
  split at h
  · exact absurd (blames_take_bind.mp h) not_blames_pure
  rcases blames_bind.mp h with h | ⟨a, u, ha, h⟩
  · exact (hitem.breaks hs h).behind [] fun ls hls => hls.single
  obtain ⟨us, hus, hcovers⟩ := hitem.covers hs ha
  rcases blames_bind.mp h with h | ⟨items, v, hloop, h⟩
  · obtain ⟨last, w, hreaches, hlast⟩ := h.of_loop
    exact breaks_items hitem hreaches hus hcovers hlast
  · obtain ⟨_, _, hiterates⟩ := reads_loop.mp hloop
    obtain ⟨last, w, hreaches, hdone⟩ := hiterates.reaches
    rcases reads_listStep hdone with ⟨_, _, _, hr⟩ | ⟨_, rfl⟩
    · cases hr
    rcases blames_expect_bind.mp h with ⟨-, hnext⟩ | ⟨-, h⟩
    · exact breaks_items hitem hreaches hus hcovers (Or.inr hnext)
    · exact absurd h not_blames_pure

end Lists

/-! ### Statements and blocks -/

/-- The parser of inner expressions reports first where an expression was begun. -/
def Viable (sub : Sub) : Prop :=
  ∀ {p : Nat} {s : Stream} {ts : List Token} {t : Token}, Precedence.lowest ≤ p →
    s.Supplies ts → Blames (sub p) s t → Breaks (IsExpression p) ts t

section Statements

variable {sub : Sub} {ends : TokenKind → Bool} {s : Stream} {ts : List Token} {t : Token}

theorem breaks_letStatement (hsub : Viable sub) (hs : s.Supplies ts)
    (hkind : s.next.kind = .letWord) (h : Blames (letStatement sub) s t) :
    Breaks IsStatement ts t := by
  have hvalue : ∀ (name : String) ls, Begun (IsExpression Precedence.lowest) ls →
      Begun IsStatement
        ([TokenKind.letWord.lexeme, ⟨.ident, name⟩, TokenKind.assign.lexeme] ++ ls) := by
    intro name ls hls
    refine hls.lead _ fun ms hms => ?_
    obtain ⟨n, hn, hg, -⟩ := hms
    exact ⟨.letBind name n, by simpa using Written.letBind name hn, hg⟩
  have hassign : ∀ name : String,
      Begun IsStatement ([TokenKind.letWord.lexeme] ++ [⟨.ident, name⟩]) := by
    intro name
    exact Begun.of_kinds [.assign] (hvalue name [] (begun_isExpression _)) (by decide)
  simp only [letStatement, blames_take_bind, blames_expect_bind] at h
  obtain ⟨ts₁, rfl, hts₁, hlet⟩ := hs.fixed hkind rfl (by decide)
  rcases h with ⟨-, rfl⟩ | ⟨hident, h⟩
  · refine breaks_behind [s.next] hts₁ ?_
    simpa [hlet] using (hassign "a").of_append lexed_anyName
  obtain ⟨ts₂, rfl, hts₂, -⟩ := hts₁.uncons (by simp [hident])
  rcases h with ⟨-, rfl⟩ | ⟨heq, h⟩
  · refine breaks_behind [s.next, s.advance.next] hts₂ ?_
    simpa [hlet, Token.lexeme_of_kind hident] using hassign _
  · obtain ⟨ts₃, rfl, hts₃, heqLexeme⟩ := hts₂.fixed heq rfl (by decide)
    have hbreaks := hsub (Nat.le_refl _) hts₃ (h.of_bind fun _ _ => not_blames_skipOptional)
    refine hbreaks.behind [_, _, _] fun ls hls => ?_
    simpa [hlet, Token.lexeme_of_kind hident, heqLexeme] using hvalue _ ls hls

theorem breaks_statement (hsub : Viable sub) (hs : s.Supplies ts) (h : Blames (statement sub) s t) :
    Breaks IsStatement ts t := by
  rw [statement, blames_next_bind] at h
  split at h
  · next hlet => exact breaks_letStatement hsub hs hlet h
  · next hreturn =>
    rw [returnStatement, blames_take_bind] at h
    obtain ⟨ts₁, rfl, hts₁, hlexeme⟩ := hs.fixed hreturn rfl (by decide)
    have hbreaks := hsub (Nat.le_refl _) hts₁ (h.of_bind fun _ _ => not_blames_skipOptional)
    refine hbreaks.behind [_] fun ls hls => hls.lead _ fun ms hms => ?_
    obtain ⟨n, hn, hg, -⟩ := hms
    exact ⟨.returning n, by simpa [hlexeme] using Written.returning hn, hg⟩
  · have hbreaks := hsub (Nat.le_refl _) hs (h.of_bind fun _ _ => not_blames_skipOptional)
    refine hbreaks.behind [] fun ls hls => hls.lead [] fun ms hms => ?_
    obtain ⟨n, hn, hg, -⟩ := hms
    exact ⟨.expression n, by simpa using Written.expression hn, hg⟩

theorem Begun.statement {ls : List Lexeme} (h : Begun IsStatement ls) : Begun AreStatements ls := by
  refine h.lead [] fun ms hms => ?_
  obtain ⟨n, hn, hg⟩ := hms
  exact ⟨[n], by simpa using Written.unterminated hn .done (by simp), hg, trivial⟩

theorem Begun.terminated {ls ms : List Lexeme} (h : Begun AreStatements ms) (hls : IsStatement ls) :
    Begun AreStatements (ls ++ TokenKind.semicolon.lexeme :: ms) := by
  obtain ⟨n, hn, hg⟩ := hls
  obtain ⟨rest, hrest, ns, hns, hall⟩ := h
  exact ⟨rest, hrest, n :: ns, by simpa using Written.terminated hn hns, hg, hall⟩

theorem Begun.unterminated {ls ms : List Lexeme} {l : Lexeme} (h : Begun AreStatements (l :: ms))
    (hls : IsStatement ls) (hl : l.kind.goesOn = false) : Begun AreStatements (ls ++ l :: ms) := by
  obtain ⟨n, hn, hg⟩ := hls
  obtain ⟨rest, hrest, ns, hns, hall⟩ := h
  refine ⟨rest, hrest, n :: ns, ?_, hg, hall⟩
  have happart : ∀ x ∈ (l :: ms ++ rest).head?, x.kind.goesOn = false := by
    rintro _ ⟨⟩
    exact hl
  simpa using Written.unterminated hn hns happart

/-- What was begun behind a statement goes on with it. If nothing of it was taken, the statement may
as well be the last one. -/
theorem Takes.breaks_unterminated {n : Node} {us : List Token} (h : Takes (.statement n) ts us)
    (hg : n.Graded) (hnext : (firstKind us).precedence ≤ Precedence.lowest)
    (hus : Breaks AreStatements us t) : Breaks AreStatements ts t := by
  have hcovers : Covers IsStatement ts us := h.covers fun ls hls => ⟨n, hls, hg⟩
  obtain ⟨before, vs, u, rfl, hu, rfl, hbegun⟩ := hus
  cases before with
  | nil => exact hcovers.breaks hu fun ls hls => (begun_of_mem hls).statement
  | cons x before =>
    obtain ⟨taken, rfl, hmem⟩ := hcovers.consumed (by simp)
    refine ⟨taken ++ x :: before, vs, u, by simp, hu, rfl, ?_⟩
    rw [List.map_append]
    exact hbegun.unterminated hmem (TokenKind.goesOn_eq_false hnext)

theorem Takes.breaks_terminated {n : Node} {c : Token} {us : List Token}
    (h : Takes (.statement n) ts (c :: us)) (hg : n.Graded)
    (hc : c.lexeme = TokenKind.semicolon.lexeme) (hus : Breaks AreStatements us t) :
    Breaks AreStatements ts t := by
  obtain ⟨taken, rfl, hwritten⟩ := h.consumes (by simp)
  have hall : Breaks AreStatements ((taken ++ [c]) ++ us) t := by
    refine hus.behind (taken ++ [c]) fun ls hls => ?_
    simpa [hc] using hls.terminated ⟨n, hwritten, hg⟩
  simpa using hall

theorem breaks_statements (hsub : Sound sub) (hshape : YieldsShaped sub) (hviable : Viable sub)
    {found last : List Node} {u : Stream} (h : Reaches (statementStep sub ends) found s last u) :
    ∀ {ts : List Token}, s.Supplies ts → Blames (statementStep sub ends last) u t ∨ u.next = t →
      Breaks AreStatements ts t := by
  induction h with
  | here =>
    intro ts hs hlast
    rcases hlast with hlast | rfl
    · rw [statementStep, blames_next_bind] at hlast
      split at hlast
      · exact absurd hlast not_blames_pure
      · have hblames := hlast.of_bind fun node u => by cases node <;> exact not_blames_pure
        exact (breaks_statement hviable hs (blames_attempt.mp hblames)).behind [] fun ls hls =>
          hls.statement
    · exact breaks_behind [] hs (begun_of_mem areStatements_nil)
  | again first _ ih =>
    intro ts hs hlast
    rcases reads_statementStep hshape first with ⟨n, hn, hr⟩ | ⟨_, hr, _⟩
    · cases hr
      obtain ⟨us, vs, hvs, htakes, hgraded, hnext, hend⟩ := takes_statement hsub hs hn
      have hrest := ih hvs hlast
      rcases hend with rfl | ⟨c, hc, rfl⟩
      · exact htakes.breaks_unterminated hgraded hnext hrest
      · exact htakes.breaks_terminated hgraded hc hrest
    · cases hr

theorem breaks_of_statements (hsub : Sound sub) (hshape : YieldsShaped sub) (hviable : Viable sub)
    (hs : s.Supplies ts) (h : Blames (statements sub ends) s t) : Breaks AreStatements ts t := by
  have hloop := h.of_bind fun _ _ hrest => absurd (blames_take_bind.mp hrest) not_blames_pure
  obtain ⟨last, u, hreaches, hlast⟩ := hloop.of_loop
  exact breaks_statements hsub hshape hviable hreaches hs hlast

theorem breaks_blockBody (hsub : Sound sub) (hshape : YieldsShaped sub) (hviable : Viable sub)
    {o : Token} (ho : o.lexeme = TokenKind.leftBrace.lexeme) (hs : s.Supplies ts)
    (h : Blames (blockBody sub) s t) : Breaks IsBlock (o :: ts) t := by
  have hstatements := h.of_bind fun _ _ => not_blames_pure
  have hbreaks := breaks_of_statements hsub hshape hviable hs hstatements
  refine hbreaks.behind [o] fun ls hls => ?_
  refine hls.extend _ [.rightBrace] (by decide) ?_
  rintro ms ⟨ns, hns, hg⟩
  exact ⟨.block ns, by simpa [ho] using Written.block hns, hg⟩

end Statements

/-! ### Forms that begin an expression -/

section Forms

variable {sub : Sub} {s : Stream} {ts : List Token} {t : Token} {p : Nat}

theorem breaks_before_expect {α : Type} {kind : TokenKind} {k : Node → Token → Parser α}
    (hsub : Sound sub) (hviable : Viable sub) (hs : s.Supplies ts)
    (h : Blames (do let n ← sub Precedence.lowest; let c ← expect kind; k n c) s t)
    (hkind : kind.isFixed ∧ kind ≠ .eof) :
    Breaks (IsExpression Precedence.lowest) ts t ∨
      ∃ n taken c us, ∃ u : Stream, ts = taken ++ c :: us ∧ c.lexeme = kind.lexeme ∧
        Written (.expression n) (taken.map Token.lexeme) ∧ n.Graded ∧ u.Supplies us ∧
        Blames (k n c) u t := by
  rcases blames_bind.mp h with h | ⟨n, u, hn, h⟩
  · exact Or.inl (hviable (Nat.le_refl _) hs h)
  obtain ⟨us, hus, htakes, hgraded, hstrong, -⟩ := hsub (Nat.le_refl _) hs hn
  rcases blames_expect_bind.mp h with ⟨-, rfl⟩ | ⟨hc, h⟩
  · have hcovers : Covers (IsExpression Precedence.lowest) ts us :=
      htakes.covers fun ls hls => ⟨n, hls, hgraded, hstrong⟩
    exact Or.inl (hcovers.breaks hus fun ls hls => begun_of_mem hls)
  · obtain ⟨vs, rfl, hvs, hlexeme⟩ := hus.fixed hc hkind.1 hkind.2
    obtain ⟨taken, rfl, hwritten⟩ := htakes.consumes (by simp)
    exact Or.inr ⟨n, taken, u.next, vs, u.advance, rfl, hlexeme, hwritten, hgraded, hvs, h⟩

theorem breaks_block {α : Type} {k : Node → Parser α} (hsub : Sound sub)
    (hshape : YieldsShaped sub) (hviable : Viable sub) (hs : s.Supplies ts)
    (h : Blames (do let _ ← expect .leftBrace; let n ← blockBody sub; k n) s t) :
    Breaks IsBlock ts t ∨ ∃ n us, ∃ u : Stream, Takes (.block n) ts us ∧ n.Graded ∧
      u.Supplies us ∧ Blames (k n) u t := by
  rcases blames_expect_bind.mp h with ⟨-, rfl⟩ | ⟨hopen, h⟩
  · exact Or.inl (breaks_behind [] hs begun_isBlock)
  obtain ⟨ts₁, rfl, hts₁, hlexeme⟩ := hs.fixed hopen rfl (by decide)
  rcases blames_bind.mp h with h | ⟨n, u, hn, h⟩
  · exact Or.inl (breaks_blockBody hsub hshape hviable hlexeme hts₁ h)
  · obtain ⟨us, hus, htakes, hgraded⟩ := takes_blockBody hsub hshape hlexeme hts₁ hn
    exact Or.inr ⟨n, us, u, htakes, hgraded, hus, h⟩

theorem breaks_integerLiteral (hs : s.Supplies ts) (h : Blames integerLiteral s t) :
    Breaks (IsExpression p) ts t := by
  rw [integerLiteral, blames_next_bind] at h
  split at h
  · exact absurd (blames_take_bind.mp h) not_blames_pure
  · rw [← blames_refuse.mp h]
    exact breaks_behind [] hs (begun_isExpression p)

theorem breaks_prefixExpression (hsub : Viable sub) (hs : s.Supplies ts) (operator : Operator)
    (known : operator ∈ Operator.leading) (hkind : s.next.kind = operator.kind)
    (h : Blames (prefixExpression sub) s t) : Breaks (IsExpression p) ts t := by
  rw [prefixExpression, blames_take_bind] at h
  obtain ⟨ts₁, rfl, hts₁, hlexeme⟩ := hs.fixed hkind (Operator.isFixed_kind operator)
    (Operator.kind_ne_eof operator)
  have hbreaks := hsub (by decide) hts₁ (h.of_bind fun _ _ => not_blames_pure)
  refine hbreaks.behind [_] fun ls hls => hls.lead _ ?_
  rintro ms ⟨n, hn, hg, hstrong⟩
  have hnone : n.level? = none := by
    refine Option.eq_none_iff_forall_not_mem.mpr fun q hq => ?_
    exact Nat.lt_asymm (hstrong q hq) (hn.level_lt_unary q hq)
  refine isExpression_of_closed (.prefixOp operator n) ?_ ⟨hnone, hg⟩ rfl
  simpa [hlexeme, Operator.lexeme] using Written.prefixOp known hn

theorem breaks_groupedExpression (hsub : Sound sub) (hviable : Viable sub) (hs : s.Supplies ts)
    (hkind : s.next.kind = .leftParen) (h : Blames (groupedExpression sub) s t) :
    Breaks (IsExpression p) ts t := by
  rw [groupedExpression, blames_take_bind] at h
  obtain ⟨ts₁, rfl, hts₁, hopen⟩ := hs.fixed hkind rfl (by decide)
  rcases breaks_before_expect hsub hviable hts₁ h ⟨rfl, by decide⟩ with
    hbreaks | ⟨_, _, _, _, _, _, _, _, _, _, h⟩
  · refine hbreaks.behind [_] fun ls hls => hls.extend _ [.rightParen] (by decide) ?_
    rintro ms ⟨n, hn, hg, -⟩
    exact isExpression_of_closed (.grouped n) (by simpa [hopen] using Written.grouped hn) hg rfl
  · exact absurd h not_blames_pure

theorem breaks_elseBranch (hsub : Sound sub) (hshape : YieldsShaped sub) (hviable : Viable sub)
    (hs : s.Supplies ts) (h : Blames (elseBranch sub) s t) :
    ∃ e us, ts = e :: us ∧ e.lexeme = TokenKind.elseWord.lexeme ∧ Breaks IsBlock us t := by
  rw [elseBranch, blames_next_bind] at h
  split at h
  · next helse =>
    simp only [blames_take_bind, blames_expect_bind] at h
    obtain ⟨ts₁, rfl, hts₁, hlexeme⟩ := hs.fixed helse rfl (by decide)
    refine ⟨_, ts₁, rfl, hlexeme, ?_⟩
    rcases h with ⟨-, rfl⟩ | ⟨hopen, h⟩
    · exact breaks_behind [] hts₁ begun_isBlock
    · obtain ⟨ts₂, rfl, hts₂, hopenLexeme⟩ := hts₁.fixed hopen rfl (by decide)
      exact breaks_blockBody hsub hshape hviable hopenLexeme hts₂ h
  · exact absurd h not_blames_pure

/-! The stages of a conditional, each with what completes it. -/

theorem begun_condition {cs : List Lexeme} (h : Begun (IsExpression Precedence.lowest) cs) :
    Begun (IsExpression p) ([TokenKind.ifWord.lexeme, TokenKind.leftParen.lexeme] ++ cs) := by
  refine h.extend _ [.rightParen, .leftBrace, .rightBrace] (by decide) ?_
  rintro ms ⟨n, hn, hg, -⟩
  refine isExpression_of_closed (.conditional n (.block []) .hole) ?_ ⟨hg, trivial, trivial⟩ rfl
  simpa using Written.conditional hn (.block .done)

theorem begun_consequence {condition : Node} {cs bs : List Lexeme}
    (hcondition : Written (.expression condition) cs) (hg : condition.Graded)
    (h : Begun IsBlock bs) :
    Begun (IsExpression p) (TokenKind.ifWord.lexeme :: TokenKind.leftParen.lexeme ::
      (cs ++ [TokenKind.rightParen.lexeme]) ++ bs) := by
  refine h.lead _ ?_
  rintro ms ⟨n, hn, hgblock⟩
  refine isExpression_of_closed (.conditional condition n .hole) ?_ ⟨hg, hgblock, trivial⟩ rfl
  simpa using Written.conditional hcondition hn

theorem begun_alternative {condition consequence : Node} {cs bs es : List Lexeme}
    (hcondition : Written (.expression condition) cs) (hg : condition.Graded)
    (hconsequence : Written (.block consequence) bs) (hgblock : consequence.Graded)
    (h : Begun IsBlock es) :
    Begun (IsExpression p) (TokenKind.ifWord.lexeme :: TokenKind.leftParen.lexeme ::
      (cs ++ TokenKind.rightParen.lexeme :: (bs ++ [TokenKind.elseWord.lexeme])) ++ es) := by
  refine h.lead _ ?_
  rintro ms ⟨n, hn, hgn⟩
  refine isExpression_of_closed (.conditional condition consequence n) ?_ ⟨hg, hgblock, hgn⟩ rfl
  simpa using Written.conditionalElse hcondition hconsequence hn

theorem breaks_conditional (hsub : Sound sub) (hshape : YieldsShaped sub) (hviable : Viable sub)
    (hs : s.Supplies ts) (hkind : s.next.kind = .ifWord) (h : Blames (conditional sub) s t) :
    Breaks (IsExpression p) ts t := by
  simp only [conditional, blames_take_bind, blames_expect_bind] at h
  obtain ⟨ts₁, rfl, hts₁, hif⟩ := hs.fixed hkind rfl (by decide)
  rcases h with ⟨-, rfl⟩ | ⟨hopen, h⟩
  · have hbegun : Begun (IsExpression p) [TokenKind.ifWord.lexeme] :=
      Begun.of_kinds [.leftParen] (begun_condition (begun_isExpression _)) (by decide)
    exact breaks_behind [s.next] hts₁ (by simpa [hif] using hbegun)
  obtain ⟨ts₂, rfl, hts₂, hopenLexeme⟩ := hts₁.fixed hopen rfl (by decide)
  rcases breaks_before_expect hsub hviable hts₂ h ⟨rfl, by decide⟩ with
    hbreaks | ⟨condition, cs, c, us, u, rfl, hc, hcs, hg, hus, h⟩
  · refine hbreaks.behind [_, _] fun ls hls => ?_
    simpa [hif, hopenLexeme] using begun_condition hls
  rcases breaks_block hsub hshape hviable hus h with
    hbreaks | ⟨consequence, vs, v, htakes, hgblock, hvs, h⟩
  · have hall : Breaks (IsExpression p) (s.next :: s.advance.next :: (cs ++ [c]) ++ us) t := by
      refine hbreaks.behind _ fun ls hls => ?_
      simpa [hif, hopenLexeme, hc] using begun_consequence hcs hg hls
    simpa using hall
  · have helse := h.of_bind fun _ _ => not_blames_pure
    obtain ⟨e, ws, rfl, he, hbreaks⟩ := breaks_elseBranch hsub hshape hviable hvs helse
    obtain ⟨bs, rfl, hbs⟩ := htakes.consumes (by simp)
    have hall : Breaks (IsExpression p)
        (s.next :: s.advance.next :: (cs ++ c :: (bs ++ [e])) ++ ws) t := by
      refine hbreaks.behind _ fun ls hls => ?_
      simpa [hif, hopenLexeme, hc, he] using begun_alternative hcs hg hbs hgblock hls
    simpa using hall

theorem tracesItems_parameter : TracesItems parameter .parameter fun _ => True := by
  constructor
  · intro s u ts name hs h
    simp only [parameter, reads_bind, reads_expect, reads_pure] at h
    obtain ⟨_, _, ⟨hkind, rfl, rfl⟩, rfl, rfl⟩ := h
    obtain ⟨us, rfl, hus, -⟩ := hs.uncons (by simp [hkind])
    refine ⟨us, hus, [s.next], [], rfl, fun _ => rfl, List.forall_mem_nil _, s.next.literal, ?_,
      trivial⟩
    rw [List.append_nil, List.map_singleton, Token.lexeme_of_kind hkind]
    exact .parameter _
  · intro s ts t hs h
    rcases blames_expect_bind.mp h with ⟨-, rfl⟩ | ⟨-, h⟩
    · have hname : Spelled Phrase.parameter (fun _ => True) ([] ++ [anyName]) :=
        ⟨"a", .parameter "a", trivial⟩
      exact breaks_behind [] hs ((begun_of_mem hname).of_append lexed_anyName)
    · exact absurd h not_blames_pure

theorem tracesItems_expression (hsub : Sound sub) (hviable : Viable sub) :
    TracesItems (sub Precedence.lowest) .expression Node.Graded := by
  constructor
  · intro s u ts n hs h
    obtain ⟨us, hus, htakes, hgraded, -⟩ := hsub (Nat.le_refl _) hs h
    exact ⟨us, hus, htakes.covers fun ls hls => ⟨n, hls, hgraded⟩⟩
  · intro s ts t hs h
    refine (hviable (Nat.le_refl _) hs h).behind [] fun ls hls => hls.lead [] ?_
    rintro ms ⟨n, hn, hg, -⟩
    exact ⟨n, by simpa using hn, hg⟩

theorem tracesItems_mapEntry (hsub : Sound sub) (hviable : Viable sub) :
    TracesItems (mapEntry sub) (fun e => .entry e.1 e.2) fun e => e.1.Graded ∧ e.2.Graded := by
  constructor
  · intro s u ts e hs h
    simp only [mapEntry, reads_bind, reads_expect, reads_pure] at h
    obtain ⟨key, v, hkey, _, _, ⟨hcolon, rfl, rfl⟩, value, w, hvalue, rfl, rfl⟩ := h
    obtain ⟨us₁, hus₁, hkeyTakes, hgkey, -⟩ := hsub (Nat.le_refl _) hs hkey
    obtain ⟨us₂, rfl, hus₂, hlexeme⟩ := hus₁.fixed hcolon rfl (by decide)
    obtain ⟨us, hus, hvalueTakes, hgvalue, -⟩ := hsub (Nat.le_refl _) hus₂ hvalue
    obtain ⟨ks, rfl, hks⟩ := hkeyTakes.consumes (by simp)
    have hcovers : Covers (Written (.expression value)) us₂ us :=
      hvalueTakes.covers fun _ hls => hls
    have hall : Covers (Spelled (fun e : Node × Node => .entry e.1 e.2)
        fun e => e.1.Graded ∧ e.2.Graded) ((ks ++ [v.next]) ++ us₂) us := by
      refine hcovers.behind _ fun ls hls => ?_
      exact ⟨(key, value), by simpa [hlexeme] using Written.entry hks hls, hgkey, hgvalue⟩
    exact ⟨us, hus, by simpa using hall⟩
  · intro s ts t hs h
    rcases breaks_before_expect hsub hviable hs h ⟨rfl, by decide⟩ with
      hbreaks | ⟨key, ks, c, us, u, rfl, hc, hks, hgkey, hus, h⟩
    · refine hbreaks.behind [] fun ls hls => hls.extend [] [.colon, .trueWord] (by decide) ?_
      rintro ms ⟨n, hn, hg, -⟩
      exact ⟨(n, .boolean true), by simpa using Written.entry hn (.boolean true), hg, trivial⟩
    · have hbreaks := hviable (Nat.le_refl _) hus (h.of_bind fun _ _ => not_blames_pure)
      have hall : Breaks (Spelled (fun e : Node × Node => .entry e.1 e.2)
          fun e => e.1.Graded ∧ e.2.Graded) ((ks ++ [c]) ++ us) t := by
        refine hbreaks.behind _ fun ls hls => hls.lead _ ?_
        rintro ms ⟨n, hn, hg, -⟩
        exact ⟨(key, n), by simpa [hc] using Written.entry hks hn, hgkey, hg⟩
      simpa using hall

theorem begun_parameters {ps : List Lexeme}
    (h : Begun (Listed Phrase.parameter fun _ => True) ps) :
    Begun (IsExpression p) ([TokenKind.fnWord.lexeme, TokenKind.leftParen.lexeme] ++ ps) := by
  refine h.extend _ [.rightParen, .leftBrace, .rightBrace] (by decide) ?_
  rintro ms ⟨name, names, hnames, -⟩
  refine isExpression_of_closed (.function (name :: names) (.block [])) ?_ trivial rfl
  simpa using Written.function hnames (.block .done)

theorem begun_body {names : List String} {ps bs : List Lexeme}
    (hnames : Written (.list (names.map .parameter)) ps) (h : Begun IsBlock bs) :
    Begun (IsExpression p) (TokenKind.fnWord.lexeme :: TokenKind.leftParen.lexeme ::
      (ps ++ [TokenKind.rightParen.lexeme]) ++ bs) := by
  refine h.lead _ ?_
  rintro ms ⟨n, hn, hg⟩
  refine isExpression_of_closed (.function names n) ?_ hg rfl
  simpa using Written.function hnames hn

theorem breaks_functionLiteral (hsub : Sound sub) (hshape : YieldsShaped sub)
    (hviable : Viable sub) (hs : s.Supplies ts) (hkind : s.next.kind = .fnWord)
    (h : Blames (functionLiteral sub) s t) : Breaks (IsExpression p) ts t := by
  simp only [functionLiteral, blames_take_bind, blames_expect_bind] at h
  obtain ⟨ts₁, rfl, hts₁, hfn⟩ := hs.fixed hkind rfl (by decide)
  rcases h with ⟨-, rfl⟩ | ⟨hopen, h⟩
  · have hnone : Written (.list (([] : List String).map .parameter)) [] := .empty
    have hbegun : Begun (IsExpression p) [TokenKind.fnWord.lexeme] :=
      Begun.of_kinds [.leftParen, .rightParen] (begun_body hnone begun_isBlock) (by decide)
    exact breaks_behind [s.next] hts₁ (by simpa [hfn] using hbegun)
  obtain ⟨ts₂, rfl, hts₂, hopenLexeme⟩ := hts₁.fixed hopen rfl (by decide)
  rcases blames_bind.mp h with h | ⟨names, u, hnames, h⟩
  · refine (breaks_listOf tracesItems_parameter hts₂ h).behind [_, _] fun ls hls => ?_
    simpa [hfn, hopenLexeme] using begun_parameters hls
  obtain ⟨c, us, hus, hc, ⟨ps, rfl, hps⟩, -⟩ :=
    takes_listOf takesItems_parameter hts₂ hnames rfl (by decide)
  rcases breaks_block hsub hshape hviable hus h with hbreaks | ⟨_, _, _, _, _, _, h⟩
  · have hall : Breaks (IsExpression p) (s.next :: s.advance.next :: (ps ++ [c]) ++ us) t := by
      refine hbreaks.behind _ fun ls hls => ?_
      simpa [hfn, hopenLexeme, hc] using begun_body hps hls
    simpa using hall
  · exact absurd h not_blames_pure

theorem breaks_arrayLiteral (hsub : Sound sub) (hviable : Viable sub) (hs : s.Supplies ts)
    (hkind : s.next.kind = .leftBracket) (h : Blames (arrayLiteral sub) s t) :
    Breaks (IsExpression p) ts t := by
  have hlist := blames_take_bind.mp (h.of_bind fun _ _ => not_blames_pure)
  obtain ⟨ts₁, rfl, hts₁, hopen⟩ := hs.fixed hkind rfl (by decide)
  have hbreaks := breaks_listOf (tracesItems_expression hsub hviable) hts₁ hlist
  refine hbreaks.behind [_] fun ls hls => hls.extend _ [.rightBracket] (by decide) ?_
  rintro ms ⟨n, ns, hns, hg⟩
  refine isExpression_of_closed (.array (n :: ns)) ?_ (Node.allGraded_iff.mpr hg) rfl
  simpa [hopen] using Written.array hns

theorem breaks_mapLiteral (hsub : Sound sub) (hviable : Viable sub) (hs : s.Supplies ts)
    (hkind : s.next.kind = .leftBrace) (h : Blames (mapLiteral sub) s t) :
    Breaks (IsExpression p) ts t := by
  have hlist := blames_take_bind.mp (h.of_bind fun _ _ => not_blames_pure)
  obtain ⟨ts₁, rfl, hts₁, hopen⟩ := hs.fixed hkind rfl (by decide)
  have hbreaks := breaks_listOf (tracesItems_mapEntry hsub hviable) hts₁ hlist
  refine hbreaks.behind [_] fun ls hls => hls.extend _ [.rightBrace] (by decide) ?_
  rintro ms ⟨e, es, hes, hg⟩
  refine isExpression_of_closed (.mapping (e :: es)) ?_ (Node.entriesGraded_iff.mpr hg) rfl
  simpa [hopen] using Written.mapping hes

theorem breaks_prefixRule? (hsub : Sound sub) (hshape : YieldsShaped sub) (hviable : Viable sub)
    (hs : s.Supplies ts) {rule : Parser Node} (hrule : prefixRule? sub s.next.kind = some rule)
    (h : Blames rule s t) : Breaks (IsExpression p) ts t := by
  have hquiet : ∀ {f : Token → Node}, ¬ Blames (take >>= fun x => pure (f x)) s t :=
    fun hblames => absurd (blames_take_bind.mp hblames) not_blames_pure
  cases hkind : s.next.kind <;> rw [hkind] at hrule <;> cases hrule
  case ident => exact absurd h hquiet
  case int => exact breaks_integerLiteral hs h
  case string => exact absurd h hquiet
  case bang => exact breaks_prefixExpression hviable hs .bang (by decide) hkind h
  case minus => exact breaks_prefixExpression hviable hs .minus (by decide) hkind h
  case trueWord => exact absurd h hquiet
  case falseWord => exact absurd h hquiet
  case leftParen => exact breaks_groupedExpression hsub hviable hs hkind h
  case ifWord => exact breaks_conditional hsub hshape hviable hs hkind h
  case fnWord => exact breaks_functionLiteral hsub hshape hviable hs hkind h
  case leftBracket => exact breaks_arrayLiteral hsub hviable hs hkind h
  case leftBrace => exact breaks_mapLiteral hsub hviable hs hkind h

end Forms

/-! ### Operators behind an expression -/

section Operators

variable {sub : Sub} {s u : Stream} {ts us : List Token} {t : Token} {left last : Node} {p : Nat}

theorem breaks_infixExpression (hviable : Viable sub) (hleft : ReadAs p left ts us)
    (hs : s.Supplies us) {operator : Operator} (known : operator ∈ Operator.between)
    (hkind : s.next.kind = operator.kind) (hp : p < s.next.kind.precedence)
    (h : Blames (infixExpression sub left) s t) : Breaks (IsExpression p) ts t := by
  rw [infixExpression, blames_take_bind] at h
  obtain ⟨us₁, rfl, hus₁, hlexeme⟩ := hs.fixed hkind (Operator.isFixed_kind operator)
    (Operator.kind_ne_eof operator)
  have hlevel : s.next.kind.precedence = operator.level := congrArg TokenKind.precedence hkind
  have hlowest := Nat.le_of_lt (Operator.lowest_lt_level known)
  have hbinary := hleft.binary
  rw [firstKind_cons, hlevel] at hbinary
  rw [hlevel] at hp h
  have hbreaks := hviable hlowest hus₁ (h.of_bind fun _ _ => not_blames_pure)
  obtain ⟨taken, rfl, hwritten⟩ := hleft.takes.consumes (by simp)
  have hall : Breaks (IsExpression p) ((taken ++ [s.next]) ++ us₁) t := by
    refine hbreaks.behind _ fun ls hls => hls.lead _ ?_
    rintro ms ⟨n, hn, hg, hstrong⟩
    refine ⟨.infixOp left operator n, ?_, ⟨hbinary, hstrong, hleft.graded, hg⟩, ?_⟩
    · simpa [hlexeme, Operator.lexeme] using Written.infixOp known hwritten hn
    · rintro _ ⟨⟩
      exact hp
  simpa using hall

theorem breaks_callExpression (hsub : Sound sub) (hviable : Viable sub)
    (hleft : ReadAs p left ts us) (hs : s.Supplies us) (hkind : s.next.kind = .leftParen)
    (h : Blames (callExpression sub left) s t) : Breaks (IsExpression p) ts t := by
  have hlist := blames_take_bind.mp (h.of_bind fun _ _ => not_blames_pure)
  obtain ⟨us₁, rfl, hus₁, hopen⟩ := hs.fixed hkind rfl (by decide)
  have hbreaks := breaks_listOf (tracesItems_expression hsub hviable) hus₁ hlist
  obtain ⟨hlevel, hplain⟩ := hleft.closed (by rw [firstKind_cons, hkind]; decide)
  obtain ⟨taken, rfl, hwritten⟩ := hleft.takes.consumes (by simp)
  have hall : Breaks (IsExpression p) ((taken ++ [s.next]) ++ us₁) t := by
    refine hbreaks.behind _ fun ls hls => hls.extend _ [.rightParen] (by decide) ?_
    rintro ms ⟨n, ns, hns, hg⟩
    refine isExpression_of_closed (.call left (n :: ns)) ?_
      ⟨hlevel, hplain, hleft.graded, Node.allGraded_iff.mpr hg⟩ rfl
    simpa [hopen] using Written.call hwritten hns
  simpa using hall

theorem breaks_indexExpression (hsub : Sound sub) (hviable : Viable sub)
    (hleft : ReadAs p left ts us) (hs : s.Supplies us) (hkind : s.next.kind = .leftBracket)
    (h : Blames (indexExpression sub left) s t) : Breaks (IsExpression p) ts t := by
  rw [indexExpression, blames_take_bind] at h
  obtain ⟨us₁, rfl, hus₁, hopen⟩ := hs.fixed hkind rfl (by decide)
  obtain ⟨hlevel, hplain⟩ := hleft.closed (by rw [firstKind_cons, hkind]; decide)
  obtain ⟨taken, rfl, hwritten⟩ := hleft.takes.consumes (by simp)
  rcases breaks_before_expect hsub hviable hus₁ h ⟨rfl, by decide⟩ with
    hbreaks | ⟨_, _, _, _, _, _, _, _, _, _, h⟩
  · have hall : Breaks (IsExpression p) ((taken ++ [s.next]) ++ us₁) t := by
      refine hbreaks.behind _ fun ls hls => hls.extend _ [.rightBracket] (by decide) ?_
      rintro ms ⟨n, hn, hg, -⟩
      refine isExpression_of_closed (.index left n) ?_ ⟨hlevel, hplain, hleft.graded, hg⟩ rfl
      simpa [hopen] using Written.index hwritten hn
    simpa using hall
  · exact absurd h not_blames_pure

theorem breaks_operatorStep (hsub : Sound sub) (hviable : Viable sub)
    (hleft : ReadAs p left ts us) (hs : s.Supplies us) (h : Blames (operatorStep sub p left) s t) :
    Breaks (IsExpression p) ts t := by
  rw [operatorStep, blames_next_bind] at h
  dsimp only at h
  split at h
  · next hp =>
    split at h
    · next rule hrule =>
      have hblames := h.of_bind fun _ _ => not_blames_pure
      rcases infixRule?_cases hrule with
        ⟨operator, known, hkind, rfl⟩ | ⟨hkind, rfl⟩ | ⟨hkind, rfl⟩
      · exact breaks_infixExpression hviable hleft hs known hkind hp hblames
      · exact breaks_callExpression hsub hviable hleft hs hkind hblames
      · exact breaks_indexExpression hsub hviable hleft hs hkind hblames
    · exact absurd h not_blames_pure
  · exact absurd h not_blames_pure

theorem readAs_reaches (hsub : Sound sub) (h : Reaches (operatorStep sub p) left s last u) :
    ∀ {us : List Token}, s.Supplies us → ReadAs p left ts us →
      ∃ vs, u.Supplies vs ∧ ReadAs p last ts vs := by
  induction h with
  | here => exact fun hs hleft => ⟨_, hs, hleft⟩
  | again first _ ih =>
    intro us hs hleft
    rcases reads_operatorStep first with ⟨hp, rule, n, hrule, hn, hr⟩ | ⟨_, hr, _⟩
    · cases hr
      obtain ⟨vs, hvs, hread⟩ := readAs_infixRule? hsub hleft hs hp hrule hn
      exact ih hvs hread
    · cases hr

theorem viable_expressionForm (hsub : Sound sub) (hshape : YieldsShaped sub)
    (hviable : Viable sub) : Viable (expressionForm sub) := by
  intro p s ts t hlowest hs h
  rw [expressionForm, blames_next_bind] at h
  split at h
  · next rule hrule =>
    rcases blames_bind.mp h with h | ⟨first, u, hfirst, h⟩
    · exact breaks_prefixRule? hsub hshape hviable hs hrule h
    obtain ⟨us, hus, hread⟩ := readAs_prefixRule? hsub hshape hs hrule hfirst
    obtain ⟨last, v, hreaches, hlast⟩ := h.of_loop
    obtain ⟨vs, hvs, hread⟩ := readAs_reaches hsub hreaches hus hread
    rcases hlast with hlast | rfl
    · exact breaks_operatorStep hsub hviable hread hvs hlast
    · have hcovers : Covers (IsExpression p) ts vs :=
        hread.takes.covers fun ls hls => ⟨last, hls, hread.graded, hread.strong⟩
      exact hcovers.breaks hvs fun ls hls => begun_of_mem hls
  · rw [← blames_refuse.mp h]
    exact breaks_behind [] hs (begun_isExpression p)

end Operators

theorem viable_expressionWithin (depth : Nat) : Viable (expressionWithin depth) := by
  induction depth with
  | zero =>
    intro p s ts t _ hs h
    rw [← blames_refuse.mp h]
    exact breaks_behind [] hs (begun_isExpression p)
  | succ depth ih =>
    exact viable_expressionForm (sound_expressionWithin depth) (yieldsShaped_expressionWithin depth)
      ih

theorem viable_expression : Viable Parser.expression :=
  fun {_ s _ _} => viable_expressionWithin (s.pending.length + 1)

/-! ### Programs -/

/-- What stands before the first reported token of a program begins another program. -/
theorem breaks_program {s : Stream} {ts : List Token} {t : Token} (hs : s.Supplies ts)
    (h : Blames program s t) : Breaks AreStatements ts t :=
  breaks_of_statements sound_expression yieldsShaped_expression viable_expression hs
    (h.of_bind fun _ _ => not_blames_pure)

end MonkeyLang

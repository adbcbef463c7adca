import MonkeyLang.Proofs.Lexer.Joined
import MonkeyLang.Proofs.Parser.Completeness
import MonkeyLang.Proofs.Parser.Moved
import MonkeyLang.Proofs.Parser.Soundness

/-!
Two sources, one behind the other. If the first one is accepted, ends with a semicolon and has as
many opening as closing braces, then all its blocks are closed and its last statement ends with the
semicolon. The parser reads its statements whatever comes behind them, and goes on with the second
source as if that stood alone, but for the places of its tokens.
-/
namespace MonkeyLang

open MonkeyLang.Parser

/-! ### Ends and braces of what is written -/

def EndsOpen (ls : List Lexeme) : Prop := ∀ l ∈ ls.getLast?, l.kind ≠ .semicolon

theorem EndsOpen.cons {l : Lexeme} {ls : List Lexeme} (hl : l.kind ≠ .semicolon)
    (h : EndsOpen ls) : EndsOpen (l :: ls) := by
  intro x hx
  cases ls with
  | nil =>
    cases hx
    exact hl
  | cons y ys => exact h x hx

theorem EndsOpen.append_cons {l : Lexeme} {ls : List Lexeme} (before : List Lexeme)
    (h : EndsOpen (l :: ls)) : EndsOpen (before ++ l :: ls) := by
  intro x hx
  refine h x ?_
  rwa [List.getLast?_append, List.getLast?_cons, Option.some_or, ← List.getLast?_cons] at hx

theorem eq_nil_or_of_not_endsOpen {before ls : List Lexeme} (h : ¬ EndsOpen (before ++ ls)) :
    ls = [] ∨ ¬ EndsOpen ls := by
  cases ls with
  | nil => exact Or.inl rfl
  | cons l ls => exact Or.inr fun hends => h (hends.append_cons before)

theorem endsOpen_singleton {l : Lexeme} (hl : l.kind ≠ .semicolon) : EndsOpen [l] := by
  rintro _ ⟨⟩
  exact hl

/-- Statements are the only phrases that may end with a semicolon; lists stand in brackets. -/
def Phrase.isClosed : Phrase → Bool
  | list _ | statements _ => false
  | _ => true

theorem Operator.kind_ne (operator : Operator) : operator.kind ≠ .semicolon ∧
    operator.kind ≠ .leftBrace ∧ operator.kind ≠ .rightBrace := by
  cases operator <;> refine ⟨?_, ?_, ?_⟩ <;> intro h <;> cases h

theorem Written.endsOpen {phrase : Phrase} {ls : List Lexeme} (h : Written phrase ls)
    (hclosed : phrase.isClosed) : EndsOpen ls := by
  induction h with
  | identifier | integer | text | parameter => exact endsOpen_singleton (by simp)
  | boolean value => cases value <;> exact endsOpen_singleton (by decide)
  | prefixOp _ _ ih => exact (ih rfl).cons (Operator.kind_ne _).1
  | infixOp _ _ _ _ ih => exact ((ih rfl).cons (Operator.kind_ne _).1).append_cons _
  | grouped | array | mapping | block =>
    exact ((endsOpen_singleton (by decide)).append_cons _).cons (by decide)
  | call | index =>
    exact (((endsOpen_singleton (by decide)).append_cons _).cons (by decide)).append_cons _
  | conditional _ _ _ ih | function _ _ _ ih =>
    exact ((((ih rfl).cons (by decide)).append_cons _).cons (by decide)).cons (by decide)
  | conditionalElse _ _ _ _ _ ih =>
    refine EndsOpen.cons (by decide) (EndsOpen.cons (by decide) (EndsOpen.append_cons _ ?_))
    exact (((ih rfl).cons (by decide)).append_cons _).cons (by decide)
  | entry _ _ _ ih => exact ((ih rfl).cons (by decide)).append_cons _
  | letBind _ _ ih => exact (((ih rfl).cons (by decide)).cons (by simp)).cons (by decide)
  | returning _ ih => exact (ih rfl).cons (by decide)
  | expression _ ih => exact ih rfl
  | empty | single | more | done | terminated | unterminated => cases hclosed

def kindCount (kind : TokenKind) (ls : List Lexeme) : Nat := ls.countP (·.kind = kind)

theorem Written.braces {phrase : Phrase} {ls : List Lexeme} (h : Written phrase ls) :
    kindCount .leftBrace ls = kindCount .rightBrace ls := by
  unfold kindCount
  induction h with
  | boolean value => cases value <;> rfl
  | prefixOp | infixOp => simp_all [Operator.lexeme, TokenKind.lexeme, Operator.kind_ne]
  | _ => simp_all [TokenKind.lexeme]

/-- A source behind which another one can begin. -/
structure Finished [Text.Alphabet] (source : String) (parsed : Parsed) : Prop where
  parse_eq : parse source = .ok parsed
  clean : parsed.diagnostics = []
  semicolon : ∃ t ∈ (Lexer.scan source).tokens.getLast?, t.kind = .semicolon
  braces : (Lexer.scan source).tokens.countP (·.kind = .leftBrace) =
    (Lexer.scan source).tokens.countP (·.kind = .rightBrace)

theorem Finished.written [Text.Alphabet] {source : String} {parsed : Parsed}
    (h : Finished source parsed) :
    ∃ ns, parsed.program = .program ns ∧ Node.AllGraded ns ∧
      Written (.statements ns) ((Lexer.scan source).tokens.map Token.lexeme) := by
  obtain ⟨ns, hprogram, ⟨taken, missing, htaken, -, -, hwritten⟩, hgraded⟩ :=
    takes_of_parse h.parse_eq h.clean
  rw [List.append_nil] at htaken
  rw [← htaken] at hwritten
  have hcount := hwritten.braces
  have hkinds : ∀ kind, kindCount kind ((Lexer.scan source).tokens.map Token.lexeme) =
      (Lexer.scan source).tokens.countP (·.kind = kind) := fun kind => List.countP_map
  have hopening :
      kindCount .leftBrace (List.replicate missing TokenKind.rightBrace.lexeme) = 0 := by
    simp [kindCount, TokenKind.lexeme]
  have hclosing :
      kindCount .rightBrace (List.replicate missing TokenKind.rightBrace.lexeme) = missing := by
    simp [kindCount, TokenKind.lexeme, List.countP_replicate]
  have happend : ∀ kind (ls ls' : List Lexeme),
      kindCount kind (ls ++ ls') = kindCount kind ls + kindCount kind ls' :=
    fun kind ls ls' => List.countP_append
  rw [happend, happend, hkinds, hkinds, hopening, hclosing, h.braces] at hcount
  obtain rfl : missing = 0 := by omega
  exact ⟨ns, hprogram, hgraded, by simpa using hwritten⟩

/-! ### Reading on -/

theorem endsProgram_of_begins {kind : TokenKind} (h : kind.begins) : endsProgram kind = false := by
  cases kind <;> first | rfl | cases h

theorem loopWithin_statement {found : List Node} {n : Node} {ts us : List Token} {s : Stream}
    (hs : s.Holds ts) (hfirst : endsProgram (firstKind ts) = false)
    (h : Accepts (statement Parser.expression) ts n us) :
    ∃ t : Stream, t.Holds us ∧ t.ending = s.ending ∧ ∀ bound,
      loopWithin (bound + 1) (statementStep Parser.expression endsProgram) found s =
        loopWithin bound (statementStep Parser.expression endsProgram) (found ++ [n]) t := by
  have hstep : Accepts (statementStep Parser.expression endsProgram found) ts
      (.inl (found ++ [n])) us := accepts_statementStep hfirst h
  obtain ⟨t, hread, ht⟩ := hstep s hs
  have hkeeps : Keeps (statementStep Parser.expression endsProgram found) :=
    Lockstep.keeps_of_nowhere
      (Lockstep.tracks_statementStep Lockstep.tracksSub_expression endsProgram found)
  obtain ⟨k, hrest⟩ := (hkeeps s).1
  refine ⟨t, ht, ?_, fun bound => ?_⟩
  · rw [← show _ = t from congrArg Outcome.rest hread, hrest]
    rfl
  · rw [loopWithin, bind_of_reads hread]

/-- The loop over the statements finds those of the first tokens, and goes on with the others. -/
def LoopPasses (ns : List Node) (ts us : List Token) : Prop :=
  ∀ (found : List Node) (s : Stream), s.Holds (ts ++ us) →
    ∃ k ≤ ts.length, ∃ t : Stream, t.Holds us ∧ t.ending = s.ending ∧ ∀ bound,
      loopWithin (bound + k) (statementStep Parser.expression endsProgram) found s =
        loopWithin bound (statementStep Parser.expression endsProgram) (found ++ ns) t

theorem loopPasses_nil (us : List Token) : LoopPasses [] [] us := by
  intro found s hs
  refine ⟨0, Nat.le_refl 0, s, hs, rfl, fun bound => ?_⟩
  rw [Nat.add_zero, List.append_nil]

theorem LoopPasses.cons {n : Node} {ns : List Node} {ts ts' us : List Token}
    (h : LoopPasses ns ts' us) (hlength : ts'.length < ts.length)
    (hfirst : endsProgram (firstKind (ts ++ us)) = false)
    (hread : Accepts (statement Parser.expression) (ts ++ us) n (ts' ++ us)) :
    LoopPasses (n :: ns) ts us := by
  intro found s hs
  obtain ⟨t₁, ht₁, hending₁, hstep⟩ := loopWithin_statement hs hfirst hread
  obtain ⟨k, hk, t, ht, hending, hloop⟩ := h (found ++ [n]) t₁ ht₁
  refine ⟨k + 1, by omega, t, ht, hending.trans hending₁, fun bound => ?_⟩
  rw [← Nat.add_assoc, hstep, hloop, List.append_assoc]
  rfl

theorem loopPasses_of_written {ns : List Node} {ts us : List Token}
    (h : Written (.statements ns) (ts.map Token.lexeme)) (hg : Node.AllGraded ns)
    (hlast : ts.map Token.lexeme = [] ∨ ¬ EndsOpen (ts.map Token.lexeme)) :
    LoopPasses ns ts us := by
  induction ns generalizing ts with
  | nil =>
    generalize hls : ts.map Token.lexeme = ls at h
    cases h
    obtain rfl := List.map_eq_nil_iff.mp hls
    exact loopPasses_nil us
  | cons n ns ih =>
    have hsub : Complete ((ts ++ us).length + 1) Parser.expression := complete_expression _
    generalize hls : ts.map Token.lexeme = ls at h hlast
    cases h with
    | terminated hnode hrest =>
      obtain ⟨ts₁, ts', rfl, rfl, hts'⟩ := List.map_eq_append_iff.mp hls
      obtain ⟨c, ts₂, rfl, -, hc, rfl⟩ := map_lexeme_eq_cons hts'
      have hopen := hlast.resolve_left (by simp)
      rw [List.append_cons] at hopen
      have hfirst := endsProgram_of_begins (hnode.statement_begins.firstKind_append
        (c :: (ts₂ ++ us)))
      have hstop : Stops Precedence.lowest (c :: (ts₂ ++ us)) :=
        stops_cons (by rw [hc]; decide) (by rw [hc]; decide)
      have hread := accepts_statement hsub hnode hg.1 hstop (by simp) (accepts_skipOptional_cons hc)
      refine (ih hrest hg.2 (eq_nil_or_of_not_endsOpen hopen)).cons ?_
        (by simpa using hfirst) (by simpa using hread)
      simp only [List.length_append, List.length_cons]
      omega
    | unterminated hnode hrest apart =>
      obtain ⟨ts₁, ts₂, rfl, rfl, rfl⟩ := List.map_eq_append_iff.mp hls
      have hsome : ts₁ ≠ [] := by
        rintro rfl
        obtain ⟨l, rest', hl, -⟩ := hnode.statement_begins
        cases hl
      have hopen := hlast.resolve_left (by simp [hsome])
      cases ts₂ with
      | nil =>
        -- The last statement would end without a semicolon.
        rw [List.map_nil, List.append_nil] at hopen
        exact absurd (hnode.endsOpen rfl) hopen
      | cons c ts₃ =>
        have hend : Apart [] := ⟨⟨by decide, by decide⟩, by decide⟩
        have halone : Apart (c :: ts₃ ++ []) := apart_append hrest apart hend
        have hapart : Apart (c :: ts₃ ++ us) := halone
        have hfirst := endsProgram_of_begins (hnode.statement_begins.firstKind_append
          (c :: ts₃ ++ us))
        have hread := accepts_statement hsub hnode hg.1 hapart.1 (by simp)
          (accepts_skipOptional_of_ne hapart.2)
        refine (ih hrest hg.2 (eq_nil_or_of_not_endsOpen hopen)).cons ?_
          (by simpa using hfirst) (by simpa using hread)
        have hpos := List.length_pos_iff.mpr hsome
        simp only [List.length_append]
        omega

/-! ### Both sources together -/

theorem parseScan_eq {found : Lexer.Scan} {nodes : List Node} {t : Stream}
    {reports : List Diagnostic}
    (h : loop (statementStep Parser.expression endsProgram) [] (.ofScan found) =
      { value := some nodes, rest := t, reports }) :
    parseScan found = { program := .program nodes, diagnostics := reports } := by
  have hstatements : statements Parser.expression endsProgram (.ofScan found) =
      { value := some nodes, rest := t.advance, reports } := by
    rw [statements, bind_of_some (congrArg Outcome.value h), h,
      bind_of_reads (reads_take.mpr ⟨rfl, rfl⟩)]
    simp [pure, succeed]
  have hprogram : program (.ofScan found) =
      { value := some (.program nodes), rest := t.advance, reports } := by
    rw [program, bind_of_some (congrArg Outcome.value hstatements), hstatements]
    simp [pure, succeed]
  rw [parseScan, hprogram]
  rfl

theorem exists_statements_of_holds {found : Lexer.Scan} (hending : found.ending.kind = .eof) :
    ∃ (ms : List Node) (t : Stream) (reports : List Diagnostic),
      loop (statementStep Parser.expression endsProgram) [] (.ofScan found) =
        { value := some ms, rest := t, reports } ∧
      ∀ (M : Move) (ns : List Node) (u : Stream) (bound : Nat),
        u.Holds (found.tokens.map M.token) → u.ending = M.token found.ending →
        found.tokens.length + 1 < bound → ∃ v,
          loopWithin bound (statementStep Parser.expression endsProgram) ns u =
            { value := some (ns ++ ms), rest := v, reports := reports.map M.diagnostic } := by
  have hlength : (Stream.ofScan found).pending.length = found.tokens.length + 1 := by
    simp [Stream.ofScan]
  obtain ⟨ms, k, reports, -, halone, hloop⟩ := Move.exists_statements (s := .ofScan found) hending
  refine ⟨ms, _, reports, halone, fun M ns u bound hu huending hbound => ?_⟩
  rcases hu.pending_eq with hpending | ⟨hnil, -⟩
  · have hmoved : u = M.stream (.ofScan found) := by
      obtain ⟨pending, ending⟩ := u
      simp only at hpending huending
      simp [Move.stream, Stream.ofScan, hpending, huending]
    exact ⟨_, by rw [hmoved, hloop M bound ns (by omega)]⟩
  · -- Nothing is left, and nothing was there to be read.
    have hempty : found.tokens = [] := List.map_eq_nil_iff.mp hnil
    have hends : endsProgram (Stream.ofScan found).next.kind := by
      simp [Stream.ofScan, Stream.next, hempty, hending, endsProgram]
    have huends : endsProgram u.next.kind := by
      rw [hu.next_kind, hnil]
      rfl
    rw [loop, loopWithin_of_ends hends (Nat.succ_pos _)] at halone
    obtain ⟨hvalue, -, rfl⟩ := Outcome.mk.inj halone
    obtain rfl := Option.some.inj hvalue
    exact ⟨u, by rw [loopWithin_of_ends huends (by omega), List.append_nil]; rfl⟩

/-- The statements of moved tokens are read behind those of a text that ends with a semicolon. -/
theorem parseScan_append {ns : List Node} {ts : List Token} {found : Lexer.Scan} (M : Move)
    (h : Written (.statements ns) (ts.map Token.lexeme)) (hg : Node.AllGraded ns)
    (hlast : ¬ EndsOpen (ts.map Token.lexeme)) (hending : found.ending.kind = .eof)
    (htokens : ∀ t ∈ found.tokens, t.kind ≠ .eof) :
    ∃ ms reports, parseScan found = { program := .program ms, diagnostics := reports } ∧
      parseScan { tokens := ts ++ found.tokens.map M.token, ending := M.token found.ending } =
        { program := .program (ns ++ ms), diagnostics := reports.map M.diagnostic } := by
  obtain ⟨ms, t, reports, halone, hmoved⟩ := exists_statements_of_holds hending
  refine ⟨ms, reports, parseScan_eq halone, ?_⟩
  generalize hjoined : Lexer.Scan.mk (ts ++ found.tokens.map M.token) (M.token found.ending)
    none = joined
  have hholds : (Stream.ofScan joined).Holds (ts ++ found.tokens.map M.token) := by
    subst hjoined
    refine ⟨(M.kind_token _).trans hending, fun x hx => ?_, Or.inl rfl⟩
    rcases List.mem_append.mp hx with hx | hx
    · exact h.before_eof x.lexeme (List.mem_map_of_mem hx)
    · obtain ⟨y, hy, rfl⟩ := List.mem_map.mp hx
      rw [M.kind_token]
      exact htokens y hy
  have hlength : (Stream.ofScan joined).pending.length = ts.length + found.tokens.length + 1 := by
    simp [← hjoined, Stream.ofScan, Nat.add_assoc]
  -- The statements of the first text are read, and the tokens of the second are left.
  obtain ⟨k, hk, u, hu, huending, hfirst⟩ := loopPasses_of_written h hg (Or.inr hlast) [] _ hholds
  obtain ⟨v, hsecond⟩ := hmoved M ns u (ts.length - k + found.tokens.length + 2) hu
    (by rw [huending, ← hjoined]; rfl) (by omega)
  apply parseScan_eq (t := v)
  rw [loop, hlength, show ts.length + found.tokens.length + 1 + 1 =
    ts.length - k + found.tokens.length + 2 + k by omega, hfirst, List.nil_append, hsecond]

def Diagnostic.behind (before : List Char) (d : Diagnostic) : Diagnostic :=
  { d with token := d.token.behind before }

/-- Behind a finished source every source is read as if it stood alone, and its faults are reported
where they are then. -/
theorem Finished.parse_append [Text.Alphabet] {first second : String} {parsed : Parsed}
    (h : Finished first parsed) (hsecond : Lexer.Readable second.toList) :
    ∃ ns ms reports, parsed.program = .program ns ∧
      parse second = .ok { program := .program ms, diagnostics := reports } ∧
      parse (first ++ second) =
        .ok { program := .program (ns ++ ms)
              diagnostics := reports.map (Diagnostic.behind first.toList) } := by
  obtain ⟨ns, hprogram, hgraded, hwritten⟩ := h.written
  have hoversized : (Lexer.scan second).oversized = none :=
    Lexer.oversized_scanWithin (c := .start second.toList) hsecond
  have hscan := Lexer.scan_append (parse_eq_ok.mp h.parse_eq).1 h.semicolon hoversized
  have hlast : ¬ EndsOpen ((Lexer.scan first).tokens.map Token.lexeme) := by
    obtain ⟨t, ht, hkind⟩ := h.semicolon
    intro hopen
    refine hopen t.lexeme ?_ hkind
    rw [List.getLast?_map, show (Lexer.scan first).tokens.getLast? = some t from ht]
    rfl
  obtain ⟨ms, reports, halone, hjoined⟩ :=
    parseScan_append ⟨Token.behind first.toList, fun _ => rfl⟩ hwritten hgraded hlast
      (Lexer.scanWithin_ending _ _) fun t ht => (Lexer.lexed_scanWithin _ _ t ht).2
  refine ⟨ns, ms, reports, hprogram, parse_eq_ok.mpr ⟨hoversized, halone⟩, parse_eq_ok.mpr ?_⟩
  rw [hscan]
  exact ⟨rfl, hjoined⟩

end MonkeyLang

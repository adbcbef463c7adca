import MonkeyLang.Proofs.Lexer.Places
import MonkeyLang.Proofs.Lexer.Spaced
import MonkeyLang.Proofs.Parser.Concurring
import MonkeyLang.Proofs.Parser.Viable

/-!
The first diagnostic of a source stands at its first wrong token. What comes before that token
begins a source without diagnostics, and what comes up to it begins none.
-/
namespace MonkeyLang

open MonkeyLang.Parser

/-- The lexemes of a source that is read without a diagnostic, the end of input included. -/
def Accepted [Text.Alphabet] (ls : List Lexeme) : Prop :=
  ∃ source ts parsed, Lexer.tokens source = .ok ts ∧ ts.map Token.lexeme = ls ∧
    parse source = .ok parsed ∧ parsed.diagnostics = []

theorem tokens_eq_ok [Text.Alphabet] {source : String} {ts : List Token} :
    Lexer.tokens source = .ok ts ↔ (Lexer.scan source).oversized = none ∧
      (Lexer.scan source).tokens ++ [(Lexer.scan source).ending] = ts := by
  simp only [Lexer.tokens]
  split <;> simp_all

/-! ### The tokens before the first report -/

theorem Begun.accepted [Text.Alphabet] {ls : List Lexeme} (h : Begun AreStatements ls)
    (hls : ∀ l ∈ ls, l.Lexed) : ∃ ms, Accepted (ls ++ ms) := by
  obtain ⟨ms, hms, ns, hwritten, hgraded⟩ := h
  have hlexed : ∀ l ∈ ls ++ ms, l.Lexed := List.forall_mem_append.mpr ⟨hls, hms⟩
  obtain ⟨source, hoversized, htokens⟩ :=
    exists_scan fun l hl => ⟨hlexed l hl, hwritten.isScanned l hl⟩
  rw [← htokens] at hwritten
  have hholds := holds_ofScan hwritten (Lexer.scanWithin_ending _ _)
  obtain ⟨t, hread, -⟩ := accepts_program hwritten hgraded _ hholds
  have hparse := parseScan_of_reads hread
  refine ⟨ms ++ [(Lexer.scan source).ending.lexeme], source, _, _,
    tokens_eq_ok.mpr ⟨hoversized, rfl⟩, ?_, parse_eq_ok.mpr ⟨hoversized, hparse⟩, rfl⟩
  rw [List.map_append, htokens, List.append_assoc]
  rfl

theorem eq_nil_of_kind_eof {tokens before after : List Token} {ending t : Token}
    (h : tokens ++ [ending] = before ++ t :: after) (htokens : ∀ x ∈ tokens, x.kind ≠ .eof)
    (ht : t.kind = .eof) : t = ending ∧ after = [] := by
  rcases List.eq_nil_or_concat after with rfl | ⟨init, last, rfl⟩
  · have hlast := List.append_inj_right' h rfl
    exact ⟨(List.singleton_inj.mp hlast).symm, rfl⟩
  · rw [List.concat_eq_append, ← List.cons_append, ← List.append_assoc] at h
    have hmem : t ∈ tokens := by
      rw [List.append_inj_left' h rfl]
      simp
    exact absurd ht (htokens t hmem)

theorem exists_before [Text.Alphabet] {source : String} {t : Token}
    (h : Blames program (.ofScan (Lexer.scan source)) t) :
    ∃ before after, (Lexer.scan source).tokens ++ [(Lexer.scan source).ending] =
        before ++ t :: after ∧ ∃ ls, Accepted (before.map Token.lexeme ++ ls) := by
  have hsupplies := supplies_ofScan source
  obtain ⟨before, us, u, htokens, hus, rfl, hbegun⟩ := breaks_program hsupplies h
  have hlexed : ∀ l ∈ before.map Token.lexeme, l.Lexed := by
    intro l hl
    obtain ⟨x, hx, rfl⟩ := List.mem_map.mp hl
    exact hsupplies.lexed x (htokens ▸ List.mem_append_left us hx)
  cases us with
  | cons x us =>
    rw [hus.next_cons]
    refine ⟨before, us ++ [(Lexer.scan source).ending], ?_, hbegun.accepted hlexed⟩
    rw [htokens, List.append_assoc, List.cons_append]
  | nil =>
    -- Nothing is left, so the end of input is reported.
    have heof : u.next.kind = .eof := hus.next_kind
    have hending : u.next = (Lexer.scan source).ending := by
      obtain ⟨n, hn⟩ := keeps_program.blames h
      rcases (Stream.ofScan (Lexer.scan source)).next_skip n with hmem | hending
      · rw [← hn] at hmem
        rcases List.mem_append.mp (List.mem_of_mem_drop hmem) with hmem | hmem
        · exact absurd heof (hsupplies.before_eof _ hmem)
        · exact List.mem_singleton.mp hmem
      · rw [hn, hending]
        rfl
    refine ⟨before, [], ?_, hbegun.accepted hlexed⟩
    rw [htokens, List.append_nil, hending]

/-! ### The first reported token -/

theorem Lockstep.reports_program {L : Lockstep} (hnear : L.near 0) {t : Token}
    (h : Blames program L.first t) (hplace : ∀ j, ¬ L.near j → t ≠ (L.first.skip j).next) :
    (program L.second).reports ≠ [] := by
  obtain ⟨shared, shared', later, later', hshared, hfirst, hfar, hsecond, -⟩ :=
    L.exists_shared hnear
  obtain ⟨d, hd, rfl⟩ := Option.map_eq_some_iff.mp h
  rw [hfirst] at hd
  rw [hsecond]
  cases hshared with
  | nil =>
    obtain ⟨j, hj, htoken⟩ := hfar d (List.mem_of_mem_head? hd)
    exact absurd htoken (hplace j hj)
  | cons => exact List.cons_ne_nil _ _

section Begins

variable {source source' : String} {t : Token} {before after : List Token}

/-- If the end of input is reported first, a scan that begins with the same tokens has no others. -/
theorem reports_of_begins_eof [Text.Alphabet] (h : Blames program (.ofScan (Lexer.scan source)) t)
    (hsplit : (Lexer.scan source).tokens ++ [(Lexer.scan source).ending] = before ++ t :: after)
    (heof : t.kind = .eof)
    (hbegins : (before ++ [t]).map Token.lexeme <+:
      ((Lexer.scan source').tokens ++ [(Lexer.scan source').ending]).map Token.lexeme) :
    (program (.ofScan (Lexer.scan source'))).reports ≠ [] := by
  have hsupplies := supplies_ofScan source
  have hsupplies' := supplies_ofScan source'
  obtain ⟨rfl, rfl⟩ := eq_nil_of_kind_eof hsplit hsupplies.before_eof heof
  obtain ⟨more, hmore⟩ := hbegins
  rw [List.map_append, List.append_assoc] at hmore
  obtain ⟨before', rest, hsplit', hbefore, hrest⟩ := List.map_eq_append_iff.mp hmore.symm
  obtain ⟨t', after', rfl, ht, -⟩ := List.map_eq_cons_iff.mp hrest
  have heof' : t'.kind = .eof := (congrArg Lexeme.kind ht).trans heof
  obtain ⟨rfl, rfl⟩ := eq_nil_of_kind_eof hsplit' hsupplies'.before_eof heof'
  have hall : (Stream.ofScan (Lexer.scan source)).pending.map Token.lexeme =
      (Stream.ofScan (Lexer.scan source')).pending.map Token.lexeme := by
    simp only [Stream.ofScan, hsplit, hsplit', List.map_append, hbefore, List.map_singleton, ht]
  let L := Lockstep.ofEq _ _ hall ht.symm hsupplies.ending_eof
  exact L.reports_program trivial h fun j hj => absurd trivial hj

theorem reports_of_begins [Text.Alphabet] (h : Blames program (.ofScan (Lexer.scan source)) t)
    (hsplit : (Lexer.scan source).tokens ++ [(Lexer.scan source).ending] = before ++ t :: after)
    (hafter : t ∉ after)
    (hbegins : (before ++ [t]).map Token.lexeme <+:
      ((Lexer.scan source').tokens ++ [(Lexer.scan source').ending]).map Token.lexeme) :
    (program (.ofScan (Lexer.scan source'))).reports ≠ [] := by
  by_cases heof : t.kind = .eof
  · exact reports_of_begins_eof h hsplit heof hbegins
  have hending := (supplies_ofScan source).ending_eof
  have hbegins₀ : (before ++ [t]).map Token.lexeme <+:
      ((Lexer.scan source).tokens ++ [(Lexer.scan source).ending]).map Token.lexeme := by
    rw [hsplit]
    exact ⟨after.map Token.lexeme, by simp⟩
  let L := Lockstep.ofPrefix (.ofScan (Lexer.scan source)) (.ofScan (Lexer.scan source'))
    hbegins₀ hbegins hending (supplies_ofScan source').ending_eof
  -- A report behind the token would be one of a token behind it.
  refine L.reports_program (by simp [L, Lockstep.ofPrefix]) h fun j hj hplace => ?_
  have hle : (before ++ [t]).length ≤ j := by
    have hlength := Nat.le_of_not_lt hj
    rwa [List.length_map] at hlength
  have hdrop : (Stream.ofScan (Lexer.scan source)).pending.drop j =
      after.drop (j - (before ++ [t]).length) := by
    rw [Stream.ofScan, hsplit, ← List.singleton_append, ← List.append_assoc, List.drop_append,
      List.drop_eq_nil_of_le hle, List.nil_append]
  rcases (Stream.ofScan (Lexer.scan source)).next_skip j with hmem | hlast
  · rw [hdrop] at hmem
    exact hafter (hplace ▸ List.mem_of_mem_drop hmem)
  · rw [hplace, show (L.first.skip j).next = _ from hlast] at heof
    exact heof hending

end Begins

/-- The first diagnostic of a source stands at its first wrong token. There is one token at the
place that it names; the tokens before that one begin a source without diagnostics, and no source
without diagnostics begins with them and that one. -/
theorem first_diagnostic_at_first_fault [Text.Alphabet] {source : String} {ts : List Token}
    {parsed : Parsed}
    {d : Diagnostic} {rest : List Diagnostic} (htokens : Lexer.tokens source = .ok ts)
    (hparse : parse source = .ok parsed) (hfirst : parsed.diagnostics = d :: rest) :
    ∃ before after, ts = before ++ d.token :: after ∧
      (∀ t ∈ before ++ after, t.place ≠ d.token.place) ∧
      (∃ ls, Accepted (before.map Token.lexeme ++ ls)) ∧
      ∀ ls, Accepted ls → ¬ (before ++ [d.token]).map Token.lexeme <+: ls := by
  obtain ⟨-, rfl⟩ := tokens_eq_ok.mp htokens
  obtain ⟨-, rfl⟩ := parse_eq_ok.mp hparse
  have hblames : Blames program (.ofScan (Lexer.scan source)) d.token := by
    rw [Blames, show (program (.ofScan (Lexer.scan source))).reports = _ from hfirst]
    rfl
  obtain ⟨before, after, hsplit, haccepted⟩ := exists_before hblames
  have hpairwise := (Lexer.further_scanWithin (source.toList.length + 1)
    (.start source.toList)).2
  rw [show (Lexer.scanWithin (source.toList.length + 1) (.start source.toList)) =
    Lexer.scan source from rfl, hsplit, List.pairwise_append, List.pairwise_cons] at hpairwise
  obtain ⟨-, ⟨hafter, -⟩, hbefore⟩ := hpairwise
  refine ⟨before, after, hsplit, fun t ht => ?_, haccepted, ?_⟩
  · rcases List.mem_append.mp ht with ht | ht
    · exact (hbefore t ht d.token (by simp)).ne
    · exact (hafter t ht).ne.symm
  · rintro ls ⟨source', ts', parsed', htokens', rfl, hparse', hclean⟩ hbegins
    obtain ⟨-, rfl⟩ := tokens_eq_ok.mp htokens'
    obtain ⟨-, rfl⟩ := parse_eq_ok.mp hparse'
    exact reports_of_begins hblames hsplit (fun hmem => (hafter _ hmem).ne rfl) hbegins hclean

theorem first_diagnostic_at_first_fault_parameter :
    ∃ ts parsed d rest, Lexer.tokens "let f = fn(x, 1) \x7b x \x7d" = .ok ts ∧
      parse "let f = fn(x, 1) \x7b x \x7d" = .ok parsed ∧ parsed.diagnostics = d :: rest ∧
      d.token.place = (1, 15) ∧
      ∃ before after, ts = before ++ d.token :: after ∧
        (∀ t ∈ before ++ after, t.place ≠ d.token.place) ∧
        (∃ ls, Accepted (before.map Token.lexeme ++ ls)) ∧
        ∀ ls, Accepted ls → ¬ (before ++ [d.token]).map Token.lexeme <+: ls :=
  ⟨_, _, _, _, rfl, rfl, rfl, rfl,
    @first_diagnostic_at_first_fault _ "let f = fn(x, 1) \x7b x \x7d" _ _ _ _ rfl rfl rfl⟩

end MonkeyLang

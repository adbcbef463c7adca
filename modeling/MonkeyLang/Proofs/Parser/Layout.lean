import MonkeyLang.Proofs.Lexer.Layout
import MonkeyLang.Proofs.Parser.Concurring
import MonkeyLang.Proofs.Parser.Soundness

/-!
The layout of a source does not matter to a parser. Blanks change no kind and no text of a token,
and on streams of the same kinds and texts a parser gives the same tree and the same reports, places
aside.
-/
namespace MonkeyLang

open MonkeyLang.Parser

theorem Lockstep.SameReport.cause_eq {L : Lockstep} {d d' : Diagnostic} (h : L.SameReport d d') :
    d'.cause = d.cause := by
  obtain ⟨hfault, m, hm, htoken, htoken'⟩ := h
  have hlexeme := L.lexeme_eq hm
  rw [← htoken, ← htoken'] at hlexeme
  obtain ⟨fault, kind, literal, line, column⟩ := d
  obtain ⟨fault', kind', literal', line', column'⟩ := d'
  obtain ⟨hkind, hliteral⟩ := Lexeme.mk.inj hlexeme
  simp only at hfault hkind hliteral
  subst hfault hkind hliteral
  rfl

theorem Lockstep.map_cause_eq {L : Lockstep} {reports reports' : List Diagnostic}
    (h : List.Forall₂ L.SameReport reports reports') :
    reports'.map Diagnostic.cause = reports.map Diagnostic.cause := by
  induction h with
  | nil => rfl
  | cons hd _ ih => exact congrArg₂ List.cons hd.cause_eq ih

theorem parseScan_of_lexemes (found found' : Lexer.Scan)
    (htokens : found'.tokens.map Token.lexeme = found.tokens.map Token.lexeme)
    (hlexeme : found'.ending.lexeme = found.ending.lexeme) (hending : found.ending.kind = .eof) :
    (parseScan found').program = (parseScan found).program ∧
      (parseScan found').diagnostics.map Diagnostic.cause =
        (parseScan found).diagnostics.map Diagnostic.cause := by
  have hpending : (Stream.ofScan found).pending.map Token.lexeme =
      (Stream.ofScan found').pending.map Token.lexeme := by
    simp only [Stream.ofScan, List.map_append, List.map_cons, List.map_nil, htokens, hlexeme]
  let L := Lockstep.ofEq (.ofScan found) (.ofScan found') hpending hlexeme.symm hending
  have hmeets := (L.tracks_call .program).meets (i := 0) ⟨trivial, Nat.le_refl _, Nat.le_refl _⟩
  cases hmeets with
  | both _ _ _ hreports hfirst hsecond =>
    have hprogram : program (.ofScan found) = _ := hfirst
    have hprogram' : program (.ofScan found') = _ := hsecond
    rw [parseScan, parseScan, hprogram, hprogram']
    exact ⟨rfl, Lockstep.map_cause_eq hreports⟩
  | apart _ hfirst _ =>
    obtain ⟨j, hj, -⟩ := hfirst.rest
    exact absurd trivial hj

theorem parse_of_tiled [Text.Alphabet] {source : String} {ts : List Token} {ending : Token}
    (h : Lexer.Tiled [] source.toList ts ending) :
    parse source = .ok (parseScan { tokens := ts, ending }) := by
  rw [parse_eq_ok, Lexer.scan_eq_iff_tiled.mpr h]
  exact ⟨rfl, rfl⟩

/-- However many blanks are put in front of tokens, a source has the same tokens, but for their
places, and is read as the same program with the same diagnostics, but for their places. -/
theorem layout_does_not_matter [Text.Alphabet] {source source' : String}
    (hreadable : Lexer.Readable source.toList)
    (h : Relation.ReflTransGen Lexer.Loosened source source') :
    ∃ ts ts' parsed parsed', Lexer.tokens source = .ok ts ∧ Lexer.tokens source' = .ok ts' ∧
      ts'.map Token.lexeme = ts.map Token.lexeme ∧
      parse source = .ok parsed ∧ parse source' = .ok parsed' ∧
      parsed'.program = parsed.program ∧
      parsed'.diagnostics.map Diagnostic.cause = parsed.diagnostics.map Diagnostic.cause := by
  have hoversized : (Lexer.scan source).oversized = none := Lexer.oversized_scanWithin hreadable
  have htiled : Lexer.Tiled [] source.toList (Lexer.scan source).tokens
      (Lexer.scan source).ending := by
    apply Lexer.scan_eq_iff_tiled.mp
    rw [← hoversized]
  obtain ⟨ts', ending', htiled', hlexemes⟩ := Lexer.tiledBy_of_loosened h ⟨_, _, htiled, rfl⟩
  have hending : ending'.lexeme = (Lexer.scan source).ending.lexeme :=
    htiled'.lexeme_ending.trans htiled.lexeme_ending.symm
  obtain ⟨hprogram, hcauses⟩ := parseScan_of_lexemes
    { tokens := (Lexer.scan source).tokens, ending := (Lexer.scan source).ending }
    { tokens := ts', ending := ending' } hlexemes hending (Lexer.scanWithin_ending _ _)
  refine ⟨_, _, _, _, Lexer.tokens_of_tiled htiled, Lexer.tokens_of_tiled htiled', ?_,
    parse_of_tiled htiled, parse_of_tiled htiled', hprogram, hcauses⟩
  simp only [List.map_append, List.map_cons, List.map_nil, hlexemes, hending]

theorem layout_does_not_matter_touching :
    Lexer.Readable "a===1".toList ∧
      Relation.ReflTransGen Lexer.Loosened "a===1" "a==\n =1\t" ∧
      ∃ ts ts' parsed parsed', Lexer.tokens "a===1" = .ok ts ∧
        Lexer.tokens "a==\n =1\t" = .ok ts' ∧ ts'.map Token.lexeme = ts.map Token.lexeme ∧
        parse "a===1" = .ok parsed ∧ parse "a==\n =1\t" = .ok parsed' ∧
        parsed'.program = parsed.program ∧
        parsed'.diagnostics.map Diagnostic.cause = parsed.diagnostics.map Diagnostic.cause := by
  have hreadable : Lexer.Readable "a===1".toList := by
    intro run hrun _
    exact Nat.le_trans hrun.length_le (by decide)
  have hfirst : Lexer.Loosened "a===1" "a==\n =1" := by
    have hblanks : ∀ x ∈ ['\n', ' '], Lexer.isSkipped x :=
      List.forall_mem_cons.mpr ⟨rfl, List.forall_mem_singleton.mpr rfl⟩
    exact @Lexer.Loosened.insert _ "a===1" _ ⟨.assign, "=", 1, 4⟩ ['a', '=', '='] ['\n', ' ']
      ['=', '1'] rfl (by decide) rfl rfl hblanks (fun h => by cases h)
  have hsecond : Lexer.Loosened "a==\n =1" "a==\n =1\t" := by
    let ts : List Token := [⟨.ident, "a", 1, 1⟩, ⟨.equal, "==", 1, 2⟩, ⟨.assign, "=", 2, 2⟩,
      ⟨.int, "1", 2, 3⟩, ⟨.eof, "", 2, 4⟩]
    have htokens : Lexer.tokens "a==\n =1" = .ok ts := rfl
    have hclosed : ∀ t ∈ ts, t.kind ≠ .string := by decide
    refine @Lexer.Loosened.insert _ "a==\n =1" ts ⟨.eof, "", 2, 4⟩ "a==\n =1".toList ['\t'] []
      htokens (by decide) rfl rfl (List.forall_mem_singleton.mpr rfl) ?_
    rintro - ⟨ts', htokens', t, ht, hkind, -⟩
    obtain rfl := Except.ok.inj (htokens.symm.trans htokens')
    exact hclosed t ht hkind
  have hloosened := (Relation.ReflTransGen.single hfirst).tail hsecond
  exact ⟨hreadable, hloosened, layout_does_not_matter hreadable hloosened⟩

end MonkeyLang

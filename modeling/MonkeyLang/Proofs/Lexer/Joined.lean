import MonkeyLang.Proofs.Lexer.Tiling

/-!
Two texts, one behind the other. If the first one ends with a semicolon, blanks aside, the tokens of
both together are those of the first and then those of the second, moved by as much as the first
text takes up. For a semicolon does not go on with what follows it, and behind every other token of
the first text stands the same character as before.
-/
namespace MonkeyLang

/-- A token of a text that stands behind another one: as many lines further down as the other text
has newlines, and on the first line as far to the right as its last line goes. -/
def Token.behind (before : List Char) (t : Token) : Token :=
  { t with
    line := t.line + before.count '\n'
    column :=
      if t.line = 1 then t.column + (before.reverse.takeWhile (· ≠ '\n')).length else t.column }

namespace Lexer

section Behind

variable {before text rest : List Char} {t ending : Token} {ts : List Token}

theorem placeAfter_append_of_notMem (before : List Char) (h : '\n' ∉ text) :
    placeAfter (before ++ text) = ((placeAfter before).1, (placeAfter before).2 + text.length) := by
  have hrun : ∀ x ∈ text.reverse, decide (x ≠ '\n') := by
    intro x hx
    refine decide_eq_true fun heq => h ?_
    exact heq ▸ List.mem_reverse.mp hx
  simp only [placeAfter, List.count_append, List.count_eq_zero_of_not_mem h, List.reverse_append,
    List.takeWhile_append_of_pos hrun, List.length_append, List.length_reverse, Prod.mk.injEq]
  omega

theorem placeAfter_append_of_mem (before : List Char) (h : '\n' ∈ text) :
    placeAfter (before ++ text) =
      ((placeAfter before).1 + text.count '\n', (placeAfter text).2) := by
  have hstops : (text.reverse.takeWhile (· ≠ '\n')).length ≠ text.reverse.length := by
    intro hlength
    have hall : text.reverse.takeWhile (· ≠ '\n') = text.reverse :=
      (List.takeWhile_prefix _).eq_of_length hlength
    have hnewline : '\n' ∈ text.reverse.takeWhile (· ≠ '\n') := by
      rw [hall]
      exact List.mem_reverse.mpr h
    simpa using List.all_eq_true.mp List.all_takeWhile '\n' hnewline
  refine Prod.ext ?_ ?_
  · simp only [placeAfter, List.count_append]
    omega
  · simp only [placeAfter, List.reverse_append, List.takeWhile_append, if_neg hstops]

theorem place_behind (before : List Char) (h : t.place = placeAfter text) :
    (t.behind before).place = placeAfter (before ++ text) := by
  have hline : t.line = 1 + text.count '\n' := congrArg Prod.fst h
  have hcolumn : t.column = (placeAfter text).2 := congrArg Prod.snd h
  by_cases hnewline : '\n' ∈ text
  · have hpos : 0 < text.count '\n' := List.count_pos_iff.mpr hnewline
    have hlater : t.line ≠ 1 := by omega
    rw [placeAfter_append_of_mem before hnewline]
    refine Prod.ext ?_ ((if_neg hlater).trans hcolumn)
    change t.line + before.count '\n' = 1 + before.count '\n' + text.count '\n'
    omega
  · have hfirst : t.line = 1 := by rw [hline, List.count_eq_zero_of_not_mem hnewline]
    have hlength : (placeAfter text).2 = 1 + text.length :=
      congrArg Prod.snd (placeAfter_append_of_notMem [] hnewline)
    rw [placeAfter_append_of_notMem before hnewline]
    refine Prod.ext ?_ ((if_pos hfirst).trans ?_)
    · change t.line + before.count '\n' = 1 + before.count '\n'
      omega
    · change t.column + (before.reverse.takeWhile (· ≠ '\n')).length =
        1 + (before.reverse.takeWhile (· ≠ '\n')).length + text.length
      omega

theorem Tiled.behind [Text.Alphabet] (before : List Char) (hne : text ≠ [])
    (h : Tiled text rest ts ending) :
    Tiled (before ++ text) rest (ts.map (Token.behind before)) (ending.behind before) := by
  induction h with
  | done hblanks hlexeme hplace =>
    refine .done hblanks hlexeme ?_
    rw [List.append_assoc]
    exact place_behind before hplace
  | @token text blanks word rest t ending ts hblanks hspelled hplace hapart _ ih =>
    have hlonger : text ++ blanks ≠ [] := by simp [hne]
    refine .token hblanks hspelled ?_ ?_ ?_
    · rw [List.append_assoc]
      exact place_behind before hplace
    · rw [List.append_assoc]
      exact hapart.behind hlonger
    · simpa only [List.append_assoc] using ih (by simp [hne])

end Behind

/-! ### A text that goes on -/

section Longer

variable {before text rest : List Char} {l : Lexeme}

theorem eq_semicolon_of_ofChar? {c : Char} (h : TokenKind.ofChar? c = some .semicolon) :
    c = ';' := by
  unfold TokenKind.ofChar? at h
  split at h <;> first | rfl | cases h

theorem ofWord_ne_semicolon (word : String) : TokenKind.ofWord word ≠ .semicolon := by
  unfold TokenKind.ofWord
  grind

/-- The text of a token does not change when the text behind it goes on, nor that of a semicolon
when something is put behind it. -/
theorem Spelled.longer [Text.Alphabet] (h : Spelled l text rest)
    (hgoes : rest ≠ [] ∨ l.kind = .semicolon)
    (more : List Char) : Spelled l text (rest ++ more) := by
  have hhead : rest ≠ [] → (rest ++ more).head? = rest.head? := by
    intro hne
    obtain ⟨x, tail, rfl⟩ := List.exists_cons_of_ne_nil hne
    rfl
  cases h with
  | equal => exact .equal _
  | notEqual => exact .notEqual _
  | @char c kind _ hkind hrest =>
    refine .char hkind fun hc => ?_
    rcases hgoes with hne | hsemicolon
    · rw [hhead hne]
      exact hrest hc
    · obtain rfl : kind = .semicolon := hsemicolon
      obtain rfl := eq_semicolon_of_ofChar? hkind
      rcases hc with hc | hc <;> cases hc
  | word hne hletters hrest =>
    exact .word hne hletters (hhead (hgoes.resolve_right (ofWord_ne_semicolon _)) ▸ hrest)
  | number hne hdigits hlength hvalue hrest =>
    refine .number hne hdigits hlength hvalue ?_
    rwa [hhead (hgoes.resolve_right fun hkind => by cases hkind)]
  | large hne hdigits hlength hvalue hrest =>
    refine .large hne hdigits hlength hvalue ?_
    rwa [hhead (hgoes.resolve_right fun hkind => by cases hkind)]
  | closed _ hvalue => exact .closed _ hvalue
  | unclosed hvalue =>
    rcases hgoes with hne | hkind
    · exact absurd rfl hne
    · cases hkind
  | illegal _ hkind hquote hletter hdigit hblank =>
    exact .illegal _ hkind hquote hletter hdigit hblank

theorem Spelled.eq_semicolon [Text.Alphabet] (h : Spelled l text rest)
    (hkind : l.kind = .semicolon) : text = [';'] := by
  cases h with
  | @char c kind _ hc =>
    obtain rfl : kind = .semicolon := hkind
    rw [eq_semicolon_of_ofChar? hc]
  | word => exact absurd hkind (ofWord_ne_semicolon _)
  | _ => cases hkind

end Longer

/-! ### Both texts together -/

section Joined

variable {before text more : List Char} {ts us : List Token} {ending ending' : Token}

theorem Tiled.afterBlanks [Text.Alphabet] {blanks : List Char} (hblanks : ∀ x ∈ blanks, isSkipped x)
    (hlast : ∀ x ∈ before.getLast?, Text.isLetter x = false ∧ x.isDigit = false)
    (h : Tiled [] more us ending) :
    Tiled before (blanks ++ more) (us.map (Token.behind (before ++ blanks)))
      (ending.behind (before ++ blanks)) := by
  cases h with
  | done hmore hlexeme hplace =>
    refine .done (List.forall_mem_append.mpr ⟨hblanks, hmore⟩) hlexeme ?_
    rw [← List.append_assoc]
    exact place_behind _ hplace
  | @token _ blanks' word rest t _ us hmore hspelled hplace hapart hrest =>
    have hall := List.forall_mem_append.mpr ⟨hblanks, hmore⟩
    have hword : [] ++ blanks' ++ word ≠ [] := by simp [hspelled.ne_nil]
    have htail := hrest.behind (before ++ blanks) hword
    rw [← List.append_assoc]
    refine .token hall hspelled ?_ ?_ ?_
    · rw [← List.append_assoc]
      exact place_behind _ hplace
    · exact (apart_of_getLast? hlast).blanks hall
    · simpa only [List.append_assoc, List.nil_append] using htail

theorem Tiled.append [Text.Alphabet] (h : Tiled before text ts ending)
    (hlast : ∃ t ∈ ts.getLast?, t.kind = .semicolon) (hmore : Tiled [] more us ending') :
    Tiled before (text ++ more) (ts ++ us.map (Token.behind (before ++ text)))
      (ending'.behind (before ++ text)) := by
  induction h with
  | done =>
    obtain ⟨t, ht, -⟩ := hlast
    cases ht
  | @token before blanks word rest t ending ts hblanks hspelled hplace hapart hrest ih =>
    simp only [List.append_assoc, List.cons_append]
    cases ts with
    | nil =>
      obtain ⟨_, ⟨⟩, hkind⟩ := hlast
      refine .token hblanks (hspelled.longer (Or.inr hkind) more) hplace hapart ?_
      obtain rfl := hspelled.eq_semicolon hkind
      cases hrest with
      | done hend =>
        have hsemicolon : ∀ x ∈ (before ++ blanks ++ [';']).getLast?,
            Text.isLetter x = false ∧ x.isDigit = false := by
          rw [List.getLast?_concat]
          rintro x ⟨⟩
          exact ⟨Text.isLetter_of_lt (by decide), by decide⟩
        simpa only [List.append_assoc, List.nil_append] using hmore.afterBlanks hend hsemicolon
    | cons u ts =>
      have hgoes : rest ≠ [] := by
        cases hrest with
        | token _ hnext => simp [hnext.ne_nil]
      refine .token hblanks (hspelled.longer (Or.inl hgoes) more) hplace hapart ?_
      simpa only [List.append_assoc] using ih hlast

end Joined

/-- The scan of two sources together, the first of which ends with a semicolon. -/
theorem scan_append [Text.Alphabet] {first second : String} (hfirst : (scan first).oversized = none)
    (hlast : ∃ t ∈ (scan first).tokens.getLast?, t.kind = .semicolon)
    (hsecond : (scan second).oversized = none) :
    scan (first ++ second) =
      { tokens := (scan first).tokens ++ (scan second).tokens.map (Token.behind first.toList)
        ending := (scan second).ending.behind first.toList } := by
  have htiled : ∀ {source : String}, (scan source).oversized = none →
      Tiled [] source.toList (scan source).tokens (scan source).ending := by
    intro source h
    refine scan_eq_iff_tiled.mp ?_
    rw [← h]
  rw [scan_eq_iff_tiled, String.toList_append]
  exact (htiled hfirst).append hlast (htiled hsecond)

end Lexer

end MonkeyLang

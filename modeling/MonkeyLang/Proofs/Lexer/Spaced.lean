import MonkeyLang.Proofs.RoundTrip

/-!
Every sequence of lexemes that a scan can give, and that holds none but those programs are written
with, is given by some source: the texts of the lexemes with blanks behind them.
-/
namespace MonkeyLang

open Lexer

def TokenKind.isScanned : TokenKind → Bool
  | illegal | eof | other _ => false
  | _ => true

theorem Operator.isScanned_of_mem {operator : Operator}
    (h : operator ∈ leading ++ between) : operator.lexeme.kind.isScanned := by
  cases operator with
  | other text => simp [leading, between] at h
  | _ => rfl

theorem Written.isScanned {phrase : Phrase} {ls : List Lexeme} (h : Written phrase ls) :
    ∀ l ∈ ls, l.kind.isScanned := by
  induction h with
  | boolean value => cases value <;> simp [TokenKind.lexeme, TokenKind.isScanned]
  | prefixOp known _ ih =>
    refine List.forall_mem_cons.mpr ⟨Operator.isScanned_of_mem ?_, ih⟩
    exact List.mem_append_left _ known
  | infixOp known _ _ ihleft ihright =>
    refine List.forall_mem_append.mpr ⟨ihleft, List.forall_mem_cons.mpr ⟨?_, ihright⟩⟩
    exact Operator.isScanned_of_mem (List.mem_append_right _ known)
  | _ => grind [TokenKind.lexeme, TokenKind.isScanned]

/-! ### The text of a lexeme -/

def Lexeme.text (l : Lexeme) : String :=
  if l.kind = .string then "\x22" ++ l.literal ++ "\x22" else l.literal

theorem TokenKind.spells_text [Text.Alphabet] {kind : TokenKind} (hfixed : kind.isFixed)
    (hscanned : kind.isScanned) : Spells kind.text [kind.lexeme] := by
  intro cs ks hcs h
  cases kind with
  | equal => exact lexes_equal h
  | notEqual => exact lexes_notEqual h
  | fnWord | letWord | trueWord | falseWord | ifWord | elseWord | returnWord =>
    exact lexes_keyword (by decide) hcs h
  | ident | int | string | illegal => cases hfixed
  | eof | other => cases hscanned
  | _ => exact lexes_char rfl (Or.inl hcs.head?_ne) h

theorem Lexeme.Lexed.spells [Text.Alphabet] {l : Lexeme} (h : l.Lexed)
    (hscanned : l.kind.isScanned) : Spells l.text [l] := by
  cases hfixed : l.kind.isFixed with
  | true =>
    have hl : l = l.kind.lexeme := h.eq_lexeme rfl hfixed
    have htext : l.text = l.kind.text := by
      have hstring : l.kind ≠ .string := by
        intro hkind
        rw [hkind] at hfixed
        cases hfixed
      rw [text, if_neg hstring]
      exact congrArg Lexeme.literal hl
    have hspells : Spells l.kind.text [l.kind.lexeme] := TokenKind.spells_text hfixed hscanned
    rwa [← hl, ← htext] at hspells
  | false =>
    obtain ⟨kind, literal⟩ := l
    intro cs ks hcs hlexes
    cases kind with
    | ident => exact IsName.spells h hcs hlexes
    | int =>
      obtain ⟨value, hnumeral⟩ := h
      have hdigits := lexes_numeral hnumeral (fun x hx => (hcs x hx).2.1) hlexes
      rw [String.ofList_toList] at hdigits
      exact hdigits
    | string =>
      have hquoted := lexes_text h hlexes
      rw [String.ofList_toList] at hquoted
      simpa [text] using hquoted
    | illegal => cases hscanned
    | _ => cases hfixed

/-! ### Texts with blanks behind them -/

def spaced (ls : List Lexeme) : List Char := ls.flatMap fun l => l.text.toList ++ [' ']

theorem lexes_spaced [Text.Alphabet] {ls : List Lexeme} (h : ∀ l ∈ ls, l.Lexed ∧ l.kind.isScanned) :
    Lexes (spaced ls) ls := by
  induction ls with
  | nil => exact lexes_nil
  | cons l ls ih =>
    obtain ⟨⟨hlexed, hscanned⟩, hrest⟩ := List.forall_mem_cons.mp h
    have hlexes := hlexed.spells hscanned (boundary_cons (by decide))
      (lexes_blank rfl (ih hrest) : Lexes (' ' :: spaced ls) ls)
    simpa [spaced] using hlexes

theorem exists_scan [Text.Alphabet] {ls : List Lexeme} (h : ∀ l ∈ ls, l.Lexed ∧ l.kind.isScanned) :
    ∃ source, (scan source).oversized = none ∧ (scan source).tokens.map Token.lexeme = ls := by
  refine ⟨String.ofList (spaced ls), ?_⟩
  refine lexes_spaced h _ _ ?_ ?_
  · exact String.toList_ofList
  · simp

end MonkeyLang

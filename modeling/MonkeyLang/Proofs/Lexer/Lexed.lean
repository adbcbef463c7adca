import MonkeyLang.Proofs.Syntax.Written

/-!
What the scanner guarantees of its tokens. A token of most kinds has the one text of its kind; names
are words that are no keywords, numbers are numerals of the language, and texts hold no quote.
-/
namespace MonkeyLang

structure IsName [Text.Alphabet] (name : String) : Prop where
  nonempty : name.toList ≠ []
  isLetter : ∀ c ∈ name.toList, Text.isLetter c
  ofWord_eq : TokenKind.ofWord name = .ident

/-- The lexemes that a scan can give. -/
def Lexeme.Lexed [Text.Alphabet] (l : Lexeme) : Prop :=
  match l.kind with
  | .ident => IsName l.literal
  | .int => ∃ value, Numeral l.literal.toList value
  | .string => '\x22' ∉ l.literal.toList
  | .illegal => True
  | kind => l.literal = kind.text

def TokenKind.isFixed : TokenKind → Bool
  | ident | int | string | illegal => false
  | _ => true

theorem Operator.isFixed_kind (operator : Operator) : operator.kind.isFixed := by
  cases operator <;> rfl

theorem Lexeme.Lexed.eq_lexeme [Text.Alphabet] {l : Lexeme} (h : l.Lexed) {kind : TokenKind}
    (hkind : l.kind = kind) (hfixed : kind.isFixed) : l = kind.lexeme := by
  obtain ⟨k, literal⟩ := l
  obtain rfl : k = kind := hkind
  cases k <;> first | exact congrArg (Lexeme.mk _) h | cases hfixed

theorem Lexeme.lexed_of_text [Text.Alphabet] {kind : TokenKind} {literal : String}
    (hfixed : kind.isFixed) (h : literal = kind.text) : Lexed ⟨kind, literal⟩ := by
  cases kind <;> first | exact h | cases hfixed

namespace Lexer

/-! ### Cursors -/

namespace Cursor

variable {c after : Cursor} {t : Token}

theorem rest_of_current? {head : Char} (h : c.current? = some head) :
    ∃ tail, c.rest = head :: tail :=
  List.head?_eq_some_iff.mp (c.current?_eq.symm.trans h)

@[simp] theorem advance_rest (c : Cursor) : c.advance.rest = c.rest.tail := rfl

theorem advance_position (c : Cursor) : c.advance.position = c.position + 1 := c.readPosition_eq

theorem advance_line (c : Cursor) :
    c.advance.line = if c.current? = some '\n' then c.line + 1 else c.line := rfl

theorem advance_column (c : Cursor) :
    c.advance.column = (if c.current? = some '\n' then 0 else c.column) + 1 := rfl

@[simp] theorem advanceBy_rest (n : Nat) (c : Cursor) : (advanceBy n c).rest = c.rest.drop n := by
  induction n generalizing c with
  | zero => rfl
  | succ n ih => rw [advanceBy, ih, advance_rest, List.drop_tail]

theorem mem_readRun {member : Char → Bool} {x : Char} (h : x ∈ (c.readRun member).1) : member x :=
  List.all_eq_true.mp List.all_takeWhile x h

theorem readRun_ne_nil {member : Char → Bool} {head : Char} {rest : List Char}
    (hrest : c.rest = head :: rest) (hhead : member head) : (c.readRun member).1 ≠ [] := by
  simp [readRun, hrest, hhead]

theorem readRun_rest (member : Char → Bool) (c : Cursor) :
    (c.readRun member).2.rest = c.rest.dropWhile member := by
  have hsplit := List.takeWhile_append_dropWhile (p := member) (l := c.rest)
  have hdrop := congrArg (List.drop (c.rest.takeWhile member).length) hsplit
  rw [List.drop_left] at hdrop
  rw [readRun, advanceBy_rest, ← hdrop]

variable [Text.Alphabet]

theorem lexed_numberToken {digits : List Char} (hne : digits ≠ [])
    (hdigits : ∀ x ∈ digits, x.isDigit) (hlen : digits.length ≤ Text.maxDigits) :
    (c.numberToken digits).lexeme.Lexed ∧ (c.numberToken digits).kind ≠ .eof := by
  unfold numberToken
  split
  · next hle =>
    refine ⟨⟨digitsValue digits, ?_⟩, nofun⟩
    rw [show (c.token .int digits).lexeme.literal = String.ofList digits from rfl,
      String.toList_ofList]
    exact ⟨hne, hdigits, hlen, rfl, hle⟩
  · exact ⟨trivial, nofun⟩

theorem lexed_wordToken {word : List Char} (hne : word ≠ [])
    (hletters : ∀ x ∈ word, Text.isLetter x) :
    (c.token (.ofWord (String.ofList word)) word).lexeme.Lexed ∧
      (c.token (.ofWord (String.ofList word)) word).kind ≠ .eof := by
  have hcases : TokenKind.ofWord (String.ofList word) = .ident ∨
      (TokenKind.ofWord (String.ofList word)).isFixed ∧
        TokenKind.ofWord (String.ofList word) ≠ .eof ∧
        String.ofList word = (TokenKind.ofWord (String.ofList word)).text := by
    unfold TokenKind.ofWord
    grind [TokenKind.isFixed, TokenKind.text]
  rcases hcases with hident | ⟨hfixed, heof, htext⟩
  · have hname : IsName (String.ofList word) := by
      refine ⟨?_, ?_, hident⟩ <;> rw [String.toList_ofList] <;> assumption
    rw [hident]
    exact ⟨hname, nofun⟩
  · exact ⟨Lexeme.lexed_of_text hfixed htext, heof⟩

theorem lexed_charToken {head : Char} {kind : TokenKind} (h : TokenKind.ofChar? head = some kind) :
    (c.token kind [head]).lexeme.Lexed ∧ (c.token kind [head]).kind ≠ .eof := by
  unfold TokenKind.ofChar? at h
  split at h <;> cases h <;> exact ⟨rfl, nofun⟩

theorem lexed_tokenAt {head : Char} {rest : List Char} (hrest : c.rest = head :: rest)
    (h : c.tokenAt head = .ok (t, after)) : t.lexeme.Lexed ∧ t.kind ≠ .eof := by
  unfold tokenAt at h
  split at h
  · cases h
    exact ⟨rfl, nofun⟩
  split at h
  · cases h
    exact ⟨rfl, nofun⟩
  split at h
  · next kind hkind =>
    cases h
    exact lexed_charToken hkind
  split at h
  · cases h
    refine ⟨?_, nofun⟩
    change '\x22' ∉ (String.ofList (c.advance.readRun (· ≠ '\x22')).1).toList
    rw [String.toList_ofList]
    intro hquote
    simpa using mem_readRun hquote
  split at h
  · next hletter =>
    cases h
    exact lexed_wordToken (readRun_ne_nil hrest hletter) fun x hx => mem_readRun hx
  split at h
  · next hdigit =>
    dsimp only at h
    split at h
    · next hlen =>
      cases h
      exact lexed_numberToken (readRun_ne_nil hrest hdigit) (fun x hx => mem_readRun hx) hlen
    · cases h
  · cases h
    exact ⟨trivial, nofun⟩

theorem lexed_next (h : c.next = .ok (t, after)) :
    t.kind = .eof ∨ t.lexeme.Lexed ∧ t.kind ≠ .eof := by
  unfold next at h
  dsimp only at h
  split at h
  · cases h
    exact Or.inl rfl
  · next head hhead =>
    obtain ⟨rest, hrest⟩ := rest_of_current? hhead
    exact Or.inr (lexed_tokenAt hrest h)

end Cursor

/-! ### Scans -/

theorem scanWithin_ending [Text.Alphabet] (n : Nat) (c : Cursor) :
    (scanWithin n c).ending.kind = .eof := by
  induction n generalizing c with
  | zero => rfl
  | succ n ih =>
    rw [scanWithin]
    split
    · rfl
    · next t after _ =>
      split
      · assumption
      · exact ih after

theorem lexed_scanWithin [Text.Alphabet] (n : Nat) (c : Cursor) :
    ∀ t ∈ (scanWithin n c).tokens, t.lexeme.Lexed ∧ t.kind ≠ .eof := by
  induction n generalizing c with
  | zero => exact nofun
  | succ n ih =>
    rw [scanWithin]
    split
    · exact nofun
    · next t after hnext =>
      split
      · exact nofun
      · next hkind =>
        intro u hu
        rcases List.mem_cons.mp hu with rfl | hu
        · exact (Cursor.lexed_next hnext).resolve_left hkind
        · exact ih after u hu

end Lexer

end MonkeyLang

import MonkeyLang.Proofs.Lexer.Lexed

/-!
Text that is scanned as given lexemes. `Lexes cs ls` holds wherever the text stands; each kind of
token has a lemma that puts it in front of text that is scanned already, provided that the first
character of that text does not make the token longer.

Of the letters above ASCII nothing is used but that they are letters: the lemmas on characters here
only look below U+0080.
-/
namespace MonkeyLang.Lexer

/-! ### Characters -/

section Characters

variable {c : Char}

theorem of_ofChar? {kind : TokenKind} (h : TokenKind.ofChar? c = some kind) :
    c.toNat < 0x80 ∧ c.isAlpha = false ∧ c.isDigit = false ∧ isSkipped c = false := by
  unfold TokenKind.ofChar? at h
  split at h <;> first | decide | cases h

theorem of_isSkipped (h : isSkipped c) :
    c.toNat < 0x80 ∧ c.isAlpha = false ∧ c.isDigit = false := by
  simp only [isSkipped, Bool.or_eq_true, decide_eq_true_eq] at h
  rcases h with (((rfl | rfl) | rfl) | rfl) | rfl <;> decide

theorem of_isLetter [Text.Alphabet] (h : Text.isLetter c) :
    TokenKind.ofChar? c = none ∧ isSkipped c = false ∧ c ≠ '\x22' := by
  refine ⟨?_, ?_, ?_⟩
  · cases hkind : TokenKind.ofChar? c with
    | none => rfl
    | some kind =>
      obtain ⟨hlow, halpha, -⟩ := of_ofChar? hkind
      rw [Text.isLetter_of_lt hlow, halpha] at h
      cases h
  · refine Bool.eq_false_iff.mpr fun hskipped => ?_
    obtain ⟨hlow, halpha, -⟩ := of_isSkipped hskipped
    rw [Text.isLetter_of_lt hlow, halpha] at h
    cases h
  · rintro rfl
    rw [Text.isLetter_of_lt (by decide)] at h
    exact absurd h (by decide)

theorem of_isDigit [Text.Alphabet] (h : c.isDigit) :
    TokenKind.ofChar? c = none ∧ isSkipped c = false ∧ c ≠ '\x22' ∧ Text.isLetter c = false := by
  refine ⟨?_, ?_, ?_, ?_⟩
  · cases hkind : TokenKind.ofChar? c with
    | none => rfl
    | some kind =>
      rw [(of_ofChar? hkind).2.2.1] at h
      cases h
  · refine Bool.eq_false_iff.mpr fun hskipped => ?_
    rw [(of_isSkipped hskipped).2.2] at h
    cases h
  · rintro rfl
    exact absurd h (by decide)
  · simp only [Char.isDigit, Bool.and_eq_true, decide_eq_true_eq] at h
    have hlow : 48 ≤ c.toNat := h.1
    have hhigh : c.toNat ≤ 57 := h.2
    have hupper : ¬ 65 ≤ c.val := fun h => absurd (show 65 ≤ c.toNat from h) (by omega)
    have hlower : ¬ 97 ≤ c.val := fun h => absurd (show 97 ≤ c.toNat from h) (by omega)
    have halpha : c.isAlpha = false := by
      show (decide (65 ≤ c.val ∧ c.val ≤ 90) ||
        (decide (97 ≤ c.val) && decide (c.val ≤ 122))) = false
      simp [hupper, hlower]
    rw [Text.isLetter_of_lt (by omega), halpha]

end Characters

/-! ### Scanned text -/

/-- A scan from any place gives the lexemes if the text is what follows there. -/
def Lexes [Text.Alphabet] (cs : List Char) (ls : List Lexeme) : Prop :=
  ∀ (c : Cursor) (n : Nat), c.rest = cs → cs.length < n →
    (scanWithin n c).oversized = none ∧ (scanWithin n c).tokens.map Token.lexeme = ls

namespace Cursor

variable {c : Cursor} {head : Char} {cs : List Char}

theorem skipBlanks_cons_of_isSkipped (hrest : c.rest = head :: cs) (h : isSkipped head) :
    c.skipBlanks = c.advance.skipBlanks := by
  have hadvance : c.advance.rest = cs := by rw [advance_rest, hrest, List.tail_cons]
  simp only [skipBlanks, readRun, hrest, List.takeWhile_cons, h, if_true, List.length_cons,
    advanceBy, hadvance]

theorem skipBlanks_eq_self (hrest : c.rest = head :: cs) (h : isSkipped head = false) :
    c.skipBlanks = c := by
  simp [skipBlanks, readRun, hrest, h, advanceBy]

theorem next_eq_tokenAt [Text.Alphabet] (hrest : c.rest = head :: cs) (h : isSkipped head = false) :
    c.next = c.tokenAt head := by
  simp only [next, skipBlanks_eq_self hrest h, current?_eq, hrest, List.head?_cons]

theorem readRun_append {member : Char → Bool} {run : List Char} (hrest : c.rest = run ++ cs)
    (hrun : ∀ x ∈ run, member x) (hcs : ∀ x ∈ cs.head?, member x = false) :
    (c.readRun member).1 = run ∧ (c.readRun member).2.rest = cs := by
  have hstop : cs.takeWhile member = [] ∧ cs.dropWhile member = cs := by
    cases cs with
    | nil => exact ⟨rfl, rfl⟩
    | cons x cs => simp [hcs x rfl]
  constructor
  · rw [show (c.readRun member).1 = c.rest.takeWhile member from rfl, hrest,
      List.takeWhile_append_of_pos hrun, hstop.1, List.append_nil]
  · rw [readRun_rest, hrest, List.dropWhile_append_of_pos hrun, hstop.2]

theorem tokenAt_of_isLetter [Text.Alphabet] (h : Text.isLetter head) :
    c.tokenAt head =
      .ok (c.token (.ofWord (String.ofList c.readWord.1)) c.readWord.1, c.readWord.2) := by
  obtain ⟨hnone, -, hquote⟩ := of_isLetter h
  have hassign : head ≠ '=' := by rintro rfl; cases hnone
  have hbang : head ≠ '!' := by rintro rfl; cases hnone
  simp [tokenAt, hassign, hbang, hnone, hquote, h]

theorem tokenAt_of_isDigit [Text.Alphabet] (h : head.isDigit) :
    c.tokenAt head = if c.readDigits.1.length ≤ Text.maxDigits then
      .ok (c.numberToken c.readDigits.1, c.readDigits.2) else .error ⟨c.readDigits.1.length⟩ := by
  obtain ⟨hnone, -, hquote, hletter⟩ := of_isDigit h
  have hassign : head ≠ '=' := by rintro rfl; cases hnone
  have hbang : head ≠ '!' := by rintro rfl; cases hnone
  simp [tokenAt, hassign, hbang, hnone, hquote, hletter, h]

theorem next_of_long_run [Text.Alphabet] {blank : Char} {run : List Char}
    (hrest : c.rest = blank :: run) (hblank : isSkipped blank) (hdigits : ∀ x ∈ run, x.isDigit)
    (hlong : Text.maxDigits < run.length) :
    c.skipBlanks = c.advance ∧ c.next = .error ⟨run.length⟩ := by
  obtain ⟨head, tail, rfl⟩ := List.exists_cons_of_length_pos (Nat.zero_lt_of_lt hlong)
  have hhead := hdigits head List.mem_cons_self
  have hafter : c.advance.rest = head :: tail := by rw [advance_rest, hrest, List.tail_cons]
  have hskip : c.skipBlanks = c.advance := by
    rw [skipBlanks_cons_of_isSkipped hrest hblank, skipBlanks_eq_self hafter (of_isDigit hhead).2.1]
  have hrun : c.advance.readDigits.1 = head :: tail :=
    (readRun_append (hafter.trans (List.append_nil _).symm) hdigits fun x hx => by cases hx).1
  refine ⟨hskip, ?_⟩
  simp only [next, hskip, current?_eq, hafter, List.head?_cons]
  rw [tokenAt_of_isDigit hhead, hrun, if_neg (Nat.not_le_of_lt hlong)]

end Cursor

variable [Text.Alphabet]

theorem lexes_nil : Lexes [] [] := by
  intro c n hrest hn
  obtain ⟨m, rfl⟩ := Nat.exists_eq_succ_of_ne_zero (Nat.ne_of_gt hn)
  have hskip : c.skipBlanks = c := by
    simp [Cursor.skipBlanks, Cursor.readRun, hrest, Cursor.advanceBy]
  have hnext : c.next = .ok (c.token .eof [], c) := by
    simp [Cursor.next, hskip, Cursor.current?_eq, hrest]
  simp [scanWithin, hnext, Cursor.token]

theorem lexes_blank {blank : Char} {cs : List Char} {ls : List Lexeme} (hblank : isSkipped blank)
    (h : Lexes cs ls) : Lexes (blank :: cs) ls := by
  intro c n hrest hn
  have hadvance : c.advance.rest = cs := by rw [Cursor.advance_rest, hrest, List.tail_cons]
  have hskip := Cursor.skipBlanks_cons_of_isSkipped hrest hblank
  have hnext : c.next = c.advance.next := by simp only [Cursor.next, hskip]
  have hscan : scanWithin n c = scanWithin n c.advance := by
    obtain ⟨m, rfl⟩ := Nat.exists_eq_succ_of_ne_zero (Nat.ne_of_gt (Nat.zero_lt_of_lt hn))
    simp only [scanWithin, hnext, hskip]
  rw [hscan]
  exact h c.advance n hadvance (Nat.lt_trans (Nat.lt_succ_self _) hn)

theorem lexes_token {head : Char} {cs rest : List Char} {l : Lexeme} {ls : List Lexeme}
    (hhead : isSkipped head = false) (hl : l.kind ≠ .eof) (hlen : rest.length ≤ cs.length)
    (htoken : ∀ c : Cursor, c.rest = head :: cs →
      ∃ t after, c.tokenAt head = .ok (t, after) ∧ t.lexeme = l ∧ after.rest = rest)
    (h : Lexes rest ls) : Lexes (head :: cs) (l :: ls) := by
  intro c n hrest hn
  obtain ⟨m, rfl⟩ := Nat.exists_eq_succ_of_ne_zero (Nat.ne_of_gt (Nat.zero_lt_of_lt hn))
  obtain ⟨t, after, hat, rfl, hafter⟩ := htoken c hrest
  have hnext : c.next = .ok (t, after) := (Cursor.next_eq_tokenAt hrest hhead).trans hat
  have hkind : t.kind ≠ .eof := hl
  rw [List.length_cons] at hn
  obtain ⟨hoversized, htokens⟩ := h after m hafter (by omega)
  simp only [scanWithin, hnext, if_neg hkind]
  exact ⟨hoversized, by rw [List.map_cons, htokens]⟩

/-! ### Tokens -/

section Tokens

variable {cs : List Char} {ls : List Lexeme}

theorem lexes_equal (h : Lexes cs ls) :
    Lexes ('=' :: '=' :: cs) (TokenKind.equal.lexeme :: ls) := by
  refine lexes_token (by decide) nofun (by simp) (fun c hrest => ?_) h
  refine ⟨_, _, if_pos ⟨rfl, by simp [Cursor.following?, hrest]⟩, rfl, ?_⟩
  simp [hrest]

theorem lexes_notEqual (h : Lexes cs ls) :
    Lexes ('!' :: '=' :: cs) (TokenKind.notEqual.lexeme :: ls) := by
  refine lexes_token (by decide) nofun (by simp) (fun c hrest => ?_) h
  have hfollowing : c.following? = some '=' := by simp [Cursor.following?, hrest]
  refine ⟨c.token .notEqual ['!', '='], c.advance.advance, ?_, rfl, by simp [hrest]⟩
  simp [Cursor.tokenAt, hfollowing]

theorem lexes_char {head : Char} {kind : TokenKind} (hkind : TokenKind.ofChar? head = some kind)
    (hapart : cs.head? ≠ some '=' ∨ head ≠ '=' ∧ head ≠ '!') (h : Lexes cs ls) :
    Lexes (head :: cs) (kind.lexeme :: ls) := by
  have hlexeme : kind ≠ .eof ∧ String.ofList [head] = kind.text := by
    unfold TokenKind.ofChar? at hkind
    split at hkind <;> cases hkind <;> exact ⟨nofun, rfl⟩
  refine lexes_token (of_ofChar? hkind).2.2.2 hlexeme.1 (Nat.le_refl _) (fun c hrest => ?_) h
  refine ⟨c.token kind [head], c.advance, ?_, congrArg (Lexeme.mk kind) hlexeme.2, by simp [hrest]⟩
  have hfollowing : c.following? = cs.head? := by simp [Cursor.following?, hrest]
  unfold Cursor.tokenAt
  rw [hfollowing, if_neg, if_neg, hkind]
  · grind
  · grind

theorem lexes_word {word : List Char} (hne : word ≠ []) (hletters : ∀ x ∈ word, Text.isLetter x)
    (hapart : ∀ x ∈ cs.head?, Text.isLetter x = false) (h : Lexes cs ls) :
    Lexes (word ++ cs) (⟨.ofWord (String.ofList word), String.ofList word⟩ :: ls) := by
  obtain ⟨head, tail, rfl⟩ := List.exists_cons_of_ne_nil hne
  have hhead := hletters head (by simp)
  have heof := (Cursor.lexed_wordToken (c := .start []) hne hletters).2
  refine lexes_token (of_isLetter hhead).2.1 heof (by simp) (fun c hrest => ?_) h
  have hrun := Cursor.readRun_append hrest hletters hapart
  refine ⟨_, _, Cursor.tokenAt_of_isLetter hhead, ?_, hrun.2⟩
  rw [Cursor.readWord, hrun.1]
  rfl

theorem lexes_numeral {digits : List Char} {value : Int} (hnumeral : Numeral digits value)
    (hapart : ∀ x ∈ cs.head?, x.isDigit = false) (h : Lexes cs ls) :
    Lexes (digits ++ cs) (⟨.int, String.ofList digits⟩ :: ls) := by
  have hdigits := hnumeral.isDigit
  have hlength := hnumeral.length_le
  have hvalue : (digitsValue digits : Int) ≤ maxInteger := hnumeral.value_eq ▸ hnumeral.value_le
  obtain ⟨head, tail, rfl⟩ := List.exists_cons_of_ne_nil hnumeral.nonempty
  have hhead := hdigits head (by simp)
  refine lexes_token (of_isDigit hhead).2.1 nofun (by simp) (fun c hrest => ?_) h
  have hrun := Cursor.readRun_append hrest hdigits hapart
  refine ⟨c.token .int (head :: tail), c.readDigits.2, ?_, rfl, hrun.2⟩
  rw [Cursor.tokenAt_of_isDigit hhead, show c.readDigits.1 = head :: tail from hrun.1,
    if_pos hlength, Cursor.numberToken, if_pos hvalue]

theorem lexes_text {value : List Char} (hvalue : '\x22' ∉ value) (h : Lexes cs ls) :
    Lexes ('\x22' :: (value ++ '\x22' :: cs)) (⟨.string, String.ofList value⟩ :: ls) := by
  refine lexes_token (by decide) nofun (by simp; omega) (fun c hrest => ?_) h
  have hadvance : c.advance.rest = value ++ '\x22' :: cs := by simp [hrest]
  have hmember : ∀ x ∈ value, decide (x ≠ '\x22') = true := by
    intro x hx
    refine decide_eq_true ?_
    rintro rfl
    exact hvalue hx
  have hrun := Cursor.readRun_append hadvance hmember (by simp)
  have hat : c.tokenAt '\x22' = .ok (c.token .string c.readText.1, c.readText.2) := by
    simp [Cursor.tokenAt, TokenKind.ofChar?]
  have htext : c.readText.1 = value := hrun.1
  refine ⟨c.token .string value, c.readText.2, htext ▸ hat, rfl, ?_⟩
  simp only [Cursor.readText, Cursor.current?_eq, hrun.2, List.head?_cons, if_true,
    Cursor.advance_rest, List.tail_cons]

end Tokens

end MonkeyLang.Lexer

import MonkeyLang.Proofs.Lexer.Lexes
import MonkeyLang.Proofs.Lexer.Places
import MonkeyLang.Text.Letter

/-!
The tokens of a source tile it. Blanks and the texts of the tokens, one after another, are the whole
source; every text is the longest that can stand where it stands, and the place of a token is the
place of the first character of its text. The tiling is said without a cursor, by what stands before
and behind a text, and a scan gives the tokens of a tiling and no others.
-/
namespace MonkeyLang

namespace Lexer

/-! ### Texts of tokens -/

/-- The place behind a text: the line by the newlines in it, the column by what follows the last
of them. -/
def placeAfter (text : List Char) : Nat × Nat :=
  (1 + text.count '\n', 1 + (text.reverse.takeWhile (· ≠ '\n')).length)

/-- The text of a token in front of the text that follows it. -/
inductive Spelled [Text.Alphabet] : Lexeme → List Char → List Char → Prop
  | equal (rest : List Char) : Spelled TokenKind.equal.lexeme ['=', '='] rest
  | notEqual (rest : List Char) : Spelled TokenKind.notEqual.lexeme ['!', '='] rest
  | char {c : Char} {kind : TokenKind} {rest : List Char} (hkind : TokenKind.ofChar? c = some kind)
      (hrest : c = '=' ∨ c = '!' → rest.head? ≠ some '=') :
      Spelled ⟨kind, String.ofList [c]⟩ [c] rest
  | word {word rest : List Char} (hne : word ≠ []) (hletters : ∀ x ∈ word, Text.isLetter x)
      (hrest : ∀ x ∈ rest.head?, Text.isLetter x = false) :
      Spelled ⟨.ofWord (String.ofList word), String.ofList word⟩ word rest
  | number {digits rest : List Char} (hne : digits ≠ []) (hdigits : ∀ x ∈ digits, x.isDigit)
      (hlength : digits.length ≤ Text.maxDigits)
      (hvalue : (digitsValue digits : Int) ≤ maxInteger)
      (hrest : ∀ x ∈ rest.head?, x.isDigit = false) :
      Spelled ⟨.int, String.ofList digits⟩ digits rest
  /-- A number that is too large: the token is illegal and has the first digit only. -/
  | large {digits rest : List Char} (hne : digits ≠ []) (hdigits : ∀ x ∈ digits, x.isDigit)
      (hlength : digits.length ≤ Text.maxDigits)
      (hvalue : maxInteger < (digitsValue digits : Int))
      (hrest : ∀ x ∈ rest.head?, x.isDigit = false) :
      Spelled ⟨.illegal, String.ofList (digits.take 1)⟩ digits rest
  | closed {value : List Char} (rest : List Char) (hvalue : '\x22' ∉ value) :
      Spelled ⟨.string, String.ofList value⟩ ('\x22' :: (value ++ ['\x22'])) rest
  | unclosed {value : List Char} (hvalue : '\x22' ∉ value) :
      Spelled ⟨.string, String.ofList value⟩ ('\x22' :: value) []
  | illegal {c : Char} (rest : List Char) (hkind : TokenKind.ofChar? c = none)
      (hquote : c ≠ '\x22') (hletter : Text.isLetter c = false) (hdigit : c.isDigit = false)
      (hblank : isSkipped c = false) : Spelled ⟨.illegal, String.ofList [c]⟩ [c] rest

/-- The texts do not meet inside a run of letters or a run of digits. -/
def Apart [Text.Alphabet] (before rest : List Char) : Prop :=
  ∀ x ∈ before.getLast?, ∀ y ∈ rest.head?,
    (Text.isLetter x && Text.isLetter y) = false ∧ (x.isDigit && y.isDigit) = false

/-- The text behind another one is made of blanks and the texts of tokens, up to the end of input.
Every token stands at the place of its text. -/
inductive Tiled [Text.Alphabet] : List Char → List Char → List Token → Token → Prop
  | done {before blanks : List Char} {ending : Token} (hblanks : ∀ x ∈ blanks, isSkipped x)
      (hlexeme : ending.lexeme = ⟨.eof, ""⟩)
      (hplace : ending.place = placeAfter (before ++ blanks)) :
      Tiled before blanks [] ending
  | token {before blanks text rest : List Char} {t ending : Token} {ts : List Token}
      (hblanks : ∀ x ∈ blanks, isSkipped x) (hspelled : Spelled t.lexeme text rest)
      (hplace : t.place = placeAfter (before ++ blanks)) (hapart : Apart (before ++ blanks) text)
      (hrest : Tiled (before ++ blanks ++ text) rest ts ending) :
      Tiled before (blanks ++ (text ++ rest)) (t :: ts) ending

def Readable (text : List Char) : Prop :=
  ∀ run, run <:+: text → (∀ x ∈ run, x.isDigit) → run.length ≤ Text.maxDigits

/-! ### Places -/

theorem placeAfter_newline (before : List Char) :
    placeAfter (before ++ ['\n']) = ((placeAfter before).1 + 1, 1) := by
  simp [placeAfter, Nat.add_assoc]

theorem placeAfter_of_ne (before : List Char) {x : Char} (hx : x ≠ '\n') :
    placeAfter (before ++ [x]) = ((placeAfter before).1, (placeAfter before).2 + 1) := by
  simp [placeAfter, hx, Nat.add_assoc]

namespace Cursor

variable {c after : Cursor} {before text rest : List Char}

theorem advance_place {x : Char} (hrest : c.rest = x :: rest)
    (hplace : c.place = placeAfter before) :
    c.advance.place = placeAfter (before ++ [x]) := by
  have hline : c.line = (placeAfter before).1 := congrArg Prod.fst hplace
  have hcolumn : c.column = (placeAfter before).2 := congrArg Prod.snd hplace
  have hcurrent : c.current? = some x := by rw [current?_eq, hrest, List.head?_cons]
  rw [place_advance, hcurrent]
  by_cases hx : x = '\n'
  · subst hx
    rw [if_pos rfl, placeAfter_newline, hline]
  · rw [if_neg (by simpa using hx), placeAfter_of_ne before hx, hline, hcolumn]

theorem advanceBy_place (hrest : c.rest = text ++ rest) (hplace : c.place = placeAfter before) :
    (advanceBy text.length c).place = placeAfter (before ++ text) := by
  induction text generalizing c before with
  | nil => simpa [advanceBy] using hplace
  | cons x text ih =>
    have hadvance : c.advance.rest = text ++ rest := by simp [hrest]
    have hstep := ih hadvance (advance_place hrest hplace)
    rwa [List.append_assoc, List.singleton_append] at hstep

theorem advanceBy_text_rest (hrest : c.rest = text ++ rest) :
    (advanceBy text.length c).rest = rest := by
  rw [advanceBy_rest, hrest, List.drop_left]

theorem advanceBy_add (m n : Nat) (c : Cursor) :
    advanceBy (m + n) c = advanceBy n (advanceBy m c) := by
  induction m generalizing c with
  | zero => rw [Nat.zero_add, advanceBy]
  | succ m ih => rw [Nat.succ_add, advanceBy, ih, advanceBy]

end Cursor

/-! ### From a scan to a tiling -/

section Sound

variable [Text.Alphabet] {c after : Cursor} {t : Token} {head : Char} {tail : List Char}

namespace Cursor

omit [Text.Alphabet] in
theorem readRun_split (member : Char → Bool) (c : Cursor) :
    c.rest = (c.readRun member).1 ++ (c.readRun member).2.rest := by
  rw [readRun_rest]
  exact List.takeWhile_append_dropWhile.symm

omit [Text.Alphabet] in
theorem readRun_stops (member : Char → Bool) (c : Cursor) :
    ∀ x ∈ (c.readRun member).2.rest.head?, member x = false := by
  intro x hx
  rw [readRun_rest] at hx
  have hstops := List.head?_dropWhile_not member c.rest
  rw [show (c.rest.dropWhile member).head? = some x from hx] at hstops
  simpa using hstops

structure Spans (c : Cursor) (t : Token) (text : List Char) (after : Cursor) : Prop where
  spelled : Spelled t.lexeme text after.rest
  rest_eq : c.rest = text ++ after.rest
  after_eq : after = advanceBy text.length c
  place_eq : t.place = c.place

theorem spans_digits (hne : c.readDigits.1 ≠ [])
    (hlength : c.readDigits.1.length ≤ Text.maxDigits) :
    Spans c (c.numberToken c.readDigits.1) c.readDigits.1 c.readDigits.2 := by
  have hdigits : ∀ x ∈ c.readDigits.1, x.isDigit := fun x hx => mem_readRun hx
  have hstops := c.readRun_stops Char.isDigit
  refine ⟨?_, c.readRun_split _, rfl, ?_⟩
  · unfold numberToken
    split
    · next hvalue => exact .number hne hdigits hlength hvalue hstops
    · next hvalue => exact .large hne hdigits hlength (Int.not_le.mp hvalue) hstops
  · unfold numberToken
    split <;> rfl

theorem spans_text (hrest : c.rest = '\x22' :: tail) :
    ∃ text, Spans c (c.token .string c.readText.1) text c.readText.2 := by
  have hadvance : c.advance.rest = tail := by rw [advance_rest, hrest, List.tail_cons]
  have hsplit := c.advance.readRun_split (· ≠ '\x22')
  have hstops := c.advance.readRun_stops (· ≠ '\x22')
  have hvalue : '\x22' ∉ (c.advance.readRun (· ≠ '\x22')).1 := by
    intro hquote
    simpa using mem_readRun hquote
  rw [hadvance] at hsplit
  unfold readText
  generalize hrun : c.advance.readRun (· ≠ '\x22') = run at *
  obtain ⟨value, behind⟩ := run
  have hbehind : behind = advanceBy (1 + value.length) c := by
    have hafter : behind = advanceBy value.length c.advance := by
      rw [show value = _ from congrArg Prod.fst hrun.symm]
      exact congrArg Prod.snd hrun.symm
    rw [hafter, advanceBy_add]
    rfl
  dsimp only at *
  split
  · next hquote =>
    obtain ⟨rest, hbehindRest⟩ := rest_of_current? hquote
    have hafter : behind.advance.rest = rest := by rw [advance_rest, hbehindRest, List.tail_cons]
    refine ⟨'\x22' :: (value ++ ['\x22']), .closed _ hvalue, ?_, ?_, rfl⟩
    · rw [hrest, hsplit, hafter, hbehindRest]
      simp
    · have hlength : ('\x22' :: (value ++ ['\x22'])).length = 1 + value.length + 1 := by
        simp
        omega
      rw [hbehind, hlength]
      exact (advanceBy_add (1 + value.length) 1 c).symm
  · next hquote =>
    have hend : behind.rest = [] := by
      cases hrest : behind.rest with
      | nil => rfl
      | cons x rest =>
        have hx := hstops x (by rw [hrest]; rfl)
        refine absurd ?_ hquote
        rw [current?_eq, hrest]
        simpa using hx
    refine ⟨'\x22' :: value, ?_, ?_, ?_, rfl⟩
    · rw [hend]
      exact .unclosed hvalue
    · rw [hrest, hsplit]
      rfl
    · rw [hbehind, List.length_cons, Nat.add_comm]

theorem spans_tokenAt (hrest : c.rest = head :: tail) (hblank : isSkipped head = false)
    (h : c.tokenAt head = .ok (t, after)) : ∃ text, Spans c t text after := by
  have hfollowing : c.following? = tail.head? := by simp [following?, hrest]
  have hadvance : c.advance.rest = tail := by rw [advance_rest, hrest, List.tail_cons]
  have htwo : ∀ x, tail.head? = some x → tail = x :: c.advance.advance.rest := by
    intro x hx
    obtain ⟨rest, rfl⟩ := List.head?_eq_some_iff.mp hx
    rw [advance_rest, hadvance, List.tail_cons]
  unfold tokenAt at h
  rw [hfollowing] at h
  split at h
  · next hequal =>
    cases h
    refine ⟨['=', '='], .equal _, ?_, rfl, rfl⟩
    rw [hrest, hequal.1, htwo '=' hequal.2]
    rfl
  · next hequal =>
  split at h
  · next hnot =>
    cases h
    refine ⟨['!', '='], .notEqual _, ?_, rfl, rfl⟩
    rw [hrest, hnot.1, htwo '=' hnot.2]
    rfl
  · next hnot =>
  split at h
  · next kind hkind =>
    cases h
    refine ⟨[head], .char hkind ?_, by rw [hrest, hadvance]; rfl, rfl, rfl⟩
    rw [hadvance]
    rintro (rfl | rfl) hnext
    · exact hequal ⟨rfl, hnext⟩
    · exact hnot ⟨rfl, hnext⟩
  · next hkind =>
  split at h
  · next hquote =>
    cases h
    exact spans_text (hquote ▸ hrest)
  · next hquote =>
  split at h
  · next hletter =>
    cases h
    have hletters : ∀ x ∈ c.readWord.1, Text.isLetter x := fun x hx => mem_readRun hx
    exact ⟨c.readWord.1, .word (readRun_ne_nil hrest hletter) hletters (c.readRun_stops _),
      c.readRun_split _, rfl, rfl⟩
  · next hletter =>
  split at h
  · next hdigit =>
    dsimp only at h
    split at h
    · next hlength =>
      cases h
      exact ⟨_, spans_digits (readRun_ne_nil hrest hdigit) hlength⟩
    · cases h
  · next hdigit =>
    cases h
    refine ⟨[head], .illegal _ hkind hquote ?_ ?_ hblank, by rw [hrest, hadvance]; rfl, rfl, rfl⟩
    · simpa using hletter
    · simpa using hdigit

end Cursor

theorem isLetter_of_isSkipped {x : Char} (h : isSkipped x) : Text.isLetter x = false := by
  obtain ⟨hlow, halpha, -⟩ := of_isSkipped h
  rw [Text.isLetter_of_lt hlow, halpha]

theorem isDigit_of_isLetter {x : Char} (h : Text.isLetter x) : x.isDigit = false := by
  cases hdigit : x.isDigit with
  | false => rfl
  | true =>
    rw [(of_isDigit hdigit).2.2.2] at h
    cases h

section Apart

variable {before text rest : List Char}

theorem apart_of_getLast? (h : ∀ x ∈ before.getLast?, Text.isLetter x = false ∧ x.isDigit = false) :
    Apart before rest := by
  intro x hx y _
  rw [(h x hx).1, (h x hx).2]
  exact ⟨rfl, rfl⟩

theorem Apart.behind (h : Apart text rest) (hne : text ≠ []) : Apart (before ++ text) rest := by
  intro x hx
  obtain ⟨init, last, rfl⟩ := List.eq_nil_or_concat text |>.resolve_left hne
  rw [List.concat_eq_append, ← List.append_assoc, List.getLast?_concat] at hx
  refine h x ?_
  rwa [List.concat_eq_append, List.getLast?_concat]

theorem Apart.blanks {blanks : List Char} (h : Apart before (blanks ++ rest))
    (hblanks : ∀ x ∈ blanks, isSkipped x) : Apart (before ++ blanks) rest := by
  cases blanks with
  | nil => simpa using h
  | cons x blanks =>
    refine Apart.behind (apart_of_getLast? fun y hy => ?_) (List.cons_ne_nil _ _)
    have hblank := hblanks y (List.mem_of_mem_getLast? hy)
    exact ⟨isLetter_of_isSkipped hblank, (of_isSkipped hblank).2.2⟩

theorem Apart.left (h : Apart before (text ++ rest)) (hne : text ≠ []) : Apart before text := by
  intro x hx y hy
  obtain ⟨tail, rfl⟩ := List.head?_eq_some_iff.mp hy
  exact h x hx y rfl

theorem Spelled.apart {l : Lexeme} (h : Spelled l text rest) : Apart text rest := by
  cases h with
  | equal | notEqual =>
    refine apart_of_getLast? ?_
    rintro x ⟨⟩
    exact ⟨Text.isLetter_of_lt (by decide), by decide⟩
  | char hkind =>
    obtain ⟨hlow, halpha, hdigit, -⟩ := of_ofChar? hkind
    refine apart_of_getLast? ?_
    rintro x ⟨⟩
    exact ⟨(Text.isLetter_of_lt hlow).trans halpha, hdigit⟩
  | word _ hletters hrest =>
    intro x hx y hy
    have hletter := hletters x (List.mem_of_mem_getLast? hx)
    rw [hrest y hy, isDigit_of_isLetter hletter]
    exact ⟨Bool.and_false _, rfl⟩
  | number _ hdigits _ _ hrest | large _ hdigits _ _ hrest =>
    intro x hx y hy
    have hdigit := hdigits x (List.mem_of_mem_getLast? hx)
    rw [hrest y hy, (of_isDigit hdigit).2.2.2]
    exact ⟨rfl, Bool.and_false _⟩
  | closed _ hvalue =>
    refine apart_of_getLast? fun x hx => ?_
    rw [← List.cons_append, List.getLast?_concat] at hx
    cases hx
    exact ⟨Text.isLetter_of_lt (by decide), by decide⟩
  | unclosed => exact fun _ _ y hy => absurd hy (Option.not_mem_none y)
  | illegal _ _ _ hletter hdigit =>
    refine apart_of_getLast? ?_
    rintro x ⟨⟩
    exact ⟨hletter, hdigit⟩

end Apart

theorem Spelled.ne_nil {l : Lexeme} {text rest : List Char} (h : Spelled l text rest) :
    text ≠ [] := by
  cases h with
  | word hne | number hne | large hne => exact hne
  | _ => exact List.cons_ne_nil _ _

theorem Spelled.kind_ne_eof {l : Lexeme} {text rest : List Char} (h : Spelled l text rest) :
    l.kind ≠ .eof := by
  cases h with
  | char hkind => exact (Cursor.lexed_charToken (c := .start []) hkind).2
  | word hne hletters => exact (Cursor.lexed_wordToken (c := .start []) hne hletters).2
  | _ =>
    intro hkind
    cases hkind

namespace Cursor

omit [Text.Alphabet] in
theorem skipBlanks_split (c : Cursor) :
    ∃ blanks, (∀ x ∈ blanks, isSkipped x) ∧ c.rest = blanks ++ c.skipBlanks.rest ∧
      c.skipBlanks = advanceBy blanks.length c :=
  ⟨(c.readRun isSkipped).1, fun _ hx => mem_readRun hx, c.readRun_split isSkipped, rfl⟩

omit [Text.Alphabet] in
theorem skipBlanks_stops {head : Char} (h : c.skipBlanks.current? = some head) :
    isSkipped head = false :=
  c.readRun_stops isSkipped head (c.skipBlanks.current?_eq.symm.trans h)

theorem spans_next (h : c.next = .ok (t, after)) :
    (t = c.skipBlanks.token .eof [] ∧ c.skipBlanks.rest = []) ∨
      t.kind ≠ .eof ∧ ∃ text, Spans c.skipBlanks t text after := by
  unfold next at h
  dsimp only at h
  split at h
  · next hnone =>
    cases h
    exact Or.inl ⟨rfl, List.head?_eq_none_iff.mp (c.skipBlanks.current?_eq.symm.trans hnone)⟩
  · next head hhead =>
    obtain ⟨tail, hrest⟩ := rest_of_current? hhead
    exact Or.inr ⟨(lexed_tokenAt hrest h).2, spans_tokenAt hrest (c.skipBlanks_stops hhead) h⟩

theorem long_of_tokenAt_error {o : Oversized} (h : c.tokenAt head = .error o) :
    Text.maxDigits < c.readDigits.1.length := by
  unfold tokenAt at h
  split at h
  · cases h
  split at h
  · cases h
  split at h
  · cases h
  split at h
  · cases h
  split at h
  · cases h
  split at h
  · dsimp only at h
    split at h
    · cases h
    · next hlong => exact Nat.lt_of_not_le hlong
  · cases h

theorem exists_run_of_error {o : Oversized} (h : c.next = .error o) :
    ∃ run, run <:+: c.rest ∧ (∀ x ∈ run, x.isDigit) ∧ Text.maxDigits < run.length := by
  unfold next at h
  dsimp only at h
  split at h
  · cases h
  · obtain ⟨blanks, -, hrest, -⟩ := c.skipBlanks_split
    refine ⟨c.skipBlanks.readDigits.1, ?_, fun x hx => mem_readRun hx, long_of_tokenAt_error h⟩
    rw [hrest, c.skipBlanks.readRun_split Char.isDigit, ← List.append_assoc]
    exact List.infix_append _ _ _

end Cursor

theorem tiled_scanWithin {n : Nat} {c : Cursor} {before : List Char}
    (hplace : c.place = placeAfter before) (hapart : Apart before c.rest) (hn : c.rest.length < n)
    (h : (scanWithin n c).oversized = none) :
    Tiled before c.rest (scanWithin n c).tokens (scanWithin n c).ending := by
  induction n generalizing c before with
  | zero => exact absurd hn (Nat.not_lt_zero _)
  | succ n ih =>
    obtain ⟨blanks, hblanks, hrest, hskip⟩ := c.skipBlanks_split
    have hskipPlace : c.skipBlanks.place = placeAfter (before ++ blanks) := by
      rw [hskip]
      exact Cursor.advanceBy_place hrest hplace
    rw [scanWithin] at h ⊢
    split at h
    · cases h
    next t after hnext =>
    dsimp only
    rcases Cursor.spans_next hnext with ⟨rfl, hend⟩ | ⟨hkind, text, hspans⟩
    · have hkind : (c.skipBlanks.token .eof []).kind = .eof := rfl
      rw [if_pos hkind, hrest, hend, List.append_nil]
      exact .done hblanks rfl hskipPlace
    · rw [if_neg hkind] at h ⊢
      obtain ⟨hspelled, htext, hafter, htoken⟩ := hspans
      have hne := hspelled.ne_nil
      have hbetween : Apart (before ++ blanks) (text ++ after.rest) := by
        rw [hrest, htext] at hapart
        exact hapart.blanks hblanks
      have hafterPlace : after.place = placeAfter (before ++ blanks ++ text) := by
        rw [hafter]
        exact Cursor.advanceBy_place htext hskipPlace
      have hlength : after.rest.length < n := by
        have hpos := List.length_pos_iff.mpr hne
        rw [hrest, htext, List.length_append, List.length_append] at hn
        omega
      have htail := ih hafterPlace (hspelled.apart.behind hne) hlength h
      rw [hrest, htext]
      exact .token hblanks hspelled (htoken.trans hskipPlace) (hbetween.left hne) htail

theorem oversized_scanWithin {n : Nat} {c : Cursor} (h : Readable c.rest) :
    (scanWithin n c).oversized = none := by
  induction n generalizing c with
  | zero => rfl
  | succ n ih =>
    rw [scanWithin]
    split
    · next o hnext =>
      obtain ⟨run, hrun, hdigits, hlong⟩ := Cursor.exists_run_of_error hnext
      exact absurd (h run hrun hdigits) (Nat.not_le_of_lt hlong)
    · next t after hnext =>
      split
      · rfl
      · next hkind =>
        rcases Cursor.spans_next hnext with ⟨rfl, -⟩ | ⟨-, text, hspans⟩
        · exact absurd rfl hkind
        · obtain ⟨blanks, -, hrest, -⟩ := c.skipBlanks_split
          refine ih fun run hrun => h run (hrun.trans ?_)
          rw [hrest, hspans.rest_eq, ← List.append_assoc]
          exact (List.suffix_append _ _).isInfix

end Sound

/-! ### From a tiling to a scan -/

section Complete

variable {c : Cursor} {t : Token} {l : Lexeme} {text rest : List Char}

namespace Cursor

def tokenOf (c : Cursor) (l : Lexeme) : Token :=
  { kind := l.kind, literal := l.literal, line := c.line, column := c.column }

theorem eq_tokenOf (hplace : t.place = c.place) : t = c.tokenOf t.lexeme := by
  have hline : t.line = c.line := congrArg Prod.fst hplace
  have hcolumn : t.column = c.column := congrArg Prod.snd hplace
  rw [tokenOf, ← hline, ← hcolumn]
  rfl

theorem readRun_eq {member : Char → Bool} (hrest : c.rest = text ++ rest)
    (htext : ∀ x ∈ text, member x) (hstops : ∀ x ∈ rest.head?, member x = false) :
    c.readRun member = (text, advanceBy text.length c) := by
  have hrun := (readRun_append hrest htext hstops).1
  rw [show c.readRun member =
    ((c.readRun member).1, advanceBy (c.readRun member).1.length c) from rfl, hrun]

theorem readRun_value {value : List Char} (hrest : c.rest = '\x22' :: (value ++ rest))
    (hvalue : '\x22' ∉ value) (hstops : ∀ x ∈ rest.head?, x = '\x22') :
    c.advance.readRun (· ≠ '\x22') = (value, advanceBy value.length c.advance) := by
  have hadvance : c.advance.rest = value ++ rest := by simp [hrest]
  refine readRun_eq hadvance (fun x hx => decide_eq_true ?_) fun x hx => ?_
  · rintro rfl
    exact hvalue hx
  · rw [hstops x hx]
    rfl

theorem readText_closed {value : List Char} (hrest : c.rest = '\x22' :: (value ++ '\x22' :: rest))
    (hvalue : '\x22' ∉ value) : c.readText = (value, advanceBy (1 + value.length + 1) c) := by
  have hadvance : c.advance.rest = value ++ '\x22' :: rest := by simp [hrest]
  have hrun := readRun_value hrest hvalue (by rintro x ⟨⟩; rfl)
  have hquote : (advanceBy value.length c.advance).current? = some '\x22' := by
    rw [current?_eq, advanceBy_text_rest hadvance]
    rfl
  rw [readText, hrun]
  dsimp only
  rw [if_pos hquote, advanceBy_add, advanceBy_add]
  rfl

theorem readText_unclosed {value : List Char} (hrest : c.rest = '\x22' :: value)
    (hvalue : '\x22' ∉ value) : c.readText = (value, advanceBy (1 + value.length) c) := by
  have hend : c.rest = '\x22' :: (value ++ []) := by rw [hrest, List.append_nil]
  have hadvance : c.advance.rest = value ++ [] := by simp [hrest]
  have hrun := readRun_value hend hvalue fun x hx => absurd hx (Option.not_mem_none x)
  have hquote : (advanceBy value.length c.advance).current? ≠ some '\x22' := by
    rw [current?_eq, advanceBy_text_rest hadvance]
    simp
  rw [readText, hrun]
  dsimp only
  rw [if_neg hquote, advanceBy_add]
  rfl

variable [Text.Alphabet]

theorem tokenAt_quote (c : Cursor) :
    c.tokenAt '\x22' = .ok (c.token .string c.readText.1, c.readText.2) := by
  simp [tokenAt, TokenKind.ofChar?]

theorem tokenAt_char {head : Char} {kind : TokenKind} (hrest : c.rest = head :: rest)
    (hkind : TokenKind.ofChar? head = some kind)
    (hapart : head = '=' ∨ head = '!' → rest.head? ≠ some '=') :
    c.tokenAt head = .ok (c.token kind [head], c.advance) := by
  have hfollowing : c.following? = rest.head? := by simp [following?, hrest]
  unfold tokenAt
  rw [hfollowing, if_neg fun h => hapart (Or.inl h.1) h.2,
    if_neg fun h => hapart (Or.inr h.1) h.2, hkind]

theorem tokenAt_illegal {head : Char} (hkind : TokenKind.ofChar? head = none)
    (hquote : head ≠ '\x22') (hletter : Text.isLetter head = false)
    (hdigit : head.isDigit = false) :
    c.tokenAt head = .ok (c.token .illegal [head], c.advance) := by
  have hassign : head ≠ '=' := by rintro rfl; cases hkind
  have hbang : head ≠ '!' := by rintro rfl; cases hkind
  simp [tokenAt, hassign, hbang, hkind, hquote, hletter, hdigit]

theorem tokenAt_of_spelled (hrest : c.rest = text ++ rest) (h : Spelled l text rest) :
    ∃ head tail, text = head :: tail ∧ isSkipped head = false ∧
      c.tokenAt head = .ok (c.tokenOf l, advanceBy text.length c) := by
  cases h with
  | equal =>
    have hfollowing : c.following? = some '=' := by simp [following?, hrest]
    exact ⟨'=', _, rfl, by decide, if_pos ⟨rfl, hfollowing⟩⟩
  | notEqual =>
    have hfollowing : c.following? = some '=' := by simp [following?, hrest]
    refine ⟨'!', _, rfl, by decide, ?_⟩
    simp only [tokenAt, hfollowing]
    rfl
  | char hkind hapart =>
    exact ⟨_, _, rfl, (of_ofChar? hkind).2.2.2, tokenAt_char hrest hkind hapart⟩
  | word hne hletters hstops =>
    obtain ⟨head, tail, rfl⟩ := List.exists_cons_of_ne_nil hne
    have hhead := hletters head (by simp)
    refine ⟨head, tail, rfl, (of_isLetter hhead).2.1, ?_⟩
    rw [tokenAt_of_isLetter hhead, readWord, readRun_eq hrest hletters hstops]
    rfl
  | number hne hdigits hlength hvalue hstops =>
    obtain ⟨head, tail, rfl⟩ := List.exists_cons_of_ne_nil hne
    have hhead := hdigits head (by simp)
    refine ⟨head, tail, rfl, (of_isDigit hhead).2.1, ?_⟩
    rw [tokenAt_of_isDigit hhead, readDigits, readRun_eq hrest hdigits hstops, if_pos hlength,
      numberToken, if_pos hvalue]
    rfl
  | large hne hdigits hlength hvalue hstops =>
    obtain ⟨head, tail, rfl⟩ := List.exists_cons_of_ne_nil hne
    have hhead := hdigits head (by simp)
    refine ⟨head, tail, rfl, (of_isDigit hhead).2.1, ?_⟩
    rw [tokenAt_of_isDigit hhead, readDigits, readRun_eq hrest hdigits hstops, if_pos hlength,
      numberToken, if_neg (Int.not_le.mpr hvalue)]
    rfl
  | @closed value _ hvalue =>
    refine ⟨'\x22', _, rfl, by decide, ?_⟩
    have hlength : ('\x22' :: (value ++ ['\x22'])).length = 1 + value.length + 1 := by
      simp
      omega
    have hquoted : c.rest = '\x22' :: (value ++ '\x22' :: rest) := by simp [hrest]
    rw [tokenAt_quote, readText_closed hquoted hvalue, hlength]
    rfl
  | unclosed hvalue =>
    refine ⟨'\x22', _, rfl, by decide, ?_⟩
    rw [tokenAt_quote, readText_unclosed (by simp [hrest]) hvalue, List.length_cons, Nat.add_comm]
    rfl
  | illegal _ hkind hquote hletter hdigit hblank =>
    exact ⟨_, _, rfl, hblank, tokenAt_illegal hkind hquote hletter hdigit⟩

theorem next_of_spelled {blanks : List Char} (hrest : c.rest = blanks ++ (text ++ rest))
    (hblanks : ∀ x ∈ blanks, isSkipped x) (hspelled : Spelled t.lexeme text rest)
    (hplace : t.place = (advanceBy blanks.length c).place) :
    c.next = .ok (t, advanceBy (blanks ++ text).length c) := by
  have hhere := advanceBy_text_rest hrest
  obtain ⟨head, tail, rfl, hblank, htoken⟩ := tokenAt_of_spelled hhere hspelled
  have hskip : c.skipBlanks = advanceBy blanks.length c := by
    rw [skipBlanks, readRun_eq hrest hblanks]
    rintro x ⟨⟩
    exact hblank
  have hcurrent : (advanceBy blanks.length c).current? = some head := by
    rw [current?_eq, hhere]
    rfl
  rw [next, hskip, hcurrent, List.length_append, advanceBy_add, eq_tokenOf hplace]
  exact htoken

end Cursor

theorem scanWithin_of_tiled [Text.Alphabet] {n : Nat} {before : List Char} {ts : List Token}
    {ending : Token} (h : Tiled before c.rest ts ending) (hplace : c.place = placeAfter before)
    (hn : c.rest.length < n) : scanWithin n c = { tokens := ts, ending } := by
  generalize hcs : c.rest = cs at h hn
  induction h generalizing n c with
  | @done before blanks ending hblanks hlexeme hending =>
    obtain ⟨m, rfl⟩ := Nat.exists_eq_succ_of_ne_zero (Nat.ne_of_gt (Nat.zero_lt_of_lt hn))
    have hrest : c.rest = blanks ++ [] := by rw [hcs, List.append_nil]
    have hskip : c.skipBlanks = Cursor.advanceBy blanks.length c := by
      rw [Cursor.skipBlanks, Cursor.readRun_eq hrest hblanks]
      exact fun x hx => absurd hx (Option.not_mem_none x)
    have hplaceEnd := Cursor.advanceBy_place hrest hplace
    have htoken : ending = c.skipBlanks.token .eof [] := by
      rw [hskip, Cursor.eq_tokenOf (hending.trans hplaceEnd.symm), hlexeme]
      rfl
    have hnext : c.next = .ok (ending, c.skipBlanks) := by
      have hcurrent : c.skipBlanks.current? = none := by
        rw [hskip, Cursor.current?_eq, Cursor.advanceBy_text_rest hrest]
        rfl
      rw [Cursor.next, hcurrent, htoken]
    have hkind : ending.kind = .eof := congrArg Lexeme.kind hlexeme
    simp only [scanWithin, hnext, if_pos hkind]
  | @token before blanks text rest t ending ts hblanks hspelled htoken _ _ ih =>
    obtain ⟨m, rfl⟩ := Nat.exists_eq_succ_of_ne_zero (Nat.ne_of_gt (Nat.zero_lt_of_lt hn))
    have hplaceHere := Cursor.advanceBy_place hcs hplace
    have hnext := Cursor.next_of_spelled hcs hblanks hspelled (htoken.trans hplaceHere.symm)
    have hall : c.rest = blanks ++ text ++ rest := by rw [hcs, List.append_assoc]
    have hplaceAfter := Cursor.advanceBy_place hall hplace
    have hlength : rest.length < m := by
      have hpos := List.length_pos_iff.mpr hspelled.ne_nil
      rw [List.length_append, List.length_append] at hn
      omega
    rw [← List.append_assoc] at hplaceAfter
    have htail := ih hplaceAfter (Cursor.advanceBy_text_rest hall) hlength
    have hkind : t.kind ≠ .eof := hspelled.kind_ne_eof
    simp only [scanWithin, hnext, if_neg hkind, htail]

end Complete

/-! ### Whole sources -/

theorem place_start (source : List Char) : (Cursor.start source).place = placeAfter [] := rfl

/-- A scan that does not break off gives the tokens of a tiling, and the tokens of a tiling are
those that a scan gives. -/
theorem scan_eq_iff_tiled [Text.Alphabet] {source : String} {ts : List Token} {ending : Token} :
    scan source = { tokens := ts, ending } ↔ Tiled [] source.toList ts ending := by
  constructor
  · intro h
    have hapart : Apart [] (Cursor.start source.toList).rest :=
      fun x hx => absurd hx (Option.not_mem_none x)
    have htiled : Tiled [] source.toList (scan source).tokens (scan source).ending :=
      tiled_scanWithin (place_start source.toList) hapart (Nat.lt_succ_self _)
        (congrArg Scan.oversized h)
    rwa [h] at htiled
  · intro h
    exact scanWithin_of_tiled (c := .start source.toList) h (place_start _) (Nat.lt_succ_self _)

/-- Without a run of digits that is too long, the scan of a source ends. Its tokens are those of a
tiling of the source, and the end of input is the last of them and no other. -/
theorem tokens_tile_source [Text.Alphabet] {source : String} (h : Readable source.toList) :
    ∃ ts ending, tokens source = .ok (ts ++ [ending]) ∧ ending.kind = .eof ∧
      (∀ t ∈ ts, t.kind ≠ .eof) ∧ Tiled [] source.toList ts ending := by
  have hoversized : (scan source).oversized = none :=
    oversized_scanWithin (c := .start source.toList) h
  have hscan : scan source =
      { tokens := (scan source).tokens, ending := (scan source).ending } := by
    rw [← hoversized]
  have htokens : tokens source = .ok ((scan source).tokens ++ [(scan source).ending]) := by
    simp only [tokens, hoversized]
  exact ⟨_, _, htokens, scanWithin_ending _ _, fun t ht => (lexed_scanWithin _ _ t ht).2,
    scan_eq_iff_tiled.mp hscan⟩

theorem tokens_tile_source_two_lines :
    let source := "x!=\x22a\nb\x22 99999999999999999999=\x22 ;"
    let ts : List Token :=
      [⟨.ident, "x", 1, 1⟩, ⟨.notEqual, "!=", 1, 2⟩, ⟨.string, "a\nb", 1, 4⟩, ⟨.illegal, "9", 2, 4⟩,
        ⟨.assign, "=", 2, 24⟩, ⟨.string, " ;", 2, 25⟩]
    let ending : Token := ⟨.eof, "", 2, 28⟩
    Readable source.toList ∧ tokens source = .ok (ts ++ [ending]) ∧ ending.kind = .eof ∧
      (∀ t ∈ ts, t.kind ≠ .eof) ∧ Tiled [] source.toList ts ending := by
  have htokens : tokens "x!=\x22a\nb\x22 99999999999999999999=\x22 ;" = .ok
      ([⟨.ident, "x", 1, 1⟩, ⟨.notEqual, "!=", 1, 2⟩, ⟨.string, "a\nb", 1, 4⟩,
        ⟨.illegal, "9", 2, 4⟩, ⟨.assign, "=", 2, 24⟩, ⟨.string, " ;", 2, 25⟩] ++
        [⟨.eof, "", 2, 28⟩]) := by rfl
  intro source ts ending
  have hreadable : Readable source.toList := by
    intro run hrun _
    exact Nat.le_trans hrun.length_le (by decide)
  obtain ⟨ts', ending', htokens', heof, hbefore, htiled⟩ := tokens_tile_source hreadable
  have hsame : ts' ++ [ending'] = ts ++ [ending] := Except.ok.inj (htokens'.symm.trans htokens)
  obtain ⟨rfl, hending⟩ := List.append_inj' hsame rfl
  cases hending
  exact ⟨hreadable, htokens, heof, hbefore, htiled⟩

end Lexer

end MonkeyLang

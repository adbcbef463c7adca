import MonkeyLang.Proofs.Lexer.Tiling

/-!
Cursors know where they are. Whatever is asked of a cursor, and in whatever order, its place stays
the place of its position in the source: the line by the newlines before it, the column by its
distance from the last of them. This goes on past the end of the source, where nothing is left to be
read but the cursor can still be moved.
-/
namespace MonkeyLang.Lexer

/-- The offset of the last newline before a position, and -1 if there is none. -/
def lastNewline (source : List Char) : Nat → Int
  | 0 => -1
  | n + 1 => if source[n]? = some '\n' then n else lastNewline source n

inductive Use where
  | next
  | peek
  | advance
  | skipBlanks
  | readWord
  | readDigits
  | readText

def Use.perform [Text.Alphabet] (c : Cursor) : Use → Except Oversized Cursor
  | next => c.next.map Prod.snd
  | peek => .ok c
  | advance => .ok c.advance
  | skipBlanks => .ok c.skipBlanks
  | readWord => .ok c.readWord.2
  | readDigits => .ok c.readDigits.2
  | readText => .ok c.readText.2

structure Tracks (source : List Char) (c : Cursor) : Prop where
  rest_eq : c.rest = source.drop c.position
  line_eq : c.line = 1 + (source.take c.position).count '\n'
  column_eq : (c.column : Int) = c.position - lastNewline source c.position

variable {source : List Char} {c after : Cursor}

theorem tracks_start (source : List Char) : Tracks source (.start source) := ⟨rfl, rfl, rfl⟩

namespace Tracks

theorem current? (h : Tracks source c) : c.current? = source[c.position]? := by
  rw [c.current?_eq, h.rest_eq, List.head?_drop]

theorem following? (h : Tracks source c) : c.following? = source[c.readPosition]? := by
  rw [Cursor.following?, h.rest_eq, List.tail_drop, List.head?_drop, c.readPosition_eq]

theorem rest_eq_nil (h : Tracks source c) (hend : source.length ≤ c.position) : c.rest = [] := by
  rw [h.rest_eq, List.drop_eq_nil_of_le hend]

theorem advance (h : Tracks source c) : Tracks source c.advance := by
  have hcount : (source.take (c.position + 1)).count '\n' =
      (source.take c.position).count '\n' + c.current?.toList.count '\n' := by
    rw [List.take_add_one, List.count_append, h.current?]
  have hlast : lastNewline source (c.position + 1) =
      if c.current? = some '\n' then (c.position : Int) else lastNewline source c.position := by
    rw [h.current?]
    rfl
  have hcolumn := h.column_eq
  refine ⟨?_, ?_, ?_⟩
  · rw [Cursor.advance_rest, c.advance_position, h.rest_eq, List.tail_drop]
  · rw [c.advance_position, hcount, c.advance_line, h.line_eq]
    split
    · next hnewline =>
      rw [hnewline]
      rfl
    · next hother =>
      have hnone : c.current?.toList.count '\n' = 0 :=
        List.count_eq_zero.mpr fun hmem => hother (Option.mem_toList.mp hmem)
      rw [hnone, Nat.add_zero]
  · rw [c.advance_position, hlast, c.advance_column]
    split <;> omega

theorem advanceBy (h : Tracks source c) (n : Nat) : Tracks source (Cursor.advanceBy n c) := by
  induction n generalizing c with
  | zero => exact h
  | succ n ih => exact ih h.advance

end Tracks

/-! ### Every use moves the cursor on -/

namespace Cursor

theorem advanceBy_position (n : Nat) (c : Cursor) :
    (advanceBy n c).position = c.position + n := by
  induction n generalizing c with
  | zero => rfl
  | succ n ih =>
    rw [advanceBy, ih, advance_position]
    omega

theorem exists_advanceBy_readText (c : Cursor) : ∃ n, c.readText.2 = advanceBy n c := by
  have hrun : (c.advance.readRun (· ≠ '\x22')).2 =
      advanceBy ((c.advance.readRun (· ≠ '\x22')).1.length + 1) c := rfl
  unfold readText
  dsimp only
  split
  · refine ⟨(c.advance.readRun (· ≠ '\x22')).1.length + 1 + 1, ?_⟩
    rw [hrun]
    exact (advanceBy_add _ 1 c).symm
  · exact ⟨_, hrun⟩

theorem exists_advanceBy_next [Text.Alphabet] {t : Token} (h : c.next = .ok (t, after)) :
    ∃ n, after = advanceBy n c := by
  obtain ⟨blanks, -, -, hskip⟩ := c.skipBlanks_split
  unfold next at h
  dsimp only at h
  split at h
  · cases h
    exact ⟨_, hskip⟩
  · next head hhead =>
    obtain ⟨tail, hrest⟩ := rest_of_current? hhead
    obtain ⟨text, hspans⟩ := spans_tokenAt hrest (c.skipBlanks_stops hhead) h
    refine ⟨blanks.length + text.length, ?_⟩
    rw [hspans.after_eq, hskip, advanceBy_add]

end Cursor

/-! ### Alphabets -/

abbrev asciiAlphabet : Text.Alphabet where
  isLetter := Char.isAlpha
  isLetter_of_lt _ := rfl

section Ascii

variable [Text.Alphabet]

theorem Cursor.readWord_of_ascii (h : ∀ x ∈ c.rest, x.toNat < 0x80) :
    c.readWord = @Cursor.readWord asciiAlphabet c := by
  have hrun : ∀ cs : List Char, (∀ x ∈ cs, x.toNat < 0x80) →
      cs.takeWhile Text.isLetter = cs.takeWhile Char.isAlpha := by
    intro cs hcs
    induction cs with
    | nil => rfl
    | cons x cs ih =>
      obtain ⟨hx, hcs⟩ := List.forall_mem_cons.mp hcs
      rw [List.takeWhile_cons, List.takeWhile_cons, Text.isLetter_of_lt hx, ih hcs]
  have hword := hrun c.rest h
  unfold Cursor.readWord Cursor.readRun
  rw [hword]
  rfl

theorem Cursor.next_of_ascii (h : ∀ x ∈ c.rest, x.toNat < 0x80) :
    c.next = @Cursor.next asciiAlphabet c := by
  have hskipped : ∀ x ∈ c.skipBlanks.rest, x.toNat < 0x80 := by
    obtain ⟨blanks, -, hrest, -⟩ := c.skipBlanks_split
    exact fun x hx => h x (hrest ▸ List.mem_append_right blanks hx)
  unfold next
  cases hhead : c.skipBlanks.current? with
  | none => simp only [hhead]
  | some head =>
    obtain ⟨tail, hrest⟩ := rest_of_current? hhead
    have hletter : Text.isLetter head = @Text.isLetter asciiAlphabet head :=
      Text.isLetter_of_lt (hskipped head (hrest ▸ List.mem_cons_self))
    simp only [hhead, tokenAt, hletter, readWord_of_ascii hskipped]

theorem scanWithin_of_ascii (n : Nat) (h : ∀ x ∈ c.rest, x.toNat < 0x80) :
    scanWithin n c = @scanWithin asciiAlphabet n c := by
  induction n generalizing c with
  | zero => rfl
  | succ n ih =>
    simp only [scanWithin, Cursor.next_of_ascii h]
    cases hnext : @Cursor.next asciiAlphabet c with
    | error o => rfl
    | ok read =>
      obtain ⟨k, hafter⟩ := @Cursor.exists_advanceBy_next _ _ asciiAlphabet _ hnext
      have hrest : ∀ x ∈ read.2.rest, x.toNat < 0x80 := by
        intro x hx
        rw [hafter, Cursor.advanceBy_rest] at hx
        exact h x (List.mem_of_mem_drop hx)
      simp only [ih hrest]

/-- The letters above U+007F make no difference to a source without such characters. -/
theorem scan_of_ascii {source : String} (h : source.toList.all (·.toNat < 0x80)) :
    scan source = @scan asciiAlphabet source :=
  scanWithin_of_ascii _ fun x hx => of_decide_eq_true (List.all_eq_true.mp h x hx)

end Ascii

/-! ### Uses in a row -/

theorem Use.exists_advanceBy [Text.Alphabet] {use : Use} (h : use.perform c = .ok after) :
    ∃ n, after = Cursor.advanceBy n c := by
  cases use with
  | next =>
    rw [perform] at h
    cases hnext : c.next with
    | error o =>
      rw [hnext] at h
      cases h
    | ok read =>
      rw [hnext] at h
      cases h
      exact Cursor.exists_advanceBy_next hnext
  | peek =>
    cases h
    exact ⟨0, rfl⟩
  | advance =>
    cases h
    exact ⟨1, rfl⟩
  | skipBlanks | readWord | readDigits =>
    cases h
    exact ⟨_, rfl⟩
  | readText =>
    cases h
    exact c.exists_advanceBy_readText

theorem Tracks.perform [Text.Alphabet] (h : Tracks source c) {use : Use}
    (huse : use.perform c = .ok after) : Tracks source after := by
  obtain ⟨n, rfl⟩ := Use.exists_advanceBy huse
  exact h.advanceBy n

theorem Tracks.foldlM [Text.Alphabet] (h : Tracks source c) {uses : List Use}
    (huses : uses.foldlM Use.perform c = .ok after) : Tracks source after := by
  induction uses generalizing c with
  | nil =>
    cases huses
    exact h
  | cons use uses ih =>
    rw [List.foldlM_cons] at huses
    cases hfirst : use.perform c with
    | error o =>
      rw [hfirst] at huses
      cases huses
    | ok first =>
      rw [hfirst] at huses
      exact ih (h.perform hfirst) huses

/-- After any uses of a cursor, it stands on the character at its position, its line and its column
are those of the position, also past the end of the source, and no use moves it back. At the end of
input the next token leaves it where it is. Only the next token can fail to be read, and only at a
run of digits that is too long. -/
theorem cursor_in_step_with_source [Text.Alphabet] {uses : List Use}
    (h : uses.foldlM Use.perform (.start source) = .ok c) :
    c.readPosition = c.position + 1 ∧
    c.current? = source[c.position]? ∧ c.following? = source[c.readPosition]? ∧
    c.line = 1 + (source.take c.position).count '\n' ∧
    (c.column : Int) = c.position - lastNewline source c.position ∧
    (∀ (use : Use) after, use.perform c = .ok after → c.position ≤ after.position) ∧
    (source.length ≤ c.position → c.next = .ok (c.token .eof [], c)) ∧
    ∀ (use : Use) o, use.perform c = .error o → use = .next ∧
      ∃ run, run <:+: source ∧ (∀ x ∈ run, x.isDigit) ∧ Text.maxDigits < run.length := by
  have htracks := (tracks_start source).foldlM h
  refine ⟨c.readPosition_eq, htracks.current?, htracks.following?, htracks.line_eq,
    htracks.column_eq, fun use after huse => ?_, fun hend => ?_, fun use o huse => ?_⟩
  · obtain ⟨n, rfl⟩ := Use.exists_advanceBy huse
    rw [Cursor.advanceBy_position]
    omega
  · have hrest := htracks.rest_eq_nil hend
    have hskip : c.skipBlanks = c := by
      rw [Cursor.skipBlanks, Cursor.readRun, hrest]
      rfl
    rw [Cursor.next, hskip]
    simp only [c.current?_eq, hrest, List.head?_nil]
  · cases use with
    | next =>
      refine ⟨rfl, ?_⟩
      rw [Use.perform] at huse
      cases hnext : c.next with
      | ok read =>
        rw [hnext] at huse
        cases huse
      | error o =>
        obtain ⟨run, hrun, hdigits, hlong⟩ := Cursor.exists_run_of_error hnext
        rw [htracks.rest_eq] at hrun
        exact ⟨run, hrun.trans (List.drop_suffix _ _).isInfix, hdigits, hlong⟩
    | _ => cases huse

theorem cursor_in_step_with_source_past_end :
    let source := ['a', '\n', '\x22', 'b']
    let uses : List Use := [.next, .readText, .advance, .advance, .next]
    let c : Cursor := { rest := [], position := 5, line := 2, column := 4 }
    uses.foldlM Use.perform (.start source) = .ok c ∧ c.current? = source[5]? ∧
      c.line = 1 + (source.take 5).count '\n' ∧ (4 : Int) = 5 - lastNewline source 5 ∧
      c.next = .ok (c.token .eof [], c) := by
  intro source uses c
  have huses : uses.foldlM Use.perform (.start source) = .ok c := by rfl
  obtain ⟨-, hcurrent, -, hline, hcolumn, -, hend, -⟩ := cursor_in_step_with_source huses
  exact ⟨huses, hcurrent, hline, hcolumn, hend (by decide)⟩

end MonkeyLang.Lexer

import MonkeyLang.Proofs.Lexer.Tiling
import MonkeyLang.Proofs.Parser.Reported
import MonkeyLang.Run

/-!
The lines of a report on syntax errors. Numbers, names of kinds and quoted texts have no newline in
them, and of the tokens that are written as they are only texts can have one. So a report has a
header and one line for each diagnostic, exactly if no diagnostic is about a text over several
lines; and then the diagnostics can be read back from it.
-/
namespace MonkeyLang

/-! ### Texts without a newline -/

theorem newline_not_mem_toDigits (base n : Nat) (hbase : 1 < base) :
    '\n' ∉ Nat.toDigits base n := by
  induction n using Nat.strongRecOn with
  | _ n ih =>
    by_cases hlt : n < base
    · rw [Nat.toDigits_of_lt_base hlt]
      simp
    · have hsmaller : n / base < n := Nat.div_lt_self (by omega) hbase
      rw [Nat.toDigits_of_base_le hbase (by omega)]
      simpa using ih _ hsmaller

namespace Text

theorem newline_not_mem_hex (width n : Nat) : '\n' ∉ hex width n := by
  have hdigits := newline_not_mem_toDigits 16 n (by decide)
  simp [hex, hdigits]

theorem newline_not_mem_quotedChar {quote : Char} (hquote : quote ≠ '\n') (c : Char) :
    '\n' ∉ quotedChar quote c := by
  have hhex := newline_not_mem_hex
  unfold quotedChar backslash
  split
  · next hc =>
    have hne : c ≠ '\n' := by
      rintro rfl
      exact hc.elim (fun h => hquote h.symm) (by decide)
    simpa using hne.symm
  split
  · simp
  split
  · simp
  split
  · simp
  split
  · next hne _ _ _ => simpa using Ne.symm hne
  split
  · simp [hhex]
  split <;> simp [hhex]

theorem newline_not_mem_quoted (text : String) : '\n' ∉ (quoted text).toList := by
  have hquote : quoteFor text.toList ≠ '\n' := by
    unfold quoteFor
    split <;> decide
  have hchars : ∀ c, '\n' ∉ quotedChar (quoteFor text.toList) c :=
    newline_not_mem_quotedChar hquote
  rw [quoted, String.toList_ofList, quotedChars]
  simp [hquote.symm, hchars]

end Text

theorem TokenKind.newline_not_mem_name {kind : TokenKind} (h : kind.isLegal) :
    '\n' ∉ kind.name.toList := by
  cases kind with
  | illegal | other => cases h
  | _ => decide

/-! ### Tokens -/

def Token.SpansLines (t : Token) : Prop := t.kind = .string ∧ '\n' ∈ t.literal.toList

instance (t : Token) : Decidable t.SpansLines :=
  inferInstanceAs (Decidable (t.kind = .string ∧ '\n' ∈ t.literal.toList))

namespace Lexer

variable {l : Lexeme} {text rest : List Char}

theorem Spelled.isLegal [Text.Alphabet] (h : Spelled l text rest) (hkind : l.kind ≠ .illegal) :
    l.kind.isLegal := by
  cases h with
  | char hchar =>
    unfold TokenKind.ofChar? at hchar
    split at hchar <;> cases hchar <;> rfl
  | word =>
    change (TokenKind.ofWord _).isLegal
    unfold TokenKind.ofWord
    repeat' split
    all_goals rfl
  | large | illegal => exact absurd rfl hkind
  | _ => rfl

theorem Spelled.eq_string [Text.Alphabet] (h : Spelled l text rest) (hkind : l.kind ≠ .illegal)
    (hnewline : '\n' ∈ l.literal.toList) : l.kind = .string := by
  cases h with
  | equal | notEqual => exact absurd hnewline (by decide)
  | char hchar =>
    rw [String.toList_ofList, List.mem_singleton] at hnewline
    subst hnewline
    cases hchar
  | word _ hletters =>
    rw [String.toList_ofList] at hnewline
    have hletter := hletters _ hnewline
    rw [isLetter_of_isSkipped (by decide)] at hletter
    cases hletter
  | number _ hdigits =>
    rw [String.toList_ofList] at hnewline
    exact absurd (hdigits _ hnewline) (by decide)
  | large | illegal => exact absurd rfl hkind
  | closed | unclosed => rfl

theorem Tiled.exists_spelled [Text.Alphabet] {before : List Char} {ts : List Token} {ending : Token}
    (h : Tiled before text ts ending) : ∀ t ∈ ts, ∃ text rest, Spelled t.lexeme text rest := by
  induction h with
  | done => exact List.forall_mem_nil _
  | token _ hspelled _ _ _ ih => exact List.forall_mem_cons.mpr ⟨⟨_, _, hspelled⟩, ih⟩

end Lexer

theorem Token.newline_mem_describe [Text.Alphabet] {t : Token} {text rest : List Char}
    (h : Lexer.Spelled t.lexeme text rest) (hkind : t.kind ≠ .illegal) :
    '\n' ∈ t.describe.toList ↔ t.SpansLines := by
  have hname : '\n' ∉ t.kind.name.toList := TokenKind.newline_not_mem_name (h.isLegal hkind)
  have hstring : '\n' ∈ t.literal.toList → t.kind = .string := h.eq_string hkind
  unfold describe SpansLines
  split
  · simp only [String.toList_append, List.mem_append]
    constructor
    · intro hnewline
      have hliteral : '\n' ∈ t.literal.toList := by
        simpa [hname] using hnewline
      exact ⟨hstring hliteral, hliteral⟩
    · exact fun hspans => Or.inl (Or.inr hspans.2)
  · next hpayload =>
    refine iff_of_false hname fun hspans => ?_
    rw [hspans.1] at hpayload
    exact hpayload rfl

/-! ### Diagnostics -/

namespace Diagnostic

theorem newline_mem_located (line column : Nat) (cause : String) :
    '\n' ∈ (located line column cause).toList ↔ '\n' ∈ cause.toList := by
  have hdigits : ∀ n, '\n' ∉ Nat.toDigits 10 n :=
    fun n => newline_not_mem_toDigits 10 n (by decide)
  simp [located, hdigits]

theorem newline_not_mem_illegalCharacter (token : Token) :
    '\n' ∉ (illegalCharacter token).toList := by
  have hstart : '\n' ∉ "illegal character ".toList := by decide
  have hquoted := Text.newline_not_mem_quoted token.literal
  have htext : illegalCharacter token = "illegal character " ++ Text.quoted token.literal := rfl
  rw [htext, String.toList_append, List.mem_append]
  exact fun h => h.elim hstart hquoted

theorem newline_mem_cause {d : Diagnostic} (hfits : d.Fits) :
    '\n' ∈ d.cause.toList ↔ d.token.kind ≠ .illegal ∧ '\n' ∈ d.token.describe.toList := by
  have hillegal := newline_not_mem_illegalCharacter d.token
  obtain ⟨fault, token⟩ := d
  cases fault with
  | noRule =>
    unfold cause
    by_cases hkind : token.kind = .illegal
    · simp [hkind, hillegal]
    · simp [hkind]
  | unexpected wanted =>
    have hname := TokenKind.newline_not_mem_name hfits.2
    unfold cause
    by_cases hkind : token.kind = .illegal
    · simp [hkind, hillegal]
    · simp [hkind, hname]
  | notInteger => cases hfits

theorem newline_mem_message {d : Diagnostic} (hfits : d.Fits)
    (htoken : d.token.kind ≠ .illegal → ('\n' ∈ d.token.describe.toList ↔ d.token.SpansLines)) :
    '\n' ∈ d.message.toList ↔ d.token.SpansLines := by
  have hmessage : '\n' ∈ d.message.toList ↔ '\n' ∈ d.cause.toList :=
    newline_mem_located d.token.line d.token.column d.cause
  rw [hmessage, newline_mem_cause hfits]
  constructor
  · rintro ⟨hkind, hnewline⟩
    exact (htoken hkind).mp hnewline
  · intro hspans
    have hkind : d.token.kind ≠ .illegal := by
      rw [hspans.1]
      decide
    exact ⟨hkind, (htoken hkind).mpr hspans⟩

end Diagnostic

theorem newline_mem_message_of_parse [Text.Alphabet] {source : String} {parsed : Parsed}
    (h : parse source = .ok parsed) :
    ∀ d ∈ parsed.diagnostics, '\n' ∈ d.message.toList ↔ d.token.SpansLines := by
  obtain ⟨hwhole, hdiagnostics⟩ := recordedDiagnostics_of_parse h
  intro d hd
  rw [hdiagnostics] at hd
  refine Diagnostic.newline_mem_message (fits_recordedDiagnostics source d hd) fun hkind => ?_
  rcases token_mem_of_recorded hd with htoken | ⟨-, hending⟩
  · have hscan : Lexer.scan source =
        { tokens := (Lexer.scan source).tokens, ending := (Lexer.scan source).ending } := by
      rw [← hwhole]
    have htiled := Lexer.scan_eq_iff_tiled.mp hscan
    obtain ⟨text, rest, hspelled⟩ := htiled.exists_spelled d.token htoken
    exact Token.newline_mem_describe hspelled hkind
  · have heof : d.token.kind = .eof := hending ▸ (supplies_ofScan source).ending_eof
    have hdescribe : d.token.describe = "EOF" := by
      simp [Token.describe, heof, TokenKind.hasPayload, TokenKind.name]
    rw [hdescribe]
    refine iff_of_false (by decide) fun hspans => ?_
    cases heof.symm.trans hspans.1

/-! ### Reports -/

def textLines (text : String) : List String := (text.toList.splitOn '\n').map String.ofList

/-- The diagnostics of a report: every line but the first, without the two spaces before it. -/
def reportedIn (report : String) : List String :=
  (textLines report).tail.map fun line => String.ofList (line.toList.drop 2)

theorem not_mem_of_mem_splitOn {x : Char} {cs piece : List Char} (h : piece ∈ cs.splitOn x) :
    x ∉ piece := by
  induction cs generalizing piece with
  | nil =>
    rw [List.splitOn_nil, List.mem_singleton] at h
    simp [h]
  | cons c cs ih =>
    rw [List.splitOn_cons_eq_if_modifyHead] at h
    split at h
    · rcases List.mem_cons.mp h with rfl | h
      · exact List.not_mem_nil
      · exact ih h
    · next hc =>
      obtain ⟨first, later, hpieces⟩ := List.exists_cons_of_ne_nil (List.splitOn_ne_nil x cs)
      rw [hpieces, List.modifyHead_cons] at h
      rcases List.mem_cons.mp h with rfl | h
      · have hfirst : x ∉ first := ih (hpieces ▸ List.mem_cons_self)
        grind
      · exact ih (hpieces ▸ List.mem_cons_of_mem _ h)

theorem textLines_intercalate {lines : List String} (hne : lines ≠ []) :
    textLines ("\n".intercalate lines) = lines ↔ ∀ line ∈ lines, '\n' ∉ line.toList := by
  rw [textLines, String.toList_intercalate]
  constructor
  · intro h line hline
    rw [← h] at hline
    obtain ⟨piece, hpiece, rfl⟩ := List.mem_map.mp hline
    rw [String.toList_ofList]
    exact not_mem_of_mem_splitOn hpiece
  · intro h
    have hsplit : (['\n'].intercalate (lines.map String.toList)).splitOn '\n' =
        lines.map String.toList :=
      List.splitOn_intercalate '\n' (by simpa using h) (by simpa using hne)
    have hnewline : "\n".toList = ['\n'] := rfl
    rw [hnewline, hsplit, List.map_map]
    simp

theorem newline_mem_malformedLines {messages : List String} {filename : String}
    (hfilename : '\n' ∉ filename.toList) :
    (∀ line ∈ Failure.malformedLines messages filename, '\n' ∉ line.toList) ↔
      ∀ message ∈ messages, '\n' ∉ message.toList := by
  simp [Failure.malformedLines, hfilename]

theorem reportedIn_of_textLines {report filename : String} {messages : List String}
    (h : textLines report = Failure.malformedLines messages filename) :
    reportedIn report = messages := by
  have hdrop : ∀ message : String, String.ofList (("  " ++ message).toList.drop 2) = message := by
    intro message
    rw [String.toList_append]
    exact String.ofList_toList
  rw [reportedIn, h, Failure.malformedLines, List.tail_cons, List.map_map]
  exact (List.map_congr_left fun message _ => hdrop message).trans (List.map_id' messages)

theorem parseClean_eq_failed [Text.Alphabet] {source filename : String} {failure : Failure}
    (h : parseClean source filename = .error (.failed failure)) :
    ∃ parsed, parse source = .ok parsed ∧ parsed.diagnostics ≠ [] ∧
      failure = .malformed parsed.messages filename := by
  unfold parseClean at h
  split at h
  · cases h
  · next parsed hparsed =>
    split at h
    · next herrors =>
      cases h
      refine ⟨parsed, hparsed, fun hnil => ?_, rfl⟩
      simp [Parsed.hasErrors, hnil] at herrors
    · cases h

/-- The report on a source that is refused has a header and one line for each diagnostic, from
which the diagnostics can be read back, exactly if no diagnostic is about a text over several lines.
Only such a diagnostic has a newline in it. -/
theorem report_lines_unless_text_spans_lines [Text.Alphabet] {source filename : String}
    {failure : Failure} (hfilename : '\n' ∉ filename.toList)
    (h : parseClean source filename = .error (.failed failure)) :
    ∃ parsed, parse source = .ok parsed ∧ parsed.diagnostics ≠ [] ∧
      failure = .malformed parsed.messages filename ∧
      (∀ d ∈ parsed.diagnostics, '\n' ∈ d.message.toList ↔ d.token.SpansLines) ∧
      (textLines failure.formatted = Failure.malformedLines parsed.messages filename ↔
        ∀ d ∈ parsed.diagnostics, ¬ d.token.SpansLines) ∧
      ((∀ d ∈ parsed.diagnostics, ¬ d.token.SpansLines) →
        reportedIn failure.formatted = parsed.messages) := by
  obtain ⟨parsed, hparsed, hdiagnostics, rfl⟩ := parseClean_eq_failed h
  have hnewline := newline_mem_message_of_parse hparsed
  have hmessages : (∀ message ∈ parsed.messages, '\n' ∉ message.toList) ↔
      ∀ d ∈ parsed.diagnostics, ¬ d.token.SpansLines := by
    rw [Parsed.messages, List.forall_mem_map]
    exact forall₂_congr fun d hd => not_congr (hnewline d hd)
  have hlines : textLines (Failure.malformed parsed.messages filename).formatted =
      Failure.malformedLines parsed.messages filename ↔
        ∀ d ∈ parsed.diagnostics, ¬ d.token.SpansLines :=
    calc
      _ ↔ ∀ line ∈ Failure.malformedLines parsed.messages filename, '\n' ∉ line.toList :=
        textLines_intercalate (List.cons_ne_nil _ _)
      _ ↔ ∀ message ∈ parsed.messages, '\n' ∉ message.toList := newline_mem_malformedLines hfilename
      _ ↔ _ := hmessages
  exact ⟨parsed, hparsed, hdiagnostics, rfl, hnewline, hlines,
    fun hnone => reportedIn_of_textLines (hlines.mpr hnone)⟩

theorem report_lines_unless_text_spans_lines_quoted :
    let messages := ["Line 1:5 - expected next token to be IDENT, got STRING(a b) instead",
      "Line 2:1 - illegal character '\\u2028'", "Line 2:3 - no parse rule for token )"]
    let failure := Failure.malformed messages "program.monkey"
    '\n' ∉ "program.monkey".toList ∧
      parseClean "let \"a b\" 5;\n\u2028 )" "program.monkey" = .error (.failed failure) ∧
      textLines failure.formatted = Failure.malformedLines messages "program.monkey" ∧
      reportedIn failure.formatted = messages := by
  intro messages failure
  have hfilename : '\n' ∉ "program.monkey".toList := by decide
  have hfailed : parseClean "let \"a b\" 5;\n\u2028 )" "program.monkey" =
      .error (.failed failure) := rfl
  have hnone : ∀ parsed ∈ (parse "let \"a b\" 5;\n\u2028 )").toOption,
      ∀ d ∈ parsed.diagnostics, ¬ d.token.SpansLines := by decide +kernel
  obtain ⟨parsed, hparsed, -, hfailure, -, hlines, hread⟩ :=
    report_lines_unless_text_spans_lines hfilename hfailed
  have hmessages : parsed.messages = messages := (Failure.malformed.inj hfailure).1.symm
  rw [hparsed] at hnone
  rw [hmessages] at hlines hread
  exact ⟨hfilename, hfailed, hlines.mpr (hnone parsed rfl), hread (hnone parsed rfl)⟩

/-- One diagnostic about a text over two lines takes up two lines of the report, and is read back as
two. -/
theorem report_of_broken_text :
    let message := "Line 1:5 - expected next token to be IDENT, got STRING(a\nb) instead"
    let failure := Failure.malformed [message] Failure.defaultFilename
    parseClean "let \"a\nb\"" Failure.defaultFilename = .error (.failed failure) ∧
      '\n' ∉ Failure.defaultFilename.toList ∧ '\n' ∈ message.toList ∧
      textLines failure.formatted = ["parser errors in <stdin>:",
        "  Line 1:5 - expected next token to be IDENT, got STRING(a", "b) instead"] ∧
      reportedIn failure.formatted ≠ [message] := by
  exact ⟨rfl, by decide, by decide, by decide +kernel, by decide +kernel⟩

end MonkeyLang

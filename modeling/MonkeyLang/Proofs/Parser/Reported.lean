import Mathlib.Data.List.Nodup
import MonkeyLang.Proofs.Lexer.Lexes
import MonkeyLang.Proofs.Lexer.Places
import MonkeyLang.Proofs.Parser.Conforming

/-!
The diagnostics of a source. Every illegal token is reported, what is reported as illegal is such a
token, and the diagnostics stand in the order of the source, with at most two of them for one token.
Where the scan of a source breaks off, this holds of the diagnostics recorded until then.
-/
namespace MonkeyLang

open MonkeyLang.Lexer (Further)

/-! ### The texts of diagnostics -/

theorem toDigits_append_inj {x : Char} (hx : x.isDigit = false) {m n : Nat} {cs ds : List Char}
    (h : Nat.toDigits 10 m ++ x :: cs = Nat.toDigits 10 n ++ x :: ds) : m = n ∧ cs = ds := by
  have hdigits : ∀ (k : Nat) (rest : List Char),
      (Nat.toDigits 10 k ++ x :: rest).takeWhile Char.isDigit = Nat.toDigits 10 k := by
    intro k rest
    rw [List.takeWhile_append_of_pos
      fun c hc => Nat.isDigit_of_mem_toDigits (by decide) (by decide) hc]
    simp [hx]
  have hsame := congrArg (List.takeWhile Char.isDigit) h
  rw [hdigits, hdigits] at hsame
  have hmn : m = n := by
    rw [← digitsValue_toDigits m, hsame, digitsValue_toDigits]
  subst hmn
  exact ⟨rfl, (List.cons.inj (List.append_cancel_left h)).2⟩

namespace Diagnostic

def located (line column : Nat) (cause : String) : String :=
  "Line " ++ toString line ++ ":" ++ toString column ++ " - " ++ cause

theorem message_eq (d : Diagnostic) : d.message = located d.token.line d.token.column d.cause := rfl

theorem located_inj {l l' c c' : Nat} {cause cause' : String}
    (h : located l c cause = located l' c' cause') : l = l' ∧ c = c' ∧ cause = cause' := by
  have hchars := congrArg String.toList h
  simp only [located, Nat.toString_eq_ofList_toDigits, String.toList_append, String.toList_ofList,
    List.append_assoc] at hchars
  obtain ⟨rfl, hcolumn⟩ := toDigits_append_inj (x := ':') (by decide)
    (List.append_cancel_left hchars)
  obtain ⟨rfl, hcause⟩ := toDigits_append_inj (x := ' ') (by decide) hcolumn
  have hrest : ['-', ' '] ++ cause.toList = ['-', ' '] ++ cause'.toList := hcause
  exact ⟨rfl, rfl, String.toList_injective (List.append_cancel_left hrest)⟩

theorem append_ne_append {a b : String} (ha : a.toList ≠ []) (hb : b.toList ≠ [])
    (hne : a.toList.head? ≠ b.toList.head?) (x y : String) : a ++ x ≠ b ++ y := by
  intro h
  have hhead := congrArg (fun text => text.toList.head?) h
  simp only [String.toList_append, List.head?_append_of_ne_nil _ ha,
    List.head?_append_of_ne_nil _ hb] at hhead
  exact hne hhead

theorem illegal_of_cause {d : Diagnostic} {rest : String}
    (h : d.cause = "illegal character " ++ rest) :
    d.token.kind = .illegal ∧ rest = Text.quoted d.token.literal := by
  have hillegal : illegalCharacter d.token = "illegal character " ++ rest →
      rest = Text.quoted d.token.literal := fun heq => (String.append_right_inj _).mp heq.symm
  unfold cause at h
  split at h
  · split at h
    · next hkind => exact ⟨hkind, hillegal h⟩
    · exact absurd h (append_ne_append (by decide) (by decide) (by decide) _ _)
  · split at h
    · next hkind => exact ⟨hkind, hillegal h⟩
    · rw [String.append_assoc, String.append_assoc, String.append_assoc] at h
      exact absurd h (append_ne_append (by decide) (by decide) (by decide) _ _)
  · rw [String.append_assoc] at h
    exact absurd h (append_ne_append (by decide) (by decide) (by decide) _ _)

theorem Fits.cause_cases {d : Diagnostic} (h : d.Fits) :
    d.token.kind = .illegal ∧ d.cause = illegalCharacter d.token ∨
      d.token.kind ≠ .illegal ∧ d.fault = .noRule ∧ d.token.kind.opens = false ∧
        d.cause = "no parse rule for token " ++ d.token.describe ∨
      d.token.kind ≠ .illegal ∧ ∃ wanted, d.fault = .unexpected wanted ∧ d.token.kind ≠ wanted ∧
        d.cause = "expected next token to be " ++ wanted.name ++ ", got " ++ d.token.describe ++
          " instead" := by
  obtain ⟨fault, token⟩ := d
  by_cases hkind : token.kind = .illegal
  · left
    cases fault with
    | noRule => exact ⟨hkind, if_pos hkind⟩
    | unexpected wanted => exact ⟨hkind, if_pos hkind⟩
    | notInteger => cases h
  · right
    cases fault with
    | noRule => exact Or.inl ⟨hkind, rfl, h, if_neg hkind⟩
    | unexpected wanted => exact Or.inr ⟨hkind, wanted, rfl, h.1, if_neg hkind⟩
    | notInteger => cases h

end Diagnostic

/-! ### The diagnostics that are recorded -/

theorem Token.isBefore_iff {a b : Token} : a.isBefore b ↔ Further 1 a.place b.place := by
  simp only [isBefore, Further, place, Bool.or_eq_true, Bool.and_eq_true, decide_eq_true_eq]
  omega

theorem Token.isBefore_asymm {a b : Token} (h : a.isBefore b) : b.isBefore a = false := by
  simp [isBefore] at h ⊢
  omega

theorem Diagnostic.isRecordedBy_of_isBefore {d : Diagnostic} {last : Token}
    (h : d.token.isBefore last) : d.isRecordedBy last := by
  unfold isRecordedBy
  split
  · rw [Token.isBefore_asymm h]
    rfl
  · exact h

theorem Diagnostic.not_isRecordedBy_of_isBefore {d : Diagnostic} {last : Token}
    (h : last.isBefore d.token) : d.isRecordedBy last = false := by
  unfold isRecordedBy
  split
  · rw [h]
    rfl
  · exact Token.isBefore_asymm h

theorem exists_parse_of_whole [Text.Alphabet] {source : String}
    (h : (Lexer.scan source).oversized = none) : ∃ parsed, parse source = .ok parsed :=
  ⟨_, parse_eq_ok.mpr ⟨h, rfl⟩⟩

theorem recordedDiagnostics_of_parse [Text.Alphabet] {source : String} {parsed : Parsed}
    (h : parse source = .ok parsed) :
    (Lexer.scan source).oversized = none ∧
      parsed.diagnostics = recordedDiagnostics (Lexer.scan source) := by
  obtain ⟨hoversized, rfl⟩ := parse_eq_ok.mp h
  refine ⟨hoversized, ?_⟩
  unfold recordedDiagnostics
  rw [hoversized]

theorem recordedDiagnostics_sublist (found : Lexer.Scan) :
    (recordedDiagnostics found).Sublist (parseScan found).diagnostics := by
  unfold recordedDiagnostics
  dsimp only
  split
  · exact List.Sublist.refl _
  · exact List.nil_sublist _
  · exact List.filter_sublist

theorem mem_recordedDiagnostics {found : Lexer.Scan} {d : Diagnostic} :
    d ∈ recordedDiagnostics found ↔ d ∈ (parseScan found).diagnostics ∧
      (found.oversized = none ∨ ∃ last ∈ found.tokens.getLast?, d.isRecordedBy last) := by
  unfold recordedDiagnostics
  dsimp only
  split
  · next hoversized => simp [hoversized]
  · next hoversized hlast => simp [hoversized, hlast]
  · next hoversized hlast => simp [hoversized, hlast]

section Source

variable [Text.Alphabet] (source : String)

theorem further_tokens : ((Lexer.scan source).tokens ++ [(Lexer.scan source).ending]).Pairwise
    fun a b => Further 1 a.place b.place :=
  (Lexer.further_scanWithin _ _).2

theorem fits_parseScan : ∀ d ∈ (parseScan (Lexer.scan source)).diagnostics, d.Fits := by
  obtain ⟨_, _, _, -, -, -, hpasses⟩ := passes_parseScan source
  exact hpasses.fits

theorem fits_recordedDiagnostics : ∀ d ∈ recordedDiagnostics (Lexer.scan source), d.Fits :=
  fun d hd => fits_parseScan source d ((recordedDiagnostics_sublist _).subset hd)

theorem pairwise_recordedDiagnostics : (recordedDiagnostics (Lexer.scan source)).Pairwise
    (Diagnostic.Precedes fun a b => Further 1 a.place b.place) := by
  obtain ⟨_, _, _, -, -, -, hpasses⟩ := passes_parseScan source
  have hall := hpasses.pairwise (supplies_ofScan source).toHolds (further_tokens source)
  exact hall.sublist (recordedDiagnostics_sublist _)

variable {source} {d : Diagnostic} {t : Token}

theorem isBefore_getLast {last : Token} (ht : t ∈ (Lexer.scan source).tokens)
    (hlast : last ∈ (Lexer.scan source).tokens.getLast?) (hne : t ≠ last) : t.isBefore last := by
  obtain ⟨init, hinit⟩ := List.getLast?_eq_some_iff.mp hlast
  have hpairwise := (List.pairwise_append.mp (further_tokens source)).1
  rw [hinit] at ht hpairwise
  rw [List.mem_append, List.mem_singleton] at ht
  have hmem := ht.resolve_right hne
  exact Token.isBefore_iff.mpr
    ((List.pairwise_append.mp hpairwise).2.2 t hmem last (List.mem_singleton_self _))

theorem not_isRecordedBy_ending {last : Token}
    (hlast : last ∈ (Lexer.scan source).tokens.getLast?)
    (h : d.token = (Lexer.scan source).ending) : d.isRecordedBy last = false := by
  have hpairwise := (List.pairwise_append.mp (further_tokens source)).2.2
  have hlater := hpairwise last (List.mem_of_getLast? hlast) _ (List.mem_singleton_self _)
  apply Diagnostic.not_isRecordedBy_of_isBefore
  rw [h]
  exact Token.isBefore_iff.mpr hlater

/-- Where the scan broke off, the end of input is not reported. -/
theorem token_mem_of_recorded (h : d ∈ recordedDiagnostics (Lexer.scan source)) :
    d.token ∈ (Lexer.scan source).tokens ∨
      (Lexer.scan source).oversized = none ∧ d.token = (Lexer.scan source).ending := by
  obtain ⟨_, _, _, -, -, -, hpasses⟩ := passes_parseScan source
  obtain ⟨hmem, hrecorded⟩ := mem_recordedDiagnostics.mp h
  have htoken := hpasses.token_mem (supplies_ofScan source).toHolds d hmem
  rcases List.mem_append.mp htoken with htoken | htoken
  · exact Or.inl htoken
  have hending : d.token = (Lexer.scan source).ending := List.mem_singleton.mp htoken
  rcases hrecorded with hwhole | ⟨last, hlast, hrecorded⟩
  · exact Or.inr ⟨hwhole, hending⟩
  · rw [not_isRecordedBy_ending hlast hending] at hrecorded
    exact absurd hrecorded Bool.false_ne_true

theorem exists_report_of_illegal (ht : t ∈ (Lexer.scan source).tokens) (hkind : t.kind = .illegal)
    (hcut : (Lexer.scan source).oversized = none ∨ (Lexer.scan source).tokens.getLast? ≠ some t) :
    ∃ d ∈ recordedDiagnostics (Lexer.scan source), d.token = t := by
  obtain ⟨_, u, _, -, -, hu, hpasses⟩ := passes_parseScan source
  obtain ⟨taken, us, hsplit, hus, -, hreported⟩ :=
    hpasses.exists_taken (supplies_ofScan source).toHolds
  obtain rfl := hus.eq_nil_of_next hu.next_kind
  rw [List.append_nil] at hsplit
  obtain ⟨d, hd, rfl⟩ := hreported t (hsplit ▸ ht) hkind
  refine ⟨d, mem_recordedDiagnostics.mpr ⟨hd, ?_⟩, rfl⟩
  refine hcut.imp_right fun hne => ?_
  cases hlast : (Lexer.scan source).tokens.getLast? with
  | none =>
    rw [List.getLast?_eq_none_iff.mp hlast] at ht
    exact absurd ht List.not_mem_nil
  | some last =>
    have hother : d.token ≠ last := fun h => hne (hlast.trans (congrArg some h.symm))
    exact ⟨last, rfl, Diagnostic.isRecordedBy_of_isBefore (isBefore_getLast ht hlast hother)⟩

theorem eq_of_place_eq {a b : Token}
    (ha : a ∈ (Lexer.scan source).tokens ++ [(Lexer.scan source).ending])
    (hb : b ∈ (Lexer.scan source).tokens ++ [(Lexer.scan source).ending])
    (h : a.place = b.place) : a = b := by
  have hnodup : (((Lexer.scan source).tokens ++ [(Lexer.scan source).ending]).map
      Token.place).Nodup :=
    List.pairwise_map.mpr ((further_tokens source).imp fun hfurther => hfurther.ne)
  exact List.inj_on_of_nodup_map hnodup ha hb h

theorem countP_recordedDiagnostics_le_one (ht : t ∈ (Lexer.scan source).tokens)
    {p : Diagnostic → Bool} (htoken : ∀ d, p d → d.token = t)
    (hfault : ∀ a b, p a → p b → a.fault = .noRule ∨ b.fault ≠ .noRule) :
    (recordedDiagnostics (Lexer.scan source)).countP p ≤ 1 := by
  have hpairwise := (pairwise_recordedDiagnostics source).filter p
  rw [List.countP_eq_length_filter]
  match hfound : (recordedDiagnostics (Lexer.scan source)).filter p with
  | [] => exact Nat.zero_le 1
  | [_] => exact Nat.le_refl 1
  | a :: b :: rest =>
    have hmem : ∀ d ∈ a :: b :: rest, p d := fun d hd => (List.mem_filter.mp (hfound ▸ hd)).2
    have ha := hmem a (by simp)
    have hb := hmem b (by simp)
    rw [hfound] at hpairwise
    rcases (List.pairwise_cons.mp hpairwise).1 b (by simp) with
      hfurther | ⟨-, heof | ⟨hrule, hrule'⟩⟩
    · rw [htoken a ha, htoken b hb] at hfurther
      exact absurd rfl hfurther.ne
    · rw [htoken a ha] at heof
      exact absurd heof ((supplies_ofScan source).before_eof t ht)
    · rcases hfault a b ha hb with h | h
      · exact absurd h hrule
      · exact absurd hrule' h

end Source

/-- Whatever the source, every illegal token of it is reported at its own place with its own text,
and nothing else is reported as illegal. A source is parsed unless a run of digits breaks off its
scan, and only the token right before that run may go unreported. -/
theorem illegal_tokens_reported [Text.Alphabet] (source : String) :
    let found := Lexer.scan source
    let messages := (recordedDiagnostics found).map Diagnostic.message
    (found.oversized = none → ∃ parsed, parse source = .ok parsed) ∧
    (∀ parsed, parse source = .ok parsed →
      found.oversized = none ∧ parsed.messages = messages) ∧
    (∀ t ∈ found.tokens, t.kind = .illegal →
      found.oversized = none ∨ found.tokens.getLast? ≠ some t →
      Diagnostic.located t.line t.column ("illegal character " ++ Text.quoted t.literal)
        ∈ messages) ∧
    ∀ line column rest,
      Diagnostic.located line column ("illegal character " ++ rest) ∈ messages →
      ∃ t ∈ found.tokens, t.kind = .illegal ∧ t.line = line ∧ t.column = column ∧
        rest = Text.quoted t.literal := by
  intro found messages
  refine ⟨exists_parse_of_whole, fun parsed hparsed => ?_, fun t ht hkind hcut => ?_,
    fun line column rest hmem => ?_⟩
  · obtain ⟨hwhole, hdiagnostics⟩ := recordedDiagnostics_of_parse hparsed
    exact ⟨hwhole, congrArg (List.map Diagnostic.message) hdiagnostics⟩
  · obtain ⟨d, hd, rfl⟩ := exists_report_of_illegal ht hkind hcut
    refine List.mem_map.mpr ⟨d, hd, ?_⟩
    rcases (fits_recordedDiagnostics source d hd).cause_cases with ⟨-, hcause⟩ | ⟨hne, -⟩ | ⟨hne, -⟩
    · rw [d.message_eq, hcause]
      rfl
    · exact absurd hkind hne
    · exact absurd hkind hne
  · obtain ⟨d, hd, hmessage⟩ := List.mem_map.mp hmem
    obtain ⟨hline, hcolumn, hcause⟩ := Diagnostic.located_inj (d.message_eq.symm.trans hmessage)
    obtain ⟨hkind, hrest⟩ := Diagnostic.illegal_of_cause hcause
    refine ⟨d.token, ?_, hkind, hline, hcolumn, hrest⟩
    rcases token_mem_of_recorded hd with htoken | ⟨-, hending⟩
    · exact htoken
    · have heof := (supplies_ofScan source).ending_eof
      rw [hending] at hkind
      exact absurd (hkind.symm.trans heof) (by decide)

theorem illegal_tokens_reported_in_place_of_name :
    ∃ t ∈ (Lexer.scan "let @ = 5;").tokens, t.kind = .illegal ∧ t.place = (1, 5) ∧
      (Lexer.scan "let @ = 5;").oversized = none ∧
      Diagnostic.located t.line t.column ("illegal character " ++ Text.quoted t.literal) ∈
        (recordedDiagnostics (Lexer.scan "let @ = 5;")).map Diagnostic.message := by
  have hmem : (⟨.illegal, "@", 1, 5⟩ : Token) ∈ (Lexer.scan "let @ = 5;").tokens :=
    .tail _ (.head _)
  have hwhole : (Lexer.scan "let @ = 5;").oversized = none := rfl
  have hreported := (illegal_tokens_reported "let @ = 5;").2.2.1 _ hmem rfl (Or.inl hwhole)
  exact ⟨_, hmem, rfl, rfl, hwhole, hreported⟩

theorem scan_of_long_run [Text.Alphabet] {run : List Char} (hdigits : ∀ x ∈ run, x.isDigit)
    (hlong : Text.maxDigits < run.length) :
    Lexer.scan (String.ofList ('@' :: ' ' :: run)) =
      { tokens := [⟨.illegal, "@", 1, 1⟩]
        ending := ⟨.eof, "", 1, 3⟩
        oversized := some ⟨run.length⟩ } := by
  have hletter : Text.isLetter '@' = false := Text.isLetter_of_lt (by decide)
  generalize hc : Lexer.Cursor.start ('@' :: ' ' :: run) = c
  have hfirst : c.next = .ok (⟨.illegal, "@", 1, 1⟩, c.advance) := by
    rw [← hc, Lexer.Cursor.next_eq_tokenAt rfl rfl]
    simp [Lexer.Cursor.tokenAt, TokenKind.ofChar?, hletter, Lexer.Cursor.token,
      Lexer.Cursor.start]
  have hrest : c.advance.rest = ' ' :: run := by rw [← hc]; rfl
  obtain ⟨hskip, hsecond⟩ := Lexer.Cursor.next_of_long_run hrest rfl hdigits hlong
  simp only [Lexer.scan, String.toList_ofList, List.length_cons, Lexer.scanWithin, hc, hfirst,
    hsecond, hskip]
  rw [← hc]
  rfl

/-- Too many digits behind an illegal token: the source is not parsed, and nothing is reported. -/
theorem illegal_token_before_long_run :
    ∃ source, source = String.ofList ('@' :: ' ' :: List.replicate 4301 '1') ∧
      parse source = .error ⟨4301⟩ ∧
      (⟨.illegal, "@", 1, 1⟩ : Token) ∈ (Lexer.scan source).tokens ∧
      recordedDiagnostics (Lexer.scan source) = [] := by
  have hlength : (List.replicate 4301 '1').length = 4301 := List.length_replicate
  have hdigits : ∀ x ∈ List.replicate 4301 '1', x.isDigit := by
    intro x hx
    rw [List.eq_of_mem_replicate hx]
    rfl
  have hscan := scan_of_long_run hdigits (by rw [hlength]; decide)
  rw [hlength] at hscan
  refine ⟨_, rfl, ?_⟩
  rw [parse, hscan]
  exact ⟨rfl, List.mem_singleton_self _, rfl⟩

/-- Whatever the source, each diagnostic says one of three things about one token of it and gives
the place of that token, the diagnostics stand in the order of their tokens, and a token other than
the end of input is reported at most once because another one was wanted and at most once because
no form begins with it. -/
theorem diagnostics_in_source_order [Text.Alphabet] (source : String) :
    let found := Lexer.scan source
    let reported := recordedDiagnostics found
    (found.oversized = none → ∃ parsed, parse source = .ok parsed) ∧
    (∀ parsed, parse source = .ok parsed →
      found.oversized = none ∧ parsed.diagnostics = reported) ∧
    (∀ d ∈ reported,
      (d.token ∈ found.tokens ∨ found.oversized = none ∧ d.token = found.ending) ∧
      (∀ t ∈ found.tokens ++ [found.ending], t.place = d.token.place → t = d.token) ∧
      ∃ cause, d.message = Diagnostic.located d.token.line d.token.column cause ∧
        (d.token.kind = .illegal ∧ cause = "illegal character " ++ Text.quoted d.token.literal ∨
          d.token.kind ≠ .illegal ∧ d.fault = .noRule ∧ d.token.kind.opens = false ∧
            cause = "no parse rule for token " ++ d.token.describe ∨
          d.token.kind ≠ .illegal ∧ ∃ wanted, d.fault = .unexpected wanted ∧
            d.token.kind ≠ wanted ∧ cause = "expected next token to be " ++ wanted.name ++
              ", got " ++ d.token.describe ++ " instead")) ∧
    (reported.Pairwise fun a b => a.token = b.token ∨ a.token.isBefore b.token) ∧
    ∀ t ∈ found.tokens,
      reported.countP (fun d => d.token = t) ≤ 2 ∧
      reported.countP (fun d => d.token = t ∧ d.fault = .noRule) ≤ 1 ∧
      reported.countP (fun d => d.token = t ∧ d.fault ≠ .noRule) ≤ 1 := by
  intro found reported
  refine ⟨exists_parse_of_whole, fun parsed => recordedDiagnostics_of_parse, fun d hd => ?_, ?_,
    fun t ht => ?_⟩
  · have htoken := token_mem_of_recorded hd
    refine ⟨htoken, fun t ht hplace => eq_of_place_eq ht ?_ hplace, d.cause, d.message_eq,
      (fits_recordedDiagnostics source d hd).cause_cases⟩
    rcases htoken with htoken | ⟨-, hending⟩
    · exact List.mem_append_left _ htoken
    · exact List.mem_append_right _ (List.mem_singleton.mpr hending)
  · apply (pairwise_recordedDiagnostics source).imp
    intro a b hprecedes
    exact hprecedes.symm.imp And.left Token.isBefore_iff.mpr
  · have hrule : reported.countP (fun d => d.token = t ∧ d.fault = .noRule) ≤ 1 :=
      countP_recordedDiagnostics_le_one ht (by simp +contextual) (by simp +contextual)
    have hleft : reported.countP (fun d => d.token = t ∧ d.fault ≠ .noRule) ≤ 1 :=
      countP_recordedDiagnostics_le_one ht (by simp +contextual) (by simp +contextual)
    have hsplit : reported.countP (fun d => d.token = t) =
        reported.countP (fun d => d.token = t ∧ d.fault = .noRule) +
          reported.countP (fun d => d.token = t ∧ d.fault ≠ .noRule) := by
      rw [List.countP_eq_countP_filter_add reported _ fun d => d.fault = .noRule]
      simp [List.countP_filter]
    exact ⟨by omega, hrule, hleft⟩

theorem diagnostics_in_source_order_reported_twice :
    ∃ t ∈ (Lexer.scan "let @ = 5;").tokens,
      (recordedDiagnostics (Lexer.scan "let @ = 5;")).countP (fun d => d.token = t) = 2 ∧
      (recordedDiagnostics (Lexer.scan "let @ = 5;")).countP
        (fun d => d.token = t ∧ d.fault = .noRule) ≤ 1 ∧
      (recordedDiagnostics (Lexer.scan "let @ = 5;")).countP
        (fun d => d.token = t ∧ d.fault ≠ .noRule) ≤ 1 := by
  have hmem : (⟨.illegal, "@", 1, 5⟩ : Token) ∈ (Lexer.scan "let @ = 5;").tokens :=
    .tail _ (.head _)
  have hcounts := (diagnostics_in_source_order "let @ = 5;").2.2.2.2 _ hmem
  exact ⟨_, hmem, rfl, hcounts.2⟩

end MonkeyLang

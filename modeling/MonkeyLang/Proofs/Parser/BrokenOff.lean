import MonkeyLang.Proofs.Parser.Concurring
import MonkeyLang.Proofs.Parser.Reported

/-!
Scans that break off. What a parser has recorded when the next token cannot be read depends on the
tokens before it only, so it is found on the cut scan as well: whatever stands there, the parser
records the same before it comes to look at it.
-/
namespace MonkeyLang

open MonkeyLang.Lexer (Further)
open MonkeyLang.Parser

theorem eq_filter_append_filter {α : Type} {p : α → Bool} {l : List α}
    (h : l.Pairwise fun a b => p b → p a) : l = l.filter p ++ l.filter (!p ·) := by
  induction l with
  | nil => rfl
  | cons a l ih =>
    obtain ⟨ha, hl⟩ := List.pairwise_cons.mp h
    cases hp : p a with
    | true => simpa [hp] using ih hl
    | false =>
      have hnone : ∀ b ∈ l, p b = false := fun b hb => by
        rw [← Bool.not_eq_true]
        exact fun hb' => by simp [ha b hb hb'] at hp
      have hfilter : l.filter p = [] := List.filter_eq_nil_iff.mpr fun b hb => by simp [hnone b hb]
      have hall : l.filter (!p ·) = l := List.filter_eq_self.mpr fun b hb => by simp [hnone b hb]
      simp [hp, hfilter, hall]

theorem isRecordedBy_of_precedes {last : Token} {a b : Diagnostic}
    (h : a.Precedes (fun t u => Further 1 t.place u.place) b)
    (heof : b.token.kind = .eof → b.isRecordedBy last = false) (hb : b.isRecordedBy last) :
    a.isRecordedBy last := by
  have hle : last.isBefore b.token = false := by
    rw [← Bool.not_eq_true]
    exact fun hlater => by rw [Diagnostic.not_isRecordedBy_of_isBefore hlater] at hb; cases hb
  rcases h with hfurther | ⟨htoken, hkind | ⟨-, hrule⟩⟩
  · have hbefore := Token.isBefore_iff.mpr hfurther
    apply Diagnostic.isRecordedBy_of_isBefore
    simp only [Token.isBefore, Bool.or_eq_true, Bool.and_eq_true, decide_eq_true_eq,
      Bool.or_eq_false_iff, Bool.and_eq_false_iff, decide_eq_false_iff_not] at hbefore hle ⊢
    omega
  · rw [heof (htoken ▸ hkind)] at hb
    cases hb
  · rw [Diagnostic.isRecordedBy, hrule] at hb
    exact Diagnostic.isRecordedBy_of_isBefore (htoken ▸ hb)

namespace Lockstep

variable {L : Lockstep} {reports reports' : List Diagnostic}

theorem near_of_sameReport (h : List.Forall₂ L.SameReport reports reports') :
    ∀ d ∈ reports, ∃ m, L.near m ∧ d.token = (L.first.skip m).next := by
  induction h with
  | nil => exact List.forall_mem_nil _
  | cons hd _ ih =>
    obtain ⟨-, m, hm, htoken, -⟩ := hd
    exact List.forall_mem_cons.mpr ⟨⟨m, hm, htoken⟩, ih⟩

theorem eq_of_sameReport
    (h : ∀ i, L.near i → (L.first.skip i).next = (L.second.skip i).next)
    (hreports : List.Forall₂ L.SameReport reports reports') : reports' = reports := by
  induction hreports with
  | nil => rfl
  | @cons d d' _ _ hd _ ih =>
    obtain ⟨hfault, m, hm, htoken, htoken'⟩ := hd
    obtain ⟨fault, t⟩ := d
    obtain ⟨fault', t'⟩ := d'
    simp only at hfault htoken htoken'
    rw [ih, hfault, htoken', ← h m hm, ← htoken]

end Lockstep

theorem Stream.next_skip_of_lt {ts more : List Token} {ending : Token} {i : Nat}
    (hi : i < ts.length) : (Stream.skip ⟨ts ++ more, ending⟩ i).next = ts[i] := by
  simp [Stream.next, Stream.skip, List.headD_eq_head?_getD, List.head?_drop,
    List.getElem?_append_left hi, List.getElem?_eq_getElem hi]

theorem Stream.next_skip_of_le {ts more : List Token} {ending : Token} {i : Nat}
    (hi : ts.length ≤ i) :
    (Stream.skip ⟨ts ++ (more ++ [ending]), ending⟩ i).next ∈ more ++ [ending] := by
  rcases Stream.next_skip ⟨ts ++ (more ++ [ending]), ending⟩ i with hmem | hlast
  · rw [List.drop_append, List.drop_eq_nil_of_le hi, List.nil_append] at hmem
    exact List.mem_of_mem_drop hmem
  · rw [hlast]
    simp

/-- What is reported about the tokens that two streams begin with is the same, and comes first. -/
theorem exists_common_reports (ts more more' : List Token) {ending ending' : Token}
    (hending : ending.kind = .eof) (hending' : ending'.kind = .eof) :
    ∃ shared later later',
      (program ⟨ts ++ (more ++ [ending]), ending⟩).reports = shared ++ later ∧
      (program ⟨ts ++ (more' ++ [ending']), ending'⟩).reports = shared ++ later' ∧
      (∀ d ∈ shared, d.token ∈ ts) ∧ (∀ d ∈ later, d.token ∈ more ++ [ending]) ∧
      ∀ d ∈ later', d.token ∈ more' ++ [ending'] := by
  have hbegins : ∀ rest : List Token, ts.map Token.lexeme <+: (ts ++ rest).map Token.lexeme :=
    fun rest => ⟨rest.map Token.lexeme, List.map_append.symm⟩
  let L := Lockstep.ofPrefix ⟨ts ++ (more ++ [ending]), ending⟩
    ⟨ts ++ (more' ++ [ending']), ending'⟩ (hbegins _) (hbegins _) hending hending'
  have hnear : ∀ {i}, L.near i ↔ i < ts.length := by simp [L, Lockstep.ofPrefix]
  have hbehind : ∀ {j}, ¬ L.near j → ts.length ≤ j := fun hj => Nat.le_of_not_lt (mt hnear.mpr hj)
  by_cases hlength : 0 < ts.length
  · obtain ⟨shared, shared', later, later', hshared, hreports, hfar, hreports', hfar'⟩ :=
      L.exists_shared (hnear.mpr hlength)
    obtain rfl : shared' = shared := by
      refine Lockstep.eq_of_sameReport (fun i hi => ?_) hshared
      exact (Stream.next_skip_of_lt (hnear.mp hi)).trans
        (Stream.next_skip_of_lt (hnear.mp hi)).symm
    refine ⟨shared', later, later', hreports, hreports', fun d hd => ?_, fun d hd => ?_,
      fun d hd => ?_⟩
    · obtain ⟨m, hm, htoken⟩ := Lockstep.near_of_sameReport hshared d hd
      rw [htoken, show (L.first.skip m).next = _ from Stream.next_skip_of_lt (hnear.mp hm)]
      exact List.getElem_mem _
    · obtain ⟨j, hj, htoken⟩ := hfar d hd
      exact htoken ▸ Stream.next_skip_of_le (hbehind hj)
    · obtain ⟨j, hj, htoken⟩ := hfar' d hd
      exact htoken ▸ Stream.next_skip_of_le (hbehind hj)
  · -- No token is shared, and none but the others can be reported.
    obtain rfl := List.eq_nil_of_length_eq_zero (Nat.eq_zero_of_not_pos hlength)
    refine ⟨[], _, _, rfl, rfl, List.forall_mem_nil _, fun d hd => ?_, fun d hd => ?_⟩
    all_goals
      obtain ⟨j, htoken⟩ := (keeps_program _).2 d hd
      exact htoken ▸ Stream.next_skip_of_le (Nat.zero_le j)

section Source

variable [Text.Alphabet] {source : String} {last : Token}

theorem pairwise_isRecordedBy (hlast : last ∈ (Lexer.scan source).tokens.getLast?) :
    (parseScan (Lexer.scan source)).diagnostics.Pairwise
      fun a b => b.isRecordedBy last → a.isRecordedBy last := by
  obtain ⟨_, _, _, -, -, -, hpasses⟩ := passes_parseScan source
  have hsupplies := supplies_ofScan source
  have hpairwise := hpasses.pairwise hsupplies.toHolds (further_tokens source)
  refine hpairwise.imp_of_mem fun {a b} _ hb h => isRecordedBy_of_precedes h fun heof => ?_
  rcases List.mem_append.mp (hpasses.token_mem hsupplies.toHolds b hb) with hmem | hmem
  · exact absurd heof (hsupplies.before_eof _ hmem)
  · exact not_isRecordedBy_ending hlast (List.mem_singleton.mp hmem)

theorem of_not_isRecordedBy {d : Diagnostic} (hfits : d.Fits)
    (hlast : last ∈ (Lexer.scan source).tokens.getLast?) (ht : d.token ∈ (Lexer.scan source).tokens)
    (h : d.isRecordedBy last = false) : d.token = last ∧ d.fault = .noRule := by
  have htoken : d.token = last := by
    by_contra hne
    rw [Diagnostic.isRecordedBy_of_isBefore (isBefore_getLast ht hlast hne)] at h
    cases h
  refine ⟨htoken, ?_⟩
  obtain ⟨fault, t⟩ := d
  cases fault with
  | noRule => rfl
  | unexpected wanted =>
    obtain rfl : t = last := htoken
    simp [Diagnostic.isRecordedBy, Token.isBefore] at h
  | notInteger => cases hfits

/-- Whatever stands where the scan of a source broke off, the recorded diagnostics are reported
first. Each of the others is about a token there, or refuses the last token of the scan, which is
reported only once its successor has been read. -/
theorem recordedDiagnostics_come_first (hbroken : (Lexer.scan source).oversized ≠ none)
    (more : List Token) {ending : Token} (hending : ending.kind = .eof) :
    ∃ later, (parseScan { tokens := (Lexer.scan source).tokens ++ more, ending }).diagnostics =
        recordedDiagnostics (Lexer.scan source) ++ later ∧
      ∀ d ∈ later, d.token ∈ more ++ [ending] ∨
        d.token ∈ (Lexer.scan source).tokens.getLast? ∧ d.fault = .noRule := by
  generalize htokens : (Lexer.scan source).tokens = ts
  obtain ⟨shared, later, later', hreports, hreports', hshared, hlater, hlater'⟩ :=
    exists_common_reports ts [] more (supplies_ofScan source).ending_eof hending
  have hdiagnostics : (parseScan (Lexer.scan source)).diagnostics = shared ++ later := by
    rw [← hreports, ← htokens]
    rfl
  have hmore : (parseScan { tokens := ts ++ more, ending }).diagnostics = shared ++ later' := by
    rw [← hreports', ← List.append_assoc]
    rfl
  obtain ⟨o, ho⟩ := Option.ne_none_iff_exists'.mp hbroken
  cases hlast : ts.getLast? with
  | none =>
    obtain rfl := List.getLast?_eq_none_iff.mp hlast
    obtain rfl : shared = [] :=
      List.eq_nil_iff_forall_not_mem.mpr fun d hd => List.not_mem_nil (hshared d hd)
    refine ⟨later', ?_, fun d hd => Or.inl (hlater' d hd)⟩
    rw [hmore, recordedDiagnostics, ho, htokens]
    rfl
  | some last =>
    have hscanned : last ∈ (Lexer.scan source).tokens.getLast? := by rw [htokens, hlast]; rfl
    have hnone : later.filter (·.isRecordedBy last) = [] := by
      refine List.filter_eq_nil_iff.mpr fun d hd => ?_
      simp [not_isRecordedBy_ending hscanned (List.mem_singleton.mp (hlater d hd))]
    have hrecorded : recordedDiagnostics (Lexer.scan source) =
        shared.filter (·.isRecordedBy last) := by
      simp only [recordedDiagnostics, ho, htokens, hlast, hdiagnostics, List.filter_append, hnone,
        List.append_nil]
    have hsorted := pairwise_isRecordedBy hscanned
    rw [hdiagnostics] at hsorted
    have hsplit := eq_filter_append_filter (List.pairwise_append.mp hsorted).1
    refine ⟨shared.filter (!·.isRecordedBy last) ++ later', ?_, fun d hd => ?_⟩
    · rw [hmore, hrecorded, ← List.append_assoc, ← hsplit]
    · rcases List.mem_append.mp hd with hd | hd
      · obtain ⟨hd, hnot⟩ := List.mem_filter.mp hd
        have hmem : d.token ∈ (Lexer.scan source).tokens := htokens ▸ hshared d hd
        have hfits := fits_parseScan source d (hdiagnostics ▸ List.mem_append_left later hd)
        obtain ⟨htoken, hrule⟩ := of_not_isRecordedBy hfits hscanned hmem
          (Bool.not_eq_true' _ ▸ hnot)
        exact Or.inr ⟨htoken ▸ rfl, hrule⟩
      · exact Or.inl (hlater' d hd)

end Source

end MonkeyLang

import MonkeyLang.Proofs.Parser.Concurring

/-!
Tokens in other places. A parser decides by the lexemes of its tokens, so on moved tokens it reads
the same, and reports the same faults at the moved tokens. The statements of a program can therefore
be read on from any place, whatever was found before and however large the bound on their number is.
-/
namespace MonkeyLang

open MonkeyLang.Parser

/-- A change of the places of tokens. -/
structure Move where
  token : Token → Token
  lexeme_eq : ∀ t, (token t).lexeme = t.lexeme

namespace Move

variable {α : Type}

def refl : Move := ⟨id, fun _ => rfl⟩

variable (M : Move)

@[simp] theorem kind_token (t : Token) : (M.token t).kind = t.kind :=
  congrArg Lexeme.kind (M.lexeme_eq t)

def stream (s : Stream) : Stream := ⟨s.pending.map M.token, M.token s.ending⟩

def diagnostic (d : Diagnostic) : Diagnostic := { d with token := M.token d.token }

def outcome (o : Outcome α) : Outcome α :=
  ⟨o.value, M.stream o.rest, o.reports.map M.diagnostic⟩

theorem next_stream (s : Stream) : (M.stream s).next = M.token s.next := by
  obtain ⟨pending, ending⟩ := s
  cases pending <;> rfl

theorem skip_stream (s : Stream) (n : Nat) : (M.stream s).skip n = M.stream (s.skip n) := by
  simp [stream, Stream.skip]

theorem refl_stream (s : Stream) : refl.stream s = s := by
  simp [stream, refl]

theorem refl_diagnostic : refl.diagnostic = id := rfl

theorem refl_outcome (o : Outcome α) : refl.outcome o = o := by
  simp [outcome, refl_stream, refl_diagnostic]

def lockstep (s : Stream) (hending : s.ending.kind = .eof) : Lockstep :=
  .ofEq s (M.stream s) (by simp [stream, Function.comp_def, M.lexeme_eq]) (M.lexeme_eq _).symm
    hending

/-- A parser does on moved tokens what another one does, with the moved tokens. What is left begins
as many tokens on as are asked for, and without a value there is a report. -/
structure Concurs (least : Option α → Nat) (s : Stream) (o o' : Outcome α) : Prop where
  same : o' = M.outcome o
  later : ∃ k, least o.value ≤ k ∧ o.rest = s.skip k
  reported : o.value = none → o.reports ≠ []

variable {M} {n n' : Nat} {s : Stream} {least : Option α → Nat} {p p' : Parser α}

theorem concurs_of_tracks (hending : s.ending.kind = .eof)
    (h : (M.lockstep s hending).Tracks n n' least p p') (hn : s.pending.length ≤ n)
    (hn' : s.pending.length ≤ n') : M.Concurs least s (p s) (p' (M.stream s)) := by
  have hlength : (M.stream s).pending.length = s.pending.length := List.length_map _
  have hmeets := h.meets (i := 0) ⟨trivial, hn, Nat.le_trans (Nat.le_of_eq hlength) hn'⟩
  cases hmeets with
  | @both value reports reports' j hj _ hvalue hreports hfirst hsecond =>
    have hmoved : reports' = reports.map M.diagnostic := by
      clear hvalue hfirst hsecond
      induction hreports with
      | nil => rfl
      | @cons d d' _ _ hd _ ih =>
        obtain ⟨hfault, m, -, htoken, htoken'⟩ := hd
        have hnext : d'.token = M.token d.token := by
          rw [htoken, htoken', show (M.lockstep s hending).second = M.stream s from rfl,
            skip_stream, next_stream]
          rfl
        rw [ih, List.map_cons, diagnostic, ← hnext, ← hfault]
    have hp : p s = ⟨value, s.skip j, reports⟩ := hfirst
    have hp' : p' (M.stream s) = ⟨value, (M.stream s).skip j, reports'⟩ := hsecond
    rw [hp, hp']
    refine ⟨?_, ⟨j, Nat.le_trans (Nat.le_add_left _ 0) hj, rfl⟩, hvalue⟩
    rw [outcome, skip_stream, hmoved]
  | apart _ hfirst _ =>
    obtain ⟨j, hj, -⟩ := hfirst.rest
    exact absurd trivial hj

theorem same_of_tracks (hending : s.ending.kind = .eof)
    (h : (refl.lockstep s hending).Tracks n n' least p p') (hn : s.pending.length ≤ n)
    (hn' : s.pending.length ≤ n') : p' s = p s := by
  have hsame := (concurs_of_tracks hending h hn hn').same
  rwa [refl_stream, refl_outcome] at hsame

theorem concurs_statement (M : Move) (hending : s.ending.kind = .eof) :
    M.Concurs (fun _ => 1) s (statement expression s) (statement expression (M.stream s)) :=
  concurs_of_tracks hending (Lockstep.tracks_statement Lockstep.tracksSub_expression)
    (Nat.le_refl _) (Nat.le_refl _)

theorem exists_statementsWithin (hending : s.ending.kind = .eof) :
    ∃ (nodes : List Node) (k : Nat) (reports : List Diagnostic),
      endsProgram (s.skip k).next.kind ∧
      ∀ (M : Move) (bound : Nat) (found : List Node), s.pending.length < bound →
      loopWithin bound (statementStep Parser.expression endsProgram) found (M.stream s) =
        { value := some (found ++ nodes)
          rest := M.stream (s.skip k)
          reports := reports.map M.diagnostic } := by
  induction hlength : s.pending.length using Nat.strongRecOn generalizing s with
  | ind length ih =>
    subst hlength
    cases hends : endsProgram s.next.kind with
    | true =>
      refine ⟨[], 0, [], hends, fun M bound found hbound => ?_⟩
      have hmoved : endsProgram (M.stream s).next.kind := by rw [next_stream, kind_token, hends]
      rw [loopWithin_of_ends hmoved (Nat.zero_lt_of_lt hbound), List.append_nil]
      rfl
    | false =>
      -- A statement takes a token, so fewer are left behind it.
      obtain ⟨n, hn, hrest⟩ := (concurs_statement refl hending).later
      have hkind : (s.skip 0).next.kind ≠ .eof := of_decide_eq_false hends
      have hlt := Stream.lt_length_of_next hending hkind
      have hshorter : (s.skip n).pending.length < s.pending.length := by
        rw [Stream.length_skip]
        omega
      obtain ⟨nodes, k, reports, hstop, hloop⟩ := ih _ hshorter (s := s.skip n) hending rfl
      rw [Stream.skip_skip] at hstop
      refine ⟨(statement Parser.expression s).value.toList ++ nodes, n + k,
        (statement Parser.expression s).reports ++ reports, hstop, fun M bound found hbound => ?_⟩
      obtain ⟨bound, rfl⟩ := Nat.exists_eq_succ_of_ne_zero (Nat.ne_of_gt (Nat.zero_lt_of_lt hbound))
      have hmoved : endsProgram (M.stream s).next.kind = false := by
        rw [next_stream, kind_token, hends]
      have hstep : statementStep Parser.expression endsProgram found (M.stream s) = _ :=
        statementStep_of_not_ends hmoved
      have hsame := (concurs_statement M hending).same
      have htail := hloop M bound (found ++ (statement Parser.expression s).value.toList) (by omega)
      rw [loopWithin, bind_of_some (congrArg Outcome.value hstep), hstep, hsame]
      simp only [outcome, hrest, htail, Stream.skip_skip, List.append_assoc, List.map_append]

/-- The statements read from a stream, up to the end of input, and the reports about it are the same
whatever was found before, however large the bound is, and wherever the tokens stand. -/
theorem exists_statements (hending : s.ending.kind = .eof) :
    ∃ (nodes : List Node) (k : Nat) (reports : List Diagnostic),
      endsProgram (s.skip k).next.kind ∧
      loop (statementStep Parser.expression endsProgram) [] s =
        { value := some nodes, rest := s.skip k, reports } ∧
      ∀ (M : Move) (bound : Nat) (found : List Node), s.pending.length < bound →
      loopWithin bound (statementStep Parser.expression endsProgram) found (M.stream s) =
        { value := some (found ++ nodes)
          rest := M.stream (s.skip k)
          reports := reports.map M.diagnostic } := by
  obtain ⟨nodes, k, reports, hstop, hloop⟩ := exists_statementsWithin hending
  refine ⟨nodes, k, reports, hstop, ?_, hloop⟩
  have hunmoved := hloop refl (s.pending.length + 1) [] (Nat.lt_succ_self _)
  rwa [refl_stream, refl_stream, refl_diagnostic, List.map_id] at hunmoved

end Move

theorem Parser.program_eq {s : Stream} (hending : s.ending.kind = .eof) :
    ∃ nodes k reports, program s =
      { value := some (.program nodes), rest := s.skip (k + 1), reports } ∧
        (s.skip k).next.kind = .eof := by
  obtain ⟨nodes, k, reports, hstop, hfound, -⟩ := Move.exists_statements hending
  refine ⟨nodes, k, reports, ?_, of_decide_eq_true hstop⟩
  rw [← Stream.advance_skip]
  simp [program, statements, bind, andThen, hfound, take, pure, succeed]

end MonkeyLang

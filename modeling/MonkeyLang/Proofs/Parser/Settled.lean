import MonkeyLang.Parser.Window
import MonkeyLang.Proofs.Parser.Moved

/-!
Parsing comes to an end. The grammar nests and repeats without a bound of its own; the bounds that
the parser carries are never met, since an inner expression begins behind a token of the outer one,
and a loop that goes on has taken a token. So a number of levels and a number of rounds above the
number of tokens decide the outcome, whatever would be done beyond them.
-/
namespace MonkeyLang

namespace Parser

variable {α σ : Type} {s : Stream} {n : Nat}

/-- Rounds of a loop, with `floor` in the place of those after the given number. -/
def loopOver (floor : σ → Parser α) (step : σ → Parser (σ ⊕ α)) : Nat → σ → Parser α
  | 0, state => floor state
  | n + 1, state => do
    match ← step state with
    | .inl state => loopOver floor step n state
    | .inr result => return result

/-! ### Nesting -/

theorem tracksSub_over (hending : s.ending.kind = .eof) (floor : Sub) {depth : Nat}
    (hdepth : n < depth) :
    (Move.refl.lockstep s hending).TracksSub n n expression (expressionOver floor depth) := by
  obtain ⟨k, rfl⟩ := Nat.exists_eq_add_of_lt hdepth
  refine fun precedence => ⟨fun hj => absurd trivial hj, fun hi => ?_⟩
  rw [Nat.add_right_comm, ← expressionOver_add, expression, expressionWithin_eq]
  exact (Lockstep.tracksSub_expressionOver (fun hj => absurd trivial hj) _ n precedence).meets
    ⟨hi.near, Nat.le_refl _, hi.second_le⟩

theorem expression_eq (precedence : Nat) (hending : s.ending.kind = .eof) :
    expression precedence s = expressionForm expression precedence s := by
  let floor : Sub := fun _ => refuse .noRule
  have hover := tracksSub_over hending floor (Nat.lt_succ_self s.pending.length)
  have hmore := tracksSub_over hending floor (Nat.lt_succ_of_lt (Nat.lt_succ_self s.pending.length))
  have hform := Lockstep.tracksSub_expressionForm hover precedence
  calc expression precedence s
      = expressionOver floor (s.pending.length + 2) precedence s :=
        (Move.same_of_tracks hending (hmore precedence) (Nat.le_refl _) (Nat.le_refl _)).symm
    _ = expressionForm expression precedence s :=
        Move.same_of_tracks hending hform (Nat.le_succ _) (Nat.le_succ _)

end Parser

theorem Method.form_expressionOver {α : Type} (m : Method α) (floor : Parser.Sub) {s : Stream}
    {n : Nat} (hending : s.ending.kind = .eof) (hdepth : s.pending.length < n) :
    m.form (Parser.expressionOver floor n) s = m.parser s :=
  Move.same_of_tracks hending
    (Lockstep.tracks_method (Parser.tracksSub_over hending floor hdepth) m) (Nat.le_refl _)
    (Nat.le_refl _)

theorem Method.concurs_call {α : Type} (m : Method α) {s : Stream}
    (hending : s.ending.kind = .eof) :
    Move.refl.Concurs (fun _ => 1) s (m.parser s) (m.parser (Move.refl.stream s)) :=
  Move.concurs_of_tracks hending (Lockstep.tracks_call _ m) (Nat.le_refl _) (Nat.le_refl _)

/-! ### Repetition -/

/-- The loops of the grammar, by what they gather. -/
inductive Loop : Type → Type
  | program : Loop (List Node)
  | block : Loop (List Node)
  | operators (precedence : Nat) : Loop Node
  | expressions : Loop (List Node)
  | entries : Loop (List (Node × Node))
  | parameters : Loop (List String)

namespace Loop

open MonkeyLang.Parser

variable {α σ : Type} {s : Stream}

def step : {σ : Type} → Loop σ → σ → Parser (σ ⊕ σ)
  | _, program => statementStep expression endsProgram
  | _, block => statementStep expression endsBlock
  | _, operators precedence => operatorStep expression precedence
  | _, expressions => listStep (expression Precedence.lowest)
  | _, entries => listStep (mapEntry expression)
  | _, parameters => listStep parameter

def Shortens (p : Parser (σ ⊕ α)) (s : Stream) : Prop :=
  ∀ state, (p s).value = some (.inl state) →
    (p s).rest.ending = s.ending ∧ (p s).rest.pending.length < s.pending.length

theorem tracks_step {L : Lockstep} {depth depth' : Nat} (l : Loop σ) (state : σ) :
    L.Tracks depth depth' Lockstep.stepLeast (l.step state) (l.step state) := by
  have hsub : L.TracksSub depth depth' expression expression := Lockstep.tracksSub_expression
  cases l with
  | program => exact Lockstep.tracks_statementStep hsub endsProgram state
  | block => exact Lockstep.tracks_statementStep hsub endsBlock state
  | operators precedence => exact (Lockstep.tracks_operatorStep hsub precedence state).shallower
  | expressions => exact Lockstep.tracks_listStep (hsub _) state
  | entries => exact Lockstep.tracks_listStep (Lockstep.tracks_mapEntry hsub) state
  | parameters => exact Lockstep.tracks_listStep Lockstep.tracks_parameter state

theorem step_of_eof (l : Loop σ) (state : σ) (h : s.next.kind = .eof) :
    (l.step state s).value = some (.inr state) := by
  cases l with
  | program | block => exact congrArg Outcome.value (statementStep_of_ends (by rw [h]; rfl))
  | operators precedence => exact Lockstep.operatorStep_of_eof h
  | expressions | entries | parameters => exact Lockstep.listStep_of_eof h

theorem shortens_step (l : Loop σ) (state : σ) (hending : s.ending.kind = .eof) :
    Shortens (l.step state) s := by
  intro state' hvalue
  have hkind : (s.skip 0).next.kind ≠ .eof := by
    intro heof
    cases (l.step_of_eof state heof).symm.trans hvalue
  have hpositive := Stream.lt_length_of_next hending hkind
  obtain ⟨k, hk, hrest⟩ := (Move.concurs_of_tracks (M := .refl) hending (l.tracks_step state)
    (Nat.le_refl _) (Nat.le_refl _)).later
  rw [hvalue] at hk
  have htaken : 1 ≤ k := hk
  rw [hrest, Stream.length_skip]
  exact ⟨rfl, by omega⟩

theorem loopOver_eq {step : σ → Parser (σ ⊕ α)}
    (hstep : ∀ state s, s.ending.kind = .eof → Shortens (step state) s) (floor : σ → Parser α)
    (state : σ) (hending : s.ending.kind = .eof) {n : Nat} (hrounds : s.pending.length < n) :
    loopOver floor step n state s = loop step state s := by
  have hwithin : ∀ (n bound : Nat) (state : σ) (s : Stream), s.ending.kind = .eof →
      s.pending.length < n → s.pending.length < bound →
      loopOver floor step n state s = loopWithin bound step state s := by
    intro n
    induction n with
    | zero =>
      intro _ _ _ _ hrounds
      exact absurd hrounds (Nat.not_lt_zero _)
    | succ n ih =>
      intro bound state s hending hrounds hbound
      obtain ⟨bound, rfl⟩ := Nat.exists_eq_succ_of_ne_zero (Nat.ne_zero_of_lt hbound)
      rw [loopOver, loopWithin]
      cases hvalue : (step state s).value with
      | none => rw [bind_of_none hvalue, bind_of_none hvalue]
      | some result =>
        rw [bind_of_some hvalue, bind_of_some hvalue]
        cases result with
        | inr a => rfl
        | inl state' =>
          obtain ⟨hsame, hshorter⟩ := hstep state s hending state' hvalue
          simp only
          rw [ih bound state' (step state s).rest (hsame ▸ hending) (by omega) (by omega)]
  exact hwithin n (s.pending.length + 1) state s hending hrounds (Nat.lt_succ_self _)

end Loop

/-! ### Parsers in use -/

/-- A parser in use: the window on its tokens, and what it has reported so far. -/
structure Reader where
  window : Window
  diagnostics : List Diagnostic := []

def Reader.call {α : Type} (r : Reader) (m : Method α) : Option α × Reader :=
  let (value, window, reports) := r.window.read m.parser
  (value, { window, diagnostics := r.diagnostics ++ reports })

namespace Window

variable {w : Window} {k : Nat}

/-- The window is on finitely many tokens, whatever they are, with the end of input behind them. -/
structure Closed (w : Window) : Prop where
  ending_eof : w.stream.ending.kind = .eof
  pending_eq : ∃ ts, w.stream.pending = ts ++ [w.stream.ending]

theorem Closed.length_pos (h : w.Closed) : 0 < w.stream.pending.length := by
  obtain ⟨ts, hts⟩ := h.pending_eq
  simp [hts]

theorem before_skip (w : Window) (k : Nat) :
    w.before (w.stream.skip k) = ⟨w.stream.skip (min k w.stream.pending.length - 1)⟩ := by
  rw [before, Stream.length_skip]
  have htaken : w.stream.pending.length - (w.stream.pending.length - k) =
      min k w.stream.pending.length := by omega
  simp only [htaken]
  rfl

theorem Closed.skip (h : w.Closed) (hk : k < w.stream.pending.length) :
    Closed ⟨w.stream.skip k⟩ := by
  obtain ⟨ts, hts⟩ := h.pending_eq
  refine ⟨h.ending_eof, ts.drop k, ?_⟩
  have hle : k ≤ ts.length := by simp [hts] at hk; omega
  simp [Stream.skip, hts, List.drop_append_of_le_length hle]

end Window

namespace Reader

variable {α : Type} {r : Reader}

theorem window_call (r : Reader) (m : Method α) (h : r.window.Closed) :
    ∃ k, 1 ≤ k ∧ (m.parser r.window.stream).rest = r.window.stream.skip k ∧
      (r.call m).2.window.stream =
        r.window.stream.skip (min k r.window.stream.pending.length - 1) := by
  obtain ⟨k, hk, hrest⟩ := (m.concurs_call h.ending_eof).later
  refine ⟨k, hk, hrest, ?_⟩
  change (r.window.before (m.parser r.window.stream).rest).stream = _
  rw [show (m.parser r.window.stream).rest = _ from hrest, Window.before_skip]

theorem follows_call (m : Method α) (h : r.window.Closed) :
    (r.call m).2.window.Closed ∧
      (r.call m).2.window.stream.pending <:+ r.window.stream.pending ∧
      (r.call m).2.window.stream.ending = r.window.stream.ending ∧
      (r.call m).2.window.stream.advance = (m.parser r.window.stream).rest := by
  obtain ⟨k, hk, hrest, hwindow⟩ := r.window_call m h
  have hlength := h.length_pos
  have hclosed := h.skip (k := min k r.window.stream.pending.length - 1) (by omega)
  rw [← hwindow] at hclosed
  refine ⟨hclosed, ?_, ?_, ?_⟩
  · rw [hwindow]
    exact List.drop_suffix _ _
  · rw [hwindow]
    rfl
  · rw [hwindow, hrest, Stream.advance_skip, Nat.sub_add_cancel (by omega)]
    rcases Nat.le_total k r.window.stream.pending.length with hle | hle
    · rw [Nat.min_eq_left hle]
    · rw [Nat.min_eq_right hle, Stream.skip, Stream.skip, List.drop_length,
        List.drop_eq_nil_of_le hle]

theorem call_program (h : r.window.Closed) :
    (r.call .program).1 ≠ none ∧ (r.call .program).2.window.current.kind = .eof := by
  obtain ⟨nodes, k, reports, hprogram, hstop⟩ := Parser.program_eq h.ending_eof
  have hwindow : (r.call .program).2.window = r.window.before (r.window.stream.skip (k + 1)) := by
    change r.window.before (Parser.program r.window.stream).rest = _
    rw [hprogram]
  constructor
  · change (Parser.program r.window.stream).value ≠ none
    rw [hprogram]
    exact Option.some_ne_none _
  · rw [hwindow, Window.before_skip]
    have hlength := h.length_pos
    rcases Nat.lt_or_ge k r.window.stream.pending.length with hlt | hle
    · rw [Nat.min_eq_left (Nat.succ_le_of_lt hlt)]
      exact hstop
    · -- The last token of the stream is the end of input.
      obtain ⟨ts, hts⟩ := h.pending_eq
      rw [Nat.min_eq_right (Nat.le_succ_of_le hle)]
      simp [Window.current, Stream.next, Stream.skip, hts, h.ending_eof]

end Reader

open MonkeyLang.Parser in
/-- On every stream of finitely many tokens before the end of input, the grammar nests and repeats
only a bounded number of times: nothing depends on what would be done beyond. A method called on
such a stream leaves the window further on in it and keeps the reports made before, and adds one if
it gives nothing; a program is read to the end of input. -/
theorem parsing_ends :
    (∀ s : Stream, s.ending.kind = .eof →
      (∀ precedence, expression precedence s = expressionForm expression precedence s) ∧
      (∀ {α : Type} (m : Method α) (floor : Sub) (depth : Nat), s.pending.length < depth →
        m.form (expressionOver floor depth) s = m.parser s) ∧
      ∀ {σ : Type} (l : Loop σ) (floor : σ → Parser σ) (state : σ) (rounds : Nat),
        s.pending.length < rounds → loopOver floor l.step rounds state s = loop l.step state s) ∧
    ∀ r : Reader, r.window.Closed →
      (∀ {α : Type} (m : Method α),
        (r.call m).2.window.Closed ∧
        (r.call m).2.window.stream.pending <:+ r.window.stream.pending ∧
        (r.call m).2.window.stream.ending = r.window.stream.ending ∧
        (r.call m).2.window.stream.advance = (m.parser r.window.stream).rest ∧
        ∃ reports, (r.call m).2.diagnostics = r.diagnostics ++ reports ∧
          ((r.call m).1 = none → reports ≠ [])) ∧
      (r.call .program).1 ≠ none ∧ (r.call .program).2.window.current.kind = .eof := by
  constructor
  · intro s hending
    refine ⟨fun precedence => expression_eq precedence hending, fun m floor depth hdepth => ?_,
      fun l floor state rounds hrounds => ?_⟩
    · exact m.form_expressionOver floor hending hdepth
    · exact Loop.loopOver_eq (fun state s => l.shortens_step state) floor state hending hrounds
  · intro r h
    refine ⟨fun m => ?_, Reader.call_program h⟩
    obtain ⟨hclosed, hsuffix, hsame, hadvance⟩ := Reader.follows_call m h
    have hself := m.concurs_call h.ending_eof
    exact ⟨hclosed, hsuffix, hsame, hadvance, _, rfl, hself.reported⟩

theorem parsing_ends_misread_number :
    ∃ r : Reader, r.window.stream.pending.map Token.lexeme =
        [⟨.leftBracket, "["⟩, ⟨.int, "x"⟩, ⟨.eof, ""⟩] ∧
      r.window.Closed ∧ (r.call .arrayLiteral).1 = none ∧
      (∃ reports, (r.call .arrayLiteral).2.diagnostics = r.diagnostics ++ reports ∧
        reports ≠ []) ∧
      (∀ floor, Parser.arrayLiteral (Parser.expressionOver floor 4) r.window.stream =
        Method.arrayLiteral.parser r.window.stream) ∧
      (r.call .program).2.window.current.kind = .eof := by
  have hnone : (Reader.call ⟨⟨[⟨.leftBracket, "[", 1, 1⟩, ⟨.int, "x", 1, 2⟩, ⟨.eof, "", 1, 3⟩],
      ⟨.eof, "", 1, 3⟩⟩, []⟩ .arrayLiteral).1.isNone := by decide +kernel
  have hclosed : Window.Closed ⟨[⟨.leftBracket, "[", 1, 1⟩, ⟨.int, "x", 1, 2⟩, ⟨.eof, "", 1, 3⟩],
      ⟨.eof, "", 1, 3⟩⟩ := ⟨rfl, [_, _], rfl⟩
  obtain ⟨hmethods, -, hcurrent⟩ := parsing_ends.2 ⟨_, []⟩ hclosed
  obtain ⟨-, -, -, -, reports, hreports, hadded⟩ := hmethods .arrayLiteral
  refine ⟨⟨_, []⟩, rfl, hclosed, Option.isNone_iff_eq_none.mp hnone, ⟨reports, hreports, ?_⟩,
    fun floor => ?_, hcurrent⟩
  · exact hadded (Option.isNone_iff_eq_none.mp hnone)
  · exact (parsing_ends.1 _ hclosed.ending_eof).2.1 .arrayLiteral floor 4 (by decide)

end MonkeyLang

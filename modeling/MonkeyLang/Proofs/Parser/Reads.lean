import MonkeyLang.Parser.Program

/-!
Reading without reports. `Reads p s a t` says that the parser gives `a` on the stream `s`, leaves
`t` and reports nothing; each combinator has one equation for it. `Accepts` is the same relation on
the tokens that a stream holds before the end of input, and composes in the order of reading.
-/
namespace MonkeyLang

def firstKind (ts : List Token) : TokenKind := (ts.head?.map Token.kind).getD .eof

@[simp] theorem firstKind_nil : firstKind [] = .eof := rfl

@[simp] theorem firstKind_cons (t : Token) (ts : List Token) : firstKind (t :: ts) = t.kind := rfl

namespace Stream

variable {s : Stream} {t : Token} {ts : List Token}

/-- The stream holds the given tokens before the end of input. The token that marks the end may have
been taken. -/
structure Holds (s : Stream) (ts : List Token) : Prop where
  ending_eof : s.ending.kind = .eof
  before_eof : ∀ t ∈ ts, t.kind ≠ .eof
  pending_eq : s.pending = ts ++ [s.ending] ∨ ts = [] ∧ s.pending = []

namespace Holds

theorem next_cons (h : s.Holds (t :: ts)) : s.next = t := by
  rcases h.pending_eq with hp | ⟨hn, _⟩
  · simp [Stream.next, hp]
  · cases hn

theorem next_kind (h : s.Holds ts) : s.next.kind = firstKind ts := by
  cases ts with
  | nil =>
    rcases h.pending_eq with hp | ⟨_, hp⟩
    · simpa [Stream.next, hp] using h.ending_eof
    · simpa [Stream.next, hp] using h.ending_eof
  | cons t ts => rw [h.next_cons, firstKind_cons]

theorem advance_cons (h : s.Holds (t :: ts)) : s.advance.Holds ts := by
  refine ⟨h.ending_eof, fun u hu => h.before_eof u (List.mem_cons_of_mem t hu), Or.inl ?_⟩
  rcases h.pending_eq with hp | ⟨hn, _⟩
  · simp [Stream.advance, hp]
  · cases hn

theorem advance_nil (h : s.Holds []) : s.advance.Holds [] := by
  refine ⟨h.ending_eof, h.before_eof, Or.inr ⟨rfl, ?_⟩⟩
  rcases h.pending_eq with hp | ⟨_, hp⟩ <;> simp [Stream.advance, hp]

theorem uncons (h : s.Holds ts) (hk : s.next.kind ≠ .eof) :
    ∃ us, ts = s.next :: us ∧ s.advance.Holds us := by
  cases ts with
  | nil => exact absurd h.next_kind hk
  | cons t ts => exact ⟨ts, by rw [h.next_cons], h.advance_cons⟩

theorem length_le (h : s.Holds ts) : ts.length ≤ s.pending.length := by
  rcases h.pending_eq with hp | ⟨hn, _⟩
  · simp [hp]
  · simp [hn]

end Holds

end Stream

namespace Parser

variable {α β σ : Type} {s t u : Stream}

/-- The parser gives the value, leaves the second stream and reports nothing. -/
def Reads (p : Parser α) (s : Stream) (a : α) (t : Stream) : Prop :=
  p s = { value := some a, rest := t, reports := [] }

theorem parseScan_of_reads {found : Lexer.Scan} {n : Node}
    (h : Reads program (.ofScan found) n t) :
    parseScan found = { program := n, diagnostics := [] } := by
  rw [parseScan, show program _ = _ from h]
  rfl

/-! ### Combinators -/

theorem reads_pure {a b : α} : Reads (pure a : Parser α) s b t ↔ a = b ∧ s = t := by
  constructor
  · intro h
    cases h
    exact ⟨rfl, rfl⟩
  · rintro ⟨rfl, rfl⟩
    rfl

theorem bind_of_none {p : Parser α} {k : α → Parser β} (h : (p s).value = none) :
    (p >>= k) s = { value := none, rest := (p s).rest, reports := (p s).reports } := by
  change andThen p k s = _
  simp only [andThen, h]

theorem bind_of_some {p : Parser α} {k : α → Parser β} {a : α} (h : (p s).value = some a) :
    (p >>= k) s =
      { k a (p s).rest with reports := (p s).reports ++ (k a (p s).rest).reports } := by
  change andThen p k s = _
  simp only [andThen, h]

theorem reads_bind {p : Parser α} {k : α → Parser β} {b : β} :
    Reads (p >>= k) s b u ↔ ∃ a t, Reads p s a t ∧ Reads (k a) t b u := by
  unfold Reads
  constructor
  · intro h
    cases hvalue : (p s).value with
    | none =>
      rw [bind_of_none hvalue] at h
      cases h
    | some a =>
      rw [bind_of_some hvalue] at h
      simp only [Outcome.mk.injEq, List.append_eq_nil_iff] at h
      obtain ⟨hb, hu, hp, hk⟩ := h
      exact ⟨a, (p s).rest, by rw [← hvalue, ← hp], by rw [← hb, ← hu, ← hk]⟩
  · rintro ⟨a, t, hp, hk⟩
    rw [bind_of_some (congrArg Outcome.value hp)]
    simp only [hp, hk, List.append_nil]

theorem bind_of_reads {p : Parser α} {k : α → Parser β} {a : α} (h : Reads p s a t) :
    (p >>= k) s = k a t := by
  rw [bind_of_some (congrArg Outcome.value h), show p s = _ from h]
  rfl

theorem reads_next {a : Token} : Reads next s a t ↔ s.next = a ∧ s = t := by
  simp [Reads, next]

theorem reads_take {a : Token} : Reads take s a t ↔ s.next = a ∧ s.advance = t := by
  simp [Reads, take]

theorem reads_expect {kind : TokenKind} {a : Token} :
    Reads (expect kind) s a t ↔ s.next.kind = kind ∧ s.next = a ∧ s.advance = t := by
  by_cases hk : s.next.kind = kind <;> simp [Reads, expect, hk]

theorem reads_skipOptional {kind : TokenKind} {a : Unit} :
    Reads (skipOptional kind) s a t ↔ (if s.next.kind = kind then s.advance else s) = t := by
  simp [Reads, skipOptional]

theorem not_reads_refuse {fault : Fault} {a : α} : ¬ Reads (refuse fault) s a t := by
  simp [Reads, refuse]

theorem reads_attempt {p : Parser α} {a : Option α} :
    Reads (attempt p) s a t ↔ p s = { value := a, rest := t, reports := [] } := by
  rcases hp : p s with ⟨value, rest, reports⟩
  simp [Reads, attempt, hp]

/-! ### Loops -/

inductive Iterates (step : σ → Parser (σ ⊕ α)) : Nat → σ → Stream → α → Stream → Prop
  | done {state : σ} {s t : Stream} {a : α} (last : Reads (step state) s (.inr a) t) :
      Iterates step 0 state s a t
  | again {n : Nat} {state state' : σ} {s t u : Stream} {a : α}
      (first : Reads (step state) s (.inl state') t) (rest : Iterates step n state' t a u) :
      Iterates step (n + 1) state s a u

theorem reads_loopWithin {step : σ → Parser (σ ⊕ α)} {bound : Nat} {state : σ} {a : α} :
    Reads (loopWithin bound step state) s a t ↔ ∃ n < bound, Iterates step n state s a t := by
  induction bound generalizing state s with
  | zero =>
    simp only [loopWithin, not_reads_refuse, Nat.not_lt_zero, false_and, exists_false]
  | succ bound ih =>
    simp only [loopWithin, reads_bind]
    constructor
    · rintro ⟨result, u, hstep, hrest⟩
      cases result with
      | inl state' =>
        obtain ⟨n, hn, hit⟩ := ih.mp hrest
        exact ⟨n + 1, by omega, .again hstep hit⟩
      | inr b =>
        obtain ⟨rfl, rfl⟩ := reads_pure.mp hrest
        exact ⟨0, by omega, .done hstep⟩
    · rintro ⟨n, hn, hit⟩
      cases hit with
      | done last => exact ⟨.inr a, t, last, reads_pure.mpr ⟨rfl, rfl⟩⟩
      | @again m _ state' _ u _ _ first rest =>
        exact ⟨.inl state', u, first, ih.mpr ⟨m, by omega, rest⟩⟩

theorem reads_loop {step : σ → Parser (σ ⊕ α)} {state : σ} {a : α} :
    Reads (loop step state) s a t ↔ ∃ n ≤ s.pending.length, Iterates step n state s a t := by
  simp only [← Nat.lt_succ_iff]
  exact reads_loopWithin

/-! ### Rounds of statements -/

section Statements

variable {sub : Sub} {ends : TokenKind → Bool} {found : List Node}

theorem statementStep_of_ends (h : ends s.next.kind) :
    statementStep sub ends found s = { value := some (.inr found), rest := s } := by
  rw [statementStep, bind_of_reads (reads_next.mpr ⟨rfl, rfl⟩), if_pos h]
  rfl

theorem loopWithin_of_ends (h : ends s.next.kind) {bound : Nat} (hbound : 0 < bound) :
    loopWithin bound (statementStep sub ends) found s = { value := some found, rest := s } := by
  obtain ⟨bound, rfl⟩ := Nat.exists_eq_succ_of_ne_zero (Nat.ne_of_gt hbound)
  have hstep : Reads (statementStep sub ends found) s (.inr found) s := statementStep_of_ends h
  rw [loopWithin, bind_of_reads hstep]
  rfl

theorem statementStep_of_not_ends (h : ends s.next.kind = false) :
    statementStep sub ends found s =
      { value := some (.inl (found ++ (statement sub s).value.toList))
        rest := (statement sub s).rest
        reports := (statement sub s).reports } := by
  have hattempt : (attempt (statement sub) s).value = some (statement sub s).value := rfl
  rw [statementStep, bind_of_reads (reads_next.mpr ⟨rfl, rfl⟩), if_neg (by simp [h]),
    bind_of_some hattempt]
  cases (statement sub s).value with
  | none => simp [attempt, pure, succeed]
  | some node => simp [attempt, pure, succeed]

end Statements

/-! ### Reading the tokens of a stream -/

def Accepts (p : Parser α) (ts : List Token) (a : α) (us : List Token) : Prop :=
  ∀ s : Stream, s.Holds ts → ∃ t, Reads p s a t ∧ t.Holds us

section Accepts

variable {p : Parser α} {k : α → Parser β} {a : α} {b : β} {ts us vs : List Token}

theorem accepts_pure : Accepts (pure a : Parser α) ts a ts :=
  fun s hs => ⟨s, reads_pure.mpr ⟨rfl, rfl⟩, hs⟩

theorem Accepts.bind (hp : Accepts p ts a us) (hk : Accepts (k a) us b vs) :
    Accepts (p >>= k) ts b vs := by
  intro s hs
  obtain ⟨t, ht, hholds⟩ := hp s hs
  obtain ⟨u, hu, hholds'⟩ := hk t hholds
  exact ⟨u, reads_bind.mpr ⟨a, t, ht, hu⟩, hholds'⟩

theorem accepts_next_bind {k : Token → Parser β}
    (hk : ∀ t : Token, t.kind = firstKind ts → Accepts (k t) ts b us) :
    Accepts (next >>= k) ts b us := by
  intro s hs
  obtain ⟨u, hu, hholds⟩ := hk s.next hs.next_kind s hs
  exact ⟨u, reads_bind.mpr ⟨s.next, s, reads_next.mpr ⟨rfl, rfl⟩, hu⟩, hholds⟩

theorem accepts_next_cons_bind {k : Token → Parser β} {t : Token}
    (hk : Accepts (k t) (t :: ts) b us) : Accepts (next >>= k) (t :: ts) b us := by
  intro s hs
  obtain ⟨u, hu, hholds⟩ := hk s hs
  rw [← hs.next_cons] at hu
  exact ⟨u, reads_bind.mpr ⟨s.next, s, reads_next.mpr ⟨rfl, rfl⟩, hu⟩, hholds⟩

theorem accepts_take {t : Token} : Accepts take (t :: ts) t ts :=
  fun _ hs => ⟨_, reads_take.mpr ⟨hs.next_cons, rfl⟩, hs.advance_cons⟩

theorem accepts_take_nil_bind {k : Token → Parser β} (hk : ∀ t : Token, Accepts (k t) [] b us) :
    Accepts (take >>= k) [] b us := by
  intro s hs
  obtain ⟨u, hu, hholds⟩ := hk s.next s.advance hs.advance_nil
  exact ⟨u, reads_bind.mpr ⟨s.next, s.advance, reads_take.mpr ⟨rfl, rfl⟩, hu⟩, hholds⟩

theorem accepts_expect {t : Token} {kind : TokenKind} (hk : t.kind = kind) :
    Accepts (expect kind) (t :: ts) t ts := by
  intro s hs
  have hkind : s.next.kind = kind := by rw [hs.next_cons, hk]
  exact ⟨_, reads_expect.mpr ⟨hkind, hs.next_cons, rfl⟩, hs.advance_cons⟩

theorem accepts_skipOptional_cons {t : Token} {kind : TokenKind} (hk : t.kind = kind) :
    Accepts (skipOptional kind) (t :: ts) () ts := by
  intro s hs
  have hkind : s.next.kind = kind := by rw [hs.next_cons, hk]
  exact ⟨_, reads_skipOptional.mpr (if_pos hkind), hs.advance_cons⟩

theorem accepts_skipOptional_of_ne {kind : TokenKind} (hk : firstKind ts ≠ kind) :
    Accepts (skipOptional kind) ts () ts := by
  intro s hs
  have hkind : s.next.kind ≠ kind := by rw [hs.next_kind]; exact hk
  exact ⟨_, reads_skipOptional.mpr (if_neg hkind), hs⟩

theorem Accepts.attempt (hp : Accepts p ts a us) : Accepts (attempt p) ts (some a) us := by
  intro s hs
  obtain ⟨t, ht, hholds⟩ := hp s hs
  exact ⟨t, reads_attempt.mpr ht, hholds⟩

/-- From every stream that holds the first tokens the step is repeated until it gives the value, at
most once for each token, and leaves the second tokens. -/
def Repeats (step : σ → Parser (σ ⊕ α)) (state : σ) (ts : List Token) (a : α) (us : List Token) :
    Prop :=
  ∀ s : Stream, s.Holds ts → ∃ n ≤ ts.length, ∃ t, Iterates step n state s a t ∧ t.Holds us

theorem Repeats.done {step : σ → Parser (σ ⊕ α)} {state : σ}
    (h : Accepts (step state) ts (.inr a) us) : Repeats step state ts a us := by
  intro s hs
  obtain ⟨t, ht, hholds⟩ := h s hs
  exact ⟨0, Nat.zero_le _, t, .done ht, hholds⟩

theorem Repeats.again {step : σ → Parser (σ ⊕ α)} {state state' : σ}
    (h : Accepts (step state) ts (.inl state') us) (hlen : us.length < ts.length)
    (hrest : Repeats step state' us a vs) : Repeats step state ts a vs := by
  intro s hs
  obtain ⟨t, ht, hholds⟩ := h s hs
  obtain ⟨n, hn, u, hu, hholds'⟩ := hrest t hholds
  exact ⟨n + 1, by omega, u, .again ht hu, hholds'⟩

theorem accepts_loop {step : σ → Parser (σ ⊕ α)} {state : σ} (h : Repeats step state ts a us) :
    Accepts (loop step state) ts a us := by
  intro s hs
  obtain ⟨n, hn, t, ht, hholds⟩ := h s hs
  exact ⟨t, reads_loop.mpr ⟨n, Nat.le_trans hn hs.length_le, ht⟩, hholds⟩

end Accepts

end Parser

end MonkeyLang

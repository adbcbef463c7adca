import MonkeyLang.Proofs.Parser.Reads

/-!
The first token that a parser reports. `Blames p s t` says that the parser reports something on the
stream `s`, and that its first report is about the token `t`. In a sequence of parsers that is the
first report of the first of them, or, if that one reads what it wants, of those behind it.
-/
namespace MonkeyLang.Parser

variable {α β σ : Type} {s u : Stream} {t : Token}

def Blames (p : Parser α) (s : Stream) (t : Token) : Prop :=
  (p s).reports.head?.map Diagnostic.token = some t

/-! ### Combinators -/

theorem not_blames_pure {a : α} : ¬ Blames (pure a) s t := nofun

theorem blames_refuse {fault : Fault} : Blames (refuse fault : Parser α) s t ↔ s.next = t := by
  simp [Blames, refuse]

theorem blames_attempt {p : Parser α} : Blames (attempt p) s t ↔ Blames p s t := Iff.rfl

theorem blames_bind {p : Parser α} {k : α → Parser β} :
    Blames (p >>= k) s t ↔ Blames p s t ∨ ∃ a u, Reads p s a u ∧ Blames (k a) u t := by
  unfold Blames Reads
  rcases hp : p s with ⟨_ | a, rest, reports⟩
  · rw [bind_of_none (by rw [hp])]
    simp [hp]
  · rw [bind_of_some (by rw [hp])]
    cases reports <;> simp [hp, and_assoc]

theorem blames_next_bind {k : Token → Parser β} :
    Blames (next >>= k) s t ↔ Blames (k s.next) s t := by
  simp only [blames_bind, reads_next]
  constructor
  · rintro (h | ⟨_, _, ⟨rfl, rfl⟩, h⟩)
    · cases h
    · exact h
  · exact fun h => Or.inr ⟨_, _, ⟨rfl, rfl⟩, h⟩

theorem blames_take_bind {k : Token → Parser β} :
    Blames (take >>= k) s t ↔ Blames (k s.next) s.advance t := by
  simp only [blames_bind, reads_take]
  constructor
  · rintro (h | ⟨_, _, ⟨rfl, rfl⟩, h⟩)
    · cases h
    · exact h
  · exact fun h => Or.inr ⟨_, _, ⟨rfl, rfl⟩, h⟩

theorem blames_expect_bind {kind : TokenKind} {k : Token → Parser β} :
    Blames (expect kind >>= k) s t ↔
      s.next.kind ≠ kind ∧ s.next = t ∨ s.next.kind = kind ∧ Blames (k s.next) s.advance t := by
  have hexpect : Blames (expect kind) s t ↔ s.next.kind ≠ kind ∧ s.next = t := by
    by_cases hkind : s.next.kind = kind <;> simp [Blames, expect, hkind]
  simp only [blames_bind, hexpect, reads_expect]
  constructor
  · rintro (h | ⟨_, _, ⟨hkind, rfl, rfl⟩, h⟩)
    · exact Or.inl h
    · exact Or.inr ⟨hkind, h⟩
  · rintro (h | ⟨hkind, h⟩)
    · exact Or.inl h
    · exact Or.inr ⟨_, _, ⟨hkind, rfl, rfl⟩, h⟩

theorem Blames.of_bind {p : Parser α} {k : α → Parser β} (h : Blames (p >>= k) s t)
    (hk : ∀ a u, ¬ Blames (k a) u t) : Blames p s t := by
  rcases blames_bind.mp h with h | ⟨a, u, -, h⟩
  · exact h
  · exact absurd h (hk a u)

theorem not_blames_skipOptional {kind : TokenKind} {a : α} :
    ¬ Blames (skipOptional kind >>= fun _ => pure a) s t := by
  intro h
  have hskip := h.of_bind fun _ _ => not_blames_pure
  cases hskip

/-! ### Loops -/

inductive Reaches (step : σ → Parser (σ ⊕ α)) : σ → Stream → σ → Stream → Prop
  | here {state : σ} {s : Stream} : Reaches step state s state s
  | again {state state' last : σ} {s t u : Stream} (first : Reads (step state) s (.inl state') t)
      (rest : Reaches step state' t last u) : Reaches step state s last u

theorem Iterates.reaches {step : σ → Parser (σ ⊕ α)} {n : Nat} {state : σ} {a : α}
    (h : Iterates step n state s a u) :
    ∃ last v, Reaches step state s last v ∧ Reads (step last) v (.inr a) u := by
  induction h with
  | done last => exact ⟨_, _, .here, last⟩
  | again first _ ih =>
    obtain ⟨last, v, hreaches, hlast⟩ := ih
    exact ⟨last, v, .again first hreaches, hlast⟩

/-- A loop reports first what the step it has come to reports, or the token at which it gives up. -/
theorem Blames.of_loop {step : σ → Parser (σ ⊕ α)} {state : σ} (h : Blames (loop step state) s t) :
    ∃ last u, Reaches step state s last u ∧ (Blames (step last) u t ∨ u.next = t) := by
  have hwithin : ∀ bound state s, Blames (loopWithin bound step state) s t →
      ∃ last u, Reaches step state s last u ∧ (Blames (step last) u t ∨ u.next = t) := by
    intro bound
    induction bound with
    | zero =>
      intro state s h
      exact ⟨state, s, .here, Or.inr (blames_refuse.mp h)⟩
    | succ bound ih =>
      intro state s h
      rcases blames_bind.mp h with h | ⟨result, u, hstep, h⟩
      · exact ⟨state, s, .here, Or.inl h⟩
      · cases result with
        | inl state' =>
          obtain ⟨last, v, hreaches, hlast⟩ := ih state' u h
          exact ⟨last, v, .again hstep hreaches, hlast⟩
        | inr a => exact absurd h not_blames_pure
  exact hwithin (s.pending.length + 1) state s h

end MonkeyLang.Parser

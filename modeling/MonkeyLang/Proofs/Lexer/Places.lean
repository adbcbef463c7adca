import MonkeyLang.Proofs.Lexer.Lexed

/-!
Where the tokens of a scan stand. The cursor only moves on, and every token but the end of input
takes a character, so no two tokens of a scan begin at the same place.
-/
namespace MonkeyLang

def Token.place (t : Token) : Nat × Nat := (t.line, t.column)

namespace Lexer

/-- The second place is on a later line, or at least the given number of columns further on. -/
def Further (n : Nat) (a b : Nat × Nat) : Prop := a.1 < b.1 ∨ a.1 = b.1 ∧ a.2 + n ≤ b.2

section Further

variable {m n : Nat} {a b c : Nat × Nat}

theorem further_refl (a : Nat × Nat) : Further 0 a a := Or.inr ⟨rfl, Nat.le_refl _⟩

theorem Further.trans (h : Further m a b) (h' : Further n b c) : Further (m + n) a c := by
  unfold Further at *
  omega

theorem Further.mono (h : Further n a b) (hle : m ≤ n) : Further m a b := by
  unfold Further at *
  omega

theorem Further.ne (h : Further 1 a b) : a ≠ b := by
  rintro rfl
  unfold Further at h
  omega

end Further

namespace Cursor

variable {c after : Cursor} {t : Token}

def place (c : Cursor) : Nat × Nat := (c.line, c.column)

theorem place_advance (c : Cursor) : c.advance.place =
    if c.current? = some '\n' then (c.line + 1, 1) else (c.line, c.column + 1) := by
  rw [place, advance_line, advance_column]
  split <;> rfl

theorem further_advance (c : Cursor) : Further 1 c.place c.advance.place := by
  rw [place_advance]
  split
  · exact Or.inl (Nat.lt_succ_self _)
  · exact Or.inr ⟨rfl, Nat.le_refl _⟩

theorem further_advanceBy (n : Nat) (c : Cursor) : Further n c.place (advanceBy n c).place := by
  induction n generalizing c with
  | zero => exact further_refl _
  | succ n ih =>
    have hstep := c.further_advance.trans (ih c.advance)
    rwa [Nat.add_comm] at hstep

theorem further_readRun (member : Char → Bool) (c : Cursor) :
    Further (c.readRun member).1.length c.place (c.readRun member).2.place :=
  further_advanceBy _ c

theorem further_readRun_cons {member : Char → Bool} {head : Char} {rest : List Char}
    (hrest : c.rest = head :: rest) (hhead : member head) :
    Further 1 c.place (c.readRun member).2.place :=
  (c.further_readRun member).mono (List.length_pos_iff.mpr (readRun_ne_nil hrest hhead))

theorem further_readText (c : Cursor) : Further 1 c.place c.readText.2.place := by
  have hrun := c.further_advance.trans (c.advance.further_readRun (· ≠ '\x22'))
  unfold readText
  dsimp only
  split
  · exact (hrun.trans (further_advance _)).mono (by omega)
  · exact hrun.mono (by omega)

theorem further_tokenAt [Text.Alphabet] {head : Char} {rest : List Char}
    (hrest : c.rest = head :: rest)
    (h : c.tokenAt head = .ok (t, after)) : t.place = c.place ∧ Further 1 c.place after.place := by
  have htwo : Further 1 c.place c.advance.advance.place :=
    (c.further_advance.trans (further_advance _)).mono (by decide)
  unfold tokenAt at h
  split at h
  · cases h
    exact ⟨rfl, htwo⟩
  split at h
  · cases h
    exact ⟨rfl, htwo⟩
  split at h
  · cases h
    exact ⟨rfl, c.further_advance⟩
  split at h
  · cases h
    exact ⟨rfl, c.further_readText⟩
  split at h
  · next hletter =>
    cases h
    exact ⟨rfl, further_readRun_cons hrest hletter⟩
  split at h
  · next hdigit =>
    dsimp only at h
    split at h
    · cases h
      refine ⟨?_, further_readRun_cons hrest hdigit⟩
      unfold numberToken
      split <;> rfl
    · cases h
  · cases h
    exact ⟨rfl, c.further_advance⟩

theorem further_next [Text.Alphabet] (h : c.next = .ok (t, after)) :
    Further 0 c.place t.place ∧ (t.kind = .eof ∨ Further 1 t.place after.place) := by
  have hblanks : Further 0 c.place c.skipBlanks.place :=
    (c.further_readRun isSkipped).mono (Nat.zero_le _)
  unfold next at h
  dsimp only at h
  split at h
  · cases h
    exact ⟨hblanks, Or.inl rfl⟩
  · next head hhead =>
    obtain ⟨rest, hrest⟩ := rest_of_current? hhead
    obtain ⟨hplace, hafter⟩ := further_tokenAt hrest h
    rw [hplace]
    exact ⟨hblanks, Or.inr hafter⟩

end Cursor

theorem further_scanWithin [Text.Alphabet] (n : Nat) (c : Cursor) :
    (∀ t ∈ (scanWithin n c).tokens ++ [(scanWithin n c).ending], Further 0 c.place t.place) ∧
      ((scanWithin n c).tokens ++ [(scanWithin n c).ending]).Pairwise
        fun a b => Further 1 a.place b.place := by
  induction n generalizing c with
  | zero =>
    refine ⟨fun t ht => ?_, List.pairwise_singleton _ _⟩
    rw [List.mem_singleton.mp ht]
    exact further_refl _
  | succ n ih =>
    rw [scanWithin]
    split
    · refine ⟨fun t ht => ?_, List.pairwise_singleton _ _⟩
      rw [List.mem_singleton.mp ht]
      exact (c.further_readRun isSkipped).mono (Nat.zero_le _)
    · next t after hnext =>
      obtain ⟨hbefore, hafter⟩ := Cursor.further_next hnext
      split
      · refine ⟨fun u hu => ?_, List.pairwise_singleton _ _⟩
        rw [List.mem_singleton.mp hu]
        exact hbefore
      · next hkind =>
        obtain ⟨hrest, hpairwise⟩ := ih after
        have hlater : ∀ u ∈ (scanWithin n after).tokens ++ [(scanWithin n after).ending],
            Further 1 t.place u.place :=
          fun u hu => (hafter.resolve_left hkind).trans (hrest u hu)
        refine ⟨List.forall_mem_cons.mpr ⟨hbefore, fun u hu => ?_⟩,
          List.pairwise_cons.mpr ⟨hlater, hpairwise⟩⟩
        exact (hbefore.trans (hlater u hu)).mono (Nat.zero_le _)

end Lexer

end MonkeyLang

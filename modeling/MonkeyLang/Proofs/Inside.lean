import Mathlib.Logic.Relation

/-!
Things inside things. What is inside is reached by going from a thing to its parts any number of
times, and a property that holds throughout holds of everything inside.
-/
namespace MonkeyLang

variable {α : Type} {parts : α → List α} {P Q : α → Prop} {a b : α}

def Inside (parts : α → List α) : α → α → Prop := Relation.ReflTransGen fun a b => b ∈ parts a

theorem inside_refl (a : α) : Inside parts a a := .refl

theorem Inside.part (hb : b ∈ parts a) {c : α} (h : Inside parts b c) : Inside parts a c :=
  .head hb h

def Throughout (parts : α → List α) (P : α → Prop) (a : α) : Prop := ∀ b, Inside parts a b → P b

theorem throughout_iff :
    Throughout parts P a ↔ P a ∧ ∀ b ∈ parts a, Throughout parts P b := by
  constructor
  · intro h
    exact ⟨h a (inside_refl a), fun b hb c hc => h c (hc.part hb)⟩
  · rintro ⟨ha, hparts⟩ c hc
    rcases Relation.ReflTransGen.cases_head hc with rfl | ⟨b, hb, hbc⟩
    · exact ha
    · exact hparts b hb c hbc

theorem Throughout.here (h : Throughout parts P a) : P a := h a (inside_refl a)

theorem Throughout.part (h : Throughout parts P a) (hb : b ∈ parts a) : Throughout parts P b :=
  (throughout_iff.mp h).2 b hb

theorem Throughout.imp (h : Throughout parts P a) (himp : ∀ b, P b → Q b) :
    Throughout parts Q a :=
  fun b hb => himp b (h b hb)

end MonkeyLang

import Mathlib.Algebra.Order.Ring.Int
import MonkeyLang.Eval.Arithmetic

/-!
Arithmetic is exact or refused. The exact result of a division is the quotient whose remainder is
smaller than the divisor and does not point away from the dividend; there is one such quotient, and
of two integers of the language it is one too, but for the smallest of them divided by minus one.
-/
namespace MonkeyLang

def Signed (value : Int) : Prop := -2 ^ 63 ≤ value ∧ value ≤ 2 ^ 63 - 1

/-- Exact results of arithmetic. -/
inductive Exact (left right : Int) : Operator → Int → Prop
  | plus : Exact left right .plus (left + right)
  | minus : Exact left right .minus (left - right)
  | star : Exact left right .star (left * right)
  | slash {quotient remainder : Int} (hdividend : left = quotient * right + remainder)
      (hsmaller : remainder.natAbs < right.natAbs)
      (hsign : remainder = 0 ∨ remainder.sign = left.sign) : Exact left right .slash quotient

namespace Operator

def arithmetic : List Operator := [plus, minus, star, slash]

end Operator

variable {left right x y : Int} {operator : Operator}

/-! ### Exact results -/

theorem natAbs_truncatedQuotient (left right : Int) :
    (truncatedQuotient left right).natAbs = left.natAbs / right.natAbs := by
  unfold truncatedQuotient
  split
  · rw [Int.natAbs_neg, Int.natAbs_natCast]
  · rw [Int.natAbs_natCast]

theorem truncatedQuotient_mul (left right : Int) :
    truncatedQuotient left right * right =
      left.sign * ((left.natAbs / right.natAbs : Nat) * right.natAbs) := by
  unfold truncatedQuotient
  rcases Int.lt_trichotomy left 0 with hleft | rfl | hleft
  · rw [Int.sign_eq_neg_one_of_neg hleft, decide_eq_true hleft]
    rcases Int.lt_or_le right 0 with hright | hright
    · rw [decide_eq_true hright, Int.ofNat_natAbs_of_nonpos hright.le]
      simp
    · rw [decide_eq_false (Int.not_lt.mpr hright), Int.natAbs_of_nonneg hright]
      simp
  · simp
  · rw [Int.sign_eq_one_of_pos hleft, decide_eq_false (Int.not_lt.mpr hleft.le)]
    rcases Int.lt_or_le right 0 with hright | hright
    · rw [decide_eq_true hright, Int.ofNat_natAbs_of_nonpos hright.le]
      simp
    · rw [decide_eq_false (Int.not_lt.mpr hright), Int.natAbs_of_nonneg hright]
      simp

/-- The remainder is that of the absolute values, with the sign of the dividend. -/
theorem exact_slash_truncatedQuotient (hright : right ≠ 0) :
    Exact left right .slash (truncatedQuotient left right) := by
  have hsmaller := Nat.mod_lt left.natAbs (Int.natAbs_pos.mpr hright)
  refine @Exact.slash left right _ (left.sign * (left.natAbs % right.natAbs : Nat)) ?_ ?_ ?_
  · have hdivision : ((left.natAbs / right.natAbs : Nat) : Int) * right.natAbs +
        (left.natAbs % right.natAbs : Nat) = left.natAbs := by
      exact_mod_cast Nat.div_add_mod' left.natAbs right.natAbs
    rw [truncatedQuotient_mul, ← Int.mul_add, hdivision, Int.sign_mul_natAbs]
  · rw [Int.natAbs_mul, Int.natAbs_natCast, Int.natAbs_sign]
    split
    · omega
    · omega
  · rcases Nat.eq_zero_or_pos (left.natAbs % right.natAbs) with hzero | hpos
    · exact .inl (by rw [hzero]; simp)
    · refine .inr ?_
      have hcast : (0 : Int) < (left.natAbs % right.natAbs : Nat) := by exact_mod_cast hpos
      rw [Int.sign_mul, Int.sign_sign, Int.sign_eq_one_of_pos hcast, Int.mul_one]

theorem eq_tdiv_of_exact (h : Exact left right .slash x) : x = left.tdiv right := by
  cases h with
  | @slash _ remainder hdividend hsmaller hsign =>
    have hright : right ≠ 0 := by
      rintro rfl
      exact absurd hsmaller (Nat.not_lt_zero _)
    have hsum : remainder + right * x = left := by rw [hdividend, Int.mul_comm, Int.add_comm]
    rcases Int.le_total 0 left with hleft | hleft
    · have hremainder : 0 ≤ remainder := by
        rcases hsign with rfl | hsign
        · exact Int.le_refl 0
        · exact Int.sign_nonneg_iff.mp (hsign ▸ Int.sign_nonneg_iff.mpr hleft)
      exact ((Int.tdiv_tmod_unique hleft hright).mpr ⟨hsum, hremainder, by omega⟩).1.symm
    · have hremainder : remainder ≤ 0 := by
        rcases hsign with rfl | hsign
        · exact Int.le_refl 0
        · exact Int.sign_nonpos_iff.mp (hsign ▸ Int.sign_nonpos_iff.mpr hleft)
      exact ((Int.tdiv_tmod_unique' hleft hright).mpr ⟨hsum, by omega, hremainder⟩).1.symm

theorem Exact.unique (hx : Exact left right operator x) (hy : Exact left right operator y) :
    y = x := by
  cases hx with
  | plus => cases hy; rfl
  | minus => cases hy; rfl
  | star => cases hy; rfl
  | slash hdividend hsmaller hsign =>
    rw [eq_tdiv_of_exact hy, eq_tdiv_of_exact (.slash hdividend hsmaller hsign)]

theorem exists_exact (left : Int) (hoperator : operator ∈ Operator.arithmetic)
    (hdefined : ¬ (operator = .slash ∧ right = 0)) : ∃ x, Exact left right operator x := by
  simp only [Operator.arithmetic, List.mem_cons, List.not_mem_nil, or_false] at hoperator
  rcases hoperator with rfl | rfl | rfl | rfl
  · exact ⟨_, .plus⟩
  · exact ⟨_, .minus⟩
  · exact ⟨_, .star⟩
  · exact ⟨_, exact_slash_truncatedQuotient fun hright => hdefined ⟨rfl, hright⟩⟩

/-- A quotient of two integers of the language is too large only where the smallest of them changes
its sign. -/
theorem not_signed_truncatedQuotient_iff (hleft : Signed left) (hright : right ≠ 0) :
    ¬ Signed (truncatedQuotient left right) ↔ left = -2 ^ 63 ∧ right = -1 := by
  have hnatAbs := natAbs_truncatedQuotient left right
  unfold Signed at *
  by_cases hone : right.natAbs = 1
  · have hmul := truncatedQuotient_mul left right
    rw [hone, Nat.div_one, Nat.cast_one, Int.mul_one, Int.sign_mul_natAbs] at hmul
    obtain rfl | rfl : right = 1 ∨ right = -1 := by omega
    · omega
    · omega
  · -- The quotient is at most half as large as the dividend.
    have htwo : 2 ≤ right.natAbs := by omega
    have hhalf : left.natAbs / right.natAbs ≤ left.natAbs / 2 := Nat.div_le_div_left htwo (by omega)
    omega

/-! ### Results of the operators -/

theorem checked_of_signed (cause : EvalError) (h : Signed x) : checked x cause = .integer x :=
  if_pos h

theorem checked_of_not_signed (cause : EvalError) (h : ¬ Signed x) :
    checked x cause = .error cause :=
  if_neg h

theorem integerInfix_of_exact (h : Exact left right operator x) :
    integerInfix operator left right = checked x (.overflow left operator right) := by
  cases h with
  | plus => rfl
  | minus => rfl
  | star => rfl
  | slash hdividend hsmaller hsign =>
    have hright : right ≠ 0 := by
      rintro rfl
      exact absurd hsmaller (Nat.not_lt_zero _)
    rw [(exact_slash_truncatedQuotient hright).unique (.slash hdividend hsmaller hsign)]
    exact if_neg hright

theorem integerInfix_slash_zero (left : Int) :
    integerInfix .slash left 0 = .error (.divisionByZero left) := by
  simp [integerInfix]

def Value.Refuses (v : Value) (text : String) : Prop :=
  ∃ cause, v = .error cause ∧ cause.message = text

theorem Value.refuses_error {cause : EvalError} {text : String} :
    (Value.error cause).Refuses text ↔ cause.message = text := by
  constructor
  · rintro ⟨_, heq, htext⟩
    rw [Value.error.inj heq, htext]
  · exact fun htext => ⟨cause, rfl, htext⟩

theorem Value.not_refuses_integer {text : String} : ¬ (Value.integer x).Refuses text := by
  rintro ⟨_, heq, -⟩
  exact Value.noConfusion heq

theorem refuses_checked {cause : EvalError} {text : String} :
    (checked x cause).Refuses text ↔ ¬ Signed x ∧ cause.message = text := by
  by_cases hsigned : Signed x
  · rw [checked_of_signed cause hsigned]
    exact ⟨fun h => absurd h Value.not_refuses_integer, fun h => absurd hsigned h.1⟩
  · rw [checked_of_not_signed cause hsigned, Value.refuses_error]
    exact ⟨fun h => ⟨hsigned, h⟩, fun h => h.2⟩

theorem overflow_message_ne (left right left' : Int) (operator : Operator) :
    (EvalError.overflow left operator right).message ≠
      (EvalError.divisionByZero left').message := by
  have hstart : ∀ a b : String, "integer overflow: " ++ a ≠ "division by zero: " ++ b := by
    intro a b h
    have hchars := congrArg String.toList h
    simp [String.toList_append] at hchars
  change "integer overflow: " ++ toString left ++ " " ++ operator.text ++ " " ++ toString right ≠
    "division by zero: " ++ toString left' ++ " / 0"
  simp only [String.append_assoc]
  exact hstart _ _

theorem refuses_divisionByZero_iff (hoperator : operator ∈ Operator.arithmetic) :
    (integerInfix operator left right).Refuses (EvalError.divisionByZero left).message ↔
      operator = .slash ∧ right = 0 := by
  constructor
  · intro hrefuses
    by_contra hdefined
    obtain ⟨x, hx⟩ := exists_exact left hoperator hdefined
    rw [integerInfix_of_exact hx, refuses_checked] at hrefuses
    exact overflow_message_ne _ _ _ _ hrefuses.2
  · rintro ⟨rfl, rfl⟩
    rw [integerInfix_slash_zero, Value.refuses_error]

theorem refuses_quotient_iff (hleft : Signed left) :
    (integerInfix .slash left right).Refuses (EvalError.overflow left .slash right).message ↔
      left = -2 ^ 63 ∧ right = -1 := by
  by_cases hright : right = 0
  · subst hright
    rw [integerInfix_slash_zero, Value.refuses_error]
    constructor
    · exact fun htext => absurd htext.symm (overflow_message_ne _ _ _ _)
    · rintro ⟨-, hright⟩
      cases hright
  · rw [integerInfix_of_exact (exact_slash_truncatedQuotient hright), refuses_checked,
      not_signed_truncatedQuotient_iff hleft hright, and_iff_left rfl]

theorem not_signed_neg_iff (hleft : Signed left) : ¬ Signed (-left) ↔ left = -2 ^ 63 := by
  unfold Signed at *
  omega

/-- On integers of the language every operator of arithmetic gives its exact result, or refuses it
if it is none of them; a division by zero is refused before that. Only the smallest integer divided
by minus one is too large a quotient, and only its negation is none of them. -/
theorem arithmetic_exact_or_refused (hoperator : operator ∈ Operator.arithmetic)
    (hleft : Signed left) :
    (¬ (operator = .slash ∧ right = 0) → ∃ x, Exact left right operator x ∧
      (∀ y, Exact left right operator y → y = x) ∧
      (Signed x → integerInfix operator left right = .integer x) ∧
      (¬ Signed x → (integerInfix operator left right).Refuses
        ("integer overflow: " ++ toString left ++ " " ++ operator.text ++ " " ++ toString right))) ∧
    ((integerInfix operator left right).Refuses ("division by zero: " ++ toString left ++ " / 0") ↔
      operator = .slash ∧ right = 0) ∧
    ((integerInfix .slash left right).Refuses
        ("integer overflow: " ++ toString left ++ " " ++ "/" ++ " " ++ toString right) ↔
      left = -2 ^ 63 ∧ right = -1) ∧
    ∃ negated, prefixValue? .minus (.integer left) = some negated ∧
      (negated.Refuses ("integer overflow: -" ++ toString left) ↔ left = -2 ^ 63) ∧
      (left ≠ -2 ^ 63 → negated = .integer (-left)) := by
  refine ⟨fun hdefined => ?_, refuses_divisionByZero_iff hoperator, refuses_quotient_iff hleft,
    checked (-left) (.negationOverflow left), rfl, ?_, fun hne => ?_⟩
  · obtain ⟨x, hx⟩ := exists_exact left hoperator hdefined
    rw [integerInfix_of_exact hx]
    refine ⟨x, hx, fun y hy => hx.unique hy, checked_of_signed _, fun hsigned => ?_⟩
    exact refuses_checked.mpr ⟨hsigned, rfl⟩
  · rw [refuses_checked, not_signed_neg_iff hleft]
    exact and_iff_left rfl
  · exact checked_of_signed _ (not_not.mp fun h => hne ((not_signed_neg_iff hleft).mp h))

theorem arithmetic_exact_or_refused_product :
    Operator.star ∈ Operator.arithmetic ∧ Signed (-4294967296) ∧
      (integerInfix .star (-4294967296) (-2147483648)).Refuses
        "integer overflow: -4294967296 * -2147483648" := by
  have hleft : Signed (-4294967296) := by unfold Signed; decide
  obtain ⟨hexact, -⟩ :=
    @arithmetic_exact_or_refused (-4294967296) (-2147483648) .star (by decide) hleft
  obtain ⟨x, -, hunique, -, hrefused⟩ := hexact fun h => Operator.noConfusion h.1
  have hx := hunique _ .star
  have hlarge : ¬ Signed x := by rw [← hx]; unfold Signed; decide
  exact ⟨by decide, hleft, hrefused hlarge⟩

end MonkeyLang

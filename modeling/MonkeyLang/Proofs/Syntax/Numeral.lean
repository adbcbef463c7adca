import MonkeyLang.Proofs.Syntax.Written

/-!
Numerals read back: the digits of a numeral are read as its value, and a number of the language is
printed as a numeral.
-/
namespace MonkeyLang

namespace Text

theorem isBlank_of_isDigit {c : Char} (h : c.isDigit) : isBlank c = false := by
  simp only [Char.isDigit, Bool.and_eq_true, decide_eq_true_eq] at h
  have hlow : 48 ≤ c.toNat := h.1
  have hhigh : c.toNat ≤ 57 := h.2
  simp only [isBlank]
  grind

theorem dropWhile_eq_self {drop : Char → Bool} {cs : List Char} (h : ∀ c ∈ cs, drop c = false) :
    cs.dropWhile drop = cs := by
  cases cs with
  | nil => rfl
  | cons c cs => simp [h c (by simp)]

theorem trimEnds_eq_self {drop : Char → Bool} {cs : List Char} (h : ∀ c ∈ cs, drop c = false) :
    trimEnds drop cs = cs := by
  have hreverse : ∀ c ∈ cs.reverse, drop c = false := fun c hc => h c (List.mem_reverse.mp hc)
  rw [trimEnds, dropWhile_eq_self h, dropWhile_eq_self hreverse, List.reverse_reverse]

theorem spacedDigits?_of_isDigit {cs : List Char} (hne : cs ≠ []) (h : ∀ c ∈ cs, c.isDigit) :
    spacedDigits? cs = some (cs.map fun c => c.toNat - 0x30) := by
  fun_induction spacedDigits? cs with
  | case1 => exact absurd rfl hne
  | case2 c => simp [digitValue?, h c (by simp)]
  | case3 c rest =>
    have hunderscore := h '_' (by simp)
    exact absurd hunderscore (by decide)
  | case4 c d rest _ ih =>
    have hrest := ih (by simp) fun x hx => h x (List.mem_cons_of_mem c hx)
    simp [digitValue?, h c (by simp), hrest]

theorem signed?_of_isDigit {cs : List Char} (hne : cs ≠ []) (h : ∀ c ∈ cs, c.isDigit) :
    signed? cs = (natural? cs).map Int.ofNat := by
  cases cs with
  | nil => exact absurd rfl hne
  | cons c rest =>
    have hdigit := h c (by simp)
    have hplus : c ≠ '+' := by rintro rfl; exact absurd hdigit (by decide)
    have hminus : c ≠ '-' := by rintro rfl; exact absurd hdigit (by decide)
    simp [signed?, hplus, hminus]

end Text

namespace Numeral

variable {digits : List Char} {value : Int}

theorem value_nonneg (h : Numeral digits value) : 0 ≤ value := by
  rw [← h.value_eq]
  exact Int.natCast_nonneg _

theorem integer?_eq (h : Numeral digits value) :
    Text.integer? (String.ofList digits) = some value := by
  have hkept : ∀ c ∈ digits, (Text.isBlank c && !Text.isSeparatorMark c) = false := by
    intro c hc
    rw [Text.isBlank_of_isDigit (h.isDigit c hc), Bool.false_and]
  have hdigits := Text.spacedDigits?_of_isDigit h.nonempty h.isDigit
  have hnatural : Text.natural? digits = some (Lexer.digitsValue digits) := by
    simp [Text.natural?, hdigits, h.length_le, Lexer.digitsValue]
  rw [Text.integer?, String.toList_ofList, Text.trimEnds_eq_self hkept,
    Text.signed?_of_isDigit h.nonempty h.isDigit, hnatural, Option.map_some]
  exact congrArg some h.value_eq

end Numeral

theorem digitsValue_toDigits (n : Nat) : Lexer.digitsValue (Nat.toDigits 10 n) = n := by
  have hfold : Lexer.digitsValue (Nat.toDigits 10 n) =
      Nat.ofDigitChars 10 (Nat.toDigits 10 n) 0 := by
    simp [Lexer.digitsValue, Text.ofDigits, Nat.ofDigitChars, List.foldl_map]
  rw [hfold]
  exact Nat.ofDigitChars_toDigits (by decide) (by decide)

theorem numeral_toDigits {value : Int} (hnonneg : 0 ≤ value) (hle : value ≤ Lexer.maxInteger) :
    Numeral (Nat.toDigits 10 value.toNat) value := by
  have hvalue : (value.toNat : Int) = value := Int.toNat_of_nonneg hnonneg
  refine ⟨Nat.toDigits_ne_nil, fun c hc => ?_, ?_, ?_, hle⟩
  · exact Nat.isDigit_of_mem_toDigits (by decide) (by decide) hc
  · rw [Nat.length_toDigits_le_iff (by decide) (by decide)]
    have hsmall : value.toNat < 10 ^ 19 := by
      unfold Lexer.maxInteger at hle
      omega
    exact Nat.lt_of_lt_of_le hsmall (Nat.pow_le_pow_right (by decide) (by decide))
  · rw [digitsValue_toDigits, hvalue]

end MonkeyLang

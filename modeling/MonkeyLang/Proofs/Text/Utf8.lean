import Mathlib.Data.List.Forall2
import Mathlib.Data.List.TakeWhile
import MonkeyLang.Text.Utf8

/-!
Decoding is the inverse of encoding. The bytes of a character take the decoder from between two
characters to behind that character, whatever follows, so the bytes of a text are decoded as the
text; and a text without carriage returns keeps its line ends.
-/
namespace MonkeyLang.Text

variable {position : Nat} {rest : List UInt8}

theorem toNat_ofNat {n : Nat} (h : n < 256) : (UInt8.ofNat n).toNat = n := by
  rw [UInt8.toNat_ofNat']
  omega

def Expected (n : Nat) (range : Nat × Nat) : Prop := range.1 ≤ n ∧ n ≤ range.2 ∧ n < 256

theorem decodeFrom_some {p : Partial} {ns : List Nat} (hne : ns ≠ [])
    (h : List.Forall₂ Expected ns p.expected) :
    decodeFrom position (some p) (ns.map UInt8.ofNat ++ rest) =
      (decodeFrom (position + ns.length) none rest).map
        (Char.ofNat (ns.foldl (fun code n => 64 * code + (n - 0x80)) p.code) :: ·) := by
  induction ns generalizing p position with
  | nil => exact absurd rfl hne
  | cons n ns ih =>
    obtain ⟨start, byte, code, expected⟩ := p
    cases h with
    | @cons _ range _ later hn hns =>
      obtain ⟨hlow, hhigh, hbyte⟩ := hn
      rw [List.map_cons, List.cons_append, decodeFrom, toNat_ofNat hbyte]
      simp only [hlow, hhigh, and_self, if_true]
      cases hns with
      | nil =>
        simp only [List.isEmpty_nil, if_true, List.map_nil, List.nil_append]
        cases decodeFrom (position + 1) none rest <;> rfl
      | @cons m _ ms _ hm hms =>
        have hlater : decodeFrom (position + 1) (some ⟨start, byte, 64 * code + (n - 0x80), _⟩)
            ((m :: ms).map UInt8.ofNat ++ rest) = _ := ih (List.cons_ne_nil _ _) (.cons hm hms)
        have hposition : position + 1 + (m :: ms).length = position + (n :: m :: ms).length := by
          simp only [List.length_cons]
          omega
        simp only [List.isEmpty_cons, Bool.false_eq_true, if_false]
        rw [hlater, hposition]
        simp only [List.foldl_cons]

/-- The first byte and the others of a character that has more than one. -/
structure Spread (code n : Nat) (ns : List Nat) : Prop where
  ne_nil : ns ≠ []
  low : 0x80 ≤ n
  high : n < 256
  expected : ∃ ranges, continuations? n = some ranges ∧ List.Forall₂ Expected ns ranges
  code_eq : ns.foldl (fun code n => 64 * code + (n - 0x80)) (leadBits n) = code

theorem Spread.decodeFrom_eq {code n : Nat} {ns : List Nat} (h : Spread code n ns) :
    decodeFrom position none ((n :: ns).map UInt8.ofNat ++ rest) =
      (decodeFrom (position + 1 + ns.length) none rest).map (Char.ofNat code :: ·) := by
  obtain ⟨ranges, hranges, hns⟩ := h.expected
  rw [List.map_cons, List.cons_append, decodeFrom, toNat_ofNat h.high]
  simp only [Nat.not_lt.mpr h.low, if_false, hranges]
  rw [decodeFrom_some h.ne_nil hns, h.code_eq]

section Lengths

variable {v : Nat}

theorem forall₂_expected {n low high : Nat} {ns : List Nat} (hlow : low ≤ n) (hhigh : n ≤ high)
    (hn : n < 256) (hns : ∀ m ∈ ns, 0x80 ≤ m ∧ m ≤ 0xbf) :
    List.Forall₂ Expected (n :: ns) ((low, high) :: ns.map fun _ => (0x80, 0xbf)) := by
  refine .cons ⟨hlow, hhigh, hn⟩ ?_
  rw [List.forall₂_map_right_iff, List.forall₂_same]
  intro m hm
  obtain ⟨hleast, hmost⟩ := hns m hm
  exact ⟨hleast, hmost, by omega⟩

theorem spread_two (hlow : 0x7f < v) (hhigh : v ≤ 0x7ff) :
    Spread v (v / 64 % 32 + 192) [v % 64 + 128] where
  ne_nil := List.cons_ne_nil _ _
  low := by omega
  high := by omega
  expected := by
    refine ⟨[(0x80, 0xbf)], ?_, forall₂_expected (by omega) (by omega) (by omega) (by simp)⟩
    rw [continuations?, if_pos (by omega)]
  code_eq := by
    have hlead : leadBits (v / 64 % 32 + 192) = v / 64 := by
      rw [leadBits, if_pos (by omega)]
      omega
    rw [hlead]
    simp only [List.foldl_cons, List.foldl_nil]
    omega

theorem spread_three (hlow : 0x7ff < v) (hhigh : v ≤ 0xffff) (hvalid : v < 0xd800 ∨ 0xdfff < v) :
    Spread v (v / 4096 % 16 + 224) [v / 64 % 64 + 128, v % 64 + 128] where
  ne_nil := List.cons_ne_nil _ _
  low := by omega
  high := by omega
  expected := by
    have hlast : ∀ m ∈ [v % 64 + 128], 0x80 ≤ m ∧ m ≤ 0xbf := by
      intro m hm
      rw [List.mem_singleton] at hm
      omega
    -- Behind 0xe0 small bytes would spell out a shorter code, behind 0xed large ones a surrogate.
    by_cases he0 : v / 4096 = 0
    · refine ⟨[(0xa0, 0xbf), (0x80, 0xbf)], ?_,
        forall₂_expected (by omega) (by omega) (by omega) hlast⟩
      rw [continuations?, if_neg (by omega), if_pos (by omega)]
    by_cases hed : v / 4096 = 13
    · refine ⟨[(0x80, 0x9f), (0x80, 0xbf)], ?_,
        forall₂_expected (by omega) (by omega) (by omega) hlast⟩
      rw [continuations?, if_neg (by omega), if_neg (by omega), if_pos (by omega)]
    · refine ⟨[(0x80, 0xbf), (0x80, 0xbf)], ?_,
        forall₂_expected (by omega) (by omega) (by omega) hlast⟩
      rw [continuations?, if_neg (by omega), if_neg (by omega), if_neg (by omega),
        if_pos (by omega)]
  code_eq := by
    have hlead : leadBits (v / 4096 % 16 + 224) = v / 4096 := by
      rw [leadBits, if_neg (by omega), if_pos (by omega)]
      omega
    rw [hlead]
    simp only [List.foldl_cons, List.foldl_nil]
    omega

theorem spread_four (hlow : 0xffff < v) (hhigh : v < 0x110000) :
    Spread v (v / 262144 % 8 + 240) [v / 4096 % 64 + 128, v / 64 % 64 + 128, v % 64 + 128] where
  ne_nil := List.cons_ne_nil _ _
  low := by omega
  high := by omega
  expected := by
    have hlast : ∀ m ∈ [v / 64 % 64 + 128, v % 64 + 128], 0x80 ≤ m ∧ m ≤ 0xbf := by
      intro m hm
      rw [List.mem_pair] at hm
      omega
    -- Behind 0xf0 small bytes would spell out a shorter code, behind 0xf4 large ones no character.
    by_cases hf0 : v / 262144 = 0
    · refine ⟨[(0x90, 0xbf), (0x80, 0xbf), (0x80, 0xbf)], ?_,
        forall₂_expected (by omega) (by omega) (by omega) hlast⟩
      rw [continuations?, if_neg (by omega), if_neg (by omega), if_neg (by omega),
        if_neg (by omega), if_pos (by omega)]
    by_cases hf4 : v / 262144 = 4
    · refine ⟨[(0x80, 0x8f), (0x80, 0xbf), (0x80, 0xbf)], ?_,
        forall₂_expected (by omega) (by omega) (by omega) hlast⟩
      rw [continuations?, if_neg (by omega), if_neg (by omega), if_neg (by omega),
        if_neg (by omega), if_neg (by omega), if_pos (by omega)]
    · refine ⟨[(0x80, 0xbf), (0x80, 0xbf), (0x80, 0xbf)], ?_,
        forall₂_expected (by omega) (by omega) (by omega) hlast⟩
      rw [continuations?, if_neg (by omega), if_neg (by omega), if_neg (by omega),
        if_neg (by omega), if_neg (by omega), if_neg (by omega), if_pos (by omega)]
  code_eq := by
    have hlead : leadBits (v / 262144 % 8 + 240) = v / 262144 := by
      rw [leadBits, if_neg (by omega), if_neg (by omega)]
      omega
    rw [hlead]
    simp only [List.foldl_cons, List.foldl_nil]
    omega

end Lengths

theorem decodeFrom_utf8EncodeChar (c : Char) (position : Nat) (rest : List UInt8) :
    ∃ position', decodeFrom position none (String.utf8EncodeChar c ++ rest) =
      (decodeFrom position' none rest).map (c :: ·) := by
  have hvalid : c.toNat < 0xd800 ∨ 0xdfff < c.toNat ∧ c.toNat < 0x110000 := c.valid
  have hspread : ∀ {n ns}, Spread c.toNat n ns → ∃ position',
      decodeFrom position none ((n :: ns).map UInt8.ofNat ++ rest) =
        (decodeFrom position' none rest).map (c :: ·) := by
    intro n ns h
    refine ⟨position + 1 + ns.length, ?_⟩
    rw [h.decodeFrom_eq, c.ofNat_toNat]
  unfold String.utf8EncodeChar
  dsimp only
  split
  · next hone =>
    have hsmall : c.toNat < 0x80 := Nat.lt_succ_of_le hone
    refine ⟨position + 1, ?_⟩
    change decodeFrom position none (UInt8.ofNat c.toNat :: rest) = _
    rw [decodeFrom, toNat_ofNat (by omega)]
    simp only [hsmall, if_true, c.ofNat_toNat]
    cases decodeFrom (position + 1) none rest <;> rfl
  split
  · next hone htwo => exact hspread (spread_two (Nat.lt_of_not_le hone) htwo)
  split
  · next htwo hthree =>
    exact hspread (spread_three (Nat.lt_of_not_le htwo) hthree (hvalid.imp_right And.left))
  · next hthree =>
    have hlow : 0xffff < c.toNat := Nat.lt_of_not_le hthree
    exact hspread (spread_four hlow (by omega))

theorem decodeFrom_flatMap (cs : List Char) (position : Nat) :
    decodeFrom position none (cs.flatMap String.utf8EncodeChar) = .ok cs := by
  induction cs generalizing position with
  | nil => rw [List.flatMap_nil, decodeFrom]
  | cons c cs ih =>
    obtain ⟨position', hstep⟩ :=
      decodeFrom_utf8EncodeChar c position (cs.flatMap String.utf8EncodeChar)
    rw [List.flatMap_cons, hstep, ih]
    rfl

/-- The bytes of a text are decoded as the text. -/
theorem decodeUtf8_toUTF8 (text : String) :
    decodeUtf8 text.toUTF8.data.toList = .ok text.toList := by
  have hbytes : text.toUTF8.data.toList = text.toList.flatMap String.utf8EncodeChar := by
    rw [String.toUTF8, ← String.utf8Encode_toList, List.utf8Encode, List.data_toByteArray]
  rw [hbytes]
  exact decodeFrom_flatMap text.toList 0

theorem unifyLineEnds_of_not_mem {cs : List Char} (h : '\r' ∉ cs) : unifyLineEnds cs = cs := by
  fun_induction unifyLineEnds cs with
  | case1 => simp at h
  | case2 => simp at h
  | case3 c rest _ _ ih =>
    rw [ih fun hmem => h (List.mem_cons_of_mem _ hmem)]
  | case4 => rfl

/-! ### Encoding -/

section Encoding

variable [Encoding] {text : List Char}

theorem encodeFault?_eq_none_iff :
    encodeFault? text = none ↔ ∀ c ∈ text, Encoding.surrogate? c = none := by
  unfold encodeFault?
  rw [Option.map_eq_none_iff]
  constructor
  · intro h c hc
    by_contra hsurrogate
    have hrest : text.dropWhile (fun c => (Encoding.surrogate? c).isNone) ≠ [] := by
      rw [Ne, List.dropWhile_eq_nil_iff]
      exact fun hall => hsurrogate (Option.isNone_iff_eq_none.mp (hall c hc))
    have hhead := List.head_dropWhile_not (fun c => (Encoding.surrogate? c).isNone) hrest
    rw [List.head?_eq_some_head hrest, Option.bind_some] at h
    rw [h] at hhead
    cases hhead
  · intro h
    have hrest : text.dropWhile (fun c => (Encoding.surrogate? c).isNone) = [] :=
      List.dropWhile_eq_nil_iff.mpr fun c hc => Option.isNone_iff_eq_none.mpr (h c hc)
    rw [hrest]
    rfl

theorem exists_surrogate_of_encodeFault? {fault : EncodeFault}
    (h : encodeFault? text = some fault) : ∃ c, (Encoding.surrogate? c).isSome := by
  by_contra hnone
  have hall : ∀ c ∈ text, Encoding.surrogate? c = none := by
    intro c _
    simpa using fun hsome => hnone ⟨c, hsome⟩
  rw [encodeFault?_eq_none_iff.mpr hall] at h
  cases h

end Encoding

end MonkeyLang.Text

import Mathlib.Logic.Relation
import MonkeyLang.Proofs.Lexer.Joined

/-!
Blanks in front of a token do not change the kinds and texts of the tokens of a source. The text of
a token ends before the blanks as it ended before the token that they were put in front of, unless
it is a text without its closing quote, and the tokens behind the blanks are tiled as before, in
other places.
-/
namespace MonkeyLang

def Token.movedTo (t : Token) (place : Nat × Nat) : Token :=
  { t with line := place.1, column := place.2 }

namespace Lexer

variable {before text rest : List Char} {t ending : Token} {ts : List Token}

/-! ### Places in one text -/

theorem eq_nil_of_placeAfter_append (h : placeAfter (before ++ text) = placeAfter before) :
    text = [] := by
  by_cases hnewline : '\n' ∈ text
  · have hpos : 0 < text.count '\n' := List.count_pos_iff.mpr hnewline
    rw [placeAfter_append_of_mem before hnewline] at h
    have hline : (placeAfter before).1 + text.count '\n' = (placeAfter before).1 :=
      congrArg Prod.fst h
    omega
  · rw [placeAfter_append_of_notMem before hnewline] at h
    have hcolumn : (placeAfter before).2 + text.length = (placeAfter before).2 :=
      congrArg Prod.snd h
    exact List.length_eq_zero_iff.mp (by omega)

theorem eq_of_placeAfter_eq {front front' back back' : List Char}
    (htext : front ++ back = front' ++ back') (hplace : placeAfter front = placeAfter front') :
    front = front' := by
  rcases List.append_eq_append_iff.mp htext with ⟨between, rfl, -⟩ | ⟨between, rfl, -⟩
  · rw [eq_nil_of_placeAfter_append hplace.symm, List.append_nil]
  · rw [eq_nil_of_placeAfter_append hplace, List.append_nil]

/-! ### Blanks behind a text -/

variable [Text.Alphabet]

theorem Apart.of_append (h : Apart (before ++ text) rest) : Apart text rest := by
  intro x hx
  apply h x
  rw [List.getLast?_append, show text.getLast? = some x from hx]
  rfl

theorem Apart.spaced {blanks : List Char} (h : Apart before rest)
    (hblanks : ∀ x ∈ blanks, isSkipped x) : Apart (before ++ blanks) rest := by
  apply Apart.blanks _ hblanks
  cases blanks with
  | nil => exact h
  | cons blank blanks =>
    have hblank := hblanks blank List.mem_cons_self
    rintro x _ _ ⟨⟩
    rw [isLetter_of_isSkipped hblank, (of_isSkipped hblank).2.2]
    exact ⟨Bool.and_false _, Bool.and_false _⟩

omit [Text.Alphabet] in
theorem mem_head?_spaced {front blanks back : List Char} (hblanks : ∀ x ∈ blanks, isSkipped x)
    {x : Char} (hx : x ∈ (front ++ (blanks ++ back)).head?) :
    x ∈ (front ++ back).head? ∨ isSkipped x := by
  cases front with
  | cons y front => exact .inl hx
  | nil =>
    cases blanks with
    | nil => exact .inl hx
    | cons blank blanks =>
      obtain rfl := Option.some.inj hx
      exact .inr (hblanks blank List.mem_cons_self)

theorem Spelled.spaced {l : Lexeme} {front blanks back : List Char}
    (h : Spelled l text (front ++ back)) (hblanks : ∀ x ∈ blanks, isSkipped x) :
    Spelled l text (front ++ (blanks ++ back)) ∨ front ++ back = [] ∧
      ∃ value, l = ⟨.string, String.ofList value⟩ ∧ text = '\x22' :: value := by
  -- A run that stops before the old text stops before a blank as well.
  have hstops : ∀ member : Char → Bool, (∀ x, isSkipped x → member x = false) →
      (∀ x ∈ (front ++ back).head?, member x = false) →
      ∀ x ∈ (front ++ (blanks ++ back)).head?, member x = false := by
    intro member hskipped hrest x hx
    rcases mem_head?_spaced hblanks hx with hx | hx
    · exact hrest x hx
    · exact hskipped x hx
  have hletter := hstops Text.isLetter fun _ hx => isLetter_of_isSkipped hx
  have hdigit := hstops Char.isDigit fun _ hx => (of_isSkipped hx).2.2
  have hequal : (front ++ back).head? ≠ some '=' →
      (front ++ (blanks ++ back)).head? ≠ some '=' := by
    intro hrest heq
    rcases mem_head?_spaced hblanks heq with hx | hx
    · exact hrest hx
    · exact absurd hx (by decide)
  generalize front ++ back = behind at h hletter hdigit hequal ⊢
  cases h with
  | equal => exact .inl (.equal _)
  | notEqual => exact .inl (.notEqual _)
  | char hkind hrest => exact .inl (.char hkind fun hc => hequal (hrest hc))
  | word hne hletters hrest => exact .inl (.word hne hletters (hletter hrest))
  | number hne hdigits hlength hvalue hrest =>
    exact .inl (.number hne hdigits hlength hvalue (hdigit hrest))
  | large hne hdigits hlength hvalue hrest =>
    exact .inl (.large hne hdigits hlength hvalue (hdigit hrest))
  | closed _ hvalue => exact .inl (.closed _ hvalue)
  | unclosed hvalue => exact .inr ⟨rfl, _, rfl, rfl⟩
  | illegal _ hkind hquote hletter hdigit hblank =>
    exact .inl (.illegal _ hkind hquote hletter hdigit hblank)

/-! ### Tilings without places -/

def TiledBy (before text : List Char) (ls : List Lexeme) : Prop :=
  ∃ ts ending, Tiled before text ts ending ∧ ts.map Token.lexeme = ls

theorem tiledBy_done {blanks : List Char} (hblanks : ∀ x ∈ blanks, isSkipped x) :
    TiledBy before blanks [] :=
  ⟨[], Token.movedTo ⟨.eof, "", 1, 1⟩ (placeAfter (before ++ blanks)), .done hblanks rfl rfl, rfl⟩

theorem TiledBy.token {blanks word : List Char} {l : Lexeme} {ls : List Lexeme}
    (h : TiledBy (before ++ blanks ++ word) rest ls) (hblanks : ∀ x ∈ blanks, isSkipped x)
    (hspelled : Spelled l word rest) (hapart : Apart (before ++ blanks) word) :
    TiledBy before (blanks ++ (word ++ rest)) (l :: ls) := by
  obtain ⟨ts, ending, htiled, rfl⟩ := h
  exact ⟨Token.movedTo ⟨l.kind, l.literal, 1, 1⟩ (placeAfter (before ++ blanks)) :: ts, ending,
    .token hblanks hspelled rfl hapart htiled, rfl⟩

/-- A tiling depends on the text before it by the places of the tokens and by its last character. -/
theorem Tiled.rebased {behind : List Char} (h : Tiled behind rest ts ending)
    (hbehind : behind = before ++ text) (hne : text ≠ []) (before' : List Char) :
    TiledBy (before' ++ text) rest (ts.map Token.lexeme) := by
  induction h generalizing text with
  | done hblanks => exact tiledBy_done hblanks
  | @token _ blanks word rest t ending ts hblanks hspelled _ hapart _ ih =>
    subst hbehind
    have hlonger : text ++ blanks ≠ [] := by simp [hne]
    have htail := @ih (text ++ blanks ++ word) (by simp) (by simp [hne])
    refine TiledBy.token ?_ hblanks hspelled ?_
    · simpa only [List.append_assoc] using htail
    · rw [List.append_assoc] at hapart ⊢
      exact hapart.of_append.behind hlonger

theorem Tiled.lexeme_ending (h : Tiled before text ts ending) : ending.lexeme = ⟨.eof, ""⟩ := by
  induction h with
  | done _ hlexeme => exact hlexeme
  | token _ _ _ _ _ ih => exact ih

theorem Tiled.eq_nil (h : Tiled before text ts ending) (htext : text = []) : ts = [] := by
  cases h with
  | done => rfl
  | token _ hspelled => simp [hspelled.ne_nil] at htext

/-! ### Blanks in front of a token -/

/-- A text that begins at one of the tokens goes on to the end without a closing quote. -/
def OpenAtEnd (before text : List Char) (ts : List Token) : Prop :=
  ∃ t ∈ ts, t.kind = .string ∧ ∃ front, t.place = placeAfter (before ++ front) ∧
    text = front ++ '"' :: t.literal.toList

omit [Text.Alphabet] in
theorem OpenAtEnd.cons {blanks word : List Char} (h : OpenAtEnd (before ++ blanks ++ word) rest ts)
    (t : Token) : OpenAtEnd before (blanks ++ (word ++ rest)) (t :: ts) := by
  obtain ⟨u, hu, hkind, front, hplace, rfl⟩ := h
  refine ⟨u, List.mem_cons_of_mem t hu, hkind, blanks ++ (word ++ front), ?_, ?_⟩
  · simpa only [List.append_assoc] using hplace
  · simp only [List.append_assoc]

theorem Tiled.spaced (h : Tiled before text ts ending) (ht : t ∈ ts ++ [ending])
    (hopen : t.kind = .eof → ¬ OpenAtEnd before text ts) :
    ∃ front back, text = front ++ back ∧ t.place = placeAfter (before ++ front) ∧
      ∀ blanks : List Char, (∀ x ∈ blanks, isSkipped x) →
        TiledBy before (front ++ (blanks ++ back)) (ts.map Token.lexeme) := by
  induction h with
  | @done before old ending hold hlexeme hplace =>
    obtain rfl := List.mem_singleton.mp ht
    refine ⟨old, [], (List.append_nil old).symm, hplace, fun blanks hblanks => ?_⟩
    rw [List.append_nil]
    exact tiledBy_done (List.forall_mem_append.mpr ⟨hold, hblanks⟩)
  | @token before old word rest u ending ts hold hspelled hplace hapart hrest ih =>
    rcases List.mem_cons.mp ht with rfl | ht
    · refine ⟨old, word ++ rest, rfl, hplace, fun blanks hblanks => ?_⟩
      have hnew := List.forall_mem_append.mpr ⟨hold, hblanks⟩
      rw [← List.append_assoc]
      refine TiledBy.token ?_ hnew hspelled ?_
      · exact hrest.rebased rfl hspelled.ne_nil _
      · rw [← List.append_assoc]
        exact hapart.spaced hblanks
    · obtain ⟨front, back, rfl, hfront, hspaced⟩ := ih ht fun heof hopen' =>
        hopen heof (hopen'.cons u)
      refine ⟨old ++ (word ++ front), back, by simp, ?_, fun blanks hblanks => ?_⟩
      · simpa only [List.append_assoc] using hfront
      · simp only [List.append_assoc]
        rcases hspelled.spaced hblanks with hspelled' | ⟨hend, value, hlexeme, rfl⟩
        · exact TiledBy.token (hspaced blanks hblanks) hold hspelled' hapart
        · -- Only the end of input is behind a text that is not closed.
          obtain rfl := hrest.eq_nil hend
          obtain rfl := List.mem_singleton.mp ht
          have heof : t.kind = .eof := congrArg Lexeme.kind hrest.lexeme_ending
          refine absurd ⟨u, List.mem_cons_self, ?_, old, hplace, ?_⟩ (hopen heof)
          · exact congrArg Lexeme.kind hlexeme
          · rw [hend, List.append_nil, show u.literal = String.ofList value from
              congrArg Lexeme.literal hlexeme, String.toList_ofList]

/-! ### Loosened sources -/

def EndsUnclosed (source : String) : Prop :=
  ∃ ts, tokens source = .ok ts ∧ OpenAtEnd [] source.toList ts

/-- Blanks are put in front of one token of a source. The end of input is such a token too, unless
it is reached inside a text. -/
inductive Loosened : String → String → Prop
  | insert {source : String} {ts : List Token} {t : Token} {front blanks back : List Char}
      (htokens : tokens source = .ok ts) (ht : t ∈ ts) (hsource : source.toList = front ++ back)
      (hplace : t.place = placeAfter front) (hblanks : ∀ x ∈ blanks, isSkipped x)
      (hend : t.kind = .eof → ¬ EndsUnclosed source) :
      Loosened source (String.ofList (front ++ (blanks ++ back)))

theorem tokens_of_tiled {source : String} (h : Tiled [] source.toList ts ending) :
    tokens source = .ok (ts ++ [ending]) := by
  simp only [tokens, scan_eq_iff_tiled.mpr h]

theorem Loosened.tiledBy {source source' : String} {ls : List Lexeme}
    (h : Loosened source source') (hsource : TiledBy [] source.toList ls) :
    TiledBy [] source'.toList ls := by
  obtain ⟨ts, ending, htiled, rfl⟩ := hsource
  cases h with
  | @insert ts' t front blanks back htokens ht hchars hplace hblanks hend =>
    rw [tokens_of_tiled htiled] at htokens
    obtain rfl := Except.ok.inj htokens
    have hopen : t.kind = .eof → ¬ OpenAtEnd [] source.toList ts := by
      intro heof ⟨u, hu, hopen⟩
      exact hend heof ⟨_, tokens_of_tiled htiled, u, List.mem_append_left _ hu, hopen⟩
    obtain ⟨front', back', hchars', hplace', hspaced⟩ := htiled.spaced ht hopen
    rw [hchars] at hchars'
    obtain rfl := eq_of_placeAfter_eq hchars' (hplace.symm.trans hplace')
    obtain rfl := List.append_cancel_left hchars'
    rw [String.toList_ofList]
    exact hspaced blanks hblanks

theorem tiledBy_of_loosened {source source' : String} {ls : List Lexeme}
    (h : Relation.ReflTransGen Loosened source source') (hsource : TiledBy [] source.toList ls) :
    TiledBy [] source'.toList ls := by
  induction h with
  | refl => exact hsource
  | tail _ hstep ih => exact hstep.tiledBy ih

end Lexer

end MonkeyLang

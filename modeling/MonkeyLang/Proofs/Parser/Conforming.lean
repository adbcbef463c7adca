import MonkeyLang.Proofs.Parser.Passing
import MonkeyLang.Proofs.Parser.Soundness
import MonkeyLang.Proofs.Syntax.WellMade

/-!
The parser on the tokens of a scan, whatever they are. One contract says how a parser comes past its
tokens and what the trees that it gives are like, and one pass over the grammar proves it. Neither
the bound on the nesting nor the one on repetitions is reached on the way, so a token is refused
only where no form begins with it.
-/
namespace MonkeyLang

structure IsToken [Text.Alphabet] (kind : TokenKind) (t : Token) : Prop where
  kind_eq : t.kind = kind
  lexed : kind ≠ .eof → t.lexeme.Lexed

theorem IsToken.lexed_literal [Text.Alphabet] {kind : TokenKind} {t : Token} (h : IsToken kind t)
    (hkind : kind ≠ .eof) : Lexeme.Lexed ⟨kind, t.literal⟩ := by
  have hlexeme : t.lexeme = ⟨kind, t.literal⟩ := by rw [← h.kind_eq]; rfl
  rw [← hlexeme]
  exact h.lexed hkind

theorem Operator.kind_ne_illegal (operator : Operator) : operator.kind ≠ .illegal := by
  cases operator <;> simp [kind]

namespace Stream.Supplies

variable {s : Stream} {ts : List Token} {kind : TokenKind}

theorem advance_tail [Text.Alphabet] (h : s.Supplies ts) : s.advance.Supplies ts.tail :=
  ⟨h.toHolds.advance_tail, fun t ht => h.lexed t (List.mem_of_mem_tail ht)⟩

theorem isToken_next [Text.Alphabet] (h : s.Supplies ts) (hkind : s.next.kind = kind) :
    IsToken kind s.next := by
  subst hkind
  refine ⟨rfl, fun heof => ?_⟩
  obtain ⟨_, _, _, hlexed⟩ := h.uncons heof
  exact hlexed

end Stream.Supplies

namespace Parser

open Node

variable [Text.Alphabet] {α β σ : Type} {good : α → Prop} {good' : β → Prop} {kind : TokenKind}
  {l n n' : Nat}
  {s : Stream} {ts : List Token} {p : Parser α} {sub : Sub}

/-- A parser that is given some tokens leaves at least `l` fewer of them, and where `l` is positive
its first token may have been left before. A value is good, and the token behind it was not left. -/
def Conformed (l : Nat) (s : Stream) (ts : List Token) (o : Outcome α) (good : α → Prop) : Prop :=
  ∃ us m', o.rest.Supplies us ∧ us.length ≤ ts.length - l ∧
    (∀ m, (l = 0 → m = false) → Passes s m o.reports o.rest m') ∧
    ∀ a ∈ o.value, m' = false ∧ good a

def ConformsAt (kind : TokenKind) (l n : Nat) (p : Parser α) (good : α → Prop) : Prop :=
  ∀ (s : Stream) (ts : List Token), s.Supplies ts → ts.length ≤ n → s.next.kind = kind →
    Conformed l s ts (p s) good

def Conforms (l n : Nat) (p : Parser α) (good : α → Prop) : Prop :=
  ∀ kind, ConformsAt kind l n p good

/-! ### Combinators -/

theorem Conformed.weaken {o : Outcome α} (h : Conformed l s ts o good) :
    Conformed 0 s ts o good := by
  obtain ⟨us, m', hus, hlength, hpasses, hgood⟩ := h
  refine ⟨us, m', hus, by omega, fun m hm => ?_, hgood⟩
  exact hpasses m fun _ => hm rfl

theorem ConformsAt.weaken (h : ConformsAt kind l n p good) : ConformsAt kind 0 n p good :=
  fun s ts hs hlength hkind => (h s ts hs hlength hkind).weaken

theorem Conforms.weaken (h : Conforms l n p good) : Conforms 0 n p good :=
  fun kind => (h kind).weaken

theorem Conforms.imp {better : α → Prop} (h : Conforms l n p better)
    (himp : ∀ a, better a → good a) : Conforms l n p good := by
  intro kind s ts hs hlength hkind
  obtain ⟨us, m', hus, hle, hpasses, hbetter⟩ := h kind s ts hs hlength hkind
  exact ⟨us, m', hus, hle, hpasses, fun a ha => (hbetter a ha).imp_right (himp a)⟩

theorem conforms_pure {a : α} (ha : good a) : Conforms 0 n (pure a) good := by
  intro kind s ts hs _ _
  refine ⟨ts, false, hs, Nat.le_refl _, fun m hm => ?_, ?_⟩
  · rw [hm rfl]
    exact .stays s false
  · rintro _ ⟨⟩
    exact ⟨rfl, ha⟩

theorem conformsAt_refuse (hkind : kind.opens = false) :
    ConformsAt kind 1 n (refuse .noRule) good := by
  rintro s ts hs _ rfl
  have hlength : ts.tail.length = ts.length - 1 := List.length_tail
  refine ⟨ts.tail, false, hs.advance_tail, Nat.le_of_eq hlength, fun m _ => ?_, ?_⟩
  · exact .refuses hkind (.stays s.advance false)
  · intro a ha
    cases ha

theorem Conformed.bind {k : α → Parser β} (hp : Conformed l s ts (p s) good)
    (hk : ∀ a us, good a → (p s).rest.Supplies us → us.length ≤ ts.length - l →
      Conformed 0 (p s).rest us (k a (p s).rest) good') :
    Conformed l s ts ((p >>= k) s) good' := by
  obtain ⟨us, m', hus, hlength, hpasses, hgood⟩ := hp
  cases hvalue : (p s).value with
  | none =>
    rw [bind_of_none hvalue]
    exact ⟨us, m', hus, hlength, hpasses, fun a ha => absurd ha (Option.not_mem_none a)⟩
  | some a =>
    obtain ⟨rfl, ha⟩ := hgood a hvalue
    obtain ⟨vs, m'', hvs, hlength', hpasses', hgood'⟩ := hk a us ha hus hlength
    rw [bind_of_some hvalue]
    refine ⟨vs, m'', hvs, by omega, fun m hm => ?_, hgood'⟩
    exact (hpasses m hm).trans (hpasses' false fun _ => rfl)

theorem ConformsAt.bind {k : α → Parser β} (hp : ConformsAt kind l n p good)
    (hk : ∀ a, good a → Conforms 0 n (k a) good') : ConformsAt kind l n (p >>= k) good' := by
  intro s ts hs hlength hkind
  apply (hp s ts hs hlength hkind).bind
  intro a us ha hus hle
  exact hk a ha _ _ us hus (by omega) rfl

theorem Conforms.bind {k : α → Parser β} (hp : Conforms l n p good)
    (hk : ∀ a, good a → Conforms 0 n (k a) good') : Conforms l n (p >>= k) good' :=
  fun kind => (hp kind).bind hk

theorem conformsAt_next_bind {k : Token → Parser β}
    (hk : ∀ t, IsToken kind t → ConformsAt kind l n (k t) good') :
    ConformsAt kind l n (next >>= k) good' := by
  intro s ts hs hlength hkind
  rw [bind_of_reads (reads_next.mpr ⟨rfl, rfl⟩)]
  exact hk s.next (hs.isToken_next hkind) s ts hs hlength hkind

theorem conformsAt_take_bind {k : Token → Parser β} (hillegal : kind ≠ .illegal) (hn : n ≤ n' + 1)
    (hk : ∀ t, IsToken kind t → Conforms 0 n' (k t) good') :
    ConformsAt kind 1 n (take >>= k) good' := by
  intro s ts hs hlength hkind
  have htail : ts.tail.length = ts.length - 1 := List.length_tail
  have hnext := hs.isToken_next hkind
  obtain ⟨us, m', hus, hle, hpasses, hgood⟩ :=
    hk s.next hnext _ s.advance ts.tail hs.advance_tail (by omega) rfl
  rw [bind_of_reads (reads_take.mpr ⟨rfl, rfl⟩)]
  refine ⟨us, m', hus, by omega, fun m _ => ?_, hgood⟩
  exact .takes (hkind ▸ hillegal) (hpasses false fun _ => rfl)

theorem conforms_expect (hlegal : kind.isLegal) :
    Conforms 0 n (expect kind) (IsToken kind) := by
  intro _ s ts hs _ _
  by_cases hkind : s.next.kind = kind
  · have hexpect : expect kind s = { value := some s.next, rest := s.advance } := if_pos hkind
    have htail : ts.tail.length = ts.length - 1 := List.length_tail
    rw [hexpect]
    refine ⟨ts.tail, false, hs.advance_tail, by omega, fun m _ => ?_, ?_⟩
    · exact .takes (hkind ▸ TokenKind.ne_illegal_of_isLegal hlegal) (.stays s.advance false)
    · rintro _ ⟨⟩
      exact ⟨rfl, hs.isToken_next hkind⟩
  · have hexpect : expect kind s =
        { value := none, rest := s, reports := [⟨.unexpected kind, s.next⟩] } := if_neg hkind
    rw [hexpect]
    refine ⟨ts, true, hs, Nat.le_refl _, fun m hm => ?_, fun a ha => ?_⟩
    · rw [hm rfl]
      exact .leaves hkind hlegal Bool.noConfusion (.stays s true)
    · cases ha

theorem conforms_skipOptional (hillegal : kind ≠ .illegal) :
    Conforms 0 n (skipOptional kind) fun _ => True := by
  intro _ s ts hs _ _
  by_cases hkind : s.next.kind = kind
  · have hskip : skipOptional kind s = { value := some (), rest := s.advance } := by
      rw [skipOptional, if_pos hkind]
    have htail : ts.tail.length = ts.length - 1 := List.length_tail
    rw [hskip]
    refine ⟨ts.tail, false, hs.advance_tail, by omega, fun m _ => ?_, fun _ _ => ⟨rfl, trivial⟩⟩
    exact .takes (hkind ▸ hillegal) (.stays s.advance false)
  · have hskip : skipOptional kind s = (pure () : Parser Unit) s := by
      rw [skipOptional, if_neg hkind]
      rfl
    rw [hskip]
    exact conforms_pure trivial _ s ts hs (Nat.le_refl _) rfl

theorem conforms_loop {step : σ → Parser (σ ⊕ α)} (invariant : σ → Prop)
    (hstep : ∀ state, invariant state → ∀ kind,
      (∃ a, good a ∧ ∀ s : Stream, s.next.kind = kind → Reads (step state) s (.inr a) s) ∨
        kind ≠ .eof ∧ ConformsAt kind 1 n (step state) fun r => ∃ state', r = .inl state' ∧
          invariant state')
    {state : σ} (hstate : invariant state) : Conforms 0 n (loop step state) good := by
  -- The bound on the repetitions is above the number of tokens left, so it does not come to zero.
  have hwithin : ∀ bound state s ts, invariant state → s.Supplies ts → ts.length ≤ n →
      ts.length < bound → Conformed 0 s ts (loopWithin bound step state s) good := by
    intro bound
    induction bound with
    | zero =>
      intro state s ts _ _ _ hbound
      exact absurd hbound (Nat.not_lt_zero _)
    | succ bound ih =>
      intro state s ts hstate hs hlength hbound
      rw [loopWithin]
      rcases hstep state hstate s.next.kind with ⟨a, ha, hdone⟩ | ⟨heof, hagain⟩
      · rw [bind_of_reads (hdone s rfl)]
        exact conforms_pure ha _ s ts hs hlength rfl
      · obtain ⟨_, hcons, -⟩ := hs.uncons heof
        have hpositive : 0 < ts.length := by rw [hcons]; exact Nat.succ_pos _
        apply ((hagain s ts hs hlength rfl).bind _).weaken
        rintro _ us ⟨state', rfl, hstate'⟩ hus hle
        exact ih state' _ us hstate' hus (by omega) (by omega)
  intro _ s ts hs hlength _
  have hpending := hs.length_le
  exact hwithin (s.pending.length + 1) state s ts hstate hs hlength (by omega)

/-! ### Lists -/

theorem conforms_listOf {item : Parser α} (hitem : Conforms l n item good) {close : TokenKind}
    (hclose : close.isLegal) :
    Conforms 0 n (listOf item close) fun items => ∀ a ∈ items, good a := by
  have hstep : ∀ items, (∀ a ∈ items, good a) → ∀ kind,
      (∃ found, (∀ a ∈ found, good a) ∧ ∀ s : Stream, s.next.kind = kind →
          Reads (listStep item items) s (.inr found) s) ∨
        kind ≠ .eof ∧ ConformsAt kind 1 n (listStep item items) fun r => ∃ found, r = .inl found ∧
          ∀ a ∈ found, good a := by
    intro items hitems kind
    by_cases hkind : kind = .comma
    · right
      subst hkind
      refine ⟨by decide, conformsAt_next_bind fun t ht => ?_⟩
      rw [if_pos ht.kind_eq]
      apply conformsAt_take_bind (by decide) (Nat.le_succ n)
      intro _ _
      apply hitem.weaken.bind
      intro a ha
      apply conforms_pure
      refine ⟨_, rfl, fun b hb => ?_⟩
      rcases List.mem_append.mp hb with hb | hb
      · exact hitems b hb
      · exact List.mem_singleton.mp hb ▸ ha
    · left
      refine ⟨items, hitems, fun s hs => ?_⟩
      rw [listStep, reads_bind]
      refine ⟨s.next, s, reads_next.mpr ⟨rfl, rfl⟩, ?_⟩
      rw [if_neg (hs ▸ hkind)]
      exact reads_pure.mpr ⟨rfl, rfl⟩
  intro kind
  apply conformsAt_next_bind
  intro t ht
  split
  · next hkind =>
    have htake : ConformsAt kind 1 n (do let _ ← take; return ([] : List α))
        fun items => ∀ a ∈ items, good a := by
      rw [← ht.kind_eq, hkind]
      exact conformsAt_take_bind (TokenKind.ne_illegal_of_isLegal hclose) (Nat.le_succ n) fun _ _ =>
        conforms_pure (List.forall_mem_nil _)
    exact htake.weaken
  · apply hitem.weaken.bind
    intro a ha
    have hfirst : ∀ b ∈ [a], good b := fun b hb => List.mem_singleton.mp hb ▸ ha
    apply (conforms_loop (fun items => ∀ b ∈ items, good b) hstep hfirst).bind
    intro items hitems
    apply (conforms_expect hclose).bind
    intro _ _
    exact conforms_pure hitems

theorem conformsAt_bracketed {item : Parser α} (hitem : Conforms l n item good)
    (hkind : kind ≠ .illegal) {close : TokenKind} (hclose : close.isLegal) :
    ConformsAt kind 1 (n + 1) (bracketed item close) fun items => ∀ a ∈ items, good a :=
  conformsAt_take_bind hkind (Nat.le_refl _) fun _ _ => conforms_listOf hitem hclose

/-! ### Statements and blocks -/

def SubConforms (n : Nat) (sub : Sub) : Prop := ∀ p, Conforms 1 n (sub p) SoundExpression

theorem conforms_terminated {node : Node} (h : node.SoundStatement) :
    Conforms 0 n (do skipOptional .semicolon; return node) SoundStatement :=
  (conforms_skipOptional (by decide)).bind fun _ _ => conforms_pure h

theorem conforms_statement (hsub : SubConforms n sub) :
    Conforms 1 n (statement sub) SoundStatement := by
  intro kind
  apply conformsAt_next_bind
  intro t ht
  split
  · next hkind =>
    apply conformsAt_take_bind (by rw [← ht.kind_eq, hkind]; decide) (Nat.le_succ n)
    intro _ _
    apply (conforms_expect (by decide)).bind
    intro name hname
    apply (conforms_expect (by decide)).bind
    intro _ _
    apply (hsub _).weaken.bind
    intro value hvalue
    exact conforms_terminated (.letBind (hname.lexed_literal (by decide)) hvalue)
  · next hkind =>
    apply conformsAt_take_bind (by rw [← ht.kind_eq, hkind]; decide) (Nat.le_succ n)
    intro _ _
    apply (hsub _).weaken.bind
    intro value hvalue
    exact conforms_terminated (.returning hvalue)
  · apply (hsub _ _).bind
    intro inner hinner
    exact conforms_terminated (.expression hinner)

/-- Reading statements goes on whatever happens to each of them, up to a token that ends them. -/
theorem statements_passes (ends : TokenKind → Bool) (hsub : SubConforms n sub) (heof : ends .eof)
    (hs : s.Supplies ts) (hlength : ts.length ≤ n) :
    ∃ (nodes : List Node) (t : Stream) (us : List Token) (ds : List Diagnostic) (m' : Bool),
      statements sub ends s = { value := some nodes, rest := t.advance, reports := ds } ∧
        (∀ c ∈ nodes, c.SoundStatement) ∧ t.Supplies us ∧ us.length ≤ ts.length ∧
        Passes s false ds t m' ∧ ends t.next.kind := by
  have hwithin : ∀ bound found s ts m, (∀ c ∈ found, c.SoundStatement) → s.Supplies ts →
      ts.length ≤ n → ts.length < bound →
      ∃ (nodes : List Node) (t : Stream) (us : List Token) (ds : List Diagnostic) (m' : Bool),
        loopWithin bound (statementStep sub ends) found s =
            { value := some nodes, rest := t, reports := ds } ∧
          (∀ c ∈ nodes, c.SoundStatement) ∧ t.Supplies us ∧ us.length ≤ ts.length ∧
          Passes s m ds t m' ∧ ends t.next.kind := by
    intro bound
    induction bound with
    | zero =>
      intro found s ts m _ _ _ hbound
      exact absurd hbound (Nat.not_lt_zero _)
    | succ bound ih =>
      intro found s ts m hfound hs hlength hbound
      cases hends : ends s.next.kind with
      | true =>
        refine ⟨found, s, ts, [], m, ?_, hfound, hs, Nat.le_refl _, .stays s m, hends⟩
        exact loopWithin_of_ends hends (Nat.succ_pos bound)
      | false =>
        have hnext : s.next.kind ≠ .eof := fun h => by simp [h, heof] at hends
        obtain ⟨_, hcons, -⟩ := hs.uncons hnext
        have hpositive : 0 < ts.length := by rw [hcons]; exact Nat.succ_pos _
        obtain ⟨us, m', hus, hle, hpasses, hgood⟩ :=
          conforms_statement hsub _ s ts hs hlength rfl
        have hmore : ∀ c ∈ found ++ (statement sub s).value.toList, c.SoundStatement := by
          intro c hc
          rcases List.mem_append.mp hc with hc | hc
          · exact hfound c hc
          · exact (hgood c (Option.mem_toList.mp hc)).2
        obtain ⟨nodes, t, vs, ds, m'', hloop, hnodes, hvs, hle', hpasses', hstop⟩ :=
          ih _ _ us m' hmore hus (by omega) (by omega)
        have hstep : statementStep sub ends found s = _ := statementStep_of_not_ends hends
        refine ⟨nodes, t, vs, (statement sub s).reports ++ ds, m'', ?_, hnodes, hvs, by omega,
          (hpasses m Nat.noConfusion).trans hpasses', hstop⟩
        rw [loopWithin, bind_of_some (congrArg Outcome.value hstep), hstep]
        simp only [hloop]
  have hpending := hs.length_le
  obtain ⟨nodes, t, us, ds, m', hloop, hnodes, hus, hle, hpasses, hstop⟩ :=
    hwithin (s.pending.length + 1) [] s ts false (List.forall_mem_nil _) hs hlength (by omega)
  refine ⟨nodes, t, us, ds, m', ?_, hnodes, hus, hle, hpasses, hstop⟩
  have hfound : loop (statementStep sub ends) [] s =
      { value := some nodes, rest := t, reports := ds } := hloop
  rw [statements, bind_of_some (congrArg Outcome.value hfound), hfound]
  simp [bind, andThen, take, pure, succeed]

theorem conforms_blockBody (hsub : SubConforms n sub) :
    Conforms 0 n (blockBody sub) SoundBlock := by
  intro kind s ts hs hlength _
  obtain ⟨nodes, t, us, ds, m', hstatements, hnodes, hus, hle, hpasses, hstop⟩ :=
    statements_passes endsBlock hsub rfl hs hlength
  have hnext : t.next.kind ≠ .illegal := by
    intro hkind
    rw [hkind] at hstop
    exact absurd hstop (by decide)
  have hvalue := congrArg Outcome.value hstatements
  have htail : us.tail.length = us.length - 1 := List.length_tail
  rw [blockBody, bind_of_some hvalue, hstatements]
  refine ⟨us.tail, false, hus.advance_tail, by omega, fun m hm => ?_, ?_⟩
  · rw [hm rfl]
    exact hpasses.trans (.takes hnext (.stays t.advance false))
  · rintro _ ⟨⟩
    exact ⟨rfl, soundBlock_of hnodes⟩

/-! ### Forms that begin an expression -/

theorem conformsAt_integerLiteral : ConformsAt .int 1 n integerLiteral SoundExpression := by
  apply conformsAt_next_bind
  intro t ht
  obtain ⟨value, hvalue⟩ : ∃ value, Numeral t.literal.toList value := ht.lexed_literal (by decide)
  have hread : Text.integer? t.literal = some value := by
    rw [← hvalue.integer?_eq, String.ofList_toList]
  rw [hread]
  apply conformsAt_take_bind (by decide) (Nat.le_succ n)
  intro _ _
  exact conforms_pure (.integer hvalue.value_nonneg hvalue.value_le)

theorem conformsAt_prefixExpression (hsub : SubConforms n sub) (operator : Operator)
    (known : operator ∈ Operator.leading) :
    ConformsAt operator.kind 1 (n + 1) (prefixExpression sub) SoundExpression := by
  apply conformsAt_take_bind operator.kind_ne_illegal (Nat.le_refl _)
  intro t ht
  have hlexeme : t.lexeme = operator.lexeme :=
    (ht.lexed operator.kind_ne_eof).eq_lexeme ht.kind_eq operator.isFixed_kind
  apply (hsub _).weaken.bind
  intro right hright
  rw [Operator.ofText_literal (List.mem_append_left _ known) hlexeme]
  exact conforms_pure (.prefixOp known hright)

theorem conformsAt_groupedExpression (hsub : SubConforms n sub) :
    ConformsAt .leftParen 1 (n + 1) (groupedExpression sub) SoundExpression := by
  apply conformsAt_take_bind (by decide) (Nat.le_refl _)
  intro _ _
  apply (hsub _).weaken.bind
  intro inner hinner
  apply (conforms_expect (by decide)).bind
  intro _ _
  exact conforms_pure (.grouped hinner)

theorem conforms_elseBranch (hsub : SubConforms n sub) :
    Conforms 0 n (elseBranch sub) fun c => c = .hole ∨ c.SoundBlock := by
  intro kind
  apply conformsAt_next_bind
  intro t ht
  split
  · next hkind =>
    have htake : ConformsAt kind 1 n
        (do let _ ← take; let _ ← expect .leftBrace; blockBody sub)
        fun c => c = .hole ∨ c.SoundBlock := by
      apply conformsAt_take_bind (by rw [← ht.kind_eq, hkind]; decide) (Nat.le_succ n)
      intro _ _
      apply (conforms_expect (by decide)).bind
      intro _ _
      exact (conforms_blockBody hsub).imp fun _ => Or.inr
    exact htake.weaken
  · apply conforms_pure
    exact Or.inl rfl

theorem conformsAt_conditional (hsub : SubConforms n sub) :
    ConformsAt .ifWord 1 (n + 1) (conditional sub) SoundExpression := by
  apply conformsAt_take_bind (by decide) (Nat.le_refl _)
  intro _ _
  apply (conforms_expect (by decide)).bind
  intro _ _
  apply (hsub _).weaken.bind
  intro condition hcondition
  apply (conforms_expect (by decide)).bind
  intro _ _
  apply (conforms_expect (by decide)).bind
  intro _ _
  apply (conforms_blockBody hsub).bind
  intro consequence hconsequence
  apply (conforms_elseBranch hsub).bind
  intro alternative halternative
  exact conforms_pure (.conditional hcondition hconsequence halternative)

theorem conformsAt_functionLiteral (hsub : SubConforms n sub) :
    ConformsAt .fnWord 1 (n + 1) (functionLiteral sub) SoundExpression := by
  have hparameter : Conforms 0 n parameter IsName :=
    (conforms_expect (by decide)).bind fun _ ht => conforms_pure (ht.lexed_literal (by decide))
  apply conformsAt_take_bind (by decide) (Nat.le_refl _)
  intro _ _
  apply (conforms_expect (by decide)).bind
  intro _ _
  apply (conforms_listOf hparameter (by decide)).bind
  intro parameters hparameters
  apply (conforms_expect (by decide)).bind
  intro _ _
  apply (conforms_blockBody hsub).bind
  intro body hbody
  exact conforms_pure (.function hparameters hbody)

theorem conformsAt_mapLiteral (hsub : SubConforms n sub) :
    ConformsAt .leftBrace 1 (n + 1) (mapLiteral sub) SoundExpression := by
  have hentry : Conforms 1 n (mapEntry sub) fun e => e.1.SoundExpression ∧ e.2.SoundExpression := by
    apply (hsub _).bind
    intro key hkey
    apply (conforms_expect (by decide)).bind
    intro _ _
    apply (hsub _).weaken.bind
    intro value hvalue
    exact conforms_pure ⟨hkey, hvalue⟩
  apply (conformsAt_bracketed hentry (by decide) (by decide)).bind
  intro entries hentries
  exact conforms_pure (.mapping hentries)

theorem conformsAt_prefixRule? (hsub : SubConforms n sub) {rule : Parser Node}
    (h : prefixRule? sub kind = some rule) :
    ConformsAt kind 1 (n + 1) rule SoundExpression := by
  have hboolean : ∀ kind, kind ≠ .illegal →
      ConformsAt kind 1 (n + 1) booleanLiteral SoundExpression := fun kind hkind =>
    conformsAt_take_bind hkind (Nat.le_refl _) fun _ _ => conforms_pure (.boolean _)
  cases kind <;> cases h
  case ident =>
    exact conformsAt_take_bind (by decide) (Nat.le_refl _) fun _ ht =>
      conforms_pure (.identifier (ht.lexed_literal (by decide)))
  case int => exact conformsAt_integerLiteral
  case string =>
    exact conformsAt_take_bind (by decide) (Nat.le_refl _) fun _ ht =>
      conforms_pure (.text (ht.lexed_literal (by decide)))
  case bang => exact conformsAt_prefixExpression hsub .bang (by decide)
  case minus => exact conformsAt_prefixExpression hsub .minus (by decide)
  case trueWord => exact hboolean .trueWord (by decide)
  case falseWord => exact hboolean .falseWord (by decide)
  case leftParen => exact conformsAt_groupedExpression hsub
  case ifWord => exact conformsAt_conditional hsub
  case fnWord => exact conformsAt_functionLiteral hsub
  case leftBracket =>
    exact (conformsAt_bracketed (hsub _) (by decide) (by decide)).bind fun _ helements =>
      conforms_pure (.array helements)
  case leftBrace => exact conformsAt_mapLiteral hsub

/-! ### Operators behind an expression -/

theorem conformsAt_infixRule? (hsub : SubConforms n sub) {rule : Node → Parser Node}
    (h : infixRule? sub kind = some rule) {left : Node} (hleft : left.SoundExpression) :
    ConformsAt kind 1 (n + 1) (rule left) SoundExpression := by
  rcases infixRule?_cases h with ⟨operator, known, rfl, rfl⟩ | ⟨rfl, rfl⟩ | ⟨rfl, rfl⟩
  · apply conformsAt_take_bind operator.kind_ne_illegal (Nat.le_refl _)
    intro t ht
    have hlexeme : t.lexeme = operator.lexeme :=
      (ht.lexed operator.kind_ne_eof).eq_lexeme ht.kind_eq operator.isFixed_kind
    apply (hsub _).weaken.bind
    intro right hright
    rw [Operator.ofText_literal (List.mem_append_right _ known) hlexeme]
    exact conforms_pure (.infixOp known hleft hright)
  · exact (conformsAt_bracketed (hsub _) (by decide) (by decide)).bind fun _ harguments =>
      conforms_pure (.call hleft harguments)
  · apply conformsAt_take_bind (by decide) (Nat.le_refl _)
    intro _ _
    apply (hsub _).weaken.bind
    intro position hposition
    apply (conforms_expect (by decide)).bind
    intro _ _
    exact conforms_pure (.index hleft hposition)

theorem conforms_operators (hsub : SubConforms n sub) (precedence : Nat) {left : Node}
    (hleft : left.SoundExpression) :
    Conforms 0 (n + 1) (loop (operatorStep sub precedence) left) SoundExpression := by
  refine conforms_loop SoundExpression (fun left hleft kind => ?_) hleft
  have hdone : ∀ s : Stream, s.next.kind = kind →
      (precedence < kind.precedence → infixRule? sub kind = none) →
      Reads (operatorStep sub precedence left) s (.inr left) s := by
    rintro s rfl hnone
    rw [operatorStep, reads_bind]
    refine ⟨s.next, s, reads_next.mpr ⟨rfl, rfl⟩, ?_⟩
    dsimp only
    split
    · next hlt =>
      rw [hnone hlt]
      exact reads_pure.mpr ⟨rfl, rfl⟩
    · exact reads_pure.mpr ⟨rfl, rfl⟩
  by_cases hlt : precedence < kind.precedence
  · cases hrule : infixRule? sub kind with
    | none => exact Or.inl ⟨left, hleft, fun s hs => hdone s hs fun _ => hrule⟩
    | some rule =>
      right
      refine ⟨?_, conformsAt_next_bind fun t ht => ?_⟩
      · rintro rfl
        cases hrule
      · dsimp only
        rw [ht.kind_eq, if_pos hlt, hrule]
        apply (conformsAt_infixRule? hsub hrule hleft).bind
        intro node hnode
        exact conforms_pure ⟨node, rfl, hnode⟩
  · exact Or.inl ⟨left, hleft, fun s hs => hdone s hs fun h => absurd h hlt⟩

/-! ### Expressions and programs -/

omit [Text.Alphabet] in
theorem opens_eq_false_of_prefixRule? (h : prefixRule? sub kind = none) : kind.opens = false := by
  cases kind <;> first | rfl | cases h

theorem subConforms_expressionForm (hsub : SubConforms n sub) :
    SubConforms (n + 1) (expressionForm sub) := by
  intro precedence kind
  apply conformsAt_next_bind
  intro t ht
  split
  · next rule hrule =>
    rw [ht.kind_eq] at hrule
    apply (conformsAt_prefixRule? hsub hrule).bind
    intro node hnode
    exact conforms_operators hsub precedence hnode
  · next hrule =>
    rw [ht.kind_eq] at hrule
    exact conformsAt_refuse (opens_eq_false_of_prefixRule? hrule)

/-- With as many levels as there are tokens, the nesting is not cut off before the end of input. -/
theorem subConforms_expressionWithin (depth : Nat) :
    SubConforms depth (expressionWithin depth) := by
  induction depth with
  | zero =>
    intro _ kind s ts hs hlength hkind
    obtain rfl := List.eq_nil_of_length_eq_zero (Nat.le_zero.mp hlength)
    exact conformsAt_refuse (by rw [← hkind, hs.next_kind]; rfl) s [] hs hlength hkind
  | succ depth ih => exact subConforms_expressionForm ih

theorem subConforms_expression : SubConforms n expression := by
  intro precedence kind s ts hs _ hkind
  have hpending := hs.length_le
  exact subConforms_expressionWithin _ precedence kind s ts hs (by omega) hkind

end Parser

/-- The whole source is passed, and the program read from it is sound. -/
theorem passes_parseScan [Text.Alphabet] (source : String) :
    ∃ (nodes : List Node) (t : Stream) (m : Bool),
      (parseScan (Lexer.scan source)).program = .program nodes ∧
        (∀ c ∈ nodes, c.SoundStatement) ∧ t.Holds [] ∧
        Passes (.ofScan (Lexer.scan source)) false (parseScan (Lexer.scan source)).diagnostics
          t m := by
  obtain ⟨nodes, t, us, ds, m, hstatements, hnodes, hus, -, hpasses, hstop⟩ :=
    Parser.statements_passes Parser.endsProgram Parser.subConforms_expression rfl
      (supplies_ofScan source) (Nat.le_refl _)
  obtain rfl := hus.toHolds.eq_nil_of_next (of_decide_eq_true hstop)
  have hprogram : Parser.program (.ofScan (Lexer.scan source)) =
      { value := some (.program nodes), rest := t.advance, reports := ds } := by
    rw [Parser.program, Parser.bind_of_some (congrArg Outcome.value hstatements), hstatements]
    simp [pure, Parser.succeed]
  rw [parseScan, hprogram]
  exact ⟨nodes, t, m, rfl, hnodes, hus.toHolds, hpasses⟩

end MonkeyLang

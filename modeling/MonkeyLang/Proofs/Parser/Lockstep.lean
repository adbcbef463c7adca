import Mathlib.Data.List.Forall2
import MonkeyLang.Proofs.Parser.Blames
import MonkeyLang.Proofs.Syntax.Written

/-!
Two parsers on two streams that begin alike. As long as neither has come to where the streams
differ, they do the same: they look at no token behind the next one. Behind that place each reports
none but the tokens there, so what is reported about the tokens that both streams have is the same.

The parsers of the two runs differ in how deep they may nest and how often they may repeat, since
that depends on the length of the stream; neither bound is ever reached.
-/
namespace MonkeyLang

namespace Stream

variable {s : Stream}

def skip (s : Stream) (n : Nat) : Stream := { s with pending := s.pending.drop n }

theorem skip_skip (s : Stream) (m n : Nat) : (s.skip m).skip n = s.skip (m + n) := by
  simp [skip, List.drop_drop]

theorem advance_skip (s : Stream) (n : Nat) : (s.skip n).advance = s.skip (n + 1) := by
  simp [skip, advance, List.tail_drop]

theorem length_skip (s : Stream) (n : Nat) :
    (s.skip n).pending.length = s.pending.length - n := List.length_drop

theorem next_skip (s : Stream) (n : Nat) :
    (s.skip n).next ∈ s.pending.drop n ∨ (s.skip n).next = s.ending := by
  unfold next skip
  cases s.pending.drop n with
  | nil => exact Or.inr rfl
  | cons t ts => exact Or.inl (by simp)

theorem lt_length_of_next (hending : s.ending.kind = .eof) {n : Nat}
    (h : (s.skip n).next.kind ≠ .eof) : n < s.pending.length := by
  refine Nat.lt_of_not_le fun hle => h ?_
  rw [next, show (s.skip n).pending = [] from List.drop_eq_nil_of_le hle]
  exact hending

end Stream

namespace Parser

variable {α β σ : Type}

/-! ### Parsers keep to their stream -/

/-- Whatever the stream, the parser goes on in it and reports none but its tokens. -/
def Keeps (p : Parser α) : Prop :=
  ∀ s, (∃ n, (p s).rest = s.skip n) ∧ ∀ d ∈ (p s).reports, ∃ n, d.token = (s.skip n).next

theorem keeps_pure {a : α} : Keeps (pure a) := fun _ => ⟨⟨0, rfl⟩, List.forall_mem_nil _⟩

theorem keeps_next : Keeps next := fun _ => ⟨⟨0, rfl⟩, List.forall_mem_nil _⟩

theorem keeps_take : Keeps take :=
  fun s => ⟨⟨1, s.advance_skip 0⟩, List.forall_mem_nil _⟩

theorem keeps_refuse {fault : Fault} : Keeps (refuse fault : Parser α) := by
  refine fun s => ⟨⟨1, s.advance_skip 0⟩, fun d hd => ⟨0, ?_⟩⟩
  rw [List.mem_singleton.mp hd]
  rfl

theorem keeps_expect {kind : TokenKind} : Keeps (expect kind) := by
  intro s
  unfold expect
  split
  · exact ⟨⟨1, s.advance_skip 0⟩, List.forall_mem_nil _⟩
  · refine ⟨⟨0, rfl⟩, fun d hd => ⟨0, ?_⟩⟩
    rw [List.mem_singleton.mp hd]
    rfl

theorem keeps_skipOptional {kind : TokenKind} : Keeps (skipOptional kind) := by
  intro s
  refine ⟨?_, List.forall_mem_nil _⟩
  by_cases hkind : s.next.kind = kind
  · exact ⟨1, (if_pos hkind).trans (s.advance_skip 0)⟩
  · exact ⟨0, if_neg hkind⟩

theorem Keeps.attempt {p : Parser α} (h : Keeps p) : Keeps (attempt p) := fun s => h s

theorem Keeps.bind {p : Parser α} {k : α → Parser β} (hp : Keeps p) (hk : ∀ a, Keeps (k a)) :
    Keeps (p >>= k) := by
  intro s
  obtain ⟨⟨m, hrest⟩, hreports⟩ := hp s
  cases hvalue : (p s).value with
  | none =>
    rw [bind_of_none hvalue]
    exact ⟨⟨m, hrest⟩, hreports⟩
  | some a =>
    obtain ⟨⟨n, hrest'⟩, hreports'⟩ := hk a (p s).rest
    rw [bind_of_some hvalue]
    rw [hrest] at hrest' hreports' ⊢
    refine ⟨⟨m + n, hrest'.trans (s.skip_skip m n)⟩, fun d hd => ?_⟩
    rcases List.mem_append.mp hd with hd | hd
    · exact hreports d hd
    · obtain ⟨n, hn⟩ := hreports' d hd
      exact ⟨m + n, hn.trans (by rw [s.skip_skip])⟩

theorem Keeps.loopWithin {step : σ → Parser (σ ⊕ α)} (hstep : ∀ state, Keeps (step state))
    (bound : Nat) : ∀ state, Keeps (loopWithin bound step state) := by
  induction bound with
  | zero => exact fun _ => keeps_refuse
  | succ bound ih =>
    intro state
    refine (hstep state).bind fun result => ?_
    cases result with
    | inl state' => exact ih state'
    | inr a => exact keeps_pure

theorem Keeps.blames {p : Parser α} (hp : Keeps p) {s : Stream} {t : Token} (h : Blames p s t) :
    ∃ n, t = (s.skip n).next := by
  obtain ⟨d, hd, rfl⟩ := Option.map_eq_some_iff.mp h
  exact (hp s).2 d (List.mem_of_mem_head? hd)

/-! ### Two streams that begin alike -/

end Parser

open MonkeyLang.Parser

/-- Two streams with the same lexemes at all places that are near. -/
structure Lockstep where
  first : Stream
  second : Stream
  near : Nat → Prop
  near_of_le : ∀ {i j : Nat}, i ≤ j → near j → near i
  lexeme_eq : ∀ {i : Nat}, near i → (first.skip i).next.lexeme = (second.skip i).next.lexeme
  first_ending : first.ending.kind = .eof
  second_ending : second.ending.kind = .eof

namespace Lockstep

variable {α β σ : Type} {L : Lockstep} {i j : Nat}

theorem kind_eq (h : L.near i) : (L.first.skip i).next.kind = (L.second.skip i).next.kind :=
  congrArg Lexeme.kind (L.lexeme_eq h)

theorem not_near_add (h : ¬ L.near i) (n : Nat) : ¬ L.near (i + n) :=
  fun hnear => h (L.near_of_le (Nat.le_add_right i n) hnear)

def SameReport (L : Lockstep) (d d' : Diagnostic) : Prop :=
  d'.fault = d.fault ∧
    ∃ m, L.near m ∧ d.token = (L.first.skip m).next ∧ d'.token = (L.second.skip m).next

def Far (L : Lockstep) (s : Stream) (reports : List Diagnostic) : Prop :=
  ∀ d ∈ reports, ∃ j, ¬ L.near j ∧ d.token = (s.skip j).next

/-- The parser has left the places that are near, with the given reports and then none but far
ones. -/
structure Departed (L : Lockstep) (s : Stream) (shared : List Diagnostic) (o : Outcome α) :
    Prop where
  rest : ∃ j, ¬ L.near j ∧ o.rest = s.skip j
  reports : ∃ later, o.reports = shared ++ later ∧ L.Far s later

/-- How two runs from one place end: both give the same and are at one place again, having taken as
many tokens as the value asks for; or both have left the places that are near. -/
inductive Meets (L : Lockstep) (least : Option α → Nat) (i : Nat) (o o' : Outcome α) : Prop
  | both {value : Option α} {reports reports' : List Diagnostic} {j : Nat}
      (hj : i + least value ≤ j) (hnear : L.near j) (hvalue : value = none → reports ≠ [])
      (hreports : List.Forall₂ L.SameReport reports reports')
      (hfirst : o = ⟨value, L.first.skip j, reports⟩)
      (hsecond : o' = ⟨value, L.second.skip j, reports'⟩)
  | apart {shared shared' : List Diagnostic} (hshared : List.Forall₂ L.SameReport shared shared')
      (hfirst : L.Departed L.first shared o) (hsecond : L.Departed L.second shared' o')

section Departed

variable {s : Stream} {shared reports : List Diagnostic}

theorem departed_of_keeps {p : Parser α} (hp : Keeps p) (hj : ¬ L.near j) :
    L.Departed s [] (p (s.skip j)) := by
  obtain ⟨⟨n, hrest⟩, hreports⟩ := hp (s.skip j)
  refine ⟨⟨j + n, not_near_add hj n, ?_⟩, _, rfl, fun d hd => ?_⟩
  · rw [hrest, Stream.skip_skip]
  · obtain ⟨m, hm⟩ := hreports d hd
    exact ⟨j + m, not_near_add hj m, by rw [hm, Stream.skip_skip]⟩

theorem Departed.bind {p : Parser α} {k : α → Parser β}
    (h : L.Departed s shared (p (s.skip i))) (hk : ∀ a, Keeps (k a)) :
    L.Departed s shared ((p >>= k) (s.skip i)) := by
  obtain ⟨⟨j, hj, hrest⟩, later, hreports, hlater⟩ := h
  cases hvalue : (p (s.skip i)).value with
  | none =>
    rw [bind_of_none hvalue]
    exact ⟨⟨j, hj, hrest⟩, later, hreports, hlater⟩
  | some a =>
    rw [bind_of_some hvalue, hrest]
    obtain ⟨hrest', later', hreports', hlater'⟩ := departed_of_keeps (s := s) (hk a) hj
    refine ⟨hrest', later ++ later', ?_, List.forall_mem_append.mpr ⟨hlater, hlater'⟩⟩
    rw [hreports, hreports', List.nil_append, List.append_assoc]

theorem Departed.prepend {o : Outcome α} (h : L.Departed s shared o) :
    L.Departed s (reports ++ shared) { o with reports := reports ++ o.reports } := by
  obtain ⟨hrest, later, hreports, hlater⟩ := h
  exact ⟨hrest, later, by rw [hreports, List.append_assoc], hlater⟩

end Departed

section Meets

variable {least least' : Option α → Nat} {o o' : Outcome α} {value : Option α}
  {reports reports' : List Diagnostic}

theorem meets_at (hj : i + least value ≤ j) (hvalue : value = none → reports ≠ [])
    (hreports : List.Forall₂ L.SameReport reports reports') :
    L.Meets least i ⟨value, L.first.skip j, reports⟩ ⟨value, L.second.skip j, reports'⟩ := by
  by_cases hnear : L.near j
  · exact .both hj hnear hvalue hreports rfl rfl
  · exact .apart hreports ⟨⟨j, hnear, rfl⟩, [], (List.append_nil _).symm, List.forall_mem_nil _⟩
      ⟨⟨j, hnear, rfl⟩, [], (List.append_nil _).symm, List.forall_mem_nil _⟩

theorem Meets.exists_shared (h : L.Meets least i o o') :
    ∃ shared shared' later later', List.Forall₂ L.SameReport shared shared' ∧
      o.reports = shared ++ later ∧ L.Far L.first later ∧
      o'.reports = shared' ++ later' ∧ L.Far L.second later' := by
  cases h with
  | both _ _ _ hreports hfirst hsecond =>
    subst hfirst hsecond
    exact ⟨_, _, [], [], hreports, (List.append_nil _).symm, List.forall_mem_nil _,
      (List.append_nil _).symm, List.forall_mem_nil _⟩
  | apart hshared hfirst hsecond =>
    obtain ⟨later, hreports, hfar⟩ := hfirst.reports
    obtain ⟨later', hreports', hfar'⟩ := hsecond.reports
    exact ⟨_, _, later, later', hshared, hreports, hfar, hreports', hfar'⟩

theorem Meets.shift (h : L.Meets least j o o') (hle : ∀ v, i + least' v ≤ j + least v) :
    L.Meets least' i o o' := by
  cases h with
  | both hj hnear hvalue hreports hfirst hsecond =>
    exact .both (Nat.le_trans (hle _) hj) hnear hvalue hreports hfirst hsecond
  | apart hshared hfirst hsecond => exact .apart hshared hfirst hsecond

theorem Meets.prepend (h : L.Meets least i o o')
    (hreports : List.Forall₂ L.SameReport reports reports') :
    L.Meets least i { o with reports := reports ++ o.reports }
      { o' with reports := reports' ++ o'.reports } := by
  cases h with
  | both hj hnear hvalue hmore hfirst hsecond =>
    subst hfirst hsecond
    refine .both hj hnear (fun hnone hnil => ?_) (List.rel_append hreports hmore) rfl rfl
    exact hvalue hnone (List.append_eq_nil_iff.mp hnil).2
  | apart hshared hfirst hsecond =>
    exact .apart (List.rel_append hreports hshared) hfirst.prepend hsecond.prepend

theorem meets_of_not_near {p p' : Parser α} (hp : Keeps p ∧ Keeps p') (hj : ¬ L.near j) :
    L.Meets least i (p (L.first.skip j)) (p' (L.second.skip j)) :=
  .apart .nil (departed_of_keeps hp.1 hj) (departed_of_keeps hp.2 hj)

theorem Meets.bind {least' : Option β → Nat} {p p' : Parser α} {k k' : α → Parser β}
    (hp : L.Meets least i (p (L.first.skip i)) (p' (L.second.skip i)))
    (hkeeps : ∀ {j}, ¬ L.near j → ∀ a, Keeps (k a) ∧ Keeps (k' a))
    (hnone : least' none ≤ least none)
    (hk : ∀ a j, i + least (some a) ≤ j → L.near j → (p (L.first.skip i)).value = some a →
      L.Meets least' i (k a (L.first.skip j)) (k' a (L.second.skip j))) :
    L.Meets least' i ((p >>= k) (L.first.skip i)) ((p' >>= k') (L.second.skip i)) := by
  cases hp with
  | @both value _ _ j hj hnear hvalue hreports hfirst hsecond =>
    cases value with
    | none =>
      rw [bind_of_none (by rw [hfirst]), bind_of_none (by rw [hsecond]), hfirst, hsecond]
      exact .both (by omega) hnear (fun _ => hvalue rfl) hreports rfl rfl
    | some a =>
      have hmeets := hk a j hj hnear (by rw [hfirst])
      rw [bind_of_some (by rw [hfirst]), bind_of_some (by rw [hsecond]), hfirst, hsecond]
      exact hmeets.prepend hreports
  | apart hshared hfirst hsecond =>
    obtain ⟨j, hj, -⟩ := hfirst.rest
    exact .apart hshared (hfirst.bind fun a => (hkeeps hj a).1)
      (hsecond.bind fun a => (hkeeps hj a).2)

end Meets

/-- The place is near, and no more tokens are left than the bounds say. -/
structure Room (L : Lockstep) (depth depth' i : Nat) : Prop where
  near : L.near i
  first_le : (L.first.skip i).pending.length ≤ depth
  second_le : (L.second.skip i).pending.length ≤ depth'

theorem Room.of_le {depth depth' : Nat} (h : L.Room depth depth' i) (hij : i ≤ j)
    (hnear : L.near j) : L.Room depth depth' j := by
  obtain ⟨-, hfirst, hsecond⟩ := h
  rw [Stream.length_skip] at hfirst hsecond
  refine ⟨hnear, ?_, ?_⟩
  all_goals
    rw [Stream.length_skip]
    omega

theorem Room.succ {depth depth' : Nat} (h : L.Room (depth + 1) (depth' + 1) i)
    (hnear : L.near (i + 1)) : L.Room depth depth' (i + 1) := by
  obtain ⟨-, hfirst, hsecond⟩ := h
  rw [Stream.length_skip] at hfirst hsecond
  refine ⟨hnear, ?_, ?_⟩
  all_goals
    rw [Stream.length_skip]
    omega

/-- From every place with room the two parsers meet. -/
structure Tracks (L : Lockstep) (depth depth' : Nat) (least : Option α → Nat) (p p' : Parser α) :
    Prop where
  keeps : ∀ {j : Nat}, ¬ L.near j → Keeps p ∧ Keeps p'
  meets : ∀ {i : Nat}, L.Room depth depth' i →
    L.Meets least i (p (L.first.skip i)) (p' (L.second.skip i))

/-! ### Combinators -/

section Combinators

variable {depth depth' l : Nat} {least : Option α → Nat} {least' : Option β → Nat}
  {p p' : Parser α}

theorem Tracks.weaken {less : Option α → Nat} (h : L.Tracks depth depth' least p p')
    (hle : ∀ v, less v ≤ least v) : L.Tracks depth depth' less p p' :=
  ⟨h.keeps, fun hi => (h.meets hi).shift fun v => Nat.add_le_add_left (hle v) _⟩

theorem Tracks.shallower (h : L.Tracks (depth + 1) (depth' + 1) least p p') :
    L.Tracks depth depth' least p p' :=
  ⟨h.keeps, fun hi => h.meets ⟨hi.near, Nat.le_succ_of_le hi.first_le,
    Nat.le_succ_of_le hi.second_le⟩⟩

theorem tracks_pure {a : α} (h : least (some a) = 0) :
    L.Tracks depth depth' least (pure a) (pure a) :=
  ⟨fun _ => ⟨keeps_pure, keeps_pure⟩,
    fun {i} _ => meets_at (Nat.le_of_eq (by rw [h, Nat.add_zero])) (fun h => by cases h) .nil⟩

theorem sameReport_next (hi : L.near i) (fault : Fault) :
    L.SameReport ⟨fault, (L.first.skip i).next⟩ ⟨fault, (L.second.skip i).next⟩ :=
  ⟨rfl, i, hi, rfl, rfl⟩

theorem tracks_refuse {fault : Fault} (h : least none ≤ 1) :
    L.Tracks depth depth' least (refuse fault) (refuse fault) := by
  refine ⟨fun _ => ⟨keeps_refuse, keeps_refuse⟩, fun {i} hi => ?_⟩
  rw [refuse, refuse, Stream.advance_skip, Stream.advance_skip]
  exact meets_at (Nat.add_le_add_left h i) (fun _ => List.cons_ne_nil _ _)
    (.cons (sameReport_next hi.near fault) .nil)

theorem Tracks.andThen (least'' : Option β → Nat) {k k' : α → Parser β}
    (hp : L.Tracks depth depth' least p p')
    (hk : ∀ a, L.Tracks depth depth' least'' (k a) (k' a)) (hnone : least' none ≤ least none)
    (hsome : ∀ a v, least' v ≤ least (some a) + least'' v) :
    L.Tracks depth depth' least' (p >>= k) (p' >>= k') := by
  refine ⟨fun hj => ⟨(hp.keeps hj).1.bind fun a => ((hk a).keeps hj).1,
    (hp.keeps hj).2.bind fun a => ((hk a).keeps hj).2⟩, fun {i} hi => ?_⟩
  refine (hp.meets hi).bind (fun hj a => (hk a).keeps hj) hnone fun a j hj hnear _ => ?_
  have hroom := hi.of_le (Nat.le_trans (Nat.le_add_right i _) hj) hnear
  refine ((hk a).meets hroom).shift fun v => ?_
  have hv := hsome a v
  omega

theorem Tracks.bind {k k' : α → Parser β} (hp : L.Tracks depth depth' (fun _ => l) p p')
    (hk : ∀ a, L.Tracks depth depth' (fun _ => 0) (k a) (k' a)) (hl : ∀ v, least' v ≤ l) :
    L.Tracks depth depth' least' (p >>= k) (p' >>= k') :=
  hp.andThen (fun _ => 0) hk (hl none) fun _ v => hl v

theorem tracks_next_bind {k k' : Token → Parser β}
    (hk : ∀ t t' : Token, t.lexeme = t'.lexeme → L.Tracks depth depth' least' (k t) (k' t')) :
    L.Tracks depth depth' least' (next >>= k) (next >>= k') := by
  refine ⟨fun hj => ⟨keeps_next.bind fun t => ((hk t t rfl).keeps hj).1,
    keeps_next.bind fun t => ((hk t t rfl).keeps hj).2⟩, fun {i} hi => ?_⟩
  rw [bind_of_reads (reads_next.mpr ⟨rfl, rfl⟩), bind_of_reads (reads_next.mpr ⟨rfl, rfl⟩)]
  exact (hk _ _ (L.lexeme_eq hi.near)).meets hi

theorem tracks_take_bind {k k' : Token → Parser β}
    (hk : ∀ t t' : Token, t.lexeme = t'.lexeme →
      L.Tracks depth depth' (fun _ => 0) (k t) (k' t')) (hl : ∀ v, least' v ≤ 1) :
    L.Tracks (depth + 1) (depth' + 1) least' (take >>= k) (take >>= k') := by
  refine ⟨fun hj => ⟨keeps_take.bind fun t => ((hk t t rfl).keeps hj).1,
    keeps_take.bind fun t => ((hk t t rfl).keeps hj).2⟩, fun {i} hi => ?_⟩
  have htokens := hk _ _ (L.lexeme_eq hi.near)
  rw [bind_of_reads (reads_take.mpr ⟨rfl, rfl⟩), bind_of_reads (reads_take.mpr ⟨rfl, rfl⟩),
    Stream.advance_skip, Stream.advance_skip]
  by_cases hnear : L.near (i + 1)
  · refine (htokens.meets (hi.succ hnear)).shift fun v => ?_
    have hv := hl v
    omega
  · exact meets_of_not_near (htokens.keeps hnear) hnear

theorem tracks_expect_bind {kind : TokenKind} {k k' : Token → Parser β}
    (hk : ∀ t t' : Token, t.lexeme = t'.lexeme →
      L.Tracks depth depth' (fun _ => 0) (k t) (k' t')) :
    L.Tracks depth depth' (fun _ => 0) (expect kind >>= k) (expect kind >>= k') := by
  have htake := (tracks_take_bind hk fun _ => Nat.zero_le 1).shallower
  refine ⟨fun hj => ⟨keeps_expect.bind fun t => ((hk t t rfl).keeps hj).1,
    keeps_expect.bind fun t => ((hk t t rfl).keeps hj).2⟩, fun {i} hi => ?_⟩
  have hsame := L.kind_eq hi.near
  by_cases hkind : (L.first.skip i).next.kind = kind
  · have hmeets := htake.meets hi
    rw [bind_of_reads (reads_take.mpr ⟨rfl, rfl⟩), bind_of_reads (reads_take.mpr ⟨rfl, rfl⟩)]
      at hmeets
    rw [bind_of_reads (reads_expect.mpr ⟨hkind, rfl, rfl⟩),
      bind_of_reads (reads_expect.mpr ⟨hsame ▸ hkind, rfl, rfl⟩)]
    exact hmeets
  · have hrefused : ∀ {s : Stream}, s.next.kind ≠ kind →
        expect kind s = ⟨none, s, [⟨.unexpected kind, s.next⟩]⟩ := fun h => if_neg h
    have hfirst := hrefused hkind
    have hsecond := hrefused (hsame ▸ hkind)
    rw [bind_of_none (by rw [hfirst]), bind_of_none (by rw [hsecond]), hfirst, hsecond]
    exact meets_at (Nat.le_refl i) (fun _ => List.cons_ne_nil _ _)
      (.cons (sameReport_next hi.near _) .nil)

theorem tracks_skipOptional {kind : TokenKind} :
    L.Tracks depth depth' (fun _ => 0) (skipOptional kind) (skipOptional kind) := by
  refine ⟨fun _ => ⟨keeps_skipOptional, keeps_skipOptional⟩, fun {i} hi => ?_⟩
  have hsame := L.kind_eq hi.near
  by_cases hkind : (L.first.skip i).next.kind = kind
  · rw [skipOptional, skipOptional, if_pos hkind, if_pos (hsame ▸ hkind), Stream.advance_skip,
      Stream.advance_skip]
    exact meets_at (Nat.le_add_right i 1) (fun h => by cases h) .nil
  · rw [skipOptional, skipOptional, if_neg hkind, if_neg (hsame ▸ hkind)]
    exact meets_at (Nat.le_refl i) (fun h => by cases h) .nil

theorem Tracks.attempt (h : L.Tracks depth depth' (fun _ => l) p p') :
    L.Tracks depth depth' (fun _ => l) (attempt p) (attempt p') := by
  refine ⟨fun hj => ⟨(h.keeps hj).1.attempt, (h.keeps hj).2.attempt⟩, fun {i} hi => ?_⟩
  cases h.meets hi with
  | both hj hnear _ hreports hfirst hsecond =>
    rw [Parser.attempt, Parser.attempt, hfirst, hsecond]
    exact .both hj hnear (fun h => by cases h) hreports rfl rfl
  | apart hshared hfirst hsecond =>
    exact .apart hshared ⟨hfirst.rest, hfirst.reports⟩ ⟨hsecond.rest, hsecond.reports⟩

def stepLeast : Option (σ ⊕ α) → Nat
  | some (.inr _) => 0
  | _ => 1

theorem stepLeast_le : ∀ v : Option (σ ⊕ α), stepLeast v ≤ 1
  | some (.inr _) => Nat.zero_le 1
  | some (.inl _) | none => Nat.le_refl 1

def loopLeast : Option α → Nat
  | some _ => 0
  | none => 1

theorem Tracks.loop {step step' : σ → Parser (σ ⊕ α)}
    (hstep : ∀ state, L.Tracks depth depth' stepLeast (step state) (step' state))
    (hend : ∀ state s, s.next.kind = .eof → ∃ a, (step state s).value = some (.inr a))
    (state : σ) :
    L.Tracks depth depth' loopLeast (loop step state) (loop step' state) := by
  have hkeeps : ∀ {j}, ¬ L.near j → ∀ bound bound' state,
      Keeps (loopWithin bound step state) ∧ Keeps (loopWithin bound' step' state) :=
    fun hj bound bound' state => ⟨.loopWithin (fun state => ((hstep state).keeps hj).1) bound state,
      .loopWithin (fun state => ((hstep state).keeps hj).2) bound' state⟩
  -- The bounds are larger than what is left of the streams, so neither runs out first.
  have hwithin : ∀ bound bound' state i, L.Room depth depth' i →
      (L.first.skip i).pending.length < bound → (L.second.skip i).pending.length < bound' →
      L.Meets loopLeast i (loopWithin bound step state (L.first.skip i))
        (loopWithin bound' step' state (L.second.skip i)) := by
    intro bound
    induction bound with
    | zero => exact fun _ _ _ _ hlt => absurd hlt (Nat.not_lt_zero _)
    | succ bound ih =>
      intro bound' state i hi hfirst hsecond
      have hbound' : bound' ≠ 0 := Nat.ne_of_gt (Nat.zero_lt_of_lt hsecond)
      obtain ⟨bound', rfl⟩ := Nat.exists_eq_succ_of_ne_zero hbound'
      refine ((hstep state).meets hi).bind (fun hj r => ?_) (Nat.le_refl 1)
        fun r j hj hnear hvalue => ?_
      · cases r with
        | inl state' => exact hkeeps hj bound bound' state'
        | inr a => exact ⟨keeps_pure, keeps_pure⟩
      · cases r with
        | inl state' =>
          have hkind : (L.first.skip i).next.kind ≠ .eof := by
            intro heof
            obtain ⟨a, ha⟩ := hend state _ heof
            rw [hvalue] at ha
            cases ha
          have hpos := Stream.lt_length_of_next L.first_ending hkind
          have hpos' := Stream.lt_length_of_next L.second_ending (L.kind_eq hi.near ▸ hkind)
          have hlt : i + 1 ≤ j := hj
          rw [Stream.length_skip] at hfirst hsecond
          have hmeets := ih bound' state' j (hi.of_le (Nat.le_of_succ_le hlt) hnear)
            (by rw [Stream.length_skip]; omega) (by rw [Stream.length_skip]; omega)
          exact hmeets.shift fun v => Nat.add_le_add_right (Nat.le_of_succ_le hlt) _
        | inr a => exact meets_at hj (fun h => by cases h) .nil
  refine ⟨fun hj => ⟨fun s => (hkeeps hj (s.pending.length + 1) 0 state).1 s,
    fun s => (hkeeps hj 0 (s.pending.length + 1) state).2 s⟩, fun {i} hi => ?_⟩
  exact hwithin _ _ state i hi (Nat.lt_succ_self _) (Nat.lt_succ_self _)

end Combinators

/-! ### Streams in lockstep -/

theorem lexeme_next_skip (s : Stream) (n : Nat) :
    (s.skip n).next.lexeme = (s.pending.map Token.lexeme)[n]?.getD s.ending.lexeme := by
  have hhead : (s.skip n).next = s.pending[n]?.getD s.ending := by
    simp [Stream.next, Stream.skip, List.headD_eq_head?_getD, List.head?_drop]
  rw [hhead, List.getElem?_map, Option.getD_map]

def ofPrefix {ls : List Lexeme} (s s' : Stream) (hs : ls <+: s.pending.map Token.lexeme)
    (hs' : ls <+: s'.pending.map Token.lexeme) (hending : s.ending.kind = .eof)
    (hending' : s'.ending.kind = .eof) : Lockstep where
  first := s
  second := s'
  near i := i < ls.length
  near_of_le := Nat.lt_of_le_of_lt
  lexeme_eq := by
    intro i hi
    obtain ⟨rest, hrest⟩ := hs
    obtain ⟨rest', hrest'⟩ := hs'
    rw [lexeme_next_skip, lexeme_next_skip, ← hrest, ← hrest', List.getElem?_append_left hi,
      List.getElem?_append_left hi, List.getElem?_eq_getElem hi]
    rfl
  first_ending := hending
  second_ending := hending'

def ofEq (s s' : Stream) (hs : s.pending.map Token.lexeme = s'.pending.map Token.lexeme)
    (hlexeme : s.ending.lexeme = s'.ending.lexeme) (hending : s.ending.kind = .eof) :
    Lockstep where
  first := s
  second := s'
  near _ := True
  near_of_le _ h := h
  lexeme_eq := by
    intro i _
    rw [lexeme_next_skip, lexeme_next_skip, hs, hlexeme]
  first_ending := hending
  second_ending := (congrArg Lexeme.kind hlexeme).symm.trans hending

/-- Two streams of which nothing is compared. -/
def nowhere : Lockstep where
  first := ⟨[], { kind := .eof, literal := "" }⟩
  second := ⟨[], { kind := .eof, literal := "" }⟩
  near _ := False
  near_of_le _ h := h
  lexeme_eq h := h.elim
  first_ending := rfl
  second_ending := rfl

/-- What tracks itself where nothing is compared keeps to its stream. -/
theorem keeps_of_nowhere {least : Option α → Nat} {p p' : Parser α}
    (h : nowhere.Tracks 0 0 least p p') : Keeps p := (h.keeps (j := 0) id).1

end Lockstep

end MonkeyLang

import Mathlib.Algebra.Order.Ring.Int
import MonkeyLang.Proofs.Eval.Observed
import MonkeyLang.Proofs.Parser.Conforming
import MonkeyLang.Proofs.Value.Keyed

/-!
What cannot happen to programs that were parsed. Their trees are sound, and so are all functions
that they make; so no missing and no unknown node is ever evaluated, no operator is
unknown that should be known, the keys of every map are usable and distinct, and no integer leaves
its range, unless it is the length of a text that is too long.
-/
namespace MonkeyLang

def EvalError.isKnown : EvalError → Bool
  | unknownNode _ => false
  | unknownPrefix operator _ => operator ∈ Operator.leading
  | unknownInfix _ operands => operands ≠ .integer
  | _ => true

theorem EvalError.isKnown_of_isOrdinary {cause : EvalError} (h : cause.isOrdinary) :
    cause.isKnown := by
  cases cause <;> first | rfl | cases h

namespace Eval

/-! ### Safe values -/

structure Past where
  seen : List Observation

instance : Preorder Past where
  le w w' := w.seen ⊆ w'.seen
  le_refl w := List.Subset.refl w.seen
  le_trans _ _ _ h h' := List.Subset.trans h h'

namespace Past

variable {w w' : Past} {v : Value} {o : Observation} {m : Machine}

/-- No length was asked for that is not an integer of the language. -/
def Short (w : Past) : Prop :=
  ∀ o ∈ w.seen, ∀ text ∈ o.note.measured?, text.utf8ByteSize < 2 ^ 63

variable [Text.Alphabet]

def Safe (w : Past) : Value → Prop
  | .integer value => w.Short → Lexer.minInteger ≤ value ∧ value ≤ Lexer.maxInteger
  | .map entries => Entries.Keyed entries
  | .function parameters body _ => (Node.function parameters body).Sound
  | .error cause => cause.isKnown
  | _ => True

theorem Safe.mono (hle : w ≤ w') (h : w.Safe v) : w'.Safe v := by
  cases v with
  | integer value => exact fun hshort => h fun o ho => hshort o (hle ho)
  | _ => exact h

theorem all_mono (hle : w ≤ w') (h : v.All w.Safe) : v.All w'.Safe :=
  Throughout.imp h fun _ => Safe.mono hle

theorem indifferent (w : Past) : Value.Indifferent w.Safe where
  ordinary v hv := by
    cases v with
    | error cause => exact EvalError.isKnown_of_isOrdinary hv
    | integer value => cases hv
    | map entries => cases hv
    | function parameters body scope => cases hv
    | _ => trivial
  array _ := trivial
  returned _ := trivial

theorem safe_checked (w : Past) (value : Int) {cause : EvalError} (hcause : cause.isKnown) :
    w.Safe (checked value cause) := by
  unfold checked
  split
  · next hrange => exact fun _ => hrange
  · exact hcause

theorem safe_prefixValue? {operator : Operator} {u : Value} (known : operator ∈ Operator.leading)
    (h : prefixValue? operator v = some u) : w.Safe u := by
  unfold prefixValue? at h
  split at h
  · cases h
    trivial
  · cases h
    exact w.safe_checked _ rfl
  · obtain ⟨kind, -, hkind⟩ := Option.bind_eq_some_iff.mp h
    cases hkind
    exact decide_eq_true known

theorem safe_integerInfix (w : Past) {operator : Operator} (known : operator ∈ Operator.between)
    (left right : Int) : w.Safe (integerInfix operator left right) := by
  unfold integerInfix
  split
  · exact w.safe_checked _ rfl
  · exact w.safe_checked _ rfl
  · exact w.safe_checked _ rfl
  · split
    · rfl
    · exact w.safe_checked _ rfl
  · trivial
  · trivial
  · trivial
  · trivial
  · -- The eight operators between two operands are all taken.
    simp only [Operator.between, List.mem_cons, List.not_mem_nil, or_false] at known
    grind

theorem safe_infixValue? {operator : Operator} {u x : Value} (known : operator ∈ Operator.between)
    (h : infixValue? operator v u = some x) : w.Safe x := by
  unfold infixValue? at h
  split at h
  · cases h
    exact w.safe_integerInfix known _ _
  · cases h
    unfold booleanInfix
    split <;> trivial
  · cases h
    unfold stringInfix
    split <;> trivial
  · obtain ⟨kind, -, h⟩ := Option.bind_eq_some_iff.mp h
    obtain ⟨kind', -, h⟩ := Option.bind_eq_some_iff.mp h
    cases h
    rfl

/-! ### Safe states -/

structure Admits (w : Past) (m : Machine) : Prop where
  bound : ∀ i, ∀ b ∈ m.heap.frame i, b.2.All w.Safe
  events : ∀ event ∈ m.events, event.isOrdinary

theorem Admits.mono (hle : w ≤ w') (h : w.Admits m) : w'.Admits m :=
  ⟨fun i b hb => all_mono hle (h.bound i b hb), h.events⟩

theorem Admits.adds (h : w.Admits m) {f : Frame} {heap : Heap} (ha : m.heap.Adds f heap)
    (hf : ∀ b ∈ f, b.2.All w.Safe) : w.Admits (m.placed heap) := by
  refine ⟨fun i b hb => ?_, h.events⟩
  rcases ha.mem_frame hb with hb | hb
  · exact hf b hb
  · exact h.bound i b hb

theorem Admits.set (h : w.Admits m) (scope : Scope) (name : String) (hv : v.All w.Safe) :
    w.Admits (m.bound scope name v) := by
  refine ⟨fun i b hb => ?_, h.events⟩
  rcases Heap.mem_frame_set hb with rfl | hb
  · exact hv
  · exact h.bound i b hb

structure AdmitsNote (w : Past) (o : Observation) : Prop where
  machine : w.Admits o.machine
  values : ∀ v ∈ o.note.values, v.All w.Safe
  node : ∀ n ∈ o.note.node?, n.Sound

theorem AdmitsNote.shows (h : w.AdmitsNote o) (hv : o.Shows v) : v.All w.Safe := by
  rcases hv with hv | ⟨i, b, hb, rfl⟩
  · exact h.values v hv
  · exact h.machine.bound i b hb

/-- The observer has seen what the world says, everything in it is safe, and it stands where the
plain evaluation stands. -/
structure Carries (w : Past) (s : Observer) (m : Machine) : Prop where
  machine_eq : s.machine = m
  seen_eq : s.seen = w.seen
  machine : w.Admits m
  noted : ∀ o ∈ w.seen, w.AdmitsNote o

theorem Carries.step {s : Observer} (h : w.Carries s m) {f : Machine → Machine}
    (hf : w.Admits (f m)) : w.Carries (HasMachine.update f s) (f m) :=
  ⟨congrArg f h.machine_eq, h.seen_eq, hf, h.noted⟩

def noting (w : Past) (note : Note) (m : Machine) : Past := ⟨w.seen ++ [⟨note, m⟩]⟩

omit [Text.Alphabet] in
theorem le_noting (w : Past) (note : Note) (m : Machine) : w ≤ w.noting note m :=
  List.subset_append_left _ _

theorem Carries.noting {s : Observer} (h : w.Carries s m) {note : Note}
    (hvalues : ∀ v ∈ note.values, v.All w.Safe) (hnode : ∀ n ∈ note.node?, n.Sound) :
    (w.noting note m).Carries (s.noting note) m := by
  have hle := w.le_noting note m
  refine ⟨h.machine_eq, ?_, h.machine.mono hle, fun o ho => ?_⟩
  · rw [Observer.noting, h.machine_eq, h.seen_eq]
    rfl
  · rcases List.mem_append.mp ho with ho | ho
    · have hnoted := h.noted o ho
      exact ⟨hnoted.machine.mono hle, fun v hv => all_mono hle (hnoted.values v hv), hnoted.node⟩
    · cases List.mem_singleton.mp ho
      exact ⟨h.machine.mono hle, fun v hv => all_mono hle (hvalues v hv), hnode⟩

end Past

/-! ### Observed evaluations -/

/-- An observed evaluation of sound trees beside the plain one. -/
def safety [Text.Alphabet] : Accord Past Observer Machine where
  state := Past.Carries
  leaf := Past.Safe
  node _ _ n := n.Sound
  owns _ _ _ := True
  lenient := False
  leaf_mono := Past.Safe.mono
  node_mono _ h := h
  owns_mono _ h := h
  node_visited h hc := h.visited hc
  owns_target? _ _ := trivial
  indifferent := Past.indifferent
  integer h := fun _ => ⟨by have := h.wellMade.1; unfold Lexer.minInteger; omega, h.wellMade.2⟩
  prefixed h hr := Past.safe_prefixValue? h.wellMade.1 hr
  infixed h hr := Past.safe_infixValue? h.wellMade.1 hr
  emptyMap := Entries.keyed_nil
  inserted hes hkey husable := Entries.Keyed.insert hes hkey husable
  unknown h := h.wellMade.elim
  size_eq h := by rw [← h.machine_eq]; rfl
  recorded hevent hs :=
    hs.step ⟨hs.machine.bound, List.forall_mem_cons.mpr ⟨hevent, hs.machine.events⟩⟩
  recorded_hole h _ := h.wellMade.elim
  recorded_bare h _ := h.wellMade.elim
  counted _ hs := hs.step ⟨hs.machine.bound, hs.machine.events⟩
  resolved {w s m sc name} hs _ := by
    rw [show HasMachine.machine s = m from hs.machine_eq]
    refine ⟨rfl, fun v hv => ?_⟩
    rcases Heap.of_resolve?_eq_some hv with ⟨i, hi⟩ | ⟨primitive, rfl⟩
    · exact hs.machine.bound i _ hi
    · exact Value.all_of_isOrdinary w.indifferent rfl
  bound hs _ hv := hs.step (hs.machine.set _ _ hv)
  snapshot {w s m sc parameters body} hs hn := by
    rw [show HasMachine.machine s = m from hs.machine_eq]
    have hs' := hs.step (hs.machine.adds (Heap.adds_snapshot sc) (hs.machine.bound sc.frame))
    exact ⟨w, le_rfl, hs', hn⟩
  enclosed {w s m parameters body scope} hs hfn := by
    rw [show HasMachine.machine s = m from hs.machine_eq]
    have hs' := hs.step (hs.machine.adds (Heap.adds_enclosed scope) (List.forall_mem_nil _))
    exact ⟨w, le_rfl, hs', hfn.body, fun _ _ => trivial⟩

section Observed

variable [Text.Alphabet] {α : Type} {good : Past → α → Prop} {w : Past} {sc : Scope} {n : Node}
  {sub : SubOver Observer} {sub' : Sub}

theorem joint_observe {note : Note} {x : EvalOver Observer α} {y : Eval α}
    (hvalues : ∀ v ∈ note.values, v.All w.Safe) (hnode : ∀ n ∈ note.node?, n.Sound)
    (h : ∀ m, safety.Joint good (w.noting note m) x y) :
    safety.Joint good w (do observe note; x) y := by
  intro s m hs
  exact (h m _ _ (hs.noting hvalues hnode)).from_le (w.le_noting note m)

theorem joint_gave {x : EvalOver Observer Value} {y : Eval Value} (hn : n.Sound)
    (h : safety.Joint safety.values w x y) :
    safety.Joint safety.values w (do let v ← x; observe (.gave n v); return v) y := by
  intro s m hs
  have hends := h s m hs
  change safety.Ends _ w (EStateM.bind x (fun v => do observe (.gave n v); return v) s) (y m)
  unfold EStateM.bind
  generalize x s = r, y m = r' at hends
  cases hends with
  | @ok w' v s' m' hle hs hv =>
    have hnoted : (w'.noting (.gave n v) m').Carries (s'.noting (.gave n v)) m' := by
      apply Past.Carries.noting hs
      · exact List.forall_mem_singleton.mpr hv
      · rintro _ ⟨⟩
        exact hn
    have hle' := w'.le_noting (.gave n v) m'
    exact .ok (le_trans hle hle') hnoted (Past.all_mono hle' hv)
  | halt hle hs => exact .halt hle hs
  | deep h => exact h.elim

/-- A length that is asked for is noted before, so it is in range unless it was noted as too
long. -/
theorem Past.safe_measured (w : Past) (text : String) (m : Machine) :
    (w.noting (.applied (.builtin .len) [.string text]) m).Safe (.integer text.utf8ByteSize) := by
  intro hshort
  have hlt := hshort _ (List.mem_append_right _ (List.mem_singleton_self _)) text rfl
  unfold Lexer.minInteger Lexer.maxInteger
  omega

theorem joint_observedForm [Text.Encoding] (hsub : safety.SubJoint sub sub') (hn : n.Sound) :
    safety.Joint safety.values w (observedForm sub sc n) (evalForm sub' sc n) := by
  cases n with
  | call callee arguments =>
    apply Accord.joint_call hsub hn
    intro w' _ v vs hv hvs
    have hvalues : ∀ u ∈ (Note.applied v vs).values, u.All w'.Safe :=
      List.forall_mem_cons.mpr ⟨hv, hvs⟩
    apply joint_observe hvalues fun _ h => absurd h (Option.not_mem_none _)
    intro m
    have hle := w'.le_noting (.applied v vs) m
    have hvs' : ∀ u ∈ vs, u.All (w'.noting (.applied v vs) m).Safe :=
      fun u hu => Past.all_mono hle (hvs u hu)
    apply Accord.joint_applyValue hsub (Past.all_mono hle hv) hvs'
    rintro text rfl rfl
    exact w'.safe_measured text m
  | _ => exact Accord.joint_evalForm hsub hn fun _ _ h => nomatch h

theorem subJoint_observed [Text.Encoding] (depth : Nat) :
    safety.SubJoint (observed depth) (evalNode depth) := by
  induction depth with
  | zero => exact fun _ _ _ _ => Accord.joint_throw .tooDeep
  | succ depth ih =>
    intro w sc n hn
    have hnode : ∀ c ∈ (Note.entered n).node?, c.Sound := by
      rintro _ ⟨⟩
      exact hn
    apply joint_observe (List.forall_mem_nil _) hnode
    intro m
    exact joint_gave hn (joint_observedForm ih hn)

end Observed

/-! ### Sessions -/

def machineAfter {α : Type} : EStateM.Result Halt Machine α → Machine
  | .ok _ m | .error _ m => m

theorem carries_of_ends [Text.Alphabet] {α : Type} {good : Past → α → Prop} {w : Past}
    {r : EStateM.Result Halt Observer α} {r' : EStateM.Result Halt Machine α}
    (h : safety.Ends good w r r') :
    withoutNotes r = r' ∧
      (Past.mk (observations r)).Carries ⟨machineAfter r', observations r⟩ (machineAfter r') := by
  cases h with
  | @ok w' a s m _ hs _ =>
    obtain ⟨rfl, hseen, hmachine, hnoted⟩ : w'.Carries s m := hs
    obtain rfl : Past.mk s.seen = w' := by rw [hseen]
    exact ⟨rfl, rfl, rfl, hmachine, hnoted⟩
  | @halt w' halt s m _ hs =>
    obtain ⟨rfl, hseen, hmachine, hnoted⟩ : w'.Carries s m := hs
    obtain rfl : Past.mk s.seen = w' := by rw [hseen]
    exact ⟨rfl, rfl, rfl, hmachine, hnoted⟩
  | deep h => exact h.elim

theorem sound_of_parse [Text.Alphabet] {source : String} {parsed : Parsed}
    (h : parse source = .ok parsed) :
    (∃ nodes, parsed.program = .program nodes) ∧ parsed.program.Sound := by
  obtain ⟨-, rfl⟩ := parse_eq_ok.mp h
  obtain ⟨nodes, _, _, hprogram, hnodes, -⟩ := passes_parseScan source
  rw [hprogram]
  exact ⟨⟨nodes, rfl⟩, Node.sound_program hnodes⟩

section Sessions

variable {heap : Heap} {history : List Observation}

theorem Past.Carries.fresh [Text.Alphabet] {w : Past} {s : Observer} {m : Machine}
    (h : w.Carries s m) :
    w.Carries { machine := { heap := m.heap }, seen := w.seen } { heap := m.heap } :=
  ⟨rfl, rfl, ⟨h.machine.bound, List.forall_mem_nil _⟩, h.noted⟩

theorem ends_observed [Text.Alphabet] [Text.Encoding]
    (h : (Past.mk history).Carries { machine := { heap }, seen := history } { heap })
    {program : Node} (hprogram : program.Sound) (depth : Nat) (scope : Scope) :
    safety.Ends safety.values ⟨history⟩
      (observed depth program scope { machine := { heap }, seen := history })
      (evalNode depth program scope { heap }) :=
  subJoint_observed depth _ scope program hprogram _ _ h

theorem Recorded.carries [Text.Alphabet] [Text.Encoding] (h : Recorded heap history) :
    (Past.mk history).Carries { machine := { heap }, seen := history } { heap } := by
  induction h with
  | fresh =>
    refine ⟨rfl, rfl, ⟨fun i b hb => ?_, List.forall_mem_nil _⟩, List.forall_mem_nil _⟩
    rw [Heap.frame_of_size_le (Nat.zero_le i)] at hb
    cases hb
  | opened _ outer builtins ih =>
    exact ⟨rfl, rfl, ih.machine.adds (Heap.adds_newScope outer builtins) (List.forall_mem_nil _),
      ih.noted⟩
  | @evaluated heap history _ source parsed hparsed depth scope ih =>
    have hends := ends_observed ih (sound_of_parse hparsed).2 depth scope
    have hheap : (evaluate depth parsed.program scope heap).heap =
        (machineAfter (evalNode depth parsed.program scope { heap })).heap := by
      rw [heap_evaluate]
      cases evalNode depth parsed.program scope { heap } <;> rfl
    rw [hheap]
    exact (carries_of_ends hends).2.fresh

/-- In a session of parsed programs that asks for the lengths of short enough texts only, every
integer in a value that is given, passed or bound at any moment is in the signed 64-bit range. So
are the integers of every tree, which are never negative. -/
theorem integers_in_signed_range [Text.Alphabet] [Text.Encoding] (h : Recorded heap history)
    (hshort : ∀ o ∈ history, ∀ text ∈ o.note.measured?, text.utf8ByteSize < 2 ^ 63) :
    (∀ v, (∃ o ∈ history, o.Shows v) ∨ (∃ i, ∃ b ∈ heap.frame i, b.2 = v) →
      ∀ value, Inside Value.parts v (.integer value) → -2 ^ 63 ≤ value ∧ value ≤ 2 ^ 63 - 1) ∧
    ∀ source parsed, parse source = .ok parsed →
      (∀ value, Inside Node.children parsed.program (.integer value) →
        0 ≤ value ∧ value ≤ 2 ^ 63 - 1) ∧
      ∀ depth scope,
        withoutNotes
            (observed depth parsed.program scope { machine := { heap }, seen := history }) =
          evalNode depth parsed.program scope { heap } := by
  have hcarries := h.carries
  constructor
  · intro v hv value hinside
    have hsafe : v.All (Past.mk history).Safe := by
      rcases hv with ⟨o, ho, hv⟩ | ⟨i, b, hb, rfl⟩
      · exact (hcarries.noted o ho).shows hv
      · exact hcarries.machine.bound i b hb
    exact hsafe _ hinside hshort
  · intro source parsed hparsed
    have hsound := (sound_of_parse hparsed).2
    refine ⟨fun value hinside => hsound _ hinside, fun depth scope => ?_⟩
    exact (carries_of_ends (ends_observed hcarries hsound depth scope)).1

theorem integers_in_signed_range_smallest :
    ∃ heap history, Recorded heap history ∧
      (∀ o ∈ history, ∀ text ∈ o.note.measured?, text.utf8ByteSize < 2 ^ 63) ∧
      (∃ o ∈ history, o.note.measured? = some "ab") ∧
      (∃ o ∈ history, ∃ v ∈ o.note.values, v.key? = some (.integer (-2 ^ 63))) ∧
      ∀ o ∈ history, ∀ v, o.Shows v → ∀ value, Inside Value.parts v (.integer value) →
        -2 ^ 63 ≤ value ∧ value ≤ 2 ^ 63 - 1 := by
  have hparse : parse "[len(\x22ab\x22), -9223372036854775807 - 1]" =
      .ok (parseScan (Lexer.scan "[len(\x22ab\x22), -9223372036854775807 - 1]")) :=
    parse_eq_ok.mpr ⟨by decide +kernel, rfl⟩
  have hrecorded := (Recorded.fresh.opened none Builtin.all).evaluated hparse 10 { frame := 0 }
  have hshort : ∀ o ∈ observations (observed 10
      (parseScan (Lexer.scan "[len(\x22ab\x22), -9223372036854775807 - 1]")).program { frame := 0 }
      { machine := { heap := (Heap.newScope {} none Builtin.all).2 }, seen := [] }),
      ∀ text ∈ o.note.measured?, text.utf8ByteSize < 2 ^ 63 := by decide +kernel
  refine ⟨_, _, hrecorded, hshort, by decide +kernel, by decide +kernel, fun o ho v hv => ?_⟩
  exact (integers_in_signed_range hrecorded hshort).1 v (Or.inl ⟨o, ho, hv⟩)

theorem isOrdinary_events_evaluate [Text.Encoding] {program : Node} {depth : Nat} {scope : Scope}
    (h : ∀ event ∈ (machineAfter (evalNode depth program scope { heap })).events,
      event.isOrdinary) :
    ∀ event ∈ (evaluate depth program scope heap).events, event.isOrdinary := by
  intro event hevent
  unfold evaluate at hevent
  cases hresult : evalNode depth program scope { heap } with
  | ok value m =>
    rw [hresult] at h hevent
    rcases List.mem_cons.mp (List.mem_reverse.mp hevent) with rfl | hevent
    · rfl
    · exact h event hevent
  | error halt m =>
    rw [hresult] at h hevent
    cases halt with
    | tooDeep =>
      rcases List.mem_cons.mp (List.mem_reverse.mp hevent) with rfl | hevent
      · rfl
      · exact h event hevent
    | untyped | unencodable fault => exact h event (List.mem_reverse.mp hevent)

theorem isKnown_of_ending [Text.Encoding] [Text.Alphabet] {program : Node} {depth : Nat}
    {scope : Scope} {w : Past} {r : EStateM.Result Halt Observer Value}
    (h : safety.Ends safety.values w r (evalNode depth program scope { heap })) {cause : EvalError}
    (hending : (evaluate depth program scope heap).ending = .result (.error cause)) :
    cause.isKnown := by
  unfold evaluate at hending
  cases hresult : evalNode depth program scope { heap } with
  | ok value m =>
    rw [hresult] at h hending
    have hvalue : value = .error cause := by
      change Ending.ofValue value = _ at hending
      cases value with
      | letMark => cases hending
      | emptyMark => cases hending
      | _ => exact Ending.result.inj hending
    subst hvalue
    cases h with
    | ok _ _ hsafe => exact hsafe.here
    | deep h => exact h.elim
  | error halt m =>
    rw [hresult] at hending
    cases halt with
    | tooDeep =>
      cases hending
      rfl
    | untyped | unencodable fault => cases hending

/-- Whatever tree is parsed, with or without diagnostics, it is well made throughout, and so is
every node that is entered when it is evaluated after any such programs: no missing and no unknown
node is met, and no operator is unknown but for the types of its operands. -/
theorem parsed_programs_are_safe [Text.Alphabet] [Text.Encoding] (h : Recorded heap history)
    {source : String} {parsed : Parsed}
    (hparsed : parse source = .ok parsed) (depth : Nat) (scope : Scope) :
    let run := observed depth parsed.program scope { machine := { heap }, seen := history }
    let evaluation := evaluate depth parsed.program scope heap
    (∃ nodes, parsed.program = .program nodes) ∧
    (∀ n, Inside Node.children parsed.program n → n.WellMade) ∧
    withoutNotes run = evalNode depth parsed.program scope { heap } ∧
    (∀ event ∈ evaluation.events, event.isOrdinary) ∧
    (∀ cause, evaluation.ending = .result (.error cause) → cause.isKnown) ∧
    ∀ o ∈ observations run,
      (∀ n ∈ o.note.node?, n.WellMade) ∧ (∀ event ∈ o.machine.events, event.isOrdinary) ∧
      ∀ cause, o.Shows (.error cause) → cause.isKnown := by
  intro run evaluation
  obtain ⟨hform, hsound⟩ := sound_of_parse hparsed
  have hends := ends_observed h.carries hsound depth scope
  obtain ⟨herased, hcarries⟩ := carries_of_ends hends
  refine ⟨hform, hsound, herased, isOrdinary_events_evaluate hcarries.machine.events,
    fun cause hending => isKnown_of_ending hends hending, fun o ho => ?_⟩
  have hnoted := hcarries.noted o ho
  refine ⟨fun n hn => (hnoted.node n hn).wellMade, hnoted.machine.events, fun cause hshows => ?_⟩
  exact (hnoted.shows hshows).here

theorem parsed_programs_are_safe_broken_source :
    ∃ parsed heap, parse "let f = fn(x) \x7b -x \x7d ) f(true)" = .ok parsed ∧
      parsed.hasErrors ∧ Recorded heap [] ∧
      (evaluate 10 parsed.program { frame := 0 } heap).ending =
        .result (.error (.unknownPrefix .minus .boolean)) ∧
      (∀ n, Inside Node.children parsed.program n → n.WellMade) ∧
      (∀ event ∈ (evaluate 10 parsed.program { frame := 0 } heap).events, event.isOrdinary) ∧
      ∀ cause, (evaluate 10 parsed.program { frame := 0 } heap).ending = .result (.error cause) →
        cause.isKnown := by
  have hparse : parse "let f = fn(x) \x7b -x \x7d ) f(true)" =
      .ok (parseScan (Lexer.scan "let f = fn(x) \x7b -x \x7d ) f(true)")) :=
    parse_eq_ok.mpr ⟨by decide +kernel, rfl⟩
  have hrecorded := Recorded.fresh.opened none Builtin.all
  have hsafe := parsed_programs_are_safe hrecorded hparse 10 { frame := 0 }
  exact ⟨_, _, hparse, by decide +kernel, hrecorded, by rfl, hsafe.2.1, hsafe.2.2.2.1,
    hsafe.2.2.2.2.1⟩

theorem Recorded.safe [Text.Alphabet] [Text.Encoding] (h : Recorded heap history) {v : Value}
    (hv : (∃ o ∈ history, o.Shows v) ∨ ∃ i, ∃ b ∈ heap.frame i, b.2 = v) :
    v.All (Past.mk history).Safe := by
  rcases hv with ⟨o, ho, hv⟩ | ⟨i, b, hb, rfl⟩
  · exact (h.carries.noted o ho).shows hv
  · exact h.carries.machine.bound i b hb

end Sessions

end Eval

end MonkeyLang

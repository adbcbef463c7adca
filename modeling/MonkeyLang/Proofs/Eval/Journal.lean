import MonkeyLang.Eval.Evaluate
import MonkeyLang.Proofs.Eval.Invariant
import MonkeyLang.Proofs.Value.Heap
import MonkeyLang.Run

/-!
Everything that exists during a session. A journaled evaluation notes the machine before and after
every node, with the value that the node gave, and is the plain evaluation otherwise. In a session
that starts with an empty heap, no frame that a function can read is written again: only the scopes
of programs and of calls are open for writing, and a function keeps frames that are not open.
-/
namespace MonkeyLang

namespace Eval

/-- What there is at one point of a session. -/
structure Moment where
  machine : Machine
  result : Option Value := none

def Moment.Holds (o : Moment) (c : Closure) : Prop :=
  (∃ v ∈ o.result, c ∈ v.closures) ∨ ∃ i, ∃ b ∈ o.machine.heap.frame i, c ∈ b.2.closures

/-- A machine with the moments before, in order. -/
structure Chronicle where
  machine : Machine
  moments : List Moment := []

instance : HasMachine Chronicle where
  machine s := s.machine
  update f s := { s with machine := f s.machine }
  machine_update _ _ := rfl

def note (result : Option Value) : EvalOver Chronicle Unit :=
  modify fun s => { s with moments := s.moments ++ [⟨s.machine, result⟩] }

def noted (x : EvalOver Chronicle Value) : EvalOver Chronicle Value := do
  note none
  let value ← x
  note (some value)
  return value

def journaled [Text.Encoding] : Nat → SubOver Chronicle
  | 0, _, _ => throw .tooDeep
  | depth + 1, node, scope => noted (evalForm (journaled depth) scope node)

def completed {α : Type} : EStateM.Result Halt Chronicle α → List Moment
  | .ok _ s | .error _ s => s.moments ++ [⟨s.machine, none⟩]

/-- Sessions: scopes for whole programs are opened, nodes are evaluated in them, and functions are
called with values made of functions that the session had before. A session has its scopes, its heap
and the moments so far. -/
inductive Session [Text.Encoding] : List Scope → Heap → List Moment → Prop
  | start : Session [] {} []
  | opened {scopes : List Scope} {heap : Heap} {history : List Moment}
      (h : Session scopes heap history) :
      Session (heap.globalScope.1 :: scopes) heap.globalScope.2 history
  | evaluated {scopes : List Scope} {heap : Heap} {history : List Moment} {scope : Scope}
      (h : Session scopes heap history) (hscope : scope ∈ scopes) (depth : Nat) (node : Node) :
      Session scopes (evaluate depth node scope heap).heap
        (completed (journaled depth node scope { machine := { heap }, moments := history }))
  | called {scopes : List Scope} {heap : Heap} {history : List Moment} {callee : Value}
      {arguments : List Value} (h : Session scopes heap history)
      (hheld : ∀ v ∈ callee :: arguments, ∀ c ∈ v.closures, ∃ o ∈ history, o.Holds c)
      (depth : Nat) :
      Session scopes (heapAfter (apply depth callee arguments { heap }))
        (completed (applyValue (journaled depth) callee arguments
          { machine := { heap }, moments := history }))

/-! ### Frames that are written and frames that are kept -/

/-- The number of frames, and those of them that are open for writing. -/
structure Ground where
  size : Nat
  isOpen : Nat → Prop

instance : Preorder Ground where
  le w w' := w.size ≤ w'.size ∧ ∀ i, i < w.size → (w.isOpen i ↔ w'.isOpen i)
  le_refl _ := ⟨Nat.le_refl _, fun _ _ => Iff.rfl⟩
  le_trans _ _ _ h h' :=
    ⟨Nat.le_trans h.1 h'.1, fun i hi => (h.2 i hi).trans (h'.2 i (Nat.lt_of_lt_of_le hi h.1))⟩

def Ground.Seals (w : Ground) (scope : Scope) : Prop :=
  ∀ i ∈ Heap.chain scope, i < w.size ∧ ¬ w.isOpen i

structure Ground.Opens (w : Ground) (scope : Scope) : Prop where
  lt : scope.frame < w.size
  isOpen : w.isOpen scope.frame
  outers : ∀ i ∈ scope.outers, i < w.size ∧ ¬ w.isOpen i

structure Kept (isOpen : Nat → Prop) (h h' : Heap) : Prop where
  size_le : h.size ≤ h'.size
  frame_eq : ∀ i, i < h.size → ¬ isOpen i → h.frame i = h'.frame i

theorem Kept.refl (isOpen : Nat → Prop) (h : Heap) : Kept isOpen h h :=
  ⟨Nat.le_refl _, fun _ _ _ => rfl⟩

theorem Kept.trans {isOpen : Nat → Prop} {h h' h'' : Heap} (hk : Kept isOpen h h')
    (hk' : Kept isOpen h' h'') : Kept isOpen h h'' where
  size_le := Nat.le_trans hk.size_le hk'.size_le
  frame_eq i hi hclosed :=
    (hk.frame_eq i hi hclosed).trans
      (hk'.frame_eq i (Nat.lt_of_lt_of_le hi hk.size_le) hclosed)

theorem Kept.grow {w w' : Ground} (hle : w ≤ w') {h h' : Heap} (hsize : h.size ≤ w.size)
    (hk : Kept w.isOpen h h') : Kept w'.isOpen h h' where
  size_le := hk.size_le
  frame_eq i hi hclosed := by
    refine hk.frame_eq i hi fun hopen => hclosed ?_
    exact (hle.2 i (Nat.lt_of_lt_of_le hi hsize)).mp hopen

structure Ground.Carries (w : Ground) (s : Chronicle) : Prop where
  size : s.machine.heap.size = w.size
  bound : ∀ i, ∀ b ∈ s.machine.heap.frame i, ∀ c ∈ b.2.closures, w.Seals c.scope
  settled : ∀ o ∈ s.moments, ∀ c, o.Holds c →
    ∀ i ∈ Heap.chain c.scope, i < o.machine.heap.size ∧ ¬ w.isOpen i
  kept : ∀ o ∈ s.moments, Kept w.isOpen o.machine.heap s.machine.heap
  ordered : s.moments.Pairwise fun o p => Kept w.isOpen o.machine.heap p.machine.heap

variable {w w' : Ground} {s : Chronicle}

theorem Ground.seals_mono (hle : w ≤ w') {scope : Scope} (h : w.Seals scope) : w'.Seals scope := by
  intro i hi
  obtain ⟨hlt, hclosed⟩ := h i hi
  exact ⟨Nat.lt_of_lt_of_le hlt hle.1, fun hopen => hclosed ((hle.2 i hlt).mpr hopen)⟩

theorem Ground.opens_mono (hle : w ≤ w') {scope : Scope} (h : w.Opens scope) : w'.Opens scope where
  lt := Nat.lt_of_lt_of_le h.lt hle.1
  isOpen := (hle.2 _ h.lt).mp h.isOpen
  outers i hi := by
    obtain ⟨hlt, hclosed⟩ := h.outers i hi
    exact ⟨Nat.lt_of_lt_of_le hlt hle.1, fun hopen => hclosed ((hle.2 i hlt).mpr hopen)⟩

theorem Ground.Carries.step (hs : w.Carries s) (hle : w ≤ w') {m : Machine}
    (hsize : m.heap.size = w'.size)
    (hbound : ∀ i, ∀ b ∈ m.heap.frame i, ∀ c ∈ b.2.closures, w'.Seals c.scope)
    (hkept : Kept w'.isOpen s.machine.heap m.heap) :
    w'.Carries { s with machine := m } where
  size := hsize
  bound := hbound
  settled o ho c hc i hi := by
    obtain ⟨hlt, hclosed⟩ := hs.settled o ho c hc i hi
    have hltw : i < w.size := Nat.lt_of_lt_of_le hlt (hs.size ▸ (hs.kept o ho).size_le)
    exact ⟨hlt, fun hopen => hclosed ((hle.2 i hltw).mpr hopen)⟩
  kept o ho := by
    have hsizes := (hs.kept o ho).size_le
    exact ((hs.kept o ho).grow hle (hs.size ▸ hsizes)).trans hkept
  ordered := by
    refine hs.ordered.imp_of_mem fun {o p} ho _ hop => ?_
    exact hop.grow hle (hs.size ▸ (hs.kept o ho).size_le)

theorem Ground.Carries.note (hs : w.Carries s) {result : Option Value}
    (hresult : ∀ v ∈ result, ∀ c ∈ v.closures, w.Seals c.scope) :
    w.Carries { s with moments := s.moments ++ [⟨s.machine, result⟩] } where
  size := hs.size
  bound := hs.bound
  settled o ho c hc := by
    rcases List.mem_append.mp ho with ho | ho
    · exact hs.settled o ho c hc
    · cases List.mem_singleton.mp ho
      have hsealed : w.Seals c.scope := by
        rcases hc with ⟨v, hv, hc⟩ | ⟨i, b, hb, hc⟩
        · exact hresult v hv c hc
        · exact hs.bound i b hb c hc
      intro i hi
      rw [hs.size]
      exact hsealed i hi
  kept o ho := by
    rcases List.mem_append.mp ho with ho | ho
    · exact hs.kept o ho
    · cases List.mem_singleton.mp ho
      exact .refl _ _
  ordered := by
    refine List.pairwise_append.mpr ⟨hs.ordered, List.pairwise_singleton _ _, ?_⟩
    intro o ho p hp
    cases List.mem_singleton.mp hp
    exact hs.kept o ho

/-! ### What a journaled evaluation keeps -/

def Ground.extended (w : Ground) (isOpen : Prop) : Ground where
  size := w.size + 1
  isOpen i := (i < w.size ∧ w.isOpen i) ∨ (i = w.size ∧ isOpen)

theorem Ground.le_extended (w : Ground) (isOpen : Prop) : w ≤ w.extended isOpen :=
  ⟨Nat.le_succ _, fun _ hi =>
    ⟨fun hopen => .inl ⟨hi, hopen⟩,
      fun h => h.elim And.right fun h => absurd h.1 (Nat.ne_of_lt hi)⟩⟩

theorem Ground.isOpen_extended (w : Ground) (isOpen : Prop) :
    (w.extended isOpen).isOpen w.size ↔ isOpen :=
  ⟨fun h => h.elim (fun h => absurd h.1 (Nat.lt_irrefl _)) And.right, fun h => .inr ⟨rfl, h⟩⟩

theorem Ground.opens_extended {scope : Scope} (hframe : scope.frame = w.size)
    (houters : ∀ i ∈ scope.outers, i < w.size ∧ ¬ w.isOpen i) : (w.extended True).Opens scope where
  lt := by
    rw [hframe]
    exact Nat.lt_succ_self _
  isOpen := by
    rw [hframe]
    exact (w.isOpen_extended True).mpr trivial
  outers i hi := by
    obtain ⟨hlt, hclosed⟩ := houters i hi
    exact ⟨Nat.lt_succ_of_lt hlt, fun hopen => hclosed (((w.le_extended True).2 i hlt).mpr hopen)⟩

theorem Ground.Carries.adds (hs : w.Carries s) (isOpen : Prop) {f : Frame} {h : Heap}
    (ha : s.machine.heap.Adds f h) (hf : ∀ b ∈ f, ∀ c ∈ b.2.closures, w.Seals c.scope) :
    (w.extended isOpen).Carries { s with machine := s.machine.placed h } := by
  have hle := w.le_extended isOpen
  refine hs.step hle ?_ ?_ ⟨?_, ?_⟩
  · rw [Machine.placed, ha.size, hs.size]
    rfl
  · intro i b hb c hc
    rcases ha.mem_frame hb with hb | hb
    · exact seals_mono hle (hf b hb c hc)
    · exact seals_mono hle (hs.bound i b hb c hc)
  · rw [Machine.placed, ha.size]
    exact Nat.le_succ _
  · intro i hi _
    exact (ha.frame_of_lt hi).symm

theorem Ground.Carries.set (hs : w.Carries s) {scope : Scope} (hscope : w.Opens scope)
    (name : String) {v : Value} (hv : ∀ c ∈ v.closures, w.Seals c.scope) :
    w.Carries { s with machine := s.machine.bound scope name v } := by
  refine hs.step le_rfl ?_ ?_ ⟨?_, ?_⟩
  · rw [Machine.bound, Heap.size_set, hs.size]
  · intro i b hb c hc
    rcases Heap.mem_frame_set hb with rfl | hb
    · exact hv c hc
    · exact hs.bound i b hb c hc
  · exact Nat.le_of_eq (Heap.size_set scope name v).symm
  · intro i hi hclosed
    have hne : i ≠ scope.frame := fun heq => hclosed (heq ▸ hscope.isOpen)
    exact (Heap.frame_set_of_ne name v hne).symm

/-- Programs and calls write open frames, and functions keep frames that are not open. -/
def sealing : Invariant Ground Chronicle where
  state := Ground.Carries
  scope := Ground.Opens
  fn w c := w.Seals c.scope
  node _ _ := True
  owns _ _ := True
  scope_mono hle h := Ground.opens_mono hle h
  fn_mono hle h := Ground.seals_mono hle h
  node_parts _ _ := trivial
  owns_target? _ _ := trivial
  recorded _ hs := ⟨hs.size, hs.bound, hs.settled, hs.kept, hs.ordered⟩
  counted _ hs := ⟨hs.size, hs.bound, hs.settled, hs.kept, hs.ordered⟩
  resolved hs _ hfound c hc := by
    rcases Heap.of_resolve?_eq_some hfound with ⟨i, hi⟩ | ⟨primitive, rfl⟩
    · exact hs.bound i _ hi c hc
    · cases hc
  bound hs hscope _ hv := hs.set hscope _ hv
  snapshot {w s sc} parameters body hs hscope := by
    have hle := w.le_extended False
    refine ⟨w.extended False, hle, hs.adds False (Heap.adds_snapshot sc) (hs.bound sc.frame), ?_⟩
    refine List.forall_mem_cons.mpr ⟨?_, (Ground.opens_mono hle hscope).outers⟩
    rw [show ((HasMachine.machine s).heap.snapshot sc).1.frame = w.size from hs.size]
    exact ⟨Nat.lt_succ_self _, (w.isOpen_extended False).mp⟩
  enclosed {w s c} hs hfn := by
    refine ⟨w.extended True, w.le_extended True,
      hs.adds True (Heap.adds_enclosed c.scope) (List.forall_mem_nil _), ?_, trivial,
      fun _ => trivial⟩
    exact Ground.opens_extended hs.size hfn

theorem related_noted {x : EvalOver Chronicle Value} {y : Eval Value}
    (h : sealing.link.Related sealing.link.values w x y) :
    sealing.link.Related sealing.link.values w (noted x) y := by
  intro s m hs
  have hstart : sealing.link.state w { s with moments := s.moments ++ [⟨s.machine, none⟩] } m :=
    ⟨hs.1, hs.2.note nofun⟩
  have hends := h _ m hstart
  show sealing.link.Ends sealing.link.values w
    (EStateM.bind x (fun value => do note (some value); return value)
      { s with moments := s.moments ++ [⟨s.machine, none⟩] }) (y m)
  unfold EStateM.bind
  generalize x { s with moments := s.moments ++ [⟨s.machine, none⟩] } = r, y m = r' at hends
  cases hends with
  | ok hle hs hv =>
    obtain ⟨-, hsealed⟩ := Invariant.link_values.mp hv
    refine .ok hle ⟨hs.1, hs.2.note ?_⟩ hv
    rintro _ ⟨⟩
    exact hsealed
  | halt hle hs => exact .halt hle hs
  | left h | right h => exact h.elim

/-- Notes do not change an evaluation, and everything noted is kept. -/
theorem subRelated_journaled [Text.Encoding] (depth : Nat) :
    sealing.link.SubRelated (journaled depth) (evalNode depth) := by
  induction depth with
  | zero => exact fun _ _ _ _ _ _ _ => Link.related_throw .tooDeep
  | succ depth ih =>
    rintro w sc _ n _ ⟨rfl, hscope⟩ ⟨rfl, -⟩
    exact related_noted (Invariant.related_evalForm ih hscope trivial)

/-! ### Sessions -/

structure Ground.Supports (w : Ground) (scopes : List Scope) (heap : Heap)
    (history : List Moment) : Prop where
  opens : ∀ scope ∈ scopes, w.Opens scope
  carries : w.Carries { machine := { heap }, moments := history }

theorem Ground.Supports.completed {scopes : List Scope} {heap : Heap} {history : List Moment}
    (h : w.Supports scopes heap history) {α : Type} {good : Ground → α → α → Prop}
    {r : EStateM.Result Halt Chronicle α} {r' : EStateM.Result Halt Machine α}
    (hends : sealing.link.Ends good w r r') :
    ∃ w', Ground.Supports w' scopes (heapAfter r') (completed r) := by
  have hfinal : ∀ {w' : Ground} {s : Chronicle} {m : Machine}, w ≤ w' →
      sealing.link.state w' s m →
      w'.Supports scopes m.heap (s.moments ++ [⟨s.machine, none⟩]) := by
    intro w' s m hle hs
    refine ⟨fun scope hscope => opens_mono hle (h.opens scope hscope), ?_⟩
    rw [← hs.1]
    have hnoted : w'.Carries { s with moments := s.moments ++ [⟨s.machine, none⟩] } :=
      hs.2.note nofun
    exact ⟨hnoted.size, hnoted.bound, hnoted.settled, hnoted.kept, hnoted.ordered⟩
  cases hends with
  | ok hle hs _ => exact ⟨_, hfinal hle hs⟩
  | halt hle hs => exact ⟨_, hfinal hle hs⟩
  | left h | right h => exact h.elim

theorem Ground.Carries.seals_of_holds (hs : w.Carries s) {o : Moment} (ho : o ∈ s.moments)
    {c : Closure} (hc : o.Holds c) : w.Seals c.scope := by
  intro i hi
  obtain ⟨hlt, hclosed⟩ := hs.settled o ho c hc i hi
  exact ⟨Nat.lt_of_lt_of_le hlt (hs.size ▸ (hs.kept o ho).size_le), hclosed⟩

theorem heap_evaluate [Text.Encoding] (depth : Nat) (node : Node) (scope : Scope) (heap : Heap) :
    (evaluate depth node scope heap).heap = heapAfter (evalNode depth node scope { heap }) := by
  unfold evaluate
  cases evalNode depth node scope { heap } with
  | ok v m => rfl
  | error halt m => cases halt <;> rfl

theorem Session.supported [Text.Encoding] {scopes : List Scope} {heap : Heap}
    {history : List Moment}
    (h : Session scopes heap history) : ∃ w : Ground, w.Supports scopes heap history := by
  induction h with
  | start =>
    refine ⟨⟨0, fun _ => False⟩, nofun, rfl, fun i b hb => ?_, nofun, nofun, .nil⟩
    rw [Heap.frame_of_size_le (Nat.zero_le i)] at hb
    cases hb
  | @opened scopes heap history _ ih =>
    obtain ⟨w, hw⟩ := ih
    refine ⟨w.extended True, List.forall_mem_cons.mpr ⟨?_, fun scope hscope => ?_⟩,
      hw.carries.adds True (Heap.adds_newScope none Builtin.all) (List.forall_mem_nil _)⟩
    · exact Ground.opens_extended hw.carries.size nofun
    · exact Ground.opens_mono (w.le_extended True) (hw.opens scope hscope)
  | evaluated _ hscope depth node ih =>
    obtain ⟨w, hw⟩ := ih
    rw [heap_evaluate]
    exact hw.completed (subRelated_journaled depth w _ _ node node ⟨rfl, hw.opens _ hscope⟩
      ⟨rfl, trivial⟩ _ _ ⟨rfl, hw.carries⟩)
  | @called scopes heap history callee arguments _ hheld depth ih =>
    obtain ⟨w, hw⟩ := ih
    have hvalue : ∀ v ∈ callee :: arguments, sealing.link.values w v v := by
      intro v hv
      refine Invariant.link_values.mpr ⟨rfl, fun c hc => ?_⟩
      obtain ⟨o, ho, hholds⟩ := hheld v hv c hc
      exact hw.carries.seals_of_holds ho hholds
    obtain ⟨hcallee, harguments⟩ := List.forall_mem_cons.mp hvalue
    exact hw.completed (Link.related_applyValue (subRelated_journaled depth) hcallee
      (List.forall₂_same.mpr harguments) _ _ ⟨rfl, hw.carries⟩)

end Eval

end MonkeyLang

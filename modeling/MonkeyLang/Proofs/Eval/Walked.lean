import MonkeyLang.Proofs.Eval.Journal
import MonkeyLang.Proofs.Eval.Unison
import MonkeyLang.Proofs.Value.Scopes

/-!
Names that are looked up by walking. A walked evaluation finds a name by going outwards from one
environment to the next, and is the plain evaluation otherwise. In a session every scope stands for
an environment, that of a program, of a call or of a function, so the two evaluations are the same.
-/
namespace MonkeyLang.Eval

variable {w : Heap} {s : Chronicle} {m : Machine}

def walkedForm [Text.Encoding] (sub : Sub) (scope : Scope) : Node → Eval Value
  | .identifier name => do
    match (← get).heap.environments.resolve? scope.frame name with
    | some value => return value
    | none =>
      emit (.unboundName name)
      return .error (.unboundName name)
  | node => evalForm sub scope node

def walked [Text.Encoding] : Nat → Sub
  | 0, _, _ => throw .tooDeep
  | depth + 1, node, scope => walkedForm (walked depth) scope node

theorem walkedForm_eq [Text.Encoding] {scope : Scope} (hscope : m.heap.Knows scope) (sub : Sub)
    (node : Node) : walkedForm sub scope node m = evalForm sub scope node m := by
  unfold walkedForm
  split
  next name =>
    show _ = (match m.heap.resolve? scope name with
      | some value => return value
      | none => do
        emit (.unboundName name)
        return .error (.unboundName name) : Eval Value) m
    rw [hscope.resolve?_eq]
    rfl
  next => rfl

/-! ### What is known -/

/-- The world has the environments of the heap, each of them in its place. Every function that is
bound, or was there at some moment, keeps a known scope. -/
structure Standing (w : Heap) (s : Chronicle) (m : Machine) : Prop where
  same : s.machine = m
  le : w ≤ m.heap
  ge : m.heap ≤ w
  bound : ∀ i, ∀ b ∈ m.heap.frame i, b.2.AllFns (w.Knows ·.scope)
  held : ∀ o ∈ s.moments, ∀ c, o.Holds c → o.machine.heap.Knows c.scope
  past : ∀ o ∈ s.moments, o.machine.heap ≤ w
  ordered : s.moments.Pairwise fun o p => o.machine.heap ≤ p.machine.heap

theorem Standing.step {w' : Heap} {m' : Machine} (hs : Standing w s m) (hw : w ≤ w')
    (hle : w' ≤ m'.heap) (hge : m'.heap ≤ w')
    (hbound : ∀ i, ∀ b ∈ m'.heap.frame i, b.2.AllFns (w'.Knows ·.scope)) :
    Standing w' { s with machine := m' } m' where
  same := rfl
  le := hle
  ge := hge
  bound := hbound
  held := hs.held
  past o ho := (hs.past o ho).trans hw
  ordered := hs.ordered

theorem Standing.adds {f : Frame} {h : Heap} (hs : Standing w s m) (ha : m.heap.Adds f h)
    (hle : m.heap ≤ h) (hf : ∀ b ∈ f, b.2.AllFns (w.Knows ·.scope)) :
    Standing h { s with machine := m.placed h } (m.placed h) := by
  have hgrown := hs.le.trans hle
  refine hs.step hgrown le_rfl le_rfl fun i b hb => ?_
  refine Value.AllFns.mono ?_ fun _ => Heap.Knows.mono hgrown
  exact (ha.mem_frame hb).elim (hf b) (hs.bound i b)

theorem Standing.note (hs : Standing w s m) {result : Option Value}
    (hresult : ∀ v ∈ result, v.AllFns (w.Knows ·.scope)) :
    Standing w { s with moments := s.moments ++ [⟨s.machine, result⟩] } m := by
  obtain rfl : s.machine = m := hs.same
  refine ⟨rfl, hs.le, hs.ge, hs.bound, List.forall_mem_append.mpr ⟨hs.held, ?_⟩,
    List.forall_mem_append.mpr ⟨hs.past, List.forall_mem_singleton.mpr hs.ge⟩,
    List.pairwise_append.mpr ⟨hs.ordered, List.pairwise_singleton _ _, fun o ho p hp => ?_⟩⟩
  · refine List.forall_mem_singleton.mpr fun c hc => Heap.Knows.mono hs.le ?_
    rcases hc with ⟨v, hv, hc⟩ | ⟨i, b, hb, hc⟩
    · exact hresult v hv c hc
    · exact hs.bound i b hb c hc
  · cases List.mem_singleton.mp hp
    exact (hs.past o ho).trans hs.le

/-- Nodes are evaluated in known scopes, and functions keep known scopes. -/
def standing : Unison Heap Chronicle Machine where
  state := Standing
  fn w c := w.Knows c.scope
  node w sc _ := w.Knows sc
  owns _ _ _ := True
  fn_mono := Heap.Knows.mono
  node_mono := Heap.Knows.mono
  owns_mono _ _ := trivial
  node_parts h _ := h
  owns_target? _ _ := trivial
  size_eq hs := congrArg (·.heap.size) hs.same
  recorded event hs :=
    ⟨congrArg (Machine.recorded event) hs.same, hs.le, hs.ge, hs.bound, hs.held, hs.past,
      hs.ordered⟩
  counted k hs :=
    ⟨congrArg (Machine.counted k) hs.same, hs.le, hs.ge, hs.bound, hs.held, hs.past, hs.ordered⟩
  resolved {w s m sc name} hs _ := by
    obtain rfl : s.machine = m := hs.same
    refine ⟨rfl, fun v hv => ?_⟩
    rcases Heap.of_resolve?_eq_some hv with ⟨i, hi⟩ | ⟨primitive, rfl⟩
    · exact hs.bound i _ hi
    · exact Value.allFns_of_isPlain rfl
  bound {w s m sc name v} hs _ hv := by
    obtain rfl : s.machine = m := hs.same
    refine hs.step le_rfl (hs.le.trans (Heap.le_set _ sc name v))
      ((Heap.set_le _ sc name v).trans hs.ge) fun i b hb => ?_
    rcases Heap.mem_frame_set hb with rfl | hb
    · exact hv
    · exact hs.bound i b hb
  snapshot {w s m sc parameters body} hs hscope := by
    obtain rfl : s.machine = m := hs.same
    have hle := Heap.le_snapshot s.machine.heap sc
    exact ⟨_, hs.le.trans hle, hs.adds (Heap.adds_snapshot sc) hle (hs.bound sc.frame),
      Heap.knows_snapshot (hscope.mono hs.le)⟩
  enclosed {w s m c} hs hc := by
    obtain rfl : s.machine = m := hs.same
    have hle := Heap.le_newScope s.machine.heap (some c.scope) c.scope.builtins
    exact ⟨_, hs.le.trans hle, hs.adds (Heap.adds_enclosed c.scope) hle (List.forall_mem_nil _),
      Heap.knows_enclosed (hc.mono hs.le), fun _ _ => trivial⟩

theorem together_noted {x : EvalOver Chronicle Value} {y : Eval Value}
    (h : standing.Together standing.values w x y) :
    standing.Together standing.values w (noted x) y := by
  intro s m hs
  have hstart : Standing w { s with moments := s.moments ++ [⟨s.machine, none⟩] } m :=
    hs.note (by simp)
  have hends := h _ m hstart
  show standing.Ends standing.values w
    (EStateM.bind x (fun value => do note (some value); return value)
      { s with moments := s.moments ++ [⟨s.machine, none⟩] }) (y m)
  unfold EStateM.bind
  generalize x { s with moments := s.moments ++ [⟨s.machine, none⟩] } = r, y m = r' at hends
  cases hends with
  | ok hle hs hv =>
    refine .ok hle (hs.note ?_) hv
    rintro _ ⟨⟩
    exact hv
  | halt hle hs => exact .halt hle hs

/-- The form of a run at each level is free, as long as it is that of the plain evaluation in known
scopes. -/
theorem subTogether_journaled [Text.Encoding] {run : Nat → Sub}
    (hzero : run 0 = fun _ _ => throw .tooDeep)
    (hsucc : ∀ depth node scope m, m.heap.Knows scope →
      run (depth + 1) node scope m = evalForm (run depth) scope node m) (depth : Nat) :
    standing.SubTogether (journaled depth) (run depth) := by
  induction depth with
  | zero =>
    rw [hzero]
    exact fun _ _ _ _ => Unison.together_throw .tooDeep
  | succ depth ih =>
    intro w scope node hscope
    apply together_noted
    intro s m hs
    rw [hsucc depth node scope m (hscope.mono hs.le)]
    exact Unison.together_evalForm ih hscope s m hs

theorem subTogether_evalNode [Text.Encoding] (depth : Nat) :
    standing.SubTogether (journaled depth) (evalNode depth) :=
  subTogether_journaled rfl (fun _ _ _ _ _ => rfl) depth

theorem subTogether_walked [Text.Encoding] (depth : Nat) :
    standing.SubTogether (journaled depth) (walked depth) :=
  subTogether_journaled rfl (fun _ node _ _ hscope => walkedForm_eq hscope _ node) depth

theorem eq_of_ends {α : Type} {good : Heap → α → Prop} {r : EStateM.Result Halt Chronicle α}
    {r' r'' : EStateM.Result Halt Machine α} (h' : standing.Ends good w r r')
    (h'' : standing.Ends good w r r'') : r' = r'' := by
  cases h' with
  | ok _ hs' _ =>
    cases h'' with
    | ok _ hs'' _ => rw [← hs'.same, ← hs''.same]
  | halt _ hs' =>
    cases h'' with
    | halt _ hs'' => rw [← hs'.same, ← hs''.same]

/-! ### Sessions -/

structure Supported (scopes : List Scope) (heap : Heap) (history : List Moment) : Prop where
  knows : ∀ scope ∈ scopes, heap.Knows scope
  standing : Standing heap { machine := { heap }, moments := history } { heap }

section Supported

variable {scopes : List Scope} {heap : Heap} {history : List Moment}

theorem Supported.knows_of_holds (h : Supported scopes heap history) {o : Moment}
    (ho : o ∈ history) {c : Closure} (hc : o.Holds c) : heap.Knows c.scope :=
  (h.standing.held o ho c hc).mono (h.standing.past o ho)

theorem Supported.knows_values (h : Supported scopes heap history) {values : List Value}
    (hheld : ∀ v ∈ values, ∀ c ∈ v.closures, ∃ o ∈ history, o.Holds c) :
    ∀ v ∈ values, v.AllFns (heap.Knows ·.scope) := by
  intro v hv c hc
  obtain ⟨o, ho, hholds⟩ := hheld v hv c hc
  exact h.knows_of_holds ho hholds

theorem Supported.completed (h : Supported scopes heap history) {α : Type}
    {good : Heap → α → Prop} {r : EStateM.Result Halt Chronicle α}
    {r' : EStateM.Result Halt Machine α} (hends : Eval.standing.Ends good heap r r') :
    Supported scopes (heapAfter r') (completed r) := by
  have hfinal : ∀ {w : Heap} {s : Chronicle} {m : Machine}, heap ≤ w → Standing w s m →
      Supported scopes m.heap (s.moments ++ [⟨s.machine, none⟩]) := by
    intro w s m hle hs
    obtain rfl : s.machine = m := hs.same
    have hnoted : Standing w { s with moments := s.moments ++ [⟨s.machine, none⟩] } s.machine :=
      hs.note (by simp)
    have hbound := fun i b hb => (hs.bound i b hb).mono fun _ => Heap.Knows.mono hs.le
    exact ⟨fun scope hscope => (h.knows scope hscope).mono (hle.trans hs.le),
      hnoted.step hs.le le_rfl le_rfl hbound⟩
  cases hends with
  | ok hle hs _ => exact hfinal hle hs
  | halt hle hs => exact hfinal hle hs

variable [Text.Encoding] (h : Session scopes heap history)
include h

theorem Session.knows : Supported scopes heap history := by
  induction h with
  | start =>
    refine ⟨List.forall_mem_nil _, rfl, le_rfl, le_rfl, fun i b hb => ?_, List.forall_mem_nil _,
      List.forall_mem_nil _, .nil⟩
    rw [Heap.frame_of_size_le (Nat.zero_le i)] at hb
    cases hb
  | @opened scopes heap history _ ih =>
    have hle := Heap.le_newScope heap none Builtin.all
    refine ⟨List.forall_mem_cons.mpr ⟨?_, fun scope hscope => (ih.knows scope hscope).mono hle⟩,
      ih.standing.adds (Heap.adds_newScope none Builtin.all) hle (List.forall_mem_nil _)⟩
    exact Heap.knows_newScope (by simp) Builtin.all
  | evaluated _ hscope depth node ih =>
    rw [heap_evaluate]
    exact ih.completed
      (subTogether_evalNode depth _ _ node (ih.knows _ hscope) _ _ ih.standing)
  | called _ hheld depth ih =>
    exact ih.completed (Unison.together_applyValue (subTogether_evalNode depth)
      (ih.knows_values hheld) _ _ ih.standing)

theorem Session.knows_later {i j : Nat} {o p : Moment} (hij : i ≤ j) (ho : history[i]? = some o)
    (hp : history[j]? = some p) {c : Closure} (hc : o.Holds c) :
    p.machine.heap.Knows c.scope := by
  have hs := h.knows.standing
  have hknown := hs.held o (List.mem_of_getElem? ho) c hc
  rcases Nat.eq_or_lt_of_le hij with rfl | hlt
  · cases ho.symm.trans hp
    exact hknown
  · obtain ⟨hi, rfl⟩ := List.getElem?_eq_some_iff.mp ho
    obtain ⟨hj, rfl⟩ := List.getElem?_eq_some_iff.mp hp
    exact hknown.mono (List.pairwise_iff_getElem.mp hs.ordered i j hi hj hlt)

/-- In a session it makes no difference that a scope lists the environments around it. The scopes
of programs, and those of all functions that there were, stand for environments of the heap, and
every evaluation and every call is the one that walks from environment to environment. -/
theorem Session.walked_eq :
    (∀ scope ∈ scopes, heap.Knows scope ∧ ∀ depth node,
      walked depth node scope { heap } = evalNode depth node scope { heap }) ∧
    (∀ o ∈ history, ∀ c, o.Holds c → o.machine.heap.Knows c.scope ∧ heap.Knows c.scope) ∧
    ∀ (callee : Value) (arguments : List Value),
      (∀ v ∈ callee :: arguments, ∀ c ∈ v.closures, ∃ o ∈ history, o.Holds c) → ∀ depth,
        applyValue (walked depth) callee arguments { heap } =
          apply depth callee arguments { heap } := by
  have hs := h.knows
  refine ⟨fun scope hscope => ⟨hs.knows scope hscope, fun depth node => ?_⟩, fun o ho c hc => ?_,
    fun callee arguments hheld depth => ?_⟩
  · have hknown := hs.knows scope hscope
    exact eq_of_ends (subTogether_walked depth heap scope node hknown _ _ hs.standing)
      (subTogether_evalNode depth heap scope node hknown _ _ hs.standing)
  · exact ⟨hs.standing.held o ho c hc, hs.knows_of_holds ho hc⟩
  · have hvalues := hs.knows_values hheld
    exact eq_of_ends
      (Unison.together_applyValue (subTogether_walked depth) hvalues _ _ hs.standing)
      (Unison.together_applyValue (subTogether_evalNode depth) hvalues _ _ hs.standing)

end Supported

end MonkeyLang.Eval

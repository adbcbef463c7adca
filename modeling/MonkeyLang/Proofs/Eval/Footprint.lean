import MonkeyLang.Proofs.Eval.Invariant
import MonkeyLang.Proofs.Value.Heap
import MonkeyLang.Value.Print

/-!
The writes of an evaluation. Of the frames that exist before the evaluation of a node, only the
frame of its scope can change, by the names that the node binds outside of functions. The proof
follows one frame of the heap: every write to it is one that the scope allows, because calls and
functions get frames of their own.
-/
namespace MonkeyLang

namespace Node

mutual

/-- The names bound in a node outside of functions. -/
def lets : Node → List String
  | program nodes | block nodes | array nodes => letsOfAll nodes
  | letBind name value => name :: value.lets
  | returning inner | expression inner | grouped inner | prefixOp _ inner => inner.lets
  | infixOp left _ right => left.lets ++ right.lets
  | conditional condition consequence alternative =>
    condition.lets ++ consequence.lets ++ alternative.lets
  | call callee arguments => callee.lets ++ letsOfAll arguments
  | index collection position => collection.lets ++ position.lets
  | mapping entries => letsOfEntries entries
  | _ => []

def letsOfAll : List Node → List String
  | [] => []
  | node :: rest => node.lets ++ letsOfAll rest

def letsOfEntries : List (Node × Node) → List String
  | [] => []
  | (key, value) :: rest => key.lets ++ value.lets ++ letsOfEntries rest

end

theorem letsOfAll_eq (nodes : List Node) : letsOfAll nodes = nodes.flatMap lets := by
  induction nodes with
  | nil => rfl
  | cons node rest ih => rw [letsOfAll, ih, List.flatMap_cons]

theorem letsOfEntries_eq (entries : List (Node × Node)) :
    letsOfEntries entries = entries.flatMap fun e => e.1.lets ++ e.2.lets := by
  induction entries with
  | nil => rfl
  | cons e rest ih => rw [letsOfEntries, ih, List.flatMap_cons]

theorem mem_lets_of_target? {n : Node} {name : String} (h : name ∈ n.target?) : name ∈ n.lets := by
  cases n with
  | letBind name value =>
    cases h
    simp [lets]
  | _ => cases h

theorem mem_lets_of_mem_parts {n c : Node} {name : String} (hc : c ∈ n.parts)
    (hname : name ∈ c.lets) : name ∈ n.lets := by
  have hall : ∀ nodes : List Node, c ∈ nodes → name ∈ letsOfAll nodes := by
    intro nodes hmem
    rw [letsOfAll_eq, List.mem_flatMap]
    exact ⟨c, hmem, hname⟩
  cases n with
  | program nodes | block nodes | array nodes => simpa only [lets] using hall nodes hc
  | call callee arguments =>
    rcases List.mem_cons.mp hc with rfl | hc
    · simp [lets, hname]
    · simp [lets, hall arguments hc]
  | mapping entries =>
    rw [lets, letsOfEntries_eq, List.mem_flatMap]
    simp only [parts, List.mem_append, List.mem_map] at hc
    rcases hc with ⟨e, he, rfl⟩ | ⟨e, he, rfl⟩
    · exact ⟨e, he, List.mem_append_left _ hname⟩
    · exact ⟨e, he, List.mem_append_right _ hname⟩
  | infixOp left operator right | index left right =>
    rcases List.mem_cons.mp hc with rfl | hc
    · simp [lets, hname]
    · simp_all [lets]
  | conditional condition consequence alternative =>
    simp only [parts, List.mem_cons, List.not_mem_nil, or_false] at hc
    rcases hc with rfl | rfl | rfl <;> simp [lets, hname]
  | letBind other inner =>
    cases List.mem_singleton.mp hc
    exact List.mem_cons_of_mem _ hname
  | returning inner | expression inner | grouped inner | prefixOp operator inner =>
    cases List.mem_singleton.mp hc
    simpa only [lets] using hname
  | _ => cases hc

end Node

inductive Frame.Rewritten (names : String → Prop) (f : Frame) : Frame → Prop
  | refl : Rewritten names f f
  | set {g : Frame} {name : String} (value : Value) (h : Rewritten names f g)
      (hname : names name) : Rewritten names f (g.set name value)

namespace Frame.Rewritten

variable {names : String → Prop} {f g : Frame} {name : String}

theorem get?_eq (h : Rewritten names f g) (hname : ¬ names name) : g.get? name = f.get? name := by
  induction h with
  | refl => rfl
  | set value _ hother ih =>
    have hne : name ≠ _ := fun heq => hname (heq ▸ hother)
    rw [Frame.get?_set_of_ne hne, ih]

theorem isSome_get? (h : Rewritten names f g) (hname : (f.get? name).isSome) :
    (g.get? name).isSome := by
  induction h with
  | refl => exact hname
  | @set g other value _ _ ih =>
    by_cases heq : name = other
    · rw [heq, Frame.get?_set_self]
      rfl
    · rwa [Frame.get?_set_of_ne heq]

theorem eq_of_forall_not (h : Rewritten names f g) (hnames : ∀ name, ¬ names name) : g = f := by
  induction h with
  | refl => rfl
  | set value _ hother => exact absurd hother (hnames _)

end Frame.Rewritten

namespace Eval

section Footprint

variable (i : Nat) (f : Frame) (names : String → Prop)

/-- The frame is one of the heap, and it came from the given one by writes to the names. -/
structure Traced (h : Heap) : Prop where
  lt : i < h.size
  rewritten : f.Rewritten names (h.frame i)

variable {i f names}

theorem Traced.adds {h h' : Heap} {g : Frame} (hh : Traced i f names h) (ha : h.Adds g h') :
    Traced i f names h' where
  lt := by
    rw [ha.size]
    exact Nat.lt_succ_of_lt hh.lt
  rewritten := by
    rw [ha.frame_of_lt hh.lt]
    exact hh.rewritten

theorem Traced.set {h : Heap} {scope : Scope} {name : String} (hh : Traced i f names h)
    (hname : scope.frame = i → names name) (value : Value) :
    Traced i f names (h.set scope name value) where
  lt := by
    rw [Heap.size_set]
    exact hh.lt
  rewritten := by
    by_cases hi : scope.frame = i
    · subst hi
      rw [Heap.frame_set_self name value hh.lt]
      exact hh.rewritten.set value (hname rfl)
    · rw [Heap.frame_set_of_ne name value (Ne.symm hi)]
      exact hh.rewritten

variable (i f names)

def tracing : Invariant OneWorld Machine where
  state _ m := Traced i f names m.heap
  scope _ _ := True
  fn _ _ := True
  node sc n := sc.frame = i → ∀ name ∈ n.lets, names name
  owns sc name := sc.frame = i → names name
  scope_mono _ h := h
  fn_mono _ h := h
  node_parts hnode hc hi name hname := hnode hi name (Node.mem_lets_of_mem_parts hc hname)
  owns_target? hnode htarget hi := hnode hi _ (Node.mem_lets_of_target? htarget)
  recorded _ hs := hs
  counted _ hs := hs
  resolved _ _ _ _ _ := trivial
  bound hs _ howns _ := hs.set howns _
  snapshot _ _ hs _ := ⟨⟨⟩, trivial, hs.adds (Heap.adds_snapshot _), trivial⟩
  enclosed {w s c} hs _ := by
    -- The frame of the call is new, so it is not the one that is traced.
    have hne : ((HasMachine.machine s).heap.enclosed c.scope).1.frame ≠ i :=
      Nat.ne_of_gt hs.lt
    exact ⟨⟨⟩, trivial, hs.adds (Heap.adds_enclosed _), trivial, fun hi => absurd hi hne,
      fun _ hi => absurd hi hne⟩

variable {i f names}

theorem traced_of_ends {α : Type} {good : OneWorld → α → α → Prop}
    {r r' : EStateM.Result Halt Machine α} (h : (tracing i f names).link.Ends good ⟨⟩ r r') :
    Traced i f names (heapAfter r) := by
  cases h with
  | ok _ hs _ => exact hs.2
  | halt _ hs => exact hs.2
  | left h | right h => exact h.elim

end Footprint

variable {m : Machine} {i : Nat}

theorem traced_evalNode [Text.Encoding] (depth : Nat) (node : Node) (scope : Scope)
    (hi : i < m.heap.size) :
    Traced i (m.heap.frame i) (fun name => scope.frame = i ∧ name ∈ node.lets)
      (heapAfter (evalNode depth node scope m)) := by
  have hrelated := (tracing i (m.heap.frame i)
    fun name => scope.frame = i ∧ name ∈ node.lets).subRelated_evalNode depth
  have hstart := hrelated ⟨⟩ scope scope node node ⟨rfl, trivial⟩
    ⟨rfl, fun hframe _ hname => ⟨hframe, hname⟩⟩
  exact traced_of_ends (hstart m m ⟨rfl, hi, .refl⟩)

theorem traced_apply [Text.Encoding] (depth : Nat) (callee : Value) (arguments : List Value)
    (hi : i < m.heap.size) :
    Traced i (m.heap.frame i) (fun _ => False) (heapAfter (apply depth callee arguments m)) := by
  have hrelated := (tracing i (m.heap.frame i) fun _ => False).subRelated_evalNode depth
  have hvalue : ∀ v, (tracing i (m.heap.frame i) fun _ => False).link.values ⟨⟩ v v :=
    fun v => Invariant.link_values.mpr ⟨rfl, fun _ _ => trivial⟩
  have hstart := Link.related_applyValue hrelated (hvalue callee)
    (List.forall₂_same.mpr fun v _ => hvalue v : List.Forall₂ _ arguments arguments)
  exact traced_of_ends (hstart m m ⟨rfl, hi, .refl⟩)

/-- However an evaluation ends, the frames that it found are as they were, but for the frame of its
scope. There every name is still bound that was, and only names bound in the node outside of
functions may have other values. A call by itself changes no frame that it found. -/
theorem evalNode_footprint [Text.Encoding] (depth : Nat) {m : Machine} {i : Nat}
    (hi : i < m.heap.size) :
    (∀ (node : Node) (scope : Scope),
      let after := heapAfter (evalNode depth node scope m)
      i < after.size ∧
        (i ≠ scope.frame → after.frame i = m.heap.frame i) ∧
        (∀ name, ((m.heap.frame i).get? name).isSome → ((after.frame i).get? name).isSome) ∧
        ∀ name, name ∉ node.lets → (after.frame i).get? name = (m.heap.frame i).get? name) ∧
    ∀ (callee : Value) (arguments : List Value),
      let after := heapAfter (apply depth callee arguments m)
      i < after.size ∧ after.frame i = m.heap.frame i := by
  constructor
  · intro node scope
    have htraced := traced_evalNode depth node scope hi
    refine ⟨htraced.lt, fun hne => ?_, fun name hname => ?_, fun name hname => ?_⟩
    · exact htraced.rewritten.eq_of_forall_not fun _ h => hne h.1.symm
    · exact htraced.rewritten.isSome_get? hname
    · exact htraced.rewritten.get?_eq fun h => hname h.2
  · intro callee arguments
    have htraced := traced_apply depth callee arguments hi
    exact ⟨htraced.lt, htraced.rewritten.eq_of_forall_not fun _ h => h⟩

theorem evalNode_footprint_shadowing :
    let scope := (Heap.newScope {} none Builtin.all).1
    let heap := (Heap.newScope {} none Builtin.all).2
    let m : Machine := { heap := (heap.set scope "x" (.integer 1)).set scope "kept" (.integer 2) }
    let body : Node := .block [.letBind "kept" (.identifier "y"), .expression (.identifier "kept")]
    let node : Node := .program [.letBind "x" (.call (.function ["y"] body) [.integer 7])]
    let after := heapAfter (evalNode 10 node scope m)
    0 < m.heap.size ∧ ((after.frame 0).get? "x").bind Value.inspect? = some "7" ∧
      (after.frame 0).get? "kept" = some (.integer 2) := by
  intro scope heap m body node after
  have hi : 0 < m.heap.size := by decide
  obtain ⟨-, -, -, hkept⟩ := (evalNode_footprint 10 hi).1 node scope
  exact ⟨hi, by decide +kernel, hkept "kept" (by decide)⟩

end Eval

end MonkeyLang

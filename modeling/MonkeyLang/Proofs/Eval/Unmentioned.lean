import MonkeyLang.Proofs.Eval.Journal
import MonkeyLang.Proofs.Eval.Unison
import MonkeyLang.Value.Print

/-!
A name that occurs nowhere in a program does not interfere with it. The program is evaluated in two
heaps that differ in what the name means in the scope of the program. Frames that are the same on
both sides are clean. The functions that existed before keep clean frames only, whether they mention
the name or not, and the functions that the program makes may keep a copy of the frame that differs,
but do not mention the name.
-/
namespace MonkeyLang

namespace Node

mutual

def names : Node → List String
  | identifier name => [name]
  | letBind name value => name :: value.names
  | function parameters body => parameters ++ body.names
  | program nodes | block nodes | array nodes => namesOfAll nodes
  | returning inner | expression inner | grouped inner | prefixOp _ inner => inner.names
  | infixOp left _ right => left.names ++ right.names
  | conditional condition consequence alternative =>
    condition.names ++ consequence.names ++ alternative.names
  | call callee arguments => callee.names ++ namesOfAll arguments
  | index collection position => collection.names ++ position.names
  | mapping entries => namesOfEntries entries
  | _ => []

def namesOfAll : List Node → List String
  | [] => []
  | node :: rest => node.names ++ namesOfAll rest

def namesOfEntries : List (Node × Node) → List String
  | [] => []
  | (key, value) :: rest => key.names ++ value.names ++ namesOfEntries rest

end

theorem names_subset_namesOfAll {c : Node} {nodes : List Node} (hc : c ∈ nodes) :
    c.names ⊆ namesOfAll nodes := by
  induction hc with
  | head rest => exact List.subset_append_left _ _
  | tail node _ ih => exact List.subset_append_of_subset_right _ ih

theorem names_subset_namesOfEntries {e : Node × Node} {entries : List (Node × Node)}
    (he : e ∈ entries) : e.1.names ++ e.2.names ⊆ namesOfEntries entries := by
  induction he with
  | head rest => exact List.subset_append_left _ _
  | tail e' _ ih => exact List.subset_append_of_subset_right _ ih

theorem names_subset_of_mem_parts {n c : Node} (hc : c ∈ n.parts) : c.names ⊆ n.names := by
  cases n with
  | program nodes | block nodes | array nodes =>
    rw [names]
    exact names_subset_namesOfAll hc
  | call callee arguments =>
    rcases List.mem_cons.mp hc with rfl | hc
    · exact List.subset_append_left _ _
    · exact List.subset_append_of_subset_right _ (names_subset_namesOfAll hc)
  | mapping entries =>
    rw [names]
    rcases List.mem_append.mp hc with hc | hc
    · obtain ⟨e, he, rfl⟩ := List.mem_map.mp hc
      exact List.Subset.trans (List.subset_append_left _ _) (names_subset_namesOfEntries he)
    · obtain ⟨e, he, rfl⟩ := List.mem_map.mp hc
      exact List.Subset.trans (List.subset_append_right _ _) (names_subset_namesOfEntries he)
  | _ => grind [parts, names]

end Node

namespace Eval

/-! ### Heaps that agree but for one name -/

/-- The frames that are the same in two heaps. -/
structure Clean where
  frames : Nat → Prop

instance : Preorder Clean where
  le w w' := ∀ i, w.frames i → w'.frames i
  le_refl _ _ h := h
  le_trans _ _ _ h h' i hi := h' i (h i hi)

namespace Clean

variable {x : String} {w w' : Clean} {m m' : Machine}

def Reads (w : Clean) (scope : Scope) : Prop := ∀ i ∈ Heap.chain scope, w.frames i

theorem Reads.mono {scope : Scope} (hle : w ≤ w') (h : w.Reads scope) : w'.Reads scope :=
  fun i hi => hle i (h i hi)

/-- The node does not mention the name, or is evaluated where everything is clean. -/
def Ignores (x : String) (w : Clean) (scope : Scope) (n : Node) : Prop :=
  x ∉ n.names ∨ w.Reads scope

theorem Ignores.mono {scope : Scope} {n : Node} (hle : w ≤ w') (h : w.Ignores x scope n) :
    w'.Ignores x scope n :=
  h.imp_right (Reads.mono hle)

def IgnoresFn (x : String) (w : Clean) (c : Closure) : Prop := w.Ignores x c.scope c.body

structure Carries (x : String) (w : Clean) (m m' : Machine) : Prop where
  size : m.heap.size = m'.heap.size
  lt : ∀ i, w.frames i → i < m.heap.size
  same : ∀ i, w.frames i → m.heap.frame i = m'.heap.frame i
  agree : ∀ i name, name ≠ x → (m.heap.frame i).get? name = (m'.heap.frame i).get? name
  bound : ∀ i, ∀ b ∈ m.heap.frame i, b.1 ≠ x ∨ w.frames i → b.2.AllFns (w.IgnoresFn x)
  summary : m.summary = m'.summary
  events : m.events = m'.events

theorem Carries.resolve? (hs : w.Carries x m m') {scope : Scope} {name : String}
    (hname : w.Ignores x scope (.identifier name)) :
    m.heap.resolve? scope name = m'.heap.resolve? scope name := by
  rcases hname with hname | hclean
  · have hne : name ≠ x := fun heq => hname (List.mem_singleton.mpr heq.symm)
    have hfind : m.heap.find? scope name = m'.heap.find? scope name :=
      Heap.find?_congr fun i _ => hs.agree i name hne
    rw [Heap.resolve?, Heap.resolve?, hfind]
  · exact Heap.resolve?_congr (fun i hi => hs.same i (hclean i hi)) name

theorem Carries.allFns_of_resolve? (hs : w.Carries x m m') {scope : Scope} {name : String}
    {v : Value} (hname : w.Ignores x scope (.identifier name))
    (hfound : m.heap.resolve? scope name = some v) : v.AllFns (w.IgnoresFn x) := by
  rcases Heap.of_resolve?_eq_some_chain hfound with ⟨i, hi, hmem⟩ | ⟨primitive, rfl⟩
  · refine hs.bound i _ hmem ?_
    rcases hname with hname | hclean
    · exact .inl fun heq => hname (List.mem_singleton.mpr heq.symm)
    · exact .inr (hclean i hi)
  · exact Value.allFns_of_isPlain rfl

theorem Carries.set (hs : w.Carries x m m') {scope : Scope} (name : String) {v : Value}
    (hv : v.AllFns (w.IgnoresFn x)) :
    w.Carries x (m.bound scope name v) (m'.bound scope name v) where
  size := by rw [Machine.bound, Machine.bound, Heap.size_set, Heap.size_set, hs.size]
  lt i hi := by
    rw [Machine.bound, Heap.size_set]
    exact hs.lt i hi
  same i hi := by
    rw [Machine.bound, Machine.bound]
    by_cases heq : i = scope.frame
    · subst heq
      have hlt := hs.lt scope.frame hi
      rw [Heap.frame_set_self name v hlt, Heap.frame_set_self name v (hs.size ▸ hlt),
        hs.same scope.frame hi]
    · rw [Heap.frame_set_of_ne name v heq, Heap.frame_set_of_ne name v heq]
      exact hs.same i hi
  agree i other hother := by
    rw [Machine.bound, Machine.bound, Heap.get?_frame_set, Heap.get?_frame_set, hs.size,
      hs.agree i other hother]
  bound i b hb hclean := by
    rcases Heap.mem_frame_set hb with rfl | hb
    · exact hv
    · exact hs.bound i b hb hclean
  summary := hs.summary
  events := hs.events

def extended (w : Clean) (size : Nat) (isClean : Prop) : Clean where
  frames i := w.frames i ∨ (i = size ∧ isClean)

theorem le_extended (w : Clean) (size : Nat) (isClean : Prop) : w ≤ w.extended size isClean :=
  fun _ => .inl

theorem Carries.adds (hs : w.Carries x m m') {isClean : Prop} {f f' : Frame} {h h' : Heap}
    (ha : m.heap.Adds f h) (ha' : m'.heap.Adds f' h') (hsame : isClean → f = f')
    (hagree : ∀ name, name ≠ x → f.get? name = f'.get? name)
    (hf : ∀ b ∈ f, b.1 ≠ x ∨ isClean → b.2.AllFns (w.IgnoresFn x)) :
    (w.extended m.heap.size isClean).Carries x (m.placed h) (m'.placed h') where
  size := by rw [Machine.placed, Machine.placed, ha.size, ha'.size, hs.size]
  lt i hi := by
    rw [Machine.placed, ha.size]
    rcases hi with hi | ⟨rfl, -⟩
    · exact Nat.lt_succ_of_lt (hs.lt i hi)
    · exact Nat.lt_succ_self _
  same i hi := by
    rw [Machine.placed, Machine.placed, ha.frame, ha'.frame, ← hs.size]
    rcases hi with hi | ⟨rfl, hclean⟩
    · rw [if_neg (Nat.ne_of_lt (hs.lt i hi)), if_neg (Nat.ne_of_lt (hs.lt i hi)), hs.same i hi]
    · rw [if_pos rfl, if_pos rfl, hsame hclean]
  agree i name hname := by
    rw [Machine.placed, Machine.placed, ha.frame, ha'.frame, ← hs.size]
    split
    · exact hagree name hname
    · exact hs.agree i name hname
  bound i b hb hclean := by
    have hmono : b.2.AllFns (w.IgnoresFn x) →
        b.2.AllFns ((w.extended m.heap.size isClean).IgnoresFn x) :=
      fun h => h.mono fun _ => Ignores.mono (w.le_extended _ isClean)
    rw [Machine.placed, ha.frame] at hb
    apply hmono
    split at hb
    · next heq =>
      refine hf b hb (hclean.imp_right fun hi => ?_)
      exact hi.elim (fun hi => absurd heq (Nat.ne_of_lt (hs.lt i hi))) And.right
    · next hne =>
      refine hs.bound i b hb (hclean.imp_right fun hi => ?_)
      exact hi.elim id fun hi => absurd hi.1 hne
  summary := hs.summary
  events := hs.events

end Clean

/-! ### Evaluations that do not see the name -/

def ignoring (x : String) : Unison Clean Machine Machine where
  state := Clean.Carries x
  fn := Clean.IgnoresFn x
  node := Clean.Ignores x
  owns _ _ _ := True
  fn_mono hle h := h.mono hle
  node_mono hle h := h.mono hle
  owns_mono _ _ := trivial
  node_parts h hc := h.imp_left fun hx hmem => hx (Node.names_subset_of_mem_parts hc hmem)
  owns_target? _ _ := trivial
  size_eq hs := hs.size
  recorded event hs :=
    ⟨hs.size, hs.lt, hs.same, hs.agree, hs.bound, hs.summary, congrArg (event :: ·) hs.events⟩
  counted k hs :=
    ⟨hs.size, hs.lt, hs.same, hs.agree, hs.bound, congrArg (·.plus k) hs.summary, hs.events⟩
  resolved hs hname := ⟨hs.resolve? hname, fun _ hfound => hs.allFns_of_resolve? hname hfound⟩
  bound hs _ hv := hs.set _ hv
  snapshot {w m _ scope parameters body} hs hn := by
    refine ⟨w.extended m.heap.size (w.Reads scope), w.le_extended _ _, ?_, ?_⟩
    · refine hs.adds (Heap.adds_snapshot scope) (Heap.adds_snapshot scope) (fun hclean => ?_)
        (hs.agree scope.frame) (fun b hb h => ?_)
      · exact hs.same scope.frame (hclean scope.frame (List.mem_cons_self))
      · refine hs.bound scope.frame b hb (h.imp_right fun hclean => ?_)
        exact hclean scope.frame List.mem_cons_self
    · -- The function keeps the copy, which is clean if everything around it is.
      refine hn.imp (fun hx hmem => hx (List.mem_append_right _ hmem)) fun hclean => ?_
      refine List.forall_mem_cons.mpr ⟨.inr ⟨rfl, hclean⟩, fun i hi => .inl ?_⟩
      exact hclean i (List.mem_cons_of_mem _ hi)
  enclosed {w m _ c} hs hc := by
    refine ⟨w.extended m.heap.size (w.Reads c.scope), w.le_extended _ _, ?_, ?_, ?_⟩
    · exact hs.adds (Heap.adds_enclosed _) (Heap.adds_enclosed _) (fun _ => rfl) (fun _ _ => rfl)
        (List.forall_mem_nil _)
    · refine hc.imp_right fun hclean => ?_
      exact List.forall_mem_cons.mpr ⟨.inr ⟨rfl, hclean⟩, fun i hi => .inl (hclean i hi)⟩
    · exact fun _ _ => trivial

/-- In a session every frame but that of the program's scope is clean, and it holds functions with
clean frames only. -/
theorem Session.carries [Text.Encoding] {scopes : List Scope} {heap : Heap} {history : List Moment}
    (h : Session scopes heap history) {scope : Scope} (hscope : scope ∈ scopes) (x : String)
    (v : Value) :
    Clean.Carries x ⟨fun i => i < heap.size ∧ i ≠ scope.frame⟩ { heap }
      { heap := heap.set scope x v } := by
  obtain ⟨w, hw⟩ := h.supported
  have hopen := (hw.opens scope hscope).isOpen
  constructor
  · exact (Heap.size_set scope x v).symm
  · exact fun i hi => hi.1
  · exact fun i hi => (Heap.frame_set_of_ne x v hi.2).symm
  · intro i name hname
    rw [Heap.get?_frame_set, if_neg fun hyes => hname hyes.2]
  · -- A function keeps frames that are not open, and the frame of the scope is open.
    intro i b hb _ c hc
    refine .inr fun j hj => ?_
    obtain ⟨hlt, hclosed⟩ := hw.carries.bound i b hb c hc j hj
    have hsize : heap.size = w.size := hw.carries.size
    exact ⟨hsize ▸ hlt, fun heq => hclosed (heq ▸ hopen)⟩
  · rfl
  · rfl

/-- A program that does not mention a name gives the same result, counts and records the same, and
leaves the same under all other names, whatever the name is bound to. -/
theorem unmentioned_name_does_not_interfere [Text.Encoding] {scopes : List Scope} {heap : Heap}
    {history : List Moment} (h : Session scopes heap history) {scope : Scope}
    (hscope : scope ∈ scopes) {program : Node} {x : String} (hx : x ∉ program.names) (v : Value)
    (depth : Nat) :
    let first := evaluate depth program scope heap
    let second := evaluate depth program scope (heap.set scope x v)
    second.ending = first.ending ∧ second.summary = first.summary ∧
      second.events = first.events ∧
      ∀ name, name ≠ x → (second.heap.frame scope.frame).get? name =
        (first.heap.frame scope.frame).get? name := by
  intro first second
  have hends := Unison.subTogether_evalNode (ignoring x) depth _ scope program (.inl hx) _ _
    (h.carries hscope x v)
  simp only [first, second, evaluate]
  generalize evalNode depth program scope { heap } = r,
    evalNode depth program scope { heap := heap.set scope x v } = r' at hends
  cases hends with
  | ok hle hs _ =>
    have hagree := fun name hname => (hs.agree scope.frame name hname).symm
    simp only [Evaluation.complete, hs.summary, hs.events]
    exact ⟨trivial, trivial, trivial, hagree⟩
  | @halt w halt m m' hle hs =>
    have hagree := fun name hname => (hs.agree scope.frame name hname).symm
    cases halt with
    | tooDeep =>
      simp only [Evaluation.complete, hs.summary, hs.events]
      exact ⟨trivial, trivial, trivial, hagree⟩
    | untyped | unencodable fault =>
      simp only [hs.summary, hs.events]
      exact ⟨trivial, trivial, trivial, hagree⟩

theorem unmentioned_name_does_not_interfere_rebound :
    let fresh := Heap.globalScope {}
    let heap := (evaluate 10 (.program [.letBind "x" (.integer 1),
      .letBind "f" (.function [] (.block [.expression (.identifier "x")]))]) fresh.1 fresh.2).heap
    let program : Node := .program [.letBind "y" (.call (.identifier "f") [])]
    let second := evaluate 10 program fresh.1 (heap.set fresh.1 "x" (.integer 2))
    "x" ∉ program.names ∧
      second.ending = (evaluate 10 program fresh.1 heap).ending ∧
      ((second.heap.frame fresh.1.frame).get? "x").bind Value.inspect? = some "2" ∧
      ((second.heap.frame fresh.1.frame).get? "y").bind Value.inspect? = some "1" := by
  intro fresh heap program second
  have h := Session.start.opened.evaluated (List.mem_singleton_self fresh.1) 10
    (.program [.letBind "x" (.integer 1),
      .letBind "f" (.function [] (.block [.expression (.identifier "x")]))])
  have hx : "x" ∉ program.names := by decide
  have hy : (((evaluate 10 program fresh.1 heap).heap.frame fresh.1.frame).get? "y").bind
      Value.inspect? = some "1" := by decide +kernel
  obtain ⟨hending, -, -, hagree⟩ := unmentioned_name_does_not_interfere h
    (List.mem_singleton_self fresh.1) hx (.integer 2) 10
  refine ⟨hx, hending, by decide +kernel, ?_⟩
  rw [← hy]
  exact congrArg (Option.bind · Value.inspect?) (hagree "y" (by decide))

end Eval

end MonkeyLang

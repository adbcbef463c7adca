import Mathlib.Data.List.Infix
import MonkeyLang.Proofs.Eval.Footprint
import MonkeyLang.Proofs.Eval.Journal
import MonkeyLang.Proofs.Eval.Unison

/-!
Scopes follow the nesting of functions in a program, however its calls are nested. Every frame of
the heap is labelled with the functions around the nodes that are evaluated in it. The label of a
frame never changes, and a scope reads frames whose labels are a path of the program with its ends,
so a scope has one frame for each function around the place where it belongs, and one for the whole
program.
-/
namespace MonkeyLang

/-- The functions around a place in a program, each with its parameters and its body, the innermost
first. -/
abbrev Path := List (List String × Node)

namespace Node

/-- The node stands in the program under exactly the functions of the path. -/
inductive Within (program : Node) : Path → Node → Prop
  | whole : Within program [] program
  | part {path : Path} {n c : Node} (h : Within program path n) (hc : c ∈ n.parts) :
      Within program path c
  | body {path : Path} {parameters : List String} {body : Node}
      (h : Within program path (.function parameters body)) :
      Within program ((parameters, body) :: path) body

/-- The parameters of the innermost function of a path and the names bound in its body outside of
other functions, or the names that the program itself binds. -/
def localNames (program : Node) : Path → List String
  | [] => program.lets
  | (parameters, body) :: _ => parameters ++ body.lets

theorem Within.mem_localNames {program n : Node} {path : Path} {name : String}
    (h : program.Within path n) (hname : name ∈ n.lets) : name ∈ program.localNames path := by
  induction h with
  | whole => exact hname
  | part _ hc ih => exact ih (mem_lets_of_mem_parts hc hname)
  | body _ _ => exact List.mem_append_right _ hname

end Node

namespace Eval

/-! ### Evaluations with everything that they meet -/

/-- A moment at which a node is about to be evaluated in a scope, or has just given a value. -/
structure Sight extends Moment where
  scope : Scope
  node : Node

structure Trail where
  machine : Machine
  sights : List Sight := []

instance : HasMachine Trail where
  machine s := s.machine
  update f s := { s with machine := f s.machine }
  machine_update _ _ := rfl

def Trail.seen (s : Trail) (scope : Scope) (node : Node) (result : Option Value) : Trail :=
  { s with sights := s.sights ++ [{ machine := s.machine, result, scope, node }] }

def sighted [Text.Encoding] : Nat → SubOver Trail
  | 0, _, _ => throw .tooDeep
  | depth + 1, node, scope => do
    modify (·.seen scope node none)
    let value ← evalForm (sighted depth) scope node
    modify (·.seen scope node (some value))
    return value

def sights {α : Type} (node : Node) (scope : Scope) : EStateM.Result Halt Trail α → List Sight
  | .ok _ s | .error _ s => (s.seen scope node none).sights

def withoutSights {α : Type} : EStateM.Result Halt Trail α → EStateM.Result Halt Machine α
  | .ok a s => .ok a s.machine
  | .error halt s => .error halt s.machine

/-- The node stands under as many functions as there are frames around the scope, and in every state
seen, each frame has names of the function in its place only. -/
def Fits (program : Node) (history : List Sight) (scope : Scope) (n : Node) : Prop :=
  ∃ path, program.Within path n ∧ scope.depth = path.length ∧
    ∀ p ∈ history, List.Forall₂
      (fun i around => ∀ name ∈ (p.machine.heap.frame i).names, name ∈ program.localNames around)
      (Heap.chain scope) path.tails

/-! ### Labels of frames -/

structure Layout where
  labels : List Path

instance : Preorder Layout where
  le w w' := w.labels <+: w'.labels
  le_refl w := List.prefix_refl w.labels
  le_trans _ _ _ h h' := h.trans h'

namespace Layout

variable {program : Node} {w w' : Layout} {scope : Scope} {n : Node} {i : Nat} {around : Path}

theorem label_mono (hle : w ≤ w') (h : w.labels[i]? = some around) :
    w'.labels[i]? = some around := by
  obtain ⟨rest, hrest⟩ := hle
  obtain ⟨hlt, -⟩ := List.getElem?_eq_some_iff.mp h
  rw [← hrest, List.getElem?_append_left hlt]
  exact h

/-- The labels of the frames of the scope are the path and its ends. -/
def Reads (w : Layout) (scope : Scope) (path : Path) : Prop :=
  List.Forall₂ (fun i around => w.labels[i]? = some around) (Heap.chain scope) path.tails

theorem Reads.mono {path : Path} (hle : w ≤ w') (h : w.Reads scope path) : w'.Reads scope path :=
  List.Forall₂.imp (fun _ _ => label_mono hle) h

theorem Reads.frame {path : Path} (h : w.Reads scope path) :
    w.labels[scope.frame]? = some path := by
  cases path with
  | nil => exact (List.forall₂_cons.mp h).1
  | cons f path => exact (List.forall₂_cons.mp h).1

theorem Reads.replace {path : Path} {frame : Nat} (h : w.Reads scope path)
    (hframe : w.labels[frame]? = some path) : w.Reads { scope with frame } path := by
  cases path with
  | nil => exact .cons hframe (List.forall₂_cons.mp h).2
  | cons f path => exact .cons hframe (List.forall₂_cons.mp h).2

theorem Reads.depth {path : Path} (h : w.Reads scope path) : scope.depth = path.length := by
  have hlength := List.Forall₂.length_eq h
  rw [Heap.chain, List.length_cons, List.length_tails] at hlength
  exact Nat.succ_injective hlength

def Places (program : Node) (w : Layout) (scope : Scope) (n : Node) : Prop :=
  ∃ path, program.Within path n ∧ w.Reads scope path

theorem Places.mono (hle : w ≤ w') (h : w.Places program scope n) : w'.Places program scope n := by
  obtain ⟨path, hwithin, hreads⟩ := h
  exact ⟨path, hwithin, hreads.mono hle⟩

def PlacesFn (program : Node) (w : Layout) (c : Closure) : Prop :=
  w.Places program c.scope (.function c.parameters c.body)

/-- The frames that there are have labels, and they bind the names of their labels only. -/
structure Labels (program : Node) (w : Layout) (h : Heap) : Prop where
  size_le : h.size ≤ w.labels.length
  mem : ∀ i around, w.labels[i]? = some around → ∀ b ∈ h.frame i, b.1 ∈ program.localNames around

theorem Labels.mono {h : Heap} (hle : w ≤ w') (hh : w.Labels program h) :
    w'.Labels program h where
  size_le := hh.size_le.trans hle.length_le
  mem i around hlabel b hb := by
    by_cases hi : i < h.size
    · have hold := List.getElem?_eq_getElem (Nat.lt_of_lt_of_le hi hh.size_le)
      have heq := (label_mono hle hold).symm.trans hlabel
      exact hh.mem i around (hold.trans heq) b hb
    · rw [Heap.frame_of_size_le (Nat.le_of_not_lt hi)] at hb
      cases hb

structure Carries (program : Node) (w : Layout) (s : Trail) : Prop where
  size : s.machine.heap.size = w.labels.length
  labels : w.Labels program s.machine.heap
  bound : ∀ i, ∀ b ∈ s.machine.heap.frame i, b.2.AllFns (w.PlacesFn program)
  node : ∀ o ∈ s.sights, w.Places program o.scope o.node
  held : ∀ o ∈ s.sights, ∀ c, o.Holds c → w.PlacesFn program c
  labelled : ∀ o ∈ s.sights, w.Labels program o.machine.heap

variable {s : Trail}

theorem Carries.step (hs : w.Carries program s) (hle : w ≤ w') {m : Machine}
    (hsize : m.heap.size = w'.labels.length)
    (hlabels : ∀ i around, w'.labels[i]? = some around →
      ∀ b ∈ m.heap.frame i, b.1 ∈ program.localNames around)
    (hbound : ∀ i, ∀ b ∈ m.heap.frame i, b.2.AllFns (w'.PlacesFn program)) :
    w'.Carries program { s with machine := m } where
  size := hsize
  labels := ⟨Nat.le_of_eq hsize, hlabels⟩
  bound := hbound
  node o ho := (hs.node o ho).mono hle
  held o ho c hc := (hs.held o ho c hc).mono hle
  labelled o ho := (hs.labelled o ho).mono hle

theorem Carries.set (hs : w.Carries program s) {name : String} {v : Value}
    (hlabel : w.labels[scope.frame]? = some around) (hname : name ∈ program.localNames around)
    (hv : v.AllFns (w.PlacesFn program)) :
    w.Carries program { s with machine := s.machine.bound scope name v } := by
  refine hs.step le_rfl ?_ ?_ ?_
  · rw [Machine.bound, Heap.size_set, hs.size]
  · intro i label hi b hb
    by_cases heq : i = scope.frame
    · rcases Heap.mem_frame_set hb with rfl | hb
      · rw [heq, hlabel] at hi
        exact Option.some.inj hi ▸ hname
      · exact hs.labels.mem i label hi b hb
    · rw [Machine.bound, Heap.frame_set_of_ne name v heq] at hb
      exact hs.labels.mem i label hi b hb
  · intro i b hb
    rcases Heap.mem_frame_set hb with rfl | hb
    · exact hv
    · exact hs.bound i b hb

def extended (w : Layout) (label : Path) : Layout := ⟨w.labels ++ [label]⟩

theorem le_extended (w : Layout) (label : Path) : w ≤ w.extended label :=
  List.prefix_append w.labels [label]

theorem Carries.label_extended (hs : w.Carries program s) (label : Path) :
    (w.extended label).labels[s.machine.heap.size]? = some label := by
  rw [hs.size, extended, List.getElem?_concat_length]

theorem Carries.adds (hs : w.Carries program s) (label : Path) {f : Frame} {h : Heap}
    (ha : s.machine.heap.Adds f h) (hnames : ∀ b ∈ f, b.1 ∈ program.localNames label)
    (hf : ∀ b ∈ f, b.2.AllFns (w.PlacesFn program)) :
    (w.extended label).Carries program { s with machine := s.machine.placed h } := by
  have hle := w.le_extended label
  refine hs.step hle ?_ ?_ ?_
  · rw [Machine.placed, ha.size, hs.size, extended, List.length_append]
    rfl
  · intro i around hi b hb
    rw [Machine.placed] at hb
    by_cases heq : i = s.machine.heap.size
    · rw [heq, hs.label_extended label] at hi
      rw [heq, ha.frame_self] at hb
      exact Option.some.inj hi ▸ hnames b hb
    · obtain ⟨hlt, -⟩ := List.getElem?_eq_some_iff.mp hi
      rw [extended, List.length_append, List.length_singleton, ← hs.size] at hlt
      rw [ha.frame_of_lt (by omega)] at hb
      exact (hs.labels.mono hle).mem i around hi b hb
  · intro i b hb
    rcases ha.mem_frame hb with hb | hb
    · exact (hf b hb).mono fun _ => Places.mono hle
    · exact (hs.bound i b hb).mono fun _ => Places.mono hle

theorem Carries.seen (hs : w.Carries program s) (hn : w.Places program scope n)
    {result : Option Value} (hresult : ∀ v ∈ result, v.AllFns (w.PlacesFn program)) :
    w.Carries program (s.seen scope n result) := by
  have hheld : ∀ c, Moment.Holds ⟨s.machine, result⟩ c → w.PlacesFn program c := by
    rintro c (⟨v, hv, hc⟩ | ⟨i, b, hb, hc⟩)
    · exact hresult v hv c hc
    · exact hs.bound i b hb c hc
  refine ⟨hs.size, hs.labels, hs.bound, ?_, ?_, ?_⟩
  · exact List.forall_mem_append.mpr ⟨hs.node, List.forall_mem_singleton.mpr hn⟩
  · exact List.forall_mem_append.mpr ⟨hs.held, List.forall_mem_singleton.mpr hheld⟩
  · exact List.forall_mem_append.mpr ⟨hs.labelled, List.forall_mem_singleton.mpr hs.labels⟩

end Layout

/-! ### What an evaluation keeps -/

def nesting (program : Node) : Unison Layout Trail Machine where
  state w s m := s.machine = m ∧ w.Carries program s
  fn w c := w.PlacesFn program c
  node w scope n := w.Places program scope n
  owns w scope name :=
    ∃ around, w.labels[scope.frame]? = some around ∧ name ∈ program.localNames around
  fn_mono hle h := h.mono hle
  node_mono hle h := h.mono hle
  owns_mono hle h := by
    obtain ⟨around, hlabel, hname⟩ := h
    exact ⟨around, Layout.label_mono hle hlabel, hname⟩
  node_parts h hc := by
    obtain ⟨path, hwithin, hreads⟩ := h
    exact ⟨path, hwithin.part hc, hreads⟩
  owns_target? h hname := by
    obtain ⟨path, hwithin, hreads⟩ := h
    exact ⟨path, hreads.frame, hwithin.mem_localNames (Node.mem_lets_of_target? hname)⟩
  size_eq hs := by
    obtain ⟨rfl, -⟩ := hs
    rfl
  recorded event hs := by
    obtain ⟨rfl, hs⟩ := hs
    exact ⟨rfl, hs.step le_rfl hs.size hs.labels.mem hs.bound⟩
  counted k hs := by
    obtain ⟨rfl, hs⟩ := hs
    exact ⟨rfl, hs.step le_rfl hs.size hs.labels.mem hs.bound⟩
  resolved hs _ := by
    obtain ⟨rfl, hs⟩ := hs
    refine ⟨rfl, fun v hfound => ?_⟩
    rcases Heap.of_resolve?_eq_some hfound with ⟨i, hi⟩ | ⟨primitive, rfl⟩
    · exact hs.bound i _ hi
    · exact Value.allFns_of_isPlain rfl
  bound hs howns hv := by
    obtain ⟨rfl, hs⟩ := hs
    obtain ⟨around, hlabel, hname⟩ := howns
    exact ⟨rfl, hs.set hlabel hname hv⟩
  snapshot {w s _ scope parameters body} hs hn := by
    obtain ⟨rfl, hs⟩ := hs
    obtain ⟨path, hwithin, hreads⟩ := hn
    -- The copy belongs to the place of the frame that it is a copy of.
    have hnames := hs.labels.mem scope.frame path hreads.frame
    refine ⟨w.extended path, w.le_extended path, ⟨rfl, ?_⟩, path, hwithin, ?_⟩
    · exact hs.adds path (Heap.adds_snapshot scope) hnames (hs.bound scope.frame)
    · exact (hreads.mono (w.le_extended path)).replace (hs.label_extended path)
  enclosed {w s _ c} hs hc := by
    obtain ⟨rfl, hs⟩ := hs
    obtain ⟨path, hwithin, hreads⟩ := hc
    -- The frame of the call belongs one function further in than the function itself.
    have hlabel := hs.label_extended ((c.parameters, c.body) :: path)
    have hle := w.le_extended ((c.parameters, c.body) :: path)
    refine ⟨_, hle, ⟨rfl, ?_⟩, ⟨_, hwithin.body, ?_⟩, fun name hname => ⟨_, hlabel, ?_⟩⟩
    · exact hs.adds _ (Heap.adds_enclosed _) (List.forall_mem_nil _) (List.forall_mem_nil _)
    · exact .cons hlabel (hreads.mono hle)
    · exact List.mem_append_left _ hname

theorem together_sighted [Text.Encoding] (program : Node) (depth : Nat) :
    (nesting program).SubTogether (sighted depth) (evalNode depth) := by
  induction depth with
  | zero => exact fun _ _ _ _ => Unison.together_throw .tooDeep
  | succ depth ih =>
    rintro w scope n hn s _ ⟨rfl, hs⟩
    have hstart : (nesting program).state w (s.seen scope n none) s.machine :=
      ⟨rfl, hs.seen hn (by simp)⟩
    have hends := Unison.together_evalForm ih hn _ _ hstart
    show (nesting program).Ends _ w
      (EStateM.bind (evalForm (sighted depth) scope n)
        (fun value => do modify (·.seen scope n (some value)); return value)
        (s.seen scope n none))
      (evalForm (evalNode depth) scope n s.machine)
    unfold EStateM.bind
    generalize evalForm (sighted depth) scope n (s.seen scope n none) = r,
      evalForm (evalNode depth) scope n s.machine = r' at hends
    cases hends with
    | ok hle hs hv =>
      obtain ⟨rfl, hs⟩ := hs
      refine .ok hle ⟨rfl, hs.seen (hn.mono hle) ?_⟩ hv
      rintro _ ⟨⟩
      exact hv
    | halt hle hs => exact .halt hle hs

theorem Layout.Carries.fits {program : Node} {w : Layout} {s : Trail} (hs : w.Carries program s)
    {scope : Scope} {n : Node} (hn : w.Places program scope n) :
    Fits program s.sights scope n := by
  obtain ⟨path, hwithin, hreads⟩ := hn
  refine ⟨path, hwithin, hreads.depth, fun p hp => ?_⟩
  refine List.Forall₂.imp (fun i around hlabel name hname => ?_) hreads
  obtain ⟨b, hb, rfl⟩ := Frame.mem_names.mp hname
  exact (hs.labelled p hp).mem i around hlabel b hb

theorem Layout.Carries.fits_sights {program : Node} {w : Layout} {s : Trail}
    (hs : w.Carries program s) :
    ∀ o ∈ s.sights, Fits program s.sights o.scope o.node ∧
      ∀ c, o.Holds c → Fits program s.sights c.scope (.function c.parameters c.body) :=
  fun o ho => ⟨hs.fits (hs.node o ho), fun c hc => hs.fits (hs.held o ho c hc)⟩

theorem fits_of_ends {program : Node} {w : Layout} {scope : Scope} {n : Node} {α : Type}
    {good : Layout → α → Prop} {r : EStateM.Result Halt Trail α}
    {r' : EStateM.Result Halt Machine α} (hends : (nesting program).Ends good w r r')
    (hn : w.Places program scope n) :
    withoutSights r = r' ∧
      ∀ o ∈ sights n scope r, Fits program (sights n scope r) o.scope o.node ∧
        ∀ c, o.Holds c →
          Fits program (sights n scope r) c.scope (.function c.parameters c.body) := by
  -- The last state is seen too, however the evaluation ended.
  have hlast : ∀ {w' : Layout} {s : Trail}, w ≤ w' → w'.Carries program s →
      w'.Carries program (s.seen scope n none) :=
    fun hle hs => hs.seen (hn.mono hle) (by simp)
  cases hends with
  | ok hle hs _ =>
    obtain ⟨rfl, hs⟩ := hs
    exact ⟨rfl, (hlast hle hs).fits_sights⟩
  | halt hle hs =>
    obtain ⟨rfl, hs⟩ := hs
    exact ⟨rfl, (hlast hle hs).fits_sights⟩

theorem Layout.carries_fresh (program : Node) :
    Layout.Carries program ⟨[[]]⟩ { machine := { heap := (Heap.globalScope {}).2 } } := by
  have hframe : ∀ i, ((Heap.globalScope {}).2).frame i = [] := by
    intro i
    cases i with
    | zero => rfl
    | succ i => exact Heap.frame_of_size_le (Nat.le_add_left 1 i)
  constructor
  · rfl
  · refine ⟨Nat.le_refl 1, fun i around _ b hb => ?_⟩
    rw [hframe] at hb
    cases hb
  · intro i b hb
    rw [hframe] at hb
    cases hb
  · exact List.forall_mem_nil _
  · exact List.forall_mem_nil _
  · exact List.forall_mem_nil _

/-- A program in a fresh scope: every node is evaluated in a scope that fits it, and every function
that exists at some moment has the parameters and the body of a function in the program and keeps a
scope that fits this function. -/
theorem scopes_follow_nesting [Text.Encoding] (program : Node) (depth : Nat) :
    let fresh := Heap.globalScope {}
    let run := sighted depth program fresh.1 { machine := { heap := fresh.2 } }
    let history := sights program fresh.1 run
    withoutSights run = evalNode depth program fresh.1 { heap := fresh.2 } ∧
      ∀ o ∈ history, Fits program history o.scope o.node ∧
        ∀ c, o.Holds c → Fits program history c.scope (.function c.parameters c.body) := by
  intro fresh run history
  have hroot : Layout.Places program ⟨[[]]⟩ fresh.1 program := ⟨[], .whole, .cons rfl .nil⟩
  have hends := together_sighted program depth _ fresh.1 program hroot _ _
    ⟨rfl, Layout.carries_fresh program⟩
  exact fits_of_ends hends hroot

/-- A function that hands itself on is called twice, and the function that the inner call gives
still has one frame around its own. -/
theorem scopes_follow_nesting_handed_on :
    let program : Node := .program
      [.letBind "f" (.function ["g", "n"] (.block [.expression (.conditional (.identifier "n")
        (.block [.expression (.call (.identifier "g") [.identifier "g", .boolean false])])
        (.block [.expression (.function [] (.block [.expression (.identifier "n")]))]))])),
      .expression (.call (.identifier "f") [.identifier "f", .boolean true])]
    let fresh := Heap.globalScope {}
    let history := sights program fresh.1
      (sighted 20 program fresh.1 { machine := { heap := fresh.2 } })
    ∃ o ∈ history, ∃ c, o.Holds c ∧ c.parameters = [] ∧ c.scope.depth = 1 ∧
      Fits program history c.scope (.function c.parameters c.body) := by
  intro program fresh history
  have hfound : (history.any fun o => o.result.any fun v => v.closures.any fun c =>
      c.parameters.isEmpty && c.scope.depth == 1) = true := by decide +kernel
  simp only [List.any_eq_true, Option.any_eq_true, Bool.and_eq_true, List.isEmpty_iff,
    beq_iff_eq] at hfound
  obtain ⟨o, ho, v, hv, c, hc, hparameters, hdepth⟩ := hfound
  have hheld : o.Holds c := .inl ⟨v, hv, hc⟩
  have hfits := ((scopes_follow_nesting program 20).2 o ho).2 c hheld
  exact ⟨o, ho, c, hheld, hparameters, hdepth, hfits⟩

end Eval

end MonkeyLang

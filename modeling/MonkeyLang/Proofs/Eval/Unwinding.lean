import MonkeyLang.Proofs.Eval.Layers
import MonkeyLang.Proofs.Eval.Watched

/-!
A result that unwinds stops everything around it. If the evaluation has arrived at a place of a form
and the node there unwinds, the form gives what the node gave, and no part behind the node is looked
at. By induction over the layers the same holds at any depth, up to a program or to the body of a
function.
-/
namespace MonkeyLang

namespace Eval

open Machine

section Sequences

variable {sub : Sub} {scope : Scope} {m m' m'' : Machine} {v : Value}

theorem Leads.stopped {x : Eval Value} (h : Leads x m v m') (hv : v.unwinds)
    (f : Value → Eval Value) : Leads (onValue x f) m v m' := by
  refine h.bind ?_
  rw [if_pos hv]
  exact leads_pure v m'

theorem Leads.passed {x : Eval Value} {f : Value → Eval Value} {u : Value} (h : Leads x m u m')
    (hu : u.unwinds = false) (hf : Leads (f u) m' v m'') : Leads (onValue x f) m v m'' := by
  refine h.bind ?_
  rw [hu]
  exact hf

theorem Arrives.blockFrom {nodes rest : List Node}
    (h : Arrives sub scope (nodes.map .statement) m m')
    (hrest : ∀ result, Leads (blockFrom sub scope result rest) m' v m'') (result : Value) :
    Leads (blockFrom sub scope result (nodes ++ rest)) m v m'' := by
  induction nodes generalizing m result with
  | nil =>
    cases h
    exact hrest result
  | cons n nodes ih =>
    cases h with
    | @behind _ _ u _ m₁ _ hpart hpasses hparts =>
      refine hpart.bind ((leads_countStatement m₁).bind ?_)
      have hgoes : u.unwinds = false := hpasses
      rw [hgoes]
      exact ih hparts u

theorem Arrives.valuesOf {nodes rest : List Node} (h : Arrives sub scope (nodes.map .operand) m m')
    (hrest : Leads (valuesOf sub scope rest) m' (.error v) m'') :
    Leads (valuesOf sub scope (nodes ++ rest)) m (.error v) m'' := by
  induction nodes generalizing m with
  | nil =>
    cases h
    exact hrest
  | cons n nodes ih =>
    cases h with
    | @behind _ _ u _ m₁ _ hpart hpasses hparts =>
      refine hpart.bind ?_
      have hgoes : u.unwinds = false := hpasses
      rw [hgoes]
      exact (ih hparts).bind (leads_pure _ m'')

theorem Leads.passedKey {keyNode valueNode : Node} {rest : List (Node × Node)} {found : Entries}
    {u : Value} (h : Leads (sub keyNode scope) m u m') (hu : (Earlier.key keyNode).Passes u)
    (hrest : ∀ key, Leads (onValue (sub valueNode scope) fun value =>
      entriesFrom sub scope (found.insert key (u, value)) rest) m' v m'') :
    Leads (entriesFrom sub scope found ((keyNode, valueNode) :: rest)) m v m'' := by
  obtain ⟨hgoes, key, hkey, husable⟩ := hu
  refine h.passed hgoes ((leads_typed hkey m').bind ?_)
  cases key with
  | unusable kind => cases husable
  | _ => exact hrest _

theorem Arrives.entriesFrom {entries rest : List (Node × Node)}
    (h : Arrives sub scope (entries.flatMap Earlier.entry) m m')
    (hrest : ∀ found, Leads (entriesFrom sub scope found rest) m' v m'') (found : Entries) :
    Leads (entriesFrom sub scope found (entries ++ rest)) m v m'' := by
  induction entries generalizing m found with
  | nil =>
    cases h
    exact hrest found
  | cons e entries ih =>
    cases h with
    | behind hkey hpasses hparts =>
      cases hparts with
      | behind hvalue hgoes hparts =>
        exact hkey.passedKey hpasses fun _ => hvalue.passed hgoes (ih hparts _)

theorem Arrives.programFrom {nodes rest : List Node}
    (h : Arrives sub scope (nodes.map .statement) m m')
    (hrest : ∀ number result, Leads (programFrom sub scope number result rest) m' v m'')
    (number : Nat) (result : Value) :
    Leads (programFrom sub scope number result (nodes ++ rest)) m v m'' := by
  intro m₀ h₀
  obtain ⟨u, m₁, h₁, -, happend⟩ := h.programFrom_append h₀ number result
  rw [happend]
  exact hrest _ u m₁ h₁

end Sequences

/-! ### Layers -/

namespace Layer

def isBlock : Layer → Bool
  | block _ _ => true
  | _ => false

def left (layer : Layer) (m : Machine) : Machine :=
  if layer.isBlock then m.counted ⟨1, 0, 0⟩ else m

/-- Layers that differ at most in what comes behind the place. -/
structure SameBefore (layer layer' : Layer) : Prop where
  before : layer.before = layer'.before
  isBlock : layer.isBlock = layer'.isBlock

variable {sub : Sub} {scope : Scope} {m m' m'' : Machine} {e : Node} {v : Value}

theorem leads_valuesOf_stopped (he : Leads (sub e scope) m v m') (hv : v.unwinds)
    (rest : List Node) : Leads (valuesOf sub scope (e :: rest)) m (.error v) m' := by
  refine he.bind ?_
  rw [if_pos hv]
  exact leads_pure _ m'

theorem leads_branch_stopped (he : Leads (sub e scope) m v m') (hv : v.unwinds) :
    Leads (do return (← sub e scope).orNull) m v m' := by
  have hsame : v.orNull = v := by cases v <;> first | rfl | cases hv
  refine he.bind ?_
  rw [hsame]
  exact leads_pure v m'

/-- Once the evaluation has arrived at the place, a node there that unwinds stops the form. -/
theorem leads_evalForm_stopped [Text.Encoding] (layer : Layer)
    (hbefore : Arrives sub scope layer.before m m')
    (he : Leads (sub e scope) m' v m'') (hv : v.unwinds) (hhole : e.isHole = false) :
    Leads (evalForm sub scope (layer.fill e)) m v (layer.left m'') := by
  cases layer with
  | block done rest =>
    refine Leads.emitted (hbefore.blockFrom (fun _ => ?_) .emptyMark) _
    refine he.bind ((leads_countStatement m'').bind ?_)
    rw [if_pos hv]
    exact leads_pure v _
  | letBind name | returning | collection position | condition consequence alternative =>
    cases hbefore
    exact he.stopped hv _
  | expression | grouped =>
    cases hbefore
    exact he
  | prefixOp operator | infixLeft operator right | callee arguments =>
    cases hbefore
    exact Leads.emitted (he.stopped hv _) _
  | infixRight left operator =>
    cases hbefore with
    | behind hleft hgoes hdone =>
      cases hdone
      exact Leads.emitted (hleft.passed hgoes (he.stopped hv _)) _
  | position collection =>
    cases hbefore with
    | behind hcollection hgoes hdone =>
      cases hdone
      exact hcollection.passed hgoes (he.stopped hv _)
  | consequence condition alternative =>
    cases hbefore with
    | behind hcondition hpasses hdone =>
      cases hdone
      refine hcondition.passed hpasses.1 ?_
      rw [if_pos hpasses.2]
      exact leads_branch_stopped he hv
  | alternative condition consequence =>
    cases hbefore with
    | behind hcondition hpasses hdone =>
      cases hdone
      refine hcondition.passed hpasses.1 ?_
      have hbranch := leads_branch_stopped he hv
      rw [hpasses.2]
      -- A hole would be taken for a missing branch.
      cases e with
      | hole => cases hhole
      | _ => exact hbranch
  | argument callee done rest =>
    cases hbefore with
    | behind hcallee hgoes hbefore =>
      refine Leads.emitted (hcallee.passed hgoes ?_) _
      exact (hbefore.valuesOf (leads_valuesOf_stopped he hv rest)).bind (leads_pure v _)
  | element done rest =>
    exact (hbefore.valuesOf (leads_valuesOf_stopped he hv rest)).bind (leads_pure v _)
  | key done value rest =>
    refine Leads.emitted (hbefore.entriesFrom (fun _ => ?_) []) _
    exact he.stopped hv _
  | value done key rest =>
    obtain ⟨m₁, hentries, hkey⟩ := hbefore.split
    cases hkey with
    | behind hkey hpasses hdone =>
      cases hdone
      refine Leads.emitted (hentries.entriesFrom (fun _ => ?_) []) _
      exact hkey.passedKey hpasses fun _ => he.stopped hv _

end Layer

/-! ### Places at any depth -/

def leftAll (layers : List Layer) (m : Machine) : Machine := layers.foldr Layer.left m

/-- The evaluation of the layers comes to the node inside them, and there the node gives a value
that unwinds and leaves a machine behind. -/
structure Unwinds [Text.Encoding] (scope : Scope) (depth : Nat) (layers : List Layer) (e : Node)
    (m : Machine) (v : Value) (m' : Machine) : Prop where
  unwinds : v.unwinds
  reached : ∃ inner m₁, Reaches scope depth layers m inner m₁ ∧
    Leads (evalNode inner e scope) m₁ v m'

section Places

variable {scope : Scope} {depth : Nat} {layers layers' : List Layer} {e : Node} {v : Value}
  {m m' m'' : Machine}

theorem isHole_of_leads [Text.Encoding] {n : Node} (h : Leads (evalNode depth n scope) m v m')
    (hv : v.unwinds) : n.isHole = false := by
  obtain ⟨m₁, -, h⟩ := h m (.refl m)
  cases n with
  | hole =>
    cases depth with
    | zero => cases h
    | succ depth =>
      cases h
      cases hv
  | _ => rfl

theorem Unwinds.leads [Text.Encoding] (h : Unwinds scope depth layers e m v m') :
    Leads (evalNode depth (fillAll layers e) scope) m v (leftAll layers m') := by
  obtain ⟨hv, inner, m₁, hreaches, he⟩ := h
  -- Each layer is stopped by what the layers inside it give.
  induction hreaches with
  | here => exact he
  | @inside depth inner layer layers m m₁ m' hbefore _ ih =>
    have hinner := ih he
    exact layer.leads_evalForm_stopped hbefore hinner hv (isHole_of_leads hinner hv)

theorem sameBefore_refl (layers : List Layer) : List.Forall₂ Layer.SameBefore layers layers :=
  List.forall₂_same.mpr fun _ _ => ⟨rfl, rfl⟩

theorem Reaches.congr [Text.Encoding] {inner : Nat} (h : Reaches scope depth layers m inner m')
    (hsame : List.Forall₂ Layer.SameBefore layers layers') :
    Reaches scope depth layers' m inner m' := by
  induction h generalizing layers' with
  | here depth m =>
    cases hsame
    exact .here depth m
  | inside hbefore _ ih =>
    cases hsame with
    | cons hlayer hlayers =>
      rw [hlayer.before] at hbefore
      exact .inside hbefore (ih hlayers)

theorem leftAll_congr (hsame : List.Forall₂ Layer.SameBefore layers layers') (m : Machine) :
    leftAll layers m = leftAll layers' m := by
  induction hsame with
  | nil => rfl
  | @cons layer layer' layers layers' hlayer _ ih =>
    change layer.left (leftAll layers m) = layer'.left (leftAll layers' m)
    rw [ih, Layer.left, Layer.left, hlayer.isBlock]

theorem Unwinds.leads_congr [Text.Encoding] (h : Unwinds scope depth layers e m v m')
    (hsame : List.Forall₂ Layer.SameBefore layers layers') :
    Leads (evalNode depth (fillAll layers' e) scope) m v (leftAll layers m') := by
  obtain ⟨hv, inner, m₁, hreaches, he⟩ := h
  rw [leftAll_congr hsame]
  exact Unwinds.leads ⟨hv, inner, m₁, hreaches.congr hsame, he⟩

/-- Nothing but the count of statements changes on the way out. -/
theorem leftAll_heap_calls (layers : List Layer) (m : Machine) :
    (leftAll layers m).heap = m.heap ∧ (leftAll layers m).summary.calls = m.summary.calls := by
  induction layers with
  | nil => exact ⟨rfl, rfl⟩
  | cons layer layers ih =>
    change (layer.left (leftAll layers m)).heap = _ ∧
      (layer.left (leftAll layers m)).summary.calls = _
    unfold Layer.left
    split <;> exact ih

end Places

/-! ### Programs and calls -/

def ended (v : Value) (m : Machine) : Machine :=
  m.counted ⟨1, 0, if v.isError then 1 else 0⟩

section Ends

variable [Text.Encoding] {α : Type} {good : α → Prop} {after : α → Machine → Prop} {scope : Scope}
  {depth : Nat}
  {v : Value} {m m' m'' : Machine}

theorem Leads.ends {x y : Eval α} {a : α} (h : Leads y m a m')
    (haccounts : Accounts m.summary (Owes m.summary 0 0) good after x y)
    (hm : m.heap.Proper) : good a ∧ m'.heap.Proper := by
  obtain ⟨m₁, htwin, hy⟩ := h { m with events := [] } ⟨rfl, rfl⟩
  obtain ⟨-, hends, -⟩ := haccounts { m with events := [] } hm ⟨rfl, rfl⟩
  rw [hy] at hends
  exact ⟨hends.1, htwin.heap ▸ hends.2⟩

theorem Arrives.proper {nodes : List Node}
    (h : Arrives (evalNode depth) scope (nodes.map .statement) m m')
    (hnodes : ∀ n ∈ nodes, Shaped (.statement n)) (hm : m.heap.Proper) : m'.heap.Proper := by
  induction nodes generalizing m with
  | nil =>
    cases h
    exact hm
  | cons n nodes ih =>
    obtain ⟨hn, hnodes⟩ := List.forall_mem_cons.mp hnodes
    cases h with
    | behind hpart hpasses hparts =>
      refine ih hparts hnodes ?_
      exact (hpart.ends ((subSettles_watched depth).statement hn scope) hm).2

theorem Arrives.program {done : List Node} {n : Node}
    (h : Arrives (evalNode depth) scope (done.map .statement) m m')
    (hn : Leads (evalNode depth n scope) m' v m'') (hv : v.unwinds) (hproper : v.IsOutcomeOrMark)
    (rest : List Node) :
    Leads (evalNode (depth + 1) (.program (done ++ n :: rest)) scope) m v.unwrapped
      (ended v m'') := by
  refine Leads.emitted (Leads.emitted (h.programFrom (fun number result => ?_) 1 .emptyMark) _) _
  refine Leads.emitted (hn.bind ((leads_countStatement m'').bind ?_)) _
  cases v with
  | returned inner =>
    obtain ⟨kind, hkind⟩ := hproper.returned.exists_kind
    exact (leads_typed hkind _).bind (Leads.emitted (leads_pure inner _) _)
  | error cause =>
    refine Leads.emitted ((leads_countError _).bind ?_) _
    exact leads_pure (Value.error cause) _
  | _ => cases hv

theorem evaluate_of_leads {node : Node} {heap : Heap}
    (h : Leads (evalNode depth node scope) { heap } v m') :
    (evaluate depth node scope heap).ending = .ofValue v ∧
      (evaluate depth node scope heap).heap = m'.heap ∧
      (evaluate depth node scope heap).summary = m'.summary := by
  obtain ⟨m₁, htwin, h⟩ := h { heap } (.refl _)
  simp only [evaluate, h]
  exact ⟨rfl, htwin.heap.symm, htwin.summary.symm⟩

omit [Text.Encoding] in
theorem ofValue_unwrapped (hv : v.unwinds) (hproper : v.IsOutcomeOrMark) :
    Ending.ofValue v.unwrapped = .result v.unwrapped := by
  cases v with
  | returned inner =>
    have hinner := hproper.returned
    cases inner <;> first | rfl | cases hinner
  | error cause => rfl
  | _ => cases hv

/-- The steps of a call up to the body of the function: it is counted, and the parameters are bound
in a scope of its own. -/
def enter (c : Closure) (arguments : List Value) : Eval Scope := do
  countCall
  let inner ← makeScope (·.enclosed c.scope)
  bindNames inner c.parameters arguments
  return inner

structure Calls (scope : Scope) (depth : Nat) (callee : Node) (arguments : List Node) (m : Machine)
    (c : Closure) (values : List Value) (m' : Machine) : Prop where
  arity : c.parameters.length = values.length
  steps : ∃ m₁, Leads (evalNode depth callee scope) m c.value m₁ ∧
    Leads (valuesOf (evalNode depth) scope arguments) m₁ (.ok values) m'

theorem accounts_enter {base : Summary} (c : Closure) {arguments : List Value}
    (h : ∀ v ∈ arguments, v.Proper) :
    Accounts base (Owes base 0 0) (fun _ => True) (fun _ => Owes base 1 0) (enter c arguments)
      (enter c arguments) := by
  refine accounts_bind accounts_countCall fun _ _ => ?_
  refine accounts_bind (accounts_makeScope fun _ hh => hh.enclosed c.scope) fun inner _ => ?_
  refine accounts_bind (accounts_bindNames inner c.parameters h) fun _ _ => ?_
  exact accounts_pure trivial fun _ hm => hm

theorem applyValue_closure (sub : Sub) (c : Closure) {arguments : List Value}
    (harity : c.parameters.length = arguments.length) :
    applyValue sub c.value arguments = (do
      let inner ← enter c arguments
      emit (.functionCall arguments.length)
      return (← sub c.body inner).unwrapped.orNull) := by
  simp only [applyValue, Closure.value, enter, harity, if_true, bind_assoc, pure_bind]

theorem leads_apply {c : Closure} {arguments : List Value} {inner : Scope}
    (harity : c.parameters.length = arguments.length)
    (henter : Leads (enter c arguments) m inner m')
    (hbody : Leads (evalNode depth c.body inner) m' v m'') (hv : v.unwinds)
    (hproper : v.IsOutcomeOrMark) : Leads (apply depth c.value arguments) m v.unwrapped m'' := by
  have hresult : v.unwrapped.orNull = v.unwrapped := by
    cases v with
    | returned value => exact hproper.returned.orNull
    | error cause => rfl
    | _ => cases hv
  rw [apply, applyValue_closure _ c harity]
  refine henter.bind (Leads.emitted (hbody.bind ?_) _)
  rw [hresult]
  exact leads_pure _ m''

theorem Calls.leads {callee : Node} {arguments : List Node} {c : Closure} {values : List Value}
    (h : Calls scope depth callee arguments m c values m')
    (happly : Leads (apply depth c.value values) m' v m'') :
    Leads (evalNode (depth + 1) (.call callee arguments) scope) m v m'' := by
  obtain ⟨-, m₁, hcallee, hvalues⟩ := h
  exact Leads.emitted (hcallee.passed rfl (hvalues.bind happly)) _

theorem Calls.proper {callee : Node} {arguments : List Node} {c : Closure} {values : List Value}
    {inner : Scope} (h : Calls scope depth callee arguments m c values m')
    (hshaped : Shaped (.expression (.call callee arguments))) (hm : m.heap.Proper)
    (henter : Leads (enter c values) m' inner m'') :
    Shaped (.block c.body) ∧ m''.heap.Proper := by
  obtain ⟨-, m₁, hcallee, hvalues⟩ := h
  cases hshaped with
  | call hcalleeShaped hargumentsShaped =>
    obtain ⟨hfunction, hm₁⟩ :=
      hcallee.ends ((subSettles_watched depth).expression hcalleeShaped scope) hm
    obtain ⟨hproper, hm'⟩ :=
      hvalues.ends (accounts_valuesOf (subSettles_watched depth) scope hargumentsShaped) hm₁
    exact ⟨hfunction, (henter.ends (accounts_enter c hproper) hm').2⟩

end Ends

end Eval

open Eval

/-- Once a node that the evaluation of a parsed program comes to has unwound, with an error or with
a return, the program ends with the error or the value returned, in the heap and with the calls of
that moment; and so it does with the same counts whatever stands behind the node. In the body of a
function the call takes the place of the program. -/
theorem unwinding_stops_everything [Text.Encoding] (scope : Scope) (depth : Nat) :
    (∀ {heap : Heap} {found : Lexer.Scan} {done rest : List Node} {layers : List Layer} {e : Node}
        {v : Value} {m m' : Machine}, Reached heap →
      (parseScan found).program = .program (done ++ fillAll layers e :: rest) →
      Arrives (evalNode depth) scope (done.map .statement) { heap } m →
      Unwinds scope depth layers e m v m' →
      let evaluation := evaluate (depth + 1) (parseScan found).program scope heap
      evaluation.ending = .result v.unwrapped ∧ evaluation.heap = m'.heap ∧
        evaluation.summary.calls = m'.summary.calls ∧
        ∀ layers' rest', List.Forall₂ Layer.SameBefore layers layers' →
          let other :=
            evaluate (depth + 1) (.program (done ++ fillAll layers' e :: rest')) scope heap
          other.ending = evaluation.ending ∧ other.heap = evaluation.heap ∧
            other.summary = evaluation.summary) ∧
    ∀ {callee : Node} {arguments : List Node} {parameters : List String} {kept inner : Scope}
        {values : List Value} {layers : List Layer} {e : Node} {v : Value} {m m₁ m₂ m' : Machine},
      Shaped (.expression (.call callee arguments)) → m.heap.Proper →
      Calls scope depth callee arguments m ⟨parameters, fillAll layers e, kept⟩ values m₁ →
      Leads (enter ⟨parameters, fillAll layers e, kept⟩ values) m₁ inner m₂ →
      Unwinds inner depth layers e m₂ v m' →
      ∃ m'', Leads (evalNode (depth + 1) (.call callee arguments) scope) m v.unwrapped m'' ∧
        m''.heap = m'.heap ∧ m''.summary.calls = m'.summary.calls ∧
        ∀ layers', List.Forall₂ Layer.SameBefore layers layers' →
          Leads (apply depth (.function parameters (fillAll layers' e) kept) values) m₁ v.unwrapped
            m'' := by
  constructor
  · intro heap found done rest layers e v m m' hreached hprogram harrives hunwinds
    obtain ⟨nodes, hnodes, hshaped⟩ := shaped_parseScan found
    obtain rfl : nodes = done ++ fillAll layers e :: rest := by
      rw [hprogram] at hnodes
      injection hnodes with hnodes
      exact hnodes.symm
    obtain ⟨hdone, hshaped⟩ := List.forall_mem_append.mp hshaped.forall_mem
    have hheap := harrives.proper hdone hreached.proper
    have hstatement := hunwinds.leads.ends
      ((subSettles_watched depth).statement (hshaped _ List.mem_cons_self) scope) hheap
    -- The way out is the same for everything that may stand behind the node.
    have hends : ∀ layers' rest', List.Forall₂ Layer.SameBefore layers layers' →
        Leads (evalNode (depth + 1) (.program (done ++ fillAll layers' e :: rest')) scope) { heap }
          v.unwrapped (ended v (leftAll layers m')) := fun layers' rest' hsame =>
      harrives.program (hunwinds.leads_congr hsame) hunwinds.unwinds hstatement.1 rest'
    obtain ⟨hending, hheap', hsummary⟩ :=
      evaluate_of_leads (hends layers rest (sameBefore_refl layers))
    obtain ⟨hleft, hcalls⟩ := leftAll_heap_calls layers m'
    rw [hprogram]
    refine ⟨?_, ?_, ?_, fun layers' rest' hsame => ?_⟩
    · rw [hending, ofValue_unwrapped hunwinds.unwinds hstatement.1]
    · rw [hheap']
      exact hleft
    · rw [hsummary]
      exact hcalls
    · obtain ⟨hending', hheap'', hsummary'⟩ := evaluate_of_leads (hends layers' rest' hsame)
      exact ⟨hending'.trans hending.symm, hheap''.trans hheap'.symm, hsummary'.trans hsummary.symm⟩
  · intro callee arguments parameters kept inner values layers e v m m₁ m₂ m' hshaped hm hcalls
      henter hunwinds
    obtain ⟨hbody, hheap⟩ := hcalls.proper hshaped hm henter
    have hresult := hunwinds.leads.ends ((subSettles_watched depth).block hbody inner) hheap
    have happly : ∀ layers', List.Forall₂ Layer.SameBefore layers layers' →
        Leads (apply depth (.function parameters (fillAll layers' e) kept) values) m₁ v.unwrapped
          (leftAll layers m') := by
      intro layers' hsame
      have hbody := hunwinds.leads_congr hsame
      exact leads_apply (c := ⟨parameters, fillAll layers' e, kept⟩) hcalls.arity henter hbody
        hunwinds.unwinds hresult.1
    obtain ⟨hleft, hcount⟩ := leftAll_heap_calls layers m'
    have hcall := hcalls.leads (happly layers (sameBefore_refl layers))
    exact ⟨leftAll layers m', hcall, hleft, hcount, happly⟩

theorem unwinding_stops_everything_twice :
    let scope := (Heap.globalScope {}).1
    let heap := (Heap.globalScope {}).2
    let found := Lexer.scan "let a = 1; let b = [a, x, len(a)]; b"
    let done : List Node := [.letBind "a" (.integer 1)]
    let layers : List Layer := [.letBind "b",
      .element [.identifier "a"] [.call (.identifier "len") [.identifier "a"]]]
    let others : List Layer := [.returning, .argument (.identifier "a") [] [.bare .node]]
    let m : Machine := { heap := heap.set scope "a" (.integer 1), summary := ⟨1, 0, 0⟩ }
    let evaluation := evaluate (5 + 1) (parseScan found).program scope heap
    let other :=
      evaluate (5 + 1) (.program (done ++ fillAll others (.identifier "x") :: [])) scope heap
    let body : List Layer := [.block [] [.expression (.integer 3)], .expression,
      .consequence (.identifier "n") .hole, .block [] []]
    let node : Node := .function ["n"] (fillAll body (.returning (.identifier "n")))
    let kept := heap.snapshot scope
    let inner := kept.2.enclosed kept.1
    let entered : Machine := { heap := inner.2.set inner.1 "n" (.integer 2), summary := ⟨0, 1, 0⟩ }
    (Unwinds scope 5 layers (.identifier "x") m (.error (.unboundName "x")) m ∧
      evaluation.ending = .result (.error (.unboundName "x")) ∧ evaluation.heap = m.heap ∧
      evaluation.summary.calls = m.summary.calls ∧ other.ending = evaluation.ending ∧
      other.heap = evaluation.heap ∧ other.summary = evaluation.summary) ∧
    Unwinds inner.1 9 body (.returning (.identifier "n")) entered (.returned (.integer 2)) entered ∧
      ∃ m'', Leads (evalNode (9 + 1) (.call node [.integer 2]) scope) { heap } (.integer 2) m'' ∧
        m''.heap = entered.heap ∧ m''.summary.calls = entered.summary.calls := by
  have hprogram : (parseScan (Lexer.scan "let a = 1; let b = [a, x, len(a)]; b")).program =
      .program ([.letBind "a" (.integer 1)] ++ fillAll [.letBind "b",
        .element [.identifier "a"] [.call (.identifier "len") [.identifier "a"]]]
          (.identifier "x") :: [.expression (.identifier "b")]) := by rfl
  intro scope heap found done layers others m evaluation other body node kept inner entered
  have hreached : Reached heap := .opened none Builtin.all .empty
  have hfound : (parseScan found).program = .program
      (done ++ fillAll layers (.identifier "x") :: [.expression (.identifier "b")]) := hprogram
  constructor
  · have hlet : evalNode 5 (.letBind "a" (.integer 1)) scope { heap } =
        .ok .letMark { heap := m.heap, events := [.bound "a"] } := by rfl
    have hname : evalNode 3 (.identifier "x") scope m =
        .ok (.error (.unboundName "x")) { m with events := [.unboundName "x"] } := by rfl
    have harrives : Arrives (evalNode 5) scope (done.map .statement) { heap } m := by
      have hleads : Leads (evalNode 5 (.letBind "a" (.integer 1)) scope) { heap } .letMark
          { heap := m.heap } := (leads_evalNode hlet).twin ⟨rfl, rfl⟩
      exact .behind hleads rfl (.here m)
    have hunwinds : Unwinds scope 5 layers (.identifier "x") m (.error (.unboundName "x")) m := by
      refine ⟨rfl, 3, m, ?_, (leads_evalNode hname).twin ⟨rfl, rfl⟩⟩
      exact .inside (.here m) (.inside (.behind (leads_evalNode rfl) rfl (.here m)) (.here 3 m))
    obtain ⟨hending, hheap, hcalls, hothers⟩ :=
      (unwinding_stops_everything scope 5).1 hreached hfound harrives hunwinds
    have hother := hothers others [] (.cons ⟨rfl, rfl⟩ (.cons ⟨rfl, rfl⟩ .nil))
    simp only [evaluation, other]
    exact ⟨hunwinds, hending, hheap, hcalls, hother⟩
  · have hunwinds : Unwinds inner.1 9 body (.returning (.identifier "n")) entered
        (.returned (.integer 2)) entered := by
      refine ⟨rfl, 5, entered, ?_, leads_evalNode rfl⟩
      refine .inside (.here entered) (.inside (.here entered) (.inside ?_ (.inside (.here entered)
        (.here 5 entered))))
      exact .behind (leads_evalNode rfl) ⟨rfl, rfl⟩ (.here entered)
    have hcalls : Calls scope 9 node [.integer 2] { heap }
        ⟨["n"], fillAll body (.returning (.identifier "n")), kept.1⟩ [.integer 2]
        { heap := kept.2 } := by
      refine ⟨rfl, { heap := kept.2 }, leads_evalNode rfl, ?_⟩
      exact Leads.bind (leads_evalNode rfl) ((leads_pure _ _).bind (leads_pure _ _))
    have henter : Leads (enter ⟨["n"], fillAll body (.returning (.identifier "n")), kept.1⟩
        [.integer 2]) { heap := kept.2 } inner.1 entered := by
      rintro ⟨frames, summary, events⟩ ⟨hheap, hsummary⟩
      cases hheap
      cases hsummary
      exact ⟨{ entered with events }, ⟨rfl, rfl⟩, rfl⟩
    have hshaped : Shaped (.expression (.call node [.integer 2])) := by
      have hreturn : Shaped (.block (.block [.returning (.identifier "n")])) :=
        .block (.statements (List.forall_mem_singleton.mpr (.returning (.identifier "n"))))
      refine .call (.function ["n"] (.block (.statements (List.forall_mem_cons.mpr ⟨?_, ?_⟩))))
        (List.forall_mem_singleton.mpr (.integer 2))
      · exact .expression (.conditional (.identifier "n") hreturn)
      · exact List.forall_mem_singleton.mpr (.expression (.integer 3))
    obtain ⟨m'', hleads, hheap, hcount, -⟩ := (unwinding_stops_everything scope 9).2 hshaped
      hreached.proper hcalls henter hunwinds
    exact ⟨hunwinds, m'', hleads, hheap, hcount⟩

end MonkeyLang

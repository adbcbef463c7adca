import MonkeyLang.Proofs.Eval.Footprint

/-!
An evaluation looks neither at the trace nor at the counts so far. From two machines with the same
heap a node gives the same result, leaves the same heap behind and counts the same, whatever had
been recorded and counted before. So an evaluation leads from a machine to a value and another
machine, the trace aside.
-/
namespace MonkeyLang

namespace Summary

theorem plus_assoc (a b c : Summary) : (a.plus b).plus c = a.plus (b.plus c) := by
  simp only [plus, Nat.add_assoc]

@[simp] theorem zero_plus (a : Summary) : Summary.plus {} a = a := by
  simp only [plus, Nat.zero_add]

@[simp] theorem plus_zero (a : Summary) : a.plus {} = a := by
  simp only [plus, Nat.add_zero]

end Summary

namespace Machine

def Tallies (base base' : Summary) (m m' : Machine) : Prop :=
  m.heap = m'.heap ∧ ∃ k, m.summary = base.plus k ∧ m'.summary = base'.plus k

/-- Machines that differ in the trace only. -/
structure Twin (m m' : Machine) : Prop where
  heap : m.heap = m'.heap
  summary : m.summary = m'.summary

variable {m m' m'' : Machine}

theorem Twin.refl (m : Machine) : m.Twin m := ⟨rfl, rfl⟩

theorem Twin.symm (h : m.Twin m') : m'.Twin m := ⟨h.heap.symm, h.summary.symm⟩

theorem Twin.trans (h : m.Twin m') (h' : m'.Twin m'') : m.Twin m'' :=
  ⟨h.heap.trans h'.heap, h.summary.trans h'.summary⟩

theorem Twin.counted (h : m.Twin m') (k : Summary) : (m.counted k).Twin (m'.counted k) :=
  ⟨h.heap, by simp only [Machine.counted, h.summary]⟩

theorem tallies_iff_twin : Tallies {} {} m m' ↔ m.Twin m' := by
  constructor
  · rintro ⟨hheap, k, hk, hk'⟩
    exact ⟨hheap, hk.trans hk'.symm⟩
  · intro h
    exact ⟨h.heap, m.summary, m.summary.zero_plus.symm, by simp [h.summary]⟩

end Machine

namespace Eval

open HasMachine Machine

def tallied (base base' : Summary) : Link OneWorld Machine Machine where
  state _ := Tallies base base'
  scopes _ := Eq
  fn _ := Eq
  nodes _ := Eq
  owns _ _ := True
  bodies := Eq
  lenient := False
  scopes_mono _ h := h
  fn_mono _ h := h
  parameters_eq h := congrArg Closure.parameters h
  recorded _ _ hs := hs
  counted k hs := by
    obtain ⟨hheap, l, hl, hl'⟩ := hs
    refine ⟨hheap, l.plus k, ?_, ?_⟩
    · simp only [Machine.counted, update, hl, Summary.plus_assoc]
    · simp only [Machine.counted, update, hl', Summary.plus_assoc]
  resolved {_ s s' sc sc'} name hs hsc := by
    subst hsc
    simp only [machine, hs.1]
    cases s'.heap.resolve? sc name with
    | none => exact .none
    | some v => exact .some (v.matches_self fun _ _ => rfl)
  bound {_ s s' sc sc' name v v'} hs hsc _ hv := by
    subst hsc
    obtain rfl := hv.eq fun _ _ hc => hc
    exact ⟨by simp only [update, Machine.bound, hs.1], hs.2⟩
  snapshot {_ s s' sc sc' body body'} parameters hs hsc hbody := by
    subst hsc hbody
    refine ⟨⟨⟩, trivial, ⟨?_, hs.2⟩, ?_⟩
    · simp only [update, machine, Machine.placed, hs.1]
    · simp only [machine, hs.1]
  enclosed {_ s s' c c'} hs hfn := by
    subst hfn
    refine ⟨⟨⟩, trivial, ⟨?_, hs.2⟩, ?_, rfl, fun _ => trivial⟩
    · simp only [update, machine, Machine.placed, hs.1]
    · simp only [machine, hs.1]

theorem subRelated_tallied [Text.Encoding] (base base' : Summary) (depth : Nat) :
    (tallied base base').SubRelated (evalNode depth) (evalNode depth) := by
  induction depth with
  | zero => exact fun _ _ _ _ _ _ _ => Link.related_throw .tooDeep
  | succ depth ih =>
    intro w sc sc' n n' hsc hn
    obtain rfl : n = n' := hn
    refine Link.related_evalForm ih hsc ?_
    exact n.alike_self (fun _ _ => trivial) (fun _ _ => rfl) fun _ _ => rfl

/-- Results that are the same up to what had been counted and recorded before. -/
inductive SameResult {α : Type} (base base' : Summary) :
    EStateM.Result Halt Machine α → EStateM.Result Halt Machine α → Prop
  | ok {a : α} {m m' : Machine} (h : Tallies base base' m m') :
      SameResult base base' (.ok a m) (.ok a m')
  | halt {halt : Halt} {m m' : Machine} (h : Tallies base base' m m') :
      SameResult base base' (.error halt m) (.error halt m')

theorem sameResult_of_ends {base base' : Summary} {w : OneWorld}
    {r r' : EStateM.Result Halt Machine Value}
    (h : (tallied base base').Ends (tallied base base').values w r r') :
    SameResult base base' r r' := by
  cases h with
  | ok _ hs hv =>
    obtain rfl := hv.eq fun _ _ hc => hc
    exact .ok hs
  | halt _ hs => exact .halt hs
  | left h | right h => exact h.elim

theorem sameResult_evalNode [Text.Encoding] {base base' : Summary} {m m' : Machine}
    (h : Tallies base base' m m') (depth : Nat) (n : Node) (scope : Scope) :
    SameResult base base' (evalNode depth n scope m) (evalNode depth n scope m') :=
  sameResult_of_ends (subRelated_tallied base base' depth ⟨⟩ scope scope n n rfl rfl m m' h)

/-! ### Where an evaluation leads -/

variable {α β : Type} {m m' m'' : Machine}

/-- The trace aside, the evaluation leads from one machine to a value and another machine. -/
def Leads (x : Eval α) (m : Machine) (a : α) (m' : Machine) : Prop :=
  ∀ m₀, m.Twin m₀ → ∃ m₁, m'.Twin m₁ ∧ x m₀ = .ok a m₁

theorem Leads.twin {x : Eval α} {a : α} (h : Leads x m a m') (htwin : m''.Twin m') :
    Leads x m a m'' := by
  intro m₀ h₀
  obtain ⟨m₁, h₁, hx⟩ := h m₀ h₀
  exact ⟨m₁, htwin.trans h₁, hx⟩

theorem Leads.bind {x : Eval α} {f : α → Eval β} {a : α} {b : β} (hx : Leads x m a m')
    (hf : Leads (f a) m' b m'') : Leads (x >>= f) m b m'' := by
  intro m₀ h₀
  obtain ⟨m₁, h₁, hx⟩ := hx m₀ h₀
  obtain ⟨m₂, h₂, hf⟩ := hf m₁ h₁
  refine ⟨m₂, h₂, ?_⟩
  change EStateM.bind x f m₀ = _
  rw [EStateM.bind, hx]
  exact hf

theorem leads_pure (a : α) (m : Machine) : Leads (pure a) m a m :=
  fun m₀ h₀ => ⟨m₀, h₀, rfl⟩

theorem leads_emit (event : Event) (m : Machine) : Leads (emit event) m () m :=
  fun m₀ h₀ => ⟨m₀.recorded event, ⟨h₀.heap, h₀.summary⟩, rfl⟩

theorem leads_countStatement (m : Machine) : Leads countStatement m () (m.counted ⟨1, 0, 0⟩) :=
  fun m₀ h₀ => ⟨m₀.counted ⟨1, 0, 0⟩, h₀.counted _, rfl⟩

theorem leads_countError (m : Machine) : Leads countError m () (m.counted ⟨0, 0, 1⟩) :=
  fun m₀ h₀ => ⟨m₀.counted ⟨0, 0, 1⟩, h₀.counted _, rfl⟩

theorem leads_typed {found : Option α} {a : α} (h : found = some a) (m : Machine) :
    Leads (typed found) m a m := by
  subst h
  exact leads_pure a m

theorem Leads.emitted {x : Eval α} {a : α} (h : Leads x m a m') (event : Event) :
    Leads (emit event >>= fun _ => x) m a m' :=
  (leads_emit event m).bind h

theorem leads_evalNode [Text.Encoding] {depth : Nat} {n : Node} {scope : Scope} {v : Value}
    (h : evalNode depth n scope m = .ok v m') : Leads (evalNode depth n scope) m v m' := by
  intro m₀ h₀
  have hsame := sameResult_evalNode (tallies_iff_twin.mpr h₀) depth n scope
  rw [h] at hsame
  generalize evalNode depth n scope m₀ = r at hsame
  cases hsame with
  | ok hm => exact ⟨_, tallies_iff_twin.mp hm, rfl⟩

end Eval

end MonkeyLang

import MonkeyLang.Proofs.Inside
import MonkeyLang.Proofs.Lexer.Lexed
import MonkeyLang.Proofs.Syntax.Alike

/-!
Trees with everything in its place. A node is well made when its children are of the forms that
belong there and its own names, texts, numbers and operators are those of the language; the only
child that may be missing is the alternative of a conditional. A sound tree is well made throughout.
-/
namespace MonkeyLang.Node

def children (n : Node) : List Node := n.visited ++ n.body?.toList

def isExpression : Node → Bool
  | identifier _ | integer _ | text _ | boolean _ | prefixOp _ _ | infixOp _ _ _ | grouped _
  | conditional _ _ _ | function _ _ | call _ _ | array _ | index _ _ | mapping _ => true
  | _ => false

def isStatement : Node → Bool
  | letBind _ _ | returning _ | expression _ => true
  | _ => false

def isBlock : Node → Bool
  | block _ => true
  | _ => false

variable [Text.Alphabet]

def WellMade : Node → Prop
  | hole | bare _ => False
  | program statements | block statements => ∀ n ∈ statements, n.isStatement
  | letBind name value => IsName name ∧ value.isExpression
  | returning inner | expression inner | grouped inner => inner.isExpression
  | identifier name => IsName name
  | integer value => 0 ≤ value ∧ value ≤ Lexer.maxInteger
  | text value => '\x22' ∉ value.toList
  | boolean _ => True
  | prefixOp operator right => operator ∈ Operator.leading ∧ right.isExpression
  | infixOp left operator right =>
    operator ∈ Operator.between ∧ left.isExpression ∧ right.isExpression
  | conditional condition consequence alternative =>
    condition.isExpression ∧ consequence.isBlock ∧ (alternative.isHole ∨ alternative.isBlock)
  | function parameters body => (∀ name ∈ parameters, IsName name) ∧ body.isBlock
  | call callee arguments => callee.isExpression ∧ ∀ n ∈ arguments, n.isExpression
  | array elements => ∀ n ∈ elements, n.isExpression
  | index collection position => collection.isExpression ∧ position.isExpression
  | mapping entries => ∀ e ∈ entries, e.1.isExpression ∧ e.2.isExpression

def Sound : Node → Prop := Throughout children WellMade

theorem Sound.wellMade {n : Node} (h : n.Sound) : n.WellMade := h.here

theorem Sound.child {n c : Node} (h : n.Sound) (hc : c ∈ n.children) : c.Sound := h.part hc

theorem Sound.visited {n c : Node} (h : n.Sound) (hc : c ∈ n.visited) : c.Sound :=
  h.child (List.mem_append_left _ hc)

theorem Sound.body {parameters : List String} {body : Node} (h : (function parameters body).Sound) :
    body.Sound :=
  h.child (List.mem_append_right _ (List.mem_singleton_self body))

theorem sound_of_visited {n : Node} (hn : n.WellMade) (hbody : n.body? = none)
    (hvisited : ∀ c ∈ n.visited, c.Sound) : n.Sound := by
  refine throughout_iff.mpr ⟨hn, fun c hc => hvisited c ?_⟩
  rwa [children, hbody, Option.toList_none, List.append_nil] at hc

/-! ### Sound phrases -/

def SoundExpression (n : Node) : Prop := n.isExpression ∧ n.Sound

def SoundStatement (n : Node) : Prop := n.isStatement ∧ n.Sound

def SoundBlock (n : Node) : Prop := n.isBlock ∧ n.Sound

theorem sound_program {statements : List Node} (h : ∀ n ∈ statements, n.SoundStatement) :
    (program statements).Sound :=
  sound_of_visited (fun n hn => (h n hn).1) rfl fun n hn => (h n hn).2

theorem soundBlock_of {statements : List Node} (h : ∀ n ∈ statements, n.SoundStatement) :
    (block statements).SoundBlock :=
  ⟨rfl, sound_of_visited (fun n hn => (h n hn).1) rfl fun n hn => (h n hn).2⟩

namespace SoundStatement

variable {inner : Node}

theorem letBind {name : String} (hname : IsName name) (h : inner.SoundExpression) :
    (letBind name inner).SoundStatement :=
  ⟨rfl, sound_of_visited ⟨hname, h.1⟩ rfl (List.forall_mem_singleton.mpr h.2)⟩

theorem returning (h : inner.SoundExpression) : (returning inner).SoundStatement :=
  ⟨rfl, sound_of_visited h.1 rfl (List.forall_mem_singleton.mpr h.2)⟩

theorem expression (h : inner.SoundExpression) : (expression inner).SoundStatement :=
  ⟨rfl, sound_of_visited h.1 rfl (List.forall_mem_singleton.mpr h.2)⟩

end SoundStatement

namespace SoundExpression

variable {operator : Operator} {left right inner : Node} {ns : List Node}

theorem identifier {name : String} (h : IsName name) : (identifier name).SoundExpression :=
  ⟨rfl, sound_of_visited h rfl (List.forall_mem_nil _)⟩

theorem integer {value : Int} (hnonneg : 0 ≤ value) (hle : value ≤ Lexer.maxInteger) :
    (integer value).SoundExpression :=
  ⟨rfl, sound_of_visited ⟨hnonneg, hle⟩ rfl (List.forall_mem_nil _)⟩

theorem text {value : String} (h : '\x22' ∉ value.toList) : (text value).SoundExpression :=
  ⟨rfl, sound_of_visited h rfl (List.forall_mem_nil _)⟩

theorem boolean (value : Bool) : (boolean value).SoundExpression :=
  ⟨rfl, sound_of_visited trivial rfl (List.forall_mem_nil _)⟩

theorem prefixOp (known : operator ∈ Operator.leading) (h : right.SoundExpression) :
    (prefixOp operator right).SoundExpression :=
  ⟨rfl, sound_of_visited ⟨known, h.1⟩ rfl (List.forall_mem_singleton.mpr h.2)⟩

theorem infixOp (known : operator ∈ Operator.between) (hleft : left.SoundExpression)
    (hright : right.SoundExpression) : (infixOp left operator right).SoundExpression := by
  refine ⟨rfl, sound_of_visited ⟨known, hleft.1, hright.1⟩ rfl ?_⟩
  exact List.forall_mem_cons.mpr ⟨hleft.2, List.forall_mem_singleton.mpr hright.2⟩

theorem grouped (h : inner.SoundExpression) : (grouped inner).SoundExpression :=
  ⟨rfl, sound_of_visited h.1 rfl (List.forall_mem_singleton.mpr h.2)⟩

theorem conditional {condition consequence alternative : Node}
    (hcondition : condition.SoundExpression) (hconsequence : consequence.SoundBlock)
    (halternative : alternative = hole ∨ alternative.SoundBlock) :
    (conditional condition consequence alternative).SoundExpression := by
  rcases halternative with rfl | halternative
  · refine ⟨rfl, sound_of_visited ⟨hcondition.1, hconsequence.1, Or.inl rfl⟩ rfl ?_⟩
    exact List.forall_mem_cons.mpr ⟨hcondition.2, List.forall_mem_singleton.mpr hconsequence.2⟩
  · refine ⟨rfl, sound_of_visited ⟨hcondition.1, hconsequence.1, Or.inr halternative.1⟩ rfl ?_⟩
    have hpresent : alternative.isHole = false := by
      cases alternative <;> first | rfl | cases halternative.1
    rw [visited_conditional hpresent]
    refine List.forall_mem_cons.mpr ⟨hcondition.2, List.forall_mem_cons.mpr ⟨hconsequence.2, ?_⟩⟩
    exact List.forall_mem_singleton.mpr halternative.2

theorem function {parameters : List String} {body : Node}
    (hparameters : ∀ name ∈ parameters, IsName name) (h : body.SoundBlock) :
    (function parameters body).SoundExpression :=
  ⟨rfl, throughout_iff.mpr ⟨⟨hparameters, h.1⟩, List.forall_mem_singleton.mpr h.2⟩⟩

theorem call (hcallee : inner.SoundExpression) (h : ∀ n ∈ ns, n.SoundExpression) :
    (call inner ns).SoundExpression := by
  refine ⟨rfl, sound_of_visited ⟨hcallee.1, fun n hn => (h n hn).1⟩ rfl ?_⟩
  exact List.forall_mem_cons.mpr ⟨hcallee.2, fun n hn => (h n hn).2⟩

theorem array (h : ∀ n ∈ ns, n.SoundExpression) : (array ns).SoundExpression :=
  ⟨rfl, sound_of_visited (fun n hn => (h n hn).1) rfl fun n hn => (h n hn).2⟩

theorem index (hleft : left.SoundExpression) (hright : right.SoundExpression) :
    (index left right).SoundExpression := by
  refine ⟨rfl, sound_of_visited ⟨hleft.1, hright.1⟩ rfl ?_⟩
  exact List.forall_mem_cons.mpr ⟨hleft.2, List.forall_mem_singleton.mpr hright.2⟩

theorem mapping {entries : List (Node × Node)}
    (h : ∀ e ∈ entries, e.1.SoundExpression ∧ e.2.SoundExpression) :
    (mapping entries).SoundExpression := by
  refine ⟨rfl, sound_of_visited (fun e he => ⟨(h e he).1.1, (h e he).2.1⟩) rfl fun n hn => ?_⟩
  rcases List.mem_append.mp hn with hn | hn
  · obtain ⟨e, he, rfl⟩ := List.mem_map.mp hn
    exact (h e he).1.2
  · obtain ⟨e, he, rfl⟩ := List.mem_map.mp hn
    exact (h e he).2.2

end SoundExpression

end MonkeyLang.Node

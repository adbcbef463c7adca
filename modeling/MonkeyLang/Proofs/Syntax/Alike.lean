import Mathlib.Data.List.Forall2
import MonkeyLang.Syntax.Node

/-!
Nodes of one form. Two nodes are alike when they differ only in the nodes inside them, and those
correspond place by place. The places that are evaluated in the scope of the node itself are kept
apart from the bodies of functions, and from the names that are bound in that scope.
-/
namespace MonkeyLang.Node

/-- One form, with `inner` between the nodes evaluated in the same scope, `bodies` between the
bodies of functions, and `bound` of the name that a binding writes. -/
inductive Alike (bound : String → Prop) (inner bodies : Node → Node → Prop) : Node → Node → Prop
  | hole : Alike bound inner bodies .hole .hole
  | bare (kind : BareKind) : Alike bound inner bodies (.bare kind) (.bare kind)
  | program {xs ys : List Node} (h : List.Forall₂ inner xs ys) :
      Alike bound inner bodies (.program xs) (.program ys)
  | block {xs ys : List Node} (h : List.Forall₂ inner xs ys) :
      Alike bound inner bodies (.block xs) (.block ys)
  | letBind {name : String} {x y : Node} (hname : bound name) (h : inner x y) :
      Alike bound inner bodies (.letBind name x) (.letBind name y)
  | returning {x y : Node} (h : inner x y) :
      Alike bound inner bodies (.returning x) (.returning y)
  | expression {x y : Node} (h : inner x y) :
      Alike bound inner bodies (.expression x) (.expression y)
  | identifier (name : String) : Alike bound inner bodies (.identifier name) (.identifier name)
  | integer (value : Int) : Alike bound inner bodies (.integer value) (.integer value)
  | text (value : String) : Alike bound inner bodies (.text value) (.text value)
  | boolean (value : Bool) : Alike bound inner bodies (.boolean value) (.boolean value)
  | prefixOp (operator : Operator) {x y : Node} (h : inner x y) :
      Alike bound inner bodies (.prefixOp operator x) (.prefixOp operator y)
  | infixOp (operator : Operator) {x x' y y' : Node} (hleft : inner x x') (hright : inner y y') :
      Alike bound inner bodies (.infixOp x operator y) (.infixOp x' operator y')
  | grouped {x y : Node} (h : inner x y) : Alike bound inner bodies (.grouped x) (.grouped y)
  | conditional {c c' t t' : Node} (hcondition : inner c c') (hconsequence : inner t t') :
      Alike bound inner bodies (.conditional c t .hole) (.conditional c' t' .hole)
  | conditionalElse {c c' t t' e e' : Node} (hcondition : inner c c') (hconsequence : inner t t')
      (he : e.isHole = false) (he' : e'.isHole = false) (halternative : inner e e') :
      Alike bound inner bodies (.conditional c t e) (.conditional c' t' e')
  | function (parameters : List String) {x y : Node} (h : bodies x y) :
      Alike bound inner bodies (.function parameters x) (.function parameters y)
  | call {f f' : Node} {xs ys : List Node} (hcallee : inner f f') (h : List.Forall₂ inner xs ys) :
      Alike bound inner bodies (.call f xs) (.call f' ys)
  | array {xs ys : List Node} (h : List.Forall₂ inner xs ys) :
      Alike bound inner bodies (.array xs) (.array ys)
  | index {x x' y y' : Node} (hcollection : inner x x') (hposition : inner y y') :
      Alike bound inner bodies (.index x y) (.index x' y')
  | mapping {es es' : List (Node × Node)}
      (hkeys : List.Forall₂ inner (es.map Prod.fst) (es'.map Prod.fst))
      (hvalues : List.Forall₂ inner (es.map Prod.snd) (es'.map Prod.snd)) :
      Alike bound inner bodies (.mapping es) (.mapping es')

def parts : Node → List Node
  | program nodes | block nodes | array nodes => nodes
  | letBind _ inner | returning inner | expression inner | grouped inner | prefixOp _ inner =>
    [inner]
  | infixOp left _ right => [left, right]
  | conditional condition consequence alternative => [condition, consequence, alternative]
  | call callee arguments => callee :: arguments
  | index collection position => [collection, position]
  | mapping entries => entries.map Prod.fst ++ entries.map Prod.snd
  | _ => []

/-- The nodes inside a node that are evaluated at all. A missing alternative is not. -/
def visited : Node → List Node
  | conditional condition consequence hole => [condition, consequence]
  | n => n.parts

theorem visited_conditional {condition consequence alternative : Node}
    (h : alternative.isHole = false) :
    (conditional condition consequence alternative).visited =
      [condition, consequence, alternative] := by
  cases alternative <;> first | rfl | cases h

theorem mem_parts_of_mem_visited {n c : Node} (h : c ∈ n.visited) : c ∈ n.parts := by
  unfold visited at h
  split at h
  · exact List.mem_append_left [hole] h
  · exact h

def target? : Node → Option String
  | letBind name _ => some name
  | _ => none

def body? : Node → Option Node
  | function _ body => some body
  | _ => none

theorem alike_self {bound : String → Prop} {inner bodies : Node → Node → Prop} (n : Node)
    (hbound : ∀ name ∈ n.target?, bound name) (hinner : ∀ c ∈ n.parts, inner c c)
    (hbodies : ∀ b ∈ n.body?, bodies b b) : Alike bound inner bodies n n := by
  cases n with
  | program nodes => exact .program (List.forall₂_same.mpr hinner)
  | block nodes => exact .block (List.forall₂_same.mpr hinner)
  | array nodes => exact .array (List.forall₂_same.mpr hinner)
  | letBind name x => exact .letBind (hbound name rfl) (hinner x (by simp [parts]))
  | returning x => exact .returning (hinner x (by simp [parts]))
  | expression x => exact .expression (hinner x (by simp [parts]))
  | grouped x => exact .grouped (hinner x (by simp [parts]))
  | prefixOp operator x => exact .prefixOp operator (hinner x (by simp [parts]))
  | infixOp x operator y =>
    exact .infixOp operator (hinner x (by simp [parts])) (hinner y (by simp [parts]))
  | index x y => exact .index (hinner x (by simp [parts])) (hinner y (by simp [parts]))
  | conditional c t e =>
    have hc := hinner c (by simp [parts])
    have ht := hinner t (by simp [parts])
    cases he : e.isHole with
    | true =>
      cases e <;> cases he
      exact .conditional hc ht
    | false => exact .conditionalElse hc ht he he (hinner e (by simp [parts]))
  | function parameters body => exact .function parameters (hbodies body rfl)
  | call f xs =>
    obtain ⟨hf, hxs⟩ := List.forall_mem_cons.mp hinner
    exact .call hf (List.forall₂_same.mpr hxs)
  | mapping entries =>
    obtain ⟨hkeys, hvalues⟩ := List.forall_mem_append.mp hinner
    exact .mapping (List.forall₂_same.mpr hkeys) (List.forall₂_same.mpr hvalues)
  | hole => exact .hole
  | bare kind => exact .bare kind
  | identifier name => exact .identifier name
  | integer value => exact .integer value
  | text value => exact .text value
  | boolean value => exact .boolean value

end MonkeyLang.Node

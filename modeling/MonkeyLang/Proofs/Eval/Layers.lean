import MonkeyLang.Proofs.Eval.Tally

/-!
The place of a node in a form is a layer around it, which knows the parts of the form that are
evaluated before the node and what they have to give for the evaluation to arrive there. Layers
inside each other lead to any node of a tree outside of functions. An evaluation depends on the node
in a place by nothing but what the node does from the machines in which the place is reached.
-/
namespace MonkeyLang

namespace Eval

/-! ### What comes first -/

/-- A part of a form that is evaluated before another one. -/
inductive Earlier where
  | operand (node : Node)
  | condition (node : Node) (holds : Bool)
  | key (node : Node)
  | statement (node : Node)

namespace Earlier

def node : Earlier → Node
  | operand node | condition node _ | key node | statement node => node

def Passes : Earlier → Value → Prop
  | condition _ holds, v => v.unwinds = false ∧ v.isTruthy = holds
  | key _, v => v.unwinds = false ∧ ∃ key, v.key? = some key ∧ key.isUsable
  | _, v => v.unwinds = false

def left : Earlier → Machine → Machine
  | statement _, m => m.counted ⟨1, 0, 0⟩
  | _, m => m

def entry (e : Node × Node) : List Earlier := [key e.1, operand e.2]

end Earlier

/-- The trace aside, the evaluation of the parts leads from one machine to another one, and each of
them lets it go on. -/
inductive Arrives (sub : Sub) (scope : Scope) : List Earlier → Machine → Machine → Prop
  | here (m : Machine) : Arrives sub scope [] m m
  | behind {part : Earlier} {parts : List Earlier} {v : Value} {m m₁ m' : Machine}
      (hpart : Leads (sub part.node scope) m v m₁) (hpasses : part.Passes v)
      (hparts : Arrives sub scope parts (part.left m₁) m') : Arrives sub scope (part :: parts) m m'

theorem Arrives.append {sub : Sub} {scope : Scope} {parts parts' : List Earlier}
    {m m' m'' : Machine} (h : Arrives sub scope parts m m') (h' : Arrives sub scope parts' m' m'') :
    Arrives sub scope (parts ++ parts') m m'' := by
  induction h with
  | here => exact h'
  | behind hpart hpasses _ ih => exact .behind hpart hpasses (ih h')

theorem Arrives.split {sub : Sub} {scope : Scope} {parts parts' : List Earlier} {m m'' : Machine}
    (h : Arrives sub scope (parts ++ parts') m m'') :
    ∃ m', Arrives sub scope parts m m' ∧ Arrives sub scope parts' m' m'' := by
  induction parts generalizing m with
  | nil => exact ⟨m, .here m, h⟩
  | cons part parts ih =>
    cases h with
    | behind hpart hpasses hparts =>
      obtain ⟨m', hfirst, hsecond⟩ := ih hparts
      exact ⟨m', .behind hpart hpasses hfirst, hsecond⟩

/-! ### Evaluations that do the same -/

section SameFrom

variable {α β : Type} {m m' m'' : Machine}

/-- The evaluation does not look at the trace. -/
def Steady (x : Eval α) : Prop := ∀ m a m', x m = .ok a m' → Leads x m a m'

theorem steady_evalNode [Text.Encoding] (depth : Nat) (n : Node) (scope : Scope) :
    Steady (evalNode depth n scope) :=
  fun _ _ _ => leads_evalNode

def SameFrom (m : Machine) (x y : Eval α) : Prop := ∀ m₀, m.Twin m₀ → x m₀ = y m₀

theorem sameFrom_refl (x : Eval α) : SameFrom m x x := fun _ _ => rfl

theorem SameFrom.bind {x y : Eval α} (h : SameFrom m x y) (f : α → Eval β) :
    SameFrom m (x >>= f) (y >>= f) := by
  intro m₀ h₀
  change EStateM.bind x f m₀ = EStateM.bind y f m₀
  rw [EStateM.bind, EStateM.bind, h m₀ h₀]

theorem Steady.sameFrom {x : Eval α} (hx : Steady x) {f g : α → Eval β}
    (h : ∀ a m', Leads x m a m' → SameFrom m' (f a) (g a)) : SameFrom m (x >>= f) (x >>= g) := by
  intro m₀ h₀
  change EStateM.bind x f m₀ = EStateM.bind x g m₀
  unfold EStateM.bind
  cases hr : x m₀ with
  | ok a m₁ =>
    have hleads : Leads x m a m₁ := fun m₂ h₂ => hx m₀ a m₁ hr m₂ (h₀.symm.trans h₂)
    exact h a m₁ hleads m₁ (.refl m₁)
  | error halt m₁ => rfl

theorem SameFrom.emitted {x y : Eval α} (h : SameFrom m x y) (event : Event) :
    SameFrom m (emit event >>= fun _ => x) (emit event >>= fun _ => y) :=
  fun m₀ h₀ => h (m₀.recorded event) ⟨h₀.heap, h₀.summary⟩

theorem SameFrom.counted {x y : Eval α} (h : SameFrom (m.counted ⟨1, 0, 0⟩) x y) :
    SameFrom m (countStatement >>= fun _ => x) (countStatement >>= fun _ => y) :=
  fun m₀ h₀ => h (m₀.counted ⟨1, 0, 0⟩) (h₀.counted _)

theorem Steady.onValue {x : Eval Value} (hx : Steady x) {f g : Value → Eval Value}
    (h : ∀ v m', Leads x m v m' → v.unwinds = false → SameFrom m' (f v) (g v)) :
    SameFrom m (onValue x f) (onValue x g) := by
  refine hx.sameFrom fun v m' hv => ?_
  cases hunwinds : v.unwinds with
  | true => exact sameFrom_refl _
  | false => exact h v m' hv hunwinds

end SameFrom

section Sequences

variable {sub : Sub} {scope : Scope} {m m' m'' : Machine} {v : Value}
  (hsub : ∀ n, Steady (sub n scope))

include hsub

theorem sameFrom_blockFrom {nodes rest rest' : List Node}
    (h : ∀ m', Arrives sub scope (nodes.map .statement) m m' → ∀ result,
      SameFrom m' (blockFrom sub scope result rest) (blockFrom sub scope result rest'))
    (result : Value) :
    SameFrom m (blockFrom sub scope result (nodes ++ rest))
      (blockFrom sub scope result (nodes ++ rest')) := by
  induction nodes generalizing m result with
  | nil => exact h m (.here m) result
  | cons n nodes ih =>
    refine (hsub n).sameFrom fun v m₁ hv => ?_
    refine SameFrom.counted ?_
    cases hunwinds : v.unwinds with
    | true => exact sameFrom_refl _
    | false => exact ih (fun m' hm' => h m' (.behind hv hunwinds hm')) v

theorem sameFrom_valuesOf {nodes rest rest' : List Node}
    (h : ∀ m', Arrives sub scope (nodes.map .operand) m m' →
      SameFrom m' (valuesOf sub scope rest) (valuesOf sub scope rest')) :
    SameFrom m (valuesOf sub scope (nodes ++ rest)) (valuesOf sub scope (nodes ++ rest')) := by
  induction nodes generalizing m with
  | nil => exact h m (.here m)
  | cons n nodes ih =>
    refine (hsub n).sameFrom fun v m₁ hv => ?_
    cases hunwinds : v.unwinds with
    | true => exact sameFrom_refl _
    | false => exact (ih fun m' hm' => h m' (.behind hv hunwinds hm')).bind _

theorem sameFrom_key {k v v' : Node} {rest rest' : List (Node × Node)} {found : Entries}
    (h : ∀ u m', Leads (sub k scope) m u m' → (Earlier.key k).Passes u → ∀ key,
      SameFrom m'
        (onValue (sub v scope) fun value =>
          entriesFrom sub scope (found.insert key (u, value)) rest)
        (onValue (sub v' scope) fun value =>
          entriesFrom sub scope (found.insert key (u, value)) rest')) :
    SameFrom m (entriesFrom sub scope found ((k, v) :: rest))
      (entriesFrom sub scope found ((k, v') :: rest')) := by
  refine (hsub k).onValue fun u m₁ hu hgoes => ?_
  cases hkey : u.key? with
  | none => exact sameFrom_refl (throw .untyped)
  | some key =>
    cases key with
    | unusable kind => exact sameFrom_refl (pure _)
    | integer _ | boolean _ | string _ => exact h u m₁ hu ⟨hgoes, _, hkey, rfl⟩ _

theorem sameFrom_entriesFrom {entries rest rest' : List (Node × Node)}
    (h : ∀ m', Arrives sub scope (entries.flatMap Earlier.entry) m m' → ∀ found,
      SameFrom m' (entriesFrom sub scope found rest) (entriesFrom sub scope found rest'))
    (found : Entries) :
    SameFrom m (entriesFrom sub scope found (entries ++ rest))
      (entriesFrom sub scope found (entries ++ rest')) := by
  induction entries generalizing m found with
  | nil => exact h m (.here m) found
  | cons e entries ih =>
    refine sameFrom_key hsub fun u m₁ hu hpasses key => ?_
    refine (hsub e.2).onValue fun w m₂ hw hgoes => ?_
    exact ih (fun m' hm' => h m' (.behind hu hpasses (.behind hw hgoes hm'))) _

theorem sameFrom_programFrom {nodes rest rest' : List Node}
    (h : ∀ m', Arrives sub scope (nodes.map .statement) m m' → ∀ number result,
      SameFrom m' (programFrom sub scope number result rest)
        (programFrom sub scope number result rest'))
    (number : Nat) (result : Value) :
    SameFrom m (programFrom sub scope number result (nodes ++ rest))
      (programFrom sub scope number result (nodes ++ rest')) := by
  induction nodes generalizing m number result with
  | nil => exact h m (.here m) number result
  | cons n nodes ih =>
    refine SameFrom.emitted ?_ _
    refine (hsub n).sameFrom fun v m₁ hv => ?_
    refine SameFrom.counted ?_
    have hgoesOn := fun hgoes => ih (fun m' hm' => h m' (.behind hv hgoes hm')) (number + 1) v
    cases v with
    | returned inner | error cause => exact sameFrom_refl _
    | _ => exact hgoesOn rfl

end Sequences

section Programs

variable {sub : Sub} {scope : Scope} {m m' : Machine} {v : Value}

theorem programFrom_cons_of_ok {n : Node} {rest : List Node} {number : Nat} {result : Value}
    (hn : sub n scope (m.recorded (.statement number n.formName)) = .ok v m')
    (hv : v.unwinds = false) :
    programFrom sub scope number result (n :: rest) m =
      programFrom sub scope (number + 1) v rest (m'.counted ⟨1, 0, 0⟩) := by
  change EStateM.bind (sub n scope) _ (m.recorded (.statement number n.formName)) = _
  unfold EStateM.bind
  rw [hn]
  cases v with
  | returned inner | error cause => cases hv
  | _ => rfl

theorem Arrives.programFrom_append {nodes : List Node} {m₀ : Machine}
    (h : Arrives sub scope (nodes.map .statement) m m') (h₀ : m.Twin m₀) (number : Nat)
    (result : Value) :
    ∃ u m₁, m'.Twin m₁ ∧ (result.unwinds = false → u.unwinds = false) ∧ ∀ rest,
      programFrom sub scope number result (nodes ++ rest) m₀ =
        programFrom sub scope (number + nodes.length) u rest m₁ := by
  induction nodes generalizing m m₀ number result with
  | nil =>
    cases h
    exact ⟨result, m₀, h₀, id, fun _ => rfl⟩
  | cons n nodes ih =>
    cases h with
    | @behind _ _ u _ m₁ _ hpart hpasses hparts =>
      obtain ⟨m₂, h₂, hn⟩ :=
        hpart (m₀.recorded (.statement number n.formName)) ⟨h₀.heap, h₀.summary⟩
      obtain ⟨w, m₃, h₃, hgoes, hrest⟩ := ih hparts (h₂.counted ⟨1, 0, 0⟩) (number + 1) u
      refine ⟨w, m₃, h₃, fun _ => hgoes hpasses, fun rest => ?_⟩
      have hnumber : number + (n :: nodes).length = number + 1 + nodes.length := by
        rw [List.length_cons]
        omega
      rw [List.cons_append, programFrom_cons_of_ok hn hpasses, hrest, hnumber]

end Programs

/-! ### Layers -/

/-- The place of a node in a form, with the other parts of the form around it. -/
inductive Layer where
  | block (done rest : List Node)
  | letBind (name : String)
  | returning
  | expression
  | grouped
  | prefixOp (operator : Operator)
  | infixLeft (operator : Operator) (right : Node)
  | infixRight (left : Node) (operator : Operator)
  | condition (consequence alternative : Node)
  | consequence (condition alternative : Node)
  | alternative (condition consequence : Node)
  | callee (arguments : List Node)
  | argument (callee : Node) (done rest : List Node)
  | element (done rest : List Node)
  | collection (position : Node)
  | position (collection : Node)
  | key (done : List (Node × Node)) (value : Node) (rest : List (Node × Node))
  | value (done : List (Node × Node)) (key : Node) (rest : List (Node × Node))

namespace Layer

def fill (inner : Node) : Layer → Node
  | block done rest => .block (done ++ inner :: rest)
  | letBind name => .letBind name inner
  | returning => .returning inner
  | expression => .expression inner
  | grouped => .grouped inner
  | prefixOp operator => .prefixOp operator inner
  | infixLeft operator right => .infixOp inner operator right
  | infixRight left operator => .infixOp left operator inner
  | condition t e => .conditional inner t e
  | consequence c e => .conditional c inner e
  | alternative c t => .conditional c t inner
  | callee rest => .call inner rest
  | argument f done rest => .call f (done ++ inner :: rest)
  | element done rest => .array (done ++ inner :: rest)
  | collection place => .index inner place
  | position whole => .index whole inner
  | key done v rest => .mapping (done ++ (inner, v) :: rest)
  | value done k rest => .mapping (done ++ (k, inner) :: rest)

def before : Layer → List Earlier
  | block done _ => done.map .statement
  | infixRight left _ => [.operand left]
  | consequence c _ => [.condition c true]
  | alternative c _ => [.condition c false]
  | argument f done _ => .operand f :: done.map .operand
  | element done _ => done.map .operand
  | position whole => [.operand whole]
  | key done _ _ => done.flatMap Earlier.entry
  | value done k _ => done.flatMap Earlier.entry ++ [.key k]
  | _ => []

theorem exists_fill {n part : Node} (h : part ∈ n.parts) :
    (∃ statements, n = .program statements) ∨ ∃ layer : Layer, layer.fill part = n := by
  have hsplit : ∀ {nodes : List Node}, part ∈ nodes →
      ∃ done rest, done ++ part :: rest = nodes := by
    intro nodes hmem
    obtain ⟨done, rest, heq⟩ := List.append_of_mem hmem
    exact ⟨done, rest, heq.symm⟩
  cases n with
  | program statements => exact Or.inl ⟨statements, rfl⟩
  | block nodes =>
    obtain ⟨done, rest, rfl⟩ := hsplit h
    exact Or.inr ⟨block done rest, rfl⟩
  | array nodes =>
    obtain ⟨done, rest, rfl⟩ := hsplit h
    exact Or.inr ⟨element done rest, rfl⟩
  | letBind name value =>
    obtain rfl := List.mem_singleton.mp h
    exact Or.inr ⟨letBind name, rfl⟩
  | returning inner =>
    obtain rfl := List.mem_singleton.mp h
    exact Or.inr ⟨returning, rfl⟩
  | expression inner =>
    obtain rfl := List.mem_singleton.mp h
    exact Or.inr ⟨expression, rfl⟩
  | grouped inner =>
    obtain rfl := List.mem_singleton.mp h
    exact Or.inr ⟨grouped, rfl⟩
  | prefixOp operator right =>
    obtain rfl := List.mem_singleton.mp h
    exact Or.inr ⟨prefixOp operator, rfl⟩
  | infixOp left operator right =>
    rcases List.mem_cons.mp h with rfl | h
    · exact Or.inr ⟨infixLeft operator right, rfl⟩
    · obtain rfl := List.mem_singleton.mp h
      exact Or.inr ⟨infixRight left operator, rfl⟩
  | index collection position =>
    rcases List.mem_cons.mp h with rfl | h
    · exact Or.inr ⟨.collection position, rfl⟩
    · obtain rfl := List.mem_singleton.mp h
      exact Or.inr ⟨.position collection, rfl⟩
  | conditional condition consequence alternative =>
    rcases List.mem_cons.mp h with rfl | h
    · exact Or.inr ⟨.condition consequence alternative, rfl⟩
    rcases List.mem_cons.mp h with rfl | h
    · exact Or.inr ⟨.consequence condition alternative, rfl⟩
    · obtain rfl := List.mem_singleton.mp h
      exact Or.inr ⟨.alternative condition consequence, rfl⟩
  | call callee arguments =>
    rcases List.mem_cons.mp h with rfl | h
    · exact Or.inr ⟨.callee arguments, rfl⟩
    · obtain ⟨done, rest, rfl⟩ := hsplit h
      exact Or.inr ⟨argument callee done rest, rfl⟩
  | mapping entries =>
    rcases List.mem_append.mp h with h | h
    · obtain ⟨⟨_, value⟩, hmem, rfl⟩ := List.mem_map.mp h
      obtain ⟨done, rest, rfl⟩ := List.append_of_mem hmem
      exact Or.inr ⟨key done value rest, rfl⟩
    · obtain ⟨⟨key, _⟩, hmem, rfl⟩ := List.mem_map.mp h
      obtain ⟨done, rest, rfl⟩ := List.append_of_mem hmem
      exact Or.inr ⟨.value done key rest, rfl⟩
  | _ => cases h

variable {sub : Sub} {scope : Scope} {m m' : Machine} {e e' : Node}

/-- A form depends on the node in a place by what the node does once the evaluation has arrived. -/
theorem sameFrom_evalForm [Text.Encoding] (layer : Layer) (hsub : ∀ n, Steady (sub n scope))
    (h : ∀ m', Arrives sub scope layer.before m m' → SameFrom m' (sub e scope) (sub e' scope))
    (hhole : e.isHole = e'.isHole) :
    SameFrom m (evalForm sub scope (layer.fill e)) (evalForm sub scope (layer.fill e')) := by
  cases layer with
  | block done rest =>
    simp only [fill, evalForm, List.length_append, List.length_cons]
    refine SameFrom.emitted (sameFrom_blockFrom hsub (fun m' hm' _ => ?_) _) _
    exact (h m' hm').bind _
  | letBind name | returning | collection place | condition t e =>
    exact (h m (.here m)).bind _
  | expression | grouped => exact h m (.here m)
  | prefixOp operator | infixLeft operator right | callee rest =>
    exact SameFrom.emitted ((h m (.here m)).bind _) _
  | infixRight left operator =>
    refine SameFrom.emitted ((hsub left).onValue fun v m' hv hgoes => ?_) _
    exact (h m' (.behind hv hgoes (.here m'))).bind _
  | position whole =>
    refine (hsub whole).onValue fun v m' hv hgoes => ?_
    exact (h m' (.behind hv hgoes (.here m'))).bind _
  | consequence c otherwise =>
    refine (hsub c).onValue fun v m' hv hgoes => ?_
    cases htruthy : v.isTruthy with
    | true => exact (h m' (.behind hv ⟨hgoes, htruthy⟩ (.here m'))).bind _
    | false => exact sameFrom_refl _
  | alternative c t =>
    refine (hsub c).onValue fun v m' hv hgoes => ?_
    cases htruthy : v.isTruthy with
    | true => exact sameFrom_refl _
    | false =>
      have hbranch := (h m' (.behind hv ⟨hgoes, htruthy⟩ (.here m'))).bind
        fun v => (pure v.orNull : Eval Value)
      -- Holes stand for a missing branch on both sides.
      cases e with
      | hole =>
        cases e' with
        | hole => exact sameFrom_refl _
        | _ => cases hhole
      | _ =>
        cases e' with
        | hole => cases hhole
        | _ => exact hbranch
  | argument f done rest =>
    simp only [fill, evalForm, List.length_append, List.length_cons]
    refine SameFrom.emitted ((hsub f).onValue fun v m₁ hv hgoes => ?_) _
    refine (sameFrom_valuesOf hsub fun m' hm' => ?_).bind _
    exact (h m' (.behind hv hgoes hm')).bind _
  | element done rest =>
    refine (sameFrom_valuesOf hsub fun m' hm' => ?_).bind _
    exact (h m' hm').bind _
  | key done v rest =>
    simp only [fill, evalForm, List.length_append, List.length_cons]
    refine SameFrom.emitted (sameFrom_entriesFrom hsub (fun m' hm' _ => ?_) _) _
    exact (h m' hm').bind _
  | value done k rest =>
    simp only [fill, evalForm, List.length_append, List.length_cons]
    refine SameFrom.emitted (sameFrom_entriesFrom hsub (fun m₁ hm₁ _ => ?_) _) _
    refine sameFrom_key hsub fun u m' hu hpasses _ => ?_
    exact (h m' (hm₁.append (.behind hu hpasses (.here m')))).bind _

end Layer

/-! ### Places at any depth -/

def fillAll : List Layer → Node → Node
  | [], inner => inner
  | layer :: layers, inner => layer.fill (fillAll layers inner)

/-- The evaluation of the layers comes to the place inside them, at some depth. -/
inductive Reaches [Text.Encoding] (scope : Scope) :
    Nat → List Layer → Machine → Nat → Machine → Prop
  | here (depth : Nat) (m : Machine) : Reaches scope depth [] m depth m
  | inside {depth inner : Nat} {layer : Layer} {layers : List Layer} {m m₁ m' : Machine}
      (hbefore : Arrives (evalNode depth) scope layer.before m m₁)
      (hlayers : Reaches scope depth layers m₁ inner m') :
      Reaches scope (depth + 1) (layer :: layers) m inner m'

/-- A tree is evaluated in the same way with another node in a place, if the two nodes do the same
from every machine in which the place is reached. -/
theorem sameFrom_evalNode [Text.Encoding] {scope : Scope} {depth : Nat} {layers : List Layer}
    {m : Machine} {e e' : Node} (hhole : e.isHole = e'.isHole)
    (h : ∀ inner m', Reaches scope depth layers m inner m' →
      SameFrom m' (evalNode inner e scope) (evalNode inner e' scope)) :
    SameFrom m (evalNode depth (fillAll layers e) scope)
      (evalNode depth (fillAll layers e') scope) := by
  induction layers generalizing depth m with
  | nil => exact h depth m (.here depth m)
  | cons layer layers ih =>
    cases depth with
    | zero => exact sameFrom_refl _
    | succ depth =>
      have hinner : (fillAll layers e).isHole = (fillAll layers e').isHole := by
        cases layers with
        | nil => exact hhole
        | cons layer' _ => cases layer' <;> rfl
      refine layer.sameFrom_evalForm (fun n => steady_evalNode depth n scope) ?_ hinner
      exact fun m₁ hm₁ => ih fun inner m' hm' => h inner m' (.inside hm₁ hm')

theorem evalNode_of_not_reaches [Text.Encoding] {scope : Scope} {depth : Nat} {layers : List Layer}
    {m : Machine} (h : ¬ ∃ inner m', Reaches scope depth layers m inner m') {e e' : Node}
    (hhole : e.isHole = e'.isHole) :
    evalNode depth (fillAll layers e) scope m = evalNode depth (fillAll layers e') scope m :=
  sameFrom_evalNode hhole (fun inner m' hm' => absurd ⟨inner, m', hm'⟩ h) m (.refl m)

end Eval

end MonkeyLang

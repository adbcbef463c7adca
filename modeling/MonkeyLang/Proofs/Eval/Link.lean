import Mathlib.Order.Basic
import MonkeyLang.Eval.Node
import MonkeyLang.Proofs.Syntax.Alike
import MonkeyLang.Proofs.Value.Matching

/-!
Two evaluations side by side. A link says which states, scopes, functions and nodes correspond, in a
world that grows as frames are added to the heaps, and that the correspondence survives each step of
a machine. Evaluations of corresponding nodes then end alike. What is proved of an evaluation in
this way needs one look at the steps of a machine and none at the forms of the language.
-/
namespace MonkeyLang

def Summary.plus (a b : Summary) : Summary :=
  ⟨a.statements + b.statements, a.calls + b.calls, a.errors + b.errors⟩

namespace Machine

def counted (k : Summary) (m : Machine) : Machine := { m with summary := m.summary.plus k }

def recorded (event : Event) (m : Machine) : Machine := { m with events := event :: m.events }

def bound (scope : Scope) (name : String) (value : Value) (m : Machine) : Machine :=
  { m with heap := m.heap.set scope name value }

def placed (heap : Heap) (m : Machine) : Machine := { m with heap }

end Machine

namespace Eval

open HasMachine

/-- The world of a correspondence that does not depend on the frames there are. -/
structure OneWorld where

instance : Preorder OneWorld where
  le _ _ := True
  le_refl _ := trivial
  le_trans _ _ _ _ _ := trivial

structure Link (W σ σ' : Type) [Preorder W] [HasMachine σ] [HasMachine σ'] where
  state : W → σ → σ' → Prop
  scopes : W → Scope → Scope → Prop
  fn : W → Closure → Closure → Prop
  nodes : Scope → Node → Node → Prop
  owns : Scope → String → Prop
  bodies : Node → Node → Prop
  /-- Whether one of the evaluations may be nested too deeply where the other one is not. -/
  lenient : Prop
  scopes_mono : ∀ {w w' sc sc'}, w ≤ w' → scopes w sc sc' → scopes w' sc sc'
  fn_mono : ∀ {w w' c c'}, w ≤ w' → fn w c c' → fn w' c c'
  parameters_eq : ∀ {w c c'}, fn w c c' → c.parameters = c'.parameters
  recorded : ∀ {w s s'} (event event' : Event), state w s s' →
    state w (update (Machine.recorded event) s) (update (Machine.recorded event') s')
  counted : ∀ {w s s'} (k : Summary), state w s s' →
    state w (update (Machine.counted k) s) (update (Machine.counted k) s')
  resolved : ∀ {w s s' sc sc'} (name : String), state w s s' → scopes w sc sc' →
    Option.Rel (Value.Matches (fn w)) ((machine s).heap.resolve? sc name)
      ((machine s').heap.resolve? sc' name)
  bound : ∀ {w s s' sc sc' name v v'}, state w s s' → scopes w sc sc' → owns sc name →
    v.Matches (fn w) v' →
    state w (update (Machine.bound sc name v) s) (update (Machine.bound sc' name v') s')
  snapshot : ∀ {w s s' sc sc' body body'} (parameters : List String),
    state w s s' → scopes w sc sc' → bodies body body' →
    ∃ w', w ≤ w' ∧
      state w' (update (Machine.placed ((machine s).heap.snapshot sc).2) s)
        (update (Machine.placed ((machine s').heap.snapshot sc').2) s') ∧
      fn w' ⟨parameters, body, ((machine s).heap.snapshot sc).1⟩
        ⟨parameters, body', ((machine s').heap.snapshot sc').1⟩
  enclosed : ∀ {w s s' c c'}, state w s s' → fn w c c' →
    ∃ w', w ≤ w' ∧
      state w' (update (Machine.placed ((machine s).heap.enclosed c.scope).2) s)
        (update (Machine.placed ((machine s').heap.enclosed c'.scope).2) s') ∧
      scopes w' ((machine s).heap.enclosed c.scope).1 ((machine s').heap.enclosed c'.scope).1 ∧
      nodes ((machine s).heap.enclosed c.scope).1 c.body c'.body ∧
      ∀ name, owns ((machine s).heap.enclosed c.scope).1 name

variable {W σ σ' : Type} [Preorder W] [HasMachine σ] [HasMachine σ']

namespace Link

variable (L : Link W σ σ') {α β γ δ : Type}

def values (w : W) : Value → Value → Prop := Value.Matches (L.fn w)

/-- Two results with corresponding states, in a world grown from the given one. -/
inductive Ends (good : W → α → β → Prop) (w : W) :
    EStateM.Result Halt σ α → EStateM.Result Halt σ' β → Prop
  | ok {w' : W} {a : α} {b : β} {s : σ} {s' : σ'} (hw : w ≤ w') (hs : L.state w' s s')
      (h : good w' a b) : Ends good w (.ok a s) (.ok b s')
  | halt {w' : W} {halt : Halt} {s : σ} {s' : σ'} (hw : w ≤ w') (hs : L.state w' s s') :
      Ends good w (.error halt s) (.error halt s')
  | left (h : L.lenient) {s : σ} {r : EStateM.Result Halt σ' β} :
      Ends good w (.error .tooDeep s) r
  | right (h : L.lenient) {r : EStateM.Result Halt σ α} {s' : σ'} :
      Ends good w r (.error .tooDeep s')

def Related (good : W → α → β → Prop) (w : W) (x : EvalOver σ α) (y : EvalOver σ' β) : Prop :=
  ∀ s s', L.state w s s' → L.Ends good w (x s) (y s')

variable {L} {good : W → α → β → Prop} {fine : W → γ → δ → Prop} {w w' : W}

theorem Ends.from_le {r : EStateM.Result Halt σ α} {r' : EStateM.Result Halt σ' β} (hw : w ≤ w')
    (h : L.Ends good w' r r') : L.Ends good w r r' := by
  cases h with
  | ok hw' hs h => exact .ok (hw.trans hw') hs h
  | halt hw' hs => exact .halt (hw.trans hw') hs
  | left h => exact .left h
  | right h => exact .right h

theorem related_pure {a : α} {b : β} (h : good w a b) : L.Related good w (pure a) (pure b) :=
  fun _ _ hs => .ok le_rfl hs h

theorem related_throw (halt : Halt) : L.Related good w (throw halt) (throw halt) :=
  fun _ _ hs => .halt le_rfl hs

theorem related_bind {x : EvalOver σ α} {y : EvalOver σ' β} {f : α → EvalOver σ γ}
    {g : β → EvalOver σ' δ} (hx : L.Related good w x y)
    (hf : ∀ w', w ≤ w' → ∀ a b, good w' a b → L.Related fine w' (f a) (g b)) :
    L.Related fine w (x >>= f) (y >>= g) := by
  intro s s' hs
  show L.Ends fine w (EStateM.bind x f s) (EStateM.bind y g s')
  have hends := hx s s' hs
  unfold EStateM.bind
  generalize x s = r, y s' = r' at hends
  cases hends with
  | ok hw hs h => exact (hf _ hw _ _ h _ _ hs).from_le hw
  | halt hw hs => exact .halt hw hs
  | left h => exact .left h
  | right h =>
    -- Whatever the first evaluation goes on to do, the second one is over.
    exact .right h

/-! ### Steps of a machine -/

theorem related_emit (event event' : Event) :
    L.Related (fun _ _ _ => True) w (emit event) (emit event') :=
  fun _ _ hs => .ok le_rfl (L.recorded event event' hs) trivial

theorem related_countStatement :
    L.Related (fun _ _ _ => True) w countStatement countStatement :=
  fun _ _ hs => .ok le_rfl (L.counted ⟨1, 0, 0⟩ hs) trivial

theorem related_countCall : L.Related (fun _ _ _ => True) w countCall countCall :=
  fun _ _ hs => .ok le_rfl (L.counted ⟨0, 1, 0⟩ hs) trivial

theorem related_countError : L.Related (fun _ _ _ => True) w countError countError :=
  fun _ _ hs => .ok le_rfl (L.counted ⟨0, 0, 1⟩ hs) trivial

variable {sc sc' : Scope}

theorem related_resolve? (hsc : L.scopes w sc sc') (name : String) :
    L.Related (fun w => Option.Rel (L.values w)) w (resolve? sc name) (resolve? sc' name) :=
  fun _ _ hs => .ok le_rfl hs (L.resolved name hs hsc)

theorem related_bindName {name : String} {v v' : Value} (hsc : L.scopes w sc sc')
    (hname : L.owns sc name) (hv : L.values w v v') :
    L.Related (fun _ _ _ => True) w (bindName sc name v) (bindName sc' name v') :=
  fun _ _ hs => .ok le_rfl (L.bound hs hsc hname hv) trivial

theorem values_mono (hw : w ≤ w') {v v' : Value} (h : L.values w v v') : L.values w' v v' :=
  h.mono fun _ _ => L.fn_mono hw

theorem allValues_mono (hw : w ≤ w') {vs vs' : List Value}
    (h : List.Forall₂ (L.values w) vs vs') : List.Forall₂ (L.values w') vs vs' :=
  h.imp fun _ _ => values_mono hw

theorem related_bindNames {vs vs' : List Value} (names : List String) (hsc : L.scopes w sc sc')
    (hnames : ∀ name, L.owns sc name) (hvs : List.Forall₂ (L.values w) vs vs') :
    L.Related (fun _ _ _ => True) w (bindNames sc names vs) (bindNames sc' names vs') := by
  induction names generalizing w vs vs' with
  | nil => exact related_pure trivial
  | cons name names ih =>
    cases hvs with
    | nil => exact related_pure trivial
    | cons hv hvs =>
      refine related_bind (related_bindName hsc (hnames name) hv) fun w' hw _ _ _ => ?_
      exact ih (L.scopes_mono hw hsc) (allValues_mono hw hvs)

theorem related_typed {x : Option α} {y : Option β} (h : Option.Rel (good w) x y) :
    L.Related good w (typed x) (typed y) := by
  cases h with
  | none => exact related_throw .untyped
  | some h => exact related_pure h

theorem related_typed_eq (x : Option α) :
    L.Related (fun _ a b => a = b) w (typed x) (typed x) := by
  cases x with
  | none => exact related_throw .untyped
  | some a => exact related_pure rfl

theorem related_encodable (fault : Option Text.EncodeFault) :
    L.Related (fun _ _ _ => True) w (encodable fault) (encodable fault) := by
  cases fault with
  | none => exact related_pure trivial
  | some fault => exact related_throw (.unencodable fault)

theorem related_onValue {x : EvalOver σ Value} {y : EvalOver σ' Value}
    {f : Value → EvalOver σ Value} {g : Value → EvalOver σ' Value}
    (hx : L.Related L.values w x y)
    (hf : ∀ w', w ≤ w' → ∀ v v', L.values w' v v' → L.Related L.values w' (f v) (g v')) :
    L.Related L.values w (onValue x f) (onValue y g) := by
  refine related_bind hx fun w' hw v v' hv => ?_
  rw [hv.unwinds]
  by_cases hunwinds : v'.unwinds
  · rw [if_pos hunwinds, if_pos hunwinds]
    exact related_pure hv
  · rw [if_neg hunwinds, if_neg hunwinds]
    exact hf w' hw v v' hv

end Link

/-! ### Forms -/

namespace Link

variable {L : Link W σ σ'} {w w' : W} {sub : SubOver σ} {sub' : SubOver σ'} {sc sc' : Scope}

/-- The evaluations of the nodes inside a form end alike on everything that corresponds. -/
def SubRelated (L : Link W σ σ') (sub : SubOver σ) (sub' : SubOver σ') : Prop :=
  ∀ w sc sc' n n', L.scopes w sc sc' → L.nodes sc n n' →
    L.Related L.values w (sub n sc) (sub' n' sc')

theorem related_blockFrom (hsub : L.SubRelated sub sub') {ns ns' : List Node} {v v' : Value}
    (hsc : L.scopes w sc sc') (hns : List.Forall₂ (L.nodes sc) ns ns') (hv : L.values w v v') :
    L.Related L.values w (blockFrom sub sc v ns) (blockFrom sub' sc' v' ns') := by
  induction hns generalizing w v v' with
  | nil => exact related_pure hv
  | cons hn _ ih =>
    refine related_bind (hsub w sc sc' _ _ hsc hn) fun w₁ hw₁ u u' hu => ?_
    refine related_bind related_countStatement fun w₂ hw₂ _ _ _ => ?_
    have hu₂ := values_mono hw₂ hu
    rw [hu.unwinds]
    by_cases hunwinds : u'.unwinds
    · rw [if_pos hunwinds, if_pos hunwinds]
      exact related_pure hu₂
    · rw [if_neg hunwinds, if_neg hunwinds]
      exact ih (L.scopes_mono (hw₁.trans hw₂) hsc) hu₂

theorem related_programFrom (hsub : L.SubRelated sub sub') {ns ns' : List Node} {v v' : Value}
    (hsc : L.scopes w sc sc') (hns : List.Forall₂ (L.nodes sc) ns ns') (hv : L.values w v v')
    (number number' : Nat) :
    L.Related L.values w (programFrom sub sc number v ns)
      (programFrom sub' sc' number' v' ns') := by
  induction hns generalizing w v v' number number' with
  | nil => exact related_pure hv
  | cons hn _ ih =>
    refine related_bind (related_emit _ _) fun w₀ hw₀ _ _ _ => ?_
    refine related_bind (hsub w₀ sc sc' _ _ (L.scopes_mono hw₀ hsc) hn) fun w₁ hw₁ u u' hu => ?_
    refine related_bind related_countStatement fun w₂ hw₂ _ _ _ => ?_
    have hu₂ := values_mono hw₂ hu
    have hsc₂ := L.scopes_mono ((hw₀.trans hw₁).trans hw₂) hsc
    have hgoesOn := ih hsc₂ hu₂ (number + 1) (number' + 1)
    cases hu₂ with
    | returned hinner =>
      simp only [hinner.kind?]
      refine related_bind (related_typed_eq _) fun w₃ hw₃ _ _ _ => ?_
      refine related_bind (related_emit _ _) fun w₄ hw₄ _ _ _ => ?_
      exact related_pure (values_mono (hw₃.trans hw₄) hinner)
    | error cause =>
      refine related_bind (related_emit _ _) fun _ _ _ _ _ => ?_
      refine related_bind related_countError fun _ _ _ _ _ => ?_
      exact related_pure (.error cause)
    | _ => exact hgoesOn

def results (L : Link W σ σ') (w : W) :
    Except Value (List Value) → Except Value (List Value) → Prop
  | .ok vs, .ok vs' => List.Forall₂ (L.values w) vs vs'
  | .error v, .error v' => L.values w v v'
  | _, _ => False

theorem related_valuesOf (hsub : L.SubRelated sub sub') {ns ns' : List Node}
    (hsc : L.scopes w sc sc') (hns : List.Forall₂ (L.nodes sc) ns ns') :
    L.Related L.results w (valuesOf sub sc ns) (valuesOf sub' sc' ns') := by
  induction hns generalizing w with
  | nil => exact related_pure .nil
  | cons hn _ ih =>
    refine related_bind (hsub w sc sc' _ _ hsc hn) fun w₁ hw₁ u u' hu => ?_
    rw [hu.unwinds]
    by_cases hunwinds : u'.unwinds
    · rw [if_pos hunwinds, if_pos hunwinds]
      exact related_pure hu
    · rw [if_neg hunwinds, if_neg hunwinds]
      refine related_bind (ih (L.scopes_mono hw₁ hsc)) fun w₂ hw₂ r r' hr => ?_
      match r, r', hr with
      | .ok vs, .ok vs', hvs => exact related_pure (.cons (values_mono hw₂ hu) hvs)
      | .error v, .error v', hv => exact related_pure hv

theorem related_onValues {x : EvalOver σ (Except Value (List Value))}
    {y : EvalOver σ' (Except Value (List Value))} {f : List Value → EvalOver σ Value}
    {g : List Value → EvalOver σ' Value} (hx : L.Related L.results w x y)
    (hf : ∀ w', w ≤ w' → ∀ vs vs', List.Forall₂ (L.values w') vs vs' →
      L.Related L.values w' (f vs) (g vs')) :
    L.Related L.values w
      (x >>= fun r => match r with
        | .ok values => f values
        | .error result => return result)
      (y >>= fun r => match r with
        | .ok values => g values
        | .error result => return result) := by
  refine related_bind hx fun w' hw r r' hr => ?_
  match r, r', hr with
  | .ok vs, .ok vs', hvs => exact hf w' hw vs vs' hvs
  | .error v, .error v', hv => exact related_pure hv

theorem entries_mono (hw : w ≤ w') {es es' : Entries} (h : Value.EntriesMatch (L.fn w) es es') :
    Value.EntriesMatch (L.fn w') es es' :=
  h.imp fun _ _ he => ⟨he.1, values_mono hw he.2.1, values_mono hw he.2.2⟩

theorem related_entriesFrom (hsub : L.SubRelated sub sub') {ns ns' : List (Node × Node)}
    {es es' : Entries} (hsc : L.scopes w sc sc')
    (hns : List.Forall₂ (fun p p' => L.nodes sc p.1 p'.1 ∧ L.nodes sc p.2 p'.2) ns ns')
    (hes : Value.EntriesMatch (L.fn w) es es') :
    L.Related L.values w (entriesFrom sub sc es ns) (entriesFrom sub' sc' es' ns') := by
  induction hns generalizing w es es' with
  | nil => exact related_pure (Value.matches_map.mpr hes)
  | @cons p p' ns ns' hp _ ih =>
    refine related_onValue (hsub w sc sc' _ _ hsc hp.1) fun w₁ hw₁ k k' hk => ?_
    rw [hk.key?]
    refine related_bind (related_typed_eq _) fun w₂ hw₂ mapKey _ heq => ?_
    subst heq
    have hw := hw₁.trans hw₂
    -- The three usable kinds of keys go on in the same way.
    have hgoesOn : L.Related L.values w₂
        (onValue (sub p.2 sc) fun v => entriesFrom sub sc (es.insert mapKey (k, v)) ns)
        (onValue (sub' p'.2 sc') fun v =>
          entriesFrom sub' sc' (es'.insert mapKey (k', v)) ns') := by
      have hsc₂ := L.scopes_mono hw hsc
      refine related_onValue (hsub w₂ sc sc' _ _ hsc₂ hp.2) fun w₃ hw₃ v v' hv => ?_
      have hk₃ := values_mono (hw₂.trans hw₃) hk
      exact ih (L.scopes_mono hw₃ hsc₂)
        (Value.entriesMatch_insert mapKey (entries_mono (hw.trans hw₃) hes) hk₃ hv)
    cases mapKey with
    | unusable kind => exact related_pure (.error _)
    | _ => exact hgoesOn

theorem related_branch (hsub : L.SubRelated sub sub') {n n' : Node} (hsc : L.scopes w sc sc')
    (hn : L.nodes sc n n') :
    L.Related L.values w (do return (← sub n sc).orNull) (do return (← sub' n' sc').orNull) :=
  related_bind (hsub w sc sc' n n' hsc hn) fun _ _ _ _ hv => related_pure hv.orNull

theorem related_snapshot {body body' : Node} (parameters : List String) (hsc : L.scopes w sc sc')
    (hbody : L.bodies body body') :
    L.Related L.values w (do return .function parameters body (← makeScope (·.snapshot sc)))
      (do return .function parameters body' (← makeScope (·.snapshot sc'))) := by
  intro s s' hs
  obtain ⟨w', hw, hs, hfn⟩ := L.snapshot parameters hs hsc hbody
  exact .ok hw hs (.function hfn)

theorem related_enclosed {c c' : Closure} (h : L.fn w c c') :
    L.Related (fun w' inner inner' => L.scopes w' inner inner' ∧ L.nodes inner c.body c'.body ∧
        ∀ name, L.owns inner name) w
      (makeScope (·.enclosed c.scope)) (makeScope (·.enclosed c'.scope)) := by
  intro s s' hs
  obtain ⟨w', hw, hs, hinner⟩ := L.enclosed hs h
  exact .ok hw hs hinner

theorem related_applyValue [Text.Encoding] (hsub : L.SubRelated sub sub') {callee callee' : Value}
    {vs vs' : List Value} (hcallee : L.values w callee callee')
    (hvs : List.Forall₂ (L.values w) vs vs') :
    L.Related L.values w (applyValue sub callee vs) (applyValue sub' callee' vs') := by
  refine related_bind related_countCall fun w₁ hw₁ _ _ _ => ?_
  have hcallee₁ := values_mono hw₁ hcallee
  cases hcallee₁ with
  | @function ps ps' body body' scope scope' h =>
    obtain rfl : ps = ps' := L.parameters_eq h
    simp only [hvs.length_eq]
    by_cases harity : ps.length = vs'.length
    · rw [if_pos harity, if_pos harity]
      refine related_bind (related_enclosed h) fun w₂ hw₂ inner inner' hinner => ?_
      have hvs₂ := allValues_mono (hw₁.trans hw₂) hvs
      refine related_bind (related_bindNames ps hinner.1 hinner.2.2 hvs₂) fun w₃ hw₃ _ _ _ => ?_
      refine related_bind (related_emit _ _) fun w₄ hw₄ _ _ _ => ?_
      have hinner₄ := L.scopes_mono (hw₃.trans hw₄) hinner.1
      refine related_bind (hsub w₄ inner inner' _ _ hinner₄ hinner.2.1) fun w₅ hw₅ u u' hu => ?_
      exact related_pure hu.unwrapped.orNull
    · rw [if_neg harity, if_neg harity]
      exact related_pure (.error _)
  | builtin primitive =>
    refine related_bind (related_emit _ _) fun w₂ hw₂ _ _ _ => ?_
    rw [Value.fault?_congr primitive hvs]
    refine related_bind (related_encodable _) fun w₃ hw₃ _ _ _ => ?_
    have hvs₃ := allValues_mono ((hw₁.trans hw₂).trans hw₃) hvs
    exact related_typed (Value.matches_call? primitive hvs₃)
  | _ =>
    refine related_bind (related_typed_eq _) fun w₂ hw₂ kind _ heq => ?_
    subst heq
    exact related_pure (.error _)

theorem related_notIndexable {v v' : Value} (hv : L.values w v v') :
    L.Related L.values w (do return .error (.notIndexable (← typed v.kind?)))
      (do return .error (.notIndexable (← typed v'.kind?))) := by
  rw [hv.kind?]
  refine related_bind (related_typed_eq _) fun _ _ kind _ heq => ?_
  subst heq
  exact related_pure (.error _)

theorem related_indexValue {v v' u u' : Value} (hv : L.values w v v') (hu : L.values w u u') :
    L.Related L.values w (indexValue v u) (indexValue v' u') := by
  cases hv with
  | array hvs =>
    cases hu with
    | integer place =>
      refine related_pure ?_
      by_cases hplace : place < 0
      · rw [if_pos hplace, if_pos hplace]
        exact .null
      · rw [if_neg hplace, if_neg hplace]
        exact Value.matches_getD (Value.rel_getElem? hvs place.toNat)
    | _ => exact related_notIndexable (.array hvs)
  | @map es es' hmapKeys hkeys hvalues =>
    have hes := Value.matches_map.mp (.map hmapKeys hkeys hvalues)
    rw [indexValue, indexValue, hu.key?]
    refine related_bind (related_typed_eq _) fun w₁ hw₁ key _ heq => ?_
    subst heq
    have hfound := Value.matches_getD (Value.rel_find? key (entries_mono hw₁ hes))
    cases key with
    | unusable kind => exact related_pure (.error _)
    | _ => exact related_pure hfound
  | _ => cases hu <;> exact related_notIndexable (by constructor <;> assumption)

theorem related_evalForm [Text.Encoding] (hsub : L.SubRelated sub sub') {n n' : Node}
    (hsc : L.scopes w sc sc') (h : n.Alike (L.owns sc) (L.nodes sc) L.bodies n') :
    L.Related L.values w (evalForm sub sc n) (evalForm sub' sc' n') := by
  have hinner : ∀ {w'}, w ≤ w' → ∀ {m m'}, L.nodes sc m m' →
      L.Related L.values w' (sub m sc) (sub' m' sc') :=
    fun hw _ _ hm => hsub _ sc sc' _ _ (L.scopes_mono hw hsc) hm
  cases h with
  | hole =>
    refine related_bind (related_emit _ _) fun _ _ _ _ _ => ?_
    exact related_pure .null
  | bare kind =>
    refine related_bind (related_emit _ _) fun _ _ _ _ _ => ?_
    exact related_pure (.error _)
  | program hns =>
    refine related_bind (related_emit _ _) fun w₁ hw₁ _ _ _ => ?_
    refine related_bind (related_emit _ _) fun w₂ hw₂ _ _ _ => ?_
    exact related_programFrom hsub (L.scopes_mono (hw₁.trans hw₂) hsc) hns .emptyMark 1 1
  | block hns =>
    refine related_bind (related_emit _ _) fun w₁ hw₁ _ _ _ => ?_
    exact related_blockFrom hsub (L.scopes_mono hw₁ hsc) hns .emptyMark
  | letBind hname hvalue =>
    refine related_onValue (hinner le_rfl hvalue) fun w₁ hw₁ v v' hv => ?_
    refine related_bind (related_bindName (L.scopes_mono hw₁ hsc) hname hv) fun _ _ _ _ _ => ?_
    refine related_bind (related_emit _ _) fun _ _ _ _ _ => ?_
    exact related_pure .letMark
  | returning hvalue =>
    exact related_onValue (hinner le_rfl hvalue) fun _ _ _ _ hv => related_pure (.returned hv)
  | expression hnode => exact hinner le_rfl hnode
  | identifier name =>
    refine related_bind (related_resolve? hsc name) fun w₁ hw₁ found found' hfound => ?_
    cases hfound with
    | some hv => exact related_pure hv
    | none =>
      refine related_bind (related_emit _ _) fun _ _ _ _ _ => ?_
      exact related_pure (.error _)
  | integer value => exact related_pure (.integer value)
  | text value => exact related_pure (.string value)
  | boolean value => exact related_pure (.boolean value)
  | prefixOp operator hright =>
    refine related_bind (related_emit _ _) fun w₁ hw₁ _ _ _ => ?_
    refine related_onValue (hinner hw₁ hright) fun w₂ hw₂ v v' hv => ?_
    exact related_typed (Value.matches_prefixValue? operator hv)
  | infixOp operator hleft hright =>
    refine related_bind (related_emit _ _) fun w₁ hw₁ _ _ _ => ?_
    refine related_onValue (hinner hw₁ hleft) fun w₂ hw₂ v v' hv => ?_
    refine related_onValue (hinner (hw₁.trans hw₂) hright) fun w₃ hw₃ u u' hu => ?_
    exact related_typed (Value.matches_infixValue? operator (values_mono hw₃ hv) hu)
  | grouped hnode => exact hinner le_rfl hnode
  | conditional hcondition hconsequence =>
    refine related_onValue (hinner le_rfl hcondition) fun w₁ hw₁ v v' hv => ?_
    rw [hv.isTruthy]
    cases v'.isTruthy with
    | true => exact related_branch hsub (L.scopes_mono hw₁ hsc) hconsequence
    | false => exact related_pure .null
  | @conditionalElse c c' t t' e e' hcondition hconsequence he he' halternative =>
    refine related_onValue (hinner le_rfl hcondition) fun w₁ hw₁ v v' hv => ?_
    rw [hv.isTruthy]
    cases v'.isTruthy with
    | true => exact related_branch hsub (L.scopes_mono hw₁ hsc) hconsequence
    | false =>
      -- Neither alternative is taken for a missing one.
      have hbranch := related_branch hsub (L.scopes_mono hw₁ hsc) halternative
      cases e with
      | hole => cases he
      | _ =>
        cases e' with
        | hole => cases he'
        | _ => exact hbranch
  | function parameters hbody => exact related_snapshot parameters hsc hbody
  | call hcallee harguments =>
    refine related_bind (related_emit _ _) fun w₁ hw₁ _ _ _ => ?_
    refine related_onValue (hinner hw₁ hcallee) fun w₂ hw₂ v v' hv => ?_
    have hvalues := related_valuesOf hsub (L.scopes_mono (hw₁.trans hw₂) hsc) harguments
    refine related_onValues hvalues fun w₃ hw₃ vs vs' hvs => ?_
    exact related_applyValue hsub (values_mono hw₃ hv) hvs
  | array helements =>
    refine related_onValues (related_valuesOf hsub hsc helements) fun w₁ hw₁ vs vs' hvs => ?_
    exact related_pure (.array hvs)
  | index hcollection hposition =>
    refine related_onValue (hinner le_rfl hcollection) fun w₁ hw₁ v v' hv => ?_
    refine related_onValue (hinner hw₁ hposition) fun w₂ hw₂ u u' hu => ?_
    exact related_indexValue (values_mono hw₂ hv) hu
  | mapping hkeys hvalues =>
    refine related_bind (related_emit _ _) fun w₁ hw₁ _ _ _ => ?_
    rw [List.forall₂_map_left_iff, List.forall₂_map_right_iff] at hkeys hvalues
    refine related_entriesFrom hsub (L.scopes_mono hw₁ hsc) ?_ .nil
    exact List.Forall₂.mp (fun _ _ hk hv => ⟨hk, hv⟩) hkeys hvalues

end Link

end Eval

end MonkeyLang

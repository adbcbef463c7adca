import Mathlib.Order.Basic
import MonkeyLang.Proofs.Eval.Link
import MonkeyLang.Proofs.Value.Parts

/-!
One node evaluated twice, in one scope, by two evaluations that are in accord: they give the same
value, and everything inside it has a property. One of them may be given fewer levels of nesting.
What the two states have in common is up to a world, which grows along the way, and so is the
property. As for a link, what is proved of two evaluations in this way needs a look at the steps of
a machine, and at the forms that make values of their own, but at no other form of the language.
-/
namespace MonkeyLang

def Event.isOrdinary : Event → Bool
  | emptyPlace | unknownNode _ => false
  | _ => true

namespace Eval

open HasMachine

structure Accord (W σ σ' : Type) [Preorder W] [HasMachine σ] [HasMachine σ'] where
  state : W → σ → σ' → Prop
  leaf : W → Value → Prop
  node : W → Scope → Node → Prop
  owns : W → Scope → String → Prop
  /-- Whether the first evaluation may be nested too deeply where the second one is not. -/
  lenient : Prop
  leaf_mono : ∀ {w w' v}, w ≤ w' → leaf w v → leaf w' v
  node_mono : ∀ {w w' sc n}, w ≤ w' → node w sc n → node w' sc n
  owns_mono : ∀ {w w' sc name}, w ≤ w' → owns w sc name → owns w' sc name
  node_visited : ∀ {w sc n c}, node w sc n → c ∈ n.visited → node w sc c
  owns_target? : ∀ {w sc n name}, node w sc n → name ∈ n.target? → owns w sc name
  indifferent : ∀ w, Value.Indifferent (leaf w)
  integer : ∀ {w sc value}, node w sc (.integer value) → leaf w (.integer value)
  prefixed : ∀ {w sc operator right v r}, node w sc (.prefixOp operator right) →
    prefixValue? operator v = some r → leaf w r
  infixed : ∀ {w sc left operator right v u r}, node w sc (.infixOp left operator right) →
    infixValue? operator v u = some r → leaf w r
  emptyMap : ∀ {w}, leaf w (.map [])
  inserted : ∀ {w es key k v}, leaf w (.map es) → k.key? = some key → key.isUsable →
    leaf w (.map (Entries.insert key (k, v) es))
  unknown : ∀ {w sc kind}, node w sc (.bare kind) → leaf w (.error (.unknownNode kind))
  size_eq : ∀ {w s s'}, state w s s' →
    (machine s).heap.size = (machine s').heap.size
  recorded : ∀ {w s s' event}, event.isOrdinary → state w s s' →
    state w (update (Machine.recorded event) s) (update (Machine.recorded event) s')
  recorded_hole : ∀ {w s s' sc}, node w sc .hole → state w s s' →
    state w (update (Machine.recorded .emptyPlace) s) (update (Machine.recorded .emptyPlace) s')
  recorded_bare : ∀ {w s s' sc kind}, node w sc (.bare kind) → state w s s' →
    state w (update (Machine.recorded (.unknownNode kind)) s)
      (update (Machine.recorded (.unknownNode kind)) s')
  counted : ∀ {w s s'} (k : Summary), state w s s' →
    state w (update (Machine.counted k) s) (update (Machine.counted k) s')
  resolved : ∀ {w s s' sc name}, state w s s' → node w sc (.identifier name) →
    (machine s).heap.resolve? sc name = (machine s').heap.resolve? sc name ∧
      ∀ v ∈ (machine s).heap.resolve? sc name, v.All (leaf w)
  bound : ∀ {w s s' sc name v}, state w s s' → owns w sc name → v.All (leaf w) →
    state w (update (Machine.bound sc name v) s) (update (Machine.bound sc name v) s')
  snapshot : ∀ {w s s' sc parameters body}, state w s s' →
    node w sc (.function parameters body) →
    ∃ w', w ≤ w' ∧
      state w' (update (Machine.placed ((machine s).heap.snapshot sc).2) s)
        (update (Machine.placed ((machine s').heap.snapshot sc).2) s') ∧
      leaf w' (.function parameters body ((machine s).heap.snapshot sc).1)
  enclosed : ∀ {w s s' parameters body scope}, state w s s' →
    leaf w (.function parameters body scope) →
    ∃ w', w ≤ w' ∧
      state w' (update (Machine.placed ((machine s).heap.enclosed scope).2) s)
        (update (Machine.placed ((machine s').heap.enclosed scope).2) s') ∧
      node w' ((machine s).heap.enclosed scope).1 body ∧
      ∀ name ∈ parameters, owns w' ((machine s).heap.enclosed scope).1 name

namespace Accord

variable {W σ σ' : Type} [Preorder W] [HasMachine σ] [HasMachine σ'] (A : Accord W σ σ')
  {α β : Type}

def values (w : W) (v : Value) : Prop := v.All (A.leaf w)

/-- One result with two states, in a world grown from the given one. -/
inductive Ends (good : W → α → Prop) (w : W) :
    EStateM.Result Halt σ α → EStateM.Result Halt σ' α → Prop
  | ok {w' : W} {a : α} {s : σ} {s' : σ'} (hw : w ≤ w') (hs : A.state w' s s') (h : good w' a) :
      Ends good w (.ok a s) (.ok a s')
  | halt {w' : W} {halt : Halt} {s : σ} {s' : σ'} (hw : w ≤ w') (hs : A.state w' s s') :
      Ends good w (.error halt s) (.error halt s')
  | deep (h : A.lenient) {s : σ} {r : EStateM.Result Halt σ' α} : Ends good w (.error .tooDeep s) r

def Joint (good : W → α → Prop) (w : W) (x : EvalOver σ α) (y : EvalOver σ' α) : Prop :=
  ∀ s s', A.state w s s' → A.Ends good w (x s) (y s')

variable {A} {good : W → α → Prop} {fine : W → β → Prop} {w w' : W}

theorem Ends.from_le {r : EStateM.Result Halt σ α} {r' : EStateM.Result Halt σ' α} (hw : w ≤ w')
    (h : A.Ends good w' r r') : A.Ends good w r r' := by
  cases h with
  | ok hw' hs h => exact .ok (hw.trans hw') hs h
  | halt hw' hs => exact .halt (hw.trans hw') hs
  | deep h => exact .deep h

theorem joint_pure {a : α} (h : good w a) : A.Joint good w (pure a) (pure a) :=
  fun _ _ hs => .ok le_rfl hs h

theorem joint_throw (halt : Halt) : A.Joint good w (throw halt) (throw halt) :=
  fun _ _ hs => .halt le_rfl hs

theorem joint_bind {x : EvalOver σ α} {y : EvalOver σ' α} {f : α → EvalOver σ β}
    {g : α → EvalOver σ' β} (hx : A.Joint good w x y)
    (hf : ∀ w', w ≤ w' → ∀ a, good w' a → A.Joint fine w' (f a) (g a)) :
    A.Joint fine w (x >>= f) (y >>= g) := by
  intro s s' hs
  change A.Ends fine w (EStateM.bind x f s) (EStateM.bind y g s')
  have hends := hx s s' hs
  unfold EStateM.bind
  generalize x s = r, y s' = r' at hends
  cases hends with
  | ok hw hs h => exact (hf _ hw _ h _ _ hs).from_le hw
  | halt hw hs => exact .halt hw hs
  | deep h => exact .deep h

theorem values_mono (hw : w ≤ w') {v : Value} (h : A.values w v) : A.values w' v :=
  Throughout.imp h fun _ => A.leaf_mono hw

theorem joint_ordinary {v : Value} (h : v.isOrdinary) :
    A.Joint A.values w (pure v) (pure v) :=
  joint_pure (Value.all_of_isOrdinary (A.indifferent w) h)

/-! ### Steps of a machine -/

theorem joint_emit {event : Event} (h : event.isOrdinary) :
    A.Joint (fun _ _ => True) w (emit event) (emit event) :=
  fun _ _ hs => .ok le_rfl (A.recorded h hs) trivial

theorem joint_countStatement : A.Joint (fun _ _ => True) w countStatement countStatement :=
  fun _ _ hs => .ok le_rfl (A.counted ⟨1, 0, 0⟩ hs) trivial

theorem joint_countCall : A.Joint (fun _ _ => True) w countCall countCall :=
  fun _ _ hs => .ok le_rfl (A.counted ⟨0, 1, 0⟩ hs) trivial

theorem joint_countError : A.Joint (fun _ _ => True) w countError countError :=
  fun _ _ hs => .ok le_rfl (A.counted ⟨0, 0, 1⟩ hs) trivial

variable {sc : Scope}

theorem joint_resolve? {name : String} (hname : A.node w sc (.identifier name)) :
    A.Joint (fun w found => ∀ v ∈ found, A.values w v) w (resolve? sc name)
      (resolve? sc name) := by
  intro s s' hs
  obtain ⟨heq, hfound⟩ := A.resolved hs hname
  change A.Ends _ w (.ok ((machine s).heap.resolve? sc name) s)
    (.ok ((machine s').heap.resolve? sc name) s')
  rw [← heq]
  exact .ok le_rfl hs hfound

theorem joint_bindName {name : String} {v : Value} (hname : A.owns w sc name)
    (hv : A.values w v) :
    A.Joint (fun _ _ => True) w (bindName sc name v) (bindName sc name v) :=
  fun _ _ hs => .ok le_rfl (A.bound hs hname hv) trivial

theorem joint_bindNames (names : List String) {vs : List Value}
    (hnames : ∀ name ∈ names, A.owns w sc name) (hvs : ∀ v ∈ vs, A.values w v) :
    A.Joint (fun _ _ => True) w (bindNames sc names vs) (bindNames sc names vs) := by
  induction names generalizing w vs with
  | nil => exact joint_pure trivial
  | cons name names ih =>
    cases vs with
    | nil => exact joint_pure trivial
    | cons v vs =>
      obtain ⟨hname, hnames⟩ := List.forall_mem_cons.mp hnames
      obtain ⟨hv, hvs⟩ := List.forall_mem_cons.mp hvs
      apply joint_bind (joint_bindName hname hv)
      intro w' hw _ _
      apply ih
      · exact fun name hname => A.owns_mono hw (hnames name hname)
      · exact fun v hv => values_mono hw (hvs v hv)

theorem joint_typed {found : Option α} (h : ∀ a ∈ found, good w a) :
    A.Joint good w (typed found) (typed found) := by
  cases found with
  | none => exact joint_throw .untyped
  | some a => exact joint_pure (h a rfl)

theorem joint_typed_any (found : Option α) :
    A.Joint (fun _ a => found = some a) w (typed found) (typed found) :=
  joint_typed fun _ h => h

theorem joint_encodable (fault : Option Text.EncodeFault) :
    A.Joint (fun _ _ => True) w (encodable fault) (encodable fault) := by
  cases fault with
  | none => exact joint_pure trivial
  | some fault => exact joint_throw (.unencodable fault)

theorem joint_onValue {x : EvalOver σ Value} {y : EvalOver σ' Value}
    {f : Value → EvalOver σ Value} {g : Value → EvalOver σ' Value}
    (hx : A.Joint A.values w x y)
    (hf : ∀ w', w ≤ w' → ∀ v, A.values w' v → A.Joint A.values w' (f v) (g v)) :
    A.Joint A.values w (onValue x f) (onValue y g) := by
  apply joint_bind hx
  intro w' hw v hv
  cases v.unwinds with
  | true => exact joint_pure hv
  | false => exact hf w' hw v hv

theorem joint_snapshot {parameters : List String} {body : Node}
    (h : A.node w sc (.function parameters body)) :
    A.Joint A.values w (do return .function parameters body (← makeScope (·.snapshot sc)))
      (do return .function parameters body (← makeScope (·.snapshot sc))) := by
  intro s s' hs
  obtain ⟨w', hw, hs', hleaf⟩ := A.snapshot hs h
  have hscope : ((machine s').heap.snapshot sc).1 = ((machine s).heap.snapshot sc).1 := by
    simp only [Heap.snapshot, A.size_eq hs]
  change A.Ends A.values w
    (.ok (.function parameters body ((machine s).heap.snapshot sc).1) _)
    (.ok (.function parameters body ((machine s').heap.snapshot sc).1) _)
  rw [hscope]
  exact .ok hw hs' (Value.all_of_parts rfl hleaf)

theorem joint_enclosed {parameters : List String} {body : Node} {scope : Scope}
    (h : A.leaf w (.function parameters body scope)) :
    A.Joint (fun w' inner => A.node w' inner body ∧ ∀ name ∈ parameters, A.owns w' inner name) w
      (makeScope (·.enclosed scope)) (makeScope (·.enclosed scope)) := by
  intro s s' hs
  obtain ⟨w', hw, hs', hinner⟩ := A.enclosed hs h
  have hscope : ((machine s').heap.enclosed scope).1 = ((machine s).heap.enclosed scope).1 := by
    simp only [Heap.enclosed, Heap.newScope, A.size_eq hs]
  change A.Ends _ w (.ok ((machine s).heap.enclosed scope).1 _)
    (.ok ((machine s').heap.enclosed scope).1 _)
  rw [hscope]
  exact .ok hw hs' hinner

/-! ### Sequences -/

variable {sub : SubOver σ} {sub' : SubOver σ'}

/-- The nodes inside a form are evaluated in accord wherever they belong. -/
def SubJoint (A : Accord W σ σ') (sub : SubOver σ) (sub' : SubOver σ') : Prop :=
  ∀ w sc n, A.node w sc n → A.Joint A.values w (sub n sc) (sub' n sc)

theorem nodes_mono {ns : List Node} (hw : w ≤ w') (hns : ∀ n ∈ ns, A.node w sc n) :
    ∀ n ∈ ns, A.node w' sc n :=
  fun n hn => A.node_mono hw (hns n hn)

theorem joint_blockFrom (hsub : A.SubJoint sub sub') {ns : List Node} {v : Value}
    (hns : ∀ n ∈ ns, A.node w sc n) (hv : A.values w v) :
    A.Joint A.values w (blockFrom sub sc v ns) (blockFrom sub' sc v ns) := by
  induction ns generalizing w v with
  | nil => exact joint_pure hv
  | cons n ns ih =>
    obtain ⟨hn, hns⟩ := List.forall_mem_cons.mp hns
    apply joint_bind (hsub w sc n hn)
    intro w₁ hw₁ u hu
    apply joint_bind joint_countStatement
    intro w₂ hw₂ _ _
    have hu₂ := values_mono hw₂ hu
    cases u.unwinds with
    | true => exact joint_pure hu₂
    | false => exact ih (nodes_mono (hw₁.trans hw₂) hns) hu₂

theorem joint_programFrom (hsub : A.SubJoint sub sub') {ns : List Node} {v : Value}
    (hns : ∀ n ∈ ns, A.node w sc n) (hv : A.values w v) (number : Nat) :
    A.Joint A.values w (programFrom sub sc number v ns) (programFrom sub' sc number v ns) := by
  induction ns generalizing w v number with
  | nil => exact joint_pure hv
  | cons n ns ih =>
    obtain ⟨hn, hns⟩ := List.forall_mem_cons.mp hns
    apply joint_bind (joint_emit rfl)
    intro w₀ hw₀ _ _
    apply joint_bind (hsub w₀ sc n (A.node_mono hw₀ hn))
    intro w₁ hw₁ u hu
    apply joint_bind joint_countStatement
    intro w₂ hw₂ _ _
    have hu₂ := values_mono hw₂ hu
    have hgoesOn := ih (nodes_mono ((hw₀.trans hw₁).trans hw₂) hns) hu₂ (number + 1)
    cases u with
    | returned inner =>
      apply joint_bind (joint_typed_any _)
      intro w₃ hw₃ _ _
      apply joint_bind (joint_emit rfl)
      intro w₄ hw₄ _ _
      exact joint_pure (values_mono (hw₃.trans hw₄) ((Value.all_returned (A.indifferent _)).mp hu₂))
    | error cause =>
      apply joint_bind (joint_emit rfl)
      intro w₃ hw₃ _ _
      apply joint_bind joint_countError
      intro w₄ hw₄ _ _
      exact joint_pure (values_mono (hw₃.trans hw₄) hu₂)
    | _ => exact hgoesOn

def results (A : Accord W σ σ') (w : W) : Except Value (List Value) → Prop
  | .ok vs => ∀ v ∈ vs, A.values w v
  | .error v => A.values w v

theorem joint_valuesOf (hsub : A.SubJoint sub sub') {ns : List Node}
    (hns : ∀ n ∈ ns, A.node w sc n) :
    A.Joint A.results w (valuesOf sub sc ns) (valuesOf sub' sc ns) := by
  induction ns generalizing w with
  | nil => exact joint_pure (List.forall_mem_nil _)
  | cons n ns ih =>
    obtain ⟨hn, hns⟩ := List.forall_mem_cons.mp hns
    apply joint_bind (hsub w sc n hn)
    intro w₁ hw₁ u hu
    cases u.unwinds with
    | true => exact joint_pure hu
    | false =>
      apply joint_bind (ih (nodes_mono hw₁ hns))
      intro w₂ hw₂ r hr
      cases r with
      | ok vs => exact joint_pure (List.forall_mem_cons.mpr ⟨values_mono hw₂ hu, hr⟩)
      | error v => exact joint_pure hr

theorem joint_entriesFrom (hsub : A.SubJoint sub sub') {ns : List (Node × Node)}
    {es : Entries} (hns : ∀ p ∈ ns, A.node w sc p.1 ∧ A.node w sc p.2)
    (hes : A.values w (.map es)) :
    A.Joint A.values w (entriesFrom sub sc es ns) (entriesFrom sub' sc es ns) := by
  induction ns generalizing w es with
  | nil => exact joint_pure hes
  | cons p ns ih =>
    obtain ⟨hp, hns⟩ := List.forall_mem_cons.mp hns
    apply joint_onValue (hsub w sc p.1 hp.1)
    intro w₁ hw₁ k hk
    apply joint_bind (joint_typed_any k.key?)
    intro w₂ hw₂ key hkey
    have hw := hw₁.trans hw₂
    -- The three usable kinds of keys go on in the same way.
    have hgoesOn : key.isUsable → A.Joint A.values w₂
        (onValue (sub p.2 sc) fun v => entriesFrom sub sc (es.insert key (k, v)) ns)
        (onValue (sub' p.2 sc) fun v => entriesFrom sub' sc (es.insert key (k, v)) ns) := by
      intro husable
      apply joint_onValue (hsub w₂ sc p.2 (A.node_mono hw hp.2))
      intro w₃ hw₃ v hv
      have hes₃ := values_mono (hw.trans hw₃) hes
      apply ih
      · exact fun q hq =>
          ⟨A.node_mono (hw.trans hw₃) (hns q hq).1, A.node_mono (hw.trans hw₃) (hns q hq).2⟩
      · exact hes₃.insert (values_mono (hw₂.trans hw₃) hk) hv (A.inserted hes₃.here hkey husable)
    cases key with
    | unusable kind => exact joint_ordinary rfl
    | _ => exact hgoesOn rfl

/-! ### Calls, indexing and branches -/

/-- Calls in accord, as long as a length that is asked for has the property. -/
theorem joint_applyValue [Text.Encoding] (hsub : A.SubJoint sub sub') {callee : Value}
    {vs : List Value} (hcallee : A.values w callee) (hvs : ∀ v ∈ vs, A.values w v)
    (hlen : ∀ text, callee = .builtin .len → vs = [.string text] →
      A.leaf w (.integer text.utf8ByteSize)) :
    A.Joint A.values w (applyValue sub callee vs) (applyValue sub' callee vs) := by
  apply joint_bind joint_countCall
  intro w₁ hw₁ _ _
  cases callee with
  | function parameters body scope =>
    by_cases harity : parameters.length = vs.length
    · simp only [harity, if_true]
      apply joint_bind (joint_enclosed (A.leaf_mono hw₁ hcallee.here))
      intro w₂ hw₂ inner hinner
      have hvs₂ : ∀ v ∈ vs, A.values w₂ v := fun v hv => values_mono (hw₁.trans hw₂) (hvs v hv)
      apply joint_bind (joint_bindNames parameters hinner.2 hvs₂)
      intro w₃ hw₃ _ _
      apply joint_bind (joint_emit rfl)
      intro w₄ hw₄ _ _
      apply joint_bind (hsub w₄ inner body (A.node_mono (hw₃.trans hw₄) hinner.1))
      intro w₅ hw₅ u hu
      exact joint_pure ((hu.unwrapped (A.indifferent _)).orNull (A.indifferent _))
    · simp only [harity, if_false]
      exact joint_ordinary rfl
  | builtin primitive =>
    apply joint_bind (joint_emit rfl)
    intro w₂ hw₂ _ _
    apply joint_bind (joint_encodable _)
    intro w₃ hw₃ _ _
    have hw := (hw₁.trans hw₂).trans hw₃
    apply joint_typed
    apply Value.all_call? (A.indifferent w₃)
    · exact fun v hv => values_mono hw (hvs v hv)
    · intro text hprimitive htext
      exact A.leaf_mono hw (hlen text (congrArg Value.builtin hprimitive) htext)
  | _ =>
    apply joint_bind (joint_typed_any _)
    intro _ _ _ _
    exact joint_ordinary rfl

theorem joint_indexValue {collection position : Value} (h : A.values w collection) :
    A.Joint A.values w (indexValue collection position) (indexValue collection position) := by
  have hP := A.indifferent
  unfold indexValue
  split
  · next elements place =>
    apply joint_pure
    split
    · exact Value.all_of_isOrdinary (hP w) rfl
    · apply Value.all_getD (hP w)
      exact fun v hv => (Value.all_array (hP w)).mp h v (List.mem_of_getElem? hv)
  · next entries =>
    apply joint_bind (joint_typed_any position.key?)
    intro w₁ hw₁ key _
    have hfound : A.values w₁ ((Entries.find? entries key).getD .null) :=
      Value.all_getD (hP w₁) (values_mono hw₁ h).find?
    cases key with
    | unusable kind => exact joint_ordinary rfl
    | _ => exact joint_pure hfound
  · apply joint_bind (joint_typed_any _)
    intro _ _ _ _
    exact joint_ordinary rfl

theorem joint_branch (hsub : A.SubJoint sub sub') {n : Node} (hn : A.node w sc n) :
    A.Joint A.values w (do return (← sub n sc).orNull) (do return (← sub' n sc).orNull) :=
  joint_bind (hsub w sc n hn) fun _ _ _ hv => joint_pure (hv.orNull (A.indifferent _))

theorem joint_onValues {x : EvalOver σ (Except Value (List Value))}
    {y : EvalOver σ' (Except Value (List Value))} {f : List Value → EvalOver σ Value}
    {g : List Value → EvalOver σ' Value} (hx : A.Joint A.results w x y)
    (hf : ∀ w', w ≤ w' → ∀ vs, (∀ v ∈ vs, A.values w' v) → A.Joint A.values w' (f vs) (g vs)) :
    A.Joint A.values w
      (x >>= fun r => match r with
        | .ok values => f values
        | .error result => return result)
      (y >>= fun r => match r with
        | .ok values => g values
        | .error result => return result) := by
  apply joint_bind hx
  intro w' hw r hr
  cases r with
  | ok vs => exact hf w' hw vs hr
  | error v => exact joint_pure hr

theorem joint_call (hsub : A.SubJoint sub sub') {callee : Node} {arguments : List Node}
    (hn : A.node w sc (.call callee arguments)) {f : Value → List Value → EvalOver σ Value}
    {g : Value → List Value → EvalOver σ' Value}
    (hf : ∀ w', w ≤ w' → ∀ v vs, A.values w' v → (∀ u ∈ vs, A.values w' u) →
      A.Joint A.values w' (f v vs) (g v vs)) :
    A.Joint A.values w
      (do
        emit (.callNode arguments.length)
        onValue (sub callee sc) fun v => do
          match ← valuesOf sub sc arguments with
          | .ok vs => f v vs
          | .error result => return result)
      (do
        emit (.callNode arguments.length)
        onValue (sub' callee sc) fun v => do
          match ← valuesOf sub' sc arguments with
          | .ok vs => g v vs
          | .error result => return result) := by
  apply joint_bind (joint_emit rfl)
  intro w₁ hw₁ _ _
  have hcallee := A.node_visited hn (c := callee) List.mem_cons_self
  apply joint_onValue (hsub w₁ sc callee (A.node_mono hw₁ hcallee))
  intro w₂ hw₂ v hv
  have harguments : ∀ c ∈ arguments, A.node w₂ sc c := fun c hc =>
    A.node_mono (hw₁.trans hw₂) (A.node_visited hn (List.mem_cons_of_mem callee hc))
  apply joint_onValues (joint_valuesOf hsub harguments)
  intro w₃ hw₃ vs hvs
  exact hf w₃ ((hw₁.trans hw₂).trans hw₃) v vs (values_mono hw₃ hv) hvs

/-! ### Forms -/

theorem joint_conditional [Text.Encoding] (hsub : A.SubJoint sub sub')
    {condition consequence alternative : Node}
    (hn : A.node w sc (.conditional condition consequence alternative)) :
    A.Joint A.values w (evalForm sub sc (.conditional condition consequence alternative))
      (evalForm sub' sc (.conditional condition consequence alternative)) := by
  have hcondition : condition ∈ (Node.conditional condition consequence alternative).visited := by
    cases alternative <;> exact List.mem_cons_self
  have hconsequence :
      consequence ∈ (Node.conditional condition consequence alternative).visited := by
    cases alternative <;> exact List.mem_cons_of_mem _ List.mem_cons_self
  apply joint_onValue (hsub w sc condition (A.node_visited hn hcondition))
  intro w₁ hw₁ v hv
  cases v.isTruthy with
  | true => exact joint_branch hsub (A.node_mono hw₁ (A.node_visited hn hconsequence))
  | false =>
    have hbranch : alternative.isHole = false → A.Joint A.values w₁
        (do return (← sub alternative sc).orNull) (do return (← sub' alternative sc).orNull) := by
      intro hpresent
      apply joint_branch hsub (A.node_mono hw₁ (A.node_visited hn _))
      rw [Node.visited_conditional hpresent]
      exact List.mem_cons_of_mem _ (List.mem_cons_of_mem _ List.mem_cons_self)
    cases alternative with
    | hole => exact joint_ordinary rfl
    | _ => exact hbranch rfl

theorem joint_evalForm [Text.Encoding] (hsub : A.SubJoint sub sub') {n : Node} (hn : A.node w sc n)
    (hcall : ∀ callee arguments, n = .call callee arguments →
      ∀ w', w ≤ w' → ∀ text : String, A.leaf w' (.integer text.utf8ByteSize)) :
    A.Joint A.values w (evalForm sub sc n) (evalForm sub' sc n) := by
  have hparts : ∀ {w'}, w ≤ w' → ∀ c ∈ n.visited, A.node w' sc c :=
    fun hw c hc => A.node_mono hw (A.node_visited hn hc)
  have hpart : ∀ {w'}, w ≤ w' → ∀ c ∈ n.visited, A.Joint A.values w' (sub c sc) (sub' c sc) :=
    fun hw c hc => hsub _ sc c (hparts hw c hc)
  cases n with
  | hole =>
    have hrecorded : A.Joint (fun _ _ => True) w (emit .emptyPlace) (emit .emptyPlace) :=
      fun _ _ hs => .ok le_rfl (A.recorded_hole hn hs) trivial
    apply joint_bind hrecorded
    intro _ _ _ _
    exact joint_ordinary rfl
  | bare kind =>
    have hrecorded : A.Joint (fun _ _ => True) w (emit (.unknownNode kind))
        (emit (.unknownNode kind)) :=
      fun _ _ hs => .ok le_rfl (A.recorded_bare hn hs) trivial
    apply joint_bind hrecorded
    intro w₁ hw₁ _ _
    exact joint_pure (Value.all_of_parts rfl (A.leaf_mono hw₁ (A.unknown hn)))
  | program nodes =>
    apply joint_bind (joint_emit rfl)
    intro w₁ hw₁ _ _
    apply joint_bind (joint_emit rfl)
    intro w₂ hw₂ _ _
    exact joint_programFrom hsub (hparts (hw₁.trans hw₂))
      (Value.all_of_isOrdinary (A.indifferent _) rfl) 1
  | block nodes =>
    apply joint_bind (joint_emit rfl)
    intro w₁ hw₁ _ _
    exact joint_blockFrom hsub (hparts hw₁) (Value.all_of_isOrdinary (A.indifferent _) rfl)
  | letBind name value =>
    have howns : A.owns w sc name := A.owns_target? hn rfl
    apply joint_onValue (hpart le_rfl value List.mem_cons_self)
    intro w₁ hw₁ v hv
    apply joint_bind (joint_bindName (A.owns_mono hw₁ howns) hv)
    intro _ _ _ _
    apply joint_bind (joint_emit rfl)
    intro _ _ _ _
    exact joint_ordinary rfl
  | returning value =>
    apply joint_onValue (hpart le_rfl value List.mem_cons_self)
    intro w₁ hw₁ v hv
    exact joint_pure ((Value.all_returned (A.indifferent _)).mpr hv)
  | expression inner => exact hpart le_rfl inner List.mem_cons_self
  | grouped inner => exact hpart le_rfl inner List.mem_cons_self
  | identifier name =>
    apply joint_bind (joint_resolve? hn)
    intro w₁ hw₁ found hfound
    cases found with
    | some v => exact joint_pure (hfound v rfl)
    | none =>
      apply joint_bind (joint_emit rfl)
      intro _ _ _ _
      exact joint_ordinary rfl
  | integer value => exact joint_pure (Value.all_of_parts rfl (A.integer hn))
  | text value => exact joint_ordinary rfl
  | boolean value => exact joint_ordinary rfl
  | prefixOp operator right =>
    apply joint_bind (joint_emit rfl)
    intro w₁ hw₁ _ _
    apply joint_onValue (hpart hw₁ right List.mem_cons_self)
    intro w₂ hw₂ v hv
    apply joint_typed
    intro r hr
    exact Value.all_of_isPlain (Value.isPlain_prefixValue? hr)
      (A.prefixed (A.node_mono (hw₁.trans hw₂) hn) hr)
  | infixOp left operator right =>
    apply joint_bind (joint_emit rfl)
    intro w₁ hw₁ _ _
    apply joint_onValue (hpart hw₁ left List.mem_cons_self)
    intro w₂ hw₂ v hv
    apply joint_onValue (hpart (hw₁.trans hw₂) right (List.mem_cons_of_mem _ List.mem_cons_self))
    intro w₃ hw₃ u hu
    apply joint_typed
    intro r hr
    exact Value.all_of_isPlain (Value.isPlain_infixValue? hr)
      (A.infixed (A.node_mono ((hw₁.trans hw₂).trans hw₃) hn) hr)
  | conditional condition consequence alternative => exact joint_conditional hsub hn
  | function parameters body => exact joint_snapshot hn
  | call callee arguments =>
    apply joint_call hsub hn
    intro w' hw v vs hv hvs
    exact joint_applyValue hsub hv hvs fun text _ _ => hcall callee arguments rfl w' hw text
  | array elements =>
    apply joint_onValues (joint_valuesOf hsub (hparts le_rfl))
    intro w₁ hw₁ vs hvs
    exact joint_pure ((Value.all_array (A.indifferent _)).mpr hvs)
  | index collection position =>
    apply joint_onValue (hpart le_rfl collection List.mem_cons_self)
    intro w₁ hw₁ v hv
    apply joint_onValue (hpart hw₁ position (List.mem_cons_of_mem _ List.mem_cons_self))
    intro w₂ hw₂ u _
    exact joint_indexValue (values_mono hw₂ hv)
  | mapping entries =>
    apply joint_bind (joint_emit rfl)
    intro w₁ hw₁ _ _
    apply joint_entriesFrom hsub
    · intro p hp
      constructor
      · exact hparts hw₁ p.1 (List.mem_append_left _ (List.mem_map_of_mem hp))
      · exact hparts hw₁ p.2 (List.mem_append_right _ (List.mem_map_of_mem hp))
    · exact Value.all_of_parts rfl A.emptyMap

end Accord

end Eval

end MonkeyLang

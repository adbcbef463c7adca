import MonkeyLang.Proofs.Eval.Accord

/-!
One node evaluated twice, in one scope, by two evaluations that go together: they give the same
value, and every function in it has a property. What the two states have in common is up to a world,
which grows as frames are added to the heaps. The world also says which nodes belong in which scope,
so that a property of a function can speak of the place of the function in a program. Such
evaluations are in accord, with a property that speaks of functions only.
-/
namespace MonkeyLang

namespace Value

/-- Every function in the value, at any depth, has the property. -/
def AllFns (P : Closure → Prop) (v : Value) : Prop := ∀ c ∈ v.closures, P c

def OwnFn (P : Closure → Prop) : Value → Prop
  | function parameters body scope => P ⟨parameters, body, scope⟩
  | _ => True

section AllFns

variable {P Q : Closure → Prop} {v : Value}

theorem AllFns.mono (h : v.AllFns P) (himp : ∀ c, P c → Q c) : v.AllFns Q :=
  fun c hc => himp c (h c hc)

theorem OwnFn.mono (h : v.OwnFn P) (himp : ∀ c, P c → Q c) : v.OwnFn Q := by
  cases v with
  | function parameters body scope => exact himp _ h
  | _ => trivial

theorem ownFn_of_isPlain (h : v.isPlain) : v.OwnFn P := by
  cases v with
  | function parameters body scope => cases h
  | _ => trivial

theorem indifferent_ownFn (P : Closure → Prop) : Indifferent (OwnFn P) where
  ordinary v h := by
    cases v with
    | function parameters body scope => cases h
    | _ => trivial
  array _ := trivial
  returned _ := trivial

mutual

theorem allFns_iff_all : ∀ v : Value, v.AllFns P ↔ v.All (OwnFn P)
  | .array xs => (forall_closuresOfAll_iff xs).trans (all_array (indifferent_ownFn P)).symm
  | .map es => (forall_closuresOfEntries_iff es).trans (all_map.trans (and_iff_right trivial)).symm
  | .function _ _ _ =>
    ⟨fun h => all_of_parts rfl (h _ List.mem_cons_self),
      fun h => List.forall_mem_singleton.mpr h.here⟩
  | .returned v => (allFns_iff_all v).trans (all_returned (indifferent_ownFn P)).symm
  | .integer _ | .boolean _ | .null | .string _ | .builtin _ | .error _ | .letMark | .emptyMark
  | .blank => ⟨fun _ => all_of_isPlain rfl trivial, fun _ => List.forall_mem_nil _⟩

theorem forall_closuresOfAll_iff : ∀ xs : List Value,
    (∀ c ∈ closuresOfAll xs, P c) ↔ ∀ x ∈ xs, x.All (OwnFn P)
  | [] => by simp [closuresOfAll]
  | x :: xs => by
    rw [closuresOfAll, List.forall_mem_append, List.forall_mem_cons]
    exact and_congr (allFns_iff_all x) (forall_closuresOfAll_iff xs)

theorem forall_closuresOfEntries_iff : ∀ es : Entries,
    (∀ c ∈ closuresOfEntries es, P c) ↔ ∀ e ∈ es, e.2.1.All (OwnFn P) ∧ e.2.2.All (OwnFn P)
  | [] => by simp [closuresOfEntries]
  | (_, k, v) :: es => by
    rw [closuresOfEntries, List.forall_mem_append, List.forall_mem_append, List.forall_mem_cons]
    exact and_congr (and_congr (allFns_iff_all k) (allFns_iff_all v))
      (forall_closuresOfEntries_iff es)

end

theorem allFns_of_isPlain (h : v.isPlain) : v.AllFns P :=
  v.allFns_iff_all.mpr (all_of_isPlain h (ownFn_of_isPlain h))

end AllFns

end Value

namespace Eval

open HasMachine

structure Unison (W σ σ' : Type) [Preorder W] [HasMachine σ] [HasMachine σ'] where
  state : W → σ → σ' → Prop
  fn : W → Closure → Prop
  node : W → Scope → Node → Prop
  owns : W → Scope → String → Prop
  fn_mono : ∀ {w w' c}, w ≤ w' → fn w c → fn w' c
  node_mono : ∀ {w w' sc n}, w ≤ w' → node w sc n → node w' sc n
  owns_mono : ∀ {w w' sc name}, w ≤ w' → owns w sc name → owns w' sc name
  node_parts : ∀ {w sc n c}, node w sc n → c ∈ n.parts → node w sc c
  owns_target? : ∀ {w sc n name}, node w sc n → name ∈ n.target? → owns w sc name
  size_eq : ∀ {w s s'}, state w s s' →
    (machine s).heap.size = (machine s').heap.size
  recorded : ∀ {w s s'} (event : Event), state w s s' →
    state w (update (Machine.recorded event) s) (update (Machine.recorded event) s')
  counted : ∀ {w s s'} (k : Summary), state w s s' →
    state w (update (Machine.counted k) s) (update (Machine.counted k) s')
  resolved : ∀ {w s s' sc name}, state w s s' → node w sc (.identifier name) →
    (machine s).heap.resolve? sc name = (machine s').heap.resolve? sc name ∧
      ∀ v ∈ (machine s).heap.resolve? sc name, v.AllFns (fn w)
  bound : ∀ {w s s' sc name v}, state w s s' → owns w sc name → v.AllFns (fn w) →
    state w (update (Machine.bound sc name v) s) (update (Machine.bound sc name v) s')
  snapshot : ∀ {w s s' sc parameters body}, state w s s' →
    node w sc (.function parameters body) →
    ∃ w', w ≤ w' ∧
      state w' (update (Machine.placed ((machine s).heap.snapshot sc).2) s)
        (update (Machine.placed ((machine s').heap.snapshot sc).2) s') ∧
      fn w' ⟨parameters, body, ((machine s).heap.snapshot sc).1⟩
  enclosed : ∀ {w s s' c}, state w s s' → fn w c →
    ∃ w', w ≤ w' ∧
      state w' (update (Machine.placed ((machine s).heap.enclosed c.scope).2) s)
        (update (Machine.placed ((machine s').heap.enclosed c.scope).2) s') ∧
      node w' ((machine s).heap.enclosed c.scope).1 c.body ∧
      ∀ name ∈ c.parameters, owns w' ((machine s).heap.enclosed c.scope).1 name

namespace Unison

variable {W σ σ' : Type} [Preorder W] [HasMachine σ] [HasMachine σ'] (U : Unison W σ σ')
  {α : Type}

def values (w : W) (v : Value) : Prop := v.AllFns (U.fn w)

/-- One result with two states, in a world grown from the given one. -/
inductive Ends (good : W → α → Prop) (w : W) :
    EStateM.Result Halt σ α → EStateM.Result Halt σ' α → Prop
  | ok {w' : W} {a : α} {s : σ} {s' : σ'} (hw : w ≤ w') (hs : U.state w' s s') (h : good w' a) :
      Ends good w (.ok a s) (.ok a s')
  | halt {w' : W} {halt : Halt} {s : σ} {s' : σ'} (hw : w ≤ w') (hs : U.state w' s s') :
      Ends good w (.error halt s) (.error halt s')

def Together (good : W → α → Prop) (w : W) (x : EvalOver σ α) (y : EvalOver σ' α) : Prop :=
  ∀ s s', U.state w s s' → U.Ends good w (x s) (y s')

def SubTogether (U : Unison W σ σ') (sub : SubOver σ) (sub' : SubOver σ') : Prop :=
  ∀ w sc n, U.node w sc n → U.Together U.values w (sub n sc) (sub' n sc)

/-! ### The accord -/

def accord : Accord W σ σ' where
  state := U.state
  leaf w := Value.OwnFn (U.fn w)
  node := U.node
  owns := U.owns
  lenient := False
  leaf_mono hw h := h.mono fun _ => U.fn_mono hw
  node_mono := U.node_mono
  owns_mono := U.owns_mono
  node_visited h hc := U.node_parts h (Node.mem_parts_of_mem_visited hc)
  owns_target? := U.owns_target?
  indifferent w := Value.indifferent_ownFn (U.fn w)
  integer _ := trivial
  prefixed _ hr := Value.ownFn_of_isPlain (Value.isPlain_prefixValue? hr)
  infixed _ hr := Value.ownFn_of_isPlain (Value.isPlain_infixValue? hr)
  emptyMap := trivial
  inserted _ _ _ := trivial
  unknown _ := trivial
  size_eq := U.size_eq
  recorded _ := U.recorded _
  recorded_hole _ := U.recorded _
  recorded_bare _ := U.recorded _
  counted := U.counted
  resolved hs hname := by
    obtain ⟨heq, hfound⟩ := U.resolved hs hname
    exact ⟨heq, fun v hv => v.allFns_iff_all.mp (hfound v hv)⟩
  bound hs hname hv := U.bound hs hname (Value.allFns_iff_all _ |>.mpr hv)
  snapshot := U.snapshot
  enclosed hs hfn := U.enclosed hs hfn

variable {U} {good : W → α → Prop} {w : W}

theorem accord_values : U.accord.values = U.values :=
  funext₂ fun _ v => propext v.allFns_iff_all.symm

theorem accord_ends_iff {r : EStateM.Result Halt σ α} {r' : EStateM.Result Halt σ' α} :
    U.accord.Ends good w r r' ↔ U.Ends good w r r' := by
  constructor
  · rintro (⟨hw, hs, h⟩ | ⟨hw, hs⟩ | h)
    · exact .ok hw hs h
    · exact .halt hw hs
    · exact h.elim
  · rintro (⟨hw, hs, h⟩ | ⟨hw, hs⟩)
    · exact .ok hw hs h
    · exact .halt hw hs

theorem accord_joint_iff {x : EvalOver σ α} {y : EvalOver σ' α} :
    U.accord.Joint good w x y ↔ U.Together good w x y :=
  forall₃_congr fun _ _ _ => accord_ends_iff

/-! ### Forms -/

theorem together_throw (halt : Halt) : U.Together good w (throw halt) (throw halt) :=
  fun _ _ hs => .halt le_rfl hs

theorem accord_subJoint {sub : SubOver σ} {sub' : SubOver σ'} (hsub : U.SubTogether sub sub') :
    U.accord.SubJoint sub sub' := by
  intro w sc n hn
  rw [accord_values]
  exact accord_joint_iff.mpr (hsub w sc n hn)

theorem together_applyValue [Text.Encoding] {sub : SubOver σ} {sub' : SubOver σ'}
    (hsub : U.SubTogether sub sub') {callee : Value} {arguments : List Value}
    (hvalues : ∀ v ∈ callee :: arguments, U.values w v) :
    U.Together U.values w (applyValue sub callee arguments)
      (applyValue sub' callee arguments) := by
  have hall : ∀ v ∈ callee :: arguments, U.accord.values w v :=
    fun v hv => v.allFns_iff_all.mp (hvalues v hv)
  obtain ⟨hcallee, harguments⟩ := List.forall_mem_cons.mp hall
  rw [← accord_joint_iff, ← accord_values]
  exact Accord.joint_applyValue (accord_subJoint hsub) hcallee harguments fun _ _ _ => trivial

theorem together_evalForm [Text.Encoding] {sub : SubOver σ} {sub' : SubOver σ'}
    (hsub : U.SubTogether sub sub') {sc : Scope} {n : Node} (hn : U.node w sc n) :
    U.Together U.values w (evalForm sub sc n) (evalForm sub' sc n) := by
  rw [← accord_joint_iff, ← accord_values]
  exact Accord.joint_evalForm (accord_subJoint hsub) hn fun _ _ _ _ _ _ => trivial

theorem subTogether_evalNode [Text.Encoding] (U : Unison W Machine Machine) (depth : Nat) :
    U.SubTogether (evalNode depth) (evalNode depth) := by
  induction depth with
  | zero => exact fun _ _ _ _ => together_throw .tooDeep
  | succ depth ih => exact fun _ _ _ hn => together_evalForm ih hn

end Unison

end Eval

end MonkeyLang

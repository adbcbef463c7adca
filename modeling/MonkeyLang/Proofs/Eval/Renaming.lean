import MonkeyLang.Proofs.Eval.Link
import MonkeyLang.Proofs.Syntax.Same
import MonkeyLang.Proofs.Value.Heap

/-!
Heaps that differ in the places of their frames. Frames of two heaps stand for each other if they
bind the same names to values that are built alike, where functions have the same bodies up to
parentheses and keep scopes of frames that stand for each other. Nodes that are the same are then
evaluated alike: the values print alike and the same is counted, unless one of the evaluations is
nested too deeply.
-/
namespace MonkeyLang

/-- Frames of two heaps that stand for each other, each for at most one. -/
structure Renaming where
  rel : Nat → Nat → Prop
  left_unique : ∀ {i i' j}, rel i j → rel i' j → i = i'
  right_unique : ∀ {i j j'}, rel i j → rel i j' → j = j'

namespace Renaming

instance : Preorder Renaming where
  le ρ τ := ∀ i j, ρ.rel i j → τ.rel i j
  le_refl _ _ _ h := h
  le_trans _ _ _ h h' i j hij := h' i j (h i j hij)

variable {ρ τ : Renaming} {h h' : Heap} {sc sc' : Scope} {v v' : Value}

def scopes (ρ : Renaming) (sc sc' : Scope) : Prop :=
  List.Forall₂ ρ.rel (Heap.chain sc) (Heap.chain sc') ∧ sc.builtins = sc'.builtins

structure closures (ρ : Renaming) (c c' : Closure) : Prop where
  parameters : c.parameters = c'.parameters
  body : c.body.Same c'.body
  scope : ρ.scopes c.scope c'.scope

theorem scopes_mono (hle : ρ ≤ τ) (hsc : ρ.scopes sc sc') : τ.scopes sc sc' :=
  ⟨hsc.1.imp hle, hsc.2⟩

theorem closures_mono (hle : ρ ≤ τ) {c c' : Closure} (hc : ρ.closures c c') : τ.closures c c' :=
  ⟨hc.parameters, hc.body, scopes_mono hle hc.scope⟩

/-- The frames of two heaps that stand for each other are alike. Places without a frame are equally
far behind the last one. -/
structure Heaps (ρ : Renaming) (h h' : Heap) : Prop where
  inside : ∀ {i j}, ρ.rel i j → (i < h.size ∧ j < h'.size) ∨
    (h.size ≤ i ∧ i + h'.size = j + h.size)
  frames : ∀ {i j}, ρ.rel i j → (h.frame i).Matches ρ.closures (h'.frame j)

theorem Heaps.find? (hh : ρ.Heaps h h') (hsc : ρ.scopes sc sc') (name : String) :
    Option.Rel (Value.Matches ρ.closures) (h.find? sc name) (h'.find? sc' name) := by
  have hchain := hsc.1
  unfold Heap.find?
  generalize Heap.chain sc = is, Heap.chain sc' = js at hchain
  induction hchain with
  | nil => exact .none
  | @cons i j _ _ hij _ ih =>
    rw [List.findSome?_cons, List.findSome?_cons]
    have hget := (hh.frames hij).get? name
    generalize (h.frame i).get? name = x, (h'.frame j).get? name = y at hget
    cases hget with
    | none => exact ih
    | some hv => exact .some hv

theorem Heaps.resolve? (hh : ρ.Heaps h h') (hsc : ρ.scopes sc sc') (name : String) :
    Option.Rel (Value.Matches ρ.closures) (h.resolve? sc name) (h'.resolve? sc' name) := by
  have hfound := hh.find? hsc name
  unfold Heap.resolve? Scope.builtin?
  rw [hsc.2]
  generalize h.find? sc name = x, h'.find? sc' name = y at hfound
  cases hfound with
  | none =>
    cases sc'.builtins.find? (·.name = name) with
    | none => exact .none
    | some primitive => exact .some (.builtin primitive)
  | some hv => exact .some hv

theorem Heaps.set (hh : ρ.Heaps h h') (hsc : ρ.scopes sc sc') (name : String)
    (hv : v.Matches ρ.closures v') : ρ.Heaps (h.set sc name v) (h'.set sc' name v') where
  inside hij := by
    rw [Heap.size_set, Heap.size_set]
    exact hh.inside hij
  frames {i j} hij := by
    have hself : ρ.rel sc.frame sc'.frame := (List.forall₂_cons.mp hsc.1).1
    have hframes := hh.frames hij
    by_cases hi : i = sc.frame
    · subst hi
      obtain rfl := ρ.right_unique hij hself
      rcases hh.inside hself with ⟨hlt, hlt'⟩ | ⟨hle, heq⟩
      · rw [Heap.frame_set_self name v hlt, Heap.frame_set_self name v' hlt']
        exact hframes.set name hv
      · -- There is no such frame, so nothing is bound.
        rw [Heap.frame_of_size_le (by rw [Heap.size_set]; omega),
          Heap.frame_of_size_le (by rw [Heap.size_set]; omega)]
        exact .nil
    · have hj : j ≠ sc'.frame := by
        rintro rfl
        exact hi (ρ.left_unique hij hself)
      rw [Heap.frame_set_of_ne name v hi, Heap.frame_set_of_ne name v' hj]
      exact hframes

def Heaps.grown (hh : ρ.Heaps h h') : Renaming where
  rel i j := ρ.rel i j ∨ (i = h.size ∧ j = h'.size)
  left_unique {i i' j} hi hi' := by
    rcases hi with hi | ⟨rfl, rfl⟩ <;> rcases hi' with hi' | ⟨rfl, hj⟩
    · exact ρ.left_unique hi hi'
    · have := hh.inside hi
      omega
    · have := hh.inside hi'
      omega
    · rfl
  right_unique {i j j'} hj hj' := by
    rcases hj with hj | ⟨rfl, rfl⟩ <;> rcases hj' with hj' | ⟨hi, rfl⟩
    · exact ρ.right_unique hj hj'
    · have := hh.inside hj
      omega
    · have := hh.inside hj'
      omega
    · rfl

theorem Heaps.le_grown (hh : ρ.Heaps h h') : ρ ≤ hh.grown := fun _ _ hij => .inl hij

theorem Heaps.adds (hh : ρ.Heaps h h') {f f' : Frame} (hf : f.Matches ρ.closures f')
    {g g' : Heap} (ha : h.Adds f g) (ha' : h'.Adds f' g') : hh.grown.Heaps g g' := by
  have hmono : ∀ {g g' : Frame}, g.Matches ρ.closures g' → g.Matches hh.grown.closures g' :=
    fun hg => hg.mono fun _ _ => closures_mono hh.le_grown
  refine ⟨fun {i j} hij => ?_, fun {i j} hij => ?_⟩
  · rw [ha.size, ha'.size]
    rcases hij with hij | ⟨rfl, rfl⟩
    · have := hh.inside hij
      omega
    · omega
  · by_cases hi : i = h.size
    · subst hi
      obtain rfl := hh.grown.right_unique hij (.inr ⟨rfl, rfl⟩)
      rw [ha.frame_self, ha'.frame_self]
      exact hmono hf
    · have hold : ρ.rel i j := hij.resolve_right fun heq => hi heq.1
      rcases hh.inside hold with ⟨hlt, hlt'⟩ | ⟨hle, heq⟩
      · rw [ha.frame_of_lt hlt, ha'.frame_of_lt hlt']
        exact hmono (hh.frames hold)
      · rw [Heap.frame_of_size_le (by rw [ha.size]; omega),
          Heap.frame_of_size_le (by rw [ha'.size]; omega)]
        exact .nil

/-! ### Frames in their own places -/

def on (places : Nat → Prop) : Renaming where
  rel i j := i = j ∧ places i
  left_unique hi hi' := hi.1.trans hi'.1.symm
  right_unique hj hj' := hj.1.symm.trans hj'.1

variable {places : Nat → Prop}

theorem scopes_on (h : ∀ i ∈ Heap.chain sc, places i) : (on places).scopes sc sc :=
  ⟨List.forall₂_same.mpr fun i hi => ⟨rfl, h i hi⟩, rfl⟩

theorem closures_on {c : Closure} (h : ∀ i ∈ Heap.chain c.scope, places i) :
    (on places).closures c c :=
  ⟨rfl, .refl c.body, scopes_on h⟩

theorem heaps_on (hinside : ∀ i, places i →
      (i < h.size ∧ i < h'.size) ∨ h.size = h'.size)
    (hframes : ∀ i, places i → h.frame i = h'.frame i)
    (hclosed : ∀ i, places i → ∀ b ∈ h.frame i, ∀ c ∈ b.2.closures,
      ∀ k ∈ Heap.chain c.scope, places k) : (on places).Heaps h h' where
  inside {i j} hij := by
    obtain ⟨rfl, hi⟩ := hij
    have := hinside i hi
    omega
  frames {i j} hij := by
    obtain ⟨rfl, hi⟩ := hij
    rw [← hframes i hi]
    exact Frame.matches_self fun b hb c hc => closures_on (hclosed i hi b hb c hc)

/-! ### Printing -/

theorem Heaps.display_eq (hh : ρ.Heaps h h') (hsc : ρ.scopes sc sc') :
    sc.display h = sc'.display h' := by
  obtain ⟨hframe, houters⟩ := List.forall₂_cons.mp hsc.1
  unfold Scope.display Scope.depth
  rw [(hh.frames hframe).names, houters.length_eq]

theorem Heaps.dump?_eq (hh : ρ.Heaps h h') (hv : v.Matches ρ.closures v') :
    v.dump? h = v'.dump? h' := by
  have hm : Value.PassesUp ρ.closures fun v v' => v.dump? h = v'.dump? h' :=
    { plain := fun v hplain => by cases v <;> first | rfl | cases hplain
      array := fun {xs ys} hs => by
        have hall : Value.dumpAll? h xs = Value.dumpAll? h' ys := by
          induction hs with
          | nil => rfl
          | cons heq _ ih => rw [Value.dumpAll?, Value.dumpAll?, heq, ih]
        rw [Value.dump?, Value.dump?, hall]
      map := fun {es es'} hs => by
        have hall : Value.dumpEntries? h es = Value.dumpEntries? h' es' := by
          induction hs with
          | nil => rfl
          | cons heq _ ih => rw [Value.dumpEntries?, Value.dumpEntries?, heq.2.1, heq.2.2, ih]
        rw [Value.dump?, Value.dump?, hall]
      function := fun {c c'} hc => by
        rw [Closure.value, Closure.value, Value.dump?, Value.dump?, hc.parameters,
          hc.body.source_eq, hh.display_eq hc.scope]
      returned := fun heq => by rw [Value.dump?, Value.dump?, heq] }
  exact Value.Matches.induct hm v v' hv

end Renaming

def Value.message? : Value → Option String
  | error cause => some cause.message
  | _ => none

structure ShownAlike (h h' : Heap) (v v' : Value) : Prop where
  dump? : v.dump? h = v'.dump? h'
  message? : v.message? = v'.message?

theorem Renaming.Heaps.shownAlike {ρ : Renaming} {h h' : Heap} {v v' : Value} (hh : ρ.Heaps h h')
    (hv : v.Matches ρ.closures v') : ShownAlike h h' v v' where
  dump? := hh.dump?_eq hv
  message? := by cases hv <;> rfl

namespace Eval

open HasMachine

def TooDeep {α : Type} (r : EStateM.Result Halt Machine α) : Prop := ∃ m, r = .error .tooDeep m

theorem not_tooDeep_of_ok {α : Type} {r : EStateM.Result Halt Machine α} {a : α} {m : Machine}
    (h : r = .ok a m) : ¬ TooDeep r := by
  rintro ⟨m', hm'⟩
  cases h.symm.trans hm'

instance {α : Type} : (r : EStateM.Result Halt Machine α) → Decidable (TooDeep r)
  | .ok _ _ => .isFalse (not_tooDeep_of_ok rfl)
  | .error .tooDeep m => .isTrue ⟨m, rfl⟩
  | .error .untyped _ | .error (.unencodable _) _ => .isFalse fun ⟨_, h⟩ => by cases h

/-- Evaluations over heaps with frames in other places, which have counted the same since they had
counted `base` and `base'`. -/
def renamed (base base' : Summary) : Link Renaming Machine Machine where
  state ρ m m' := ρ.Heaps m.heap m'.heap ∧
    ∃ k, m.summary = base.plus k ∧ m'.summary = base'.plus k
  scopes := Renaming.scopes
  fn := Renaming.closures
  nodes _ := Node.Same
  owns _ _ := True
  bodies := Node.Same
  lenient := True
  scopes_mono hw hsc := Renaming.scopes_mono hw hsc
  fn_mono hw hc := Renaming.closures_mono hw hc
  parameters_eq h := h.parameters
  recorded _ _ hs := hs
  counted {ρ m m'} k hs := by
    obtain ⟨hheaps, l, hl, hl'⟩ := hs
    refine ⟨hheaps, l.plus k, ?_, ?_⟩
    · simp only [Machine.counted, update, hl, Summary.plus, Nat.add_assoc]
    · simp only [Machine.counted, update, hl', Summary.plus, Nat.add_assoc]
  resolved name hs hsc := hs.1.resolve? hsc name
  bound hs hsc _ hv := ⟨hs.1.set hsc _ hv, hs.2⟩
  snapshot {_ _ _ sc sc' _ _} parameters hs hsc hbody := by
    obtain ⟨hframe, houters⟩ := List.forall₂_cons.mp hsc.1
    have hheaps := hs.1.adds (hs.1.frames hframe) (Heap.adds_snapshot sc) (Heap.adds_snapshot sc')
    refine ⟨hs.1.grown, hs.1.le_grown, ⟨hheaps, hs.2⟩, rfl, hbody, ?_⟩
    exact ⟨.cons (.inr ⟨rfl, rfl⟩) (houters.imp hs.1.le_grown), hsc.2⟩
  enclosed {_ _ _ c c'} hs hfn := by
    have hheaps := hs.1.adds .nil (Heap.adds_enclosed c.scope) (Heap.adds_enclosed c'.scope)
    refine ⟨hs.1.grown, hs.1.le_grown, ⟨hheaps, hs.2⟩, ?_, hfn.body, fun _ => trivial⟩
    exact ⟨.cons (.inr ⟨rfl, rfl⟩) (hfn.scope.1.imp hs.1.le_grown), hfn.scope.2⟩

/-- Parentheses cost a level of nesting on one side only, so the levels of the two may differ. -/
theorem subRelated_renamed [Text.Encoding] (base base' : Summary) (depth depth' : Nat) :
    (renamed base base').SubRelated (evalNode depth) (evalNode depth') := by
  induction depth generalizing depth' with
  | zero => exact fun _ _ _ _ _ _ _ _ _ _ => .left trivial
  | succ depth ih =>
    induction depth' with
    | zero => exact fun _ _ _ _ _ _ _ _ _ _ => .right trivial
    | succ depth' ih' =>
      intro ρ sc sc' n n' hsc hn
      have hsame : n.Same n' := hn
      cases hsame with
      | left h => exact ih (depth' + 1) ρ sc sc' _ n' hsc h
      | right h => exact ih' ρ sc sc' n _ hsc h
      | form halike => exact Link.related_evalForm (ih depth') hsc halike

end Eval

end MonkeyLang

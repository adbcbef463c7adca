import MonkeyLang.Proofs.Eval.Safety
import MonkeyLang.Proofs.Value.Displayed

/-!
Values that are displayed can be read back. The text of data gives the data again wherever it is
run, if the levels of its literal fit into the limit; and the text of a function that came up in a
session of parsed programs is a function literal with its parameters and its body.
-/
namespace MonkeyLang

namespace Eval

/-! ### Evaluations that need some levels -/

variable {α β : Type} {room room' : Prop} {a : α} {b : β}

/-- The evaluation gives the value if it has the room, and halts at its limit if it has not. It
writes nothing. -/
def Yields (room : Prop) (a : α) (x : Eval α) : Prop :=
  ∀ m, ∃ m', m'.heap = m.heap ∧ (room → x m = .ok a m') ∧ (¬ room → x m = .error .tooDeep m')

theorem yields_pure (a : α) : Yields True a (pure a) :=
  fun m => ⟨m, rfl, fun _ => rfl, fun h => absurd trivial h⟩

theorem yields_emit (event : Event) : Yields True () (emit event) :=
  fun m => ⟨m.recorded event, rfl, fun _ => rfl, fun h => absurd trivial h⟩

theorem yields_countStatement : Yields True () countStatement :=
  fun m => ⟨{ m with summary.statements := m.summary.statements + 1 }, rfl, fun _ => rfl,
    fun h => absurd trivial h⟩

theorem yields_typed {found : Option α} (h : found = some a) : Yields True a (typed found) := by
  subst h
  exact yields_pure a

theorem Yields.congr {x : Eval α} (h : Yields room a x) (hroom : room ↔ room') :
    Yields room' a x := by
  rwa [← propext hroom]

theorem Yields.bind {x : Eval α} {f : α → Eval β} (hx : Yields room a x)
    (hf : Yields room' b (f a)) : Yields (room ∧ room') b (x >>= f) := by
  intro m
  change ∃ m', _ ∧ (_ → EStateM.bind x f m = _) ∧ (_ → EStateM.bind x f m = _)
  unfold EStateM.bind
  obtain ⟨m₁, hheap₁, hgives, hhalts⟩ := hx m
  by_cases hroom : room
  · obtain ⟨m₂, hheap₂, hgives₂, hhalts₂⟩ := hf m₁
    rw [hgives hroom]
    exact ⟨m₂, hheap₂.trans hheap₁, fun h => hgives₂ h.2, fun h => hhalts₂ fun h' => h ⟨hroom, h'⟩⟩
  · rw [hhalts hroom]
    exact ⟨m₁, hheap₁, fun h => absurd h.1 hroom, fun _ => rfl⟩

theorem Yields.after {x : Eval α} {f : α → Eval β} (hf : Yields room b (f a))
    (hx : Yields True a x) : Yields room b (x >>= f) :=
  (hx.bind hf).congr (Iff.of_eq (true_and room))

theorem Yields.onValue {x : Eval Value} {f : Value → Eval Value} {v u : Value}
    (hx : Yields room v x) (hgoesOn : v.unwinds = false) (hf : Yields room' u (f v)) :
    Yields (room ∧ room') u (onValue x f) := by
  refine hx.bind ?_
  rw [hgoesOn]
  exact hf

theorem yields_evalNode [Text.Encoding] {levels : Nat} {v : Value} {n : Node} {scope : Scope}
    (h : ∀ depth, Yields (levels ≤ depth) v (evalForm (evalNode depth) scope n)) (depth : Nat) :
    Yields (levels + 1 ≤ depth) v (evalNode depth n scope) := by
  cases depth with
  | zero => exact fun m => ⟨m, rfl, fun h => by omega, fun _ => rfl⟩
  | succ depth => exact (h depth).congr (by omega)

theorem yields_leaf [Text.Encoding] {v : Value} {n : Node} {scope : Scope}
    (h : ∀ depth, Yields True v (evalForm (evalNode depth) scope n)) (depth : Nat) :
    Yields (1 ≤ depth) v (evalNode depth n scope) :=
  yields_evalNode (fun depth => (h depth).congr (iff_of_true trivial (Nat.zero_le depth))) depth

end Eval

/-! ### Literals of data -/

open Eval

namespace Value

variable {scope : Scope} {depth : Nat}

theorem Data.unwinds {v : Value} (h : v.Data) : v.unwinds = false := by
  cases h <;> rfl

variable [Text.Encoding]

def GivenBack (scope : Scope) (v : Value) : Prop :=
  ∀ depth, Yields (v.levels ≤ depth) v (evalNode depth v.literal scope)

theorem givenBack_integer {value : Int} (hlow : -Lexer.maxInteger ≤ value)
    (hhigh : value ≤ Lexer.maxInteger) : GivenBack scope (.integer value) := by
  intro depth
  have hplain : ∀ (value : Int) depth, Yields (1 ≤ depth) (Value.integer value)
      (evalNode depth (.integer value) scope) :=
    fun value => yields_leaf fun _ => yields_pure (Value.integer value)
  rw [levels, literal]
  split
  · next hneg =>
    have hnegated : prefixValue? .minus (.integer (-value)) = some (.integer value) := by
      have hrange : Lexer.minInteger ≤ - -value ∧ - -value ≤ Lexer.maxInteger := by
        unfold Lexer.minInteger Lexer.maxInteger at *
        omega
      rw [prefixValue?, checked, if_pos hrange, neg_neg]
    refine yields_evalNode (fun depth => ?_) depth
    refine Yields.after ?_ (yields_emit _)
    refine ((hplain (-value) depth).onValue rfl (yields_typed hnegated)).congr ?_
    simp
  · exact hplain value depth

theorem yields_literals {elements : List Value} (hdata : ∀ v ∈ elements, v.Data)
    (h : ∀ v ∈ elements, v.GivenBack scope) :
    Yields (levelsAll elements ≤ depth) (.ok elements)
      (valuesOf (evalNode depth) scope (literals elements)) := by
  induction elements with
  | nil => exact (yields_pure _).congr (by simp [levelsAll])
  | cons v rest ih =>
    obtain ⟨hv, hrest⟩ := List.forall_mem_cons.mp h
    obtain ⟨hvData, hrestData⟩ := List.forall_mem_cons.mp hdata
    rw [literals, valuesOf, levelsAll]
    refine Yields.congr ((hv depth).bind ?_) Nat.max_le.symm
    rw [hvData.unwinds]
    refine Yields.congr ((ih hrestData hrest).bind ?_) (Iff.of_eq (and_true _))
    exact yields_pure _

theorem yields_literalEntries {entries : Entries} (found : Entries)
    (hkeyed : Entries.Keyed (found ++ entries)) (hdata : ∀ e ∈ entries, e.2.1.Data ∧ e.2.2.Data)
    (h : ∀ e ∈ entries, e.2.1.GivenBack scope ∧ e.2.2.GivenBack scope) :
    Yields (levelsEntries entries ≤ depth) (.map (found ++ entries))
      (entriesFrom (evalNode depth) scope found (literalEntries entries)) := by
  -- The entries found before only grow at their end, so they stand in front of those to come.
  induction entries generalizing found with
  | nil =>
    rw [List.append_nil]
    exact (yields_pure _).congr (by simp [levelsEntries])
  | cons e rest ih =>
    obtain ⟨⟨hkey, hvalue⟩, hrest⟩ := List.forall_mem_cons.mp h
    obtain ⟨⟨hkeyData, hvalueData⟩, hrestData⟩ := List.forall_mem_cons.mp hdata
    have he : e ∈ found ++ e :: rest := List.mem_append_right _ List.mem_cons_self
    have hmapKey := hkeyed.key?_eq e he
    have husable := hkeyed.usable e he
    have hfresh : ∀ other ∈ found, other.1 ≠ e.1 := fun other hother =>
      (List.pairwise_append.mp hkeyed.distinct).2.2 other hother e List.mem_cons_self
    have hgoesOn : Yields (levelsEntries rest ≤ depth) (.map (found ++ e :: rest))
        (entriesFrom (evalNode depth) scope (found.insert e.1 e.2) (literalEntries rest)) := by
      rw [List.append_cons] at hkeyed
      rw [Entries.insert_of_fresh hfresh, List.append_cons]
      exact ih _ hkeyed hrestData hrest
    have hentry : Yields (e.2.2.levels ≤ depth ∧ levelsEntries rest ≤ depth)
        (.map (found ++ e :: rest)) (onValue (evalNode depth e.2.2.literal scope) fun value =>
          entriesFrom (evalNode depth) scope (found.insert e.1 (e.2.1, value))
            (literalEntries rest)) :=
      (hvalue depth).onValue hvalueData.unwinds hgoesOn
    have hroom : (e.2.1.levels ≤ depth ∧ e.2.2.levels ≤ depth ∧ levelsEntries rest ≤ depth) ↔
        levelsEntries (e :: rest) ≤ depth := by
      rw [levelsEntries, Nat.max_le, Nat.max_le, and_assoc]
    rw [literalEntries, entriesFrom]
    refine Yields.congr ((hkey depth).onValue hkeyData.unwinds ?_) hroom
    refine Yields.after ?_ (yields_typed hmapKey)
    generalize e.1 = key at husable hentry
    cases key with
    | unusable kind => cases husable
    | _ => exact hentry

theorem Data.givenBack {v : Value} (h : v.Data) (scope : Scope) : v.GivenBack scope := by
  induction h with
  | integer hlow hhigh => exact givenBack_integer hlow hhigh
  | boolean value => exact yields_leaf fun _ => yields_pure (Value.boolean value)
  | array helements ih =>
    rw [GivenBack, levels, literal]
    refine yields_evalNode fun depth => ?_
    rw [evalForm]
    refine ((yields_literals helements ih).bind ?_).congr (Iff.of_eq (and_true _))
    exact yields_pure _
  | map hkeyed _ hkeys hvalues ihkeys ihvalues =>
    rw [GivenBack, levels, literal]
    refine yields_evalNode fun depth => ?_
    refine Yields.after ?_ (yields_emit _)
    exact yields_literalEntries [] hkeyed (fun e he => ⟨hkeys e he, hvalues e he⟩)
      fun e he => ⟨ihkeys e he, ihvalues e he⟩

end Value

/-! ### Running displayed data -/

theorem yields_program [Text.Encoding] {v : Value} (h : v.Data) (scope : Scope) (depth : Nat) :
    Yields (v.levels + 2 ≤ depth) v (evalNode depth (.program [.expression v.literal]) scope) := by
  refine yields_evalNode (fun depth => ?_) depth
  refine Yields.after (Yields.after ?_ (yields_emit _)) (yields_emit _)
  rw [programFrom]
  refine Yields.after ?_ (yields_emit _)
  have hstatement : Yields (v.levels + 1 ≤ depth) v
      (evalNode depth (.expression v.literal) scope) :=
    yields_evalNode (fun depth => h.givenBack scope depth) depth
  refine (hstatement.bind (Yields.after ?_ yields_countStatement)).congr (Iff.of_eq (and_true _))
  -- No data ends a program before its last statement.
  cases h <;> exact yields_pure _

theorem evaluate_displayed [Text.Encoding] {v : Value} (h : v.Data) (depth : Nat) (scope : Scope)
    (heap : Heap) :
    let evaluation := evaluate depth (.program [.expression v.literal]) scope heap
    evaluation.heap = heap ∧
      (v.levels + 2 ≤ depth → evaluation.ending = .result v) ∧
      (depth < v.levels + 2 → evaluation.ending = .result (.error .tooDeep)) := by
  obtain ⟨m, hheap, hgives, hhalts⟩ := yields_program h scope depth { heap }
  unfold evaluate
  by_cases hroom : v.levels + 2 ≤ depth
  · rw [hgives hroom]
    refine ⟨hheap, fun _ => ?_, fun h => absurd hroom (Nat.not_le.mpr h)⟩
    cases h <;> rfl
  · rw [hhalts hroom]
    exact ⟨hheap, fun h => absurd h hroom, fun _ => rfl⟩

/-- The text of data is run to the same data, and so to the same dump, wherever it is run, and
changes nothing there, if the levels of the data and two more are within the limit; otherwise the
run ends with the error of the limit. The text of every function that is given, passed or bound in a
session of parsed programs, inside any value, is read without diagnostics as one function literal
with the same parameters and the same body up to parentheses. -/
theorem displayed_values_read_back [Text.Alphabet] [Text.Encoding] :
    (∀ v : Value, v.Data → ∃ text, v.inspect? = some text ∧
      ∀ (depth : Nat) (filename : String) (scope : Scope) (heap : Heap),
        let again := run depth text filename scope heap
        again.heap = heap ∧
          (v.levels + 2 ≤ depth → again.result = .ok (some v)) ∧
          (depth < v.levels + 2 →
            again.result = .error (.failed (.runtime EvalError.tooDeep.message filename)))) ∧
    ∀ {heap : Heap} {history : List Observation}, Recorded heap history →
      ∀ v, (∃ o ∈ history, o.Shows v) ∨ (∃ i, ∃ b ∈ heap.frame i, b.2 = v) →
      ∀ parameters body scope, Inside Value.parts v (.function parameters body scope) →
      ∃ text again, (Value.function parameters body scope).inspect? = some text ∧
        parse text = .ok
          { program := .program [.expression (.function parameters again)], diagnostics := [] } ∧
        again.erased = body.erased := by
  constructor
  · intro v h
    obtain ⟨text, htext, hparse⟩ := h.parse_inspect?
    refine ⟨text, htext, fun depth filename scope heap => ?_⟩
    have hclean : parseClean text filename = .ok (.program [.expression v.literal]) := by
      rw [parseClean, hparse]
      rfl
    obtain ⟨hheap, hgives, hhalts⟩ := evaluate_displayed h depth scope heap
    simp only [run, hclean]
    refine ⟨hheap, fun hroom => ?_, fun hroom => ?_⟩
    · rw [hgives hroom]
      cases h <;> rfl
    · rw [hhalts hroom]
      rfl
  · intro heap history h v hv parameters body scope hinside
    have hsound : (Node.function parameters body).Sound := h.safe hv _ hinside
    obtain ⟨text, htext, hparse⟩ := parse_inspect?_function scope hsound
    exact ⟨text, body.regrouped, htext, hparse, Node.erased_regrouped body⟩

theorem displayed_values_read_back_nested :
    (∃ v : Value, v.Data ∧ v.inspect? = some "\x7b-5: [true, 7], false: \x7b\x7d\x7d" ∧
      ∀ (filename : String) (scope : Scope) (heap : Heap),
        let text := "\x7b-5: [true, 7], false: \x7b\x7d\x7d"
        (run 5 text filename scope heap).result = .ok (some v) ∧
          (run 4 text filename scope heap).result =
            .error (.failed (.runtime EvalError.tooDeep.message filename))) ∧
    ∃ heap history parameters body scope again, Recorded heap history ∧
      (∃ o ∈ history, o.Shows (.function parameters body scope)) ∧
      parse "fn(x, y) \x7b return (x * y) \x7d" = .ok
        { program := .program [.expression (.function parameters again)], diagnostics := [] } ∧
      again.erased = body.erased := by
  constructor
  · let v : Value :=
      .map [(.integer (-5), .integer (-5), .array [.boolean true, .integer 7]),
        (.boolean false, .boolean false, .map [])]
    have hkey : (Value.integer (-5)).Data := .integer (by decide) (by decide)
    have hinteger : (Value.integer 7).Data := .integer (by decide) (by decide)
    have harray : (Value.array [.boolean true, .integer 7]).Data :=
      .array (by simp [Value.Data.boolean, hinteger])
    have hempty : (Value.map []).Data := .map Entries.keyed_nil (by simp) (by simp) (by simp)
    have hdata : v.Data := .map ⟨by simp [Value.key?], by simp [MapKey.isUsable], by simp⟩
      (by simp [Value.kind?]) (by simp [Value.Data.boolean, hkey]) (by simp [harray, hempty])
    obtain ⟨text, htext, hrun⟩ := displayed_values_read_back.1 v hdata
    have hinspect : v.inspect? = some "\x7b-5: [true, 7], false: \x7b\x7d\x7d" := by decide +kernel
    cases htext.symm.trans hinspect
    refine ⟨v, hdata, hinspect, fun filename scope heap => ⟨?_, ?_⟩⟩
    · exact (hrun 5 filename scope heap).2.1 (by decide)
    · exact (hrun 4 filename scope heap).2.2 (by decide)
  · have hparse : parse "[fn(x, y) \x7b return ((x * y)); \x7d]" =
        .ok (parseScan (Lexer.scan "[fn(x, y) \x7b return ((x * y)); \x7d]")) :=
      parse_eq_ok.mpr ⟨by decide +kernel, rfl⟩
    have hrecorded := (Recorded.fresh.opened none Builtin.all).evaluated hparse 4 { frame := 0 }
    have hshown : ∃ o ∈ observations (observed 4
        (parseScan (Lexer.scan "[fn(x, y) \x7b return ((x * y)); \x7d]")).program { frame := 0 }
        { machine := { heap := (Heap.newScope {} none Builtin.all).2 }, seen := [] }),
        ∃ v ∈ o.note.values, v.kind? = some .function ∧
          v.inspect? = some "fn(x, y) \x7b return (x * y) \x7d" := by decide +kernel
    obtain ⟨o, ho, v, hv, hkind, hinspect⟩ := hshown
    obtain ⟨parameters, body, scope, rfl⟩ :
        ∃ parameters body scope, v = .function parameters body scope := by
      cases v with
      | function parameters body scope => exact ⟨_, _, _, rfl⟩
      | _ => cases hkind
    have hshows : o.Shows (.function parameters body scope) := Or.inl hv
    obtain ⟨text, again, htext, hread, herased⟩ := displayed_values_read_back.2 hrecorded _
      (Or.inl ⟨o, ho, hshows⟩) parameters body scope (inside_refl _)
    cases htext.symm.trans hinspect
    exact ⟨_, _, parameters, body, scope, again, hrecorded, ⟨o, ho, hshows⟩, hread, herased⟩

end MonkeyLang

import MonkeyLang.Eval.Node
import MonkeyLang.Proofs.Parser.Shape
import MonkeyLang.Proofs.Value.Heap
import MonkeyLang.Proofs.Value.Parts

/-!
Values that a program can hold. A proper value is no mark, no error and no return on its way, nor
does it hold one at any depth, and the bodies of functions are blocks with every form in its place.
The operators, the built-ins, the heap and the entries of maps make proper values from proper ones.
-/
namespace MonkeyLang

namespace Value

mutual

def Proper : Value → Prop
  | integer _ | boolean _ | null | string _ | builtin _ => True
  | array elements => AllProper elements
  | map entries => EntriesProper entries
  | function _ body _ => Shaped (.block body)
  | returned _ | error _ | letMark | emptyMark | blank => False

def AllProper : List Value → Prop
  | [] => True
  | value :: rest => value.Proper ∧ AllProper rest

def EntriesProper : List (MapKey × Value × Value) → Prop
  | [] => True
  | (_, key, value) :: rest => key.Proper ∧ value.Proper ∧ EntriesProper rest

end

theorem allProper_iff {values : List Value} : AllProper values ↔ ∀ v ∈ values, v.Proper := by
  induction values with
  | nil => simp [AllProper]
  | cons v rest ih => simp [AllProper, ih]

theorem entriesProper_iff {entries : Entries} :
    EntriesProper entries ↔ ∀ e ∈ entries, e.2.1.Proper ∧ e.2.2.Proper := by
  induction entries with
  | nil => simp [EntriesProper]
  | cons e rest ih => simp [EntriesProper, ih, and_assoc]

theorem proper_array {elements : List Value} :
    (array elements).Proper ↔ ∀ v ∈ elements, v.Proper := by
  rw [Proper, allProper_iff]

theorem proper_map {entries : Entries} :
    (map entries).Proper ↔ ∀ e ∈ entries, e.2.1.Proper ∧ e.2.2.Proper := by
  rw [Proper, entriesProper_iff]

/-- What an expression may give: a proper value, an error, or a proper value on its way to the
caller. -/
def IsOutcome : Value → Prop
  | returned value => value.Proper
  | error _ => True
  | value => value.Proper

/-- What a statement or a block may give: marks too. -/
def IsOutcomeOrMark (value : Value) : Prop :=
  value = letMark ∨ value = emptyMark ∨ value.IsOutcome

/-- What a program may give: no return, for it has been taken out. -/
def IsAnswer : Value → Prop
  | letMark | emptyMark | error _ => True
  | value => value.Proper

variable {v : Value}

theorem Proper.isOutcome (h : v.Proper) : v.IsOutcome := by
  cases v <;> first | exact h | cases h

theorem IsOutcome.proper (h : v.IsOutcome) (hgoes : v.unwinds = false) : v.Proper := by
  cases v <;> first | exact h | cases hgoes

theorem Proper.isAnswer (h : v.Proper) : v.IsAnswer := by
  cases v <;> first | exact h | cases h

theorem IsOutcomeOrMark.returned (h : (returned v).IsOutcomeOrMark) : v.Proper :=
  (h.resolve_left nofun).resolve_left nofun

theorem IsOutcomeOrMark.isAnswer (h : v.IsOutcomeOrMark) (hgoes : v.unwinds = false) :
    v.IsAnswer := by
  rcases h with rfl | rfl | h
  · trivial
  · trivial
  · exact (h.proper hgoes).isAnswer

theorem Proper.exists_kind (h : v.Proper) : ∃ kind, v.kind? = some kind := by
  cases v <;> simp_all [Proper, kind?]

theorem Proper.exists_key (h : v.Proper) : ∃ key, v.key? = some key := by
  cases v <;> simp_all [Proper, key?, kind?]

theorem Proper.orNull (h : v.Proper) : v.orNull = v := by
  cases v <;> first | rfl | cases h

theorem IsOutcomeOrMark.orNull (h : v.IsOutcomeOrMark) : v.orNull.IsOutcome := by
  rcases h with rfl | rfl | h
  · trivial
  · trivial
  · cases v <;> first | exact h | trivial

theorem IsOutcomeOrMark.unwrapped (h : v.IsOutcomeOrMark) : v.unwrapped.orNull.IsOutcome := by
  cases v with
  | returned value =>
    rw [Value.unwrapped, h.returned.orNull]
    exact h.returned.isOutcome
  | _ => exact h.orNull

end Value

/-! ### Operators and built-ins -/

theorem proper_checked (value : Int) (cause : EvalError) : (checked value cause).IsOutcome := by
  unfold checked
  split <;> trivial

theorem exists_infixValue? (operator : Operator) {left right : Value} (hleft : left.Proper)
    (hright : right.Proper) : ∃ v, infixValue? operator left right = some v ∧ v.IsOutcome := by
  obtain ⟨leftKind, hleftKind⟩ := hleft.exists_kind
  obtain ⟨rightKind, hrightKind⟩ := hright.exists_kind
  unfold infixValue?
  split
  · refine ⟨_, rfl, ?_⟩
    unfold integerInfix
    split <;> try split
    all_goals first | exact proper_checked _ _ | trivial
  · refine ⟨_, rfl, ?_⟩
    unfold booleanInfix
    split <;> trivial
  · refine ⟨_, rfl, ?_⟩
    unfold stringInfix
    split <;> trivial
  · refine ⟨.error (.typeMismatch leftKind operator rightKind), ?_, trivial⟩
    simp [hleftKind, hrightKind]

theorem exists_prefixValue? (operator : Operator) {right : Value} (hright : right.Proper) :
    ∃ v, prefixValue? operator right = some v ∧ v.IsOutcome := by
  obtain ⟨kind, hkind⟩ := hright.exists_kind
  unfold prefixValue?
  split
  · exact ⟨_, rfl, trivial⟩
  · exact ⟨_, rfl, proper_checked _ _⟩
  · exact ⟨.error (.unknownPrefix operator kind), by simp [hkind], trivial⟩

namespace Builtin

theorem proper_onArray {elements : List Value} (h : ∀ v ∈ elements, v.Proper)
    (primitive : Builtin) : (onArray elements primitive).Proper := by
  cases primitive with
  | first =>
    cases hhead : elements.head? with
    | none => simp [onArray, hhead, Value.Proper]
    | some v => simpa [onArray, hhead] using h v (List.mem_of_mem_head? hhead)
  | last =>
    cases hlast : elements.getLast? with
    | none => simp [onArray, hlast, Value.Proper]
    | some v => simpa [onArray, hlast] using h v (List.mem_of_getLast? hlast)
  | rest =>
    simp only [onArray]
    split
    · trivial
    · exact Value.proper_array.mpr fun v hv => h v (List.mem_of_mem_tail hv)
  | len | push => trivial

theorem exists_unary (primitive : Builtin) {argument : Value} (h : argument.Proper) :
    ∃ v, call?.unary primitive argument = some v ∧ v.IsOutcome := by
  obtain ⟨kind, hkind⟩ := h.exists_kind
  unfold call?.unary
  split
  · exact ⟨_, rfl, (proper_onArray (Value.proper_array.mp h) primitive).isOutcome⟩
  · exact ⟨.error (.notArray primitive kind), by simp [hkind], trivial⟩

theorem exists_call? (primitive : Builtin) {arguments : List Value}
    (h : ∀ v ∈ arguments, v.Proper) : ∃ v, primitive.call? arguments = some v ∧ v.IsOutcome := by
  unfold call?
  split
  · exact ⟨_, rfl, trivial⟩
  · next argument _ =>
    obtain ⟨kind, hkind⟩ := (h argument (by simp)).exists_kind
    exact ⟨.error (.noLength kind), by simp [hkind], trivial⟩
  · next elements value =>
    have helements := Value.proper_array.mp (h (.array elements) (by simp))
    have hpushed : (Value.array (elements ++ [value])).Proper := by
      refine Value.proper_array.mpr (List.forall_mem_append.mpr ⟨helements, ?_⟩)
      simpa using h value (by simp)
    exact ⟨_, rfl, hpushed.isOutcome⟩
  · next argument _ _ =>
    obtain ⟨kind, hkind⟩ := (h argument (by simp)).exists_kind
    exact ⟨.error (.notArray push kind), by simp [hkind], trivial⟩
  · exact exists_unary first (h _ (by simp))
  · exact exists_unary last (h _ (by simp))
  · exact exists_unary rest (h _ (by simp))
  · exact ⟨_, rfl, trivial⟩

end Builtin

/-! ### Entries of maps -/

namespace Entries

theorem proper_insert {key : MapKey} {pair : Value × Value} {entries : Entries}
    (hpair : pair.1.Proper ∧ pair.2.Proper)
    (h : ∀ e ∈ entries, e.2.1.Proper ∧ e.2.2.Proper) :
    ∀ e ∈ entries.insert key pair, e.2.1.Proper ∧ e.2.2.Proper := by
  intro e he
  rcases mem_insert he with rfl | he
  · exact hpair
  · exact h e he

theorem proper_find? {entries : Entries} (h : ∀ e ∈ entries, e.2.1.Proper ∧ e.2.2.Proper)
    (key : MapKey) : ((Entries.find? entries key).getD .null).Proper := by
  unfold Entries.find?
  cases hfound : List.lookup key entries with
  | none => trivial
  | some pair => exact (h (key, pair) (mem_of_lookup hfound)).2

end Entries

/-! ### Heaps -/

namespace Heap

def Proper (h : Heap) : Prop := ∀ i, ∀ b ∈ h.frame i, b.2.Proper

variable {h : Heap}

theorem proper_empty : Proper {} := by
  intro i
  rw [frame_of_size_le (Nat.zero_le i)]
  exact List.forall_mem_nil _

theorem Proper.resolve? (hh : h.Proper) {scope : Scope} {name : String} {value : Value}
    (hvalue : h.resolve? scope name = some value) : value.Proper := by
  rcases of_resolve?_eq_some hvalue with ⟨i, hi⟩ | ⟨primitive, rfl⟩
  · exact hh i (name, value) hi
  · trivial

theorem Proper.set (hh : h.Proper) (scope : Scope) (name : String) {value : Value}
    (hvalue : value.Proper) : (h.set scope name value).Proper := by
  intro i b hb
  rcases mem_frame_set hb with rfl | hb
  · exact hvalue
  · exact hh i b hb

theorem Proper.adds (hh : h.Proper) {f : Frame} {h' : Heap} (ha : h.Adds f h')
    (hf : ∀ b ∈ f, b.2.Proper) : h'.Proper :=
  fun i b hb => (ha.mem_frame hb).elim (hf b) (hh i b)

theorem Proper.newScope (hh : h.Proper) (outer : Option Scope) (builtins : List Builtin) :
    (h.newScope outer builtins).2.Proper :=
  hh.adds (adds_newScope outer builtins) (List.forall_mem_nil _)

theorem Proper.enclosed (hh : h.Proper) (scope : Scope) : (h.enclosed scope).2.Proper :=
  hh.newScope (some scope) scope.builtins

theorem Proper.snapshot (hh : h.Proper) (scope : Scope) : (h.snapshot scope).2.Proper :=
  hh.adds (adds_snapshot scope) (hh scope.frame)

end Heap

end MonkeyLang

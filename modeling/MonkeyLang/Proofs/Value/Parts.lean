import MonkeyLang.Proofs.Inside
import MonkeyLang.Proofs.Value.Matching

/-!
Values inside values. A property of single values is lifted to everything inside a value; what the
operators, the built-ins and the maps of the language make of such values has it again, as long as
it does not speak of the values that are made there.
-/
namespace MonkeyLang

def EvalError.isOrdinary : EvalError → Bool
  | unknownNode _ | unknownPrefix _ _ | unknownInfix _ _ => false
  | _ => true

namespace Entries

variable {key : MapKey} {pair : Value × Value} {e : MapKey × Value × Value} {es : Entries}

theorem mem_insert (h : e ∈ es.insert key pair) : e = (key, pair) ∨ e ∈ es := by
  fun_induction Entries.insert key pair es with
  | case1 => exact Or.inl (List.mem_singleton.mp h)
  | case2 head rest _ =>
    exact (List.mem_cons.mp h).imp_right (List.mem_cons_of_mem head)
  | case3 head rest _ ih =>
    rcases List.mem_cons.mp h with rfl | h
    · exact Or.inr List.mem_cons_self
    · exact (ih h).imp_right (List.mem_cons_of_mem head)

theorem mem_of_lookup (h : List.lookup key es = some pair) : (key, pair) ∈ es := by
  obtain ⟨before, after, rfl, -⟩ := List.lookup_eq_some_iff.mp h
  exact List.mem_append_right before List.mem_cons_self

end Entries

namespace Value

/-- The values that a value is made of. The bindings that a function keeps are on the heap. -/
def parts : Value → List Value
  | array elements => elements
  | map entries => entries.map (·.2.1) ++ entries.map (·.2.2)
  | returned value => [value]
  | _ => []

def All (P : Value → Prop) : Value → Prop := Throughout parts P

def isOrdinary : Value → Bool
  | null | boolean _ | string _ | builtin _ | letMark | emptyMark => true
  | error cause => cause.isOrdinary
  | _ => false

/-- The property speaks neither of ordinary values nor of what arrays and returns are made of. -/
structure Indifferent (P : Value → Prop) : Prop where
  ordinary : ∀ v : Value, v.isOrdinary → P v
  array : ∀ xs, P (.array xs)
  returned : ∀ v, P (.returned v)

section All

variable {P : Value → Prop} {v u : Value}

theorem all_iff : v.All P ↔ P v ∧ ∀ x ∈ v.parts, x.All P := throughout_iff

theorem all_of_parts (hparts : v.parts = []) (h : P v) : v.All P := by
  refine all_iff.mpr ⟨h, ?_⟩
  rw [hparts]
  exact List.forall_mem_nil _

theorem all_of_isPlain (hplain : v.isPlain) (h : P v) : v.All P := by
  refine all_of_parts ?_ h
  cases v <;> first | rfl | cases hplain

theorem all_map {es : Entries} :
    (map es).All P ↔ P (map es) ∧ ∀ e ∈ es, e.2.1.All P ∧ e.2.2.All P := by
  rw [all_iff]
  refine and_congr_right fun _ => ?_
  simp only [parts, List.forall_mem_append, List.forall_mem_map]
  constructor
  · rintro ⟨hkeys, hvalues⟩ e he
    exact ⟨hkeys e he, hvalues e he⟩
  · intro h
    exact ⟨fun e he => (h e he).1, fun e he => (h e he).2⟩

theorem all_of_isOrdinary (hP : Indifferent P) (h : v.isOrdinary) : v.All P := by
  refine all_of_parts ?_ (hP.ordinary v h)
  cases v <;> first | rfl | cases h

theorem all_array (hP : Indifferent P) {xs : List Value} :
    (array xs).All P ↔ ∀ x ∈ xs, x.All P := by
  rw [all_iff]
  exact and_iff_right (hP.array xs)

theorem all_returned (hP : Indifferent P) : (returned v).All P ↔ v.All P := by
  rw [all_iff]
  refine (and_iff_right (hP.returned v)).trans ?_
  exact List.forall_mem_singleton

theorem All.orNull (hP : Indifferent P) (h : v.All P) : v.orNull.All P := by
  cases v with
  | letMark => exact all_of_isOrdinary hP rfl
  | emptyMark => exact all_of_isOrdinary hP rfl
  | _ => exact h

theorem All.unwrapped (hP : Indifferent P) (h : v.All P) : v.unwrapped.All P := by
  cases v with
  | returned inner => exact (all_returned hP).mp h
  | _ => exact h

theorem all_getD (hP : Indifferent P) {found : Option Value} (h : ∀ v ∈ found, v.All P) :
    (found.getD .null).All P := by
  cases found with
  | none => exact all_of_isOrdinary hP rfl
  | some v => exact h v rfl

/-! ### Maps -/

theorem All.insert {es : Entries} {key : MapKey} (hes : (map es).All P) (hv : v.All P)
    (hu : u.All P) (h : P (map (es.insert key (v, u)))) :
    (map (es.insert key (v, u))).All P := by
  refine all_map.mpr ⟨h, fun e he => ?_⟩
  rcases Entries.mem_insert he with rfl | he
  · exact ⟨hv, hu⟩
  · exact (all_map.mp hes).2 e he

theorem All.find? {es : Entries} (hes : (map es).All P) {key : MapKey} :
    ∀ v ∈ Entries.find? es key, v.All P := by
  intro v hv
  obtain ⟨pair, hpair, rfl⟩ := Option.map_eq_some_iff.mp hv
  exact ((all_map.mp hes).2 (key, pair) (Entries.mem_of_lookup hpair)).2

/-! ### Operators and built-ins -/

theorem isPlain_prefixValue? {operator : Operator} (h : prefixValue? operator v = some u) :
    u.isPlain := by
  unfold prefixValue? at h
  split at h
  · cases h
    rfl
  · cases h
    exact isPlain_checked _ _
  · obtain ⟨kind, -, hkind⟩ := Option.bind_eq_some_iff.mp h
    cases hkind
    rfl

theorem isPlain_infixValue? {operator : Operator} {x : Value}
    (h : infixValue? operator v u = some x) : x.isPlain := by
  unfold infixValue? at h
  split at h
  · cases h
    exact isPlain_integerInfix _ _ _
  · cases h
    exact isPlain_booleanInfix _ _ _
  · cases h
    exact isPlain_stringInfix _ _ _
  · obtain ⟨kind, -, h⟩ := Option.bind_eq_some_iff.mp h
    obtain ⟨kind', -, h⟩ := Option.bind_eq_some_iff.mp h
    cases h
    rfl

theorem all_onArray (hP : Indifferent P) {xs : List Value} (h : ∀ x ∈ xs, x.All P)
    (primitive : Builtin) : (Builtin.onArray xs primitive).All P := by
  have hnull : Value.null.All P := all_of_isOrdinary hP rfl
  cases primitive with
  | first => exact all_getD hP fun v hv => h v (List.mem_of_head? hv)
  | last => exact all_getD hP fun v hv => h v (List.mem_of_getLast? hv)
  | rest =>
    rw [Builtin.onArray]
    split
    · exact hnull
    · exact (all_array hP).mpr fun v hv => h v (List.mem_of_mem_tail hv)
  | len => exact hnull
  | push => exact hnull

theorem all_call? (hP : Indifferent P) {primitive : Builtin} {arguments : List Value}
    (harguments : ∀ x ∈ arguments, x.All P)
    (hlen : ∀ text, primitive = .len → arguments = [.string text] →
      P (.integer text.utf8ByteSize)) :
    ∀ x ∈ primitive.call? arguments, x.All P := by
  have herror : ∀ {found : Option Kind} {cause : Kind → EvalError},
      (∀ kind, (cause kind).isOrdinary) →
      ∀ x ∈ (do return Value.error (cause (← found)) : Option Value), x.All P := by
    intro found cause hcause x hx
    obtain ⟨kind, -, hkind⟩ := Option.bind_eq_some_iff.mp hx
    cases hkind
    exact all_of_isOrdinary hP (hcause kind)
  have hunary : ∀ {primitive : Builtin} {argument : Value}, argument.All P →
      ∀ x ∈ Builtin.call?.unary primitive argument, x.All P := by
    intro primitive argument hargument x hx
    unfold Builtin.call?.unary at hx
    split at hx
    · cases hx
      exact all_onArray hP ((all_array hP).mp hargument) primitive
    · exact herror (fun _ => rfl) x hx
  intro x hx
  unfold Builtin.call? at hx
  split at hx
  · cases hx
    exact all_of_parts rfl (hlen _ rfl rfl)
  · exact herror (fun _ => rfl) x hx
  · cases hx
    obtain ⟨harray, hrest⟩ := List.forall_mem_cons.mp harguments
    refine (all_array hP).mpr (List.forall_mem_append.mpr ⟨(all_array hP).mp harray, ?_⟩)
    exact hrest
  · exact herror (fun _ => rfl) x hx
  · exact hunary (List.forall_mem_singleton.mp harguments) x hx
  · exact hunary (List.forall_mem_singleton.mp harguments) x hx
  · exact hunary (List.forall_mem_singleton.mp harguments) x hx
  · cases hx
    exact all_of_isOrdinary hP rfl

end All

end Value

end MonkeyLang

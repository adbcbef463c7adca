import Mathlib.Data.List.Forall2
import MonkeyLang.Eval.Arithmetic
import MonkeyLang.Eval.Builtin
import MonkeyLang.Value.Key
import MonkeyLang.Value.Print

/-!
Values that are built alike. Two values match when they differ at most in their functions, and the
functions in corresponding places correspond. Operators, built-ins, map entries and frames take
matching values to matching values, whatever the correspondence of functions is.
-/
namespace MonkeyLang

structure Closure where
  parameters : List String
  body : Node
  scope : Scope

def Closure.value (c : Closure) : Value := .function c.parameters c.body c.scope

namespace Value

mutual

def closures : Value → List Closure
  | function parameters body scope => [⟨parameters, body, scope⟩]
  | array elements => closuresOfAll elements
  | map entries => closuresOfEntries entries
  | returned value => value.closures
  | _ => []

def closuresOfAll : List Value → List Closure
  | [] => []
  | value :: rest => value.closures ++ closuresOfAll rest

def closuresOfEntries : List (MapKey × Value × Value) → List Closure
  | [] => []
  | (_, key, value) :: rest => key.closures ++ value.closures ++ closuresOfEntries rest

end

inductive Matches (fn : Closure → Closure → Prop) : Value → Value → Prop
  | integer (value : Int) : Matches fn (.integer value) (.integer value)
  | boolean (value : Bool) : Matches fn (.boolean value) (.boolean value)
  | null : Matches fn .null .null
  | string (value : String) : Matches fn (.string value) (.string value)
  | array {xs ys : List Value} (h : List.Forall₂ (Matches fn) xs ys) :
      Matches fn (.array xs) (.array ys)
  | map {es es' : List (MapKey × Value × Value)} (hmapKeys : es.map Prod.fst = es'.map Prod.fst)
      (hkeys : List.Forall₂ (Matches fn) (es.map (·.2.1)) (es'.map (·.2.1)))
      (hvalues : List.Forall₂ (Matches fn) (es.map (·.2.2)) (es'.map (·.2.2))) :
      Matches fn (.map es) (.map es')
  | function {ps ps' : List String} {body body' : Node} {scope scope' : Scope}
      (h : fn ⟨ps, body, scope⟩ ⟨ps', body', scope'⟩) :
      Matches fn (.function ps body scope) (.function ps' body' scope')
  | builtin (primitive : Builtin) : Matches fn (.builtin primitive) (.builtin primitive)
  | returned {v v' : Value} (h : Matches fn v v') : Matches fn (.returned v) (.returned v')
  | error (cause : EvalError) : Matches fn (.error cause) (.error cause)
  | letMark : Matches fn .letMark .letMark
  | emptyMark : Matches fn .emptyMark .emptyMark
  | blank : Matches fn .blank .blank

def isPlain : Value → Bool
  | array _ | map _ | function _ _ _ | returned _ => false
  | _ => true

variable {fn : Closure → Closure → Prop} {v v' w w' : Value}

theorem matches_of_isPlain (h : v.isPlain) : Matches fn v v := by
  cases v <;> cases h <;> constructor

def EntriesMatch (fn : Closure → Closure → Prop) : Entries → Entries → Prop :=
  List.Forall₂ fun e e' => e.1 = e'.1 ∧ Matches fn e.2.1 e'.2.1 ∧ Matches fn e.2.2 e'.2.2

theorem matches_map {es es' : Entries} :
    Matches fn (map es) (map es') ↔ EntriesMatch fn es es' := by
  unfold EntriesMatch
  constructor
  · intro h
    cases h with
    | map hmapKeys hkeys hvalues =>
      rw [← List.forall₂_eq_eq_eq] at hmapKeys
      rw [List.forall₂_map_left_iff, List.forall₂_map_right_iff] at hmapKeys hkeys hvalues
      exact List.Forall₂.mp (fun _ _ hm hp => ⟨hm, hp⟩) hmapKeys
        (List.Forall₂.mp (fun _ _ hk hv => And.intro hk hv) hkeys hvalues)
  · intro h
    have hmapKeys := h.imp fun _ _ he => he.1
    have hkeys := h.imp fun _ _ he => he.2.1
    have hvalues := h.imp fun _ _ he => he.2.2
    refine .map ?_ ?_ ?_
    · rwa [← List.forall₂_eq_eq_eq, List.forall₂_map_left_iff, List.forall₂_map_right_iff]
    · rwa [List.forall₂_map_left_iff, List.forall₂_map_right_iff]
    · rwa [List.forall₂_map_left_iff, List.forall₂_map_right_iff]

/-! ### Induction on matching values -/

/-- The relation holds of two values as soon as it holds of their parts. -/
structure PassesUp (fn : Closure → Closure → Prop) (motive : Value → Value → Prop) : Prop where
  plain : ∀ v : Value, v.isPlain → motive v v
  array : ∀ {xs ys : List Value}, List.Forall₂ motive xs ys → motive (.array xs) (.array ys)
  map : ∀ {es es' : Entries},
    List.Forall₂ (fun e e' => e.1 = e'.1 ∧ motive e.2.1 e'.2.1 ∧ motive e.2.2 e'.2.2) es es' →
      motive (.map es) (.map es')
  function : ∀ {c c' : Closure}, fn c c' → motive c.value c'.value
  returned : ∀ {v v' : Value}, motive v v' → motive (.returned v) (.returned v')

mutual

theorem Matches.induct {motive : Value → Value → Prop} (hm : PassesUp fn motive) :
    ∀ v v' : Value, Matches fn v v' → motive v v'
  | .array xs, _, .array h => hm.array (Matches.inductAll hm xs _ h)
  | .map es, _, .map hmapKeys hkeys hvalues =>
    hm.map (Matches.inductEntries hm es _ hmapKeys hkeys hvalues)
  | .function _ _ _, _, .function h => hm.function h
  | .returned v, _, .returned h => hm.returned (Matches.induct hm v _ h)
  | .integer _, _, .integer _ | .boolean _, _, .boolean _ | .null, _, .null
  | .string _, _, .string _ | .builtin _, _, .builtin _ | .error _, _, .error _
  | .letMark, _, .letMark | .emptyMark, _, .emptyMark | .blank, _, .blank => hm.plain _ rfl

theorem Matches.inductAll {motive : Value → Value → Prop} (hm : PassesUp fn motive) :
    ∀ xs ys : List Value, List.Forall₂ (Matches fn) xs ys → List.Forall₂ motive xs ys
  | [], _, .nil => .nil
  | x :: xs, _, .cons h hs => .cons (Matches.induct hm x _ h) (Matches.inductAll hm xs _ hs)

theorem Matches.inductEntries {motive : Value → Value → Prop} (hm : PassesUp fn motive) :
    ∀ es es' : Entries, es.map Prod.fst = es'.map Prod.fst →
      List.Forall₂ (Matches fn) (es.map (·.2.1)) (es'.map (·.2.1)) →
      List.Forall₂ (Matches fn) (es.map (·.2.2)) (es'.map (·.2.2)) →
      List.Forall₂ (fun e e' => e.1 = e'.1 ∧ motive e.2.1 e'.2.1 ∧ motive e.2.2 e'.2.2) es es'
  | [], [], _, _, _ => .nil
  | (_, k, v) :: es, (_, _, _) :: es', hmapKeys, .cons hk hks, .cons hv hvs =>
    have hsplit := List.cons.inj hmapKeys
    .cons ⟨hsplit.1, Matches.induct hm k _ hk, Matches.induct hm v _ hv⟩
      (Matches.inductEntries hm es es' hsplit.2 hks hvs)

end

theorem Matches.mono {gn : Closure → Closure → Prop} (himp : ∀ c c', fn c c' → gn c c')
    (h : Matches fn v v') : Matches gn v v' := by
  have hm : PassesUp fn (Matches gn) :=
    { plain := fun v hv => matches_of_isPlain hv
      array := fun hs => .array hs
      map := fun hs => matches_map.mpr hs
      function := fun h => .function (himp _ _ h)
      returned := fun h => .returned h }
  exact Matches.induct hm v v' h

/-- Where functions correspond to themselves only, matching values are equal. -/
theorem Matches.eq (hfn : ∀ c c', fn c c' → c = c') (h : Matches fn v v') : v = v' := by
  have hm : PassesUp fn Eq :=
    { plain := fun v _ => rfl
      array := fun hs => by
        rw [List.forall₂_eq_eq_eq] at hs
        rw [hs]
      map := fun hs => by
        have heq := hs.imp fun e e' he => Prod.ext he.1 (Prod.ext he.2.1 he.2.2)
        rw [List.forall₂_eq_eq_eq] at heq
        rw [heq]
      function := fun h => by rw [hfn _ _ h]
      returned := fun h => by rw [h] }
  exact Matches.induct hm v v' h

theorem Matches.closures (h : Matches fn v v') : List.Forall₂ fn v.closures v'.closures := by
  have hm : PassesUp fn fun v v' => List.Forall₂ fn v.closures v'.closures :=
    { plain := fun v hv => by cases v <;> first | exact .nil | cases hv
      array := fun hs => by
        induction hs with
        | nil => exact .nil
        | cons h _ ih => exact List.rel_append h ih
      map := fun hs => by
        induction hs with
        | nil => exact .nil
        | cons h _ ih => exact List.rel_append (List.rel_append h.2.1 h.2.2) ih
      function := fun h => .cons h .nil
      returned := fun h => h }
  exact Matches.induct hm v v' h

mutual

theorem matches_self : ∀ v : Value, (∀ c ∈ v.closures, fn c c) → Matches fn v v
  | .array xs, h => .array (matches_selfAll xs h)
  | .map es, h => matches_map.mpr (matches_selfEntries es h)
  | .function ps body scope, h => .function (h ⟨ps, body, scope⟩ (List.mem_singleton_self _))
  | .returned v, h => .returned (matches_self v h)
  | .integer _, _ | .boolean _, _ | .null, _ | .string _, _ | .builtin _, _ | .error _, _
  | .letMark, _ | .emptyMark, _ | .blank, _ => matches_of_isPlain rfl

theorem matches_selfAll : ∀ xs : List Value, (∀ c ∈ closuresOfAll xs, fn c c) →
    List.Forall₂ (Matches fn) xs xs
  | [], _ => .nil
  | x :: xs, h =>
    .cons (matches_self x fun c hc => h c (List.mem_append_left _ hc))
      (matches_selfAll xs fun c hc => h c (List.mem_append_right _ hc))

theorem matches_selfEntries : ∀ es : Entries, (∀ c ∈ closuresOfEntries es, fn c c) →
    EntriesMatch fn es es
  | [], _ => .nil
  | (_, k, v) :: es, h => by
    simp only [closuresOfEntries, List.forall_mem_append] at h
    exact .cons ⟨rfl, matches_self k h.1.1, matches_self v h.1.2⟩ (matches_selfEntries es h.2)

end

/-! ### What matching values have in common -/

theorem Matches.kind? (h : Matches fn v v') : v.kind? = v'.kind? := by
  cases h <;> rfl

theorem Matches.key? (h : Matches fn v v') : v.key? = v'.key? := by
  cases h <;> rfl

theorem Matches.unwinds (h : Matches fn v v') : v.unwinds = v'.unwinds := by
  cases h <;> rfl

theorem Matches.isTruthy (h : Matches fn v v') : v.isTruthy = v'.isTruthy := by
  cases h <;> rfl

theorem Matches.orNull (h : Matches fn v v') : Matches fn v.orNull v'.orNull := by
  cases h with
  | letMark | emptyMark => exact .null
  | array h => exact .array h
  | map hmapKeys hkeys hvalues => exact .map hmapKeys hkeys hvalues
  | function h => exact .function h
  | returned h => exact .returned h
  | _ => exact matches_of_isPlain rfl

theorem Matches.unwrapped (h : Matches fn v v') : Matches fn v.unwrapped v'.unwrapped := by
  cases h with
  | returned h => exact h
  | array h => exact .array h
  | map hmapKeys hkeys hvalues => exact .map hmapKeys hkeys hvalues
  | function h => exact .function h
  | _ => exact matches_of_isPlain rfl

/-! ### Operators and built-ins -/

theorem isPlain_checked (value : Int) (cause : EvalError) : (checked value cause).isPlain := by
  unfold checked
  split <;> rfl

theorem isPlain_integerInfix (operator : Operator) (left right : Int) :
    (integerInfix operator left right).isPlain := by
  unfold integerInfix
  split <;> try split
  all_goals first | exact isPlain_checked _ _ | rfl

theorem isPlain_booleanInfix (operator : Operator) (left right : Bool) :
    (booleanInfix operator left right).isPlain := by
  unfold booleanInfix
  split <;> rfl

theorem isPlain_stringInfix (operator : Operator) (left right : String) :
    (stringInfix operator left right).isPlain := by
  unfold stringInfix
  split <;> rfl

theorem matches_infixValue? (operator : Operator) (hv : Matches fn v v') (hw : Matches fn w w') :
    Option.Rel (Matches fn) (infixValue? operator v w) (infixValue? operator v' w') := by
  cases hv with
  | integer a =>
    cases hw with
    | integer b => exact .some (matches_of_isPlain (isPlain_integerInfix operator a b))
    | blank => exact .none
    | _ => exact .some (.error _)
  | boolean a =>
    cases hw with
    | boolean b => exact .some (matches_of_isPlain (isPlain_booleanInfix operator a b))
    | blank => exact .none
    | _ => exact .some (.error _)
  | string a =>
    cases hw with
    | string b => exact .some (matches_of_isPlain (isPlain_stringInfix operator a b))
    | blank => exact .none
    | _ => exact .some (.error _)
  | blank => exact .none
  | _ => cases hw <;> first | exact .none | exact .some (.error _)

theorem matches_prefixValue? (operator : Operator) (h : Matches fn v v') :
    Option.Rel (Matches fn) (prefixValue? operator v) (prefixValue? operator v') := by
  by_cases hbang : operator = .bang
  · subst hbang
    simp only [prefixValue?, h.isTruthy]
    exact .some (.boolean _)
  · by_cases hminus : operator = .minus
    · subst hminus
      cases h with
      | integer value => exact .some (matches_of_isPlain (isPlain_checked _ _))
      | blank => exact .none
      | _ => exact .some (.error _)
    · have hnone : ∀ v : Value, prefixValue? operator v =
          v.kind?.map fun kind => .error (.unknownPrefix operator kind) := by
        intro v
        cases operator <;> simp_all [prefixValue?] <;> cases v <;> rfl
      rw [hnone, hnone, h.kind?]
      cases v'.kind? with
      | none => exact .none
      | some kind => exact .some (.error _)

theorem matches_getD {x y : Option Value} (h : Option.Rel (Matches fn) x y) :
    Matches fn (x.getD .null) (y.getD .null) := by
  cases h with
  | none => exact .null
  | some h => exact h

section Lists

variable {α : Type} {R : α → α → Prop} {xs ys : List α}

theorem rel_head? (h : List.Forall₂ R xs ys) : Option.Rel R xs.head? ys.head? := by
  cases h with
  | nil => exact .none
  | cons h => exact .some h

theorem rel_getElem? (h : List.Forall₂ R xs ys) (i : Nat) : Option.Rel R xs[i]? ys[i]? := by
  induction h generalizing i with
  | nil => exact .none
  | cons h _ ih =>
    cases i with
    | zero => exact .some h
    | succ i => simpa using ih i

end Lists

theorem matches_onArray {xs ys : List Value} (h : List.Forall₂ (Matches fn) xs ys)
    (primitive : Builtin) :
    Matches fn (Builtin.onArray xs primitive) (Builtin.onArray ys primitive) := by
  cases primitive with
  | first => exact matches_getD (rel_head? h)
  | last =>
    have hlast := rel_head? (List.rel_reverse h)
    rw [List.head?_reverse, List.head?_reverse] at hlast
    exact matches_getD hlast
  | rest =>
    cases h with
    | nil => exact .null
    | cons _ hs => exact .array hs
  | len | push => exact .null

theorem matches_unary (primitive : Builtin) (h : Matches fn v v') :
    Option.Rel (Matches fn) (Builtin.call?.unary primitive v)
      (Builtin.call?.unary primitive v') := by
  cases h with
  | array h => exact .some (matches_onArray h primitive)
  | blank => exact .none
  | _ => exact .some (.error _)

theorem call?_of_length_ne {primitive : Builtin} {args : List Value}
    (h : args.length ≠ primitive.arity) :
    primitive.call? args = some (.error (.argumentCount args.length primitive.arity)) := by
  unfold Builtin.call?
  split <;> first | rfl | exact absurd rfl h

theorem matches_call? (primitive : Builtin) {args args' : List Value}
    (h : List.Forall₂ (Matches fn) args args') :
    Option.Rel (Matches fn) (primitive.call? args) (primitive.call? args') := by
  by_cases hlen : args.length = primitive.arity
  · cases h with
    | nil => cases primitive <;> cases hlen
    | cons hfirst hrest =>
      cases primitive with
      | push =>
        cases hrest with
        | nil => cases hlen
        | cons hsecond hmore =>
          cases hmore with
          | nil =>
            cases hfirst with
            | array h => exact .some (.array (List.rel_append h (.cons hsecond .nil)))
            | blank => exact .none
            | _ => exact .some (.error _)
          | cons _ _ => cases hlen
      | len =>
        cases hrest with
        | nil =>
          cases hfirst with
          | string text => exact .some (.integer _)
          | blank => exact .none
          | _ => exact .some (.error _)
        | cons _ _ => cases hlen
      | _ =>
        cases hrest with
        | nil => exact matches_unary _ hfirst
        | cons _ _ => cases hlen
  · have hlen' : args'.length ≠ primitive.arity := h.length_eq ▸ hlen
    rw [call?_of_length_ne hlen, call?_of_length_ne hlen', h.length_eq]
    exact .some (.error _)

theorem fault?_congr [Text.Encoding] (primitive : Builtin) {args args' : List Value}
    (h : List.Forall₂ (Matches fn) args args') :
    primitive.fault? args = primitive.fault? args' := by
  cases h with
  | nil => rfl
  | cons hfirst hrest =>
    cases primitive with
    | len => cases hfirst <;> cases hrest <;> rfl
    | _ => rfl

/-! ### Map entries -/

theorem entriesMatch_insert {es es' : Entries} (key : MapKey) (h : EntriesMatch fn es es')
    (hv : Matches fn v v') (hw : Matches fn w w') :
    EntriesMatch fn (es.insert key (v, w)) (es'.insert key (v', w')) := by
  induction h with
  | nil => exact .cons ⟨rfl, hv, hw⟩ .nil
  | @cons e e' _ _ he hes ih =>
    simp only [Entries.insert, he.1]
    by_cases hkey : e'.1 = key
    · rw [if_pos hkey, if_pos hkey]
      exact .cons ⟨rfl, hv, hw⟩ hes
    · rw [if_neg hkey, if_neg hkey]
      exact .cons he ih

theorem rel_find? {es es' : Entries} (key : MapKey) (h : EntriesMatch fn es es') :
    Option.Rel (Matches fn) (es.find? key) (es'.find? key) := by
  induction h with
  | nil => exact .none
  | @cons e e' _ _ he _ ih =>
    unfold Entries.find? at ih ⊢
    rw [List.lookup_cons, List.lookup_cons, he.1]
    cases hkey : key == e'.1 with
    | true => exact .some he.2.2
    | false => exact ih

end Value

/-! ### Frames -/

namespace Frame

variable {fn : Closure → Closure → Prop} {f f' : Frame} {v v' : Value}

def Matches (fn : Closure → Closure → Prop) : Frame → Frame → Prop :=
  List.Forall₂ fun e e' => e.1 = e'.1 ∧ e.2.Matches fn e'.2

theorem Matches.get? (h : Matches fn f f') (name : String) :
    Option.Rel (Value.Matches fn) (f.get? name) (f'.get? name) := by
  induction h with
  | nil => exact .none
  | @cons e e' _ _ he _ ih =>
    unfold Frame.get? at ih ⊢
    rw [List.lookup_cons, List.lookup_cons, he.1]
    cases hname : name == e'.1 with
    | true => exact .some he.2
    | false => exact ih

theorem Matches.set (h : Matches fn f f') (name : String) (hv : v.Matches fn v') :
    Matches fn (f.set name v) (f'.set name v') := by
  refine .cons ⟨rfl, hv⟩ ?_
  exact List.rel_filter (fun _ _ he => by simp [he.1]) h

theorem Matches.names (h : Matches fn f f') : f.names = f'.names := by
  unfold Frame.names
  congr 1
  induction h with
  | nil => rfl
  | cons he _ ih => rw [List.map_cons, List.map_cons, he.1, ih]

theorem matches_self (h : ∀ b ∈ f, ∀ c ∈ b.2.closures, fn c c) : Matches fn f f :=
  List.forall₂_same.mpr fun b hb => ⟨rfl, b.2.matches_self (h b hb)⟩

theorem Matches.mono {gn : Closure → Closure → Prop} (himp : ∀ c c', fn c c' → gn c c')
    (h : Matches fn f f') : Matches gn f f' :=
  h.imp fun _ _ he => ⟨he.1, he.2.mono himp⟩

end Frame

end MonkeyLang

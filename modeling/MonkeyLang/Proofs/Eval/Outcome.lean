import MonkeyLang.Proofs.Eval.Proper
import MonkeyLang.Proofs.Eval.Wording
import MonkeyLang.Proofs.Text.Utf8

/-!
What the evaluation of parsed nodes gives and what it owes, in one pass over the forms. Expressions
give proper values, errors and returns; marks come from statements and blocks only, and the heap
stays proper. A call is counted before it is known whether it can be made, and shown in the trace
once that is known, so a call is owed to the trace at the end only if the result is the error that
refuses it. All of this holds of two evaluations that do the same on proper heaps.
-/
namespace MonkeyLang

/-! ### Calls that are not shown -/

namespace Value

/-- The number of calls that were counted and not shown when a result is given. -/
def unshown : Value → Nat
  | error cause => cause.isRefusedCall.toNat
  | _ => 0

variable {v : Value}

theorem Proper.unshown (h : v.Proper) : v.unshown = 0 := by
  cases v <;> first | rfl | cases h

theorem unshown_of_unwinds (h : v.unwinds = false) : v.unshown = 0 := by
  cases v <;> first | rfl | cases h

theorem unshown_orNull (v : Value) : v.orNull.unshown = v.unshown := by
  cases v <;> rfl

theorem IsOutcomeOrMark.unshown_unwrapped (h : v.IsOutcomeOrMark) :
    v.unwrapped.orNull.unshown = v.unshown := by
  cases v with
  | returned inner =>
    rw [unshown_orNull]
    exact h.returned.unshown
  | _ => exact unshown_orNull _

theorem unshown_checked {value : Int} {cause : EvalError} (h : cause.isRefusedCall = false) :
    (checked value cause).unshown = 0 := by
  unfold checked
  split
  · rfl
  · exact congrArg Bool.toNat h

theorem unshown_prefixValue? {operator : Operator} {u : Value}
    (h : prefixValue? operator v = some u) : u.unshown = 0 := by
  unfold prefixValue? at h
  split at h
  · cases h
    rfl
  · cases h
    exact unshown_checked rfl
  · obtain ⟨kind, -, hkind⟩ := Option.bind_eq_some_iff.mp h
    cases hkind
    rfl

theorem unshown_integerInfix (operator : Operator) (left right : Int) :
    (integerInfix operator left right).unshown = 0 := by
  unfold integerInfix
  split
  case h_4 =>
    split
    · rfl
    · exact unshown_checked rfl
  all_goals first | rfl | exact unshown_checked rfl

theorem unshown_infixValue? {operator : Operator} {u x : Value}
    (h : infixValue? operator v u = some x) : x.unshown = 0 := by
  unfold infixValue? at h
  split at h
  · cases h
    exact unshown_integerInfix operator _ _
  · cases h
    unfold booleanInfix
    split <;> rfl
  · cases h
    unfold stringInfix
    split <;> rfl
  · obtain ⟨kind, -, h⟩ := Option.bind_eq_some_iff.mp h
    obtain ⟨kind', -, h⟩ := Option.bind_eq_some_iff.mp h
    cases h
    rfl

end Value

namespace Builtin

theorem unshown_unary {primitive : Builtin} {argument v : Value} (hargument : argument.Proper)
    (h : call?.unary primitive argument = some v) : v.unshown = 0 := by
  unfold call?.unary at h
  split at h
  · cases h
    exact (proper_onArray (Value.proper_array.mp hargument) primitive).unshown
  · obtain ⟨kind, -, hkind⟩ := Option.bind_eq_some_iff.mp h
    cases hkind
    rfl

theorem unshown_call? {primitive : Builtin} {arguments : List Value} {v : Value}
    (harguments : ∀ u ∈ arguments, u.Proper) (h : primitive.call? arguments = some v) :
    v.unshown = 0 := by
  unfold call? at h
  split at h
  · cases h
    rfl
  · obtain ⟨kind, -, hkind⟩ := Option.bind_eq_some_iff.mp h
    cases hkind
    rfl
  · cases h
    rfl
  · obtain ⟨kind, -, hkind⟩ := Option.bind_eq_some_iff.mp h
    cases hkind
    rfl
  · exact unshown_unary (harguments _ (by simp)) h
  · exact unshown_unary (harguments _ (by simp)) h
  · exact unshown_unary (harguments _ (by simp)) h
  · cases h
    rfl

theorem exists_surrogate_of_fault [Text.Encoding] (primitive : Builtin) {arguments : List Value}
    {fault : Text.EncodeFault} (h : primitive.fault? arguments = some fault) :
    ∃ c, (Text.Encoding.surrogate? c).isSome := by
  unfold fault? at h
  split at h
  · exact Text.exists_surrogate_of_encodeFault? h
  · cases h

end Builtin

/-- All calls counted since the counts were `base` are shown in the trace, but for the given number
of them, and the given number of errors has been counted. -/
structure Machine.Owes (base : Summary) (calls errors : Nat) (m : Machine) : Prop where
  calls_eq : m.summary.calls = base.calls + m.events.countP Event.isCall + calls
  errors_eq : m.summary.errors = base.errors + errors

namespace Eval

open Machine Value

variable [Text.Encoding] {α β : Type}

/-! ### Evaluations side by side -/

/-- The halts of parsed programs. Only a text with a surrogate in it cannot be encoded. -/
def Tolerated : Halt → Prop
  | .tooDeep => True
  | .untyped => False
  | .unencodable _ => ∃ c, (Text.Encoding.surrogate? c).isSome

def Ends (good : α → Prop) : EStateM.Result Halt Machine α → Prop
  | .ok a m => good a ∧ m.heap.Proper
  | .error halt m => Tolerated halt ∧ m.heap.Proper

/-- What is owed at the end depends on the result. No error is counted before a halt, and only an
evaluation that is nested too deeply may stop with a call still to be shown. -/
def Leaves (base : Summary) (after : α → Machine → Prop) : EStateM.Result Halt Machine α → Prop
  | .ok a m => after a m
  | .error .tooDeep m => m.summary.errors = base.errors
  | .error _ m => m.Owes base 0 0

/-- On proper heaps two evaluations do the same and end as they should, and they lead from machines
of one kind to machines of another. -/
def Accounts (base : Summary) (before : Machine → Prop) (good : α → Prop)
    (after : α → Machine → Prop)
    (x y : Eval α) : Prop :=
  ∀ m : Machine, m.heap.Proper → before m → x m = y m ∧ Ends good (y m) ∧ Leaves base after (y m)

abbrev Settles (base : Summary) (good : Value → Prop) (x y : Eval Value) : Prop :=
  Accounts base (Owes base 0 0) good (fun v => Owes base v.unshown 0) x y

section Accounts

variable {base : Summary} {before : Machine → Prop} {good : α → Prop} {after : α → Machine → Prop}
variable {fine : β → Prop} {last : β → Machine → Prop}

theorem Accounts.imp {weak : α → Prop} {x y : Eval α} (h : Accounts base before good after x y)
    (hweak : ∀ a, good a → weak a) : Accounts base before weak after x y := by
  intro m hproper hm
  obtain ⟨heq, hends, hleaves⟩ := h m hproper hm
  refine ⟨heq, ?_, hleaves⟩
  cases hy : y m with
  | ok a m' =>
    rw [hy] at hends
    exact ⟨hweak a hends.1, hends.2⟩
  | error halt m' =>
    rw [hy] at hends
    exact hends

theorem accounts_pure {a : α} (h : good a) (hafter : ∀ m, before m → after a m) :
    Accounts base before good after (pure a) (pure a) :=
  fun m hproper hm => ⟨rfl, ⟨h, hproper⟩, hafter m hm⟩

theorem accounts_bind {x y : Eval α} {f g : α → Eval β}
    (hx : Accounts base before good after x y)
    (hf : ∀ a, good a → Accounts base (after a) fine last (f a) (g a)) :
    Accounts base before fine last (x >>= f) (y >>= g) := by
  intro m hproper hm
  obtain ⟨heq, hends, hleaves⟩ := hx m hproper hm
  change EStateM.bind x f m = EStateM.bind y g m ∧ Ends fine (EStateM.bind y g m) ∧
    Leaves base last (EStateM.bind y g m)
  unfold EStateM.bind
  rw [heq]
  cases hy : y m with
  | ok a m' =>
    rw [hy] at hends hleaves
    exact hf a hends.1 m' hends.2 hleaves
  | error halt m' =>
    rw [hy] at hends hleaves
    cases halt <;> exact ⟨rfl, hends, hleaves⟩

theorem accounts_throw {halt : Halt} (h : Tolerated halt)
    (hbefore : ∀ m, before m → Leaves base after (.error halt m)) :
    Accounts base before good after (throw halt) (throw halt) :=
  fun m hproper hm => ⟨rfl, ⟨h, hproper⟩, hbefore m hm⟩

/-! ### Steps -/

variable {calls errors : Nat}

theorem accounts_emit {event : Event} (h : event.isCall = false) :
    Accounts base (Owes base calls errors) (fun _ => True) (fun _ => Owes base calls errors)
      (emit event) (emit event) := by
  refine fun m hproper hm => ⟨rfl, ⟨trivial, hproper⟩, ?_, hm.errors_eq⟩
  change m.summary.calls = base.calls + (event :: m.events).countP Event.isCall + calls
  rw [List.countP_cons_of_neg (by simp [h]), hm.calls_eq]

theorem accounts_emit_call {event : Event} (h : event.isCall) :
    Accounts base (Owes base (calls + 1) errors) (fun _ => True) (fun _ => Owes base calls errors)
      (emit event) (emit event) := by
  refine fun m hproper hm => ⟨rfl, ⟨trivial, hproper⟩, ?_, hm.errors_eq⟩
  change m.summary.calls = base.calls + (event :: m.events).countP Event.isCall + calls
  rw [List.countP_cons_of_pos h, hm.calls_eq]
  omega

theorem accounts_countCall :
    Accounts base (Owes base calls errors) (fun _ => True) (fun _ => Owes base (calls + 1) errors)
      countCall countCall :=
  fun _ hproper hm =>
    ⟨rfl, ⟨trivial, hproper⟩, congrArg (· + 1) hm.calls_eq, hm.errors_eq⟩

theorem accounts_countError :
    Accounts base (Owes base calls errors) (fun _ => True) (fun _ => Owes base calls (errors + 1))
      countError countError :=
  fun _ hproper hm =>
    ⟨rfl, ⟨trivial, hproper⟩, hm.calls_eq, congrArg (· + 1) hm.errors_eq⟩

theorem accounts_countStatement :
    Accounts base (Owes base calls errors) (fun _ => True) (fun _ => Owes base calls errors)
      countStatement countStatement :=
  fun _ hproper hm => ⟨rfl, ⟨trivial, hproper⟩, hm.calls_eq, hm.errors_eq⟩

theorem accounts_resolve? (scope : Scope) (name : String) :
    Accounts base (Owes base calls errors) (fun found => ∀ v ∈ found, v.Proper)
      (fun _ => Owes base calls errors) (resolve? scope name) (resolve? scope name) :=
  fun _ hproper hm => ⟨rfl, ⟨fun _ hv => hproper.resolve? hv, hproper⟩, hm⟩

theorem accounts_bindName (scope : Scope) (name : String) {value : Value} (h : value.Proper) :
    Accounts base (Owes base calls errors) (fun _ => True) (fun _ => Owes base calls errors)
      (bindName scope name value) (bindName scope name value) :=
  fun _ hproper hm => ⟨rfl, ⟨trivial, hproper.set scope name h⟩, hm.calls_eq, hm.errors_eq⟩

theorem accounts_bindNames (scope : Scope) (names : List String) {values : List Value}
    (h : ∀ v ∈ values, v.Proper) :
    Accounts base (Owes base calls errors) (fun _ => True) (fun _ => Owes base calls errors)
      (bindNames scope names values) (bindNames scope names values) := by
  fun_induction (bindNames scope names values : Eval Unit) with
  | case1 name names value values ih =>
    obtain ⟨hvalue, hvalues⟩ := List.forall_mem_cons.mp h
    exact accounts_bind (accounts_bindName scope name hvalue) fun _ _ => ih hvalues
  | case2 => exact accounts_pure trivial fun _ hm => hm

theorem accounts_makeScope {make : Heap → Scope × Heap}
    (h : ∀ heap : Heap, heap.Proper → (make heap).2.Proper) :
    Accounts base (Owes base calls errors) (fun _ => True) (fun _ => Owes base calls errors)
      (makeScope make) (makeScope make) :=
  fun m hproper hm => ⟨rfl, ⟨trivial, h m.heap hproper⟩, hm.calls_eq, hm.errors_eq⟩

theorem accounts_typed {found : Option α} (h : ∃ a, found = some a ∧ good a)
    (hafter : ∀ a m, found = some a → before m → after a m) :
    Accounts base before good after (typed found) (typed found) := by
  obtain ⟨a, rfl, ha⟩ := h
  exact accounts_pure ha fun m hm => hafter a m rfl hm

theorem accounts_kind {v : Value} (h : v.Proper) :
    Accounts base before (fun _ => True) (fun _ => before) (typed v.kind?) (typed v.kind?) := by
  obtain ⟨kind, hkind⟩ := h.exists_kind
  exact accounts_typed ⟨kind, hkind, trivial⟩ fun _ _ _ hm => hm

theorem accounts_key {v : Value} (h : v.Proper) :
    Accounts base before (fun _ => True) (fun _ => before) (typed v.key?) (typed v.key?) := by
  obtain ⟨key, hkey⟩ := h.exists_key
  exact accounts_typed ⟨key, hkey, trivial⟩ fun _ _ _ hm => hm

theorem accounts_encodable (primitive : Builtin) (arguments : List Value) :
    Accounts base (Owes base 0 0) (fun _ => True) (fun _ => Owes base 0 0)
      (encodable (primitive.fault? arguments)) (encodable (primitive.fault? arguments)) := by
  cases hfault : primitive.fault? arguments with
  | none => exact accounts_pure trivial fun _ hm => hm
  | some fault =>
    exact accounts_throw (primitive.exists_surrogate_of_fault hfault) fun _ hm => hm

end Accounts

section Settles

variable {base : Summary} {good : Value → Prop}

theorem settles_pure {v : Value} (h : good v) (hdue : v.unshown = 0) :
    Settles base good (pure v) (pure v) :=
  accounts_pure h fun _ hm => hdue ▸ hm

theorem settles_typed {found : Option Value} (h : ∃ v, found = some v ∧ good v)
    (hdue : ∀ v, found = some v → v.unshown = 0) : Settles base good (typed found) (typed found) :=
  accounts_typed h fun v _ hv hm => hdue v hv ▸ hm

theorem settles_onValue {x y : Eval Value} {f g : Value → Eval Value}
    (hx : Settles base IsOutcome x y)
    (hpassed : ∀ v : Value, v.IsOutcome → v.unwinds → good v)
    (hf : ∀ v : Value, v.Proper → Settles base good (f v) (g v)) :
    Settles base good (onValue x f) (onValue y g) := by
  refine accounts_bind hx fun v hv => ?_
  cases hunwinds : v.unwinds with
  | true => exact accounts_pure (hpassed v hv hunwinds) fun _ hm => hm
  | false =>
    have hproper := hv.proper hunwinds
    rw [hproper.unshown]
    exact hf v hproper

end Settles

/-! ### What nodes give -/

inductive Runnable : Node → Prop
  | expression {n : Node} (h : Shaped (.expression n)) : Runnable n
  | statement {n : Node} (h : Shaped (.statement n)) : Runnable n
  | block {n : Node} (h : Shaped (.block n)) : Runnable n

/-- What the evaluation of a node may give. Marks come from statements and blocks only, and a return
ends at the program. -/
def Gives : Node → Value → Prop
  | .program _ => IsAnswer
  | .letBind _ _ | .block _ => IsOutcomeOrMark
  | _ => IsOutcome

omit [Text.Encoding] in
theorem gives_of_expression {n : Node} (h : Shaped (.expression n)) : Gives n = IsOutcome := by
  cases h <;> rfl

def SubSettles (base : Summary) (s t : Sub) : Prop :=
  ∀ n, Runnable n → ∀ scope, Settles base (Gives n) (s n scope) (t n scope)

section Forms

variable {base : Summary} {s t : Sub} {n : Node}

theorem SubSettles.expression (h : SubSettles base s t) (hn : Shaped (.expression n))
    (scope : Scope) : Settles base IsOutcome (s n scope) (t n scope) := by
  rw [← gives_of_expression hn]
  exact h n (.expression hn) scope

theorem SubSettles.statement (h : SubSettles base s t) (hn : Shaped (.statement n))
    (scope : Scope) : Settles base IsOutcomeOrMark (s n scope) (t n scope) := by
  refine (h n (.statement hn) scope).imp fun v hv => ?_
  cases hn with
  | letBind => exact hv
  | returning | expression => exact Or.inr (Or.inr hv)

theorem SubSettles.block (h : SubSettles base s t) (hn : Shaped (.block n)) (scope : Scope) :
    Settles base IsOutcomeOrMark (s n scope) (t n scope) := by
  have hgives : Gives n = IsOutcomeOrMark := by cases hn; rfl
  rw [← hgives]
  exact h n (.block hn) scope

/-! ### Sequences -/

theorem settles_blockFrom (h : SubSettles base s t) (scope : Scope) {nodes : List Node}
    {result : Value} (hnodes : ∀ n ∈ nodes, Shaped (.statement n))
    (hresult : result.IsOutcomeOrMark) (hdue : result.unshown = 0) :
    Settles base IsOutcomeOrMark (blockFrom s scope result nodes)
      (blockFrom t scope result nodes) := by
  induction nodes generalizing result with
  | nil => exact settles_pure hresult hdue
  | cons n rest ih =>
    obtain ⟨hn, hrest⟩ := List.forall_mem_cons.mp hnodes
    refine accounts_bind (h.statement hn scope) fun v hv => ?_
    refine accounts_bind accounts_countStatement fun _ _ => ?_
    cases hunwinds : v.unwinds with
    | true => exact accounts_pure hv fun _ hm => hm
    | false =>
      have hnone : v.unshown = 0 := unshown_of_unwinds hunwinds
      rw [hnone]
      exact ih hrest hv hnone

theorem accounts_programFrom (h : SubSettles base s t) (scope : Scope) {nodes : List Node}
    {result : Value} (hnodes : ∀ n ∈ nodes, Shaped (.statement n)) (hresult : result.IsAnswer)
    (hgoes : result.unwinds = false) (number : Nat) :
    Accounts base (Owes base 0 0) IsAnswer (fun v => Owes base v.unshown v.isError.toNat)
      (programFrom s scope number result nodes) (programFrom t scope number result nodes) := by
  induction nodes generalizing number result with
  | nil =>
    refine accounts_pure hresult fun m hm => ?_
    have herror : result.isError = false := by cases result <;> first | rfl | cases hgoes
    rw [unshown_of_unwinds hgoes, herror]
    exact hm
  | cons n rest ih =>
    obtain ⟨hn, hrest⟩ := List.forall_mem_cons.mp hnodes
    refine accounts_bind (accounts_emit rfl) fun _ _ => ?_
    refine accounts_bind (h.statement hn scope) fun v hv => ?_
    refine accounts_bind accounts_countStatement fun _ _ => ?_
    cases v with
    | returned inner =>
      have hinner : inner.Proper := hv.returned
      have herror : inner.isError = false := by cases inner <;> first | rfl | cases hinner
      refine accounts_bind (accounts_kind hinner) fun _ _ => ?_
      refine accounts_bind (accounts_emit rfl) fun _ _ => ?_
      refine accounts_pure hinner.isAnswer fun m hm => ?_
      rw [hinner.unshown, herror]
      exact hm
    | error cause =>
      refine accounts_bind (accounts_emit rfl) fun _ _ => ?_
      refine accounts_bind accounts_countError fun _ _ => ?_
      exact accounts_pure trivial fun _ hm => hm
    | _ =>
      -- Nothing unwinds here, so what is left is a mark or a proper value.
      exact ih hrest (hv.isAnswer rfl) rfl (number + 1)

def IsList : Except Value (List Value) → Prop
  | .ok values => ∀ v ∈ values, v.Proper
  | .error result => result.IsOutcome

theorem accounts_valuesOf (h : SubSettles base s t) (scope : Scope) {nodes : List Node}
    (hnodes : ∀ n ∈ nodes, Shaped (.expression n)) :
    Accounts base (Owes base 0 0) IsList
      (fun r => Owes base (match r with | .ok _ => 0 | .error v => v.unshown) 0)
      (valuesOf s scope nodes) (valuesOf t scope nodes) := by
  induction nodes with
  | nil => exact accounts_pure (List.forall_mem_nil _) fun _ hm => hm
  | cons n rest ih =>
    obtain ⟨hn, hrest⟩ := List.forall_mem_cons.mp hnodes
    refine accounts_bind (h.expression hn scope) fun v hv => ?_
    cases hunwinds : v.unwinds with
    | true => exact accounts_pure hv fun _ hm => hm
    | false =>
      have hproper := hv.proper hunwinds
      rw [hproper.unshown]
      refine accounts_bind (ih hrest) fun r hr => ?_
      cases r with
      | ok values => exact accounts_pure (List.forall_mem_cons.mpr ⟨hproper, hr⟩) fun _ hm => hm
      | error result => exact accounts_pure hr fun _ hm => hm

theorem settles_entriesFrom (h : SubSettles base s t) (scope : Scope) {entries : List (Node × Node)}
    {found : Entries} (hentries : ∀ e ∈ entries, Shaped (.entry e.1 e.2))
    (hfound : ∀ e ∈ found, e.2.1.Proper ∧ e.2.2.Proper) :
    Settles base IsOutcome (entriesFrom s scope found entries)
      (entriesFrom t scope found entries) := by
  induction entries generalizing found with
  | nil => exact settles_pure (proper_map.mpr hfound) rfl
  | cons e rest ih =>
    obtain ⟨he, hrest⟩ := List.forall_mem_cons.mp hentries
    cases he with
    | entry hkey hvalue =>
      refine settles_onValue (h.expression hkey scope) (fun _ hv _ => hv) fun key hproper => ?_
      refine accounts_bind (accounts_key hproper) fun mapKey _ => ?_
      -- The three usable kinds of keys go on in the same way.
      have hgoesOn : ∀ mapKey, Settles base IsOutcome
          (onValue (s e.2 scope) fun value =>
            entriesFrom s scope (found.insert mapKey (key, value)) rest)
          (onValue (t e.2 scope) fun value =>
            entriesFrom t scope (found.insert mapKey (key, value)) rest) := by
        intro mapKey
        refine settles_onValue (h.expression hvalue scope) (fun _ hv _ => hv) fun value hv => ?_
        exact ih hrest (Entries.proper_insert ⟨hproper, hv⟩ hfound)
      cases mapKey with
      | unusable kind => exact settles_pure trivial rfl
      | _ => exact hgoesOn _

theorem settles_branch (h : SubSettles base s t) (hn : Shaped (.block n)) (scope : Scope) :
    Settles base IsOutcome (do return (← s n scope).orNull) (do return (← t n scope).orNull) := by
  refine accounts_bind (h.block hn scope) fun v hv => ?_
  exact accounts_pure hv.orNull fun _ hm => (unshown_orNull v).symm ▸ hm

/-! ### Calls and indexing -/

theorem settles_applyValue (h : SubSettles base s t) {callee : Value} {arguments : List Value}
    (hcallee : callee.Proper) (harguments : ∀ v ∈ arguments, v.Proper) :
    Settles base IsOutcome (applyValue s callee arguments) (applyValue t callee arguments) := by
  refine accounts_bind accounts_countCall fun _ _ => ?_
  -- One call is owed from here on, until it is shown or refused.
  cases callee with
  | function parameters body scope =>
    by_cases harity : parameters.length = arguments.length
    · simp only [harity, if_true]
      refine accounts_bind (accounts_makeScope fun _ hh => hh.enclosed scope) fun inner _ => ?_
      refine accounts_bind (accounts_bindNames inner parameters harguments) fun _ _ => ?_
      refine accounts_bind (accounts_emit_call rfl) fun _ _ => ?_
      refine accounts_bind (h.block hcallee inner) fun v hv => ?_
      exact accounts_pure hv.unwrapped fun _ hm => hv.unshown_unwrapped.symm ▸ hm
    · simp only [harity, if_false]
      exact accounts_pure trivial fun _ hm => hm
  | builtin primitive =>
    refine accounts_bind (accounts_emit_call rfl) fun _ _ => ?_
    refine accounts_bind (accounts_encodable primitive arguments) fun _ _ => ?_
    exact settles_typed (primitive.exists_call? harguments)
      fun _ hv => Builtin.unshown_call? harguments hv
  | _ =>
    refine accounts_bind (accounts_kind hcallee) fun _ _ => ?_
    exact accounts_pure trivial fun _ hm => hm

/-- What the arguments of a call are given to may be watched, as long as it applies the callee. -/
theorem settles_call (h : SubSettles base s t) {apply : Value → List Value → Eval Value}
    (happly : ∀ {callee : Value} {arguments : List Value}, callee.Proper →
      (∀ v ∈ arguments, v.Proper) →
      Settles base IsOutcome (apply callee arguments) (applyValue t callee arguments))
    (scope : Scope) {callee : Node} {arguments : List Node} (hcallee : Shaped (.expression callee))
    (harguments : ∀ n ∈ arguments, Shaped (.expression n)) :
    Settles base IsOutcome
      (do
        emit (.callNode arguments.length)
        onValue (s callee scope) fun callee => do
          match ← valuesOf s scope arguments with
          | .ok arguments => apply callee arguments
          | .error result => return result)
      (evalForm t scope (.call callee arguments)) := by
  refine accounts_bind (accounts_emit rfl) fun _ _ => ?_
  refine settles_onValue (h.expression hcallee scope) (fun _ hv _ => hv) fun f hf => ?_
  refine accounts_bind (accounts_valuesOf h scope harguments) fun r hr => ?_
  cases r with
  | ok values => exact happly hf hr
  | error result => exact accounts_pure hr fun _ hm => hm

theorem settles_indexValue {collection position : Value} (hcollection : collection.Proper)
    (hposition : position.Proper) :
    Settles base IsOutcome (indexValue collection position) (indexValue collection position) := by
  unfold indexValue
  split
  · next elements place =>
    have helements := proper_array.mp hcollection
    have hproper : Value.Proper
        (if place < 0 then .null else elements[place.toNat]?.getD .null) := by
      split
      · trivial
      · cases helement : elements[place.toNat]? with
        | none => trivial
        | some v => exact helements v (List.mem_of_getElem? helement)
    exact settles_pure hproper.isOutcome hproper.unshown
  · next entries position =>
    refine accounts_bind (accounts_key hposition) fun key _ => ?_
    have hfound := Entries.proper_find? (proper_map.mp hcollection) key
    cases key with
    | unusable kind => exact settles_pure trivial rfl
    | _ => exact settles_pure hfound.isOutcome hfound.unshown
  · refine accounts_bind (accounts_kind hcollection) fun _ _ => ?_
    exact settles_pure trivial rfl

/-! ### Nodes -/

theorem settles_expressionForm (h : SubSettles base s t) (scope : Scope)
    (hn : Shaped (.expression n)) :
    Settles base IsOutcome (evalForm s scope n) (evalForm t scope n) := by
  have hpassed : ∀ v : Value, v.IsOutcome → v.unwinds → v.IsOutcome := fun _ hv _ => hv
  cases hn with
  | identifier name =>
    refine accounts_bind (accounts_resolve? scope name) fun found hfound => ?_
    cases found with
    | some v =>
      have hproper := hfound v rfl
      exact settles_pure hproper.isOutcome hproper.unshown
    | none =>
      refine accounts_bind (accounts_emit rfl) fun _ _ => ?_
      exact settles_pure trivial rfl
  | integer | text | boolean => exact settles_pure trivial rfl
  | prefixOp operator hright =>
    refine accounts_bind (accounts_emit rfl) fun _ _ => ?_
    refine settles_onValue (h.expression hright scope) hpassed fun right hr => ?_
    exact settles_typed (exists_prefixValue? operator hr) fun _ hv => unshown_prefixValue? hv
  | infixOp operator hleft hright =>
    refine accounts_bind (accounts_emit rfl) fun _ _ => ?_
    refine settles_onValue (h.expression hleft scope) hpassed fun left hl => ?_
    refine settles_onValue (h.expression hright scope) hpassed fun right hr => ?_
    exact settles_typed (exists_infixValue? operator hl hr) fun _ hv => unshown_infixValue? hv
  | grouped hinner => exact h.expression hinner scope
  | conditional hcondition hconsequence =>
    refine settles_onValue (h.expression hcondition scope) hpassed fun condition _ => ?_
    cases condition.isTruthy with
    | true => exact settles_branch h hconsequence scope
    | false => exact settles_pure trivial rfl
  | conditionalElse hcondition hconsequence halternative =>
    refine settles_onValue (h.expression hcondition scope) hpassed fun condition _ => ?_
    cases condition.isTruthy with
    | true => exact settles_branch h hconsequence scope
    | false =>
      -- The alternative is a block, so it is not taken for a missing one.
      cases halternative with
      | block hnodes => exact settles_branch h (.block hnodes) scope
  | function parameters hbody =>
    refine accounts_bind (accounts_makeScope fun _ hh => hh.snapshot scope) fun _ _ => ?_
    exact settles_pure hbody rfl
  | call hcallee harguments => exact settles_call h (settles_applyValue h) scope hcallee harguments
  | array helements =>
    refine accounts_bind (accounts_valuesOf h scope helements) fun r hr => ?_
    cases r with
    | ok values => exact settles_pure (proper_array.mpr hr) rfl
    | error result => exact accounts_pure hr fun _ hm => hm
  | index hcollection hposition =>
    refine settles_onValue (h.expression hcollection scope) hpassed fun collection hc => ?_
    refine settles_onValue (h.expression hposition scope) hpassed fun position hp => ?_
    exact settles_indexValue hc hp
  | mapping hentries =>
    refine accounts_bind (accounts_emit rfl) fun _ _ => ?_
    exact settles_entriesFrom h scope hentries (List.forall_mem_nil _)

theorem settles_statementForm (h : SubSettles base s t) (scope : Scope)
    (hn : Shaped (.statement n)) :
    Settles base (Gives n) (evalForm s scope n) (evalForm t scope n) := by
  cases hn with
  | letBind name hvalue =>
    refine settles_onValue (h.expression hvalue scope) (fun _ hv _ => .inr (.inr hv)) fun v hv => ?_
    refine accounts_bind (accounts_bindName scope name hv) fun _ _ => ?_
    refine accounts_bind (accounts_emit rfl) fun _ _ => ?_
    exact settles_pure (.inl rfl) rfl
  | returning hvalue =>
    refine settles_onValue (h.expression hvalue scope) (fun _ hv _ => hv) fun v hv => ?_
    exact settles_pure hv rfl
  | expression hinner => exact h.expression hinner scope

theorem settles_evalForm (h : SubSettles base s t) (scope : Scope) (hn : Runnable n) :
    Settles base (Gives n) (evalForm s scope n) (evalForm t scope n) := by
  cases hn with
  | expression hn =>
    rw [gives_of_expression hn]
    exact settles_expressionForm h scope hn
  | statement hn => exact settles_statementForm h scope hn
  | block hn =>
    cases hn with
    | block hnodes =>
      refine accounts_bind (accounts_emit rfl) fun _ _ => ?_
      exact settles_blockFrom h scope hnodes.forall_mem (.inr (.inl rfl)) rfl

theorem accounts_programForm (h : SubSettles base s t) (scope : Scope) {nodes : List Node}
    (hnodes : Shaped (.statements nodes)) :
    Accounts base (Owes base 0 0) IsAnswer (fun v => Owes base v.unshown v.isError.toNat)
      (evalForm s scope (.program nodes)) (evalForm t scope (.program nodes)) := by
  refine accounts_bind (accounts_emit rfl) fun _ _ => ?_
  refine accounts_bind (accounts_emit rfl) fun _ _ => ?_
  have hempty : emptyMark.IsAnswer := trivial
  exact accounts_programFrom h scope hnodes.forall_mem hempty rfl 1

end Forms

theorem settles_tooDeep {base : Summary} {good : Value → Prop} {after : Value → Machine → Prop} :
    Accounts base (Owes base 0 0) good after (throw .tooDeep) (throw .tooDeep) :=
  accounts_throw trivial fun _ hm => hm.errors_eq

end Eval

end MonkeyLang

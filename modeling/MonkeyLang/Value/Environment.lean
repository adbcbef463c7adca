import MonkeyLang.Text.Quoted
import MonkeyLang.Value.Basic

/-!
Environments. Each holds its bindings in a store, knows the environment around it, and reads that
one where its own store does not bind a name. A snapshot takes over the store of its original and
marks both of them as sharing it. Whichever of the two binds a name next copies the store first, so
neither sees what is bound on the other one later.
-/
namespace MonkeyLang

/-- Bindings, each name at most once. -/
abbrev Frame := List (String × Value)

namespace Frame

def get? (f : Frame) (name : String) : Option Value := f.lookup name

def set (f : Frame) (name : String) (value : Value) : Frame :=
  (name, value) :: f.filter (·.1 ≠ name)

def names (f : Frame) : List String := (f.map Prod.fst).mergeSort (· ≤ ·)

end Frame

structure Environment where
  store : Nat
  outer : Option Nat
  builtins : List Builtin
  shared : Bool
deriving DecidableEq

structure Environments where
  stores : Array Frame := #[]
  table : Array Environment := #[]

namespace Environments

variable (e : Environments) (i : Nat) (name : String) (value : Value)

def size : Nat := e.table.size

def frame : Frame :=
  match e.table[i]? with
  | some env => e.stores.getD env.store []
  | none => []

def outer? : Option Nat := (e.table[i]?).bind Environment.outer

def builtins : List Builtin := ((e.table[i]?).map Environment.builtins).getD []

/-! ### Lookups -/

def walk : Nat → Option Nat → Option (List Nat)
  | _, none => some []
  | 0, some _ => none
  | n + 1, some i => (walk n (e.outer? i)).map (i :: ·)

/-- An environment is younger than the ones around it, so their number is no larger than its own. -/
def chain : List Nat := (e.walk (i + 1) (some i)).getD []

def get? : Option Value := (e.chain i).findSome? fun j => (e.frame j).get? name

def builtin? : Option Value := ((e.builtins i).find? (·.name = name)).map Value.builtin

def resolve? : Option Value := (e.get? i name).or (e.builtin? i name)

def depth : Nat := (e.chain i).tail.length

def display : String :=
  "Environment(names=" ++ Text.quotedList (e.frame i).names ++ ", depth=" ++
    toString (e.depth i) ++ ")"

/-! ### Operations -/

def new (outer : Option Nat) (builtins : List Builtin) : Nat × Environments :=
  (e.size,
    { stores := e.stores.push []
      table := e.table.push { store := e.stores.size, outer, builtins, shared := false } })

def enclosed : Nat × Environments := e.new (some i) (e.builtins i)

def unshare : Environments :=
  match e.table[i]? with
  | some env =>
    if env.shared then
      { stores := e.stores.push (e.frame i)
        table := e.table.setIfInBounds i { env with store := e.stores.size, shared := false } }
    else e
  | none => e

/-- Writes to the store of an environment, whoever else holds it. -/
def write : Environments :=
  match e.table[i]? with
  | some env => { e with stores := e.stores.modify env.store (·.set name value) }
  | none => e

def set : Environments := (e.unshare i).write i name value

def snapshot : Nat × Environments :=
  match e.table[i]? with
  | some env =>
    let env := { env with shared := true }
    (e.size, { e with table := (e.table.setIfInBounds i env).push env })
  | none => e.new none []

/-! ### Well-formed environments -/

structure WellFormed : Prop where
  store_lt : ∀ {i : Nat} {env : Environment}, e.table[i]? = some env → env.store < e.stores.size
  /-- An environment is younger than the one around it. -/
  outer_lt : ∀ {i o : Nat} {env : Environment}, e.table[i]? = some env → env.outer = some o → o < i
  /-- Of two environments that hold one store, both are marked. -/
  shared : ∀ {i j : Nat} {env env' : Environment}, e.table[i]? = some env →
    e.table[j]? = some env' → i ≠ j → env.store = env'.store → env.shared

theorem wellFormed_empty : WellFormed {} where
  store_lt h := by simp at h
  outer_lt h := by simp at h
  shared h := by simp at h

variable {e i}

theorem table_new (outer : Option Nat) (builtins : List Builtin) (j : Nat) :
    (e.new outer builtins).2.table[j]? =
      if j = e.size then some ⟨e.stores.size, outer, builtins, false⟩ else e.table[j]? :=
  Array.getElem?_push

theorem table_set {env : Environment} (hi : e.table[i]? = some env) (changed : Environment)
    (j : Nat) :
    (e.table.setIfInBounds i changed)[j]? = if j = i then some changed else e.table[j]? := by
  have hlt := (Array.getElem?_eq_some_iff.mp hi).1
  rw [Array.getElem?_setIfInBounds]
  by_cases heq : i = j
  · rw [if_pos heq, if_pos hlt, if_pos heq.symm]
  · rw [if_neg heq, if_neg (Ne.symm heq)]

theorem unshare_of_shared {env : Environment} (hi : e.table[i]? = some env) (h : env.shared) :
    e.unshare i =
      { stores := e.stores.push (e.frame i)
        table :=
          e.table.setIfInBounds i { env with store := e.stores.size, shared := false } } := by
  simp only [unshare, hi, h, if_true]

theorem snapshot_of_some {env : Environment} (hi : e.table[i]? = some env) :
    e.snapshot i =
      (e.size,
        { e with table := (e.table.setIfInBounds i { env with shared := true }).push
                   { env with shared := true } }) := by
  simp only [snapshot, hi]

theorem table_snapshot {env : Environment} (hi : e.table[i]? = some env) (j : Nat) :
    (e.snapshot i).2.table[j]? =
      if j = e.size ∨ j = i then some { env with shared := true } else e.table[j]? := by
  rw [snapshot_of_some hi, Array.getElem?_push, Array.size_setIfInBounds, table_set hi]
  by_cases hsize : j = e.table.size
  · rw [if_pos hsize, if_pos (.inl hsize)]
  · simp only [size, hsize, if_false, false_or]

namespace WellFormed

variable (h : e.WellFormed)
include h

theorem new {outer : Option Nat} (houter : ∀ o, outer = some o → o < e.size)
    (builtins : List Builtin) : (e.new outer builtins).2.WellFormed := by
  have hsize : (e.new outer builtins).2.stores.size = e.stores.size + 1 := Array.size_push _
  constructor
  all_goals simp only [table_new, hsize]
  · intro i env hi
    split at hi
    · cases hi
      exact Nat.lt_succ_self _
    · exact Nat.lt_succ_of_lt (h.store_lt hi)
  · intro i o env hi ho
    split at hi
    · next heq =>
      cases hi
      exact heq ▸ houter o ho
    · exact h.outer_lt hi ho
  · intro i j env env' hi hj hne hstore
    split at hi
    · split at hj
      · omega
      · cases hi
        exact absurd hstore (Nat.ne_of_gt (h.store_lt hj))
    · split at hj
      · cases hj
        exact absurd hstore (Nat.ne_of_lt (h.store_lt hi))
      · exact h.shared hi hj hne hstore

theorem unshare (k : Nat) : (e.unshare k).WellFormed := by
  cases hk : e.table[k]? with
  | none => simpa only [Environments.unshare, hk] using h
  | some env =>
    by_cases hshared : env.shared
    · rw [unshare_of_shared hk hshared]
      constructor
      all_goals simp only [table_set hk, Array.size_push]
      · intro i env' hi
        split at hi
        · cases hi
          exact Nat.lt_succ_self _
        · exact Nat.lt_succ_of_lt (h.store_lt hi)
      · intro i o env' hi ho
        split at hi
        · next heq =>
          cases hi
          exact heq ▸ h.outer_lt hk ho
        · exact h.outer_lt hi ho
      · intro i j env₁ env₂ hi hj hne hstore
        split at hi
        · split at hj
          · omega
          · cases hi
            exact absurd hstore (Nat.ne_of_gt (h.store_lt hj))
        · split at hj
          · cases hj
            exact absurd hstore (Nat.ne_of_lt (h.store_lt hi))
          · exact h.shared hi hj hne hstore
    · simpa only [Environments.unshare, hk, if_neg hshared] using h

theorem write (k : Nat) (name : String) (value : Value) : (e.write k name value).WellFormed := by
  cases hk : e.table[k]? with
  | none => simpa only [Environments.write, hk] using h
  | some env =>
    simp only [Environments.write, hk]
    refine ⟨fun hi => ?_, h.outer_lt, h.shared⟩
    rw [Array.size_modify]
    exact h.store_lt hi

theorem set (k : Nat) (name : String) (value : Value) : (e.set k name value).WellFormed :=
  (h.unshare k).write k name value

theorem snapshot (k : Nat) : (e.snapshot k).2.WellFormed := by
  cases hk : e.table[k]? with
  | none =>
    simp only [Environments.snapshot, hk]
    exact h.new (fun o ho => by cases ho) []
  | some env =>
    have hlt : k < e.size := (Array.getElem?_eq_some_iff.mp hk).1
    have hstore := h.store_lt hk
    have hstores : (e.snapshot k).2.stores = e.stores := by rw [snapshot_of_some hk]
    constructor
    all_goals simp only [table_snapshot hk, hstores]
    · intro i env' hi
      split at hi
      · cases hi
        exact hstore
      · exact h.store_lt hi
    · intro i o env' hi ho
      split at hi
      · next heq =>
        cases hi
        have := h.outer_lt hk ho
        omega
      · exact h.outer_lt hi ho
    · intro i j env₁ env₂ hi hj hne hstore
      split at hi
      · cases hi
        rfl
      · next hother =>
        split at hj
        · cases hj
          exact h.shared hi hk (fun heq => hother (.inr heq)) hstore
        · exact h.shared hi hj hne hstore

end WellFormed

end Environments

end MonkeyLang

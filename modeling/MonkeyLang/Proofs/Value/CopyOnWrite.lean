import MonkeyLang.Value.Environment

/-!
Shared stores look like frames of their own. A snapshot copies nothing and a binding copies only
where it must, but what an environment holds after any operation is what it would hold if every
environment had its bindings to itself and a snapshot copied them all.
-/
namespace MonkeyLang

namespace Frame

variable {f : Frame} {name other : String} {value : Value}

theorem get?_set_self : (f.set name value).get? name = some value := by
  simp [Frame.get?, Frame.set]

theorem get?_set_of_ne (h : other ≠ name) : (f.set name value).get? other = f.get? other := by
  have hhead : (other == name) = false := by simpa using h
  rw [Frame.get?, Frame.set, List.lookup_cons, hhead]
  show List.lookup other _ = List.lookup other f
  induction f with
  | nil => rfl
  | cons e rest ih =>
    by_cases hname : e.1 = name
    · have hother : (other == e.1) = false := by simpa [hname] using h
      rw [List.filter_cons_of_neg (by simpa using hname), List.lookup_cons, hother]
      exact ih
    · rw [List.filter_cons_of_pos (by simpa using hname), List.lookup_cons, List.lookup_cons, ih]

theorem findSome?_congr {find find' : Nat → Option Value} {is : List Nat}
    (h : ∀ i ∈ is, find i = find' i) : is.findSome? find = is.findSome? find' := by
  induction is with
  | nil => rfl
  | cons i is ih =>
    obtain ⟨hi, his⟩ := List.forall_mem_cons.mp h
    rw [List.findSome?_cons, List.findSome?_cons, hi, ih his]

theorem mem_names : name ∈ f.names ↔ ∃ b ∈ f, b.1 = name := by
  rw [Frame.names, List.mem_mergeSort, List.mem_map]

end Frame

namespace Environments

variable {e : Environments} {i : Nat} {env : Environment}

/-! ### Numbers of environments -/

theorem exists_of_lt_size (hi : i < e.size) : ∃ env, e.table[i]? = some env :=
  ⟨_, Array.getElem?_eq_getElem hi⟩

theorem size_new (outer : Option Nat) (builtins : List Builtin) :
    (e.new outer builtins).2.size = e.size + 1 :=
  Array.size_push _

theorem size_unshare (i : Nat) : (e.unshare i).size = e.size := by
  unfold unshare
  split
  · split
    · exact Array.size_setIfInBounds
    · rfl
  · rfl

theorem size_set (i : Nat) (name : String) (value : Value) :
    (e.set i name value).size = e.size := by
  rw [set, write]
  split
  · exact size_unshare i
  · exact size_unshare i

theorem size_snapshot (i : Nat) : (e.snapshot i).2.size = e.size + 1 := by
  cases hi : e.table[i]? with
  | none => simpa only [snapshot, hi] using size_new none []
  | some env =>
    rw [snapshot_of_some hi, size, Array.size_push, Array.size_setIfInBounds]
    rfl

theorem number_snapshot (i : Nat) : (e.snapshot i).1 = e.size := by
  unfold snapshot
  split <;> rfl

/-! ### Frames -/

theorem frame_of_table (hi : e.table[i]? = some env) : e.frame i = e.stores.getD env.store [] := by
  simp only [frame, hi]

theorem frame_of_size_le (hi : e.size ≤ i) : e.frame i = [] := by
  simp only [frame, Array.getElem?_eq_none hi]

theorem frame_congr {e' : Environments} (htable : e'.table[i]? = e.table[i]?)
    (hstores : ∀ env, e.table[i]? = some env →
      e'.stores.getD env.store [] = e.stores.getD env.store []) :
    e'.frame i = e.frame i := by
  unfold frame
  rw [htable]
  cases hi : e.table[i]? with
  | none => rfl
  | some env => exact hstores env hi

theorem getD_push_of_lt {stores : Array Frame} (f : Frame) (hi : i < stores.size) :
    (stores.push f).getD i [] = stores.getD i [] := by
  simp only [Array.getD_eq_getD_getElem?, Array.getElem?_push_lt hi, Array.getElem?_eq_getElem hi]

theorem getD_modify_self {stores : Array Frame} (f : Frame → Frame) (hi : i < stores.size) :
    (stores.modify i f).getD i [] = f (stores.getD i []) := by
  simp only [Array.getD_eq_getD_getElem?, Array.getElem?_modify, Array.getElem?_eq_getElem hi,
    if_true, Option.map_some, Option.getD_some]

theorem getD_modify_of_ne {stores : Array Frame} {j : Nat} (f : Frame → Frame) (hne : j ≠ i) :
    (stores.modify i f).getD j [] = stores.getD j [] := by
  simp [Array.getD_eq_getD_getElem?, Array.getElem?_modify, Ne.symm hne]

theorem not_shared_unshare (hi : (e.unshare i).table[i]? = some env) : env.shared = false := by
  unfold unshare at hi
  split at hi
  next env' hi' =>
    split at hi
    · rw [table_set hi', if_pos rfl] at hi
      cases hi
      rfl
    · next hshared =>
      rw [hi'] at hi
      cases hi
      simpa using hshared
  next hi' =>
    rw [hi'] at hi
    cases hi

namespace WellFormed

variable (h : e.WellFormed)
include h

theorem frame_new (outer : Option Nat) (builtins : List Builtin) (j : Nat) :
    (e.new outer builtins).2.frame j = if j = e.size then [] else e.frame j := by
  have htable := table_new (e := e) outer builtins j
  split
  next heq =>
    rw [if_pos heq] at htable
    rw [frame_of_table htable]
    simp [Environments.new, Array.getD_eq_getD_getElem?]
  next hne =>
    rw [if_neg hne] at htable
    exact frame_congr htable fun env hj => getD_push_of_lt [] (h.store_lt hj)

/-- Nothing changes for anyone when a store is copied. -/
theorem frame_unshare (i j : Nat) : (e.unshare i).frame j = e.frame j := by
  cases hi : e.table[i]? with
  | none => simp only [Environments.unshare, hi]
  | some env =>
    by_cases hshared : env.shared
    · rw [unshare_of_shared hi hshared]
      by_cases hj : j = i
      · subst hj
        rw [frame_of_table ((table_set hi _ j).trans (if_pos rfl))]
        simp [Array.getD_eq_getD_getElem?]
      · exact frame_congr ((table_set hi _ j).trans (if_neg hj)) fun env' hj =>
          getD_push_of_lt _ (h.store_lt hj)
    · simp only [Environments.unshare, hi, if_neg hshared]

/-- An environment that is not marked writes to a store that no other one holds. -/
theorem frame_write (hi : e.table[i]? = some env) (hown : env.shared = false) (name : String)
    (value : Value) (j : Nat) :
    (e.write i name value).frame j = if j = i then (e.frame i).set name value else e.frame j := by
  have hwrite : e.write i name value =
      { e with stores := e.stores.modify env.store (·.set name value) } := by
    simp only [Environments.write, hi]
  rw [hwrite]
  split
  next heq =>
    subst heq
    rw [frame_of_table hi, ← getD_modify_self (·.set name value) (h.store_lt hi)]
    exact frame_of_table hi
  next hne =>
    refine frame_congr rfl fun env' hj => getD_modify_of_ne _ fun hstore => ?_
    have hshared := h.shared hi hj (Ne.symm hne) hstore.symm
    rw [hown] at hshared
    cases hshared

theorem frame_set (i : Nat) (name : String) (value : Value) (j : Nat) :
    (e.set i name value).frame j =
      if j = i ∧ i < e.size then (e.frame i).set name value else e.frame j := by
  by_cases hlt : i < e.size
  · obtain ⟨env, hi⟩ := exists_of_lt_size (by rwa [size_unshare] : i < (e.unshare i).size)
    rw [Environments.set, (h.unshare i).frame_write hi (not_shared_unshare hi), h.frame_unshare,
      h.frame_unshare]
    simp only [hlt, and_true]
  · have hnone : (e.unshare i).table[i]? = none :=
      Array.getElem?_eq_none (by rw [← Environments.size, size_unshare]; omega)
    rw [Environments.set, Environments.write, hnone, h.frame_unshare, if_neg fun hyes => hlt hyes.2]

theorem frame_snapshot (i j : Nat) :
    (e.snapshot i).2.frame j = if j = e.size then e.frame i else e.frame j := by
  cases hi : e.table[i]? with
  | none =>
    have hframe : e.frame i = [] := by simp only [frame, hi]
    simp only [Environments.snapshot, hi, h.frame_new, hframe]
  | some env =>
    have hstores : (e.snapshot i).2.stores = e.stores := by rw [snapshot_of_some hi]
    have htable := table_snapshot hi j
    split
    next heq =>
      rw [if_pos (.inl heq)] at htable
      rw [frame_of_table htable, frame_of_table hi, hstores]
    next hne =>
      by_cases hj : j = i
      · rw [if_pos (.inr hj)] at htable
        subst hj
        rw [frame_of_table htable, frame_of_table hi, hstores]
      · rw [if_neg (not_or.mpr ⟨hne, hj⟩)] at htable
        exact frame_congr htable fun env' _ => by rw [hstores]

end WellFormed

end Environments

end MonkeyLang

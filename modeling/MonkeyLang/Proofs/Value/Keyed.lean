import MonkeyLang.Proofs.Value.Parts

/-!
Maps by their keys. A usable key is the key of one value only, so a map can be told by its keys.
When entries are put in one after the other, the last value of each key wins, and the keys stand in
the order in which they came first.
-/
namespace MonkeyLang

namespace MapKey

variable {key : MapKey} {v : Value}

def toValue : MapKey → Value
  | integer value => .integer value
  | boolean value => .boolean value
  | string value => .string value
  | unusable _ => .null

theorem key?_toValue (h : key.isUsable) : key.toValue.key? = some key := by
  cases key with
  | unusable kind => cases h
  | _ => rfl

theorem toValue_of_key? (hkey : v.key? = some key) (h : key.isUsable) : key.toValue = v := by
  cases v with
  | integer value => cases hkey; rfl
  | boolean value => cases hkey; rfl
  | string value => cases hkey; rfl
  | blank => cases hkey
  | _ =>
    cases hkey
    cases h

theorem unwinds_toValue (key : MapKey) : key.toValue.unwinds = false := by
  cases key <;> rfl

end MapKey

namespace Entries

variable {es : Entries} {key other : MapKey} {k v : Value} {ks : List MapKey}
  {before pairs : List (MapKey × Value)}

/-! ### Distinct keys -/

/-- Every entry stands under the key of its first value, which is usable, and no two have the
same. -/
structure Keyed (es : Entries) : Prop where
  key?_eq : ∀ e ∈ es, e.2.1.key? = some e.1
  usable : ∀ e ∈ es, e.1.isUsable
  distinct : es.Pairwise fun e e' => e.1 ≠ e'.1

theorem keyed_nil : Keyed [] := ⟨List.forall_mem_nil _, List.forall_mem_nil _, .nil⟩

theorem Keyed.insert (h : es.Keyed) (hkey : k.key? = some key) (husable : key.isUsable) :
    (es.insert key (k, v)).Keyed := by
  constructor
  · intro e he
    rcases mem_insert he with rfl | he
    · exact hkey
    · exact h.key?_eq e he
  · intro e he
    rcases mem_insert he with rfl | he
    · exact husable
    · exact h.usable e he
  · have hdistinct := h.distinct
    clear h
    fun_induction Entries.insert key (k, v) es with
    | case1 => exact List.pairwise_singleton _ _
    | case2 head rest hhead =>
      obtain ⟨hrest, htail⟩ := List.pairwise_cons.mp hdistinct
      refine List.pairwise_cons.mpr ⟨fun e he => ?_, htail⟩
      rw [← hhead]
      exact hrest e he
    | case3 head rest hhead ih =>
      obtain ⟨hrest, htail⟩ := List.pairwise_cons.mp hdistinct
      refine List.pairwise_cons.mpr ⟨fun e he => ?_, ih htail⟩
      rcases mem_insert he with rfl | he
      · exact hhead
      · exact hrest e he

theorem insert_of_fresh {pair : Value × Value} (h : ∀ e ∈ es, e.1 ≠ key) :
    es.insert key pair = es ++ [(key, pair)] := by
  induction es with
  | nil => rfl
  | cons head rest ih =>
    obtain ⟨hhead, hrest⟩ := List.forall_mem_cons.mp h
    rw [Entries.insert, if_neg hhead, ih hrest, List.cons_append]

theorem Keyed.find?_eq (h : es.Keyed) {e : MapKey × Value × Value} (he : e ∈ es) :
    Entries.find? es e.1 = some e.2.2 := by
  have hdistinct := h.distinct
  clear h
  induction es with
  | nil => cases he
  | cons head rest ih =>
    obtain ⟨hrest, htail⟩ := List.pairwise_cons.mp hdistinct
    unfold Entries.find? at ih ⊢
    rw [List.lookup_cons]
    rcases List.mem_cons.mp he with rfl | he
    · rw [beq_self_eq_true]
      rfl
    · rw [beq_eq_false_iff_ne.mpr (hrest e he).symm]
      exact ih he htail

/-! ### The last value wins -/

/-- One entry for each key, in the order in which the keys come first, with the last value given for
it. -/
def lastWins (pairs : List (MapKey × Value)) : Entries :=
  (pairs.map Prod.fst).eraseDups.map fun key =>
    (key, key.toValue, (pairs.reverse.lookup key).getD .null)

theorem nodup_eraseDups (ks : List MapKey) : ks.eraseDups.Nodup := by
  induction hlength : ks.length using Nat.strongRecOn generalizing ks with
  | ind length ih =>
    subst hlength
    cases ks with
    | nil => exact .nil
    | cons key ks =>
      rw [List.eraseDups_cons]
      refine List.nodup_cons.mpr ⟨fun hmem => ?_, ih _ ?_ _ rfl⟩
      · have hne := (List.mem_filter.mp (List.mem_eraseDups.mp hmem)).2
        simp at hne
      · exact Nat.lt_succ_of_le (List.length_filter_le _ _)

theorem isUsable_of_mem_eraseDups (hpairs : ∀ p ∈ pairs, p.1.isUsable) :
    ∀ key ∈ (pairs.map Prod.fst).eraseDups, key.isUsable := by
  intro key hkey
  obtain ⟨p, hp, rfl⟩ := List.mem_map.mp (List.mem_eraseDups.mp hkey)
  exact hpairs p hp

/-- Putting an entry in changes the value of its key, or adds the key at the end. -/
theorem insert_map (hnodup : ks.Nodup) (g : MapKey → Value) :
    Entries.insert key (key.toValue, v) (ks.map fun key => (key, key.toValue, g key)) =
      (ks.map fun other => (other, other.toValue, if other = key then v else g other)) ++
        if key ∈ ks then [] else [(key, key.toValue, v)] := by
  induction ks with
  | nil => rfl
  | cons head ks ih =>
    obtain ⟨hfresh, hnodup⟩ := List.nodup_cons.mp hnodup
    rw [List.map_cons, Entries.insert]
    by_cases heq : head = key
    · subst heq
      have hrest :
          ks.map (fun other => (other, other.toValue, if other = head then v else g other)) =
            ks.map fun other => (other, other.toValue, g other) := by
        apply List.map_congr_left
        intro other hother
        rw [if_neg]
        rintro rfl
        exact hfresh hother
      simp [hrest]
    · have hmem : key ∈ head :: ks ↔ key ∈ ks := by simp [Ne.symm heq]
      simp [heq, hmem, ih hnodup]

theorem lookup_reverse_append (before : List (MapKey × Value)) (key other : MapKey) (v : Value) :
    (before ++ [(key, v)]).reverse.lookup other =
      if other = key then some v else before.reverse.lookup other := by
  rw [List.reverse_append, List.reverse_singleton, List.singleton_append, List.lookup_cons]
  by_cases heq : other = key
  · simp [heq]
  · simp [heq, beq_eq_false_iff_ne.mpr heq]

theorem insert_lastWins (before : List (MapKey × Value)) (key : MapKey) (v : Value) :
    (lastWins before).insert key (key.toValue, v) = lastWins (before ++ [(key, v)]) := by
  have hvalue : ∀ other, ((before ++ [(key, v)]).reverse.lookup other).getD .null =
      if other = key then v else (before.reverse.lookup other).getD .null := by
    intro other
    rw [lookup_reverse_append]
    split <;> rfl
  rw [lastWins, insert_map (nodup_eraseDups _), lastWins,
    List.map_append, List.eraseDups_append, List.map_append]
  simp only [hvalue, List.mem_eraseDups]
  by_cases hmem : key ∈ before.map Prod.fst
  · simp [List.removeAll, hmem]
  · simp [List.removeAll, hmem, List.eraseDups_cons]

theorem foldl_insert_lastWins (before pairs : List (MapKey × Value)) :
    pairs.foldl (fun es p => Entries.insert p.1 (p.1.toValue, p.2) es) (lastWins before) =
      lastWins (before ++ pairs) := by
  induction pairs generalizing before with
  | nil => rw [List.foldl_nil, List.append_nil]
  | cons p pairs ih =>
    rw [List.foldl_cons, insert_lastWins, ih, List.append_assoc]
    rfl

theorem find?_map (ks : List MapKey) (g : MapKey → Value) (key : MapKey) :
    Entries.find? (ks.map fun key => (key, key.toValue, g key)) key =
      if key ∈ ks then some (g key) else none := by
  induction ks with
  | nil => rfl
  | cons head ks ih =>
    unfold Entries.find? at ih ⊢
    rw [List.map_cons, List.lookup_cons]
    by_cases heq : key = head
    · simp [heq]
    · have hmem : key ∈ head :: ks ↔ key ∈ ks := by simp [heq]
      simp only [beq_eq_false_iff_ne.mpr heq, hmem]
      exact ih

theorem find?_lastWins (pairs : List (MapKey × Value)) (key : MapKey) :
    Entries.find? (lastWins pairs) key = pairs.reverse.lookup key := by
  rw [lastWins, find?_map]
  cases hlookup : pairs.reverse.lookup key with
  | none =>
    have habsent : key ∉ pairs.map Prod.fst := by
      intro hmem
      obtain ⟨p, hp, rfl⟩ := List.mem_map.mp hmem
      have hne := List.lookup_eq_none_iff.mp hlookup p (List.mem_reverse.mpr hp)
      simp at hne
    rw [if_neg (fun hmem => habsent (List.mem_eraseDups.mp hmem))]
  | some v =>
    obtain ⟨later, earlier, hsplit, -⟩ := List.lookup_eq_some_iff.mp hlookup
    have hmem : (key, v) ∈ pairs := by
      rw [← List.mem_reverse, hsplit]
      exact List.mem_append_right _ List.mem_cons_self
    rw [if_pos (List.mem_eraseDups.mpr (List.mem_map_of_mem hmem))]
    rfl

theorem keyed_lastWins (hpairs : ∀ p ∈ pairs, p.1.isUsable) : (lastWins pairs).Keyed := by
  have husable := isUsable_of_mem_eraseDups hpairs
  constructor
  · intro e he
    obtain ⟨key, hkey, rfl⟩ := List.mem_map.mp he
    exact MapKey.key?_toValue (husable key hkey)
  · intro e he
    obtain ⟨key, hkey, rfl⟩ := List.mem_map.mp he
    exact husable key hkey
  · exact List.pairwise_map.mpr (nodup_eraseDups _)

theorem lookup_reverse_eq_some {u : Value} :
    pairs.reverse.lookup key = some u ↔
      ∃ before after, pairs = before ++ (key, u) :: after ∧ ∀ p ∈ after, p.1 ≠ key := by
  rw [List.lookup_eq_some_iff]
  constructor
  · rintro ⟨later, earlier, hsplit, hlater⟩
    refine ⟨earlier.reverse, later.reverse, ?_, fun p hp heq => ?_⟩
    · rw [← List.reverse_reverse pairs, hsplit]
      simp
    · have hne := hlater p (List.mem_reverse.mp hp)
      simp [heq] at hne
  · rintro ⟨before, after, rfl, hafter⟩
    refine ⟨after.reverse, before.reverse, by simp, fun p hp => ?_⟩
    simpa using (hafter p (List.mem_reverse.mp hp)).symm

theorem lookup_reverse_eq_none (h : ∀ p ∈ pairs, p.1 ≠ key) : pairs.reverse.lookup key = none := by
  refine List.lookup_eq_none_iff.mpr fun p hp => ?_
  simpa using (h p (List.mem_reverse.mp hp)).symm

theorem mem_lastWins_iff (hpairs : ∀ p ∈ pairs, p.1.isUsable) {u : Value} :
    (key, key.toValue, u) ∈ lastWins pairs ↔ pairs.reverse.lookup key = some u := by
  rw [← find?_lastWins]
  constructor
  · exact fun hmem => (keyed_lastWins hpairs).find?_eq hmem
  · intro hfound
    obtain ⟨pair, hpair, rfl⟩ := Option.map_eq_some_iff.mp hfound
    have hmem := mem_of_lookup hpair
    have hkey := MapKey.toValue_of_key? ((keyed_lastWins hpairs).key?_eq _ hmem)
      ((keyed_lastWins hpairs).usable _ hmem)
    rw [hkey]
    exact hmem

theorem keys_lastWins (pairs : List (MapKey × Value)) :
    (lastWins pairs).map (fun e => (e.1, e.2.1)) =
      (pairs.map Prod.fst).eraseDups.map fun key => (key, key.toValue) := by
  simp [lastWins]

end Entries

end MonkeyLang

import Mathlib.Logic.Relation
import MonkeyLang.Proofs.Value.CopyOnWrite

/-!
Environments in any order of operations. They are made alone, inside others or as snapshots, and
names are bound in them. An environment is younger than the ones around it, so a walk outwards ends,
and a binding is seen through exactly the environments whose lookups come to it. A snapshot and its
original have the environments around them in common and nothing else, although they share a store
until one of them is written.
-/
namespace MonkeyLang.Environments

variable {e e' : Environments} {i j : Nat} {name : String} {value : Value}

/-! ### Environments around an environment -/

theorem outer?_new (outer : Option Nat) (builtins : List Builtin) (j : Nat) :
    (e.new outer builtins).2.outer? j = if j = e.size then outer else e.outer? j := by
  rw [outer?, table_new]
  split <;> rfl

theorem builtins_new (outer : Option Nat) (builtins : List Builtin) (j : Nat) :
    (e.new outer builtins).2.builtins j = if j = e.size then builtins else e.builtins j := by
  rw [Environments.builtins, table_new]
  split <;> rfl

theorem of_table_set {env : Environment} (changed : Environment) (hi : e.table[i]? = some env)
    (houter : changed.outer = env.outer) (hbuiltins : changed.builtins = env.builtins) (j : Nat) :
    ((e.table.setIfInBounds i changed)[j]?).bind Environment.outer = e.outer? j ∧
      (((e.table.setIfInBounds i changed)[j]?).map Environment.builtins).getD [] =
        e.builtins j := by
  rw [table_set hi, outer?, Environments.builtins]
  split
  next heq =>
    rw [heq, hi]
    exact ⟨houter, hbuiltins⟩
  next => exact ⟨rfl, rfl⟩

theorem of_set (i : Nat) (name : String) (value : Value) (j : Nat) :
    (e.set i name value).outer? j = e.outer? j ∧
      (e.set i name value).builtins j = e.builtins j := by
  have hunshare : (e.unshare i).outer? j = e.outer? j ∧
      (e.unshare i).builtins j = e.builtins j := by
    cases hi : e.table[i]? with
    | none => simp only [unshare, hi, and_self]
    | some env =>
      by_cases hshared : env.shared
      · rw [unshare_of_shared hi hshared]
        exact of_table_set { env with store := e.stores.size, shared := false } hi rfl rfl j
      · simp only [unshare, hi, if_neg hshared, and_self]
  unfold set write
  split
  · exact hunshare
  · exact hunshare

theorem of_snapshot (i j : Nat) :
    (e.snapshot i).2.outer? j = (if j = e.size then e.outer? i else e.outer? j) ∧
      (e.snapshot i).2.builtins j = if j = e.size then e.builtins i else e.builtins j := by
  cases hi : e.table[i]? with
  | none =>
    have hnew : e.snapshot i = e.new none [] := by simp only [snapshot, hi]
    have houter : e.outer? i = none := by rw [outer?, hi]; rfl
    have hbuiltins : e.builtins i = [] := by rw [Environments.builtins, hi]; rfl
    rw [hnew, outer?_new, builtins_new, houter, hbuiltins]
    exact ⟨rfl, rfl⟩
  | some env =>
    rw [outer?, Environments.builtins, table_snapshot hi]
    by_cases hsize : j = e.size
    · rw [if_pos (.inl hsize), if_pos hsize, if_pos hsize, outer?, Environments.builtins, hi]
      exact ⟨rfl, rfl⟩
    · rw [if_neg hsize, if_neg hsize]
      split
      next heq =>
        rw [outer?, Environments.builtins, heq.resolve_left hsize, hi]
        exact ⟨rfl, rfl⟩
      next => exact ⟨rfl, rfl⟩

/-! ### Chains -/

def Around (e : Environments) (outer inner : Nat) : Prop := e.outer? inner = some outer

theorem WellFormed.lt_of_around (h : e.WellFormed) {outer inner : Nat}
    (haround : e.Around outer inner) : outer < inner := by
  obtain ⟨env, henv, houter⟩ := Option.bind_eq_some_iff.mp haround
  exact h.outer_lt henv houter

theorem WellFormed.acyclic (h : e.WellFormed) (i : Nat) : ¬ Relation.TransGen e.Around i i := by
  intro hcycle
  have hlt : ∀ {inner}, Relation.TransGen e.Around i inner → i < inner := by
    intro inner hpath
    induction hpath with
    | single haround => exact h.lt_of_around haround
    | tail _ haround ih => exact Nat.lt_trans ih (h.lt_of_around haround)
  exact Nat.lt_irrefl _ (hlt hcycle)

theorem WellFormed.walk_eq_chain (h : e.WellFormed) {n : Nat} (hlt : i < n) :
    e.walk n (some i) = some (e.chain i) := by
  have hends : ∀ n i, i < n → ∃ is, ∀ m, i < m → e.walk m (some i) = some is := by
    intro n
    induction n with
    | zero => exact fun i hi => absurd hi (Nat.not_lt_zero i)
    | succ n ih =>
      intro i hi
      cases houter : e.outer? i with
      | none =>
        refine ⟨[i], fun m hm => ?_⟩
        obtain ⟨m, rfl⟩ := Nat.exists_eq_add_one_of_ne_zero (Nat.ne_of_gt (Nat.zero_lt_of_lt hm))
        rw [walk, houter]
        cases m <;> rfl
      | some o =>
        have ho := h.lt_of_around houter
        obtain ⟨is, his⟩ := ih o (by omega)
        refine ⟨i :: is, fun m hm => ?_⟩
        obtain ⟨m, rfl⟩ := Nat.exists_eq_add_one_of_ne_zero (Nat.ne_of_gt (Nat.zero_lt_of_lt hm))
        rw [walk, houter, his m (by omega)]
        rfl
  obtain ⟨is, his⟩ := hends n i hlt
  rw [chain, his n hlt, his (i + 1) (Nat.lt_succ_self i)]
  rfl

theorem WellFormed.chain_eq (h : e.WellFormed) (i : Nat) :
    e.chain i = i :: ((e.outer? i).map e.chain).getD [] := by
  rw [chain, walk]
  cases houter : e.outer? i with
  | none => cases i <;> rfl
  | some o =>
    rw [h.walk_eq_chain (h.lt_of_around houter)]
    rfl

theorem WellFormed.chain_congr (h : e.WellFormed) (h' : e'.WellFormed)
    (houter : ∀ j ≤ i, e'.outer? j = e.outer? j) : e'.chain i = e.chain i := by
  induction i using Nat.strongRecOn with
  | _ i ih =>
    rw [h.chain_eq, h'.chain_eq, houter i (Nat.le_refl i)]
    cases ho : e.outer? i with
    | none => rfl
    | some o =>
      have hlt := h.lt_of_around ho
      rw [Option.map_some, Option.map_some, ih o hlt fun j hj => houter j (by omega)]

theorem WellFormed.le_of_mem_chain (h : e.WellFormed) (hj : j ∈ e.chain i) : j ≤ i := by
  induction i using Nat.strongRecOn with
  | _ i ih =>
    rw [h.chain_eq] at hj
    rcases List.mem_cons.mp hj with rfl | hj
    · exact Nat.le_refl _
    · cases ho : e.outer? i with
      | none =>
        rw [ho] at hj
        cases hj
      | some o =>
        rw [ho] at hj
        have hlt := h.lt_of_around ho
        exact Nat.le_trans (ih o hlt hj) (Nat.le_of_lt hlt)

theorem WellFormed.lt_of_mem_tail (h : e.WellFormed) (hj : j ∈ (e.chain i).tail) : j < i := by
  rw [h.chain_eq, List.tail_cons] at hj
  cases ho : e.outer? i with
  | none =>
    rw [ho] at hj
    cases hj
  | some o =>
    rw [ho] at hj
    exact Nat.lt_of_le_of_lt (h.le_of_mem_chain hj) (h.lt_of_around ho)

/-! ### Lookups -/

/-- A lookup of the name that begins at the first environment comes to the second one: that one is
on the way outwards, and none that is nearer binds the name. -/
def Reaches (e : Environments) (i target : Nat) (name : String) : Prop :=
  ∃ nearer farther, e.chain i = nearer ++ target :: farther ∧
    ∀ k ∈ nearer, (e.frame k).get? name = none

namespace WellFormed

variable (h : e.WellFormed)
include h

theorem chain_set (i : Nat) (name : String) (value : Value) (j : Nat) :
    (e.set i name value).chain j = e.chain j :=
  h.chain_congr (h.set i name value) fun k _ => (of_set i name value k).1

theorem get?_frame_set (i : Nat) (name : String) (value : Value) (k : Nat) (other : String) :
    ((e.set i name value).frame k).get? other =
      if (k = i ∧ i < e.size) ∧ other = name then some value else (e.frame k).get? other := by
  rw [h.frame_set]
  by_cases hk : k = i ∧ i < e.size
  · rw [if_pos hk, hk.1]
    by_cases hname : other = name
    · rw [if_pos ⟨⟨rfl, hk.2⟩, hname⟩, hname, Frame.get?_set_self]
    · rw [if_neg fun hyes => hname hyes.2, Frame.get?_set_of_ne hname]
  · rw [if_neg hk, if_neg fun hyes => hk hyes.1]

theorem get?_set_of_reaches {target : Nat} (hlt : target < e.size)
    (hreaches : e.Reaches i target name) : (e.set target name value).get? i name = some value := by
  obtain ⟨nearer, farther, hchain, hnearer⟩ := hreaches
  rw [get?, h.chain_set, hchain]
  clear hchain
  induction nearer with
  | nil => rw [List.nil_append, List.findSome?_cons, h.get?_frame_set, if_pos ⟨⟨rfl, hlt⟩, rfl⟩]
  | cons k nearer ih =>
    obtain ⟨hk, hnearer⟩ := List.forall_mem_cons.mp hnearer
    rw [List.cons_append, List.findSome?_cons, h.get?_frame_set, hk]
    split
    · next heq =>
      split at heq
      · exact heq.symm
      · cases heq
    · exact ih hnearer

theorem get?_set_of_not_reaches {target : Nat} (hreaches : ¬ e.Reaches i target name) :
    (e.set target name value).get? i name = e.get? i name := by
  unfold Reaches at hreaches
  rw [get?, h.chain_set, get?]
  generalize e.chain i = is at hreaches
  induction is with
  | nil => rfl
  | cons k is ih =>
    have hne : k ≠ target := by
      rintro rfl
      exact hreaches ⟨[], is, rfl, List.forall_mem_nil _⟩
    rw [List.findSome?_cons, List.findSome?_cons, h.get?_frame_set, if_neg fun hyes => hne hyes.1.1]
    cases hget : (e.frame k).get? name with
    | some found => rfl
    | none =>
      apply ih
      rintro ⟨nearer, farther, rfl, hnearer⟩
      exact hreaches ⟨k :: nearer, farther, rfl, List.forall_mem_cons.mpr ⟨hget, hnearer⟩⟩

theorem get?_set_of_ne {target : Nat} {other : String} (hother : other ≠ name) :
    (e.set target name value).get? i other = e.get? i other := by
  rw [get?, h.chain_set, get?]
  refine Frame.findSome?_congr fun k _ => ?_
  rw [h.get?_frame_set, if_neg fun hyes => hother hyes.2]

end WellFormed

/-! ### Answers -/

/-- An environment answers every question as another one, at another time. -/
structure AnswersAlike (e : Environments) (i : Nat) (e' : Environments) (i' : Nat) : Prop where
  get? : ∀ name, e'.get? i' name = e.get? i name
  resolve? : ∀ name, e'.resolve? i' name = e.resolve? i name
  depth : e'.depth i' = e.depth i
  names : (e'.frame i').names = (e.frame i).names

theorem answersAlike_of_frames {i' : Nat} (h : e.WellFormed) (h' : e'.WellFormed)
    (htail : (e'.chain i').tail = (e.chain i).tail) (hbuiltins : e'.builtins i' = e.builtins i)
    (hown : e'.frame i' = e.frame i) (hframes : ∀ k ∈ (e.chain i).tail, e'.frame k = e.frame k) :
    e.AnswersAlike i e' i' := by
  have hget : ∀ name, e'.get? i' name = e.get? i name := by
    intro name
    have hchain : e.chain i = i :: (e.chain i).tail := by rw [h.chain_eq, List.tail_cons]
    have hchain' : e'.chain i' = i' :: (e.chain i).tail := by
      rw [← htail, h'.chain_eq, List.tail_cons]
    have haround : (e.chain i).tail.findSome? (fun k => (e'.frame k).get? name) =
        (e.chain i).tail.findSome? (fun k => (e.frame k).get? name) :=
      Frame.findSome?_congr fun k hk => congrArg (Frame.get? · name) (hframes k hk)
    rw [Environments.get?, Environments.get?, hchain', List.findSome?_cons, hown, haround, hchain,
      List.findSome?_cons, List.tail_cons]
  refine ⟨hget, fun name => ?_, ?_, by rw [hown]⟩
  · rw [Environments.resolve?, Environments.resolve?, hget, builtin?, builtin?, hbuiltins]
  · rw [Environments.depth, Environments.depth, htail]

/-- What is bound in the first environment is not seen through the second one. -/
def Unseen (e : Environments) (i j : Nat) : Prop :=
  ∀ name value, e.AnswersAlike j (e.set i name value) j

namespace WellFormed

variable (h : e.WellFormed)
include h

theorem unseen_of_notMem (hi : i ∉ e.chain j) : e.Unseen i j := by
  intro name value
  have hframe : ∀ k ∈ e.chain j, (e.set i name value).frame k = e.frame k := by
    intro k hk
    rw [h.frame_set]
    refine if_neg fun hyes => hi ?_
    rw [← hyes.1]
    exact hk
  have hmem : j ∈ e.chain j := by rw [h.chain_eq]; exact List.mem_cons_self
  exact answersAlike_of_frames h (h.set i name value) (by rw [h.chain_set])
    (of_set i name value j).2 (hframe j hmem) fun k hk => hframe k (List.mem_of_mem_tail hk)

theorem chain_snapshot_of_lt (i : Nat) (hj : j < e.size) :
    (e.snapshot i).2.chain j = e.chain j := by
  refine h.chain_congr (h.snapshot i) fun k hk => ?_
  rw [(of_snapshot i k).1, if_neg (by omega)]

theorem tail_chain_snapshot (hi : i < e.size) :
    ((e.snapshot i).2.chain e.size).tail = (e.chain i).tail := by
  rw [(h.snapshot i).chain_eq, h.chain_eq, List.tail_cons, List.tail_cons, (of_snapshot i _).1,
    if_pos rfl]
  cases ho : e.outer? i with
  | none => rfl
  | some o =>
    have hlt := h.lt_of_around ho
    rw [Option.map_some, Option.map_some, h.chain_snapshot_of_lt i (by omega)]

theorem answersAlike_snapshot_of_lt (i : Nat) (hj : j < e.size) :
    e.AnswersAlike j (e.snapshot i).2 j := by
  have hframe : ∀ k ≤ j, (e.snapshot i).2.frame k = e.frame k := by
    intro k hk
    rw [h.frame_snapshot, if_neg (by omega)]
  refine answersAlike_of_frames h (h.snapshot i) (by rw [h.chain_snapshot_of_lt i hj]) ?_
    (hframe j (Nat.le_refl j)) fun k hk => hframe k (Nat.le_of_lt (h.lt_of_mem_tail hk))
  rw [(of_snapshot i j).2, if_neg (by omega)]

theorem answersAlike_snapshot (hi : i < e.size) : e.AnswersAlike i (e.snapshot i).2 e.size := by
  refine answersAlike_of_frames h (h.snapshot i) (h.tail_chain_snapshot hi) ?_ ?_ fun k hk => ?_
  · rw [(of_snapshot i _).2, if_pos rfl]
  · rw [h.frame_snapshot, if_pos rfl]
  · have hlt := h.lt_of_mem_tail hk
    rw [h.frame_snapshot, if_neg (by omega)]

end WellFormed

/-! ### Operations in any order -/

/-- One operation on environments that are there. -/
inductive Step (e : Environments) : Environments → Prop
  | new {outer : Option Nat} (houter : ∀ o, outer = some o → o < e.size) (builtins : List Builtin) :
      Step e (e.new outer builtins).2
  | enclosed {i : Nat} (hi : i < e.size) : Step e (e.enclosed i).2
  | set {i : Nat} (hi : i < e.size) (name : String) (value : Value) : Step e (e.set i name value)
  | snapshot {i : Nat} (hi : i < e.size) : Step e (e.snapshot i).2

theorem WellFormed.step (h : e.WellFormed) (hstep : Step e e') : e'.WellFormed := by
  cases hstep with
  | new houter builtins => exact h.new houter builtins
  | enclosed hi => exact h.new (fun o ho => Option.some.inj ho ▸ hi) _
  | set hi name value => exact h.set _ name value
  | snapshot hi => exact h.snapshot _

theorem Step.outer?_eq (hstep : Step e e') (hj : j < e.size) : e'.outer? j = e.outer? j := by
  cases hstep with
  | new houter builtins => rw [outer?_new, if_neg (Nat.ne_of_lt hj)]
  | enclosed hi => exact (outer?_new _ _ j).trans (if_neg (Nat.ne_of_lt hj))
  | set hi name value => exact (of_set _ name value j).1
  | snapshot hi => rw [(of_snapshot _ j).1, if_neg (Nat.ne_of_lt hj)]

theorem Step.size_le (hstep : Step e e') : e.size ≤ e'.size := by
  cases hstep with
  | new houter builtins => exact Nat.le_of_lt ((size_new _ _).symm ▸ Nat.lt_succ_self _)
  | enclosed hi => exact Nat.le_of_lt ((size_new _ _).symm ▸ Nat.lt_succ_self _)
  | set hi name value => exact Nat.le_of_eq (size_set _ _ _).symm
  | snapshot hi => exact Nat.le_of_lt ((size_snapshot _).symm ▸ Nat.lt_succ_self _)

theorem WellFormed.steps (h : e.WellFormed) (hsteps : Relation.ReflTransGen Step e e') :
    e'.WellFormed ∧ e.size ≤ e'.size ∧ ∀ j < e.size, e'.chain j = e.chain j := by
  induction hsteps with
  | refl => exact ⟨h, Nat.le_refl _, fun _ _ => rfl⟩
  | tail _ hstep ih =>
    obtain ⟨hformed, hsize, hchain⟩ := ih
    have hle := hstep.size_le
    refine ⟨hformed.step hstep, by omega, fun j hj => ?_⟩
    rw [← hchain j hj]
    exact hformed.chain_congr (hformed.step hstep) fun k hk => hstep.outer?_eq (by omega)

/-! ### Environments with the same ones around them -/

namespace WellFormed

variable {later : Environments} {copy original : Nat}

theorem twins_of_snapshot (h : e.WellFormed) (hi : original < e.size)
    (hsteps : Relation.ReflTransGen Step (e.snapshot original).2 later) :
    later.WellFormed ∧ e.size < later.size ∧
      (later.chain e.size).tail = (later.chain original).tail := by
  obtain ⟨hlater, hsize, hchain⟩ := (h.snapshot original).steps hsteps
  rw [size_snapshot] at hsize hchain
  refine ⟨hlater, hsize, ?_⟩
  rw [hchain e.size (Nat.lt_succ_self _), hchain original (Nat.lt_succ_of_lt hi),
    h.chain_snapshot_of_lt original hi]
  exact h.tail_chain_snapshot hi

theorem unseen_of_twins (h : e.WellFormed) (hlt : original < copy)
    (htail : (e.chain copy).tail = (e.chain original).tail) :
    e.Unseen original copy ∧ e.Unseen copy original := by
  constructor
  · refine h.unseen_of_notMem fun hmem => ?_
    rw [h.chain_eq, List.mem_cons] at hmem
    rcases hmem with heq | hmem
    · omega
    · rw [h.chain_eq copy, List.tail_cons] at htail
      exact Nat.lt_irrefl _ (h.lt_of_mem_tail (htail ▸ hmem))
  · refine h.unseen_of_notMem fun hmem => ?_
    have hle := h.le_of_mem_chain hmem
    omega

theorem get?_set_around (h : e.WellFormed) (hi : i < e.size) {nearer farther : List Nat}
    {outer : Nat} (htail : (e.chain i).tail = nearer ++ outer :: farther)
    (hown : (e.frame i).get? name = none) (hnearer : ∀ k ∈ nearer, (e.frame k).get? name = none) :
    (e.set outer name value).get? i name = some value := by
  have hlt : outer < i :=
    h.lt_of_mem_tail (htail ▸ List.mem_append_right _ List.mem_cons_self)
  have hchain : e.chain i = (i :: nearer) ++ outer :: farther := by
    rw [List.cons_append, ← htail, h.chain_eq, List.tail_cons]
  exact h.get?_set_of_reaches (by omega)
    ⟨_, farther, hchain, List.forall_mem_cons.mpr ⟨hown, hnearer⟩⟩

end WellFormed

/-- After any operations. Two environments that hold one store are both marked, every environment is
younger than the one around it, so walks outwards have no cycle and end. A binding changes one
frame: it is found through exactly the environments whose lookups come to it, and other lookups find
what they found. A snapshot is not seen through the environments that there were, answers as its
original, and is independent of it from then on: of what is bound later, both see only what is bound
in an environment around them, unless a nearer one binds the name. -/
theorem lookups_after_operations (h : Relation.ReflTransGen Step {} e) :
    e.WellFormed ∧ (∀ i, ¬ Relation.TransGen e.Around i i) ∧
      (∀ i n, i < n → e.walk n (some i) = some (e.chain i)) ∧
      (∀ i < e.size, ∀ j < e.size, ∀ (n m : String) (v : Value),
        (m = n ∧ e.Reaches j i n → (e.set i n v).get? j m = some v) ∧
          (¬ (m = n ∧ e.Reaches j i n) → (e.set i n v).get? j m = e.get? j m)) ∧
      ∀ original < e.size,
        let copy := (e.snapshot original).1
        let frozen := (e.snapshot original).2
        (∀ j < e.size, e.AnswersAlike j frozen j) ∧ e.AnswersAlike original frozen copy ∧
          ∀ later, Relation.ReflTransGen Step frozen later →
            later.Unseen original copy ∧ later.Unseen copy original ∧
            ∀ nearer outer farther, (later.chain original).tail = nearer ++ outer :: farther →
              ∀ (n : String) (v : Value), (∀ k ∈ nearer, (later.frame k).get? n = none) →
                ∀ j, j = original ∨ j = copy → (later.frame j).get? n = none →
                  (later.set outer n v).get? j n = some v := by
  have he := (wellFormed_empty.steps h).1
  refine ⟨he, he.acyclic, fun i n => he.walk_eq_chain, fun i hi j hj n m v => ⟨?_, ?_⟩,
    fun original horiginal => ?_⟩
  · rintro ⟨rfl, hreaches⟩
    exact he.get?_set_of_reaches hi hreaches
  · intro hno
    by_cases hname : m = n
    · subst hname
      exact he.get?_set_of_not_reaches fun hreaches => hno ⟨rfl, hreaches⟩
    · exact he.get?_set_of_ne hname
  · intro copy frozen
    have hcopy : copy = e.size := number_snapshot original
    refine ⟨fun j hj => he.answersAlike_snapshot_of_lt original hj,
      hcopy ▸ he.answersAlike_snapshot horiginal, fun later hlater => ?_⟩
    obtain ⟨hformed, hsize, htail⟩ := he.twins_of_snapshot horiginal hlater
    rw [← hcopy] at hsize htail
    obtain ⟨hunseen, hunseen'⟩ := hformed.unseen_of_twins (hcopy ▸ horiginal) htail
    refine ⟨hunseen, hunseen', fun nearer outer farther heq n v hnearer j hj hown => ?_⟩
    rcases hj with rfl | rfl
    · exact hformed.get?_set_around (by omega) heq hown hnearer
    · exact hformed.get?_set_around hsize (htail.trans heq) hown hnearer

theorem lookups_after_operations_shared :
    let outermost := (new {} none Builtin.all).2
    let e := (((outermost.enclosed 0).2.set 1 "x" (.integer 1)).snapshot 1).2
    Relation.ReflTransGen Step {} e ∧ e.table.toList.map Environment.store = [0, 1, 1] ∧
      (e.set 0 "y" (.integer 2)).get? 2 "y" = some (.integer 2) ∧
      (e.set 1 "x" (.integer 2)).get? 2 "x" = e.get? 2 "x" := by
  intro outermost e
  have hnew : Step {} outermost := @Step.new {} none (fun _ ho => by cases ho) Builtin.all
  have henclosed : Step outermost (outermost.enclosed 0).2 := .enclosed (by decide)
  have hset : Step (outermost.enclosed 0).2 ((outermost.enclosed 0).2.set 1 "x" (.integer 1)) :=
    .set (by decide) "x" (.integer 1)
  have h : Relation.ReflTransGen Step {} e :=
    (((Relation.ReflTransGen.single hnew).tail henclosed).tail hset).tail (.snapshot (by decide))
  have hchain : e.chain 2 = [2, 0] := by decide
  have hreaches : e.Reaches 2 0 "y" := ⟨[2], [], hchain, List.forall_mem_singleton.mpr (by rfl)⟩
  have hapart : ¬ ("x" = "x" ∧ e.Reaches 2 1 "x") := by
    rintro ⟨-, nearer, farther, heq, -⟩
    have hmem : 1 ∈ e.chain 2 := heq ▸ List.mem_append_right _ List.mem_cons_self
    rw [hchain] at hmem
    exact absurd hmem (by decide)
  obtain ⟨-, -, -, hbound, -⟩ := lookups_after_operations h
  exact ⟨h, by decide, (hbound 0 (by decide) 2 (by decide) "y" "y" _).1 ⟨rfl, hreaches⟩,
    (hbound 1 (by decide) 2 (by decide) "x" "x" _).2 hapart⟩

end MonkeyLang.Environments

import MonkeyLang.Proofs.Parser.Shape
import MonkeyLang.Proofs.Syntax.Alike
import MonkeyLang.Proofs.Syntax.Regrouped

/-!
Trees that differ in parentheses only. They print alike, and a parsed tree is the same as its
regrouped form.
-/
namespace MonkeyLang

namespace Node

/-- The trees are alike at every place once parentheses are left out. -/
inductive Same : Node → Node → Prop
  | left {n n' : Node} (h : Same n n') : Same (.grouped n) n'
  | right {n n' : Node} (h : Same n n') : Same n (.grouped n')
  | form {n n' : Node} (h : Alike (fun _ => True) Same Same n n') : Same n n'

theorem sizeOf_lt_of_mem_parts {n c : Node} (hc : c ∈ n.parts) : sizeOf c < sizeOf n := by
  cases n with
  | program nodes | block nodes | array nodes =>
    have := List.sizeOf_lt_of_mem hc
    simp +arith [parts] at this ⊢
    omega
  | call callee arguments =>
    rcases List.mem_cons.mp hc with rfl | hc
    · simp +arith
    · have := List.sizeOf_lt_of_mem hc
      simp +arith
      omega
  | mapping entries =>
    simp only [parts, List.mem_append, List.mem_map] at hc
    rcases hc with ⟨⟨k, v⟩, he, rfl⟩ | ⟨⟨k, v⟩, he, rfl⟩ <;>
    · have := List.sizeOf_lt_of_mem he
      simp +arith at this ⊢
      omega
  | conditional condition consequence alternative =>
    simp only [parts, List.mem_cons, List.not_mem_nil, or_false] at hc
    rcases hc with rfl | rfl | rfl <;> simp +arith
  | infixOp left operator right | index left right =>
    simp only [parts, List.mem_cons, List.not_mem_nil, or_false] at hc
    rcases hc with rfl | rfl <;> simp +arith
  | letBind name inner | returning inner | expression inner | grouped inner
  | prefixOp operator inner =>
    cases List.mem_singleton.mp hc
    simp +arith
  | _ => cases hc

theorem sizeOf_lt_of_mem_body? {n b : Node} (hb : b ∈ n.body?) : sizeOf b < sizeOf n := by
  cases n with
  | function parameters body =>
    cases hb
    simp +arith
  | _ => cases hb

theorem Same.refl (n : Node) : Same n n := by
  refine .form (n.alike_self (fun _ _ => trivial) (fun c hc => ?_) fun b hb => ?_)
  · exact Same.refl c
  · exact Same.refl b
termination_by sizeOf n
decreasing_by
  · exact sizeOf_lt_of_mem_parts hc
  · exact sizeOf_lt_of_mem_body? hb

/-! ### Printing -/

theorem sources_congr {xs ys : List Node} (h : List.Forall₂ Same xs ys)
    (heq : ∀ x ∈ xs, ∀ y, Same x y → x.source = y.source) : sources xs = sources ys := by
  induction h with
  | nil => rfl
  | cons h _ ih =>
    obtain ⟨hx, hxs⟩ := List.forall_mem_cons.mp heq
    rw [sources, sources, hx _ h, ih hxs]

theorem entrySources_congr {es es' : List (Node × Node)}
    (hkeys : List.Forall₂ Same (es.map Prod.fst) (es'.map Prod.fst))
    (hvalues : List.Forall₂ Same (es.map Prod.snd) (es'.map Prod.snd))
    (heq : ∀ x ∈ (Node.mapping es).parts, ∀ y, Same x y → x.source = y.source) :
    entrySources es = entrySources es' := by
  induction es generalizing es' with
  | nil =>
    cases es' with
    | nil => rfl
    | cons => cases hkeys
  | cons e es ih =>
    cases es' with
    | nil => cases hkeys
    | cons e' es' =>
      cases hkeys with
      | cons hkey hkeys =>
        cases hvalues with
        | cons hvalue hvalues =>
          have hk := heq e.1 (by simp [parts]) e'.1 hkey
          have hv := heq e.2 (by simp [parts]) e'.2 hvalue
          have hrest := ih hkeys hvalues fun x hx => heq x (by simp [parts] at hx ⊢; grind)
          rw [entrySources, entrySources, hk, hv, hrest]

theorem source_conditionalElse {c t e : Node} (he : e.isHole = false) :
    (conditional c t e).source = "if (" ++ c.source ++ ") " ++ inBraces t.source ++
      (" else " ++ inBraces e.source) := by
  cases e with
  | hole => cases he
  | _ => simp only [source]

theorem Same.source_eq {n n' : Node} (h : Same n n') : n.source = n'.source := by
  have hpart : ∀ x ∈ n.parts, ∀ y, Same x y → x.source = y.source := by
    intro x hx y hxy
    exact Same.source_eq hxy
  have hbody : ∀ x ∈ n.body?, ∀ y, Same x y → x.source = y.source := by
    intro x hx y hxy
    exact Same.source_eq hxy
  cases h with
  | @left m _ h =>
    rw [source]
    exact hpart m (by simp [parts]) n' h
  | @right _ m' h =>
    rw [source.eq_def (.grouped m')]
    exact Same.source_eq h
  | form h =>
    cases h with
    | program h | block h | array h => simp only [source, sources_congr h hpart]
    | @letBind _ x y _ h | @returning x y h | @expression x y h | @grouped x y h
    | @prefixOp _ x y h => simp only [source, hpart x (by simp [parts]) y h]
    | @infixOp _ x x' y y' hx hy | @index x x' y y' hx hy =>
      simp only [source, hpart x (by simp [parts]) x' hx, hpart y (by simp [parts]) y' hy]
    | @conditional c c' t t' hc ht =>
      simp only [source, hpart c (by simp [parts]) c' hc, hpart t (by simp [parts]) t' ht]
    | @conditionalElse c c' t t' e e' hc ht he he' h =>
      rw [source_conditionalElse he, source_conditionalElse he', hpart c (by simp [parts]) c' hc,
        hpart t (by simp [parts]) t' ht, hpart e (by simp [parts]) e' h]
    | @function _ x y h => simp only [source, hbody x rfl y h]
    | @call f f' xs ys hf h =>
      obtain ⟨hcallee, harguments⟩ := List.forall_mem_cons.mp hpart
      simp only [source, hcallee f' hf, sources_congr h harguments]
    | mapping hkeys hvalues => simp only [source, entrySources_congr hkeys hvalues hpart]
    | hole | bare | identifier | integer | text | boolean => rfl
termination_by (sizeOf n, sizeOf n')
decreasing_by
  · exact Prod.Lex.left _ _ (sizeOf_lt_of_mem_parts hx)
  · exact Prod.Lex.left _ _ (sizeOf_lt_of_mem_body? hx)
  · subst_vars
    apply Prod.Lex.right
    simp +arith

/-! ### Regrouping -/

theorem forall₂_regroupedAll {ns : List Node} (h : ∀ n ∈ ns, Same n n.regrouped) :
    List.Forall₂ Same ns (regroupedAll ns) := by
  induction ns with
  | nil => exact .nil
  | cons n ns ih =>
    obtain ⟨hn, hns⟩ := List.forall_mem_cons.mp h
    exact .cons hn (ih hns)

theorem forall₂_regroupedEntries {es : List (Node × Node)}
    (h : ∀ e ∈ es, Same e.1 e.1.regrouped ∧ Same e.2 e.2.regrouped) :
    List.Forall₂ Same (es.map Prod.fst) ((regroupedEntries es).map Prod.fst) ∧
      List.Forall₂ Same (es.map Prod.snd) ((regroupedEntries es).map Prod.snd) := by
  induction es with
  | nil => exact ⟨.nil, .nil⟩
  | cons e es ih =>
    obtain ⟨he, hes⟩ := List.forall_mem_cons.mp h
    exact ⟨.cons he.1 (ih hes).1, .cons he.2 (ih hes).2⟩

end Node

def Phrase.Regroups : Phrase → Prop
  | expression n | statement n | block n => n.Same n.regrouped
  | entry key value => key.Same key.regrouped ∧ value.Same value.regrouped
  | statements ns => ∀ n ∈ ns, n.Same n.regrouped
  | parameter _ | list _ => True

theorem Shaped.regroups {phrase : Phrase} (h : Shaped phrase) : phrase.Regroups := by
  induction h with
  | identifier | integer | text | boolean => exact Node.Same.refl _
  | prefixOp operator _ ih => exact .right (.form (.prefixOp operator ih))
  | infixOp operator _ _ ihleft ihright => exact .right (.form (.infixOp operator ihleft ihright))
  | grouped _ ih => exact .left ih
  | conditional _ _ ihcondition ihconsequence =>
    exact .form (.conditional ihcondition ihconsequence)
  | conditionalElse _ _ halternative ihcondition ihconsequence ihalternative =>
    cases halternative with
    | block =>
      exact .form (.conditionalElse ihcondition ihconsequence rfl rfl ihalternative)
  | function parameters _ ih => exact .form (.function parameters ih)
  | call _ _ ihcallee iharguments =>
    exact .form (.call ihcallee (Node.forall₂_regroupedAll iharguments))
  | array _ ih => exact .form (.array (Node.forall₂_regroupedAll ih))
  | index _ _ ihcollection ihposition => exact .right (.form (.index ihcollection ihposition))
  | mapping _ ih =>
    have hentries := Node.forall₂_regroupedEntries ih
    exact .form (.mapping hentries.1 hentries.2)
  | entry _ _ ihkey ihvalue => exact ⟨ihkey, ihvalue⟩
  | letBind name _ ih => exact .form (.letBind trivial ih)
  | returning _ ih => exact .form (.returning ih)
  | expression _ ih => exact .form (.expression ih)
  | statements _ ih => exact ih
  | block _ ih => exact .form (.block (Node.forall₂_regroupedAll ih))

end MonkeyLang

import MonkeyLang.Proofs.Eval.Journal
import MonkeyLang.Proofs.Eval.Renaming
import MonkeyLang.Proofs.Eval.Walked
import MonkeyLang.Value.Print

/-!
Functions are frozen when they are made. Between two moments of a session, the frames that a
function can read are not written, so it finds the same values under all names. A call finds frames
that stand for themselves, whatever else was added to the heap, and so ends alike at both moments.
-/
namespace MonkeyLang.Eval

def KnownBy (history : List Moment) (place : Nat) (c : Closure) : Prop :=
  ∃ i, i ≤ place ∧ ∃ o, history[i]? = some o ∧ o.Holds c

/-- Two evaluations, one from each machine, with results that show as the same and with the same
counts added. -/
inductive EndsAlike (m m' : Machine) :
    EStateM.Result Halt Machine Value → EStateM.Result Halt Machine Value → Prop
  | ok {v v' : Value} {n n' : Machine} (k : Summary) (hshown : ShownAlike n.heap n'.heap v v')
      (hk : n.summary = m.summary.plus k) (hk' : n'.summary = m'.summary.plus k) :
      EndsAlike m m' (.ok v n) (.ok v' n')
  | halt {n n' : Machine} (halt : Halt) (k : Summary) (hk : n.summary = m.summary.plus k)
      (hk' : n'.summary = m'.summary.plus k) : EndsAlike m m' (.error halt n) (.error halt n')

section Renamed

variable {ρ : Renaming} {m m' : Machine} {r r' : EStateM.Result Halt Machine Value}

theorem endsAlike_of_ends
    (h : (renamed m.summary m'.summary).Ends (renamed m.summary m'.summary).values ρ r r')
    (hr : ¬ TooDeep r) (hr' : ¬ TooDeep r') : EndsAlike m m' r r' := by
  cases h with
  | ok _ hs hv =>
    obtain ⟨hheaps, k, hk, hk'⟩ := hs
    exact .ok k (hheaps.shownAlike hv) hk hk'
  | @halt _ halt _ _ _ hs =>
    obtain ⟨-, k, hk, hk'⟩ := hs
    exact .halt halt k hk hk'
  | left _ => exact absurd ⟨_, rfl⟩ hr
  | right _ => exact absurd ⟨_, rfl⟩ hr'

theorem apply_endsAlike [Text.Encoding] {places : Nat → Prop}
    (hheaps : (Renaming.on places).Heaps m.heap m'.heap) {callee : Value} {arguments : List Value}
    (hvalues : ∀ v ∈ callee :: arguments, ∀ c ∈ v.closures, ∀ i ∈ Heap.chain c.scope, places i)
    {depth depth' : Nat} (h : ¬ TooDeep (apply depth callee arguments m))
    (h' : ¬ TooDeep (apply depth' callee arguments m')) :
    EndsAlike m m' (apply depth callee arguments m) (apply depth' callee arguments m') := by
  have hself : ∀ v ∈ callee :: arguments,
      (renamed m.summary m'.summary).values (Renaming.on places) v v := fun v hv =>
    v.matches_self fun c hc => Renaming.closures_on (hvalues v hv c hc)
  obtain ⟨hcallee, harguments⟩ := List.forall_mem_cons.mp hself
  have hrelated := Link.related_applyValue (subRelated_renamed m.summary m'.summary depth depth')
    hcallee (List.forall₂_same.mpr harguments)
  exact endsAlike_of_ends (hrelated m m' ⟨hheaps, {}, rfl, rfl⟩) h h'

end Renamed

section Carries

variable {w : Ground} {s : Chronicle} {j k : Nat} {p q : Moment}

theorem Ground.Carries.kept_of_le (hs : w.Carries s) (hjk : j ≤ k) (hp : s.moments[j]? = some p)
    (hq : s.moments[k]? = some q) : Kept w.isOpen p.machine.heap q.machine.heap := by
  rcases Nat.eq_or_lt_of_le hjk with rfl | hlt
  · cases hp.symm.trans hq
    exact .refl _ _
  · obtain ⟨hj, rfl⟩ := List.getElem?_eq_some_iff.mp hp
    obtain ⟨hk, rfl⟩ := List.getElem?_eq_some_iff.mp hq
    exact List.pairwise_iff_getElem.mp hs.ordered j k hj hk hlt

def Ground.Still (w : Ground) (p : Moment) (i : Nat) : Prop :=
  i < p.machine.heap.size ∧ ¬ w.isOpen i

theorem Ground.Carries.still_of_knownBy (hs : w.Carries s) (hp : s.moments[j]? = some p)
    {c : Closure} (hc : KnownBy s.moments j c) : ∀ i ∈ Heap.chain c.scope, w.Still p i := by
  obtain ⟨i, hij, o, ho, hholds⟩ := hc
  intro place hplace
  obtain ⟨hlt, hclosed⟩ := hs.settled o (List.mem_of_getElem? ho) c hholds place hplace
  exact ⟨Nat.lt_of_lt_of_le hlt (hs.kept_of_le hij ho hp).size_le, hclosed⟩

theorem Ground.Carries.heaps_on (hs : w.Carries s) (hjk : j ≤ k) (hp : s.moments[j]? = some p)
    (hq : s.moments[k]? = some q) :
    (Renaming.on (w.Still p)).Heaps p.machine.heap q.machine.heap := by
  have hkept := hs.kept_of_le hjk hp hq
  refine Renaming.heaps_on (fun i hi => ?_) (fun i hi => hkept.frame_eq i hi.1 hi.2) ?_
  · exact .inl ⟨hi.1, Nat.lt_of_lt_of_le hi.1 hkept.size_le⟩
  · intro i _ b hb c hc
    exact hs.still_of_knownBy hp ⟨j, Nat.le_refl _, p, hp, .inr ⟨i, b, hb, hc⟩⟩

end Carries

/-- A function that a session knows finds the same values under all names at every later moment,
and so does a walk from its environment outwards, although the stores there may be shared. A call of
it, with values made of functions that were known then, shows the same result or has the same error
and counts the same, unless it is nested too deeply. -/
theorem Session.frozen [Text.Encoding] {scopes : List Scope} {heap : Heap} {history : List Moment}
    (h : Session scopes heap history) {j k : Nat} {p q : Moment} (hjk : j ≤ k)
    (hp : history[j]? = some p) (hq : history[k]? = some q) {c : Closure}
    (hc : KnownBy history j c) :
    (∀ name, p.machine.heap.resolve? c.scope name = q.machine.heap.resolve? c.scope name ∧
      p.machine.heap.environments.resolve? c.scope.frame name =
        q.machine.heap.environments.resolve? c.scope.frame name) ∧
      ∀ (arguments : List Value), (∀ v ∈ arguments, ∀ a ∈ v.closures, KnownBy history j a) →
        ∀ (depth depth' : Nat), ¬ TooDeep (apply depth c.value arguments p.machine) →
          ¬ TooDeep (apply depth' c.value arguments q.machine) →
          EndsAlike p.machine q.machine (apply depth c.value arguments p.machine)
            (apply depth' c.value arguments q.machine) := by
  obtain ⟨w, hw⟩ := h.supported
  have hs := hw.carries
  have hstill := hs.still_of_knownBy hp hc
  constructor
  · intro name
    have hkept := hs.kept_of_le hjk hp hq
    have hsame : p.machine.heap.resolve? c.scope name = q.machine.heap.resolve? c.scope name :=
      Heap.resolve?_congr (fun i hi => hkept.frame_eq i (hstill i hi).1 (hstill i hi).2) name
    obtain ⟨i, hij, o, ho, hholds⟩ := hc
    have hknown := h.knows_later hij ho hp hholds
    have hknown' := h.knows_later (Nat.le_trans hij hjk) ho hq hholds
    exact ⟨hsame, by rw [← hknown.resolve?_eq, hsame, hknown'.resolve?_eq]⟩
  · intro arguments hknown depth depth' hdeep hdeep'
    refine apply_endsAlike (hs.heaps_on hjk hp hq) ?_ hdeep hdeep'
    refine List.forall_mem_cons.mpr ⟨?_, fun v hv a ha => ?_⟩
    · intro a ha
      cases List.mem_singleton.mp ha
      exact hstill
    · exact hs.still_of_knownBy hp (hknown v hv a ha)

/-- After `let f = fn() { x }` and `let x = 5`, a call of the function does not find the name, as
when it was made. -/
theorem Session.frozen_unbound :
    let scope := (Heap.globalScope {}).1
    ∃ scopes heap history p q c, Session scopes heap history ∧ history[2]? = some p ∧
      history[9]? = some q ∧ KnownBy history 2 c ∧
      (q.machine.heap.resolve? scope "x").bind Value.inspect? = some "5" ∧
      p.machine.heap.resolve? c.scope "x" = q.machine.heap.resolve? c.scope "x" ∧
      ¬ TooDeep (apply 1 c.value [] p.machine) ∧ ¬ TooDeep (apply 5 c.value [] q.machine) ∧
      EndsAlike p.machine q.machine (apply 1 c.value [] p.machine)
        (apply 5 c.value [] q.machine) := by
  intro scope
  have h := ((Session.start.opened).evaluated (List.mem_singleton_self _) 2
    (.letBind "f" (.function [] (.identifier "x")))).evaluated (List.mem_singleton_self _) 2
    (.letBind "x" (.integer 5))
  obtain ⟨scopes, heap, history, h, hfound⟩ : ∃ scopes heap history, Session scopes heap history ∧
      (history[2]?.any fun p => history[9]?.any fun q => p.result.any fun v =>
        v.closures.any fun c =>
          decide ((q.machine.heap.resolve? scope "x").bind Value.inspect? = some "5") &&
          decide (¬ TooDeep (apply 1 c.value [] p.machine)) &&
          decide (¬ TooDeep (apply 5 c.value [] q.machine))) = true :=
    ⟨_, _, _, h, by decide +kernel⟩
  simp only [Option.any_eq_true, List.any_eq_true, Bool.and_eq_true, decide_eq_true_eq] at hfound
  obtain ⟨p, hp, q, hq, v, hv, c, hc, ⟨hx, hdeep⟩, hdeep'⟩ := hfound
  have hknown : KnownBy history 2 c := ⟨2, Nat.le_refl _, p, hp, .inl ⟨v, hv, hc⟩⟩
  have hfrozen := h.frozen (by decide : 2 ≤ 9) hp hq hknown
  exact ⟨scopes, heap, history, p, q, c, h, hp, hq, hknown, hx, (hfrozen.1 "x").1, hdeep, hdeep',
    hfrozen.2 [] (List.forall_mem_nil _) 1 5 hdeep hdeep'⟩

end MonkeyLang.Eval

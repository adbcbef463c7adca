import MonkeyLang.Proofs.Eval.Safety

/-!
Maps as programs see them. A literal whose keys and values can be evaluated gives the map in which
the last value of each key wins, and indexing it looks the last value up. In a session of parsed
programs no other maps come up than those with usable and distinct keys.
-/
namespace MonkeyLang.Eval

/-- The keys and values of some entries are evaluated in order, to usable keys and to values that do
not unwind. -/
inductive EntriesGive (sub : Sub) (scope : Scope) :
    List (Node × Node) → List (MapKey × Value) → Machine → Machine → Prop
  | nil (m : Machine) : EntriesGive sub scope [] [] m m
  | cons {keyNode valueNode : Node} {ns : List (Node × Node)} {key : MapKey} {value : Value}
      {pairs : List (MapKey × Value)} {m m₁ m₂ m' : Machine} (husable : key.isUsable)
      (hkey : sub keyNode scope m = .ok key.toValue m₁)
      (hvalue : sub valueNode scope m₁ = .ok value m₂) (hgoesOn : value.unwinds = false)
      (rest : EntriesGive sub scope ns pairs m₂ m') :
      EntriesGive sub scope ((keyNode, valueNode) :: ns) ((key, value) :: pairs) m m'

variable {sub : Sub} {scope : Scope} {ns : List (Node × Node)} {pairs : List (MapKey × Value)}
  {m m' : Machine}

theorem EntriesGive.usable (h : EntriesGive sub scope ns pairs m m') :
    ∀ p ∈ pairs, p.1.isUsable := by
  induction h with
  | nil => exact List.forall_mem_nil _
  | cons husable _ _ _ _ ih => exact List.forall_mem_cons.mpr ⟨husable, ih⟩

theorem onValue_of_ok {first : Eval Value} {next : Value → Eval Value} {v : Value}
    (h : first m = .ok v m') (hgoesOn : v.unwinds = false) : onValue first next m = next v m' := by
  change EStateM.bind first _ m = _
  rw [EStateM.bind, h]
  simp [hgoesOn]

theorem typed_key?_bind {key : MapKey} (husable : key.isUsable) (next : MapKey → Eval Value) :
    (typed key.toValue.key? >>= next) m = next key m := by
  rw [MapKey.key?_toValue husable]
  rfl

theorem entriesFrom_eq (h : EntriesGive sub scope ns pairs m m') (found : Entries) :
    entriesFrom sub scope found ns m =
      .ok (.map (pairs.foldl (fun es p => Entries.insert p.1 (p.1.toValue, p.2) es) found)) m' := by
  induction h generalizing found with
  | nil => rfl
  | @cons keyNode valueNode ns key value pairs m m₁ m₂ m' husable hkey hvalue hgoesOn _ ih =>
    rw [entriesFrom, onValue_of_ok hkey key.unwinds_toValue, typed_key?_bind husable]
    have hrest : onValue (sub valueNode scope) (fun value =>
        entriesFrom sub scope (found.insert key (key.toValue, value)) ns) m₁ = _ :=
      (onValue_of_ok hvalue hgoesOn).trans (ih _)
    cases key with
    | unusable kind => cases husable
    | _ => exact hrest

theorem indexValue_map {es : Entries} {key : MapKey} (husable : key.isUsable) :
    indexValue (.map es) key.toValue m = .ok ((Entries.find? es key).getD .null) m := by
  cases key with
  | unusable kind => cases husable
  | _ => rfl

theorem evalNode_mapping [Text.Encoding] {depth : Nat}
    (h : EntriesGive (evalNode depth) scope ns pairs (m.recorded (.mapNode ns.length)) m') :
    evalNode (depth + 1) (.mapping ns) scope m = .ok (.map (Entries.lastWins pairs)) m' := by
  have hentries := entriesFrom_eq h []
  rw [show ([] : Entries) = Entries.lastWins [] from rfl,
    Entries.foldl_insert_lastWins] at hentries
  exact hentries

theorem evalNode_index [Text.Encoding] {depth : Nat} {collection position : Node} {es : Entries}
    {key : MapKey} {m'' : Machine} (husable : key.isUsable)
    (hcollection : evalNode depth collection scope m = .ok (.map es) m')
    (hposition : evalNode depth position scope m' = .ok key.toValue m'') :
    evalNode (depth + 1) (.index collection position) scope m =
      .ok ((Entries.find? es key).getD .null) m'' := by
  rw [evalNode, evalForm, onValue_of_ok hcollection rfl,
    onValue_of_ok hposition key.unwinds_toValue, indexValue_map husable]

/-- A map literal gives one entry for each key, in the order in which the keys come first, with the
last value given for it; indexing gives that value, or null. Every map that is given, passed or
bound in a session of parsed programs, inside any value, has usable and distinct keys, and each of
its entries is found under the key of its own first part. -/
theorem maps_keep_last_values [Text.Alphabet] [Text.Encoding] :
    (∀ {depth : Nat} {scope : Scope} {ns : List (Node × Node)} {pairs : List (MapKey × Value)}
      {m m' : Machine},
      EntriesGive (evalNode depth) scope ns pairs (m.recorded (.mapNode ns.length)) m' →
      ∃ es : Entries,
        evalNode (depth + 1) (.mapping ns) scope m = .ok (.map es) m' ∧
        es.map (fun e => (e.1, e.2.1)) =
          (pairs.map Prod.fst).eraseDups.map (fun key => (key, key.toValue)) ∧
        (∀ key u, ((key, key.toValue, u) ∈ es ↔
          ∃ before after, pairs = before ++ (key, u) :: after ∧ ∀ p ∈ after, p.1 ≠ key)) ∧
        ∀ (depth : Nat) (scope : Scope) (collection position : Node) (m m' m'' : Machine)
          (key : MapKey), key.isUsable →
          evalNode depth collection scope m = .ok (.map es) m' →
          evalNode depth position scope m' = .ok key.toValue m'' →
          ∃ v, evalNode (depth + 1) (.index collection position) scope m = .ok v m'' ∧
            (∀ before u after, pairs = before ++ (key, u) :: after → (∀ p ∈ after, p.1 ≠ key) →
              v = u) ∧
            ((∀ p ∈ pairs, p.1 ≠ key) → v = .null)) ∧
    ∀ {heap : Heap} {history : List Observation}, Recorded heap history →
      ∀ v, (∃ o ∈ history, o.Shows v) ∨ (∃ i, ∃ b ∈ heap.frame i, b.2 = v) →
      ∀ es : Entries, Inside Value.parts v (.map es) → es.Keyed ∧
        ∀ e ∈ es, ∀ key ∈ e.2.1.key?, Entries.find? es key = some e.2.2 := by
  constructor
  · intro depth scope ns pairs m m' h
    refine ⟨Entries.lastWins pairs, evalNode_mapping h, Entries.keys_lastWins pairs,
      fun key u => ?_, ?_⟩
    · rw [Entries.mem_lastWins_iff h.usable, Entries.lookup_reverse_eq_some]
    · intro depth scope collection position m m' m'' key husable hcollection hposition
      refine ⟨_, evalNode_index husable hcollection hposition, ?_, fun habsent => ?_⟩
      · intro before u after hsplit hafter
        have hlast := Entries.lookup_reverse_eq_some.mpr ⟨before, after, hsplit, hafter⟩
        rw [Entries.find?_lastWins, hlast, Option.getD_some]
      · rw [Entries.find?_lastWins, Entries.lookup_reverse_eq_none habsent]
        rfl
  · intro heap history h v hv es hinside
    have hkeyed : es.Keyed := h.safe hv _ hinside
    refine ⟨hkeyed, fun e he key hkey => ?_⟩
    obtain rfl : key = e.1 := Option.some.inj (hkey.symm.trans (hkeyed.key?_eq e he))
    exact hkeyed.find?_eq he

theorem maps_keep_last_values_repeated_key :
    (∃ (ns : List (Node × Node)) (pairs : List (MapKey × Value)) (m : Machine) (es : Entries),
      pairs.map Prod.fst = [.integer 1, .boolean true, .integer 1] ∧
      EntriesGive (evalNode 1) { frame := 0 } ns pairs (m.recorded (.mapNode ns.length))
        (m.recorded (.mapNode ns.length)) ∧
      evalNode 2 (.mapping ns) { frame := 0 } m = .ok (.map es) (m.recorded (.mapNode ns.length)) ∧
      es.map Prod.fst = [.integer 1, .boolean true] ∧
      (.integer 1, .integer 1, .integer 30) ∈ es) ∧
    ∃ heap history es, Recorded heap history ∧ (∃ o ∈ history, o.Shows (.map es)) ∧
      Entries.Keyed es := by
  constructor
  · let pairs : List (MapKey × Value) :=
      [(.integer 1, .integer 10), (.boolean true, .integer 20), (.integer 1, .integer 30)]
    let ns : List (Node × Node) :=
      [(.integer 1, .integer 10), (.boolean true, .integer 20), (.integer 1, .integer 30)]
    have hgive : EntriesGive (evalNode 1) { frame := 0 } ns pairs
        (Machine.recorded (.mapNode ns.length) {}) (Machine.recorded (.mapNode ns.length) {}) :=
      .cons rfl rfl rfl rfl (.cons rfl rfl rfl rfl (.cons rfl rfl rfl rfl (.nil _)))
    obtain ⟨es, heval, hkeys, hvalues, -⟩ := maps_keep_last_values.1 hgive
    have hfirst := congrArg (List.map Prod.fst) hkeys
    rw [List.map_map] at hfirst
    refine ⟨ns, pairs, {}, es, rfl, hgive, heval, hfirst, ?_⟩
    exact (hvalues (.integer 1) (.integer 30)).mpr ⟨[_, _], [], rfl, List.forall_mem_nil _⟩
  · have hparse : parse "\x7b1: 10, true: 20, 1: 30\x7d" =
        .ok (parseScan (Lexer.scan "\x7b1: 10, true: 20, 1: 30\x7d")) :=
      parse_eq_ok.mpr ⟨by decide +kernel, rfl⟩
    have hrecorded := (Recorded.fresh.opened none Builtin.all).evaluated hparse 4 { frame := 0 }
    have hshown : ∃ o ∈ observations (observed 4
        (parseScan (Lexer.scan "\x7b1: 10, true: 20, 1: 30\x7d")).program { frame := 0 }
        { machine := { heap := (Heap.newScope {} none Builtin.all).2 }, seen := [] }),
        ∃ v ∈ o.note.values, v.kind? = some .map := by decide +kernel
    obtain ⟨o, ho, v, hv, hkind⟩ := hshown
    obtain ⟨es, rfl⟩ : ∃ es, v = .map es := by
      cases v with
      | map es => exact ⟨es, rfl⟩
      | _ => cases hkind
    have hshows : o.Shows (.map es) := Or.inl hv
    have hkeyed := maps_keep_last_values.2 hrecorded _ (Or.inl ⟨o, ho, hshows⟩) es (inside_refl _)
    exact ⟨_, _, es, hrecorded, ⟨o, ho, hshows⟩, hkeyed.1⟩

end MonkeyLang.Eval

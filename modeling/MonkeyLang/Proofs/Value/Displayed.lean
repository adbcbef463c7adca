import MonkeyLang.Proofs.RoundTrip
import MonkeyLang.Proofs.Syntax.WellMade
import MonkeyLang.Proofs.Value.Keyed

/-!
Displayed values are program texts. The text of a value without functions and strings is read as the
literal of the value, and the text of a function is read as a function with the same parameters and
the same body, whatever the parentheses in it.
-/
namespace MonkeyLang

open Lexer

/-! ### Data -/

namespace Value

/-- Values made of integers, booleans, arrays, and maps with distinct integer and boolean keys. The
smallest integer is left out: it has no literal. -/
inductive Data : Value → Prop
  | integer {value : Int} (hlow : -maxInteger ≤ value) (hhigh : value ≤ maxInteger) :
      Data (.integer value)
  | boolean (value : Bool) : Data (.boolean value)
  | array {elements : List Value} (helements : ∀ v ∈ elements, Data v) : Data (.array elements)
  | map {entries : Entries} (hkeyed : entries.Keyed)
      (hkinds : ∀ e ∈ entries, e.2.1.kind? ∈ [some .integer, some .boolean])
      (hkeys : ∀ e ∈ entries, Data e.2.1) (hvalues : ∀ e ∈ entries, Data e.2.2) :
      Data (.map entries)

mutual

def literal : Value → Node
  | integer value => if value < 0 then .prefixOp .minus (.integer (-value)) else .integer value
  | boolean value => .boolean value
  | array elements => .array (literals elements)
  | map entries => .mapping (literalEntries entries)
  | _ => .hole

def literals : List Value → List Node
  | [] => []
  | value :: rest => value.literal :: literals rest

def literalEntries : List (MapKey × Value × Value) → List (Node × Node)
  | [] => []
  | (_, key, value) :: rest => (key.literal, value.literal) :: literalEntries rest

end

mutual

/-- The number of levels that the literal of a value is nested. -/
def levels : Value → Nat
  | integer value => if value < 0 then 2 else 1
  | array elements => levelsAll elements + 1
  | map entries => levelsEntries entries + 1
  | _ => 1

def levelsAll : List Value → Nat
  | [] => 0
  | value :: rest => max value.levels (levelsAll rest)

def levelsEntries : List (MapKey × Value × Value) → Nat
  | [] => 0
  | (_, key, value) :: rest => max (max key.levels value.levels) (levelsEntries rest)

end

end Value

/-! ### The text of data -/

variable [Text.Alphabet]

def SpellsOut (text : String) (phrase : Phrase) : Prop := ∃ ls, Written phrase ls ∧ Spells text ls

theorem spellsOut_entry {text text' : String} {key value : Node}
    (hkey : SpellsOut text (.expression key)) (hvalue : SpellsOut text' (.expression value)) :
    SpellsOut (text ++ ": " ++ text') (.entry key value) := by
  obtain ⟨ks, hks, hspellsKey⟩ := hkey
  obtain ⟨vs, hvs, hspellsValue⟩ := hvalue
  have hcolon : IsMark ':' .colon := by decide
  exact ⟨_, .entry hks hvs, hspellsKey.separated hcolon hspellsValue (by simp)⟩

theorem spellsOut_list {texts : List String} {parts : List Phrase}
    (h : List.Forall₂ SpellsOut texts parts) :
    SpellsOut (", ".intercalate texts) (.list parts) := by
  induction h with
  | nil => exact ⟨[], .empty, fun _ h => h⟩
  | @cons text part texts parts hpart hrest ih =>
    obtain ⟨ps, hps, hspells⟩ := hpart
    cases hrest with
    | nil =>
      rw [String.intercalate_singleton]
      exact ⟨ps, .single hps, hspells⟩
    | cons =>
      obtain ⟨rs, hrs, hspellsRest⟩ := ih
      have hcomma : IsMark ',' .comma := by decide
      refine ⟨_, .more hps hrs, hspells.separated hcomma hspellsRest ?_⟩
      simp [String.intercalate_cons_cons]

theorem spellsOut_array {texts : List String} {nodes : List Node}
    (h : List.Forall₂ SpellsOut texts (nodes.map .expression)) :
    SpellsOut ("[" ++ ", ".intercalate texts ++ "]") (.expression (.array nodes)) := by
  obtain ⟨ls, hls, hspells⟩ := spellsOut_list h
  exact ⟨_, .array hls, hspells.enclosed (x := '[') (y := ']') (by decide) (by decide) (by simp)⟩

theorem spellsOut_mapping {texts : List String} {entries : List (Node × Node)}
    (h : List.Forall₂ SpellsOut texts (entries.map fun e => .entry e.1 e.2)) :
    SpellsOut ("\x7b" ++ ", ".intercalate texts ++ "\x7d") (.expression (.mapping entries)) := by
  obtain ⟨ls, hls, hspells⟩ := spellsOut_list h
  refine ⟨_, .mapping hls, ?_⟩
  exact hspells.enclosed (x := '\x7b') (y := '\x7d') (by decide) (by decide) (by simp)

theorem spellsOut_integer {value : Int} (hlow : -maxInteger ≤ value) (hhigh : value ≤ maxInteger) :
    SpellsOut (toString value) (.expression (Value.integer value).literal) := by
  rw [Value.literal]
  split
  · next hneg =>
    -- The sign is an operator, which no other operator may go on with.
    have hnumeral : Numeral (Nat.toDigits 10 (-value).toNat) (-value) :=
      numeral_toDigits (by omega) (by omega)
    obtain ⟨hhead, ls, hls, hspells⟩ := reprints_integer hnumeral
    obtain ⟨n, rfl⟩ := Int.eq_negSucc_of_lt_zero hneg
    have htext : (toString (Int.negSucc n)).toList =
        '-' :: (Node.integer (-Int.negSucc n)).source.toList := by
      change ("-" ++ (n + 1).repr).toList = '-' :: (n + 1).repr.toList
      rw [String.toList_append]
      rfl
    refine ⟨_, .prefixOp (by decide) hls, fun {cs ks} hcs h => ?_⟩
    rw [htext]
    have hminus : Operator.minus ∈ Operator.leading ++ Operator.between := by decide
    exact lexes_operator hminus (head?_append_ne hhead hcs.head?_ne) (hspells hcs h)
  · next hnonneg =>
    have hnumeral : Numeral (Nat.toDigits 10 value.toNat) value :=
      numeral_toDigits (by omega) hhigh
    exact (reprints_integer hnumeral).spells

namespace Value

def ShowsLiteral (v : Value) : Prop :=
  ∃ text, v.inspect? = some text ∧ SpellsOut text (.expression v.literal)

theorem spellsOut_literals {elements : List Value} (h : ∀ v ∈ elements, v.ShowsLiteral) :
    ∃ texts, inspectAll? elements = some texts ∧
      List.Forall₂ SpellsOut texts ((literals elements).map .expression) := by
  induction elements with
  | nil => exact ⟨[], rfl, .nil⟩
  | cons v rest ih =>
    obtain ⟨⟨text, htext, hspelled⟩, hrest⟩ := List.forall_mem_cons.mp h
    obtain ⟨texts, htexts, hspelledRest⟩ := ih hrest
    refine ⟨text :: texts, ?_, .cons hspelled hspelledRest⟩
    simp [inspectAll?, htext, htexts]

theorem spellsOut_literalEntries {entries : Entries}
    (h : ∀ e ∈ entries, e.2.1.ShowsLiteral ∧ e.2.2.ShowsLiteral) :
    ∃ texts, inspectEntries? entries = some texts ∧
      List.Forall₂ SpellsOut texts ((literalEntries entries).map fun e => .entry e.1 e.2) := by
  induction entries with
  | nil => exact ⟨[], rfl, .nil⟩
  | cons e rest ih =>
    obtain ⟨⟨⟨key, hkey, hspelledKey⟩, value, hvalue, hspelledValue⟩, hrest⟩ :=
      List.forall_mem_cons.mp h
    obtain ⟨texts, htexts, hspelledRest⟩ := ih hrest
    refine ⟨_, ?_, .cons (spellsOut_entry hspelledKey hspelledValue) hspelledRest⟩
    simp [inspectEntries?, hkey, hvalue, htexts]

theorem Data.showsLiteral {v : Value} (h : v.Data) : v.ShowsLiteral := by
  induction h with
  | integer hlow hhigh => exact ⟨_, rfl, spellsOut_integer hlow hhigh⟩
  | boolean value => exact ⟨_, rfl, (reprints_boolean value).spells⟩
  | array _ ih =>
    obtain ⟨texts, htexts, hspelled⟩ := spellsOut_literals ih
    refine ⟨_, ?_, spellsOut_array hspelled⟩
    simp [inspect?, htexts]
  | map _ _ _ _ ihkeys ihvalues =>
    obtain ⟨texts, htexts, hspelled⟩ :=
      spellsOut_literalEntries fun e he => ⟨ihkeys e he, ihvalues e he⟩
    refine ⟨_, ?_, spellsOut_mapping hspelled⟩
    simp [inspect?, htexts]

/-! ### Reading data -/

omit [Text.Alphabet] in
theorem allGraded_literals {elements : List Value} (h : ∀ v ∈ elements, v.literal.Graded) :
    Node.AllGraded (literals elements) := by
  induction elements with
  | nil => trivial
  | cons v rest ih =>
    obtain ⟨hv, hrest⟩ := List.forall_mem_cons.mp h
    exact ⟨hv, ih hrest⟩

omit [Text.Alphabet] in
theorem entriesGraded_literalEntries {entries : Entries}
    (h : ∀ e ∈ entries, e.2.1.literal.Graded ∧ e.2.2.literal.Graded) :
    Node.EntriesGraded (literalEntries entries) := by
  induction entries with
  | nil => trivial
  | cons e rest ih =>
    obtain ⟨⟨hkey, hvalue⟩, hrest⟩ := List.forall_mem_cons.mp h
    exact ⟨hkey, hvalue, ih hrest⟩

omit [Text.Alphabet] in
theorem Data.graded {v : Value} (h : v.Data) : v.literal.Graded := by
  induction h with
  | @integer value _ _ =>
    rw [literal]
    split <;> simp [Node.Graded, Node.level?]
  | boolean value => simp [literal, Node.Graded]
  | array _ ih =>
    rw [literal, Node.Graded]
    exact allGraded_literals ih
  | map _ _ _ _ ihkeys ihvalues =>
    rw [literal, Node.Graded]
    exact entriesGraded_literalEntries fun e he => ⟨ihkeys e he, ihvalues e he⟩

end Value

theorem parse_of_spellsOut {text : String} {ns : List Node} (h : SpellsOut text (.statements ns))
    (hgraded : Node.AllGraded ns) :
    parse text = .ok { program := .program ns, diagnostics := [] } := by
  obtain ⟨ls, hls, hspells⟩ := h
  obtain ⟨hoversized, htokens⟩ := hspells.scan
  rw [← htokens] at hls
  obtain ⟨t, hread, -⟩ := accepts_program hls hgraded _ (holds_ofScan hls (scanWithin_ending _ _))
  exact parse_eq_ok.mpr ⟨hoversized, Parser.parseScan_of_reads hread⟩

theorem spellsOut_expression {text : String} {inner : Node}
    (h : SpellsOut text (.expression inner)) :
    SpellsOut text (.statements [.expression inner]) := by
  obtain ⟨ls, hls, hspells⟩ := h
  have hwritten := Written.unterminated (.expression hls) .done (by rintro _ ⟨⟩)
  rw [List.append_nil] at hwritten
  exact ⟨ls, hwritten, hspells⟩

theorem Value.Data.parse_inspect? {v : Value} (h : v.Data) :
    ∃ text, v.inspect? = some text ∧
      parse text = .ok { program := .program [.expression v.literal], diagnostics := [] } := by
  obtain ⟨text, htext, hspelled⟩ := h.showsLiteral
  have hgraded : Node.AllGraded [.expression v.literal] := ⟨h.graded, trivial⟩
  exact ⟨text, htext, parse_of_spellsOut (spellsOut_expression hspelled) hgraded⟩

/-! ### Functions -/

omit [Text.Alphabet] in
theorem Value.functionText_source (parameters : List String) (body : Node) :
    functionText parameters body.source = (Node.function parameters body).source := by
  rw [functionText, Node.source, inBraces]
  split <;> simp only [String.append_assoc] <;> rfl

theorem reprints_list {parts : List Phrase} (h : ∀ part ∈ parts, Reprints part) :
    Reprints (.list parts) := by
  induction parts with
  | nil => exact reprints_empty
  | cons part rest ih =>
    obtain ⟨hpart, hrest⟩ := List.forall_mem_cons.mp h
    cases rest with
    | nil => exact reprints_single hpart
    | cons next rest => exact reprints_more hpart (ih hrest)

namespace Node

theorem Sound.conditional {condition consequence alternative : Node}
    (h : (conditional condition consequence alternative).Sound) :
    condition.Sound ∧ consequence.Sound := by
  cases alternative <;> exact ⟨h.visited (.head _), h.visited (.tail _ (.head _))⟩

mutual

theorem SoundExpression.reprints {n : Node} (h : n.SoundExpression) : Reprints (.expression n) := by
  obtain ⟨hform, hsound⟩ := h
  have hmade := hsound.wellMade
  cases n with
  | identifier name => exact reprints_identifier hmade
  | integer value => exact reprints_integer (numeral_toDigits hmade.1 hmade.2)
  | text value => exact reprints_text hmade
  | boolean value => exact reprints_boolean value
  | prefixOp operator right =>
    have hright := hsound.visited (List.mem_singleton_self right)
    exact reprints_prefixOp hmade.1 (SoundExpression.reprints ⟨hmade.2, hright⟩)
  | infixOp left operator right =>
    obtain ⟨known, hleft, hright⟩ := hmade
    have hleftSound : left.Sound := hsound.visited (.head _)
    have hrightSound : right.Sound := hsound.visited (.tail _ (.head _))
    exact reprints_infixOp known (SoundExpression.reprints ⟨hleft, hleftSound⟩)
      (SoundExpression.reprints ⟨hright, hrightSound⟩)
  | grouped inner =>
    have hinner := hsound.visited (List.mem_singleton_self inner)
    exact reprints_grouped (SoundExpression.reprints ⟨hmade, hinner⟩)
  | conditional condition consequence alternative =>
    obtain ⟨hcondition, hconsequence, halternative⟩ := hmade
    obtain ⟨hconditionSound, hconsequenceSound⟩ := hsound.conditional
    have hreprints := SoundExpression.reprints ⟨hcondition, hconditionSound⟩
    have hreprintsBlock := SoundBlock.reprints ⟨hconsequence, hconsequenceSound⟩
    cases alternative with
    | hole => exact reprints_conditional hreprints hreprintsBlock
    | block ns =>
      have helse : (block ns).Sound := hsound.visited (.tail _ (.tail _ (.head _)))
      exact reprints_conditionalElse hreprints hreprintsBlock (SoundBlock.reprints ⟨rfl, helse⟩)
    | _ => rcases halternative with h | h <;> cases h
  | function parameters body =>
    have hparameters : ∀ p ∈ parameters.map Phrase.parameter, Reprints p :=
      List.forall_mem_map.mpr fun name hname => reprints_parameter (hmade.1 name hname)
    exact reprints_function (reprints_list hparameters) (SoundBlock.reprints ⟨hmade.2, hsound.body⟩)
  | call callee arguments =>
    have hcallee : callee.Sound := hsound.visited (.head _)
    have harguments : ∀ n ∈ arguments, Reprints (.expression n) :=
      reprints_expressions fun n hn => ⟨hmade.2 n hn, hsound.visited (.tail _ hn)⟩
    exact reprints_call (SoundExpression.reprints ⟨hmade.1, hcallee⟩)
      (reprints_list (List.forall_mem_map.mpr harguments))
  | array elements =>
    have helements := reprints_expressions fun n hn => ⟨hmade n hn, hsound.visited hn⟩
    exact reprints_array (reprints_list (List.forall_mem_map.mpr helements))
  | index collection position =>
    have hcollection : collection.Sound := hsound.visited (.head _)
    have hposition : position.Sound := hsound.visited (.tail _ (.head _))
    exact reprints_index (SoundExpression.reprints ⟨hmade.1, hcollection⟩)
      (SoundExpression.reprints ⟨hmade.2, hposition⟩)
  | mapping entries =>
    have hentries := reprints_entries fun e he =>
      ⟨⟨(hmade e he).1, hsound.visited (List.mem_append_left _ (List.mem_map_of_mem he))⟩,
        (hmade e he).2, hsound.visited (List.mem_append_right _ (List.mem_map_of_mem he))⟩
    exact reprints_mapping (reprints_list (List.forall_mem_map.mpr hentries))
  | _ => cases hform

theorem reprints_expressions {ns : List Node} (h : ∀ n ∈ ns, n.SoundExpression) :
    ∀ n ∈ ns, Reprints (.expression n) := by
  cases ns with
  | nil => exact List.forall_mem_nil _
  | cons n rest =>
    obtain ⟨hn, hrest⟩ := List.forall_mem_cons.mp h
    exact List.forall_mem_cons.mpr ⟨SoundExpression.reprints hn, reprints_expressions hrest⟩

theorem reprints_entries {entries : List (Node × Node)}
    (h : ∀ e ∈ entries, e.1.SoundExpression ∧ e.2.SoundExpression) :
    ∀ e ∈ entries, Reprints (.entry e.1 e.2) := by
  cases entries with
  | nil => exact List.forall_mem_nil _
  | cons e rest =>
    obtain ⟨⟨hkey, hvalue⟩, hrest⟩ := List.forall_mem_cons.mp h
    have hentry := reprints_entry (SoundExpression.reprints hkey) (SoundExpression.reprints hvalue)
    exact List.forall_mem_cons.mpr ⟨hentry, reprints_entries hrest⟩

theorem SoundStatement.reprints {n : Node} (h : n.SoundStatement) : Reprints (.statement n) := by
  obtain ⟨hform, hsound⟩ := h
  have hmade := hsound.wellMade
  cases n with
  | letBind name value =>
    have hvalue := hsound.visited (List.mem_singleton_self value)
    exact reprints_letBind hmade.1 (SoundExpression.reprints ⟨hmade.2, hvalue⟩)
  | returning value =>
    have hvalue := hsound.visited (List.mem_singleton_self value)
    exact reprints_returning (SoundExpression.reprints ⟨hmade, hvalue⟩)
  | expression inner =>
    have hinner := hsound.visited (List.mem_singleton_self inner)
    exact reprints_expression (SoundExpression.reprints ⟨hmade, hinner⟩)
  | _ => cases hform

theorem reprints_statementsOf {ns : List Node} (h : ∀ n ∈ ns, n.SoundStatement) :
    Reprints (.statements ns) := by
  cases ns with
  | nil => exact reprints_done
  | cons n rest =>
    obtain ⟨hn, hrest⟩ := List.forall_mem_cons.mp h
    exact reprints_statements (SoundStatement.reprints hn) (reprints_statementsOf hrest)

theorem SoundBlock.reprints {n : Node} (h : n.SoundBlock) : Reprints (.block n) := by
  obtain ⟨hform, hsound⟩ := h
  have hmade := hsound.wellMade
  cases n with
  | block ns =>
    have hns : ∀ n ∈ ns, n.SoundStatement := fun n hn => ⟨hmade n hn, hsound.visited hn⟩
    exact reprints_block (reprints_statementsOf hns)
  | _ => cases hform

end

end Node

/-- A function is displayed as a program of one expression, a function literal with the same
parameters and the same body in other parentheses. -/
theorem parse_inspect?_function {parameters : List String} {body : Node} (scope : Scope)
    (h : (Node.function parameters body).Sound) :
    ∃ text, (Value.function parameters body scope).inspect? = some text ∧
      parse text = .ok
        { program := .program [.expression (.function parameters body.regrouped)]
          diagnostics := [] } := by
  have hreprints := Node.SoundExpression.reprints ⟨rfl, h⟩
  have hspelled : SpellsOut (Node.function parameters body).source
      (.expression (.function parameters body.regrouped)) := by
    obtain ⟨ls, hls, hspells⟩ := hreprints.spells
    rw [Phrase.regrouped, Node.regrouped] at hls
    exact ⟨ls, hls, hspells⟩
  have hgraded : Node.AllGraded [.expression (.function parameters body.regrouped)] := by
    simp only [Node.AllGraded, Node.Graded, Node.graded_regrouped, and_self]
  rw [← Value.functionText_source] at hspelled
  exact ⟨_, rfl, parse_of_spellsOut (spellsOut_expression hspelled) hgraded⟩

end MonkeyLang

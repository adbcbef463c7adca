import MonkeyLang.Proofs.Lexer.Lexes
import MonkeyLang.Proofs.Parser.Completeness
import MonkeyLang.Proofs.Parser.Soundness
import MonkeyLang.Proofs.Syntax.Regrouped

/-!
Printing and reading back. The text of a phrase that was written down in scanned lexemes is scanned
again as lexemes that write the regrouped phrase down. Since regrouped trees are graded, they are
read back as they are, and they print as the trees they come from.
-/
namespace MonkeyLang

open Lexer

/-! ### Text and regrouping of phrases -/

namespace Phrase

mutual

def text : Phrase → String
  | expression node | statement node => node.source
  | entry key value => key.source ++ ": " ++ value.source
  | parameter name => name
  | list parts => ", ".intercalate (texts parts)
  | statements nodes => "; ".intercalate (Node.sources nodes)
  | block node => inBraces node.source

def texts : List Phrase → List String
  | [] => []
  | part :: rest => part.text :: texts rest

end

mutual

def regrouped : Phrase → Phrase
  | expression node => expression node.regrouped
  | entry key value => entry key.regrouped value.regrouped
  | parameter name => parameter name
  | list parts => list (regroupedAll parts)
  | statement node => statement node.regrouped
  | statements nodes => statements (Node.regroupedAll nodes)
  | block node => block node.regrouped

def regroupedAll : List Phrase → List Phrase
  | [] => []
  | part :: rest => part.regrouped :: regroupedAll rest

end

theorem texts_map_expression (nodes : List Node) :
    texts (nodes.map .expression) = Node.sources nodes := by
  induction nodes with
  | nil => rfl
  | cons node rest ih => simp only [List.map_cons, texts, text, Node.sources, ih]

theorem texts_map_parameter (names : List String) : texts (names.map .parameter) = names := by
  induction names with
  | nil => rfl
  | cons name rest ih => simp only [List.map_cons, texts, text, ih]

theorem texts_map_entry (entries : List (Node × Node)) :
    texts (entries.map fun e => .entry e.1 e.2) = Node.entrySources entries := by
  induction entries with
  | nil => rfl
  | cons entry rest ih => simp only [List.map_cons, texts, text, Node.entrySources, ih]

theorem regroupedAll_map_expression (nodes : List Node) :
    regroupedAll (nodes.map .expression) = (Node.regroupedAll nodes).map .expression := by
  induction nodes with
  | nil => rfl
  | cons node rest ih => simp only [List.map_cons, regroupedAll, regrouped, Node.regroupedAll, ih]

theorem regroupedAll_map_parameter (names : List String) :
    regroupedAll (names.map .parameter) = names.map .parameter := by
  induction names with
  | nil => rfl
  | cons name rest ih => simp only [List.map_cons, regroupedAll, regrouped, ih]

theorem regroupedAll_map_entry (entries : List (Node × Node)) :
    regroupedAll (entries.map fun e => .entry e.1 e.2) =
      (Node.regroupedEntries entries).map fun e => .entry e.1 e.2 := by
  induction entries with
  | nil => rfl
  | cons entry rest ih =>
    simp only [List.map_cons, regroupedAll, regrouped, Node.regroupedEntries, ih]

end Phrase

theorem text_statements_cons (node : Node) (rest : List Node) :
    (Phrase.statements (node :: rest)).text =
      if rest = [] then (Phrase.statement node).text
      else (Phrase.statement node).text ++ "; " ++ (Phrase.statements rest).text := by
  cases rest with
  | nil => simp [Phrase.text, Node.sources]
  | cons next rest => simp [Phrase.text, Node.sources, String.intercalate_cons_cons]

theorem regroupedAll_eq_nil {nodes : List Node} : Node.regroupedAll nodes = [] ↔ nodes = [] := by
  cases nodes <;> simp [Node.regroupedAll]

theorem Written.text_regrouped {phrase : Phrase} {ls : List Lexeme} (h : Written phrase ls) :
    phrase.regrouped.text = phrase.text := by
  induction h with
  | identifier | integer | text | boolean | parameter | empty | done => rfl
  | prefixOp _ _ ih | grouped _ ih | letBind _ _ ih | returning _ ih | expression _ ih =>
    simp_all [Phrase.regrouped, Phrase.text, Node.regrouped, Node.source]
  | infixOp _ _ _ ihleft ihright =>
    simp_all [Phrase.regrouped, Phrase.text, Node.regrouped, Node.source]
  | conditional _ _ ihcondition ihconsequence =>
    simp_all [Phrase.regrouped, Phrase.text, Node.regrouped, Node.source]
  | conditionalElse _ _ halternative ihcondition ihconsequence ihalternative =>
    obtain ⟨ns, rfl⟩ := halternative.block_form
    simp_all [Phrase.regrouped, Phrase.text, Node.regrouped, Node.source]
  | function _ _ ihparameters ihbody =>
    simp_all [Phrase.regrouped, Phrase.text, Node.regrouped, Node.source]
  | call _ _ ihcallee iharguments =>
    simp_all [Phrase.regrouped, Phrase.text, Node.regrouped, Node.source,
      Phrase.texts_map_expression, Phrase.regroupedAll_map_expression]
  | array _ ihelements =>
    simp_all [Phrase.regrouped, Phrase.text, Node.regrouped, Node.source,
      Phrase.texts_map_expression, Phrase.regroupedAll_map_expression]
  | index _ _ ihcollection ihposition =>
    simp_all [Phrase.regrouped, Phrase.text, Node.regrouped, Node.source]
  | mapping _ ihentries =>
    simp_all [Phrase.regrouped, Phrase.text, Node.regrouped, Node.source,
      Phrase.texts_map_entry, Phrase.regroupedAll_map_entry]
  | entry _ _ ihkey ihvalue => simp_all [Phrase.regrouped, Phrase.text]
  | single _ ih => simp_all [Phrase.regrouped, Phrase.text, Phrase.texts, Phrase.regroupedAll]
  | more _ _ ihpart ihrest =>
    simp_all [Phrase.regrouped, Phrase.text, Phrase.texts, Phrase.regroupedAll,
      String.intercalate_cons_cons]
  | terminated _ _ ihnode ihrest | unterminated _ _ _ ihnode ihrest =>
    simp only [Phrase.regrouped, Node.regroupedAll, text_statements_cons, regroupedAll_eq_nil] at *
    rw [ihnode, ihrest]
  | block _ ih => simp_all [Phrase.regrouped, Phrase.text, Node.regrouped, Node.source]

/-! ### Printed text is scanned -/

theorem head?_append_ne {x : Char} {cs ds : List Char} (hcs : cs.head? ≠ some x)
    (hds : ds.head? ≠ some x) : (cs ++ ds).head? ≠ some x := by
  cases cs with
  | nil => exact hds
  | cons => exact hcs

section Scanned

variable [Text.Alphabet]

/-- Neither a word nor a number nor an operator goes on with such text. -/
def Boundary (cs : List Char) : Prop :=
  ∀ x ∈ cs.head?, Text.isLetter x = false ∧ x.isDigit = false ∧ x ≠ '='

theorem boundary_cons {x : Char} {cs : List Char}
    (h : x.toNat < 0x80 ∧ x.isAlpha = false ∧ x.isDigit = false ∧ x ≠ '=') :
    Boundary (x :: cs) := by
  rintro _ ⟨⟩
  obtain ⟨hlow, halpha, hrest⟩ := h
  exact ⟨(Text.isLetter_of_lt hlow).trans halpha, hrest⟩

theorem Boundary.head?_ne {cs : List Char} (h : Boundary cs) : cs.head? ≠ some '=' :=
  fun hhead => (h '=' hhead).2.2 rfl

def Spells (text : String) (ls : List Lexeme) : Prop :=
  ∀ {cs : List Char} {ks : List Lexeme}, Boundary cs → Lexes cs ks →
    Lexes (text.toList ++ cs) (ls ++ ks)

/-- The printed form of a phrase is scanned as lexemes that write the regrouped phrase down. -/
structure Reprints (phrase : Phrase) : Prop where
  head?_ne : phrase.text.toList.head? ≠ some '='
  spells : ∃ ls, Written phrase.regrouped ls ∧ Spells phrase.text ls

def IsMark (x : Char) (kind : TokenKind) : Prop :=
  TokenKind.ofChar? x = some kind ∧ x ≠ '=' ∧ x ≠ '!'

instance (x : Char) (kind : TokenKind) : Decidable (IsMark x kind) :=
  inferInstanceAs (Decidable (_ ∧ _))

theorem lexes_mark {x : Char} {kind : TokenKind} {cs : List Char} {ks : List Lexeme}
    (hmark : IsMark x kind) (h : Lexes cs ks) : Lexes (x :: cs) (kind.lexeme :: ks) :=
  lexes_char hmark.1 (Or.inr hmark.2) h

theorem Spells.mark {text : String} {ls : List Lexeme} {x : Char} {kind : TokenKind}
    {cs : List Char} {ks : List Lexeme} (hspells : Spells text ls) (hmark : IsMark x kind)
    (h : Lexes cs ks) : Lexes (text.toList ++ x :: cs) (ls ++ kind.lexeme :: ks) := by
  obtain ⟨hlow, halpha, hdigit, -⟩ := Lexer.of_ofChar? hmark.1
  exact hspells (boundary_cons ⟨hlow, halpha, hdigit, hmark.2.1⟩) (lexes_mark hmark h)

theorem Spells.enclosed {inner text : String} {ls : List Lexeme} {x y : Char}
    {kind kind' : TokenKind} (hinner : Spells inner ls) (hopen : IsMark x kind)
    (hclose : IsMark y kind') (htext : text.toList = x :: (inner.toList ++ [y])) :
    Spells text (kind.lexeme :: (ls ++ [kind'.lexeme])) := by
  intro cs ks hcs h
  rw [htext]
  simp only [List.cons_append, List.append_assoc, List.nil_append]
  exact lexes_mark hopen (hinner.mark hclose h)

theorem Spells.separated {first second text : String} {ls rs : List Lexeme} {x : Char}
    {kind : TokenKind} (hfirst : Spells first ls) (hmark : IsMark x kind)
    (hsecond : Spells second rs)
    (htext : text.toList = first.toList ++ x :: ' ' :: second.toList) :
    Spells text (ls ++ kind.lexeme :: rs) := by
  intro cs ks hcs h
  rw [htext]
  simp only [List.cons_append, List.append_assoc]
  exact hfirst.mark hmark (lexes_blank rfl (hsecond hcs h))

theorem lexes_operator {operator : Operator} {cs : List Char} {ks : List Lexeme}
    (known : operator ∈ Operator.leading ++ Operator.between) (hcs : cs.head? ≠ some '=')
    (h : Lexes cs ks) : Lexes (operator.text.toList ++ cs) (operator.lexeme :: ks) := by
  cases operator with
  | equal => exact lexes_equal h
  | notEqual => exact lexes_notEqual h
  | other text => simp [Operator.between, Operator.leading] at known
  | _ => exact lexes_char rfl (Or.inl hcs) h

def TokenKind.keywords : List TokenKind :=
  [fnWord, letWord, trueWord, falseWord, ifWord, elseWord, returnWord]

theorem lexes_keyword {kind : TokenKind} {cs : List Char} {ks : List Lexeme}
    (hkind : kind ∈ TokenKind.keywords) (hcs : Boundary cs) (h : Lexes cs ks) :
    Lexes (kind.text.toList ++ cs) (kind.lexeme :: ks) := by
  have hword : kind.text.toList ≠ [] ∧
      kind.text.toList.all (fun x => x.toNat < 0x80 && x.isAlpha) ∧
      TokenKind.ofWord kind.text = kind := by
    simp only [TokenKind.keywords, List.mem_cons, List.not_mem_nil, or_false] at hkind
    rcases hkind with rfl | rfl | rfl | rfl | rfl | rfl | rfl <;> decide
  have hletters : ∀ x ∈ kind.text.toList, Text.isLetter x := by
    intro x hx
    obtain ⟨hlow, halpha⟩ := Bool.and_eq_true_iff.mp (List.all_eq_true.mp hword.2.1 x hx)
    exact (Text.isLetter_of_lt (of_decide_eq_true hlow)).trans halpha
  have hlexes := lexes_word hword.1 hletters (fun x hx => (hcs x hx).1) h
  rw [String.ofList_toList, hword.2.2] at hlexes
  exact hlexes

theorem IsName.head?_ne {name : String} (h : IsName name) : name.toList.head? ≠ some '=' := by
  intro hhead
  have hletter := h.isLetter '=' (List.mem_of_mem_head? hhead)
  rw [Text.isLetter_of_lt (by decide)] at hletter
  exact absurd hletter (by decide)

theorem IsName.spells {name : String} (h : IsName name) : Spells name [⟨.ident, name⟩] := by
  intro cs ks hcs hlexes
  have hword := lexes_word h.nonempty h.isLetter (fun x hx => (hcs x hx).1) hlexes
  rw [String.ofList_toList, h.ofWord_eq] at hword
  exact hword

/-! ### Expressions -/

theorem reprints_identifier {name : String} (h : IsName name) :
    Reprints (.expression (.identifier name)) :=
  ⟨h.head?_ne, _, .identifier name, h.spells⟩

theorem reprints_parameter {name : String} (h : IsName name) : Reprints (.parameter name) :=
  ⟨h.head?_ne, _, .parameter name, h.spells⟩

theorem reprints_integer {digits : List Char} {value : Int} (h : Numeral digits value) :
    Reprints (.expression (.integer value)) := by
  have hprinted := numeral_toDigits h.value_nonneg h.value_le
  have htext : (Node.integer value).source.toList = Nat.toDigits 10 value.toNat := by
    obtain ⟨n, rfl⟩ := Int.eq_ofNat_of_zero_le h.value_nonneg
    rw [Node.source, show toString (n : Int) = toString n from rfl,
      Nat.toString_eq_ofList_toDigits, String.toList_ofList, Int.toNat_natCast]
  refine ⟨?_, _, .integer hprinted, fun {cs ks} hcs hlexes => ?_⟩
  · rw [Phrase.text, htext]
    intro hhead
    exact absurd (hprinted.isDigit '=' (List.mem_of_mem_head? hhead)) (by decide)
  · rw [Phrase.text, htext]
    exact lexes_numeral hprinted (fun x hx => (hcs x hx).2.1) hlexes

theorem reprints_text {value : String} (h : '\x22' ∉ value.toList) :
    Reprints (.expression (.text value)) := by
  refine ⟨by simp [Phrase.text, Node.source], _, .text value, fun {cs ks} hcs hlexes => ?_⟩
  have htext : (Node.text value).source.toList ++ cs =
      '\x22' :: (value.toList ++ '\x22' :: cs) := by
    simp [Node.source]
  have hquoted := lexes_text h hlexes
  rw [String.ofList_toList] at hquoted
  rw [Phrase.text, htext]
  exact hquoted

theorem reprints_boolean (value : Bool) : Reprints (.expression (.boolean value)) := by
  refine ⟨by cases value <;> decide, _, .boolean value, fun {cs ks} hcs hlexes => ?_⟩
  have htext : (Node.boolean value).source =
      (if value then TokenKind.trueWord else .falseWord).text := by
    cases value <;> rfl
  rw [Phrase.text, htext]
  exact lexes_keyword (by cases value <;> decide) hcs hlexes

theorem reprints_prefixOp {right : Node} {operator : Operator} (known : operator ∈ Operator.leading)
    (hright : Reprints (.expression right)) :
    Reprints (.expression (.prefixOp operator right)) := by
  obtain ⟨hhead, rs, hrs, hspells⟩ := hright
  refine ⟨by simp [Phrase.text, Node.source], _, .grouped (.prefixOp known hrs),
    fun {cs ks} hcs h => ?_⟩
  have htext : (Node.prefixOp operator right).source.toList ++ cs =
      '(' :: (operator.text.toList ++ (right.source.toList ++ ')' :: cs)) := by
    simp [Node.source]
  rw [Phrase.text, htext]
  simp only [List.cons_append, List.append_assoc, List.nil_append]
  refine lexes_mark (by decide) ?_
  refine lexes_operator (List.mem_append_left _ known) (head?_append_ne hhead (by simp)) ?_
  exact hspells.mark (by decide) h

theorem reprints_infixOp {left right : Node} {operator : Operator}
    (known : operator ∈ Operator.between) (hleft : Reprints (.expression left))
    (hright : Reprints (.expression right)) :
    Reprints (.expression (.infixOp left operator right)) := by
  obtain ⟨-, ls, hls, hspellsLeft⟩ := hleft
  obtain ⟨-, rs, hrs, hspellsRight⟩ := hright
  refine ⟨by simp [Phrase.text, Node.source], _, .grouped (.infixOp known hls hrs),
    fun {cs ks} hcs h => ?_⟩
  have htext : (Node.infixOp left operator right).source.toList ++ cs =
      '(' :: (left.source.toList ++ ' ' :: (operator.text.toList ++
        ' ' :: (right.source.toList ++ ')' :: cs))) := by
    simp [Node.source]
  rw [Phrase.text, htext]
  simp only [List.cons_append, List.append_assoc, List.nil_append]
  refine lexes_mark (by decide) ?_
  refine hspellsLeft (boundary_cons (by decide)) (lexes_blank rfl ?_)
  refine lexes_operator (List.mem_append_right _ known) (by simp) (lexes_blank rfl ?_)
  exact hspellsRight.mark (by decide) h

theorem reprints_grouped {inner : Node} (h : Reprints (.expression inner)) :
    Reprints (.expression (.grouped inner)) := by
  have htext : (Phrase.expression (.grouped inner)).text = (Phrase.expression inner).text := by
    simp only [Phrase.text, Node.source]
  have hregrouped : (Phrase.expression (.grouped inner)).regrouped =
      (Phrase.expression inner).regrouped := by
    simp only [Phrase.regrouped, Node.regrouped]
  obtain ⟨hhead, ls, hls, hspells⟩ := h
  exact ⟨htext ▸ hhead, ls, hregrouped ▸ hls, htext ▸ hspells⟩

theorem reprints_conditional {condition consequence : Node}
    (hcondition : Reprints (.expression condition)) (hconsequence : Reprints (.block consequence)) :
    Reprints (.expression (.conditional condition consequence .hole)) := by
  obtain ⟨-, cs, hcs, hspells⟩ := hcondition
  obtain ⟨-, bs, hbs, hspellsBlock⟩ := hconsequence
  refine ⟨by simp [Phrase.text, Node.source], _, .conditional hcs hbs, fun {ds ks} hds h => ?_⟩
  have htext : (Node.conditional condition consequence .hole).source.toList ++ ds =
      TokenKind.ifWord.text.toList ++ ' ' :: '(' :: (condition.source.toList ++
        ')' :: ' ' :: ((inBraces consequence.source).toList ++ ds)) := by
    simp [Node.source, TokenKind.text]
  rw [Phrase.text, htext]
  simp only [List.cons_append, List.append_assoc]
  refine lexes_keyword (by decide) (boundary_cons (by decide)) (lexes_blank rfl ?_)
  refine lexes_mark (by decide) ?_
  refine hspells.mark (by decide) ?_
  exact lexes_blank rfl (hspellsBlock hds h)

theorem reprints_conditionalElse {condition consequence : Node} {ns : List Node}
    (hcondition : Reprints (.expression condition)) (hconsequence : Reprints (.block consequence))
    (halternative : Reprints (.block (.block ns))) :
    Reprints (.expression (.conditional condition consequence (.block ns))) := by
  obtain ⟨-, cs, hcs, hspells⟩ := hcondition
  obtain ⟨-, bs, hbs, hspellsBlock⟩ := hconsequence
  obtain ⟨-, es, hes, hspellsElse⟩ := halternative
  refine ⟨by simp [Phrase.text, Node.source], _, .conditionalElse hcs hbs hes,
    fun {ds ks} hds h => ?_⟩
  have htext : (Node.conditional condition consequence (.block ns)).source.toList ++ ds =
      TokenKind.ifWord.text.toList ++ ' ' :: '(' :: (condition.source.toList ++
        ')' :: ' ' :: ((inBraces consequence.source).toList ++ ' ' ::
          (TokenKind.elseWord.text.toList ++ ' ' ::
            ((inBraces (Node.block ns).source).toList ++ ds)))) := by
    simp [Node.source, TokenKind.text]
  rw [Phrase.text, htext]
  simp only [List.cons_append, List.append_assoc]
  refine lexes_keyword (by decide) (boundary_cons (by decide)) (lexes_blank rfl ?_)
  refine lexes_mark (by decide) ?_
  refine hspells.mark (by decide) ?_
  refine lexes_blank rfl (hspellsBlock (boundary_cons (by decide)) (lexes_blank rfl ?_))
  refine lexes_keyword (by decide) (boundary_cons (by decide)) (lexes_blank rfl ?_)
  exact hspellsElse hds h

theorem reprints_function {parameters : List String} {body : Node}
    (hparameters : Reprints (.list (parameters.map .parameter))) (hbody : Reprints (.block body)) :
    Reprints (.expression (.function parameters body)) := by
  obtain ⟨-, ps, hps, hspells⟩ := hparameters
  obtain ⟨-, bs, hbs, hspellsBody⟩ := hbody
  rw [Phrase.regrouped, Phrase.regroupedAll_map_parameter] at hps
  rw [Phrase.text, Phrase.texts_map_parameter] at hspells
  refine ⟨by simp [Phrase.text, Node.source], _, .function hps hbs, fun {cs ks} hcs h => ?_⟩
  have htext : (Node.function parameters body).source.toList ++ cs =
      TokenKind.fnWord.text.toList ++ '(' :: ((", ".intercalate parameters).toList ++
        ')' :: ' ' :: ((inBraces body.source).toList ++ cs)) := by
    simp [Node.source, TokenKind.text]
  rw [Phrase.text, htext]
  simp only [List.cons_append, List.append_assoc]
  refine lexes_keyword (by decide) (boundary_cons (by decide)) ?_
  refine lexes_mark (by decide) ?_
  refine hspells.mark (by decide) ?_
  exact lexes_blank rfl (hspellsBody hcs h)

theorem reprints_call {callee : Node} {arguments : List Node}
    (hcallee : Reprints (.expression callee))
    (harguments : Reprints (.list (arguments.map .expression))) :
    Reprints (.expression (.call callee arguments)) := by
  obtain ⟨hhead, ls, hls, hspells⟩ := hcallee
  obtain ⟨-, as, has, hspellsArguments⟩ := harguments
  rw [Phrase.regrouped, Phrase.regroupedAll_map_expression] at has
  rw [Phrase.text, Phrase.texts_map_expression] at hspellsArguments
  have htext : ∀ cs, (Node.call callee arguments).source.toList ++ cs =
      callee.source.toList ++ '(' :: ((", ".intercalate (Node.sources arguments)).toList ++
        ')' :: cs) := by
    intro cs
    simp [Node.source]
  refine ⟨?_, _, .call hls has, fun {cs ks} hcs h => ?_⟩
  · rw [Phrase.text, ← List.append_nil (String.toList _), htext]
    exact head?_append_ne hhead (by simp)
  · rw [Phrase.text, htext]
    simp only [List.cons_append, List.append_assoc, List.nil_append]
    refine hspells.mark (by decide) ?_
    exact hspellsArguments.mark (by decide) h

theorem reprints_array {elements : List Node}
    (helements : Reprints (.list (elements.map .expression))) :
    Reprints (.expression (.array elements)) := by
  obtain ⟨-, es, hes, hspells⟩ := helements
  rw [Phrase.regrouped, Phrase.regroupedAll_map_expression] at hes
  rw [Phrase.text, Phrase.texts_map_expression] at hspells
  refine ⟨by simp [Phrase.text, Node.source], _, .array hes, ?_⟩
  exact hspells.enclosed (x := '[') (y := ']') (by decide) (by decide)
    (by simp [Phrase.text, Node.source])

theorem reprints_mapping {entries : List (Node × Node)}
    (hentries : Reprints (.list (entries.map fun e => .entry e.1 e.2))) :
    Reprints (.expression (.mapping entries)) := by
  obtain ⟨-, es, hes, hspells⟩ := hentries
  rw [Phrase.regrouped, Phrase.regroupedAll_map_entry] at hes
  rw [Phrase.text, Phrase.texts_map_entry] at hspells
  refine ⟨by simp [Phrase.text, Node.source], _, .mapping hes, ?_⟩
  exact hspells.enclosed (x := '\x7b') (y := '\x7d') (by decide) (by decide)
    (by simp [Phrase.text, Node.source])

theorem reprints_index {collection position : Node}
    (hcollection : Reprints (.expression collection))
    (hposition : Reprints (.expression position)) :
    Reprints (.expression (.index collection position)) := by
  obtain ⟨-, ls, hls, hspells⟩ := hcollection
  obtain ⟨-, ps, hps, hspellsPosition⟩ := hposition
  refine ⟨by simp [Phrase.text, Node.source], _, .grouped (.index hls hps),
    fun {cs ks} hcs h => ?_⟩
  have htext : (Node.index collection position).source.toList ++ cs =
      '(' :: (collection.source.toList ++ '[' :: (position.source.toList ++ ']' :: ')' :: cs)) := by
    simp [Node.source]
  rw [Phrase.text, htext]
  simp only [List.cons_append, List.append_assoc, List.nil_append]
  refine lexes_mark (by decide) ?_
  refine hspells.mark (by decide) ?_
  refine hspellsPosition.mark (by decide) ?_
  exact lexes_mark (by decide) h

/-! ### Lists -/

theorem reprints_separated {first second whole : Phrase} {x : Char} {kind : TokenKind}
    (hmark : IsMark x kind) (hfirst : Reprints first) (hsecond : Reprints second)
    (htext : whole.text.toList = first.text.toList ++ x :: ' ' :: second.text.toList)
    (hwritten : ∀ {ls rs}, Written first.regrouped ls → Written second.regrouped rs →
      Written whole.regrouped (ls ++ kind.lexeme :: rs)) : Reprints whole := by
  obtain ⟨hhead, ls, hls, hspellsFirst⟩ := hfirst
  obtain ⟨-, rs, hrs, hspellsSecond⟩ := hsecond
  refine ⟨?_, _, hwritten hls hrs, hspellsFirst.separated hmark hspellsSecond htext⟩
  rw [htext]
  exact head?_append_ne hhead (by simpa using hmark.2.1)

theorem reprints_entry {key value : Node} (hkey : Reprints (.expression key))
    (hvalue : Reprints (.expression value)) : Reprints (.entry key value) := by
  have hcolon : IsMark ':' .colon := by decide
  exact reprints_separated hcolon hkey hvalue (by simp [Phrase.text]) .entry

theorem reprints_empty : Reprints (.list []) :=
  ⟨nofun, [], .empty, fun _ h => h⟩

theorem reprints_single {part : Phrase} (h : Reprints part) : Reprints (.list [part]) := by
  have htext : (Phrase.list [part]).text = part.text := by
    simp only [Phrase.text, Phrase.texts, String.intercalate_singleton]
  obtain ⟨hhead, ls, hls, hspells⟩ := h
  exact ⟨htext ▸ hhead, ls, .single hls, htext ▸ hspells⟩

theorem reprints_more {part next : Phrase} {rest : List Phrase} (hpart : Reprints part)
    (hrest : Reprints (.list (next :: rest))) : Reprints (.list (part :: next :: rest)) := by
  have hcomma : IsMark ',' .comma := by decide
  refine reprints_separated hcomma hpart hrest ?_ .more
  simp [Phrase.text, Phrase.texts, String.intercalate_cons_cons]

/-! ### Statements -/

theorem reprints_letBind {name : String} {value : Node} (hname : IsName name)
    (hvalue : Reprints (.expression value)) : Reprints (.statement (.letBind name value)) := by
  obtain ⟨-, vs, hvs, hspells⟩ := hvalue
  refine ⟨by simp [Phrase.text, Node.source], _, .letBind name hvs, fun {cs ks} hcs h => ?_⟩
  have htext : (Node.letBind name value).source.toList ++ cs =
      TokenKind.letWord.text.toList ++ ' ' :: (name.toList ++
        ' ' :: '=' :: ' ' :: (value.source.toList ++ cs)) := by
    simp [Node.source, TokenKind.text]
  rw [Phrase.text, htext]
  simp only [List.cons_append]
  refine lexes_keyword (by decide) (boundary_cons (by decide)) (lexes_blank rfl ?_)
  refine hname.spells (boundary_cons (by decide)) (lexes_blank rfl ?_)
  refine lexes_char rfl (Or.inl (by simp)) (lexes_blank rfl ?_)
  exact hspells hcs h

theorem reprints_returning {value : Node} (hvalue : Reprints (.expression value)) :
    Reprints (.statement (.returning value)) := by
  obtain ⟨-, vs, hvs, hspells⟩ := hvalue
  refine ⟨by simp [Phrase.text, Node.source], _, .returning hvs, fun {cs ks} hcs h => ?_⟩
  have htext : (Node.returning value).source.toList ++ cs =
      TokenKind.returnWord.text.toList ++ ' ' :: (value.source.toList ++ cs) := by
    simp [Node.source, TokenKind.text]
  rw [Phrase.text, htext]
  simp only [List.cons_append]
  refine lexes_keyword (by decide) (boundary_cons (by decide)) (lexes_blank rfl ?_)
  exact hspells hcs h

theorem reprints_expression {inner : Node} (h : Reprints (.expression inner)) :
    Reprints (.statement (.expression inner)) := by
  have htext : (Phrase.statement (.expression inner)).text = (Phrase.expression inner).text := by
    simp only [Phrase.text, Node.source]
  obtain ⟨hhead, ls, hls, hspells⟩ := h
  exact ⟨htext ▸ hhead, ls, .expression hls, htext ▸ hspells⟩

theorem reprints_done : Reprints (.statements []) :=
  ⟨nofun, [], .done, fun _ h => h⟩

theorem reprints_statements {node : Node} {rest : List Node} (hnode : Reprints (.statement node))
    (hrest : Reprints (.statements rest)) : Reprints (.statements (node :: rest)) := by
  cases rest with
  | nil =>
    have htext : (Phrase.statements [node]).text = (Phrase.statement node).text := by
      simp [text_statements_cons]
    obtain ⟨hhead, ls, hls, hspells⟩ := hnode
    have hwritten := Written.unterminated hls .done nofun
    rw [List.append_nil] at hwritten
    exact ⟨htext ▸ hhead, ls, hwritten, htext ▸ hspells⟩
  | cons next rest =>
    have hsemicolon : IsMark ';' .semicolon := by decide
    refine reprints_separated hsemicolon hnode hrest ?_ .terminated
    simp [text_statements_cons node]

theorem reprints_block {ns : List Node} (h : Reprints (.statements ns)) :
    Reprints (.block (.block ns)) := by
  obtain ⟨-, ls, hls, hspells⟩ := h
  refine ⟨?_, _, .block hls, fun {cs ks} hcs h => ?_⟩
  · simp only [Phrase.text, inBraces]
    split <;> simp
  · have hsource : (Phrase.block (.block ns)).text = inBraces (Phrase.statements ns).text := by
      simp only [Phrase.text, Node.source]
    have hbody : Lexes ((Phrase.statements ns).text.toList ++ ' ' :: '\x7d' :: cs)
        (ls ++ TokenKind.rightBrace.lexeme :: ks) := by
      refine hspells (boundary_cons (by decide)) (lexes_blank rfl ?_)
      exact lexes_mark (by decide) h
    rw [hsource, inBraces]
    simp only [List.cons_append, List.append_assoc, List.nil_append]
    split
    · next hempty =>
      rw [hempty] at hbody
      exact lexes_mark (by decide) hbody
    · have htext : ("\x7b " ++ (Phrase.statements ns).text ++ " \x7d").toList ++ cs =
          '\x7b' :: ' ' :: ((Phrase.statements ns).text.toList ++ ' ' :: '\x7d' :: cs) := by
        simp
      rw [htext]
      exact lexes_mark (by decide) (lexes_blank rfl hbody)

/-! ### The round trip -/

theorem Written.reprints {phrase : Phrase} {ls : List Lexeme} (h : Written phrase ls)
    (hlexed : ∀ l ∈ ls, l.Lexed) : Reprints phrase := by
  induction h with
  | identifier name => exact reprints_identifier (hlexed ⟨.ident, name⟩ (by simp))
  | integer number => exact reprints_integer number
  | text value => exact reprints_text (hlexed ⟨.string, value⟩ (by simp))
  | boolean value => exact reprints_boolean value
  | parameter name => exact reprints_parameter (hlexed ⟨.ident, name⟩ (by simp))
  | empty => exact reprints_empty
  | done => exact reprints_done
  | prefixOp known _ ih => exact reprints_prefixOp known (ih (by grind))
  | infixOp known _ _ ihleft ihright =>
    exact reprints_infixOp known (ihleft (by grind)) (ihright (by grind))
  | grouped _ ih => exact reprints_grouped (ih (by grind))
  | conditional _ _ ihcondition ihconsequence =>
    exact reprints_conditional (ihcondition (by grind)) (ihconsequence (by grind))
  | conditionalElse _ _ halternative ihcondition ihconsequence ihalternative =>
    obtain ⟨ns, rfl⟩ := halternative.block_form
    exact reprints_conditionalElse (ihcondition (by grind)) (ihconsequence (by grind))
      (ihalternative (by grind))
  | function _ _ ihparameters ihbody =>
    exact reprints_function (ihparameters (by grind)) (ihbody (by grind))
  | call _ _ ihcallee iharguments =>
    exact reprints_call (ihcallee (by grind)) (iharguments (by grind))
  | array _ ih => exact reprints_array (ih (by grind))
  | index _ _ ihcollection ihposition =>
    exact reprints_index (ihcollection (by grind)) (ihposition (by grind))
  | mapping _ ih => exact reprints_mapping (ih (by grind))
  | entry _ _ ihkey ihvalue => exact reprints_entry (ihkey (by grind)) (ihvalue (by grind))
  | single _ ih => exact reprints_single (ih (by grind))
  | more _ _ ihpart ihrest => exact reprints_more (ihpart (by grind)) (ihrest (by grind))
  | letBind name _ ih => exact reprints_letBind (hlexed ⟨.ident, name⟩ (by simp)) (ih (by grind))
  | returning _ ih => exact reprints_returning (ih (by grind))
  | expression _ ih => exact reprints_expression (ih (by grind))
  | terminated _ _ ihnode ihrest | unterminated _ _ _ ihnode ihrest =>
    exact reprints_statements (ihnode (by grind)) (ihrest (by grind))
  | block _ ih => exact reprints_block (ih (by grind))

theorem Spells.scan {text : String} {ls : List Lexeme} (h : Spells text ls) :
    (Lexer.scan text).oversized = none ∧ (Lexer.scan text).tokens.map Token.lexeme = ls := by
  have hlexes := h (by rintro _ ⟨⟩) lexes_nil
  rw [List.append_nil, List.append_nil] at hlexes
  exact hlexes (.start text.toList) (text.toList.length + 1) rfl (Nat.lt_succ_self _)

/-- The printed form of a program that was read without diagnostics is read without diagnostics. It
gives the program with other parentheses, and is its own printed form. -/
theorem parse_source {source : String} {parsed : Parsed} (h : parse source = .ok parsed)
    (hclean : parsed.diagnostics = []) :
    ∃ again, parse parsed.program.source = .ok again ∧ again.diagnostics = [] ∧
      again.program.erased = parsed.program.erased ∧
      again.program.source = parsed.program.source := by
  obtain ⟨ns, hprogram, ⟨taken, missing, htaken, -, -, hwritten⟩, -⟩ := takes_of_parse h hclean
  have hlexed : ∀ l ∈ taken.map Token.lexeme ++
      List.replicate missing TokenKind.rightBrace.lexeme, l.Lexed := by
    have htokens := (supplies_ofScan source).lexed
    rw [htaken, List.append_nil] at htokens
    refine List.forall_mem_append.mpr ⟨List.forall_mem_map.mpr htokens, fun l hl => ?_⟩
    rw [List.eq_of_mem_replicate hl]
    rfl
  obtain ⟨-, ls, hls, hspells⟩ := hwritten.reprints hlexed
  have hsource : parsed.program.source = (Phrase.statements ns).text := by
    rw [hprogram, Node.source, Phrase.text]
  obtain ⟨hoversized, htokens⟩ := hspells.scan
  rw [← hsource] at hoversized htokens
  rw [← htokens] at hls
  have hgraded := Node.allGraded_regroupedAll ns
  obtain ⟨t, hread, -⟩ := accepts_program hls hgraded _ (holds_ofScan hls (scanWithin_ending _ _))
  refine ⟨_, parse_eq_ok.mpr ⟨hoversized, Parser.parseScan_of_reads hread⟩, rfl, ?_, ?_⟩
  · rw [hprogram]
    exact Node.erased_regrouped (.program ns)
  · rw [hsource, ← hwritten.text_regrouped, Phrase.regrouped, Phrase.text, Node.source]

end Scanned

theorem parse_source_call :
    ∃ parsed, parse "let f = fn(x) \x7b -x * (2 - y[00]) \x7d; (f)(!true)" = .ok parsed ∧
      parsed.diagnostics = [] ∧
      ∃ again, parse parsed.program.source = .ok again ∧ again.diagnostics = [] ∧
        again.program.erased = parsed.program.erased ∧
        again.program.source = parsed.program.source := by
  have h : parse "let f = fn(x) \x7b -x * (2 - y[00]) \x7d; (f)(!true)" = .ok
      { program := .program
          [.letBind "f" (.function ["x"] (.block [.expression
            (.infixOp (.prefixOp .minus (.identifier "x")) .star (.grouped
              (.infixOp (.integer 2) .minus (.index (.identifier "y") (.integer 0)))))])),
          .expression (.call (.grouped (.identifier "f")) [.prefixOp .bang (.boolean true)])]
        diagnostics := [] } := by rfl
  exact ⟨_, h, rfl, parse_source h rfl⟩

end MonkeyLang

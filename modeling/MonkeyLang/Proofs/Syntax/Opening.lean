import MonkeyLang.Proofs.Parser.Reads
import MonkeyLang.Proofs.Syntax.Written

/-!
The tokens of a written phrase, seen from its beginning: which tokens can come first, and what the
grammar does with the operators of the language.
-/
namespace MonkeyLang

open MonkeyLang.Parser

/-! ### Tokens of a written phrase -/

theorem map_lexeme_eq_cons {ts : List Token} {kind : TokenKind} {ls : List Lexeme}
    (h : ts.map Token.lexeme = kind.lexeme :: ls) :
    ∃ t us, ts = t :: us ∧ t.lexeme = kind.lexeme ∧ t.kind = kind ∧ us.map Token.lexeme = ls := by
  obtain ⟨t, us, rfl, ht, hus⟩ := List.map_eq_cons_iff.mp h
  exact ⟨t, us, rfl, ht, congrArg Lexeme.kind ht, hus⟩

theorem map_lexeme_eq_concat {ts : List Token} {kind : TokenKind} {ls : List Lexeme}
    (h : ts.map Token.lexeme = ls ++ [kind.lexeme]) :
    ∃ us t, ts = us ++ [t] ∧ us.map Token.lexeme = ls ∧ t.kind = kind := by
  obtain ⟨us, rest, rfl, hus, hrest⟩ := List.map_eq_append_iff.mp h
  obtain ⟨t, none, rfl, -, ht, hnone⟩ := map_lexeme_eq_cons hrest
  obtain rfl := List.map_eq_nil_iff.mp hnone
  exact ⟨us, t, rfl, hus, ht⟩

def TokenKind.opens : TokenKind → Bool
  | ident | int | string | bang | minus | trueWord | falseWord | leftParen | ifWord | fnWord
  | leftBracket | leftBrace => true
  | _ => false

def TokenKind.begins (kind : TokenKind) : Bool := kind.opens || kind = letWord || kind = returnWord

def StartsWith (among : TokenKind → Bool) (ls : List Lexeme) : Prop :=
  ∃ l rest, ls = l :: rest ∧ among l.kind

theorem StartsWith.append {among : TokenKind → Bool} {ls : List Lexeme} (h : StartsWith among ls)
    (rs : List Lexeme) : StartsWith among (ls ++ rs) := by
  obtain ⟨l, rest, rfl, hl⟩ := h
  exact ⟨l, rest ++ rs, rfl, hl⟩

theorem StartsWith.firstKind_append {among : TokenKind → Bool} {ts : List Token}
    (h : StartsWith among (ts.map Token.lexeme)) (us : List Token) :
    among (firstKind (ts ++ us)) := by
  obtain ⟨l, rest, hls, hl⟩ := h
  obtain ⟨t, ts', rfl, rfl, -⟩ := List.map_eq_cons_iff.mp hls
  exact hl

theorem Operator.opens_of_mem_leading {operator : Operator} (h : operator ∈ leading) :
    operator.kind.opens := by
  simp only [leading, List.mem_cons, List.not_mem_nil, or_false] at h
  rcases h with rfl | rfl <;> rfl

theorem Written.expression_opens {phrase : Phrase} {ls : List Lexeme} (h : Written phrase ls) :
    ∀ n, phrase = .expression n → StartsWith TokenKind.opens ls := by
  induction h with
  | identifier | integer | text => exact fun _ _ => ⟨_, _, rfl, rfl⟩
  | boolean value => exact fun _ _ => ⟨_, _, rfl, by cases value <;> rfl⟩
  | prefixOp known => exact fun _ _ => ⟨_, _, rfl, Operator.opens_of_mem_leading known⟩
  | infixOp _ _ _ ihleft | call _ _ ihleft | index _ _ ihleft =>
    exact fun _ _ => (ihleft _ rfl).append _
  | grouped | conditional | conditionalElse | function | array | mapping =>
    exact fun _ _ => ⟨_, _, rfl, rfl⟩
  | _ => exact fun _ h => nomatch h

theorem Written.statement_begins {n : Node} {ls : List Lexeme} (h : Written (.statement n) ls) :
    StartsWith TokenKind.begins ls := by
  cases h with
  | letBind => exact ⟨_, _, rfl, rfl⟩
  | returning => exact ⟨_, _, rfl, rfl⟩
  | expression hinner =>
    obtain ⟨l, rest, rfl, hl⟩ := hinner.expression_opens _ rfl
    exact ⟨l, rest, rfl, by simp [TokenKind.begins, hl]⟩

theorem Written.statements_begin {ns : List Node} {ls : List Lexeme}
    (h : Written (.statements ns) ls) : ls = [] ∨ StartsWith TokenKind.begins ls := by
  cases h with
  | done => exact Or.inl rfl
  | terminated hnode | unterminated hnode => exact Or.inr (hnode.statement_begins.append _)

theorem Written.list_opens {parts : List Phrase} {ls : List Lexeme}
    (hopens : ∀ phrase ∈ parts, ∀ ls, Written phrase ls → StartsWith TokenKind.opens ls)
    (h : Written (.list parts) ls) (hne : parts ≠ []) : StartsWith TokenKind.opens ls := by
  cases h with
  | empty => exact absurd rfl hne
  | single hpart => exact hopens _ (by simp) _ hpart
  | more hpart => exact (hopens _ (by simp) _ hpart).append _

theorem Written.block_form {n : Node} {ls : List Lexeme} (h : Written (.block n) ls) :
    ∃ ns, n = .block ns := by
  cases h
  exact ⟨_, rfl⟩

/-! ### Operators -/

namespace Operator

variable {operator : Operator}

theorem ofText_literal (known : operator ∈ leading ++ between) {t : Token}
    (ht : t.lexeme = operator.lexeme) : ofText t.literal = operator := by
  have hliteral : t.literal = operator.kind.text := congrArg Lexeme.literal ht
  rw [hliteral]
  cases operator with
  | other text => simp [leading, between] at known
  | _ => rfl

theorem lowest_lt_level (h : operator ∈ between) : Precedence.lowest < operator.level := by
  simp only [between, List.mem_cons, List.not_mem_nil, or_false] at h
  rcases h with rfl | rfl | rfl | rfl | rfl | rfl | rfl | rfl <;> decide

theorem level_lt_unary (h : operator ∈ between) : operator.level < Precedence.unary := by
  simp only [between, List.mem_cons, List.not_mem_nil, or_false] at h
  rcases h with rfl | rfl | rfl | rfl | rfl | rfl | rfl | rfl <;> decide

theorem kind_ne_else (operator : Operator) : operator.kind ≠ .elseWord := by
  cases operator <;> exact nofun

theorem kind_ne_eof (operator : Operator) : operator.kind ≠ .eof := by
  cases operator <;> exact nofun

theorem infixRule?_of_mem_between (h : operator ∈ between) (sub : Sub) :
    infixRule? sub operator.kind = some (infixExpression sub) := by
  simp only [between, List.mem_cons, List.not_mem_nil, or_false] at h
  rcases h with rfl | rfl | rfl | rfl | rfl | rfl | rfl | rfl <;> rfl

theorem prefixRule?_of_mem_leading (h : operator ∈ leading) (sub : Sub) :
    prefixRule? sub operator.kind = some (prefixExpression sub) := by
  simp only [leading, List.mem_cons, List.not_mem_nil, or_false] at h
  rcases h with rfl | rfl <;> rfl

end Operator

theorem Written.before_eof {phrase : Phrase} {ls : List Lexeme} (h : Written phrase ls) :
    ∀ l ∈ ls, l.kind ≠ .eof := by
  have hoperator : ∀ operator : Operator, operator.lexeme.kind ≠ .eof := Operator.kind_ne_eof
  induction h with
  | boolean value => cases value <;> simp [TokenKind.lexeme]
  | _ => grind [TokenKind.lexeme]

theorem Written.lowest_lt {n : Node} {ls : List Lexeme} (h : Written (.expression n) ls) :
    ∀ q ∈ n.level?, Precedence.lowest < q := by
  cases h with
  | infixOp known =>
    intro q hq
    obtain rfl := Option.some.inj hq
    exact Operator.lowest_lt_level known
  | _ => intro q hq; cases hq

end MonkeyLang

import MonkeyLang.Parser.Grammar

/-!
How trees are written down. A tree does not say where its statements end in a semicolon, nor with
how many zeros its numbers begin, so a tree and its tokens are related and not computed from each
other. Parentheses are written for grouped expressions only. Which trees can be told apart by their
tokens is a matter of binding strength: `Graded` trees have no operand that binds too loosely for
its place.
-/
namespace MonkeyLang

structure Lexeme where
  kind : TokenKind
  literal : String
deriving DecidableEq

def Token.lexeme (t : Token) : Lexeme := ⟨t.kind, t.literal⟩

theorem Token.lexeme_of_kind {t : Token} {kind : TokenKind} (h : t.kind = kind) :
    t.lexeme = ⟨kind, t.literal⟩ :=
  congrArg (Lexeme.mk · t.literal) h

def TokenKind.text : TokenKind → String
  | fnWord => "fn"
  | letWord => "let"
  | trueWord => "true"
  | falseWord => "false"
  | ifWord => "if"
  | elseWord => "else"
  | returnWord => "return"
  | kind => kind.name

def TokenKind.lexeme (kind : TokenKind) : Lexeme := ⟨kind, kind.text⟩

/-! ### Operators and numbers -/

namespace Operator

def kind : Operator → TokenKind
  | plus => .plus
  | minus => .minus
  | star => .star
  | slash => .slash
  | less => .less
  | greater => .greater
  | equal => .equal
  | notEqual => .notEqual
  | bang => .bang
  | other text => .other text

def lexeme (operator : Operator) : Lexeme := operator.kind.lexeme

def level (operator : Operator) : Nat := operator.kind.precedence

def leading : List Operator := [bang, minus]

def between : List Operator := [plus, minus, star, slash, less, greater, equal, notEqual]

end Operator

/-- Digits that can be read, and the number they stand for. Zeros in front are allowed. -/
structure Numeral (digits : List Char) (value : Int) : Prop where
  nonempty : digits ≠ []
  isDigit : ∀ c ∈ digits, c.isDigit
  length_le : digits.length ≤ Text.maxDigits
  value_eq : (Lexer.digitsValue digits : Int) = value
  value_le : value ≤ Lexer.maxInteger

/-! ### The written form -/

inductive Phrase where
  | expression (node : Node)
  | entry (key value : Node)
  | parameter (name : String)
  | list (parts : List Phrase)
  | statement (node : Node)
  | statements (nodes : List Node)
  | block (node : Node)

def TokenKind.goesOn : TokenKind → Bool
  | minus | leftParen | leftBracket => true
  | _ => false

open TokenKind in
/-- The lexemes that write a phrase down. A semicolon after a statement can be left out where the
next token does not go on with it. -/
inductive Written : Phrase → List Lexeme → Prop
  | identifier (name : String) : Written (.expression (.identifier name)) [⟨ident, name⟩]
  | integer {digits : List Char} {value : Int} (number : Numeral digits value) :
      Written (.expression (.integer value)) [⟨int, String.ofList digits⟩]
  | text (value : String) : Written (.expression (.text value)) [⟨string, value⟩]
  | boolean (value : Bool) :
      Written (.expression (.boolean value)) [(if value then trueWord else falseWord).lexeme]
  | prefixOp {operator : Operator} {right : Node} {rs : List Lexeme}
      (known : operator ∈ Operator.leading) (hright : Written (.expression right) rs) :
      Written (.expression (.prefixOp operator right)) (operator.lexeme :: rs)
  | infixOp {left right : Node} {operator : Operator} {ls rs : List Lexeme}
      (known : operator ∈ Operator.between) (hleft : Written (.expression left) ls)
      (hright : Written (.expression right) rs) :
      Written (.expression (.infixOp left operator right)) (ls ++ operator.lexeme :: rs)
  | grouped {inner : Node} {ts : List Lexeme} (hinner : Written (.expression inner) ts) :
      Written (.expression (.grouped inner)) (leftParen.lexeme :: (ts ++ [rightParen.lexeme]))
  | conditional {condition consequence : Node} {cs ts : List Lexeme}
      (hcondition : Written (.expression condition) cs)
      (hconsequence : Written (.block consequence) ts) :
      Written (.expression (.conditional condition consequence .hole))
        (ifWord.lexeme :: leftParen.lexeme :: (cs ++ rightParen.lexeme :: ts))
  | conditionalElse {condition consequence alternative : Node} {cs ts es : List Lexeme}
      (hcondition : Written (.expression condition) cs)
      (hconsequence : Written (.block consequence) ts)
      (halternative : Written (.block alternative) es) :
      Written (.expression (.conditional condition consequence alternative))
        (ifWord.lexeme :: leftParen.lexeme ::
          (cs ++ rightParen.lexeme :: (ts ++ elseWord.lexeme :: es)))
  | function {parameters : List String} {body : Node} {ps bs : List Lexeme}
      (hparameters : Written (.list (parameters.map .parameter)) ps)
      (hbody : Written (.block body) bs) :
      Written (.expression (.function parameters body))
        (fnWord.lexeme :: leftParen.lexeme :: (ps ++ rightParen.lexeme :: bs))
  | call {callee : Node} {arguments : List Node} {cs as : List Lexeme}
      (hcallee : Written (.expression callee) cs)
      (harguments : Written (.list (arguments.map .expression)) as) :
      Written (.expression (.call callee arguments))
        (cs ++ leftParen.lexeme :: (as ++ [rightParen.lexeme]))
  | array {elements : List Node} {es : List Lexeme}
      (helements : Written (.list (elements.map .expression)) es) :
      Written (.expression (.array elements)) (leftBracket.lexeme :: (es ++ [rightBracket.lexeme]))
  | index {collection position : Node} {cs ps : List Lexeme}
      (hcollection : Written (.expression collection) cs)
      (hposition : Written (.expression position) ps) :
      Written (.expression (.index collection position))
        (cs ++ leftBracket.lexeme :: (ps ++ [rightBracket.lexeme]))
  | mapping {entries : List (Node × Node)} {es : List Lexeme}
      (hentries : Written (.list (entries.map fun e => .entry e.1 e.2)) es) :
      Written (.expression (.mapping entries)) (leftBrace.lexeme :: (es ++ [rightBrace.lexeme]))
  | entry {key value : Node} {ks vs : List Lexeme} (hkey : Written (.expression key) ks)
      (hvalue : Written (.expression value) vs) :
      Written (.entry key value) (ks ++ colon.lexeme :: vs)
  | parameter (name : String) : Written (.parameter name) [⟨ident, name⟩]
  | empty : Written (.list []) []
  | single {part : Phrase} {ts : List Lexeme} (hpart : Written part ts) : Written (.list [part]) ts
  | more {part next : Phrase} {rest : List Phrase} {ts us : List Lexeme}
      (hpart : Written part ts) (hrest : Written (.list (next :: rest)) us) :
      Written (.list (part :: next :: rest)) (ts ++ comma.lexeme :: us)
  | letBind (name : String) {value : Node} {vs : List Lexeme}
      (hvalue : Written (.expression value) vs) :
      Written (.statement (.letBind name value))
        (letWord.lexeme :: ⟨ident, name⟩ :: assign.lexeme :: vs)
  | returning {value : Node} {vs : List Lexeme} (hvalue : Written (.expression value) vs) :
      Written (.statement (.returning value)) (returnWord.lexeme :: vs)
  | expression {inner : Node} {ts : List Lexeme} (hinner : Written (.expression inner) ts) :
      Written (.statement (.expression inner)) ts
  | done : Written (.statements []) []
  | terminated {node : Node} {rest : List Node} {ts us : List Lexeme}
      (hnode : Written (.statement node) ts) (hrest : Written (.statements rest) us) :
      Written (.statements (node :: rest)) (ts ++ semicolon.lexeme :: us)
  | unterminated {node : Node} {rest : List Node} {ts us : List Lexeme}
      (hnode : Written (.statement node) ts) (hrest : Written (.statements rest) us)
      (apart : ∀ t ∈ us.head?, t.kind.goesOn = false) :
      Written (.statements (node :: rest)) (ts ++ us)
  | block {statements : List Node} {ts : List Lexeme}
      (hstatements : Written (.statements statements) ts) :
      Written (.block (.block statements)) (leftBrace.lexeme :: (ts ++ [rightBrace.lexeme]))

/-! ### Binding strength -/

namespace Node

def level? : Node → Option Nat
  | infixOp _ operator _ => some operator.level
  | _ => none

def isPrefixed : Node → Bool
  | prefixOp _ _ => true
  | _ => false

mutual

/-- No operand binds more loosely than its place allows; operators of one level associate to the
left. -/
def Graded : Node → Prop
  | program statements => AllGraded statements
  | block statements => AllGraded statements
  | letBind _ value => value.Graded
  | returning value => value.Graded
  | expression inner => inner.Graded
  | prefixOp _ right => right.level? = none ∧ right.Graded
  | infixOp left operator right =>
    (∀ q ∈ left.level?, operator.level ≤ q) ∧ (∀ q ∈ right.level?, operator.level < q) ∧
      left.Graded ∧ right.Graded
  | grouped inner => inner.Graded
  | conditional condition consequence alternative =>
    condition.Graded ∧ consequence.Graded ∧ alternative.Graded
  | function _ body => body.Graded
  | call callee arguments =>
    callee.level? = none ∧ callee.isPrefixed = false ∧ callee.Graded ∧ AllGraded arguments
  | array elements => AllGraded elements
  | index collection position =>
    collection.level? = none ∧ collection.isPrefixed = false ∧ collection.Graded ∧ position.Graded
  | mapping entries => EntriesGraded entries
  | _ => True

def AllGraded : List Node → Prop
  | [] => True
  | node :: rest => node.Graded ∧ AllGraded rest

def EntriesGraded : List (Node × Node) → Prop
  | [] => True
  | (key, value) :: rest => key.Graded ∧ value.Graded ∧ EntriesGraded rest

end

theorem allGraded_iff {nodes : List Node} : AllGraded nodes ↔ ∀ n ∈ nodes, n.Graded := by
  induction nodes with
  | nil => simp [AllGraded]
  | cons n rest ih => simp [AllGraded, ih]

theorem entriesGraded_iff {entries : List (Node × Node)} :
    EntriesGraded entries ↔ ∀ e ∈ entries, e.1.Graded ∧ e.2.Graded := by
  induction entries with
  | nil => simp [EntriesGraded]
  | cons e rest ih => simp [EntriesGraded, ih, and_assoc]

end Node

end MonkeyLang

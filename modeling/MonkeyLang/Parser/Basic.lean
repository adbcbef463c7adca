import MonkeyLang.Parser.Diagnostic
import MonkeyLang.Parser.Stream

/-!
Parsers over a token stream. A parser takes tokens from the front of the stream, reports faults, and
gives a value or none; sequencing stops at the first parser that gives none and keeps all reports.
-/
namespace MonkeyLang

structure Outcome (α : Type) where
  value : Option α
  rest : Stream
  reports : List Diagnostic := []

def Parser (α : Type) : Type := Stream → Outcome α

namespace Parser

variable {α β σ : Type}

def succeed (a : α) : Parser α := fun s => { value := some a, rest := s }

def andThen (p : Parser α) (k : α → Parser β) : Parser β := fun s =>
  let first := p s
  match first.value with
  | none => { value := none, rest := first.rest, reports := first.reports }
  | some a =>
    let second := k a first.rest
    { second with reports := first.reports ++ second.reports }

instance : Monad Parser where
  pure := succeed
  bind := andThen

def next : Parser Token := fun s => { value := some s.next, rest := s }

def take : Parser Token := fun s => { value := some s.next, rest := s.advance }

def refuse (fault : Fault) : Parser α := fun s =>
  { value := none, rest := s.advance, reports := [{ fault, token := s.next }] }

/-- Takes a token of the given kind. A token of another kind is reported and left where it is. -/
def expect (kind : TokenKind) : Parser Token := fun s =>
  if s.next.kind = kind then { value := some s.next, rest := s.advance }
  else { value := none, rest := s, reports := [{ fault := .unexpected kind, token := s.next }] }

def skipOptional (kind : TokenKind) : Parser Unit := fun s =>
  { value := some (), rest := if s.next.kind = kind then s.advance else s }

def attempt (p : Parser α) : Parser (Option α) := fun s =>
  let o := p s
  { o with value := some o.value }

def loopWithin : Nat → (σ → Parser (σ ⊕ α)) → σ → Parser α
  | 0, _, _ => refuse .noRule
  | n + 1, step, state => do
    match ← step state with
    | .inl state => loopWithin n step state
    | .inr result => return result

/-- Repeats a step until it gives a result. A step that asks to be repeated has taken a token, so
the length of the stream bounds the repetitions. -/
def loop (step : σ → Parser (σ ⊕ α)) (state : σ) : Parser α := fun s =>
  loopWithin (s.pending.length + 1) step state s

end Parser

end MonkeyLang

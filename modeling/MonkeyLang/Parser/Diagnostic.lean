import MonkeyLang.Token

/-!
Diagnostics: a fault and the token it was found at. A token that the scanner could not make sense of
is reported as such, whatever the parser wanted of it.
-/
namespace MonkeyLang

inductive Fault where
  | noRule
  | unexpected (wanted : TokenKind)
  | notInteger
deriving DecidableEq

structure Diagnostic where
  fault : Fault
  token : Token
deriving DecidableEq

namespace Diagnostic

def illegalCharacter (t : Token) : String :=
  "illegal character " ++ Text.quoted t.literal

def cause (d : Diagnostic) : String :=
  match d.fault with
  | .noRule =>
    if d.token.kind = .illegal then illegalCharacter d.token
    else "no parse rule for token " ++ d.token.describe
  | .unexpected wanted =>
    if d.token.kind = .illegal then illegalCharacter d.token
    else "expected next token to be " ++ wanted.name ++ ", got " ++ d.token.describe ++ " instead"
  | .notInteger => "could not parse " ++ Text.quoted d.token.literal ++ " as integer"

def message (d : Diagnostic) : String :=
  "Line " ++ toString d.token.line ++ ":" ++ toString d.token.column ++ " - " ++ d.cause

end Diagnostic

end MonkeyLang

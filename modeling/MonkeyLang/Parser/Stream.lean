import MonkeyLang.Lexer.Scan

/-!
The tokens that a parser has still to take. Beyond the last of them the end of input is read
without end.
-/
namespace MonkeyLang

structure Stream where
  pending : List Token
  ending : Token
deriving DecidableEq

namespace Stream

def next (s : Stream) : Token := s.pending.headD s.ending

def advance (s : Stream) : Stream := { s with pending := s.pending.tail }

def ofScan (found : Lexer.Scan) : Stream :=
  { pending := found.tokens ++ [found.ending], ending := found.ending }

end Stream

end MonkeyLang

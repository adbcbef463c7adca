/-!
Operators. The language has nine; a tree built by hand may hold any other text in an operator's
place.
-/
namespace MonkeyLang

inductive Operator where
  | plus
  | minus
  | star
  | slash
  | less
  | greater
  | equal
  | notEqual
  | bang
  | other (text : String)
deriving DecidableEq

namespace Operator

def text : Operator → String
  | plus => "+"
  | minus => "-"
  | star => "*"
  | slash => "/"
  | less => "<"
  | greater => ">"
  | equal => "=="
  | notEqual => "!="
  | bang => "!"
  | other text => text

def ofText (text : String) : Operator :=
  if text = "+" then plus
  else if text = "-" then minus
  else if text = "*" then star
  else if text = "/" then slash
  else if text = "<" then less
  else if text = ">" then greater
  else if text = "==" then equal
  else if text = "!=" then notEqual
  else if text = "!" then bang
  else other text

end Operator

end MonkeyLang

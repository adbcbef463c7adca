/-!
Hexadecimal numerals of a fixed least width, in lower case.
-/
namespace MonkeyLang.Text

def hex (width n : Nat) : List Char :=
  let digits := Nat.toDigits 16 n
  List.replicate (width - digits.length) '0' ++ digits

end MonkeyLang.Text

/-!
Blanks: the characters that are trimmed from both ends of a setting or a number.
-/
namespace MonkeyLang.Text

/-- Blanks by the bidirectional classes WS, B and S of Unicode, or the category Zs. -/
def isBlank (c : Char) : Bool :=
  let code := c.toNat
  (0x09 ≤ code && code ≤ 0x0d) || (0x1c ≤ code && code ≤ 0x20) || code == 0x85 || code == 0xa0 ||
  code == 0x1680 || (0x2000 ≤ code && code ≤ 0x200a) || code == 0x2028 || code == 0x2029 ||
  code == 0x202f || code == 0x205f || code == 0x3000

/-- The four information separators are blanks of a line but not of a number. -/
def isSeparatorMark (c : Char) : Bool :=
  0x1c ≤ c.toNat && c.toNat ≤ 0x1f

def trimEnds (drop : Char → Bool) (cs : List Char) : List Char :=
  ((cs.dropWhile drop).reverse.dropWhile drop).reverse

def trim (text : String) : String :=
  String.ofList (trimEnds isBlank text.toList)

end MonkeyLang.Text

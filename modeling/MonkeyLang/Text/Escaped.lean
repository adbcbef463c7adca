import MonkeyLang.Text.Hex
import MonkeyLang.Text.Quoted

/-!
Escaped text, as dumps show it: between double quotes, with the double quote, the backslash and the
characters below U+0020 escaped and all else left as it is.
-/
namespace MonkeyLang.Text

def escapedChar (c : Char) : List Char :=
  if c = doubleQuote ∨ c = backslash then [backslash, c]
  else if c = '\n' then [backslash, 'n']
  else if c = '\r' then [backslash, 'r']
  else if c = '\t' then [backslash, 't']
  else if c.toNat = 0x08 then [backslash, 'b']
  else if c.toNat = 0x0c then [backslash, 'f']
  else if c.toNat < 0x20 then backslash :: 'u' :: hex 4 c.toNat
  else [c]

def escaped (text : String) : String :=
  String.ofList (doubleQuote :: text.toList.flatMap escapedChar ++ [doubleQuote])

end MonkeyLang.Text

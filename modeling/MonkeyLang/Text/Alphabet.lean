/-!
Alphabets. Which characters above U+007F are letters is a choice of the alphabet; below they are `A`
to `Z` and `a` to `z` in all of them.
-/
namespace MonkeyLang.Text

class Alphabet where
  isLetter : Char → Bool
  isLetter_of_lt : ∀ {c : Char}, c.toNat < 0x80 → isLetter c = c.isAlpha

export Alphabet (isLetter isLetter_of_lt)

end MonkeyLang.Text

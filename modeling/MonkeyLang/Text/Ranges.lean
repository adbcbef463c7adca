/-!
Closed ranges of code points, as the tables of a character property list them.
-/
namespace MonkeyLang.Text

def inRanges (ranges : List (Nat × Nat)) (code : Nat) : Bool :=
  ranges.any fun range => range.1 ≤ code && code ≤ range.2

end MonkeyLang.Text

/-!
Lines of text in fields of a fixed width, one cell per character.
-/
namespace MonkeyLang.Layout

def run (n : Nat) (c : Char) : String := String.ofList (List.replicate n c)

def padRight (width : Nat) (text : String) : String := text ++ run (width - text.length) ' '

/-- Text in the middle of a field; if the space cannot be halved, the right side has more of it. -/
def centred (width : Nat) (fill : Char) (text : String) : String :=
  let excess := width - text.length
  run (excess / 2) fill ++ text ++ run (excess - excess / 2) fill

def lines (text : String) : List String := (text.splitOn "\n")

def widest (texts : List String) : Nat := (texts.map String.length).foldl max 0

end MonkeyLang.Layout

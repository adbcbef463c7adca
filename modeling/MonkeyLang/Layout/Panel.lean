import MonkeyLang.Layout.Line

/-!
A panel: lines of text in a frame with round corners and a title in its upper edge.
-/
namespace MonkeyLang.Layout

def panel (title content : String) : String :=
  let body := lines content
  let width := max (widest body) (title.length + 2)
  let top := "╭─" ++ centred width '─' (" " ++ title ++ " ") ++ "─╮\n"
  let middle := body.map fun line => "│ " ++ padRight width line ++ " │\n"
  let bottom := "╰" ++ run (width + 2) '─' ++ "╯\n"
  top ++ String.join middle ++ bottom

end MonkeyLang.Layout

import MonkeyLang.Layout.Line

/-!
A table: a title, a row of headers in heavy lines and rows of cells in light lines. A column is as
wide as its widest cell; a cell of several lines makes its row as high as it is.
-/
namespace MonkeyLang.Layout

def ruled (left sep right : String) (pieces : List String) : String :=
  left ++ sep.intercalate pieces ++ right ++ "\n"

def cellLine (edge : String) (widths : List Nat) (cells : List String) : String :=
  ruled edge edge edge (widths.zipWith (fun width cell => " " ++ padRight width cell ++ " ") cells)

/-- The lines of a row. A cell with fewer lines than its row is blank below them. -/
def rowLines (edge : String) (widths : List Nat) (cells : List String) : List String :=
  let cellLines := cells.map lines
  let height := (cellLines.map List.length).foldl max 0
  (List.range height).map fun i =>
    cellLine edge widths (cellLines.map fun column => column[i]?.getD "")

def columnWidth (rows : List (List String)) (i : Nat) : Nat :=
  widest (rows.flatMap fun row => lines (row[i]?.getD ""))

def table (title : String) (headers : List String) (rows : List (List String)) : String :=
  let widths := (List.range headers.length).map (columnWidth (headers :: rows))
  let edges (c : Char) := widths.map fun width => run (width + 2) c
  let total := widths.foldl (· + ·) 0 + 3 * widths.length + 1
  centred total ' ' title ++ "\n" ++
    ruled "┏" "┳" "┓" (edges '━') ++
    cellLine "┃" widths headers ++
    ruled "┡" "╇" "┩" (edges '━') ++
    String.join (rows.flatMap (rowLines "│" widths)) ++
    ruled "└" "┴" "┘" (edges '─')

end MonkeyLang.Layout

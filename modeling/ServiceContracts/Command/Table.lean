import ServiceContracts.Text.Width

/-!
# Tables

A table in a frame: every column is as wide as its widest cell, with a blank on either side. The header is set off
by a double line, rows by dashed ones. A cell of several lines makes its row as high.
-/

namespace ServiceContracts.Command

/-- A header and rows of cells. -/
structure Table where
  header : List String
  rows : List (List String)

namespace Table

/-- The characters of one horizontal line: its start, the stroke, the crossings and its end. -/
structure Line where
  left : String
  stroke : Char
  crossing : String
  right : String

/-- The lines of a cell. -/
def cellLines (cell : String) : List String := cell.splitToList (· = '\n')

/-- The width of a cell. -/
def cellWidth (cell : String) : Nat := ((cellLines cell).map Text.width).foldl max 0

/-- The widths of the columns, from those of the cells of each row. -/
def columnWidths (t : Table) : List Nat :=
  t.rows.foldl (fun widths row => List.zipWith max widths (row.map cellWidth)) (t.header.map cellWidth)

/-- A horizontal line over columns of these widths. -/
def Line.draw (line : Line) (widths : List Nat) : String :=
  let strokes := widths.map fun w => String.ofList (List.replicate (w + 2) line.stroke)
  line.left ++ line.crossing.intercalate strokes ++ line.right

/-- A text filled up to a width. -/
def pad (width : Nat) (s : String) : String :=
  s ++ String.ofList (List.replicate (width - Text.width s) ' ')

/-- The lines of a row. -/
def rowLines (widths : List Nat) (row : List String) : List String :=
  let cells := row.map cellLines
  let height := (cells.map List.length).foldl max 1
  (List.range height).map fun i =>
    "│ " ++ " ┆ ".intercalate (List.zipWith (fun w lines => pad w (lines.getD i "")) widths cells) ++ " │"

/-- The lines of rows, with a line between any two. -/
def bodyLines (widths : List Nat) : List (List String) → List String
  | [] => []
  | [row] => rowLines widths row
  | row :: rest =>
    rowLines widths row ++ [Line.draw ⟨"├", '╌', "┼", "┤"⟩ widths] ++ bodyLines widths rest

/-- The table as text. -/
def draw (t : Table) : String :=
  let widths := t.columnWidths
  "\n".intercalate ([Line.draw ⟨"┌", '─', "┬", "┐"⟩ widths] ++ rowLines widths t.header ++
    [Line.draw ⟨"╞", '═', "╪", "╡"⟩ widths] ++ bodyLines widths t.rows ++
    [Line.draw ⟨"└", '─', "┴", "┘"⟩ widths])

end Table

end ServiceContracts.Command

/-!
# Grids

A table of text in a frame, under a centred title. Each column is as wide as its longest cell, with
a space on either side. Lines are not folded, however wide they get.
-/

namespace Arith.Command

structure Column where
  header : String
  alignRight : Bool

namespace Grid

def fill (n : Nat) (c : Char) : String := String.ofList (List.replicate n c)

def widths (columns : List Column) (rows : List (List String)) : List Nat :=
  columns.zipIdx.map fun (column, i) =>
    (rows.map fun row => (row.getD i "").length).foldl max column.header.length

/-- A cell, filled up with spaces to the width of its column. -/
def cell (alignRight : Bool) (width : Nat) (text : String) : String :=
  let space := fill (width - text.length) ' '
  if alignRight then " " ++ space ++ text ++ " " else " " ++ text ++ space ++ " "

/-- A line of cells between bars. -/
def line (bar : String) (columns : List Column) (widths : List Nat) (row : List String) : String :=
  let cells := (columns.zip (widths.zip row)).map fun (column, width, text) =>
    cell column.alignRight width text
  bar ++ String.intercalate bar cells ++ bar

/-- A line of the frame. -/
def rule (left middle right : String) (stroke : Char) (widths : List Nat) : String :=
  left ++ String.intercalate middle (widths.map fun width => fill (width + 2) stroke) ++ right

/-- A title in the middle of a line; of an odd space the larger half is on the right. -/
def centred (width : Nat) (title : String) : String :=
  let space := width - title.length
  fill (space / 2) ' ' ++ title ++ fill (space - space / 2) ' '

/-- The lines of a grid. -/
def lines (title : String) (columns : List Column) (rows : List (List String)) : List String :=
  let widths := widths columns rows
  let total := widths.foldl (fun total width => total + width + 3) 1
  [centred total title,
    rule "┏" "┳" "┓" '━' widths,
    line "┃" columns widths (columns.map Column.header),
    rule "┡" "╇" "┩" '━' widths] ++
    rows.map (line "│" columns widths) ++
    [rule "└" "┴" "┘" '─' widths]

end Grid
end Arith.Command

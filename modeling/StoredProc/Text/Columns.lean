/-!
# Columns

Cells end with a tab; the last cell of a line belongs to no column. Lines that
stand together and have a cell in a column share its width: the longest cell
and two blanks.
-/

namespace StoredProc.Text

/-- Blanks between two columns. -/
def columnPadding : Nat := 2

/-- The number of cells of a line that are in columns. -/
def columnCount (cells : List String) : Nat := cells.length - 1

/-- The length of a cell, if the line has one in the column. -/
def cellLength? (column : Nat) (cells : List String) : Option Nat :=
  if column < columnCount cells then cells[column]?.map String.length else none

/-- The width of a column at a line: the lines before it, nearest first, and the
lines from it on are searched for the run of lines that have the column. -/
def columnWidth (column : Nat) (before after : List (List String)) : Nat :=
  let run (lines : List (List String)) : List Nat :=
    (lines.map (cellLength? column)).takeWhile Option.isSome |>.filterMap id
  (run before ++ run after).foldl (fun width length => max width (length + columnPadding)) 0

/-- A cell with blanks up to a width. -/
def padCell (width : Nat) (cell : String) : String :=
  cell ++ String.ofList (List.replicate (width - cell.length) ' ')

/-- Lay out the lines that follow others. -/
def alignFrom (before : List (List String)) : List (List String) → List String
  | [] => []
  | cells :: rest =>
    let laidOut := cells.zipIdx.map fun (cell, column) =>
      if column < columnCount cells then
        padCell (columnWidth column before (cells :: rest)) cell
      else cell
    String.join laidOut :: alignFrom (cells :: before) rest

/-- Lay out a text of lines of cells. -/
def align (text : String) : String :=
  "\n".intercalate (alignFrom [] ((text.splitOn "\n").map (·.splitOn "\t")))

end StoredProc.Text

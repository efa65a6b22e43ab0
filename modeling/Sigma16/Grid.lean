import Sigma16.Text.Lines
import Sigma16.Text.Width

namespace Sigma16

inductive Alignment where
  | left
  | right
  deriving DecidableEq, Repr

/-- A titled column of a grid. -/
structure Column where
  title : String
  /-- The side on which the title and all cells stand. -/
  alignment : Alignment

/-- A table of texts under titles. A cell may have several lines. -/
structure Grid where
  columns : List Column
  /-- The cells of each row from left to right. -/
  rows : List (List String)
  /-- Every row has a cell in each column. -/
  aligned : ∀ row ∈ rows, row.length = columns.length

namespace Grid

/-- Fills a line of a cell up with blanks to the width of its column. -/
def pad (alignment : Alignment) (width : Nat) (line : String) : String :=
  let blanks := String.ofList (List.replicate (width - Text.width line) ' ')
  match alignment with
  | .left => line ++ blanks
  | .right => blanks ++ line

def cellWidth (cell : String) : Nat :=
  ((Text.lines cell).map Text.width).foldr max 0

/-- The number of lines of a row: that of its highest cell, and at least one. -/
def height (row : List String) : Nat :=
  (row.map fun cell => (Text.lines cell).length).foldr max 1

/-- The titles of a grid, which make up its first row. -/
def titles (grid : Grid) : List String :=
  grid.columns.map (·.title)

/-- The width of each column: that of its widest cell, the title included. -/
def widths (grid : Grid) : List Nat :=
  grid.columns.mapIdx fun position column =>
    (cellWidth column.title :: grid.rows.map fun row => cellWidth (row.getD position "")).foldr max 0

/-- Puts the parts of a line side by side, with a joint between every two and
    a blank at both ends. -/
def frame (joint : String) (parts : List String) : String :=
  " " ++ joint.intercalate parts ++ " "

/-- One line of a row. Cells with fewer lines are blank there. -/
def rowLine (grid : Grid) (row : List String) (line : Nat) : String :=
  frame "│" <|
    (grid.columns.zip (grid.widths.zip row)).map fun (column, width, cell) =>
      " " ++ pad column.alignment width ((Text.lines cell).getD line "") ++ " "

def rowLines (grid : Grid) (row : List String) : List String :=
  (List.range (height row)).map (grid.rowLine row)

def rule (grid : Grid) (joint : String) : String :=
  frame joint (grid.widths.map fun width => String.ofList (List.replicate (width + 2) '─'))

/-- The lines of a grid: the titles, a rule, the rows and another rule. -/
def lines (grid : Grid) : List String :=
  grid.rowLines grid.titles ++ [grid.rule "┼"] ++ grid.rows.flatMap grid.rowLines
    ++ [grid.rule "┴"]

/-- The text of a grid, in which a line feed ends every line. -/
def render (grid : Grid) : String :=
  String.join (grid.lines.map (· ++ "\n"))

end Grid

end Sigma16

import Sigma16.Grid
import Sigma16.Proofs.Text.Width
import Mathlib.Data.List.MinMax
import Mathlib.Order.Bounds.Defs

namespace Sigma16.Grid

section Line

variable {alignment : Alignment} {width : Nat} {line joint : String} {parts : List String}
  {char : Char}

theorem notMem_pad (hblank : char ≠ ' ') (hline : char ∉ line.toList) :
    char ∉ (pad alignment width line).toList := by
  have hblanks := Text.notMem_replicate hblank (width - Text.width line)
  cases alignment <;> simp only [pad, String.toList_append, List.mem_append, not_or]
  · exact ⟨hline, hblanks⟩
  · exact ⟨hblanks, hline⟩

/-- A line is filled up to a width unless it is wider itself. -/
theorem width_pad (hline : Text.escape ∉ line.toList) :
    Text.width (pad alignment width line) = max (Text.width line) width := by
  let blanks := String.ofList (List.replicate (width - Text.width line) ' ')
  have hwidth : Text.width blanks = width - Text.width line :=
    Text.width_replicate (by decide) (by decide) _
  have hblanks : Text.escape ∉ blanks.toList := Text.notMem_replicate (by decide) _
  cases alignment with
  | left =>
    have hsum : Text.width (line ++ blanks) = _ := Text.width_append hline hblanks
    rw [pad, hsum, hwidth]
    omega
  | right =>
    have hsum : Text.width (blanks ++ line) = _ := Text.width_append hblanks hline
    rw [pad, hsum, hwidth]
    omega

theorem notMem_surround (hblank : char ≠ ' ') (hline : char ∉ line.toList) :
    char ∉ (" " ++ line ++ " ").toList := by
  simp [hblank, hline]

theorem width_surround (hline : Text.escape ∉ line.toList) :
    Text.width (" " ++ line ++ " ") = Text.width line + 2 := by
  have hblank : Text.escape ∉ " ".toList := by decide
  have hfront : Text.escape ∉ (" " ++ line).toList := by
    rw [String.toList_append, List.mem_append, not_or]
    exact ⟨hblank, hline⟩
  rw [Text.width_append hfront hblank, Text.width_append hblank hline]
  have hone : Text.width " " = 1 := by decide
  omega

theorem notMem_frame (hblank : char ≠ ' ') (hjoint : char ∉ joint.toList)
    (hparts : ∀ part ∈ parts, char ∉ part.toList) : char ∉ (frame joint parts).toList :=
  notMem_surround hblank (Text.notMem_intercalate hjoint hparts)

theorem width_frame (hjoint : Text.escape ∉ joint.toList)
    (hparts : ∀ part ∈ parts, Text.escape ∉ part.toList) :
    Text.width (frame joint parts)
      = (parts.map Text.width).sum + (parts.length - 1) * Text.width joint + 2 := by
  rw [frame, width_surround (Text.notMem_intercalate hjoint hparts),
    Text.width_intercalate hjoint hparts]

end Line

section Cell

variable {cell : String} {char : Char}

/-- Some numbers have a greatest one if there is any at all. -/
theorem isGreatest_foldr_max {values : List Nat} (hne : values ≠ []) :
    IsGreatest {value | value ∈ values} (values.foldr max 0) := by
  obtain ⟨hmem, hle⟩ := List.maximum_eq_coe_iff.1 (List.foldr_max_of_ne_nil hne).symm
  exact ⟨hmem, hle⟩

theorem notMem_getD_lines (hcell : char ∉ cell.toList) (position : Nat) :
    char ∉ ((Text.lines cell).getD position "").toList := by
  rw [List.getD_eq_getElem?_getD]
  cases hline : (Text.lines cell)[position]? with
  | none => simp
  | some line =>
    exact fun hchar => hcell (Text.mem_of_mem_of_mem_lines (List.mem_of_getElem? hline) hchar)

theorem lineFeed_notMem_getD_lines (cell : String) (position : Nat) :
    '\n' ∉ ((Text.lines cell).getD position "").toList := by
  rw [List.getD_eq_getElem?_getD]
  cases hline : (Text.lines cell)[position]? with
  | none => simp
  | some line => exact Text.lineFeed_notMem_of_mem_lines (List.mem_of_getElem? hline)

/-- No line of a cell is wider than the cell, nor is the blank one below its last line. -/
theorem width_getD_lines_le (cell : String) (position : Nat) :
    Text.width ((Text.lines cell).getD position "") ≤ cellWidth cell := by
  rw [List.getD_eq_getElem?_getD]
  cases hline : (Text.lines cell)[position]? with
  | none => exact Nat.zero_le _
  | some line =>
    have hwidth : Text.width line ∈ (Text.lines cell).map Text.width :=
      List.mem_map_of_mem (List.mem_of_getElem? hline)
    exact (isGreatest_foldr_max (List.ne_nil_of_mem hwidth)).2 hwidth

theorem cellWidth_of_lineFeed_notMem (hcell : '\n' ∉ cell.toList) :
    cellWidth cell = Text.width cell := by
  rw [cellWidth, Text.lines_of_lineFeed_notMem hcell]
  split
  next hempty => rw [hempty]; rfl
  next => exact Nat.max_zero _

end Cell

section Columns

variable {grid : Grid} {row : List String}

theorem length_widths (grid : Grid) : grid.widths.length = grid.columns.length := by
  simp [widths]

/-- The titles have a cell in each column as well. -/
theorem length_eq_of_mem (hrow : row ∈ grid.titles :: grid.rows) :
    row.length = grid.columns.length := by
  rcases List.mem_cons.1 hrow with rfl | hrow
  · exact List.length_map _
  · exact grid.aligned row hrow

/-- The width of a column is that of its widest cell, the title included. -/
theorem isGreatest_widths {position width : Nat} (hwidth : grid.widths[position]? = some width) :
    IsGreatest {width | ∃ row ∈ grid.titles :: grid.rows, ∃ cell,
      row[position]? = some cell ∧ cellWidth cell = width} width := by
  obtain ⟨hposition, rfl⟩ := List.getElem?_eq_some_iff.1 hwidth
  let cellWidths := (grid.titles :: grid.rows).map fun row => cellWidth (row.getD position "")
  have hwidths : grid.widths[position] = cellWidths.foldr max 0 := by
    rw [length_widths] at hposition
    simp [widths, titles, cellWidths, hposition]
  obtain ⟨hmem, hle⟩ := @isGreatest_foldr_max cellWidths (List.cons_ne_nil _ _)
  rw [hwidths]
  constructor
  · obtain ⟨row, hrow, hcell⟩ := List.mem_map.1 hmem
    rw [length_widths, ← length_eq_of_mem hrow] at hposition
    refine ⟨row, hrow, row[position], List.getElem?_eq_getElem hposition, ?_⟩
    rw [← hcell, List.getElem_eq_getD ""]
  · rintro _ ⟨row, hrow, cell, hcell, rfl⟩
    refine hle (List.mem_map.2 ⟨row, hrow, ?_⟩)
    rw [List.getD_eq_getElem?_getD, hcell, Option.getD_some]

/-- What the columns of a row hold on one of its lines. -/
def parts (grid : Grid) (row : List String) (line : Nat) : List String :=
  (grid.columns.zip (grid.widths.zip row)).map fun (column, width, cell) =>
    pad column.alignment width ((Text.lines cell).getD line "")

theorem rowLine_eq_frame (grid : Grid) (row : List String) (line : Nat) : grid.rowLine row line
    = frame "│" ((grid.parts row line).map fun part => " " ++ part ++ " ") := by
  rw [rowLine, parts, List.map_map]
  rfl

theorem length_parts (hrow : row.length = grid.columns.length) (line : Nat) :
    (grid.parts row line).length = grid.columns.length := by
  simp [parts, length_widths, hrow]

theorem getElem?_parts {position width : Nat} {column : Column} {cell : String}
    (hcolumn : grid.columns[position]? = some column)
    (hwidth : grid.widths[position]? = some width) (hcell : row[position]? = some cell)
    (line : Nat) : (grid.parts row line)[position]?
      = some (pad column.alignment width ((Text.lines cell).getD line "")) := by
  have hzip : (grid.columns.zip (grid.widths.zip row))[position]? = some (column, width, cell) :=
    List.getElem?_zip_eq_some.2 ⟨hcolumn, List.getElem?_zip_eq_some.2 ⟨hwidth, hcell⟩⟩
  rw [parts, List.getElem?_map, hzip]
  rfl

theorem notMem_of_mem_parts {char : Char} (hblank : char ≠ ' ') {line : Nat}
    (hrow : ∀ cell ∈ row, char ∉ ((Text.lines cell).getD line "").toList) {part : String}
    (hpart : part ∈ grid.parts row line) : char ∉ part.toList := by
  obtain ⟨⟨column, width, cell⟩, hzip, rfl⟩ := List.mem_map.1 hpart
  exact notMem_pad hblank (hrow cell (List.of_mem_zip (List.of_mem_zip hzip).2).2)

theorem notMem_rowLine {char : Char} (hblank : char ≠ ' ') (hbar : char ≠ '│') {line : Nat}
    (hrow : ∀ cell ∈ row, char ∉ ((Text.lines cell).getD line "").toList) :
    char ∉ (grid.rowLine row line).toList := by
  rw [rowLine_eq_frame]
  refine notMem_frame hblank (by simpa using hbar) (List.forall_mem_map.2 ?_)
  exact fun part hpart => notMem_surround hblank (notMem_of_mem_parts hblank hrow hpart)

/-- Every part of a line is as wide as its column. -/
theorem map_width_parts (hrow : row ∈ grid.titles :: grid.rows)
    (hplain : ∀ cell ∈ row, Text.escape ∉ cell.toList) (line : Nat) :
    (grid.parts row line).map Text.width = grid.widths := by
  have hlength := length_eq_of_mem hrow
  apply List.ext_getElem
  · rw [List.length_map, length_parts hlength, length_widths]
  · intro position hparts hwidths
    have hcolumns : position < grid.columns.length := length_widths grid ▸ hwidths
    have hcells : position < row.length := hlength ▸ hcolumns
    have hwidth := List.getElem?_eq_getElem hwidths
    have hcell := List.getElem?_eq_getElem hcells
    have hpart := getElem?_parts (List.getElem?_eq_getElem hcolumns) hwidth hcell line
    -- Padding does nothing to a line wider than its column, but there is none.
    have hfits : cellWidth row[position] ≤ grid.widths[position] :=
      (isGreatest_widths hwidth).2 ⟨row, hrow, row[position], hcell, rfl⟩
    have hline := width_getD_lines_le row[position] line
    rw [List.getElem_map, (List.getElem?_eq_some_iff.1 hpart).2,
      width_pad (notMem_getD_lines (hplain _ (List.getElem_mem hcells)) line)]
    omega

/-- The columns of a text that a grid takes: those of its own columns with a
    blank on both sides of each, a bar between every two and a blank at both ends. -/
def breadth (grid : Grid) : Nat :=
  (grid.widths.map (· + 2)).sum + (grid.widths.length - 1) + 2

theorem width_rowLine (hrow : row ∈ grid.titles :: grid.rows)
    (hplain : ∀ cell ∈ row, Text.escape ∉ cell.toList) (line : Nat) :
    Text.width (grid.rowLine row line) = grid.breadth := by
  have hparts : ∀ part ∈ grid.parts row line, Text.escape ∉ part.toList := fun part hpart =>
    notMem_of_mem_parts (by decide) (fun cell hcell => notMem_getD_lines (hplain cell hcell) line)
      hpart
  have hwidths : ((grid.parts row line).map fun part => " " ++ part ++ " ").map Text.width
      = grid.widths.map (· + 2) := by
    rw [← map_width_parts hrow hplain line, List.map_map, List.map_map]
    exact List.map_congr_left fun part hpart => width_surround (hparts part hpart)
  have hframed : ∀ part ∈ (grid.parts row line).map fun part => " " ++ part ++ " ",
      Text.escape ∉ part.toList :=
    List.forall_mem_map.2 fun part hpart => notMem_surround (by decide) (hparts part hpart)
  have hlength := congrArg List.length hwidths
  rw [List.length_map, List.length_map (· + 2)] at hlength
  have hbar : Text.width "│" = 1 := by decide
  rw [rowLine_eq_frame, width_frame (by decide) hframed, hwidths, hlength, hbar, Nat.mul_one]
  rfl

theorem notMem_rule {char : Char} (hblank : char ≠ ' ') (hdash : char ≠ '─') {joint : String}
    (hjoint : char ∉ joint.toList) : char ∉ (grid.rule joint).toList :=
  notMem_frame hblank hjoint
    (List.forall_mem_map.2 fun width _ => Text.notMem_replicate hdash (width + 2))

theorem width_rule {joint : String} (hplain : Text.escape ∉ joint.toList)
    (hjoint : Text.width joint = 1) : Text.width (grid.rule joint) = grid.breadth := by
  let dashes (width : Nat) : String := String.ofList (List.replicate (width + 2) '─')
  have hparts : ∀ part ∈ grid.widths.map dashes, Text.escape ∉ part.toList :=
    List.forall_mem_map.2 fun width _ => Text.notMem_replicate (by decide) (width + 2)
  have hwidths : (grid.widths.map dashes).map Text.width = grid.widths.map (· + 2) := by
    rw [List.map_map]
    exact List.map_congr_left fun width _ => Text.width_replicate (by decide) (by decide) _
  rw [rule, width_frame hplain hparts, hwidths, List.length_map, hjoint, Nat.mul_one]
  rfl

end Columns

end Sigma16.Grid

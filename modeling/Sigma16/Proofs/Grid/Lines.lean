import Sigma16.Proofs.Grid.Breadth

namespace Sigma16.Grid

section Height

variable {row : List String}

/-- The number of lines of a row is that of its highest cell, and at least one. -/
def HasHeight (row : List String) (height : Nat) : Prop :=
  IsGreatest (insert 1 {count | ∃ cell ∈ row, (Text.lines cell).length = count}) height

theorem hasHeight_height (row : List String) : HasHeight row (height row) := by
  -- The least height is one more number to take the greatest of, so that there is any.
  have hheight : height row
      = ((row.map fun cell => (Text.lines cell).length) ++ [1]).foldr max 0 := by
    rw [height, List.foldr_append]
    rfl
  have hset : {count | count ∈ (row.map fun cell => (Text.lines cell).length) ++ [1]}
      = insert 1 {count | ∃ cell ∈ row, (Text.lines cell).length = count} := by
    ext count
    simp [or_comm]
  rw [HasHeight, hheight, ← hset]
  exact isGreatest_foldr_max (List.append_ne_nil_of_right_ne_nil _ (List.cons_ne_nil _ _))

/-- A row whose cells have no line breaks is on one line. -/
theorem height_eq_one (hrow : ∀ cell ∈ row, '\n' ∉ cell.toList) : height row = 1 := by
  obtain ⟨hreached, hle⟩ := hasHeight_height row
  rcases hreached with hone | ⟨cell, hcell, hcount⟩
  · exact hone
  · have hmost := Text.length_lines_le_one (hrow cell hcell)
    have hleast : 1 ≤ height row := hle (Set.mem_insert _ _)
    omega

theorem rowLines_eq_singleton (grid : Grid) (hrow : ∀ cell ∈ row, '\n' ∉ cell.toList) :
    grid.rowLines row = [grid.rowLine row 0] := by
  rw [rowLines, height_eq_one hrow]
  rfl

end Height

section Lines

variable {grid : Grid} {line : String} {row : List String}

theorem mem_lines (hline : line ∈ grid.lines) :
    (∃ row ∈ grid.titles :: grid.rows, ∃ position, line = grid.rowLine row position)
      ∨ line = grid.rule "┼" ∨ line = grid.rule "┴" := by
  simp only [lines, rowLines, List.mem_append, List.mem_map, List.mem_singleton,
    List.mem_flatMap] at hline
  rcases hline with ((⟨position, -, rfl⟩ | rfl) | ⟨row, hrow, position, -, rfl⟩) | rfl
  · exact .inl ⟨grid.titles, List.mem_cons_self, position, rfl⟩
  · exact .inr (.inl rfl)
  · exact .inl ⟨row, List.mem_cons_of_mem _ hrow, position, rfl⟩
  · exact .inr (.inr rfl)

theorem getLast?_frame (joint : String) (parts : List String) :
    (frame joint parts).toList.getLast? = some ' ' := by
  rw [frame, String.toList_append, List.getLast?_append]
  rfl

/-- The text of a grid has the lines that it is made of. None of them ends early,
    since cells are cut at their line breaks, and all of them end with a blank. -/
theorem lines_render (grid : Grid) : Text.lines grid.render = grid.lines := by
  apply Text.lines_join
  · intro line hline
    rcases mem_lines hline with ⟨row, -, position, rfl⟩ | rfl | rfl
    · exact notMem_rowLine (by decide) (by decide) fun cell _ =>
        lineFeed_notMem_getD_lines cell position
    · exact notMem_rule (by decide) (by decide) (by decide)
    · exact notMem_rule (by decide) (by decide) (by decide)
  · intro line hline
    have hlast : line.toList.getLast? = some ' ' := by
      rcases mem_lines hline with ⟨row, -, position, rfl⟩ | rfl | rfl <;>
        exact getLast?_frame _ _
    rw [hlast]
    decide

/-- All lines of a grid are equally wide. -/
theorem width_of_mem_lines
    (hplain : ∀ row ∈ grid.titles :: grid.rows, ∀ cell ∈ row, Text.escape ∉ cell.toList)
    (hline : line ∈ grid.lines) : Text.width line = grid.breadth := by
  rcases mem_lines hline with ⟨row, hrow, position, rfl⟩ | rfl | rfl
  · exact width_rowLine hrow (hplain row hrow) position
  · exact width_rule (by decide) (by decide)
  · exact width_rule (by decide) (by decide)

section SingleLine

variable (htitles : ∀ title ∈ grid.titles, '\n' ∉ title.toList)

include htitles

theorem length_lines : grid.lines.length = 3 + (grid.rows.map height).sum := by
  have hlength (row : List String) : (grid.rowLines row).length = height row := by
    simp [rowLines]
  have hrows : (grid.rows.flatMap grid.rowLines).length = (grid.rows.map height).sum := by
    rw [List.length_flatMap]
    exact congrArg List.sum (List.map_congr_left fun row _ => hlength row)
  simp only [lines, List.length_append, List.length_singleton, hlength, hrows,
    height_eq_one htitles]
  omega

variable (hrows : ∀ row ∈ grid.rows, ∀ cell ∈ row, '\n' ∉ cell.toList)

include hrows

theorem lines_eq_of_lineFeed_notMem : grid.lines
    = grid.rowLine grid.titles 0 :: grid.rule "┼" ::
        (grid.rows.map (grid.rowLine · 0) ++ [grid.rule "┴"]) := by
  have hflat : grid.rows.flatMap grid.rowLines = grid.rows.map (grid.rowLine · 0) := by
    rw [List.map_eq_flatMap]
    exact List.flatMap_congr fun row hrow => rowLines_eq_singleton grid (hrows row hrow)
  rw [lines, rowLines_eq_singleton grid htitles, hflat]
  rfl

theorem getElem?_lines_zero : grid.lines[0]? = some (grid.rowLine grid.titles 0) := by
  rw [lines_eq_of_lineFeed_notMem htitles hrows]
  rfl

theorem getElem?_lines {position : Nat} (hrow : grid.rows[position]? = some row) :
    grid.lines[position + 2]? = some (grid.rowLine row 0) := by
  obtain ⟨hposition, rfl⟩ := List.getElem?_eq_some_iff.1 hrow
  rw [lines_eq_of_lineFeed_notMem htitles hrows, List.getElem?_cons_succ, List.getElem?_cons_succ,
    List.getElem?_append_left (by simpa using hposition), List.getElem?_map, hrow]
  rfl

end SingleLine

end Lines

/-- A column is as wide as the widest of its cells, the title included. -/
def HasColumnWidth (grid : Grid) (position width : Nat) : Prop :=
  IsGreatest {width | ∃ row ∈ grid.titles :: grid.rows, ∃ cell,
    row[position]? = some cell ∧ Text.width cell = width} width

/-- A cell is filled up with blanks to a width and stays on a side. -/
def FilledUp (alignment : Alignment) (width : Nat) (cell part : String) : Prop :=
  Text.width part = width ∧ ∃ blanks,
    match alignment with
    | .left => part = cell ++ String.ofList (List.replicate blanks ' ')
    | .right => part = String.ofList (List.replicate blanks ' ') ++ cell

/-- A line shows a row of cells side by side, with a bar between every two, each
    filled up to the width of its column on the side of the column. -/
def ShowsRow (grid : Grid) (row : List String) (line : String) : Prop :=
  ∃ parts : List String,
    line = " " ++ "│".intercalate (parts.map fun part => " " ++ part ++ " ") ++ " "
    ∧ parts.length = row.length
    ∧ ∀ position column cell, grid.columns[position]? = some column → row[position]? = some cell →
        ∃ part width, parts[position]? = some part ∧ grid.HasColumnWidth position width
          ∧ FilledUp column.alignment width cell part

theorem filledUp_pad {alignment : Alignment} {width : Nat} {cell : String}
    (hplain : Text.escape ∉ cell.toList) (hfits : Text.width cell ≤ width) :
    FilledUp alignment width cell (pad alignment width cell) := by
  refine ⟨by rw [width_pad hplain, Nat.max_eq_right hfits], width - Text.width cell, ?_⟩
  cases alignment <;> rfl

section Rows

variable {grid : Grid}
  (hsingle : ∀ row ∈ grid.titles :: grid.rows, ∀ cell ∈ row, '\n' ∉ cell.toList)

include hsingle

theorem hasColumnWidth_of_getElem?_widths {position width : Nat}
    (hwidth : grid.widths[position]? = some width) : grid.HasColumnWidth position width := by
  have hcell {row : List String} (hrow : row ∈ grid.titles :: grid.rows) {cell : String}
      (hcell : row[position]? = some cell) : cellWidth cell = Text.width cell :=
    cellWidth_of_lineFeed_notMem (hsingle row hrow cell (List.mem_of_getElem? hcell))
  obtain ⟨⟨row, hrow, cell, hfound, hreached⟩, hle⟩ := isGreatest_widths hwidth
  refine ⟨⟨row, hrow, cell, hfound, by rw [← hcell hrow hfound, hreached]⟩, ?_⟩
  rintro _ ⟨other, hother, found, hfound, rfl⟩
  exact hle ⟨other, hother, found, hfound, hcell hother hfound⟩

theorem showsRow_rowLine {row : List String} (hrow : row ∈ grid.titles :: grid.rows)
    (hplain : ∀ cell ∈ row, Text.escape ∉ cell.toList) :
    grid.ShowsRow row (grid.rowLine row 0) := by
  have hlength := length_eq_of_mem hrow
  refine ⟨grid.parts row 0, rowLine_eq_frame grid row 0, ?_, ?_⟩
  · rw [length_parts hlength, hlength]
  intro position column cell hcolumn hcell
  have hwidths : position < grid.widths.length := by
    rw [length_widths]
    exact (List.getElem?_eq_some_iff.1 hcolumn).1
  have hmem := List.mem_of_getElem? hcell
  have hwidth := List.getElem?_eq_getElem hwidths
  have hcolumnWidth := hasColumnWidth_of_getElem?_widths hsingle hwidth
  have hpart := getElem?_parts hcolumn hwidth hcell 0
  -- The only line of a cell without line breaks is the cell itself.
  rw [Text.getD_lines_zero (hsingle row hrow cell hmem)] at hpart
  exact ⟨_, _, hpart, hcolumnWidth,
    filledUp_pad (hplain cell hmem) (hcolumnWidth.2 ⟨row, hrow, cell, hcell, rfl⟩)⟩

end Rows

end Sigma16.Grid

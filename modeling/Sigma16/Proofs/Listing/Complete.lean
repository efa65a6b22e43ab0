import Sigma16.Listing
import Sigma16.Proofs.Entry.Text
import Sigma16.Proofs.Grid.Lines
import Sigma16.Proofs.Table.Rows
import Sigma16.Proofs.Word.Spelling

namespace Sigma16

theorem Entry.Kind.printable_name (kind : Entry.Kind) : Text.Printable kind.name := by
  cases kind <;> decide

theorem Word.FourDigits.printable {word : Word} {text : String} (htext : word.FourDigits text) :
    Text.Printable text := by
  obtain ⟨digits, -, hbound, rfl, -⟩ := htext
  intro char hchar
  rw [String.toList_ofList] at hchar
  obtain ⟨digit, hdigit, rfl⟩ := List.mem_map.1 hchar
  exact Text.not_isControl_digitChar (hbound digit hdigit)

namespace Listing

/-- The text of a grid lists some elements, each of which has a name and a row of
    cells of its own. -/
structure Lists {α : Type} (grid : Grid) (name : α → String) (Cells : α → List String → Prop)
    (elements : List α) : Prop where
  rows : List.Forall₂ Cells elements grid.rows
  rectangular : ∃ breadth, ∀ line ∈ Text.lines grid.render, Text.width line = breadth
  /-- Besides the lines of the rows there are the titles and the two rules. -/
  complete : ∃ heights, List.Forall₂ Grid.HasHeight grid.rows heights
    ∧ (Text.lines grid.render).length = 3 + heights.sum
  /-- If no name has a line break, the titles are on the first line, -/
  shows_titles : (∀ element ∈ elements, '\n' ∉ (name element).toList) →
    ∃ line, (Text.lines grid.render)[0]? = some line ∧ grid.ShowsRow grid.titles line
  /-- and after the rule below them there is one line for each element. -/
  shows : (∀ element ∈ elements, '\n' ∉ (name element).toList) →
    ∀ position element, elements[position]? = some element →
      ∃ cells line, Cells element cells ∧ (Text.lines grid.render)[position + 2]? = some line
        ∧ grid.ShowsRow cells line

/-- Nothing in the cells of a grid can spoil its lines but what comes from the
    names of the elements that it lists. -/
theorem lists_of_printable {α : Type} {grid : Grid} {name : α → String}
    {Cells : α → List String → Prop} {elements : List α}
    (hcells : List.Forall₂ Cells elements grid.rows)
    (htitles : ∀ title ∈ grid.titles, Text.Printable title)
    (hrows : ∀ char, Text.isControl char = true →
      (∀ element ∈ elements, char ∉ (name element).toList) →
        ∀ row ∈ grid.rows, ∀ cell ∈ row, char ∉ cell.toList)
    (hplain : ∀ element ∈ elements, Text.escape ∉ (name element).toList) :
    Lists grid name Cells elements := by
  have htitle {char : Char} (hcontrol : Text.isControl char = true) :
      ∀ title ∈ grid.titles, char ∉ title.toList :=
    fun title hmem => (htitles title hmem).notMem hcontrol
  have hall {char : Char} (hcontrol : Text.isControl char = true)
      (hnames : ∀ element ∈ elements, char ∉ (name element).toList) :
      ∀ row ∈ grid.titles :: grid.rows, ∀ cell ∈ row, char ∉ cell.toList :=
    List.forall_mem_cons.2 ⟨htitle hcontrol, hrows char hcontrol hnames⟩
  -- A line feed and an escape are control characters, the only ones that matter.
  have hescape := hall (by decide) hplain
  have hfeed : ∀ title ∈ grid.titles, '\n' ∉ title.toList := htitle (by decide)
  have hshows (hnames : ∀ element ∈ elements, '\n' ∉ (name element).toList) {row : List String}
      (hrow : row ∈ grid.titles :: grid.rows) : grid.ShowsRow row (grid.rowLine row 0) :=
    Grid.showsRow_rowLine (hall (by decide) hnames) hrow (hescape row hrow)
  constructor
  · exact hcells
  · refine ⟨grid.breadth, fun line hline => ?_⟩
    rw [Grid.lines_render] at hline
    exact Grid.width_of_mem_lines hescape hline
  · refine ⟨grid.rows.map Grid.height, ?_, ?_⟩
    · exact List.forall₂_map_right_iff.2 (List.forall₂_same.2 fun row _ => Grid.hasHeight_height row)
    · rw [Grid.lines_render, Grid.length_lines hfeed]
  · intro hnames
    refine ⟨grid.rowLine grid.titles 0, ?_, hshows hnames List.mem_cons_self⟩
    rw [Grid.lines_render]
    exact Grid.getElem?_lines_zero hfeed (hrows '\n' (by decide) hnames)
  · intro hnames position element helement
    obtain ⟨hposition, rfl⟩ := List.getElem?_eq_some_iff.1 helement
    have hbound : position < grid.rows.length := hcells.length_eq ▸ hposition
    have hrow := List.getElem?_eq_getElem hbound
    refine ⟨grid.rows[position], grid.rowLine grid.rows[position] 0, ?_, ?_, ?_⟩
    · exact hcells.get hposition hbound
    · rw [Grid.lines_render]
      exact Grid.getElem?_lines hfeed (hrows '\n' (by decide) hnames) hrow
    · exact hshows hnames (List.mem_cons_of_mem _ (List.getElem_mem hbound))

/-- The cells of the row that lists an entry of a table. -/
structure EntryCells (table : Table) (entry : Entry) (cells : List String) : Prop where
  length_eq : cells.length = 6
  name : cells[0]? = some (if entry.mnemonic = "" then "(empty)" else entry.mnemonic)
  format : cells[1]? = some entry.format.label
  opcode : cells[2]? = some (",".intercalate (entry.opcode.map fun field => toString field.toNat))
  word : ∀ word, entry.firstWord? = some word →
    ∃ digits, cells[3]? = some digits ∧ word.FourDigits digits
  no_word : entry.firstWord? = none → cells[3]? = some ""
  kind : cells[4]? = some entry.kind.name
  base : ∀ base, table.base? entry = some base → cells[5]? = some base.entry.mnemonic
  no_base : table.base? entry = none → cells[5]? = some ""

theorem entryCells_mnemonicCells (table : Table) (entry : Entry) :
    EntryCells table entry (mnemonicCells table entry) where
  length_eq := rfl
  name := by simp [mnemonicCells, String.isEmpty_iff]
  format := rfl
  opcode := rfl
  word word hword := by
    refine ⟨word.toHex, ?_, word.fourDigits_toHex⟩
    simp [mnemonicCells, hword]
  no_word hword := by simp [mnemonicCells, hword]
  kind := rfl
  base base hbase := by simp [mnemonicCells, hbase]
  no_base hbase := by simp [mnemonicCells, hbase]

theorem notMem_mnemonicCells {table : Table} {char : Char} (hcontrol : Text.isControl char = true)
    (hmnemonics : ∀ entry ∈ table.entries, char ∉ entry.mnemonic.toList) {entry : Entry}
    (hentry : entry ∈ table.entries) : ∀ cell ∈ mnemonicCells table entry, char ∉ cell.toList := by
  have hname : char ∉ (if entry.mnemonic.isEmpty then "(empty)" else entry.mnemonic).toList := by
    split
    next =>
      have hempty : Text.Printable "(empty)" := by decide
      exact hempty.notMem hcontrol
    next => exact hmnemonics entry hentry
  have hword : char ∉ ((entry.firstWord?.map Word.toHex).getD "").toList := by
    cases entry.firstWord? with
    | none => simp
    | some word => exact word.fourDigits_toHex.printable.notMem hcontrol
  have hbase : char ∉ (((table.base? entry).map (·.entry.mnemonic)).getD "").toList := by
    cases hbase : table.base? entry with
    | none => simp
    | some base =>
      have hrow := (Table.extends_of_base?_eq_some hbase).2.1
      exact hmnemonics base.entry (Table.entry_mem_of_mem_rows hrow)
  simp only [mnemonicCells, List.forall_mem_cons, List.not_mem_nil, false_imp_iff, implies_true,
    and_true]
  exact ⟨hname, entry.format.printable_label.notMem hcontrol,
    entry.printable_opcodeText.notMem hcontrol, hword, entry.kind.printable_name.notMem hcontrol,
    hbase⟩

/-- The cells of the row that lists a control register. -/
def RegisterCells (register : ControlRegister) (cells : List String) : Prop :=
  cells = [register.name, toString register.index.toNat]

theorem notMem_registerCells {register : ControlRegister} {char : Char}
    (hcontrol : Text.isControl char = true) (hname : char ∉ register.name.toList) :
    ∀ cell ∈ [register.name, toString register.index.toNat], char ∉ cell.toList := by
  simp only [List.forall_mem_cons, List.not_mem_nil, false_imp_iff, implies_true, and_true]
  exact ⟨hname, (Text.printable_toString _).notMem hcontrol⟩

section Listings

variable {table : Table} {registers : ControlRegisters}

theorem columns_mnemonics (table : Table) :
    (mnemonics table).columns = [⟨"Mnemonic", .left⟩, ⟨"Format", .left⟩, ⟨"Opcode", .left⟩,
      ⟨"Word", .right⟩, ⟨"Kind", .left⟩, ⟨"Base", .left⟩] :=
  rfl

theorem columns_controlRegisters (registers : ControlRegisters) :
    (controlRegisters registers).columns = [⟨"Register", .left⟩, ⟨"Index", .right⟩] :=
  rfl

theorem lists_mnemonics
    (hmnemonics : ∀ entry ∈ table.entries, Text.escape ∉ entry.mnemonic.toList) :
    Lists (mnemonics table) (·.mnemonic) (EntryCells table) table.entries := by
  refine lists_of_printable ?_ (by rw [Grid.titles, columns_mnemonics]; decide) ?_ hmnemonics
  · refine List.forall₂_map_right_iff.2 (List.forall₂_same.2 fun entry _ => ?_)
    exact entryCells_mnemonicCells table entry
  · intro char hcontrol hnames
    exact List.forall_mem_map.2 fun entry hentry => notMem_mnemonicCells hcontrol hnames hentry

theorem lists_controlRegisters
    (hnames : ∀ register ∈ registers.entries, Text.escape ∉ register.name.toList) :
    Lists (controlRegisters registers) (·.name) RegisterCells registers.entries := by
  refine lists_of_printable ?_ (by rw [Grid.titles, columns_controlRegisters]; decide) ?_ hnames
  · exact List.forall₂_map_right_iff.2 (List.forall₂_same.2 fun register _ => rfl)
  · intro char hcontrol hnames
    exact List.forall_mem_map.2 fun register hregister =>
      notMem_registerCells hcontrol (hnames register hregister)

/-- The listings of the mnemonics and of the control registers are rectangles in
    which nothing is left out, whatever the names are like: wide, combining, empty
    or of several lines. They may not open a colour sequence, whose columns are
    counted in another way. Words and indices stand on the right of their columns,
    all else on the left. -/
theorem lists_entries_and_registers
    (hmnemonics : ∀ entry ∈ table.entries, Text.escape ∉ entry.mnemonic.toList)
    (hnames : ∀ register ∈ registers.entries, Text.escape ∉ register.name.toList) :
    (mnemonics table).columns = [⟨"Mnemonic", .left⟩, ⟨"Format", .left⟩, ⟨"Opcode", .left⟩,
        ⟨"Word", .right⟩, ⟨"Kind", .left⟩, ⟨"Base", .left⟩]
      ∧ Lists (mnemonics table) (·.mnemonic) (EntryCells table) table.entries
      ∧ (controlRegisters registers).columns = [⟨"Register", .left⟩, ⟨"Index", .right⟩]
      ∧ registers.entries.Pairwise (·.index < ·.index)
      ∧ Lists (controlRegisters registers) (·.name) RegisterCells registers.entries :=
  ⟨columns_mnemonics table, lists_mnemonics hmnemonics, columns_controlRegisters registers,
    registers.increasing, lists_controlRegisters hnames⟩

/-- A pseudo-instruction whose base has a name of two lines, and wide and combining
    characters in both listings. -/
theorem lists_entries_and_registers_of_tall_name :
    (∀ entry ∈ [⟨"加\n算", .rrr, [3], false⟩, (⟨"e\u0301", .rrr, [3, 5], true⟩ : Entry)],
        Text.escape ∉ entry.mnemonic.toList)
      ∧ (∀ register ∈ (ControlRegisters.ofList [⟨"状態", 1⟩, ⟨"mask", 0⟩]).entries,
        Text.escape ∉ register.name.toList)
      ∧ Lists (mnemonics (.ofEntries [⟨"加\n算", .rrr, [3], false⟩, ⟨"e\u0301", .rrr, [3, 5], true⟩]))
        (·.mnemonic)
        (EntryCells (.ofEntries [⟨"加\n算", .rrr, [3], false⟩, ⟨"e\u0301", .rrr, [3, 5], true⟩]))
        [⟨"加\n算", .rrr, [3], false⟩, ⟨"e\u0301", .rrr, [3, 5], true⟩]
      ∧ Lists (controlRegisters (.ofList [⟨"状態", 1⟩, ⟨"mask", 0⟩])) (·.name) RegisterCells
        [⟨"mask", 0⟩, ⟨"状態", 1⟩] := by
  have hmnemonics : ∀ entry ∈ (Table.ofEntries
      [⟨"加\n算", .rrr, [3], false⟩, ⟨"e\u0301", .rrr, [3, 5], true⟩]).entries,
      Text.escape ∉ entry.mnemonic.toList := by
    rw [Table.entries_ofEntries]
    decide
  have hnames : ∀ register ∈ (ControlRegisters.ofList [⟨"状態", 1⟩, ⟨"mask", 0⟩]).entries,
      Text.escape ∉ register.name.toList := by
    decide
  have hentries : (ControlRegisters.ofList [⟨"状態", 1⟩, ⟨"mask", 0⟩]).entries
      = [⟨"mask", 0⟩, ⟨"状態", 1⟩] := by
    decide
  obtain ⟨-, hlisted, -, -, hregisters⟩ := lists_entries_and_registers hmnemonics hnames
  exact ⟨hmnemonics, hnames, hlisted, hentries ▸ hregisters⟩

example : (controlRegisters (.ofList [⟨"状\n態", 1⟩, ⟨"", 0⟩])).render =
    "  Register │ Index  \n" ++ " ──────────┼─────── \n" ++ "           │     0  \n"
      ++ "  状       │     1  \n" ++ "  態       │        \n" ++ " ──────────┴─────── \n" := by
  decide +kernel

end Listings

end Listing

end Sigma16

import Sigma16.Proofs.Consistency.Verdict

namespace Sigma16

namespace Entry

/-- Among well-formed entries only a literal can be added to an opcode: the base
    has a primary and a secondary opcode, and the extension one field more. -/
theorem WellFormed.opcode_of_extends {entry base : Entry} (hentry : entry.WellFormed)
    (hbase : base.WellFormed) (hextends : entry.Extends base) :
    (entry.family = .indexed ∨ entry.family = .expanded) ∧ base.opcode.length = 2
      ∧ ∃ literal ≤ maxNybble, entry.opcode = base.opcode ++ [literal] := by
  obtain ⟨hfamily, hlonger, rest, hrest⟩ := hextends
  have hcount := hentry.allowsFieldCount
  have hbaseCount := hbase.allowsFieldCount
  rw [← hfamily] at hbaseCount
  have hlengths : (entry.family = .indexed ∨ entry.family = .expanded)
      ∧ base.opcode.length = 2 ∧ entry.opcode.length = 3 := by
    cases hcase : entry.family <;>
      simp only [hcase, Family.allowsFieldCount, decide_eq_true_eq, Bool.or_eq_true] at hcount hbaseCount
    case indexed | expanded => simp; omega
    all_goals omega
  obtain ⟨hescape, htwo, hthree⟩ := hlengths
  have hone : rest.length = 1 := by
    have hsum := congrArg List.length hrest
    rw [List.length_append] at hsum
    omega
  obtain ⟨literal, rfl⟩ := List.length_eq_one_iff.1 hone
  refine ⟨hescape, htwo, literal, ?_, hrest.symm⟩
  by_contra hwide
  have hthird : entry.opcode[2]? = some literal := by
    rw [← hrest, List.getElem?_append_right (Nat.le_of_eq htwo), htwo]
    rfl
  have hbyte := widthViolations_eq_nil_iff.1 hentry.widthViolations_eq_nil 2 literal hthird
    (UInt8.not_le.1 hwide)
  exact absurd hbyte.1 (by decide)

theorem WellFormed.opcode_eq_selector_of_extends {entry base : Entry} (hentry : entry.WellFormed)
    (hbase : base.WellFormed) (hextends : entry.Extends base) : base.opcode = entry.selector := by
  obtain ⟨-, htwo, literal, -, hopcode⟩ := hentry.opcode_of_extends hbase hextends
  rw [selector, hopcode, List.take_left' htwo]

/-- Only instructions can be extended, or extend another entry. -/
theorem WellFormed.isInstruction_of_extends {entry base : Entry} (hentry : entry.WellFormed)
    (hbase : base.WellFormed) (hextends : entry.Extends base) :
    entry.isInstruction = true ∧ base.isInstruction = true := by
  have hinstruction : entry.isInstruction = true := by
    rw [isInstruction_eq_family]
    rcases (hentry.opcode_of_extends hbase hextends).1 with hindexed | hexpanded
    · rw [hindexed, Family.isInstruction]
    · rw [hexpanded, Family.isInstruction]
  refine ⟨hinstruction, ?_⟩
  rw [isInstruction_eq_family, ← hextends.1, ← isInstruction_eq_family, hinstruction]

theorem Supplied.length_operands_lt {entry base : Entry} (hsupplied : entry.Supplied base) :
    entry.format.operands.length < base.format.operands.length := by
  obtain ⟨hwritten, hnonempty, -, -⟩ := hsupplied
  have hcard := congrArg Multiset.card (Multiset.add_sub_cancel hwritten)
  have hpositive := Multiset.card_pos.2 hnonempty
  rw [Multiset.card_add, Multiset.coe_card, Multiset.coe_card] at hcard
  omega

end Entry

theorem Format.length_operands_of_indexed {format : Format} (hfamily : format.family = .indexed) :
    format.operands.length = if format = .jx then 1 else 2 := by
  cases format <;> first | rfl | cases hfamily

namespace Table

/-- What the base of a pseudo-instruction is in a lawful table: a real
    instruction whose opcode is the selector of the pseudo-instruction, which
    adds one literal to it. -/
structure BaseOf (table : Table) (row base : Row) : Prop where
  base?_eq : table.base? row.entry = some base
  real : base ∈ table.realInstructions
  isInstruction : row.entry.isInstruction = true
  supplied : row.entry.Supplied base.entry
  family_eq : row.entry.family = base.entry.family
  opcode_eq : base.entry.opcode = row.entry.selector
  literal : ∃ literal ≤ maxNybble, row.entry.opcode = row.entry.selector ++ [literal]

theorem BaseOf.selector_eq {table : Table} {row base : Row} (hbase : table.BaseOf row base) :
    base.entry.selector = row.entry.selector := by
  rw [Entry.selector, hbase.opcode_eq, Entry.selector, List.take_take, Nat.min_self]

namespace Lawful

variable {table : Table}

theorem wellFormed_of_mem_rows (hlawful : table.Lawful) {row : Row} (hrow : row ∈ table.rows) :
    row.entry.WellFormed :=
  hlawful.wellFormed row.entry (entry_mem_of_mem_rows hrow)

theorem wellFormed_of_mem_instructions (hlawful : table.Lawful) {row : Row}
    (hrow : row ∈ table.instructions) : row.entry.WellFormed :=
  hlawful.wellFormed_of_mem_rows (mem_instructions.1 hrow).1

theorem exists_baseOf (hlawful : table.Lawful) {row : Row} (hrow : row ∈ table.rows)
    (hpseudo : row.entry.pseudo = true) : ∃ base, table.BaseOf row base := by
  obtain ⟨base, hfirst, hsupplied⟩ :=
    hlawful.pseudosSupplied row.entry (entry_mem_of_mem_rows hrow) hpseudo
  have hreal : base.entry.pseudo = false := hfirst.2.1.1
  have hextends : row.entry.Extends base.entry := hfirst.2.1.2
  have hentry := hlawful.wellFormed_of_mem_rows hrow
  have hbase := hlawful.wellFormed_of_mem_rows hfirst.1
  obtain ⟨-, -, literal, hliteral, hopcode⟩ := hentry.opcode_of_extends hbase hextends
  obtain ⟨hinstruction, hbaseInstruction⟩ := hentry.isInstruction_of_extends hbase hextends
  have hselector := hentry.opcode_eq_selector_of_extends hbase hextends
  exact ⟨base, {
    base?_eq := base?_eq_some_iff.2 ⟨hpseudo, hfirst⟩
    real := mem_realInstructions.2 ⟨hfirst.1, hbaseInstruction, hreal⟩
    isInstruction := hinstruction
    supplied := hsupplied
    family_eq := hextends.1
    opcode_eq := hselector
    literal := ⟨literal, hliteral, hselector ▸ hopcode⟩ }⟩

/-- The indexed pseudo-instructions of a lawful table are jumps: no other format
    leaves out an operand of an indexed one. -/
theorem format_eq_jx (hlawful : table.Lawful) {row : Row} (hrow : row ∈ table.rows)
    (hpseudo : row.entry.pseudo = true) (hfamily : row.entry.family = .indexed) :
    row.entry.format = .jx := by
  obtain ⟨base, hbase⟩ := hlawful.exists_baseOf hrow hpseudo
  have hfewer := hbase.supplied.length_operands_lt
  have hbaseFamily : base.entry.format.family = .indexed := hbase.family_eq.symm.trans hfamily
  rw [Format.length_operands_of_indexed hfamily, Format.length_operands_of_indexed hbaseFamily]
    at hfewer
  by_contra hother
  rw [if_neg hother] at hfewer
  split at hfewer <;> omega

end Lawful

end Table

end Sigma16

import Sigma16.Proofs.Entry.FirstWord
import Sigma16.Proofs.Table.Pseudos

namespace Sigma16

namespace Entry

/-- What a pseudo-instruction leaves out is there to be computed, passes the
    check of the literal, and makes up the operands of the base together with
    those that are written. -/
theorem Supplied.exists_omitted {entry base : Entry} (hsupplied : entry.Supplied base) :
    ∃ omitted, Operand.difference? base.format.operands entry.format.operands = some omitted
      ∧ Operand.literalCovers omitted = true
      ∧ base.format.operands.Perm (entry.format.operands ++ omitted) := by
  have hcovers := Operand.literalCovers_difference?_iff.2 hsupplied
  obtain ⟨omitted, homitted⟩ :=
    Option.isSome_iff_exists.1 (Operand.isSome_difference?_iff.2 hsupplied.1)
  rw [homitted, Option.getD_some] at hcovers
  refine ⟨omitted, homitted, hcovers, ?_⟩
  rw [← Multiset.coe_eq_coe, ← Multiset.coe_add]
  exact Operand.add_of_difference?_eq_some homitted

end Entry

theorem Format.wordCount_eq_two_of_operands {format : Format}
    (hfamily : format.family = .indexed ∨ format.family = .expanded)
    (hoperands : 0 < format.operands.length) : format.wordCount = 2 := by
  rcases hfamily with hindexed | hexpanded
  · exact wordCount_eq_two_of_family_eq_indexed hindexed
  · -- The one format of a single word behind the escape code has no operands.
    cases format <;> first | rfl | exact absurd hoperands (by decide) | cases hexpanded

namespace Table

/-- A pseudo-instruction and its base, with the literal that it adds to the
    opcode and the operands that it leaves out. -/
structure PseudoShape (table : Table) (entry : Entry) (base : Row) (literal : UInt8)
    (omitted : List Operand) : Prop where
  family : entry.family = .indexed ∨ entry.family = .expanded
  base?_eq : table.base? entry = some base
  base_pseudo : base.entry.pseudo = false
  base_family : base.entry.family = entry.family
  base_length : base.entry.opcode.length = 2
  opcode_eq : entry.opcode = base.entry.opcode ++ [literal]
  literal_le : literal ≤ maxNybble
  /-- Not only the first entry that could be the base has these fields. -/
  candidate : ∀ other ∈ table.entries, other.pseudo = false → entry.Extends other →
    other.opcode = entry.selector
  wordCount_eq : entry.wordCount = 2
  base_wordCount : base.entry.wordCount = 2
  omitted?_eq : table.omitted? entry = some omitted
  covered : Operand.literalCovers omitted = true
  fewer : entry.format.operands.length < base.entry.format.operands.length
  operands_perm : base.entry.format.operands.Perm (entry.format.operands ++ omitted)
  jump : entry.family = .indexed → entry.format = .jx

theorem Lawful.wordCount_eq_two_of_baseOf {table : Table} (hlawful : table.Lawful)
    {row base : Row} (hrow : row ∈ table.rows) (hbase : table.BaseOf row base) :
    row.entry.wordCount = 2 ∧ base.entry.wordCount = 2 := by
  obtain ⟨hbaseRow, hbaseInstruction, -⟩ := mem_realInstructions.1 hbase.real
  have hentry := hlawful.wellFormed_of_mem_rows hrow
  have hbaseEntry := hlawful.wellFormed_of_mem_rows hbaseRow
  have hextends := (extends_of_base?_eq_some hbase.base?_eq).2.2.2
  have hescape := (hentry.opcode_of_extends hbaseEntry hextends).1
  rw [hbase.family_eq] at hescape
  have hoperands := hbase.supplied.length_operands_lt
  have htwo : base.entry.wordCount = 2 :=
    Format.wordCount_eq_two_of_operands hescape (by omega)
  -- The entry may be written without operands, but it is fetched like its base.
  have hsame := hentry.wordCount_eq_of_selector_eq hbaseEntry hbase.isInstruction
    hbaseInstruction hbase.selector_eq.symm
  exact ⟨hsame.trans htwo, htwo⟩

/-- Acceptance fixes the shape of every pseudo-instruction, though no check asks
    for it as such. -/
theorem exists_pseudoShape {registry : Registry} (hvalid : registry.validate = .ok ())
    {entry : Entry} (hentry : entry ∈ registry.table.entries) (hpseudo : entry.pseudo = true) :
    ∃ base literal omitted, registry.table.PseudoShape entry base literal omitted := by
  have hlawful := Registry.lawful_of_validate_eq_ok hvalid
  rw [← map_entry_rows] at hentry
  obtain ⟨row, hrow, rfl⟩ := List.mem_map.1 hentry
  obtain ⟨base, hbase⟩ := hlawful.exists_baseOf hrow hpseudo
  obtain ⟨hbaseRow, -, hreal⟩ := mem_realInstructions.1 hbase.real
  have hwell := hlawful.wellFormed_of_mem_rows hrow
  have hextends := (extends_of_base?_eq_some hbase.base?_eq).2.2.2
  obtain ⟨hescape, hlength, literal, hliteral, hopcode⟩ :=
    hwell.opcode_of_extends (hlawful.wellFormed_of_mem_rows hbaseRow) hextends
  obtain ⟨omitted, homitted, hcovers, hperm⟩ := hbase.supplied.exists_omitted
  obtain ⟨hwords, hbaseWords⟩ := hlawful.wordCount_eq_two_of_baseOf hrow hbase
  exact ⟨base, literal, omitted, {
    family := hescape
    base?_eq := hbase.base?_eq
    base_pseudo := hreal
    base_family := hbase.family_eq.symm
    base_length := hlength
    opcode_eq := hopcode
    literal_le := hliteral
    candidate := fun other hother _ hextended =>
      hwell.opcode_eq_selector_of_extends (hlawful.wellFormed other hother) hextended
    wordCount_eq := hwords
    base_wordCount := hbaseWords
    omitted?_eq := by simp [omitted?, hbase.base?_eq, homitted]
    covered := hcovers
    fewer := hbase.supplied.length_operands_lt
    operands_perm := hperm
    jump := hlawful.format_eq_jx hrow hpseudo }⟩

/-- `field` leaves out two registers and no constant. -/
theorem exists_pseudoShape_field :
    ⟨"field", .rkkExp, [14, 21, 0], true⟩ ∈ Registry.standard.table.entries
      ∧ ∃ base literal omitted,
          Registry.standard.table.PseudoShape ⟨"field", .rkkExp, [14, 21, 0], true⟩ base literal
            omitted := by
  have hentry : ⟨"field", .rkkExp, [14, 21, 0], true⟩ ∈ Registry.standard.table.entries := by
    decide +kernel
  exact ⟨hentry, exists_pseudoShape Registry.validate_standard hentry rfl⟩

end Table

end Sigma16

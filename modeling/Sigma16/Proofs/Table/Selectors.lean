import Sigma16.Proofs.Table.Pseudos

namespace Sigma16

namespace Table

/-- No two real instructions at different positions have the same selector. -/
def SelectorsDistinct (table : Table) : Prop :=
  ∀ row ∈ table.realInstructions, ∀ other ∈ table.realInstructions,
    row.entry.selector = other.entry.selector → row = other

instance (table : Table) : Decidable table.SelectorsDistinct :=
  inferInstanceAs
    (Decidable (∀ row ∈ table.realInstructions, ∀ other ∈ table.realInstructions, _))

namespace Lawful

variable {table : Table}

/-- With distinct selectors an instruction that has the selector of a real one
    is that one, or a pseudo-instruction built on it. -/
theorem eq_or_baseOf_of_selector_eq (hlawful : table.Lawful) (hselectors : table.SelectorsDistinct)
    {row other : Row} (hrow : row ∈ table.realInstructions) (hother : other ∈ table.instructions)
    (hselector : other.entry.selector = row.entry.selector) :
    other = row ∨ other.entry.pseudo = true ∧ table.BaseOf other row := by
  obtain ⟨hotherRows, hinstruction⟩ := mem_instructions.1 hother
  cases hpseudo : other.entry.pseudo with
  | false =>
    have hreal : other ∈ table.realInstructions :=
      mem_realInstructions.2 ⟨hotherRows, hinstruction, hpseudo⟩
    exact .inl (hselectors other hreal row hrow hselector)
  | true =>
    obtain ⟨base, hbase⟩ := hlawful.exists_baseOf hotherRows hpseudo
    have hsame : base = row :=
      hselectors base hbase.real row hrow (hbase.selector_eq.trans hselector)
    exact .inr ⟨rfl, hsame ▸ hbase⟩

/-- With distinct selectors the opcode of a real instruction is its own: a
    pseudo-instruction with the same fields would have another base. -/
theorem eq_of_opcode_eq_of_real (hlawful : table.Lawful) (hselectors : table.SelectorsDistinct)
    {row other : Row} (hrow : row ∈ table.realInstructions) (hother : other ∈ table.instructions)
    (hopcode : other.entry.opcode = row.entry.opcode) : other = row := by
  have hselector : other.entry.selector = row.entry.selector := by
    rw [Entry.selector, hopcode, Entry.selector]
  rcases hlawful.eq_or_baseOf_of_selector_eq hselectors hrow hother hselector with
    heq | ⟨-, hbase⟩
  · exact heq
  · obtain ⟨literal, -, hliteral⟩ := hbase.literal
    rw [← hbase.opcode_eq, hopcode] at hliteral
    have hlength := congrArg List.length hliteral
    simp at hlength

/-- With distinct selectors the opcode of an indexed instruction is its own,
    also if it is a pseudo-instruction. -/
theorem eq_of_opcode_eq_of_indexed (hlawful : table.Lawful) (hselectors : table.SelectorsDistinct)
    {row other : Row} (hrow : row ∈ table.instructions) (hfamily : row.entry.family = .indexed)
    (hother : other ∈ table.instructions) (hopcode : other.entry.opcode = row.entry.opcode) :
    other = row := by
  obtain ⟨hrowRows, hrowInstruction⟩ := mem_instructions.1 hrow
  obtain ⟨hotherRows, hotherInstruction⟩ := mem_instructions.1 hother
  cases hpseudo : row.entry.pseudo with
  | false =>
    exact hlawful.eq_of_opcode_eq_of_real hselectors
      (mem_realInstructions.2 ⟨hrowRows, hrowInstruction, hpseudo⟩) hother hopcode
  | true =>
    cases hotherPseudo : other.entry.pseudo with
    | false =>
      exact (hlawful.eq_of_opcode_eq_of_real hselectors
        (mem_realInstructions.2 ⟨hotherRows, hotherInstruction, hotherPseudo⟩) hrow
        hopcode.symm).symm
    | true =>
      -- Distinct encodings may still differ in the format alone, but here both are jumps.
      have hotherFamily : other.entry.family = .indexed := by
        apply (hlawful.wellFormed_of_mem_rows hotherRows).family_eq_indexed_of_primary?
        rw [Entry.primary?, hopcode, ← Entry.primary?]
        exact (hlawful.wellFormed_of_mem_rows hrowRows).primary?_of_indexed hfamily
      have hformat : other.entry.format = row.entry.format := by
        rw [hlawful.format_eq_jx hotherRows hotherPseudo hotherFamily,
          hlawful.format_eq_jx hrowRows hpseudo hfamily]
      exact hlawful.encodingsDistinct other hother row hrow (Prod.ext hformat hopcode)

end Lawful

end Table

end Sigma16

import Sigma16.Proofs.Table.Rows
import Sigma16.Registry

namespace Sigma16.Decoder

theorem decode?_eq_some_iff {table : Table} {word : Word} {row : Row} :
    (ofTable table).decode? word = some row ↔
      row ∈ table.realInstructions ∧ row.entry.selector = word.opcodeFields
        ∧ ∀ other ∈ table.realInstructions, other.entry.selector = word.opcodeFields →
            row.position ≤ other.position := by
  simp only [decode?_ofTable, table.ordered_realInstructions.find?_eq_some_iff, beq_iff_eq]

theorem resolve?_eq_some_iff {table : Table} {fields : List UInt8} {row : Row} :
    (ofTable table).resolve? fields = some row ↔
      row ∈ table.instructions ∧ row.entry.opcode = fields
        ∧ ∀ other ∈ table.instructions, other.entry.opcode = fields →
            row.position ≤ other.position := by
  simp only [resolve?_ofTable, table.ordered_instructions.find?_eq_some_iff, beq_iff_eq]

/-- What is preferred to the real instruction is an instruction whose literal
    the word carries, and only if the real one is indexed. -/
theorem decodeAlias?_eq_some_iff {decoder : Decoder} {word : Word} {row : Row} :
    decoder.decodeAlias? word = some row ↔
      ∃ real, decoder.decode? word = some real ∧
        (if real.entry.family = .indexed then
          (decoder.resolve? (word.opcodeFields ++ [word.d])).getD real = row
        else real = row) := by
  rw [decodeAlias?]
  cases hdecode : decoder.decode? word with
  | none => simp
  | some real =>
    by_cases hfamily : real.entry.family = .indexed
    · simp [hfamily]
    · simp [hfamily]

/-- The preferred instruction is the one whose whole opcode, literal included, the
    word carries. It is the real one if there is none such, or if the real one is
    not indexed. -/
theorem decodeAlias?_eq_some_iff_resolve? {decoder : Decoder} {word : Word} {row : Row} :
    decoder.decodeAlias? word = some row ↔
      ∃ real, decoder.decode? word = some real ∧
        ((real.entry.family = .indexed
            ∧ decoder.resolve? (word.opcodeFields ++ [word.d]) = some row)
          ∨ ((real.entry.family = .indexed →
                decoder.resolve? (word.opcodeFields ++ [word.d]) = none)
            ∧ row = real)) := by
  rw [decodeAlias?_eq_some_iff]
  refine exists_congr fun real => and_congr_right fun _ => ?_
  by_cases hfamily : real.entry.family = .indexed
  · rw [if_pos hfamily]
    cases hresolve : decoder.resolve? (word.opcodeFields ++ [word.d]) with
    | none => simp [hfamily, eq_comm]
    | some found => simp [hfamily]
  · rw [if_neg hfamily]
    simp [hfamily, eq_comm]

theorem eq_or_resolve?_of_decodeAlias? {decoder : Decoder} {word : Word} {row : Row}
    (halias : decoder.decodeAlias? word = some row) :
    ∃ real, decoder.decode? word = some real ∧
      (row = real ∨ real.entry.family = .indexed
        ∧ decoder.resolve? (word.opcodeFields ++ [word.d]) = some row) := by
  obtain ⟨real, hdecode, hresolved | ⟨-, hsame⟩⟩ := decodeAlias?_eq_some_iff_resolve?.1 halias
  · exact ⟨real, hdecode, .inr hresolved⟩
  · exact ⟨real, hdecode, .inl hsame⟩

theorem isSome_decodeAlias? (decoder : Decoder) (word : Word) :
    (decoder.decodeAlias? word).isSome = (decoder.decode? word).isSome := by
  rw [decodeAlias?]
  cases hdecode : decoder.decode? word with
  | none => rfl
  | some real => by_cases hfamily : real.entry.family = .indexed <;> simp [hfamily]

theorem mem_instructions_of_decoded {table : Table} {word : Word} {row : Row}
    (hdecoded : (ofTable table).decode? word = some row
      ∨ (ofTable table).decodeAlias? word = some row) : row ∈ table.instructions := by
  rcases hdecoded with hdecode | halias
  · exact (List.mem_filter.1 (decode?_eq_some_iff.1 hdecode).1).1
  · obtain ⟨real, hdecode, rfl | ⟨-, hresolve⟩⟩ := eq_or_resolve?_of_decodeAlias? halias
    · exact (List.mem_filter.1 (decode?_eq_some_iff.1 hdecode).1).1
    · exact (resolve?_eq_some_iff.1 hresolve).1

/-- A conditional jump of the architecture with both of its operands: its `d`
    holds the literal by which it differs from the real instruction. -/
theorem decoded_standard_jumpeq :
    (ofTable Registry.standard.table).decode? 0xf2a5
        = some ⟨26, ⟨"jumpc1", .kx, [15, 5], false⟩⟩
      ∧ (ofTable Registry.standard.table).decodeAlias? 0xf2a5
        = some ⟨55, ⟨"jumpeq", .jx, [15, 5, 2], true⟩⟩ := by
  have hdecode : (ofTable Registry.standard.table).decode? 0xf2a5
      = some ⟨26, ⟨"jumpc1", .kx, [15, 5], false⟩⟩ := by
    rw [decode?_ofTable]
    decide +kernel
  refine ⟨hdecode, decodeAlias?_eq_some_iff.2 ⟨_, hdecode, ?_⟩⟩
  rw [resolve?_ofTable]
  decide +kernel

end Sigma16.Decoder

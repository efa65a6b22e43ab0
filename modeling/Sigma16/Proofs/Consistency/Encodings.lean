import Sigma16.Consistency
import Sigma16.Proofs.Table.Rows

namespace Sigma16

/-- No clash is reported when the encodings are new and differ from each
    other. -/
theorem clashes_eq_nil_iff {seen : Std.HashMap (Format × List UInt8) String}
    {entries : List Entry} :
    clashes seen entries = [] ↔
      (∀ entry ∈ entries, entry.encoding ∉ seen) ∧ (entries.map (·.encoding)).Nodup := by
  induction entries generalizing seen with
  | nil => simp [clashes]
  | cons entry entries ih =>
    have hfirst : (seen[entry.encoding]?.map
        (Violation.duplicateEncoding · entry.mnemonic)).toList = [] ↔ entry.encoding ∉ seen := by
      simp [Option.toList_eq_nil_iff]
    rw [clashes, List.append_eq_nil_iff, hfirst, ih]
    simp only [Std.HashMap.mem_insert, beq_iff_eq, not_or, List.forall_mem_cons, List.map_cons,
      List.nodup_cons, List.mem_map, not_exists, not_and]
    constructor
    · rintro ⟨hnew, hrest, hnodup⟩
      exact ⟨⟨hnew, fun later hlater => (hrest later hlater).2⟩,
        fun later hlater heq => (hrest later hlater).1 heq.symm, hnodup⟩
    · rintro ⟨⟨hnew, hrest⟩, hdistinct, hnodup⟩
      exact ⟨hnew, fun later hlater =>
        ⟨fun heq => hdistinct later hlater heq.symm, hrest later hlater⟩, hnodup⟩

namespace Table

/-- No two instructions at different positions have the same encoding, that is,
    both the same format and the same opcode fields. -/
def EncodingsDistinct (table : Table) : Prop :=
  ∀ row ∈ table.instructions, ∀ other ∈ table.instructions,
    row.entry.encoding = other.entry.encoding → row = other

instance (table : Table) : Decidable table.EncodingsDistinct :=
  inferInstanceAs (Decidable (∀ row ∈ table.instructions, ∀ other ∈ table.instructions, _))

/-- Distinct encodings as a property of the list of entries, without positions. -/
theorem encodingsDistinct_iff_nodup {table : Table} :
    table.EncodingsDistinct ↔
      ((table.entries.filter (·.isInstruction)).map (·.encoding)).Nodup := by
  rw [← map_entry_instructions, List.map_map,
    List.nodup_map_iff_inj_on table.ordered_instructions.nodup]
  rfl

theorem duplicateViolations_eq_nil_iff {table : Table} :
    table.duplicateViolations = [] ↔ table.EncodingsDistinct := by
  rw [duplicateViolations, clashes_eq_nil_iff, encodingsDistinct_iff_nodup]
  exact and_iff_right fun entry _ => Std.HashMap.not_mem_empty

end Table

end Sigma16

import Sigma16.Proofs.Consistency.Bases
import Sigma16.Proofs.Consistency.Encodings
import Sigma16.Proofs.Consistency.Indices
import Sigma16.Proofs.Consistency.WellFormed
import Sigma16.Registry

namespace Sigma16

/-- The laws of a table of mnemonics, each said without the check for it. -/
structure Table.Lawful (table : Table) : Prop where
  encodingsDistinct : table.EncodingsDistinct
  wellFormed : ∀ entry ∈ table.entries, entry.WellFormed
  pseudosSupplied : table.PseudosSupplied

theorem Table.violations_eq_nil_iff_lawful {table : Table} :
    table.violations = [] ↔ table.Lawful := by
  simp only [violations, List.append_eq_nil_iff, duplicateViolations_eq_nil_iff,
    List.flatMap_eq_nil_iff, Entry.violations_eq_nil_iff_wellFormed, pseudoViolations_eq_nil_iff]
  constructor
  · rintro ⟨⟨hencodings, hentries⟩, hpseudos⟩
    exact ⟨hencodings, hentries, hpseudos⟩
  · rintro ⟨hencodings, hentries, hpseudos⟩
    exact ⟨⟨hencodings, hentries⟩, hpseudos⟩

namespace Registry

/-- A registry is accepted when its table is lawful and its control registers
    leave no gap. The flags are the same everywhere and add nothing. -/
theorem validate_eq_ok_iff_lawful {registry : Registry} :
    registry.validate = .ok () ↔ registry.table.Lawful ∧ registry.registers.Gapless := by
  rw [validate_eq_ok_iff, violations, flagViolations_eq_nil, List.append_nil,
    List.append_eq_nil_iff, Table.violations_eq_nil_iff_lawful,
    ControlRegisters.violations_eq_nil_iff_gapless]

theorem lawful_of_validate_eq_ok {registry : Registry} (hvalid : registry.validate = .ok ()) :
    registry.table.Lawful :=
  (validate_eq_ok_iff_lawful.1 hvalid).1

/-- The registry of the architecture keeps its own laws. -/
theorem validate_standard : standard.validate = .ok () := by
  rw [validate_eq_ok_iff_lawful]
  exact ⟨⟨by decide +kernel, by decide +kernel, by decide +kernel⟩, by decide +kernel⟩

/-- The verdict on any list of entries with any history of control registers,
    law by law: no two instructions share format and fields, the fields of every
    entry go with its format, every pseudo-instruction is supplied from the first
    real entry that it extends, and the indices of the control registers are those
    below their number. -/
theorem validate_ofEntries_eq_ok_iff (entries : List Entry) (pairs : List ControlRegister) :
    validate ⟨.ofEntries entries, .ofList pairs⟩ = .ok () ↔
      (Table.ofEntries entries).EncodingsDistinct
        ∧ (∀ entry ∈ entries, entry.WellFormed)
        ∧ (∀ entry ∈ entries, entry.pseudo = true →
            ∃ base, (Table.ofEntries entries).FirstBase entry base ∧ entry.Supplied base.entry)
        ∧ (ControlRegisters.ofList pairs).Gapless := by
  rw [validate_eq_ok_iff_lawful]
  constructor
  · rintro ⟨⟨hencodings, hentries, hpseudos⟩, hgapless⟩
    exact ⟨hencodings, hentries, hpseudos, hgapless⟩
  · rintro ⟨hencodings, hentries, hpseudos, hgapless⟩
    exact ⟨⟨hencodings, hentries, hpseudos⟩, hgapless⟩

/-- The laws of the table alone do not decide the verdict: without any entry at
    all, one control register with the index 1 is refused. -/
theorem validate_not_iff_table_lawful :
    ¬ (validate ⟨.ofEntries [], .ofList [⟨"timer", 1⟩]⟩ = .ok () ↔ (Table.ofEntries []).Lawful) := by
  rw [validate_eq_ok_iff_lawful]
  intro hiff
  have hlawful : (Table.ofEntries []).Lawful := ⟨by decide, by decide, by decide⟩
  have hgapless : (ControlRegisters.ofList [⟨"timer", 1⟩]).Gapless := (hiff.2 hlawful).2
  revert hgapless
  decide

end Registry

end Sigma16

import Sigma16.Proofs.Decoder.Lookup
import Sigma16.Proofs.Table.Mnemonics

namespace Sigma16.Decoder

/-- The mnemonic of a decoded instruction leads to the first entry that has it.
    In an accepted registry that is the decoded one unless an earlier entry
    shadows it, and then the two are different operations. Where no mnemonic is
    repeated, every decoded instruction is found again. -/
theorem lookup?_mnemonic_of_decoded {registry : Registry} (hvalid : registry.validate = .ok ()) :
    (∀ (word : Word) (row : Row),
        ((ofTable registry.table).decode? word = some row
          ∨ (ofTable registry.table).decodeAlias? word = some row) →
        ∃ first, registry.table.lookup? row.entry.mnemonic = some first
          ∧ registry.table.FirstNamed row.entry.mnemonic first
          ∧ (first = row ↔ ¬ registry.table.Shadowed row)
          ∧ (first ≠ row → first.entry.format ≠ row.entry.format
              ∨ first.entry.opcode ≠ row.entry.opcode))
      ∧ ((registry.table.entries.map (·.mnemonic)).Nodup →
          ∀ (word : Word) (row : Row),
            ((ofTable registry.table).decode? word = some row
              ∨ (ofTable registry.table).decodeAlias? word = some row) →
            registry.table.lookup? row.entry.mnemonic = some row) := by
  have hlawful := Registry.lawful_of_validate_eq_ok hvalid
  constructor
  · intro word row hdecoded
    have hrow := mem_instructions_of_decoded hdecoded
    have hmem : row ∈ registry.table.rows := (Table.mem_instructions.1 hrow).1
    obtain ⟨first, hlookup⟩ := Table.exists_lookup?_mnemonic hmem
    have hfirst := Table.lookup?_eq_some_iff_firstNamed.1 hlookup
    refine ⟨first, hlookup, hfirst, hfirst.eq_iff_not_shadowed hmem, ?_⟩
    intro hne
    by_contra hsame
    obtain ⟨hformat, hopcode⟩ := not_or.1 hsame
    exact hne (hlawful.eq_of_encoding_eq hrow hfirst.1
      (Prod.ext (not_not.1 hformat) (not_not.1 hopcode)))
  · intro hnodup word row hdecoded
    have hmem : row ∈ registry.table.rows :=
      (Table.mem_instructions.1 (mem_instructions_of_decoded hdecoded)).1
    apply (Table.lookup?_mnemonic_eq_some_iff_not_shadowed hmem).2
    exact Table.not_shadowed_of_nodup hnodup hmem

/-- No mnemonic of the architecture is repeated, so that a conditional jump is
    found again by the name that its literal gives it. -/
theorem lookup?_mnemonic_of_jumpeq :
    (ofTable Registry.standard.table).decodeAlias? 0xf2a5
        = some ⟨55, ⟨"jumpeq", .jx, [15, 5, 2], true⟩⟩
      ∧ Registry.standard.table.lookup? "jumpeq"
        = some ⟨55, ⟨"jumpeq", .jx, [15, 5, 2], true⟩⟩ := by
  have halias := decoded_standard_jumpeq.2
  have hnodup : (Registry.standard.table.entries.map (·.mnemonic)).Nodup := by decide +kernel
  exact ⟨halias, (lookup?_mnemonic_of_decoded Registry.validate_standard).2 hnodup _ _ (.inr halias)⟩

/-- A registry is accepted in which a mnemonic is repeated. The second entry is
    decoded, but its mnemonic leads to the first, which has another opcode. -/
theorem lookup?_mnemonic_of_repeated :
    Registry.validate
        ⟨.ofEntries [⟨"add", .rrr, [0], false⟩, ⟨"add", .rrr, [1], false⟩], .ofList []⟩ = .ok ()
      ∧ (ofTable (.ofEntries [⟨"add", .rrr, [0], false⟩, ⟨"add", .rrr, [1], false⟩])).decode? 0x1000
          = some ⟨1, ⟨"add", .rrr, [1], false⟩⟩
      ∧ Table.lookup? (.ofEntries [⟨"add", .rrr, [0], false⟩, ⟨"add", .rrr, [1], false⟩]) "add"
          = some ⟨0, ⟨"add", .rrr, [0], false⟩⟩ := by
  refine ⟨?_, ?_, ?_⟩
  · rw [Registry.validate_eq_ok_iff_lawful]
    exact ⟨⟨by decide, by decide, by decide⟩, by decide⟩
  · rw [decode?_ofTable]
    decide
  · rw [Table.lookup?_eq_find?]
    decide

end Sigma16.Decoder

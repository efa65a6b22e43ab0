import Sigma16.Proofs.Consistency.Verdict

namespace Sigma16.Table

/-- A row is the first one of a table that has a given mnemonic. -/
def FirstNamed (table : Table) (mnemonic : String) (row : Row) : Prop :=
  table.First (·.mnemonic = mnemonic) row

theorem lookup?_eq_some_iff_firstNamed {table : Table} {mnemonic : String} {row : Row} :
    table.lookup? mnemonic = some row ↔ table.FirstNamed mnemonic row := by
  rw [lookup?_eq_find?, @find?_rows_eq_some_iff_first table (·.mnemonic == mnemonic) row, FirstNamed]
  simp only [beq_iff_eq]

theorem exists_lookup?_mnemonic {table : Table} {row : Row} (hrow : row ∈ table.rows) :
    ∃ first, table.lookup? row.entry.mnemonic = some first := by
  rw [← Option.isSome_iff_exists, lookup?_eq_find?, List.find?_isSome]
  exact ⟨row, hrow, beq_self_eq_true _⟩

/-- An entry cannot be found by its mnemonic when one before it has the same. -/
def Shadowed (table : Table) (row : Row) : Prop :=
  ∃ other ∈ table.rows, other.position < row.position
    ∧ other.entry.mnemonic = row.entry.mnemonic

theorem FirstNamed.eq_iff_not_shadowed {table : Table} {first row : Row}
    (hfirst : table.FirstNamed row.entry.mnemonic first) (hrow : row ∈ table.rows) :
    first = row ↔ ¬ table.Shadowed row := by
  obtain ⟨hmem, hnamed, hleast⟩ := hfirst
  constructor
  · rintro rfl ⟨other, hother, hbefore, hmnemonic⟩
    have hle := hleast other hother hmnemonic
    omega
  · intro hnot
    have hle := hleast row hrow rfl
    apply table.ordered_rows.eq_of_position_eq hmem hrow
    by_contra hne
    exact hnot ⟨first, hmem, by omega, hnamed⟩

theorem lookup?_mnemonic_eq_some_iff_not_shadowed {table : Table} {row : Row}
    (hrow : row ∈ table.rows) :
    table.lookup? row.entry.mnemonic = some row ↔ ¬ table.Shadowed row := by
  obtain ⟨first, hlookup⟩ := exists_lookup?_mnemonic hrow
  have hfirst := lookup?_eq_some_iff_firstNamed.1 hlookup
  rw [hlookup, Option.some.injEq, hfirst.eq_iff_not_shadowed hrow]

theorem not_shadowed_of_nodup {table : Table}
    (hnodup : (table.entries.map (·.mnemonic)).Nodup) {row : Row} (hrow : row ∈ table.rows) :
    ¬ table.Shadowed row := by
  rintro ⟨other, hother, hbefore, hmnemonic⟩
  rw [← table.map_entry_rows, List.map_map] at hnodup
  have hsame : other = row := List.inj_on_of_nodup_map hnodup hother hrow hmnemonic
  rw [hsame] at hbefore
  exact Nat.lt_irrefl _ hbefore

/-- In a lawful table an instruction is told apart by its encoding from every
    other row, be that an instruction or not. -/
theorem Lawful.eq_of_encoding_eq {table : Table} (hlawful : table.Lawful) {row other : Row}
    (hrow : row ∈ table.instructions) (hother : other ∈ table.rows)
    (hencoding : other.entry.encoding = row.entry.encoding) : other = row := by
  have hformat : other.entry.format = row.entry.format := congrArg Prod.fst hencoding
  have hinstruction : other.entry.isInstruction = true := by
    rw [Entry.isInstruction, hformat]
    exact (mem_instructions.1 hrow).2
  exact hlawful.encodingsDistinct other (mem_instructions.2 ⟨hother, hinstruction⟩) row hrow
    hencoding

end Sigma16.Table

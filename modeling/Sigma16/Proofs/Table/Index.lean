import Sigma16.Proofs.Table.Mnemonics

namespace Sigma16.Table

theorem mem_rows_ofEntries {entries : List Entry} {row : Row} :
    row ∈ (ofEntries entries).rows ↔ entries[row.position]? = some row.entry :=
  mem_rows

theorem lookup?_eq_none_iff {table : Table} {mnemonic : String} :
    table.lookup? mnemonic = none ↔ ∀ entry ∈ table.entries, entry.mnemonic ≠ mnemonic := by
  rw [lookup?_eq_find?, List.find?_eq_none, ← forall_mem_rows_iff]
  simp only [beq_iff_eq, ne_eq]

/-- Every row in the index of a table stands in the table at its own position,
    under its own mnemonic. -/
theorem mem_rows_of_index_eq_some {table : Table} {mnemonic : String} {row : Row}
    (hindex : table.index[mnemonic]? = some row) :
    row ∈ table.rows ∧ row.entry.mnemonic = mnemonic := by
  have hfirst := lookup?_eq_some_iff_firstNamed.1 hindex
  exact ⟨hfirst.1, hfirst.2.1⟩

theorem nodup_of_forall_not_shadowed {table : Table}
    (hvisible : ∀ row ∈ table.rows, ¬ table.Shadowed row) :
    (table.entries.map (·.mnemonic)).Nodup := by
  rw [← table.map_entry_rows, List.map_map, List.Nodup, List.pairwise_map]
  refine table.ordered_rows.imp_of_mem ?_
  intro row later hrow hlater hbefore hmnemonic
  exact hvisible later hlater ⟨row, hrow, hbefore, hmnemonic⟩

/-- Each entry is found by its mnemonic exactly if no mnemonic is repeated. -/
theorem forall_lookup?_mnemonic_iff_nodup {table : Table} :
    (∀ row ∈ table.rows, table.lookup? row.entry.mnemonic = some row) ↔
      (table.entries.map (·.mnemonic)).Nodup := by
  constructor
  · intro hfound
    apply nodup_of_forall_not_shadowed
    intro row hrow
    exact (lookup?_mnemonic_eq_some_iff_not_shadowed hrow).1 (hfound row hrow)
  · intro hnodup row hrow
    exact (lookup?_mnemonic_eq_some_iff_not_shadowed hrow).2 (not_shadowed_of_nodup hnodup hrow)

/-- A table that answers for its mnemonics as if it read through a list of
    entries from the front each time it is asked. -/
structure ReadsFirst (table : Table) (entries : List Entry) : Prop where
  entries_eq : table.entries = entries
  /-- What is found stands in the list at the least position with the mnemonic. -/
  lookup : ∀ (mnemonic : String) (row : Row), table.lookup? mnemonic = some row ↔
    entries[row.position]? = some row.entry ∧ row.entry.mnemonic = mnemonic
      ∧ ∀ position entry, entries[position]? = some entry → entry.mnemonic = mnemonic →
          row.position ≤ position
  lookup_none : ∀ mnemonic,
    table.lookup? mnemonic = none ↔ ∀ entry ∈ entries, entry.mnemonic ≠ mnemonic
  contains : ∀ mnemonic, table.contains mnemonic = (table.lookup? mnemonic).isSome
  /-- No position in the index lies outside of the list. -/
  index : ∀ (mnemonic : String) (row : Row), table.index[mnemonic]? = some row →
    ∃ hbound : row.position < entries.length, entries[row.position] = row.entry
  distinct : (∀ position, ∀ hbound : position < entries.length,
      table.lookup? entries[position].mnemonic = some ⟨position, entries[position]⟩) ↔
    (entries.map (·.mnemonic)).Nodup

/-- Whatever names a list of entries has, repeated, empty or alike but for the
    case of a letter, the table made of it finds the first entry of each name and
    no other. -/
theorem readsFirst_ofEntries (entries : List Entry) : (ofEntries entries).ReadsFirst entries where
  entries_eq := rfl
  lookup mnemonic row := by
    rw [lookup?_eq_some_iff_firstNamed, FirstNamed, First, mem_rows_ofEntries]
    refine and_congr_right fun _ => and_congr_right fun _ => ?_
    constructor
    · intro hleast position entry hentry
      exact hleast ⟨position, entry⟩ (mem_rows_ofEntries.2 hentry)
    · intro hleast other hother
      exact hleast other.position other.entry (mem_rows_ofEntries.1 hother)
  lookup_none mnemonic := lookup?_eq_none_iff
  contains := contains_eq_isSome_lookup? _
  index mnemonic row hindex := by
    have hrow := (mem_rows_of_index_eq_some hindex).1
    exact List.getElem?_eq_some_iff.1 (mem_rows_ofEntries.1 hrow)
  distinct := by
    rw [← entries_ofEntries entries, ← forall_lookup?_mnemonic_iff_nodup, entries_ofEntries]
    constructor
    · intro hfound row hrow
      obtain ⟨hbound, hentry⟩ := List.getElem?_eq_some_iff.1 (mem_rows_ofEntries.1 hrow)
      have hlookup := hfound row.position hbound
      rwa [hentry] at hlookup
    · intro hfound position hbound
      exact hfound ⟨position, entries[position]⟩
        (mem_rows_ofEntries.2 (List.getElem?_eq_getElem hbound))

example : (ofEntries [⟨"add", .rrr, [0], false⟩, ⟨"", .empty, [], false⟩, ⟨"add", .rrr, [1], false⟩,
    ⟨"Add", .rrr, [2], false⟩]).lookup? "Add" = some ⟨3, ⟨"Add", .rrr, [2], false⟩⟩ := by
  rw [lookup?_eq_find?]
  decide

end Sigma16.Table

import Sigma16.Entry
import Sigma16.FirstByKey

namespace Sigma16

/-- An entry together with its position in a table, so that equal entries at
    different positions stay apart. -/
structure Row where
  /-- The number of entries before this one. -/
  position : Nat
  entry : Entry
  deriving DecidableEq, Repr

namespace Row

def ofEntries (entries : List Entry) : List Row :=
  entries.mapIdx mk

theorem mem_ofEntries {entries : List Entry} {row : Row} :
    row ∈ ofEntries entries ↔ entries[row.position]? = some row.entry := by
  simp only [ofEntries, List.mem_mapIdx, List.getElem?_eq_some_iff]
  constructor
  · rintro ⟨position, hposition, rfl⟩
    exact ⟨hposition, rfl⟩
  · rintro ⟨hposition, hentry⟩
    exact ⟨row.position, hposition, by rw [hentry]⟩

end Row

/-- A table of mnemonics: entries in the order of their declaration, and an
    index from each mnemonic to its first entry. Nothing here restricts the
    entries; which tables are consistent is a question of its own. -/
structure Table where
  /-- The entries in the order of their declaration. -/
  entries : List Entry
  /-- The first row of every mnemonic. -/
  index : Std.HashMap String Row
  index_eq : index = firstByKey (·.entry.mnemonic) (Row.ofEntries entries)

namespace Table

def ofEntries (entries : List Entry) : Table where
  entries := entries
  index := firstByKey (·.entry.mnemonic) (Row.ofEntries entries)
  index_eq := rfl

/-- The rows of a table in the order of their declaration. -/
def rows (table : Table) : List Row :=
  Row.ofEntries table.entries

def size (table : Table) : Nat :=
  table.entries.length

def isEmpty (table : Table) : Bool :=
  table.entries.isEmpty

/-- The first row whose mnemonic is the given one. Mnemonics are compared
    exactly. -/
def lookup? (table : Table) (mnemonic : String) : Option Row :=
  table.index[mnemonic]?

def contains (table : Table) (mnemonic : String) : Bool :=
  table.index.contains mnemonic

/-- The rows whose entries belong to a family, in the order of declaration. -/
def inFamily (table : Table) (family : Family) : List Row :=
  table.rows.filter (·.entry.family = family)

@[simp]
theorem entries_ofEntries (entries : List Entry) : (ofEntries entries).entries = entries :=
  rfl

/-- A row of a table pairs a position with the entry that stands there. -/
theorem mem_rows {table : Table} {row : Row} :
    row ∈ table.rows ↔ table.entries[row.position]? = some row.entry :=
  Row.mem_ofEntries

/-- Lookup scans the entries for the first one with the mnemonic. -/
theorem lookup?_eq_find? (table : Table) (mnemonic : String) :
    table.lookup? mnemonic = table.rows.find? (·.entry.mnemonic == mnemonic) := by
  rw [lookup?, table.index_eq, getElem?_firstByKey, rows]

theorem contains_eq_isSome_lookup? (table : Table) (mnemonic : String) :
    table.contains mnemonic = (table.lookup? mnemonic).isSome := by
  rw [contains, lookup?, Std.HashMap.isSome_getElem?_eq_contains]

end Table

end Sigma16

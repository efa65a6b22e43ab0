import Sigma16.Decoder
import Sigma16.DistinctKeys
import Mathlib.Data.List.Nodup

namespace Sigma16

/-- Rows that stand in the order of their positions, each position once. -/
def Row.Ordered (rows : List Row) : Prop :=
  rows.Pairwise fun row later => row.position < later.position

namespace Row.Ordered

theorem filter {rows : List Row} (hrows : Ordered rows) (p : Row → Bool) :
    Ordered (rows.filter p) :=
  List.Pairwise.filter p hrows

theorem nodup {rows : List Row} (hrows : Ordered rows) : rows.Nodup :=
  List.Pairwise.imp (fun hlt heq => Nat.ne_of_lt hlt (congrArg Row.position heq)) hrows

theorem eq_of_position_eq {rows : List Row} (hrows : Ordered rows) {row other : Row}
    (hrow : row ∈ rows) (hother : other ∈ rows) (hposition : row.position = other.position) :
    row = other :=
  eq_of_key_eq (hrows.imp Nat.ne_of_lt) hrow hother hposition

theorem position_le_of_find?_eq_some {rows : List Row} (hrows : Ordered rows) {p : Row → Bool}
    {found other : Row} (hfind : rows.find? p = some found) (hother : other ∈ rows)
    (hp : p other) : found.position ≤ other.position := by
  obtain ⟨_, before, after, rfl, hbefore⟩ := List.find?_eq_some_iff_append.1 hfind
  have htail : Ordered (found :: after) := (List.pairwise_append.1 hrows).2.1
  rcases List.mem_append.1 hother with hin | hin
  · exact absurd hp (by simpa using hbefore other hin)
  · rcases List.mem_cons.1 hin with rfl | hlater
    · exact Nat.le_refl _
    · exact Nat.le_of_lt ((List.pairwise_cons.1 htail).1 other hlater)

/-- A scan of ordered rows gives the one with the least position among those
    that meet the condition. -/
theorem find?_eq_some_iff {rows : List Row} (hrows : Ordered rows) {p : Row → Bool} {row : Row} :
    rows.find? p = some row ↔
      row ∈ rows ∧ p row ∧ ∀ other ∈ rows, p other → row.position ≤ other.position := by
  constructor
  · intro hfind
    exact ⟨List.mem_of_find?_eq_some hfind, List.find?_some hfind,
      fun other hother hp => hrows.position_le_of_find?_eq_some hfind hother hp⟩
  · rintro ⟨hrow, hp, hleast⟩
    cases hfind : rows.find? p with
    | none => exact absurd hp (List.find?_eq_none.1 hfind row hrow)
    | some found =>
      have hfound := List.mem_of_find?_eq_some hfind
      have hle := hleast found hfound (List.find?_some hfind)
      have hge := hrows.position_le_of_find?_eq_some hfind hrow hp
      rw [hrows.eq_of_position_eq hfound hrow (Nat.le_antisymm hge hle)]

theorem front {before after : List Row} (hrows : Ordered (before ++ after)) : Ordered before :=
  (List.pairwise_append.1 hrows).1

/-- The rows before one of ordered rows are those with lower positions. -/
theorem mem_front_iff {before after : List Row} {row other : Row}
    (hrows : Ordered (before ++ row :: after)) :
    other ∈ before ↔ other ∈ before ++ row :: after ∧ other.position < row.position := by
  obtain ⟨-, htail, hcross⟩ := List.pairwise_append.1 hrows
  constructor
  · intro hother
    exact ⟨List.mem_append_left _ hother, hcross other hother row List.mem_cons_self⟩
  · rintro ⟨hother, hlower⟩
    rcases List.mem_append.1 hother with hin | hin
    · exact hin
    · rcases List.mem_cons.1 hin with rfl | hlater
      · exact absurd hlower (Nat.lt_irrefl _)
      · exact absurd hlower (Nat.lt_asymm ((List.pairwise_cons.1 htail).1 other hlater))

end Row.Ordered

namespace Table

theorem ordered_rows (table : Table) : Row.Ordered table.rows := by
  refine List.pairwise_iff_getElem.2 ?_
  intro i j hi hj hij
  simpa [rows, Row.ofEntries] using hij

theorem ordered_instructions (table : Table) : Row.Ordered table.instructions :=
  table.ordered_rows.filter _

theorem ordered_realInstructions (table : Table) : Row.Ordered table.realInstructions :=
  table.ordered_instructions.filter _

/-- A row is the first one of a table whose entry meets a condition. -/
def First (table : Table) (p : Entry → Prop) (row : Row) : Prop :=
  row ∈ table.rows ∧ p row.entry ∧ ∀ other ∈ table.rows, p other.entry → row.position ≤ other.position

/-- A scan of a table gives the first row whose entry meets the condition. -/
theorem find?_rows_eq_some_iff_first {table : Table} {p : Entry → Bool} {row : Row} :
    table.rows.find? (p ·.entry) = some row ↔ table.First (p · = true) row :=
  table.ordered_rows.find?_eq_some_iff

theorem map_entry_rows (table : Table) : table.rows.map (·.entry) = table.entries := by
  apply List.ext_getElem
  · simp [rows, Row.ofEntries]
  · intro i hi hj
    simp [rows, Row.ofEntries]

theorem map_entry_instructions (table : Table) :
    table.instructions.map (·.entry) = table.entries.filter (·.isInstruction) := by
  rw [← map_entry_rows, List.filter_map, instructions]
  rfl

theorem forall_mem_rows_iff {table : Table} {p : Entry → Prop} :
    (∀ row ∈ table.rows, p row.entry) ↔ ∀ entry ∈ table.entries, p entry := by
  rw [← map_entry_rows, List.forall_mem_map]

theorem entry_mem_of_mem_rows {table : Table} {row : Row} (hrow : row ∈ table.rows) :
    row.entry ∈ table.entries := by
  rw [← map_entry_rows]
  exact List.mem_map_of_mem hrow

theorem mem_instructions {table : Table} {row : Row} :
    row ∈ table.instructions ↔ row ∈ table.rows ∧ row.entry.isInstruction = true :=
  List.mem_filter

theorem mem_realInstructions {table : Table} {row : Row} :
    row ∈ table.realInstructions ↔
      row ∈ table.rows ∧ row.entry.isInstruction = true ∧ row.entry.pseudo = false := by
  rw [realInstructions, List.mem_filter, mem_instructions, and_assoc, Bool.not_eq_true']

end Table

end Sigma16

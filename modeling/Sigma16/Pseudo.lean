import Sigma16.Table

namespace Sigma16.Table

/-- The real instruction on which a pseudo-instruction is built: the first one
    in the table that the entry extends. The entry need not be in the table.
    What is no pseudo-instruction has no base. -/
def base? (table : Table) (entry : Entry) : Option Row :=
  if entry.pseudo then
    table.rows.find? fun row => !row.entry.pseudo && entry.Extends row.entry
  else none

/-- The operands of its base that a pseudo-instruction is written without, in
    the order of the base. Its literal supplies the constant among them, or a
    register if no constant is left out; any other omitted register is `R0`.
    There is no answer without a base, nor for an entry with an operand that
    its base lacks. -/
def omitted? (table : Table) (entry : Entry) : Option (List Operand) := do
  let base ← table.base? entry
  Operand.difference? base.entry.format.operands entry.format.operands

/-- The base of an entry is a real instruction of the table that the entry, a
    pseudo-instruction, extends. -/
theorem extends_of_base?_eq_some {table : Table} {entry : Entry} {base : Row}
    (hbase : table.base? entry = some base) :
    entry.pseudo ∧ base ∈ table.rows ∧ base.entry.pseudo = false ∧ entry.Extends base.entry := by
  unfold base? at hbase
  split at hbase
  next hpseudo =>
    have hfound := List.find?_some hbase
    simp only [Bool.and_eq_true, Bool.not_eq_true', decide_eq_true_eq] at hfound
    exact ⟨hpseudo, List.mem_of_find?_eq_some hbase, hfound⟩
  next => cases hbase

/-- What is no pseudo-instruction has no base. -/
theorem base?_eq_none_of_not_pseudo (table : Table) {entry : Entry}
    (hentry : entry.pseudo = false) : table.base? entry = none := by
  simp [base?, hentry]

end Sigma16.Table

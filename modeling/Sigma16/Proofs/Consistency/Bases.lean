import Sigma16.Consistency
import Sigma16.Proofs.Operand.Difference
import Sigma16.Proofs.Table.Rows

namespace Sigma16

/-- A pseudo-instruction is written with operands of its base, each at most as
    often, and one literal can supply the others. -/
def Entry.Supplied (entry base : Entry) : Prop :=
  (entry.format.operands : Multiset Operand) ≤ base.format.operands
    ∧ Operand.Coverable (base.format.operands - entry.format.operands)

namespace Table

/-- A row is the first real one of a table that an entry extends. -/
def FirstBase (table : Table) (entry : Entry) (base : Row) : Prop :=
  table.First (fun other => other.pseudo = false ∧ entry.Extends other) base

theorem base?_eq_some_iff {table : Table} {entry : Entry} {base : Row} :
    table.base? entry = some base ↔ entry.pseudo = true ∧ table.FirstBase entry base := by
  cases hpseudo : entry.pseudo with
  | false => simp [base?_eq_none_of_not_pseudo table hpseudo]
  | true =>
    rw [base?, if_pos hpseudo, FirstBase, and_iff_right rfl,
      @find?_rows_eq_some_iff_first table (fun other => !other.pseudo && entry.Extends other) base]
    simp only [Bool.and_eq_true, Bool.not_eq_true', decide_eq_true_eq]

theorem base?_eq_none_iff {table : Table} {entry : Entry} (hpseudo : entry.pseudo = true) :
    table.base? entry = none ↔
      ∀ other ∈ table.entries, other.pseudo = false → ¬ entry.Extends other := by
  rw [base?, if_pos hpseudo, List.find?_eq_none, ← forall_mem_rows_iff]
  simp

/-- The checks of a pseudo-instruction are sound and complete: it passes them
    when it has a base and its literal supplies what it leaves out of the first
    one. -/
theorem baseViolations_eq_nil_iff {table : Table} {entry : Entry} (hpseudo : entry.pseudo = true) :
    table.baseViolations entry = [] ↔
      ∃ base, table.FirstBase entry base ∧ entry.Supplied base.entry := by
  unfold baseViolations
  cases hbase : table.base? entry with
  | none =>
    have hnone : ¬ ∃ base, table.FirstBase entry base ∧ entry.Supplied base.entry := by
      rintro ⟨base, hfirst, _⟩
      rw [base?_eq_some_iff.2 ⟨hpseudo, hfirst⟩] at hbase
      cases hbase
    simp [hnone]
  | some base =>
    have hfirst := (base?_eq_some_iff.1 hbase).2
    have homitted : table.omitted? entry =
        Operand.difference? base.entry.format.operands entry.format.operands := by
      simp [omitted?, hbase]
    have hcovers : Operand.literalCovers ((table.omitted? entry).getD []) = true ↔
        entry.Supplied base.entry := by
      rw [homitted, Operand.literalCovers_difference?_iff, Entry.Supplied]
    have hunique : (∃ other, table.FirstBase entry other ∧ entry.Supplied other.entry) ↔
        entry.Supplied base.entry := by
      constructor
      · rintro ⟨other, hother, hsupplied⟩
        rw [base?_eq_some_iff.2 ⟨hpseudo, hother⟩, Option.some.injEq] at hbase
        exact hbase ▸ hsupplied
      · intro hsupplied
        exact ⟨base, hfirst, hsupplied⟩
    rw [hunique, ← hcovers]
    simp

/-- Every pseudo-instruction of a table has a base from which its literal
    supplies what it leaves out. -/
def PseudosSupplied (table : Table) : Prop :=
  ∀ entry ∈ table.entries, entry.pseudo = true →
    ∃ base, table.FirstBase entry base ∧ entry.Supplied base.entry

theorem pseudoViolations_eq_nil_iff {table : Table} :
    table.pseudoViolations = [] ↔ table.PseudosSupplied := by
  rw [pseudoViolations, List.flatMap_eq_nil_iff]
  constructor
  · intro hnone entry hentry hpseudo
    exact (baseViolations_eq_nil_iff hpseudo).1
      (hnone entry (List.mem_filter.2 ⟨hentry, hpseudo⟩))
  · intro hsupplied entry hfiltered
    obtain ⟨hentry, hpseudo⟩ := List.mem_filter.1 hfiltered
    exact (baseViolations_eq_nil_iff hpseudo).2 (hsupplied entry hentry hpseudo)

instance (table : Table) : Decidable table.PseudosSupplied :=
  decidable_of_iff (table.pseudoViolations = []) pseudoViolations_eq_nil_iff

end Table

end Sigma16

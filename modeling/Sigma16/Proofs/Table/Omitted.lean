import Sigma16.Proofs.Consistency.Bases

namespace Sigma16.Table

open Operand (LeftOver difference?)

variable {table : Table} {entry : Entry}

theorem omitted?_eq_some_iff_difference? {omitted : List Operand} :
    table.omitted? entry = some omitted ↔
      entry.pseudo = true ∧ ∃ base, table.FirstBase entry base
        ∧ difference? base.entry.format.operands entry.format.operands = some omitted := by
  rw [omitted?, Option.bind_eq_bind, Option.bind_eq_some_iff]
  simp only [base?_eq_some_iff, and_assoc, exists_and_left]

theorem omitted?_eq_some_iff_leftOver {omitted : List Operand} :
    table.omitted? entry = some omitted ↔
      entry.pseudo = true ∧ ∃ base, table.FirstBase entry base
        ∧ LeftOver base.entry.format.operands entry.format.operands omitted := by
  simp only [omitted?_eq_some_iff_difference?, Operand.difference?_eq_some_iff_leftOver]

/-- There are three ways in which an entry can have no answer, and none of them
    is that it leaves out nothing. -/
theorem isSome_omitted?_iff :
    (table.omitted? entry).isSome = true ↔
      entry.pseudo = true ∧ ∃ base, table.FirstBase entry base
        ∧ ∀ operand,
          entry.format.operands.count operand ≤ base.entry.format.operands.count operand := by
  simp only [Option.isSome_iff_exists, omitted?_eq_some_iff_difference?,
    ← Operand.isSome_difference?_iff_forall_count_le]
  constructor
  · rintro ⟨omitted, hpseudo, base, hfirst, homitted⟩
    exact ⟨hpseudo, base, hfirst, omitted, homitted⟩
  · rintro ⟨hpseudo, base, hfirst, omitted, homitted⟩
    exact ⟨omitted, hpseudo, base, hfirst, homitted⟩

/-- What an entry leaves out, be it in the table or not, is what is left over of
    the operands of its first base. There is an answer for every
    pseudo-instruction that has a base with all of its operands, in their
    numbers. The matching itself is the same for any two lists of operands, even
    if no format has them. -/
theorem omitted?_exact (table : Table) (entry : Entry) :
    ((table.omitted? entry).isSome = true ↔
        entry.pseudo = true ∧ ∃ base, table.FirstBase entry base
          ∧ ∀ operand,
            entry.format.operands.count operand ≤ base.entry.format.operands.count operand)
      ∧ (∀ omitted, table.omitted? entry = some omitted ↔
          entry.pseudo = true ∧ ∃ base, table.FirstBase entry base
            ∧ LeftOver base.entry.format.operands entry.format.operands omitted)
      ∧ ∀ full written,
          ((difference? full written).isSome = true ↔
              ∀ operand, written.count operand ≤ full.count operand)
            ∧ ∀ omitted, difference? full written = some omitted ↔ LeftOver full written omitted :=
  ⟨isSome_omitted?_iff, fun _ => omitted?_eq_some_iff_leftOver, fun _ _ =>
    ⟨Operand.isSome_difference?_iff_forall_count_le, fun _ =>
      Operand.difference?_eq_some_iff_leftOver⟩⟩

end Sigma16.Table

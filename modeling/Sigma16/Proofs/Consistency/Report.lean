import Sigma16.Proofs.Consistency.Indices
import Sigma16.Registry

namespace Sigma16

namespace Violation

/-- What is wrong in a violation, without the rows that it names. -/
inductive Kind where
  | duplicateEncoding
  | escapePartition
  | orphanPseudo
  | operandShape
  | fieldCount
  | fieldWidth
  | expandedWidth
  | bitIndex
  | controlRegister
  deriving DecidableEq

def kind : Violation → Kind
  | duplicateEncoding .. => .duplicateEncoding
  | escapePartition .. => .escapePartition
  | orphanPseudo .. => .orphanPseudo
  | operandShape .. => .operandShape
  | fieldCount .. => .fieldCount
  | fieldWidth .. => .fieldWidth
  | expandedWidth .. => .expandedWidth
  | bitIndex .. => .bitIndex
  | controlRegister .. => .controlRegister

/-- The violations of some kinds, in the order in which they are reported. -/
def ofKinds (kinds : List Kind) (violations : List Violation) : List Violation :=
  violations.filter (·.kind ∈ kinds)

theorem ofKinds_append (kinds : List Kind) (violations others : List Violation) :
    ofKinds kinds (violations ++ others) = ofKinds kinds violations ++ ofKinds kinds others :=
  List.filter_append ..

theorem ofKinds_flatMap {α : Type} (kinds : List Kind) (elements : List α)
    (f : α → List Violation) :
    ofKinds kinds (elements.flatMap f)
      = elements.flatMap fun element => ofKinds kinds (f element) :=
  List.filter_flatMap

/-- The parts of a report, one for each check, in the order of the report. -/
inductive Part where
  | encodings
  | entries
  | pseudos
  | flags
  | registers

/-- The check that looks for violations of a kind. -/
def Kind.part : Kind → Part
  | .duplicateEncoding => .encodings
  | .fieldCount | .escapePartition | .expandedWidth | .fieldWidth => .entries
  | .orphanPseudo | .operandShape => .pseudos
  | .bitIndex => .flags
  | .controlRegister => .registers

end Violation

open Violation

theorem part_of_mem_clashes {seen : Std.HashMap (Format × List UInt8) String}
    {entries : List Entry} {violation : Violation} (hmem : violation ∈ clashes seen entries) :
    violation.kind.part = .encodings := by
  induction entries generalizing seen with
  | nil => cases hmem
  | cons entry entries ih =>
    rw [clashes, List.mem_append] at hmem
    rcases hmem with hfirst | hrest
    · rw [Option.mem_toList, Option.map_eq_some_iff] at hfirst
      obtain ⟨first, -, rfl⟩ := hfirst
      rfl
    · exact ih hrest

/-- A check of one thing reports nothing or the one violation of it. -/
private theorem eq_of_mem_ite {condition : Prop} [Decidable condition] {violation only : Violation}
    (hmem : violation ∈ if condition then [] else [only]) : violation = only := by
  split at hmem
  next => cases hmem
  next => exact List.mem_singleton.1 hmem

namespace Entry

variable {entry : Entry} {violation : Violation}

theorem part_of_mem_partitionViolations (hmem : violation ∈ entry.partitionViolations) :
    violation.kind.part = .entries := by
  unfold partitionViolations at hmem
  split at hmem
  next =>
    rw [eq_of_mem_ite hmem]
    rfl
  next => cases hmem

theorem part_of_mem_expandedWidthViolations (hmem : violation ∈ entry.expandedWidthViolations) :
    violation.kind.part = .entries := by
  unfold expandedWidthViolations at hmem
  split at hmem
  next =>
    rw [eq_of_mem_ite hmem]
    rfl
  next => cases hmem

theorem part_of_mem_violations (hmem : violation ∈ entry.violations) :
    violation.kind.part = .entries := by
  rcases List.mem_append.1 hmem with hshape | hwidth
  · unfold shapeViolations at hshape
    split at hshape
    next =>
      rcases List.mem_append.1 hshape with hpartition | hexpanded
      · exact part_of_mem_partitionViolations hpartition
      · exact part_of_mem_expandedWidthViolations hexpanded
    next =>
      rw [List.mem_singleton.1 hshape]
      rfl
  · obtain ⟨field, -, rfl⟩ := List.mem_map.1 hwidth
    rfl

end Entry

namespace Table

variable {table : Table} {entry : Entry}

theorem baseViolations_of_base?_eq_none (hbase : table.base? entry = none) :
    table.baseViolations entry = [.orphanPseudo entry.mnemonic] := by
  rw [baseViolations, hbase]

theorem baseViolations_of_base?_eq_some {base : Row} (hbase : table.base? entry = some base) :
    table.baseViolations entry =
      if Operand.literalCovers ((table.omitted? entry).getD []) then []
      else [.operandShape entry.mnemonic base.entry.mnemonic ((table.omitted? entry).getD [])] := by
  rw [baseViolations, hbase]

theorem part_of_mem_baseViolations {violation : Violation}
    (hmem : violation ∈ table.baseViolations entry) : violation.kind.part = .pseudos := by
  cases hbase : table.base? entry with
  | none =>
    rw [baseViolations_of_base?_eq_none hbase] at hmem
    rw [List.mem_singleton.1 hmem]
    rfl
  | some base =>
    rw [baseViolations_of_base?_eq_some hbase] at hmem
    rw [eq_of_mem_ite hmem]
    rfl

end Table

theorem ControlRegisters.part_of_mem_violations {registers : ControlRegisters}
    {violation : Violation} (hmem : violation ∈ registers.violations) :
    violation.kind.part = .registers := by
  obtain ⟨register, -, rfl⟩ := List.mem_map.1 hmem
  rfl

namespace Registry

/-- What one check reports about a registry. -/
def violationsIn (registry : Registry) : Part → List Violation
  | .encodings => registry.table.duplicateViolations
  | .entries => registry.table.entries.flatMap (·.violations)
  | .pseudos => registry.table.pseudoViolations
  | .flags => flagViolations
  | .registers => registry.registers.violations

theorem part_of_mem_violationsIn {registry : Registry} {part : Part} {violation : Violation}
    (hmem : violation ∈ registry.violationsIn part) : violation.kind.part = part := by
  cases part with
  | encodings => exact part_of_mem_clashes hmem
  | entries =>
    obtain ⟨entry, -, hentry⟩ := List.mem_flatMap.1 hmem
    exact Entry.part_of_mem_violations hentry
  | pseudos =>
    obtain ⟨entry, -, hentry⟩ := List.mem_flatMap.1 hmem
    exact Table.part_of_mem_baseViolations hentry
  | flags =>
    rw [violationsIn, flagViolations_eq_nil] at hmem
    cases hmem
  | registers => exact ControlRegisters.part_of_mem_violations hmem

/-- The violations that the verdict on a registry lists, none if it accepts. -/
def reported (registry : Registry) : List Violation :=
  match registry.validate with
  | .ok () => []
  | .error violations => violations

theorem reported_eq_violations (registry : Registry) : registry.reported = registry.violations := by
  unfold reported validate
  cases registry.violations <;> rfl

/-- Violations of kinds that one check looks for are reported by this check
    alone, so that they can be looked up in its part of the report. -/
theorem ofKinds_reported (registry : Registry) {kinds : List Kind} {part : Part}
    (hkinds : ∀ kind ∈ kinds, kind.part = part) :
    ofKinds kinds registry.reported = ofKinds kinds (registry.violationsIn part) := by
  have hother : ∀ other, other ≠ part → ofKinds kinds (registry.violationsIn other) = [] := by
    intro other hne
    rw [ofKinds, List.filter_eq_nil_iff]
    intro violation hmem hkind
    exact hne ((part_of_mem_violationsIn hmem).symm.trans (hkinds _ (of_decide_eq_true hkind)))
  have hparts : registry.violations
      = registry.violationsIn .encodings ++ registry.violationsIn .entries
        ++ registry.violationsIn .pseudos ++ registry.violationsIn .flags
        ++ registry.violationsIn .registers := rfl
  simp only [reported_eq_violations, hparts, ofKinds_append]
  -- Four of the five parts have nothing of these kinds.
  cases part <;> simp [hother]

/-- A check that looks for violations of one kind only makes up all of the report
    of this kind. -/
theorem ofKinds_reported_eq_violationsIn (registry : Registry) {kind : Kind}
    (honly : ∀ other : Kind, other.part = kind.part → other = kind) :
    ofKinds [kind] registry.reported = registry.violationsIn kind.part := by
  rw [ofKinds_reported registry (List.forall_mem_singleton.2 rfl), ofKinds, List.filter_eq_self]
  intro violation hmem
  simpa using honly violation.kind (part_of_mem_violationsIn hmem)

end Registry

end Sigma16

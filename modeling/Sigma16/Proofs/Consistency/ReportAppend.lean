import Sigma16.Proofs.Consistency.Bases
import Sigma16.Proofs.Consistency.Report
import Sigma16.Proofs.Table.Append
import Mathlib.Data.List.Flatten

namespace Sigma16

open Violation

theorem clashes_prefix_append (seen : Std.HashMap (Format × List UInt8) String)
    (entries appended : List Entry) :
    clashes seen entries <+: clashes seen (entries ++ appended) := by
  induction entries generalizing seen with
  | nil => exact List.nil_prefix
  | cons entry entries ih =>
    rw [List.cons_append, clashes, clashes, List.prefix_append_right_inj]
    exact ih _

namespace Table

variable {entries appended : List Entry} {entry : Entry}

theorem duplicateViolations_prefix_append (entries appended : List Entry) :
    (ofEntries entries).duplicateViolations
      <+: (ofEntries (entries ++ appended)).duplicateViolations := by
  simp only [duplicateViolations, entries_ofEntries, List.filter_append]
  exact clashes_prefix_append _ _ _

/-- An entry that has a base is judged once and for all. -/
theorem baseViolations_append_of_base?_eq_some {base : Row}
    (hbase : (ofEntries entries).base? entry = some base) :
    (ofEntries (entries ++ appended)).baseViolations entry
      = (ofEntries entries).baseViolations entry := by
  have hsame : (ofEntries (entries ++ appended)).base? entry = some base := by
    rw [base?_append, hbase, Option.some_or]
  rw [baseViolations_of_base?_eq_some hsame, baseViolations_of_base?_eq_some hbase,
    omitted?_append_of_base?_eq_some hbase]

theorem operandShapes_sublist_append (entries appended : List Entry) (entry : Entry) :
    (ofKinds [.operandShape] ((ofEntries entries).baseViolations entry)).Sublist
      (ofKinds [.operandShape] ((ofEntries (entries ++ appended)).baseViolations entry)) := by
  cases hbase : (ofEntries entries).base? entry with
  | none =>
    rw [baseViolations_of_base?_eq_none hbase]
    exact List.nil_sublist _
  | some base => rw [baseViolations_append_of_base?_eq_some hbase]

theorem pseudoShapes_sublist_append (entries appended : List Entry) :
    (ofKinds [.operandShape] (ofEntries entries).pseudoViolations).Sublist
      (ofKinds [.operandShape] (ofEntries (entries ++ appended)).pseudoViolations) := by
  simp only [pseudoViolations, entries_ofEntries, List.filter_append, List.flatMap_append,
    ofKinds_append, ofKinds_flatMap]
  apply List.Sublist.trans _ (List.sublist_append_left _ _)
  apply List.Sublist.flatMap_right
  intro entry _
  exact operandShapes_sublist_append entries appended entry

/-- The pseudo-instructions in a table that have no base there. -/
def orphans (table : Table) : List Entry :=
  table.entries.filter fun entry => entry.pseudo && (table.base? entry).isNone

theorem mem_orphans {table : Table} :
    entry ∈ table.orphans ↔
      entry ∈ table.entries ∧ entry.pseudo = true ∧ table.base? entry = none := by
  simp [orphans]

/-- Orphans stay orphans except for those that extend an appended entry. -/
theorem orphans_append (entries appended : List Entry) :
    (ofEntries (entries ++ appended)).orphans
      = ((ofEntries entries).orphans.filter fun entry =>
            ((ofEntries appended).base? entry).isNone)
        ++ (ofEntries appended).orphans.filter fun entry =>
            ((ofEntries entries).base? entry).isNone := by
  simp only [orphans, entries_ofEntries, List.filter_append, List.filter_filter, base?_append,
    Option.isNone_or, Option.isNone_map]
  congr 1
  · apply List.filter_congr
    intro entry _
    ac_rfl
  · apply List.filter_congr
    intro entry _
    ac_rfl

theorem ofKinds_orphanPseudo_baseViolations (table : Table) (entry : Entry) :
    ofKinds [.orphanPseudo] (table.baseViolations entry)
      = if (table.base? entry).isNone then [.orphanPseudo entry.mnemonic] else [] := by
  cases hbase : table.base? entry with
  | none =>
    rw [baseViolations_of_base?_eq_none hbase]
    rfl
  | some base =>
    rw [baseViolations_of_base?_eq_some hbase]
    split <;> rfl

/-- The orphans are reported in the order of their declaration, each once. -/
theorem ofKinds_orphanPseudo_pseudoViolations (table : Table) :
    ofKinds [.orphanPseudo] table.pseudoViolations
      = table.orphans.map (.orphanPseudo ·.mnemonic) := by
  rw [pseudoViolations, ofKinds_flatMap, orphans]
  simp only [ofKinds_orphanPseudo_baseViolations]
  induction table.entries with
  | nil => rfl
  | cons entry entries ih =>
    cases hpseudo : entry.pseudo with
    | false => simpa [hpseudo] using ih
    | true => cases hbase : table.base? entry <;> simpa [hpseudo, hbase] using ih

end Table

namespace Registry

/-- How the report on a list of entries goes on when others are appended to it.
    Nothing that is wrong with a row is hidden by another one. -/
structure ReportContinued (entries appended : List Entry) (registers : ControlRegisters) :
    Prop where
  /-- What is wrong with an entry by itself. -/
  byEntry :
    ofKinds [.fieldCount, .escapePartition, .expandedWidth, .fieldWidth]
        (reported ⟨.ofEntries (entries ++ appended), registers⟩)
      = ofKinds [.fieldCount, .escapePartition, .expandedWidth, .fieldWidth]
          (reported ⟨.ofEntries entries, registers⟩)
        ++ ofKinds [.fieldCount, .escapePartition, .expandedWidth, .fieldWidth]
          (reported ⟨.ofEntries appended, registers⟩)
  duplicates :
    ofKinds [.duplicateEncoding] (reported ⟨.ofEntries entries, registers⟩)
      <+: ofKinds [.duplicateEncoding] (reported ⟨.ofEntries (entries ++ appended), registers⟩)
  operandShapes :
    (ofKinds [.operandShape] (reported ⟨.ofEntries entries, registers⟩)).Sublist
      (ofKinds [.operandShape] (reported ⟨.ofEntries (entries ++ appended), registers⟩))
  /-- The orphans of either list, as far as the other one has no base for them. -/
  orphans :
    ofKinds [.orphanPseudo] (reported ⟨.ofEntries (entries ++ appended), registers⟩)
      = (((Table.ofEntries entries).orphans.filter
            fun entry => ((Table.ofEntries appended).base? entry).isNone)
          ++ (Table.ofEntries appended).orphans.filter
            fun entry => ((Table.ofEntries entries).base? entry).isNone).map
          (.orphanPseudo ·.mnemonic)
  orphan : ∀ entry ∈ entries, entry.pseudo = true → (Table.ofEntries entries).base? entry = none →
    (∀ base ∈ appended, base.pseudo = false → ¬ entry.Extends base) →
    .orphanPseudo entry.mnemonic ∈ reported ⟨.ofEntries (entries ++ appended), registers⟩
  controlRegisters :
    ofKinds [.controlRegister] (reported ⟨.ofEntries (entries ++ appended), registers⟩)
        = ofKinds [.controlRegister] (reported ⟨.ofEntries entries, registers⟩)
      ∧ ofKinds [.controlRegister] (reported ⟨.ofEntries (entries ++ appended), registers⟩)
        = ofKinds [.controlRegister] (reported ⟨.ofEntries appended, registers⟩)

theorem ofKinds_orphanPseudo_reported (registry : Registry) :
    ofKinds [.orphanPseudo] registry.reported
      = registry.table.orphans.map (.orphanPseudo ·.mnemonic) := by
  rw [ofKinds_reported registry (List.forall_mem_singleton.2 rfl)]
  exact registry.table.ofKinds_orphanPseudo_pseudoViolations

theorem orphanPseudo_mem_reported {registry : Registry} {entry : Entry}
    (hentry : entry ∈ registry.table.orphans) :
    .orphanPseudo entry.mnemonic ∈ registry.reported := by
  have hmem : Violation.orphanPseudo entry.mnemonic
      ∈ ofKinds [.orphanPseudo] registry.reported := by
    rw [ofKinds_orphanPseudo_reported]
    exact List.mem_map_of_mem hentry
  exact (List.mem_filter.1 hmem).1

/-- All violations are reported, whatever else there is to report. -/
theorem reportContinued_append (entries appended : List Entry) (registers : ControlRegisters) :
    ReportContinued entries appended registers where
  byEntry := by
    have hpart : ∀ kind ∈ [Kind.fieldCount, .escapePartition, .expandedWidth, .fieldWidth],
        kind.part = .entries := by simp [Kind.part]
    simp only [ofKinds_reported _ hpart, violationsIn, Table.entries_ofEntries,
      List.flatMap_append, ofKinds_append]
  duplicates := by
    have hpart : ∀ kind ∈ [Kind.duplicateEncoding], kind.part = .encodings := by simp [Kind.part]
    simp only [ofKinds_reported _ hpart]
    exact (Table.duplicateViolations_prefix_append entries appended).filter _
  operandShapes := by
    have hpart : ∀ kind ∈ [Kind.operandShape], kind.part = .pseudos := by simp [Kind.part]
    simp only [ofKinds_reported _ hpart]
    exact Table.pseudoShapes_sublist_append entries appended
  orphans := by
    rw [ofKinds_orphanPseudo_reported, Table.orphans_append]
  orphan := by
    intro entry hentry hpseudo hbase hextends
    have hnone : (Table.ofEntries appended).base? entry = none :=
      (Table.base?_eq_none_iff hpseudo).2 hextends
    apply orphanPseudo_mem_reported
    rw [Table.mem_orphans]
    refine ⟨List.mem_append_left _ hentry, hpseudo, ?_⟩
    rw [Table.base?_append, hbase, hnone]
    rfl
  controlRegisters := by
    have hpart : ∀ kind ∈ [Kind.controlRegister], kind.part = .registers := by simp [Kind.part]
    simp only [ofKinds_reported _ hpart]
    exact ⟨rfl, rfl⟩

/-- A conditional jump without the instruction that it is built on stays an
    orphan when an instruction of another family is appended. -/
theorem reportContinued_append_jumpeq :
    (Table.ofEntries [⟨"jumpeq", .jx, [15, 5, 2], true⟩]).base? ⟨"jumpeq", .jx, [15, 5, 2], true⟩
        = none
      ∧ .orphanPseudo "jumpeq"
        ∈ reported ⟨.ofEntries ([⟨"jumpeq", .jx, [15, 5, 2], true⟩]
            ++ [⟨"logicw", .rrrkExp, [14, 22], false⟩]), .ofList []⟩ := by
  have hbase : (Table.ofEntries [⟨"jumpeq", .jx, [15, 5, 2], true⟩]).base?
      ⟨"jumpeq", .jx, [15, 5, 2], true⟩ = none := by decide
  exact ⟨hbase, (reportContinued_append [⟨"jumpeq", .jx, [15, 5, 2], true⟩] _ _).orphan
    ⟨"jumpeq", .jx, [15, 5, 2], true⟩ (List.mem_singleton.2 rfl) rfl hbase (by decide)⟩

end Registry

end Sigma16

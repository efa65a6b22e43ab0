import Sigma16.Proofs.Decoder.Lookup
import Mathlib.Data.Finset.Card

namespace Sigma16

section FirstByKey

variable {α κ : Type} [BEq κ] [LawfulBEq κ] [Hashable κ]

/-- An index by keys has as many members as there are different keys. -/
theorem size_firstByKey [DecidableEq κ] (key : α → κ) (elements : List α) :
    (firstByKey key elements).size = (elements.map key).toFinset.card := by
  have hkeys : (firstByKey key elements).keys.toFinset = (elements.map key).toFinset := by
    ext wanted
    simp [mem_firstByKey]
  rw [← hkeys, List.toFinset_card_of_nodup Std.HashMap.nodup_keys, Std.HashMap.length_keys]

theorem isEmpty_firstByKey_iff {key : α → κ} {elements : List α} :
    (firstByKey key elements).isEmpty = true ↔ elements = [] := by
  rw [Std.HashMap.isEmpty_iff_forall_not_mem]
  simp only [mem_firstByKey, not_exists, not_and, List.eq_nil_iff_forall_not_mem]
  constructor
  · intro hnone element hmem
    exact hnone (key element) element hmem rfl
  · intro hnone wanted element hmem
    exact absurd hmem (hnone element)

end FirstByKey

/-- An instruction with exactly the given opcode fields, pseudo-instruction or
    not. -/
def Entry.HasOpcode (entry : Entry) (fields : List UInt8) : Prop :=
  entry.isInstruction = true ∧ entry.opcode = fields

/-- A real instruction whose first two opcode fields are those that a word
    carries. -/
def Entry.SelectedBy (entry : Entry) (word : Word) : Prop :=
  entry.isInstruction = true ∧ entry.pseudo = false ∧ entry.opcode.take 2 = word.opcodeFields

namespace Decoder

variable {table : Table}

theorem resolve?_eq_some_iff_first {fields : List UInt8} {row : Row} :
    (ofTable table).resolve? fields = some row ↔ table.First (·.HasOpcode fields) row := by
  simp only [resolve?_eq_some_iff, Table.mem_instructions, Table.First, Entry.HasOpcode, and_imp,
    and_assoc]

theorem decode?_eq_some_iff_first {word : Word} {row : Row} :
    (ofTable table).decode? word = some row ↔ table.First (·.SelectedBy word) row := by
  simp only [decode?_eq_some_iff, Table.mem_realInstructions, Table.First, Entry.SelectedBy,
    Entry.selector, and_imp, and_assoc]

theorem resolve?_eq_none_iff {fields : List UInt8} :
    (ofTable table).resolve? fields = none ↔ ∀ entry ∈ table.entries, ¬ entry.HasOpcode fields := by
  rw [resolve?_ofTable, List.find?_eq_none, ← Table.forall_mem_rows_iff]
  simp only [Table.mem_instructions, beq_iff_eq, and_imp, Entry.HasOpcode, not_and]

theorem decode?_eq_none_iff {word : Word} :
    (ofTable table).decode? word = none ↔ ∀ entry ∈ table.entries, ¬ entry.SelectedBy word := by
  rw [decode?_ofTable, List.find?_eq_none, ← Table.forall_mem_rows_iff]
  simp only [Table.mem_realInstructions, beq_iff_eq, and_imp, Entry.SelectedBy, Entry.selector,
    not_and]

/-- The preferred instruction is found by two scans: one for the real instruction
    that the word selects and, if that is indexed, one for the whole opcode that
    the word carries. -/
theorem decodeAlias?_eq_some_iff_first {word : Word} {row : Row} :
    (ofTable table).decodeAlias? word = some row ↔
      ∃ real, table.First (·.SelectedBy word) real ∧
        ((real.entry.family = .indexed
            ∧ table.First (·.HasOpcode (word.opcodeFields ++ [word.d])) row)
          ∨ ((real.entry.family = .indexed →
                ∀ entry ∈ table.entries, ¬ entry.HasOpcode (word.opcodeFields ++ [word.d]))
            ∧ row = real)) := by
  simp only [decodeAlias?_eq_some_iff_resolve?, decode?_eq_some_iff_first,
    resolve?_eq_some_iff_first, resolve?_eq_none_iff]

theorem size_ofTable (table : Table) :
    (ofTable table).size =
      ((table.entries.filter (·.isInstruction)).map (·.opcode)).toFinset.card := by
  have hopcodes : (table.entries.filter (·.isInstruction)).map (·.opcode)
      = table.instructions.map (·.entry.opcode) := by
    rw [← table.map_entry_instructions, List.map_map]
    rfl
  rw [hopcodes]
  exact size_firstByKey _ _

theorem isEmpty_ofTable_iff {table : Table} :
    (ofTable table).isEmpty = true ↔ ∀ entry ∈ table.entries, entry.isInstruction = false := by
  have hempty : (ofTable table).isEmpty = true ↔ table.instructions = [] := isEmpty_firstByKey_iff
  rw [hempty, Table.instructions, List.filter_eq_nil_iff, ← Table.forall_mem_rows_iff]
  simp only [Bool.not_eq_true]

/-- A decoder that answers as if it scanned the rows of a table one after the
    other each time it is asked. -/
structure AnswersAsScan (decoder : Decoder) (table : Table) : Prop where
  resolve : ∀ fields row,
    decoder.resolve? fields = some row ↔ table.First (·.HasOpcode fields) row
  resolve_none : ∀ fields,
    decoder.resolve? fields = none ↔ ∀ entry ∈ table.entries, ¬ entry.HasOpcode fields
  decode : ∀ word row, decoder.decode? word = some row ↔ table.First (·.SelectedBy word) row
  decode_none : ∀ word,
    decoder.decode? word = none ↔ ∀ entry ∈ table.entries, ¬ entry.SelectedBy word
  preferred_isSome : ∀ word, (decoder.decodeAlias? word).isSome = (decoder.decode? word).isSome
  preferred : ∀ word row, decoder.decodeAlias? word = some row ↔
    ∃ real, table.First (·.SelectedBy word) real ∧
      ((real.entry.family = .indexed
          ∧ table.First (·.HasOpcode (word.opcodeFields ++ [word.d])) row)
        ∨ ((real.entry.family = .indexed →
              ∀ entry ∈ table.entries, ¬ entry.HasOpcode (word.opcodeFields ++ [word.d]))
          ∧ row = real))
  size : decoder.size =
    ((table.entries.filter (·.isInstruction)).map (·.opcode)).toFinset.card
  isEmpty : decoder.isEmpty = true ↔ ∀ entry ∈ table.entries, entry.isInstruction = false

/-- The indices of a decoder lose nothing and add nothing, whatever the rows of
    its table are: repeated, without opcode fields or with more than any format
    has, pseudo-instructions before the real ones, and no instructions at all. -/
theorem answersAsScan_ofTable (table : Table) : (ofTable table).AnswersAsScan table where
  resolve _ _ := resolve?_eq_some_iff_first
  resolve_none _ := resolve?_eq_none_iff
  decode _ _ := decode?_eq_some_iff_first
  decode_none _ := decode?_eq_none_iff
  preferred_isSome := isSome_decodeAlias? _
  preferred _ _ := decodeAlias?_eq_some_iff_first
  size := size_ofTable table
  isEmpty := isEmpty_ofTable_iff

end Decoder

end Sigma16

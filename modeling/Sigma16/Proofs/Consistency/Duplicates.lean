import Sigma16.Proofs.Consistency.Report
import Sigma16.Proofs.Table.Repetitions
import Mathlib.Algebra.Order.BigOperators.Group.Finset

namespace Sigma16

open Violation

/-- A map that has for every encoding the mnemonic of the latest row with it. -/
def Remembers (seen : Std.HashMap (Format × List UInt8) String) (before : List Row) : Prop :=
  ∀ encoding, seen[encoding]? = (Row.latest? before encoding).map (·.entry.mnemonic)

theorem remembers_empty : Remembers ∅ [] := by
  intro encoding
  rw [Std.HashMap.getElem?_empty]
  rfl

theorem Remembers.insert {seen : Std.HashMap (Format × List UInt8) String} {before : List Row}
    (hseen : Remembers seen before) (row : Row) :
    Remembers (seen.insert row.entry.encoding row.entry.mnemonic) (before ++ [row]) := by
  intro encoding
  rw [Std.HashMap.getElem?_insert, Row.latest?_append_singleton]
  by_cases hencoding : row.entry.encoding = encoding
  · simp [hencoding]
  · simp [hencoding, hseen encoding]

/-- The scan for clashes finds the repetitions among the rows. -/
theorem clashes_eq_map_repetitions {seen : Std.HashMap (Format × List UInt8) String}
    {before : List Row} (hseen : Remembers seen before) (rows : List Row) :
    clashes seen (rows.map (·.entry)) = (Row.repetitions before rows).map
      fun pair => .duplicateEncoding pair.1.entry.mnemonic pair.2.entry.mnemonic := by
  induction rows generalizing seen before with
  | nil => rfl
  | cons row rows ih =>
    have hrest := ih (hseen.insert row)
    rw [List.map_cons, clashes, hseen row.entry.encoding, Row.repetitions, List.map_append]
    refine congrArg₂ (· ++ ·) ?_ hrest
    cases Row.latest? before row.entry.encoding <;> rfl

/-- The members of a list are distributed over the values of a key. -/
private theorem sum_length_filter_eq_length {α κ : Type} [DecidableEq κ] (key : α → κ)
    {elements : List α} {keys : Finset κ} (hkeys : ∀ element ∈ elements, key element ∈ keys) :
    ∑ wanted ∈ keys, (elements.filter (key · = wanted)).length = elements.length := by
  have hcount : ∀ wanted, (elements.filter (key · = wanted)).length
      = Multiset.count wanted (elements.map key : Multiset κ) := by
    intro wanted
    rw [Multiset.coe_count, List.count, List.countP_map, List.countP_eq_length_filter]
    rfl
  simp only [hcount]
  rw [Multiset.sum_count_eq_card, Multiset.coe_card, List.length_map]
  simpa using hkeys

namespace Table

/-- Two instructions with the same encoding, with none between them that has it
    too. -/
structure Clash (table : Table) (earlier later : Row) : Prop where
  earlier_mem : earlier ∈ table.instructions
  later_mem : later ∈ table.instructions
  encoding_eq : earlier.entry.encoding = later.entry.encoding
  position_lt : earlier.position < later.position
  latest : ∀ other ∈ table.instructions, other.entry.encoding = later.entry.encoding →
    other.position < later.position → other.position ≤ earlier.position

theorem mem_repetitions_iff_clash {table : Table} {earlier later : Row} :
    (earlier, later) ∈ Row.repetitions [] table.instructions ↔ table.Clash earlier later := by
  rw [Row.mem_repetitions]
  have hordered := table.ordered_instructions
  constructor
  · rintro ⟨front, back, hrows, hlatest⟩
    rw [hrows] at hordered
    obtain ⟨hmem, hencoding, hbound⟩ := hordered.front.latest?_eq_some_iff.1 hlatest
    obtain ⟨hearlier, hlower⟩ := hordered.mem_front_iff.1 hmem
    exact {
      earlier_mem := hrows ▸ hearlier
      later_mem := by simp [hrows]
      encoding_eq := hencoding
      position_lt := hlower
      latest := fun other hother hsame hbefore =>
        hbound other (hordered.mem_front_iff.2 ⟨hrows ▸ hother, hbefore⟩) hsame }
  · intro hclash
    obtain ⟨front, back, hrows⟩ := List.append_of_mem hclash.later_mem
    rw [hrows] at hordered
    have hmem := hordered.mem_front_iff.2 ⟨hrows ▸ hclash.earlier_mem, hclash.position_lt⟩
    refine ⟨front, back, hrows, hordered.front.latest?_eq_some_iff.2 ⟨hmem, hclash.encoding_eq, ?_⟩⟩
    intro other hother hsame
    obtain ⟨hrow, hlower⟩ := hordered.mem_front_iff.1 hother
    exact hclash.latest other (hrows ▸ hrow) hsame hlower

theorem exists_clash_iff {table : Table} {later : Row} :
    (∃ earlier, table.Clash earlier later) ↔
      later ∈ table.instructions ∧ ∃ other ∈ table.instructions,
        other.entry.encoding = later.entry.encoding ∧ other.position < later.position := by
  constructor
  · rintro ⟨earlier, hclash⟩
    exact ⟨hclash.later_mem, earlier, hclash.earlier_mem, hclash.encoding_eq, hclash.position_lt⟩
  · rintro ⟨hlater, other, hother, hsame, hlower⟩
    obtain ⟨front, back, hrows⟩ := List.append_of_mem hlater
    have hordered := table.ordered_instructions
    rw [hrows] at hordered
    have hmem := Row.mem_withEncoding.2 ⟨hordered.mem_front_iff.2 ⟨hrows ▸ hother, hlower⟩, hsame⟩
    obtain ⟨earlier, hlatest⟩ := Option.isSome_iff_exists.1
      (List.getLast?_isSome.2 (List.ne_nil_of_mem hmem))
    exact ⟨earlier, mem_repetitions_iff_clash.1 (Row.mem_repetitions.2 ⟨front, back, hrows, hlatest⟩)⟩

/-- A list of all the clashes in a table. -/
structure ListsClashes (table : Table) (pairs : List (Row × Row)) : Prop where
  mem_iff : ∀ earlier later, (earlier, later) ∈ pairs ↔ table.Clash earlier later
  /-- There is a clash for every instruction that is not the first with its
      encoding. -/
  repeated_iff : ∀ row, row ∈ pairs.map Prod.snd ↔
    row ∈ table.instructions ∧ ∃ other ∈ table.instructions,
      other.entry.encoding = row.entry.encoding ∧ other.position < row.position
  /-- The clashes stand in the order in which their second rows are declared,
      and no row is the second one twice. -/
  ordered : Row.Ordered (pairs.map Prod.snd)
  /-- The instructions with one encoding form a chain. -/
  chain : ∀ encoding, pairs.filter (·.2.entry.encoding = encoding)
    = (Row.withEncoding table.instructions encoding).zip
        (Row.withEncoding table.instructions encoding).tail
  length_chain : ∀ encoding, (pairs.filter (·.2.entry.encoding = encoding)).length
    = (Row.withEncoding table.instructions encoding).length - 1
  length_add_card : pairs.length + (table.instructions.map (·.entry.encoding)).toFinset.card
    = table.instructions.length

theorem filter_repetitions_instructions (table : Table) (encoding : Format × List UInt8) :
    (Row.repetitions [] table.instructions).filter (·.2.entry.encoding = encoding)
      = (Row.withEncoding table.instructions encoding).zip
          (Row.withEncoding table.instructions encoding).tail :=
  Row.filter_repetitions [] table.instructions encoding

theorem length_filter_repetitions_instructions (table : Table)
    (encoding : Format × List UInt8) :
    ((Row.repetitions [] table.instructions).filter (·.2.entry.encoding = encoding)).length
      = (Row.withEncoding table.instructions encoding).length - 1 := by
  rw [filter_repetitions_instructions, List.length_zip, List.length_tail]
  exact Nat.min_eq_right (Nat.sub_le _ _)

/-- Each encoding is there once without being a repetition. -/
theorem length_repetitions_add_card (table : Table) :
    (Row.repetitions [] table.instructions).length
        + (table.instructions.map (·.entry.encoding)).toFinset.card
      = table.instructions.length := by
  have hkeys : ∀ row ∈ table.instructions,
      row.entry.encoding ∈ (table.instructions.map (·.entry.encoding)).toFinset := by
    intro row hrow
    exact List.mem_toFinset.2 (List.mem_map_of_mem hrow)
  have hpairs : ∀ pair ∈ Row.repetitions [] table.instructions,
      pair.2.entry.encoding ∈ (table.instructions.map (·.entry.encoding)).toFinset := by
    intro pair hpair
    exact hkeys pair.2 (mem_repetitions_iff_clash.1 hpair).later_mem
  rw [← sum_length_filter_eq_length (·.2.entry.encoding) hpairs, Finset.card_eq_sum_ones,
    ← Finset.sum_add_distrib, ← sum_length_filter_eq_length (·.entry.encoding) hkeys]
  apply Finset.sum_congr rfl
  intro encoding hencoding
  obtain ⟨row, hrow, hsame⟩ := List.mem_map.1 (List.mem_toFinset.1 hencoding)
  have hpositive : 0 < (Row.withEncoding table.instructions encoding).length :=
    List.length_pos_of_mem (Row.mem_withEncoding.2 ⟨hrow, hsame⟩)
  rw [length_filter_repetitions_instructions]
  exact Nat.sub_add_cancel hpositive

theorem listsClashes_repetitions (table : Table) :
    table.ListsClashes (Row.repetitions [] table.instructions) where
  mem_iff _ _ := mem_repetitions_iff_clash
  repeated_iff row := by
    rw [← exists_clash_iff]
    simp [mem_repetitions_iff_clash]
  ordered := table.ordered_instructions.sublist (Row.map_snd_repetitions_sublist [] _)
  chain := table.filter_repetitions_instructions
  length_chain := table.length_filter_repetitions_instructions
  length_add_card := table.length_repetitions_add_card

theorem duplicateViolations_eq_map_repetitions (table : Table) :
    table.duplicateViolations = (Row.repetitions [] table.instructions).map
      fun pair => .duplicateEncoding pair.1.entry.mnemonic pair.2.entry.mnemonic := by
  rw [duplicateViolations, ← map_entry_instructions]
  exact clashes_eq_map_repetitions remembers_empty table.instructions

end Table

/-- The report has one duplicate for every clash in the table, in the order of
    declaration, and names the earlier instruction first. Entries that are no
    instructions are not among them. -/
theorem Registry.ofKinds_duplicateEncoding_reported (registry : Registry) :
    ∃ pairs, registry.table.ListsClashes pairs
      ∧ ofKinds [.duplicateEncoding] registry.reported
        = pairs.map fun pair =>
            .duplicateEncoding pair.1.entry.mnemonic pair.2.entry.mnemonic := by
  refine ⟨_, registry.table.listsClashes_repetitions, ?_⟩
  have honly : ∀ other : Kind, other.part = Kind.duplicateEncoding.part →
      other = .duplicateEncoding := by
    intro other
    cases other <;> simp [Kind.part]
  rw [ofKinds_reported_eq_violationsIn _ honly]
  exact registry.table.duplicateViolations_eq_map_repetitions

end Sigma16

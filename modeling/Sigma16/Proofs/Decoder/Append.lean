import Sigma16.Proofs.Decoder.Lookup
import Sigma16.Proofs.Table.Append

namespace Sigma16

namespace Table

theorem instructions_append (entries appended : List Entry) :
    (ofEntries (entries ++ appended)).instructions
      = (ofEntries entries).instructions
        ++ (ofEntries appended).instructions.map (Row.after entries.length) := by
  simp only [instructions, rows, entries_ofEntries, Row.ofEntries_append, List.filter_append,
    List.filter_map]
  rfl

theorem realInstructions_append (entries appended : List Entry) :
    (ofEntries (entries ++ appended)).realInstructions
      = (ofEntries entries).realInstructions
        ++ (ofEntries appended).realInstructions.map (Row.after entries.length) := by
  simp only [realInstructions, instructions_append, List.filter_append, List.filter_map]
  rfl

end Table

namespace Decoder

variable {entries appended : List Entry}

theorem resolve?_append (entries appended : List Entry) (fields : List UInt8) :
    (ofTable (.ofEntries (entries ++ appended))).resolve? fields
      = ((ofTable (.ofEntries entries)).resolve? fields).or
          (((ofTable (.ofEntries appended)).resolve? fields).map (Row.after entries.length)) := by
  simp only [resolve?_ofTable, Table.instructions_append, List.find?_append, List.find?_map]
  rfl

theorem decode?_append (entries appended : List Entry) (word : Word) :
    (ofTable (.ofEntries (entries ++ appended))).decode? word
      = ((ofTable (.ofEntries entries)).decode? word).or
          (((ofTable (.ofEntries appended)).decode? word).map (Row.after entries.length)) := by
  simp only [decode?_ofTable, Table.realInstructions_append, List.find?_append, List.find?_map]
  rfl

/-- The preferred instruction can only give way to an appended one that has the
    whole opcode of the word, and only where the real instruction was preferred
    for want of such a one. -/
theorem decodeAlias?_append_of_eq_some {word : Word} {row : Row}
    (halias : (ofTable (.ofEntries entries)).decodeAlias? word = some row) :
    (ofTable (.ofEntries (entries ++ appended))).decodeAlias? word = some row
      ∨ ∃ added ∈ Row.ofEntries appended,
          (ofTable (.ofEntries (entries ++ appended))).decodeAlias? word
              = some (added.after entries.length)
            ∧ (ofTable (.ofEntries entries)).decode? word = some row := by
  simp only [decodeAlias?_eq_some_iff_resolve?] at halias ⊢
  obtain ⟨real, hdecode, hpreferred⟩ := halias
  have hreal : (ofTable (.ofEntries (entries ++ appended))).decode? word = some real := by
    rw [decode?_append, hdecode, Option.some_or]
  rcases hpreferred with ⟨hfamily, hresolve⟩ | ⟨hnone, rfl⟩
  · left
    refine ⟨real, hreal, .inl ⟨hfamily, ?_⟩⟩
    rw [resolve?_append, hresolve, Option.some_or]
  -- Nothing had the whole opcode of the word, so that now the appended entries
  -- are asked for it.
  · by_cases hfamily : row.entry.family = .indexed
    · have hresolve : (ofTable (.ofEntries (entries ++ appended))).resolve?
            (word.opcodeFields ++ [word.d])
          = ((ofTable (.ofEntries appended)).resolve? (word.opcodeFields ++ [word.d])).map
              (Row.after entries.length) := by
        rw [resolve?_append, hnone hfamily, Option.none_or]
      cases hadded : (ofTable (.ofEntries appended)).resolve? (word.opcodeFields ++ [word.d]) with
      | none =>
        rw [hadded, Option.map_none] at hresolve
        exact .inl ⟨row, hreal, .inr ⟨fun _ => hresolve, rfl⟩⟩
      | some added =>
        rw [hadded, Option.map_some] at hresolve
        have hmem := (Table.mem_instructions.1 (resolve?_eq_some_iff.1 hadded).1).1
        exact .inr ⟨added, hmem, ⟨row, hreal, .inl ⟨hfamily, hresolve⟩⟩, hdecode⟩
    · left
      exact ⟨row, hreal, .inr ⟨fun hindexed => absurd hindexed hfamily, rfl⟩⟩

/-- The answers that a table of entries has given when others are appended to
    it: they stay, and so do the positions in them. Only the preferred
    instruction for a word may change, to an appended one. -/
structure KeepsAnswers (entries appended : List Entry) : Prop where
  lookup : ∀ mnemonic row, (Table.ofEntries entries).lookup? mnemonic = some row →
    (Table.ofEntries (entries ++ appended)).lookup? mnemonic = some row
  resolve : ∀ fields row, (ofTable (.ofEntries entries)).resolve? fields = some row →
    (ofTable (.ofEntries (entries ++ appended))).resolve? fields = some row
  decode : ∀ word row, (ofTable (.ofEntries entries)).decode? word = some row →
    (ofTable (.ofEntries (entries ++ appended))).decode? word = some row
  base : ∀ entry base, (Table.ofEntries entries).base? entry = some base →
    (Table.ofEntries (entries ++ appended)).base? entry = some base
  omitted : ∀ entry operands, (Table.ofEntries entries).omitted? entry = some operands →
    (Table.ofEntries (entries ++ appended)).omitted? entry = some operands
  /-- That an entry has an operand which its base lacks is an answer as well. -/
  omitted_none : ∀ entry base, (Table.ofEntries entries).base? entry = some base →
    (Table.ofEntries entries).omitted? entry = none →
    (Table.ofEntries (entries ++ appended)).omitted? entry = none
  preferred : ∀ word row, (ofTable (.ofEntries entries)).decodeAlias? word = some row →
    (ofTable (.ofEntries (entries ++ appended))).decodeAlias? word = some row
      ∨ ∃ added ∈ Row.ofEntries appended,
          (ofTable (.ofEntries (entries ++ appended))).decodeAlias? word
              = some (added.after entries.length)
            ∧ (ofTable (.ofEntries entries)).decode? word = some row

/-- Entries can be appended to any table, consistent or not, without a change to
    what it has answered already. -/
theorem keepsAnswers_append (entries appended : List Entry) : KeepsAnswers entries appended where
  lookup mnemonic row hlookup := by
    rw [Table.lookup?_append, hlookup, Option.some_or]
  resolve fields row hresolve := by
    rw [resolve?_append, hresolve, Option.some_or]
  decode word row hdecode := by
    rw [decode?_append, hdecode, Option.some_or]
  base entry base hbase := by
    rw [Table.base?_append, hbase, Option.some_or]
  omitted entry operands homitted := by
    obtain ⟨base, hbase, -⟩ := Option.bind_eq_some_iff.1 homitted
    rw [Table.omitted?_append_of_base?_eq_some hbase, homitted]
  omitted_none entry base hbase hnone := by
    rw [Table.omitted?_append_of_base?_eq_some hbase, hnone]
  preferred word row halias := decodeAlias?_append_of_eq_some halias

/-- A conditional jump to which the name of one of its conditions is appended:
    the word is still decoded as before, but the name is preferred now. -/
theorem keepsAnswers_append_jumpeq :
    (ofTable (.ofEntries [⟨"jumpc1", .kx, [15, 5], false⟩])).decodeAlias? 0xf205
        = some ⟨0, ⟨"jumpc1", .kx, [15, 5], false⟩⟩
      ∧ (ofTable (.ofEntries ([⟨"jumpc1", .kx, [15, 5], false⟩]
            ++ [⟨"jumpeq", .jx, [15, 5, 2], true⟩]))).decode? 0xf205
          = some ⟨0, ⟨"jumpc1", .kx, [15, 5], false⟩⟩
      ∧ (ofTable (.ofEntries ([⟨"jumpc1", .kx, [15, 5], false⟩]
            ++ [⟨"jumpeq", .jx, [15, 5, 2], true⟩]))).decodeAlias? 0xf205
          = some ⟨1, ⟨"jumpeq", .jx, [15, 5, 2], true⟩⟩ := by
  have hbefore : (ofTable (.ofEntries [⟨"jumpc1", .kx, [15, 5], false⟩])).decode? 0xf205
      = some ⟨0, ⟨"jumpc1", .kx, [15, 5], false⟩⟩ := by
    rw [decode?_ofTable]
    decide
  have hafter := (keepsAnswers_append _ [⟨"jumpeq", .jx, [15, 5, 2], true⟩]).decode _ _ hbefore
  refine ⟨decodeAlias?_eq_some_iff.2 ⟨_, hbefore, ?_⟩, hafter,
    decodeAlias?_eq_some_iff.2 ⟨_, hafter, ?_⟩⟩
  · rw [resolve?_ofTable]
    decide
  · rw [resolve?_ofTable]
    decide

end Decoder

end Sigma16

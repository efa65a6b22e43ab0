import Sigma16.Proofs.Decoder.Lookup
import Sigma16.Proofs.Entry.FirstWord
import Sigma16.Proofs.Table.Pseudos

namespace Sigma16

namespace Table.Lawful

variable {table : Table}

theorem length_selector_of_indexed (hlawful : table.Lawful) {row : Row}
    (hrow : row ∈ table.instructions) (hfamily : row.entry.family = .indexed) :
    row.entry.selector.length = 2 := by
  obtain ⟨b, literal, hopcode, -, -⟩ :=
    (hlawful.wellFormed_of_mem_instructions hrow).opcode_of_indexed hfamily
  rw [Entry.selector, hopcode]
  rfl

end Table.Lawful

namespace Decoder

/-- In a lawful table an instruction that is found for a word, real or
    preferred to the real one, has the selector that the word carries. -/
theorem selector_of_decodeAlias? {table : Table} (hlawful : table.Lawful) {word : Word} {row : Row}
    (halias : (ofTable table).decodeAlias? word = some row) :
    row ∈ table.instructions ∧ row.entry.selector = word.opcodeFields := by
  obtain ⟨real, hdecode, hpreferred⟩ := eq_or_resolve?_of_decodeAlias? halias
  obtain ⟨hreal, hselector, -⟩ := decode?_eq_some_iff.1 hdecode
  have hinstruction : real ∈ table.instructions := (List.mem_filter.1 hreal).1
  rcases hpreferred with rfl | ⟨hfamily, hresolve⟩
  · exact ⟨hinstruction, hselector⟩
  · obtain ⟨hfound, hopcode, -⟩ := resolve?_eq_some_iff.1 hresolve
    have hlength : word.opcodeFields.length = 2 := by
      rw [← hselector]
      exact hlawful.length_selector_of_indexed hinstruction hfamily
    refine ⟨hfound, ?_⟩
    rw [Entry.selector, hopcode, List.take_left' hlength]

/-- An instruction with the selector that a word carries takes the number of words
    that the bits of the word call for. -/
theorem wordCount_eq_ite_of_selector {table : Table} (hlawful : table.Lawful) {word : Word}
    {row : Row} (hrow : row ∈ table.instructions) (hselector : row.entry.selector = word.opcodeFields) :
    row.entry.wordCount = if word.isDoubleWord then 2 else 1 := by
  have hentry := hlawful.wellFormed_of_mem_instructions hrow
  obtain ⟨first, hfirst⟩ := hentry.exists_firstWord (Table.mem_instructions.1 hrow).2
  have hfields := (hentry.opcodeFields_firstWord hfirst).trans hselector
  rw [hentry.wordCount_eq_ite hfirst, Word.isDoubleWord_congr hfields]

/-- The number of words to fetch, which is read off the bits of a first word,
    is the number that the format of the decoded instruction generates. The
    instruction can be packed again, and its first word selects and fetches like
    the given one. -/
theorem wordCount_decoded {registry : Registry} (hvalid : registry.validate = .ok ()) {word : Word}
    {row : Row}
    (hdecoded : (ofTable registry.table).decode? word = some row
      ∨ (ofTable registry.table).decodeAlias? word = some row) :
    (word.isDoubleWord = true ↔ row.entry.wordCount = 2)
      ∧ (word.isDoubleWord = false ↔ row.entry.wordCount = 1)
      ∧ row.entry.wordCount ≠ 0
      ∧ ∃ first, row.entry.firstWord? = some first ∧ first.opcodeFields = word.opcodeFields
          ∧ first.isDoubleWord = word.isDoubleWord := by
  have hlawful := Registry.lawful_of_validate_eq_ok hvalid
  have hselected : row ∈ registry.table.instructions ∧ row.entry.selector = word.opcodeFields := by
    rcases hdecoded with hdecode | halias
    · obtain ⟨hreal, hselector, -⟩ := decode?_eq_some_iff.1 hdecode
      exact ⟨(List.mem_filter.1 hreal).1, hselector⟩
    · exact selector_of_decodeAlias? hlawful halias
  obtain ⟨hrow, hselector⟩ := hselected
  have hentry := hlawful.wellFormed_of_mem_instructions hrow
  obtain ⟨first, hfirst⟩ := hentry.exists_firstWord (Table.mem_instructions.1 hrow).2
  have hfields : first.opcodeFields = word.opcodeFields :=
    (hentry.opcodeFields_firstWord hfirst).trans hselector
  have hdouble : first.isDoubleWord = word.isDoubleWord := Word.isDoubleWord_congr hfields
  have hcount := wordCount_eq_ite_of_selector hlawful hrow hselector
  refine ⟨?_, ?_, ?_, first, hfirst, hfields, hdouble⟩
  · rw [hcount]
    cases word.isDoubleWord <;> simp
  · rw [hcount]
    cases word.isDoubleWord <;> simp
  · rw [hcount]
    cases word.isDoubleWord <;> simp

/-- A jump that carries both operands and the literal of its condition. -/
theorem wordCount_decoded_jumpeq :
    (ofTable Registry.standard.table).decodeAlias? 0xf2a5
        = some ⟨55, ⟨"jumpeq", .jx, [15, 5, 2], true⟩⟩
      ∧ Word.isDoubleWord 0xf2a5 = true
      ∧ Entry.wordCount ⟨"jumpeq", .jx, [15, 5, 2], true⟩ = 2 := by
  have halias := decoded_standard_jumpeq.2
  have hdouble : Word.isDoubleWord 0xf2a5 = true := by decide
  exact ⟨halias, hdouble, (wordCount_decoded Registry.validate_standard (.inr halias)).1.1 hdouble⟩

end Decoder

end Sigma16

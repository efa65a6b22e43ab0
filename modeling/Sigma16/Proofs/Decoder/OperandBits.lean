import Sigma16.Proofs.Decoder.FetchLength

namespace Sigma16

namespace Word

/-- Two words with the same operation: they agree on the primary opcode and, if
    that is an escape code, on the secondary one in its place. All else in them
    may differ. -/
structure SameOperation (word other : Word) : Prop where
  op_eq : word.op = other.op
  ab_eq : word.op = expandedEscape → word.ab = other.ab
  b_eq : word.op = indexedEscape → word.b = other.b

/-- The opcode fields of a word are what its operation depends on, and no more. -/
theorem opcodeFields_eq_iff_sameOperation {word other : Word} :
    word.opcodeFields = other.opcodeFields ↔ word.SameOperation other := by
  constructor
  · intro hfields
    exact {
      op_eq := op_eq_of_opcodeFields_eq hfields
      ab_eq := fun hop => ab_eq_of_opcodeFields_eq hop hfields
      b_eq := fun hop => b_eq_of_opcodeFields_eq hop hfields }
  · intro hsame
    rcases word.op_cases with hop | hop | hop
    · have hother : other.op < expandedEscape := hsame.op_eq ▸ hop
      rw [opcodeFields_of_op_lt hop, opcodeFields_of_op_lt hother, hsame.op_eq]
    · have hother : other.op = expandedEscape := hsame.op_eq ▸ hop
      rw [opcodeFields_of_op_eq_expandedEscape hop, opcodeFields_of_op_eq_expandedEscape hother,
        hsame.ab_eq hop]
    · have hother : other.op = indexedEscape := hsame.op_eq ▸ hop
      rw [opcodeFields_of_op_eq_indexedEscape hop, opcodeFields_of_op_eq_indexedEscape hother,
        hsame.b_eq hop]

instance (word other : Word) : Decidable (word.SameOperation other) :=
  decidable_of_iff _ opcodeFields_eq_iff_sameOperation

end Word

theorem Entry.head?_selector (entry : Entry) : entry.selector.head? = entry.primary? := by
  rw [selector, List.head?_take, if_neg (by decide), primary?, List.head?_eq_getElem?]

namespace Decoder

theorem decode?_congr (decoder : Decoder) {word other : Word}
    (hfields : word.opcodeFields = other.opcodeFields) :
    decoder.decode? word = decoder.decode? other := by
  rw [decode?, hfields, decode?]

/-- In a lawful table a word that is decoded to an indexed instruction has the
    primary opcode of one, so that its nybble `d` can hold a literal. -/
theorem op_eq_indexedEscape_of_decode? {table : Table} (hlawful : table.Lawful) {word : Word}
    {row : Row} (hdecode : (ofTable table).decode? word = some row)
    (hfamily : row.entry.family = .indexed) : word.op = indexedEscape := by
  obtain ⟨hreal, hselector, -⟩ := decode?_eq_some_iff.1 hdecode
  have hentry := hlawful.wellFormed_of_mem_rows (Table.mem_realInstructions.1 hreal).1
  have hprimary : some word.op = some indexedEscape := by
    rw [← word.head?_opcodeFields, ← hselector, row.entry.head?_selector,
      hentry.primary?_of_indexed hfamily]
  exact Option.some.inj hprimary

theorem decodeAlias?_congr {table : Table} (hlawful : table.Lawful) {word other : Word}
    (hfields : word.opcodeFields = other.opcodeFields)
    (hliteral : word.op = indexedEscape → word.d = other.d) :
    (ofTable table).decodeAlias? word = (ofTable table).decodeAlias? other := by
  cases hdecode : (ofTable table).decode? word with
  | none =>
    have hother : (ofTable table).decode? other = none :=
      (decode?_congr _ hfields).symm.trans hdecode
    simp only [decodeAlias?, hdecode, hother, Option.bind_eq_bind, Option.bind_none]
  | some real =>
    have hother : (ofTable table).decode? other = some real :=
      (decode?_congr _ hfields).symm.trans hdecode
    by_cases hfamily : real.entry.family = .indexed
    · have hd := hliteral (op_eq_indexedEscape_of_decode? hlawful hdecode hfamily)
      simp only [decodeAlias?, hdecode, hother, hfields, hd]
    · -- The literal is not looked at, whatever stands in its place.
      simp only [decodeAlias?, hdecode, hother, Option.bind_eq_bind, Option.bind_some,
        if_neg hfamily]

/-- Operands have no influence on what a word is decoded to, nor on the number
    of words to fetch. Besides the operation only the preferred instruction
    depends on anything, and that is the literal in `d` behind the escape code of
    the indexed instructions. -/
theorem decoding_ignores_operands {registry : Registry} (hvalid : registry.validate = .ok ())
    {word other : Word} (hsame : word.SameOperation other) :
    (ofTable registry.table).decode? word = (ofTable registry.table).decode? other
      ∧ word.isDoubleWord = other.isDoubleWord
      ∧ ((word.op = indexedEscape → word.d = other.d) →
          (ofTable registry.table).decodeAlias? word
            = (ofTable registry.table).decodeAlias? other) := by
  have hlawful := Registry.lawful_of_validate_eq_ok hvalid
  have hfields := Word.opcodeFields_eq_iff_sameOperation.2 hsame
  exact ⟨decode?_congr _ hfields, Word.isDoubleWord_congr hfields,
    decodeAlias?_congr hlawful hfields⟩

/-- The conditional jump `jumpeq` is the same for every index register, and what
    it is built on is so for every literal too. -/
theorem decoding_ignores_operands_jumpeq :
    Word.SameOperation 0xf2a5 0xf235 ∧ Word.d 0xf2a5 = Word.d 0xf235
      ∧ (ofTable Registry.standard.table).decodeAlias? 0xf235
        = some ⟨55, ⟨"jumpeq", .jx, [15, 5, 2], true⟩⟩
      ∧ Word.SameOperation 0xf2a5 0xf735 ∧ Word.d 0xf2a5 ≠ Word.d 0xf735
      ∧ (ofTable Registry.standard.table).decode? 0xf735
        = some ⟨26, ⟨"jumpc1", .kx, [15, 5], false⟩⟩ := by
  obtain ⟨hdecode, halias⟩ := decoded_standard_jumpeq
  have hsame : Word.SameOperation 0xf2a5 0xf235 := by decide
  have hother : Word.SameOperation 0xf2a5 0xf735 := by decide
  have hliteral : Word.d 0xf2a5 = Word.d 0xf235 := by decide
  obtain ⟨-, -, hpreferred⟩ := decoding_ignores_operands Registry.validate_standard hsame
  obtain ⟨hreal, -, -⟩ := decoding_ignores_operands Registry.validate_standard hother
  exact ⟨hsame, hliteral, (hpreferred fun _ => hliteral).symm.trans halias, hother, by decide,
    hreal.symm.trans hdecode⟩

end Decoder

end Sigma16

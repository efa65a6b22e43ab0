import Sigma16.Proofs.Decoder.Lookup
import Sigma16.Proofs.Entry.FirstWord
import Sigma16.Proofs.Table.Selectors

namespace Sigma16

namespace Decoder

variable {table : Table}

theorem decode?_eq_some_of_selector (hselectors : table.SelectorsDistinct) {row : Row}
    (hrow : row ∈ table.realInstructions) {word : Word}
    (hfields : word.opcodeFields = row.entry.selector) :
    (ofTable table).decode? word = some row := by
  rw [decode?_eq_some_iff]
  refine ⟨hrow, hfields.symm, ?_⟩
  intro other hother hselector
  rw [hselectors other hother row hrow (hselector.trans hfields)]

/-- What a first word is decoded to when operands do not matter: the entry
    itself if it is real, and else its base. -/
theorem decode?_of_selector (hlawful : table.Lawful) (hselectors : table.SelectorsDistinct)
    {row : Row} (hrow : row ∈ table.instructions) {word : Word}
    (hfields : word.opcodeFields = row.entry.selector) :
    ∃ real, (ofTable table).decode? word = some real ∧ real.entry.family = row.entry.family
      ∧ if row.entry.pseudo then table.base? row.entry = some real else real = row := by
  obtain ⟨hrows, hinstruction⟩ := Table.mem_instructions.1 hrow
  cases hpseudo : row.entry.pseudo with
  | false =>
    have hreal : row ∈ table.realInstructions :=
      Table.mem_realInstructions.2 ⟨hrows, hinstruction, hpseudo⟩
    exact ⟨row, decode?_eq_some_of_selector hselectors hreal hfields, rfl, rfl⟩
  | true =>
    obtain ⟨base, hbase⟩ := hlawful.exists_baseOf hrows hpseudo
    exact ⟨base,
      decode?_eq_some_of_selector hselectors hbase.real (hfields.trans hbase.selector_eq.symm),
      hbase.family_eq.symm, hbase.base?_eq⟩

theorem resolve?_opcode_of_indexed (hlawful : table.Lawful) (hselectors : table.SelectorsDistinct)
    {row : Row} (hrow : row ∈ table.instructions) (hfamily : row.entry.family = .indexed) :
    (ofTable table).resolve? row.entry.opcode = some row := by
  rw [resolve?_eq_some_iff]
  refine ⟨hrow, rfl, ?_⟩
  intro other hother hopcode
  rw [hlawful.eq_of_opcode_eq_of_indexed hselectors hrow hfamily hother hopcode]

theorem resolve?_opcode_of_real (hlawful : table.Lawful) (hselectors : table.SelectorsDistinct)
    {row : Row} (hrow : row ∈ table.realInstructions) :
    (ofTable table).resolve? row.entry.opcode = some row := by
  rw [resolve?_eq_some_iff]
  refine ⟨(List.mem_filter.1 hrow).1, rfl, ?_⟩
  intro other hother hopcode
  rw [hlawful.eq_of_opcode_eq_of_real hselectors hrow hother hopcode]

/-- The way from an entry to its first word and back: a real instruction is
    decoded and resolved as itself, and a pseudo-instruction is decoded as its
    base. -/
def RoundTrips (table : Table) (row : Row) : Prop :=
  ∃ word, row.entry.firstWord? = some word
    ∧ if row.entry.pseudo then
        ∃ base, table.base? row.entry = some base ∧ (ofTable table).decode? word = some base
      else (ofTable table).decode? word = some row
        ∧ (ofTable table).resolve? row.entry.opcode = some row

theorem roundTrips_of_selectorsDistinct (hlawful : table.Lawful)
    (hselectors : table.SelectorsDistinct) {row : Row} (hrow : row ∈ table.instructions) :
    RoundTrips table row := by
  obtain ⟨hrows, hinstruction⟩ := Table.mem_instructions.1 hrow
  have hentry := hlawful.wellFormed_of_mem_instructions hrow
  obtain ⟨word, hword⟩ := hentry.exists_firstWord hinstruction
  obtain ⟨real, hdecode, -, hreal⟩ :=
    decode?_of_selector hlawful hselectors hrow (hentry.opcodeFields_firstWord hword)
  refine ⟨word, hword, ?_⟩
  cases hpseudo : row.entry.pseudo with
  | false =>
    rw [hpseudo] at hreal
    obtain rfl : real = row := hreal
    exact ⟨hdecode, resolve?_opcode_of_real hlawful hselectors
      (Table.mem_realInstructions.2 ⟨hrows, hinstruction, hpseudo⟩)⟩
  | true =>
    rw [hpseudo] at hreal
    exact ⟨real, hreal, hdecode⟩

/-- Two real instructions with one selector have first words that nothing tells
    apart, so that they cannot both be decoded as themselves. -/
theorem selectorsDistinct_of_roundTrips (hlawful : table.Lawful)
    (hround : ∀ row ∈ table.realInstructions, RoundTrips table row) :
    table.SelectorsDistinct := by
  intro row hrow other hother hselector
  obtain ⟨word, hword, hdecoded⟩ := hround row hrow
  obtain ⟨otherWord, hotherWord, hotherDecoded⟩ := hround other hother
  rw [if_neg (by simp [(Table.mem_realInstructions.1 hrow).2.2])] at hdecoded
  rw [if_neg (by simp [(Table.mem_realInstructions.1 hother).2.2])] at hotherDecoded
  have hentry := hlawful.wellFormed_of_mem_instructions (List.mem_filter.1 hrow).1
  have hotherEntry := hlawful.wellFormed_of_mem_instructions (List.mem_filter.1 hother).1
  have hfields : word.opcodeFields = otherWord.opcodeFields := by
    rw [hentry.opcodeFields_firstWord hword, hselector,
      hotherEntry.opcodeFields_firstWord hotherWord]
  have hsame : some row = some other := by
    rw [← hdecoded.1, ← hotherDecoded.1, decode?, hfields, decode?]
  exact Option.some.inj hsame

/-- Every instruction of an accepted registry has a first word, and so has every
    pseudo-instruction, but acceptance alone does not bring all of them back: that
    happens exactly in the registries whose real instructions differ in their
    selectors. -/
theorem roundTrips_iff_selectorsDistinct {registry : Registry}
    (hvalid : registry.validate = .ok ()) :
    (∀ row ∈ registry.table.rows, row.entry.isInstruction = true ∨ row.entry.pseudo = true →
        ∃ word, row.entry.firstWord? = some word)
      ∧ ((∀ row ∈ registry.table.rows,
            row.entry.isInstruction = true ∨ row.entry.pseudo = true →
              RoundTrips registry.table row) ↔
          registry.table.SelectorsDistinct) := by
  have hlawful := Registry.lawful_of_validate_eq_ok hvalid
  have hinstructions : ∀ row ∈ registry.table.rows,
      row.entry.isInstruction = true ∨ row.entry.pseudo = true →
        row ∈ registry.table.instructions := by
    rintro row hrow (hinstruction | hpseudo)
    · exact Table.mem_instructions.2 ⟨hrow, hinstruction⟩
    · obtain ⟨base, hbase⟩ := hlawful.exists_baseOf hrow hpseudo
      exact Table.mem_instructions.2 ⟨hrow, hbase.isInstruction⟩
  refine ⟨?_, ?_, ?_⟩
  · intro row hrow hkind
    have hinstruction := hinstructions row hrow hkind
    exact (hlawful.wellFormed_of_mem_rows hrow).exists_firstWord
      (Table.mem_instructions.1 hinstruction).2
  · intro hround
    apply selectorsDistinct_of_roundTrips hlawful
    intro row hreal
    obtain ⟨hrow, hinstruction, -⟩ := Table.mem_realInstructions.1 hreal
    exact hround row hrow (.inl hinstruction)
  · intro hselectors row hrow hkind
    exact roundTrips_of_selectorsDistinct hlawful hselectors (hinstructions row hrow hkind)

/-- All of the architecture's instructions come back from their first words. -/
theorem roundTrips_standard :
    Registry.standard.validate = .ok ()
      ∧ ∀ row ∈ Registry.standard.table.rows,
          row.entry.isInstruction = true ∨ row.entry.pseudo = true →
            RoundTrips Registry.standard.table row :=
  ⟨Registry.validate_standard,
    (roundTrips_iff_selectorsDistinct Registry.validate_standard).2.2 (by decide +kernel)⟩

/-- A registry is accepted in which two instructions of different formats share
    their selector, and the second of them is decoded as the first. -/
theorem decode?_firstWord_of_shared_selector :
    Registry.validate
        ⟨.ofEntries [⟨"add", .rrr, [0], false⟩, ⟨"addx", .rr, [0], false⟩], .ofList []⟩ = .ok ()
      ∧ Entry.firstWord? ⟨"addx", .rr, [0], false⟩ = some 0
      ∧ (ofTable (.ofEntries [⟨"add", .rrr, [0], false⟩, ⟨"addx", .rr, [0], false⟩])).decode? 0
          = some ⟨0, ⟨"add", .rrr, [0], false⟩⟩ := by
  refine ⟨?_, by decide, ?_⟩
  · rw [Registry.validate_eq_ok_iff_lawful]
    exact ⟨⟨by decide, by decide, by decide⟩, by decide⟩
  · rw [decode?_ofTable]
    decide

/-- With distinct selectors, operands make no difference to what is decoded, and
    an indexed instruction that carries its literal is preferred to its base, be
    it a pseudo-instruction or not. -/
theorem decode?_fillOperands {registry : Registry} (hvalid : registry.validate = .ok ())
    (hselectors : registry.table.SelectorsDistinct) {row : Row}
    (hrow : row ∈ registry.table.instructions) {word : Word}
    (hword : row.entry.firstWord? = some word) {d a b : UInt8} (hd : d ≤ maxNybble)
    (ha : a ≤ maxNybble) (hb : b ≤ maxNybble) :
    (∃ real, (ofTable registry.table).decode? (row.entry.fillOperands word d a b) = some real
        ∧ if row.entry.pseudo then registry.table.base? row.entry = some real else real = row)
      ∧ (row.entry.family = .indexed → row.entry.opcode.length = 3 →
          (ofTable registry.table).decodeAlias? (row.entry.fillOperands word d a b) = some row) := by
  have hlawful := Registry.lawful_of_validate_eq_ok hvalid
  have hentry := hlawful.wellFormed_of_mem_instructions hrow
  have hfields : (row.entry.fillOperands word d a b).opcodeFields = row.entry.selector := by
    rw [Entry.opcodeFields_fillOperands (hentry.allowsPrimary_firstWord hword) hd ha hb,
      hentry.opcodeFields_firstWord hword]
  obtain ⟨real, hdecode, hsame, hreal⟩ := decode?_of_selector hlawful hselectors hrow hfields
  refine ⟨⟨real, hdecode, hreal⟩, ?_⟩
  intro hfamily hlength
  have hliteral : (row.entry.fillOperands word d a b).d = word.d := by
    apply Entry.d_fillOperands hfamily _ word ha
    omega
  have hcarried : (row.entry.fillOperands word d a b).opcodeFields
      ++ [(row.entry.fillOperands word d a b).d] = row.entry.opcode := by
    rw [hfields, hliteral, ← hentry.opcode_eq_append_d hfamily hlength hword]
  rw [decodeAlias?_eq_some_iff]
  refine ⟨real, hdecode, ?_⟩
  rw [if_pos (hsame.trans hfamily), hcarried,
    resolve?_opcode_of_indexed hlawful hselectors hrow hfamily, Option.getD_some]

/-- A conditional jump with an index register and an operand in its free
    nybble. Its `d` is taken by the condition. -/
theorem decode?_fillOperands_jumpeq :
    (∃ real, (ofTable Registry.standard.table).decode? 0xf2a5 = some real
        ∧ Registry.standard.table.base? ⟨"jumpeq", .jx, [15, 5, 2], true⟩ = some real)
      ∧ (ofTable Registry.standard.table).decodeAlias? 0xf2a5
        = some ⟨55, ⟨"jumpeq", .jx, [15, 5, 2], true⟩⟩ := by
  have hjump : (⟨55, ⟨"jumpeq", .jx, [15, 5, 2], true⟩⟩ : Row)
      ∈ Registry.standard.table.instructions := by decide +kernel
  have hword : Entry.firstWord? ⟨"jumpeq", .jx, [15, 5, 2], true⟩ = some 0xf205 := by decide
  have hd : (9 : UInt8) ≤ maxNybble := by decide
  have ha : (10 : UInt8) ≤ maxNybble := by decide
  have hb : (3 : UInt8) ≤ maxNybble := by decide
  obtain ⟨hdecode, halias⟩ := decode?_fillOperands Registry.validate_standard
    (by decide +kernel) hjump hword hd ha hb
  exact ⟨hdecode, halias rfl rfl⟩

end Decoder

end Sigma16

import Sigma16.Proofs.Decoder.FetchLength

namespace Sigma16

namespace Entry.WellFormed

variable {entry : Entry} {first word : Word}

/-- A word that selects like the first word of an instruction, and carries its
    literal if there is one in the first word, is that first word with the
    operands filled in. -/
theorem fillOperands_firstWord (hentry : entry.WellFormed) (hfirst : entry.firstWord? = some first)
    (hfields : first.opcodeFields = word.opcodeFields)
    (hcarried : entry.family = .indexed → ∀ literal ∈ entry.tertiary?, word.d = literal) :
    entry.fillOperands first word.d word.a word.b = word := by
  have hop := Word.op_eq_of_opcodeFields_eq hfields
  cases hentry with
  | primitive hfamily =>
    simp only [fillOperands, hfamily]
    rw [hop, word.ofNybbles_eq_self]
  | @indexed b literal hfamily hopcode hb hliteral =>
    obtain ⟨hescape, hd, -, -⟩ := fields_of_firstWord?_indexed hopcode hfirst
    have hlow := Word.b_eq_of_opcodeFields_eq hescape hfields
    simp only [fillOperands, hfamily]
    cases literal with
    | none =>
      rw [if_pos (by simp [hopcode]), hop, hlow, word.ofNybbles_eq_self]
    | some field =>
      have hfield : word.d = field := hcarried hfamily field (by simp [tertiary?, hopcode])
      rw [if_neg (by simp [hopcode]), hop, hlow, hd, Option.getD_some, ← hfield,
        word.ofNybbles_eq_self]
  | expanded hfamily hopcode =>
    obtain ⟨hescape, -, -⟩ := fields_of_firstWord?_expanded hopcode hfirst
    have hlow := Word.ab_eq_of_opcodeFields_eq hescape hfields
    simp only [fillOperands, hfamily]
    rw [hop, hlow, word.ofLowByte_eq_self]
  | noCode _ hopcode => simp [firstWord?, hopcode] at hfirst

end Entry.WellFormed

namespace Decoder

/-- The one way in which a decoded instruction can have a literal that the word
    does not carry. A real instruction is selected by the two fields before its
    literal, and it is kept when no instruction has the literal of the word. -/
structure LiteralIgnored (table : Table) (word : Word) (row : Row) : Prop where
  family_eq : row.entry.family = .indexed
  real : row.entry.pseudo = false
  literal_ne : ∃ literal, row.entry.tertiary? = some literal ∧ word.d ≠ literal
  decode?_eq : (ofTable table).decode? word = some row
  resolve?_eq : (ofTable table).resolve? (word.opcodeFields ++ [word.d]) = none

/-- An indexed instruction that is found by its whole opcode has its literal
    from the word. -/
theorem tertiary?_of_resolve? {table : Table} (hlawful : table.Lawful) {word : Word} {row : Row}
    (hfamily : row.entry.family = .indexed) (hselector : row.entry.selector = word.opcodeFields)
    (hresolve : (ofTable table).resolve? (word.opcodeFields ++ [word.d]) = some row) :
    row.entry.tertiary? = some word.d := by
  obtain ⟨hrow, hopcode, -⟩ := resolve?_eq_some_iff.1 hresolve
  have hlength : word.opcodeFields.length = 2 := by
    rw [← hselector]
    exact hlawful.length_selector_of_indexed hrow hfamily
  rw [Entry.tertiary?, hopcode, List.getElem?_append_right (Nat.le_of_eq hlength), hlength]
  rfl

theorem carried_or_literalIgnored {table : Table} (hlawful : table.Lawful) {word : Word} {row : Row}
    (halias : (ofTable table).decodeAlias? word = some row) :
    (row.entry.family = .indexed → ∀ literal ∈ row.entry.tertiary?, word.d = literal)
      ∨ LiteralIgnored table word row := by
  have hselector := (selector_of_decodeAlias? hlawful halias).2
  obtain ⟨real, hdecode, ⟨-, hresolve⟩ | ⟨hnone, rfl⟩⟩ :=
    decodeAlias?_eq_some_iff_resolve?.1 halias
  -- The row is either the one with the whole opcode of the word or the one that
  -- was decoded, and only the latter can have another literal.
  · left
    intro hfamily literal hliteral
    rw [tertiary?_of_resolve? hlawful hfamily hselector hresolve] at hliteral
    exact Option.some.inj hliteral
  · by_cases hcarried : row.entry.family = .indexed →
        ∀ literal ∈ row.entry.tertiary?, word.d = literal
    · exact .inl hcarried
    · right
      push Not at hcarried
      obtain ⟨hfamily, literal, hliteral, hne⟩ := hcarried
      exact {
        family_eq := hfamily
        real := (Table.mem_realInstructions.1 (decode?_eq_some_iff.1 hdecode).1).2.2
        literal_ne := ⟨literal, hliteral, hne⟩
        decode?_eq := hdecode
        resolve?_eq := hnone hfamily }

/-- What is decoded agrees with the word in all opcode fields that the word
    carries, and its first word differs from the word in operands alone, unless
    its literal is ignored. In that case the two also differ in the nybble `d`,
    where the literal stands. -/
theorem decodeAlias?_agrees {registry : Registry} (hvalid : registry.validate = .ok ())
    {word : Word} {row : Row} (halias : (ofTable registry.table).decodeAlias? word = some row) :
    word.opcodeFields <+: row.entry.opcode
      ∧ ∃ first, row.entry.firstWord? = some first
        ∧ (((row.entry.family = .indexed → ∀ literal ∈ row.entry.tertiary?, word.d = literal)
              ∧ word = row.entry.fillOperands first word.d word.a word.b)
            ∨ (LiteralIgnored registry.table word row
              ∧ word = .ofNybbles first.op word.d word.a first.b)) := by
  have hlawful := Registry.lawful_of_validate_eq_ok hvalid
  obtain ⟨hrow, hselector⟩ := selector_of_decodeAlias? hlawful halias
  have hentry := hlawful.wellFormed_of_mem_instructions hrow
  obtain ⟨first, hfirst⟩ := hentry.exists_firstWord (Table.mem_instructions.1 hrow).2
  have hfields : first.opcodeFields = word.opcodeFields :=
    (hentry.opcodeFields_firstWord hfirst).trans hselector
  refine ⟨hselector ▸ List.take_prefix 2 _, first, hfirst, ?_⟩
  rcases carried_or_literalIgnored hlawful halias with hcarried | hignored
  · exact .inl ⟨hcarried, (hentry.fillOperands_firstWord hfirst hfields hcarried).symm⟩
  · refine .inr ⟨hignored, ?_⟩
    have hescape : first.op = indexedEscape := by
      simpa [hignored.family_eq, Family.allowsPrimary] using hentry.allowsPrimary_firstWord hfirst
    rw [Word.op_eq_of_opcodeFields_eq hfields, Word.b_eq_of_opcodeFields_eq hescape hfields,
      word.ofNybbles_eq_self]

/-- The literal of a pseudo-instruction is never ignored. -/
theorem decodeAlias?_agrees_jumpeq :
    (ofTable Registry.standard.table).decodeAlias? 0xf2a5
        = some ⟨55, ⟨"jumpeq", .jx, [15, 5, 2], true⟩⟩
      ∧ Word.opcodeFields 0xf2a5 <+: [15, 5, 2]
      ∧ ∃ first, Entry.firstWord? ⟨"jumpeq", .jx, [15, 5, 2], true⟩ = some first
        ∧ 0xf2a5 = Entry.fillOperands ⟨"jumpeq", .jx, [15, 5, 2], true⟩ first 2 10 5 := by
  have halias := decoded_standard_jumpeq.2
  obtain ⟨hcarried, first, hfirst, ⟨-, hword⟩ | ⟨hignored, -⟩⟩ :=
    decodeAlias?_agrees Registry.validate_standard halias
  · exact ⟨halias, hcarried, first, hfirst, hword⟩
  · exact absurd hignored.real (by decide)

/-- The literal of the architecture's `jump` is ignored: a word with another
    value in its place is decoded as `jump` all the same. -/
theorem decodeAlias?_ignores_jump :
    Registry.standard.validate = .ok ()
      ∧ (ofTable Registry.standard.table).decodeAlias? 0xf103
          = some ⟨24, ⟨"jump", .jx, [15, 3, 0], false⟩⟩
      ∧ Entry.family ⟨"jump", .jx, [15, 3, 0], false⟩ = .indexed
      ∧ Entry.tertiary? ⟨"jump", .jx, [15, 3, 0], false⟩ = some 0
      ∧ Word.d 0xf103 ≠ 0 := by
  refine ⟨Registry.validate_standard, ?_, rfl, rfl, by decide⟩
  rw [decodeAlias?_eq_some_iff]
  simp only [decode?_ofTable, resolve?_ofTable]
  refine ⟨⟨24, ⟨"jump", .jx, [15, 3, 0], false⟩⟩, ?_, ?_⟩ <;> decide +kernel

end Decoder

end Sigma16

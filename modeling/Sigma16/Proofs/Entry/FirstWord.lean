import Sigma16.Decoder
import Sigma16.Proofs.Consistency.WellFormed
import Sigma16.Proofs.Entry.PackedFields

namespace Sigma16

theorem Format.wordCount_eq_one_of_family_eq_primitive {format : Format}
    (hfamily : format.family = .primitive) : format.wordCount = 1 := by
  cases format <;> first | rfl | cases hfamily

theorem Format.wordCount_eq_two_of_family_eq_indexed {format : Format}
    (hfamily : format.family = .indexed) : format.wordCount = 2 := by
  cases format <;> first | rfl | cases hfamily

theorem Format.wordCount_of_family_eq_expanded {format : Format}
    (hfamily : format.family = .expanded) : format.wordCount = 1 ∨ format.wordCount = 2 := by
  cases format <;> first | exact .inl rfl | exact .inr rfl | cases hfamily

namespace Entry

theorem fields_of_firstWord?_primitive {entry : Entry} {op : UInt8} {word : Word}
    (hopcode : entry.opcode = [op]) (hop : op < expandedEscape)
    (hword : entry.firstWord? = some word) : word.op = op ∧ word.d = 0 ∧ word.ab = 0 := by
  have hpacked := packedIn_of_firstWord?_eq_some hword
  have hwordOp : word.op = op := by simpa [primary?, hopcode, eq_comm] using hpacked.primary
  exact ⟨hwordOp, hpacked.primitive (hwordOp ▸ hop)⟩

theorem fields_of_firstWord?_indexed {entry : Entry} {b : UInt8} {literal : Option UInt8}
    {word : Word} (hopcode : entry.opcode = indexedEscape :: b :: literal.toList)
    (hword : entry.firstWord? = some word) :
    word.op = indexedEscape ∧ word.d = literal.getD 0 ∧ word.a = 0 ∧ word.b = b := by
  have hpacked := packedIn_of_firstWord?_eq_some hword
  have hwordOp : word.op = indexedEscape := by
    simpa [primary?, hopcode, eq_comm] using hpacked.primary
  obtain ⟨hsecondary, hd, ha⟩ := hpacked.indexed hwordOp
  have htertiary : entry.tertiary? = literal := by
    cases literal <;> simp [tertiary?, hopcode]
  have hb : word.b = b := by simpa [secondary?, hopcode, eq_comm] using hsecondary
  exact ⟨hwordOp, htertiary ▸ hd, ha, hb⟩

theorem fields_of_firstWord?_expanded {entry : Entry} {ab : UInt8} {literal : Option UInt8}
    {word : Word} (hopcode : entry.opcode = expandedEscape :: ab :: literal.toList)
    (hword : entry.firstWord? = some word) :
    word.op = expandedEscape ∧ word.d = 0 ∧ word.ab = ab := by
  have hpacked := packedIn_of_firstWord?_eq_some hword
  have hwordOp : word.op = expandedEscape := by
    simpa [primary?, hopcode, eq_comm] using hpacked.primary
  obtain ⟨hsecondary, hd⟩ := hpacked.expanded hwordOp
  have hab : word.ab = ab := by simpa [secondary?, hopcode, eq_comm] using hsecondary
  exact ⟨hwordOp, hd, hab⟩

/-- The word that results when operands are put in the nybbles that the opcode
    of an entry leaves free. A literal of an indexed instruction holds its place
    in `d`. -/
def fillOperands (entry : Entry) (word : Word) (d a b : UInt8) : Word :=
  match entry.family with
  | .primitive => .ofNybbles word.op d a b
  | .indexed =>
    if entry.opcode.length = 2 then .ofNybbles word.op d a word.b
    else .ofNybbles word.op word.d a word.b
  | .expanded => .ofLowByte word.op d word.ab
  | .data | .directive | .marker => word

/-- Operands leave the opcode fields of a word alone when its primary opcode
    belongs to the family of the instruction. -/
theorem opcodeFields_fillOperands {entry : Entry} {word : Word}
    (hprimary : entry.family.allowsPrimary word.op = true) {d a b : UInt8} (hd : d ≤ maxNybble)
    (ha : a ≤ maxNybble) (hb : b ≤ maxNybble) :
    (entry.fillOperands word d a b).opcodeFields = word.opcodeFields := by
  have hwordOp := word.op_le_maxNybble
  simp only [fillOperands]
  cases hfamily : entry.family with
  | primitive =>
    have hop : word.op < expandedEscape := by
      simpa [hfamily, Family.allowsPrimary] using hprimary
    obtain ⟨hfilled, -, -, -⟩ := Word.nybbles_ofNybbles hwordOp hd ha hb
    rw [Word.opcodeFields_of_op_lt hop, Word.opcodeFields_of_op_lt (hfilled.symm ▸ hop), hfilled]
  | indexed =>
    have hop : word.op = indexedEscape := by simpa [hfamily, Family.allowsPrimary] using hprimary
    have hkept : ∀ field ≤ maxNybble,
        (Word.ofNybbles word.op field a word.b).opcodeFields = word.opcodeFields := by
      intro field hfield
      obtain ⟨hfilled, -, -, hfilledB⟩ :=
        Word.nybbles_ofNybbles hwordOp hfield ha word.b_le_maxNybble
      rw [Word.opcodeFields_of_op_eq_indexedEscape hop,
        Word.opcodeFields_of_op_eq_indexedEscape (hfilled.trans hop), hfilledB]
    by_cases hlength : entry.opcode.length = 2
    · simp only [hlength, if_true]
      exact hkept d hd
    · simp only [hlength, if_false]
      exact hkept word.d word.d_le_maxNybble
  | expanded =>
    have hop : word.op = expandedEscape := by simpa [hfamily, Family.allowsPrimary] using hprimary
    obtain ⟨hfilled, -, hfilledAb⟩ := Word.fields_ofLowByte word.ab hwordOp hd
    rw [Word.opcodeFields_of_op_eq_expandedEscape hop,
      Word.opcodeFields_of_op_eq_expandedEscape (hfilled.trans hop), hfilledAb]
  | data | directive | marker => rfl

theorem d_fillOperands {entry : Entry} (hfamily : entry.family = .indexed)
    (hopcode : entry.opcode.length ≠ 2) (word : Word) {d a b : UInt8} (ha : a ≤ maxNybble) :
    (entry.fillOperands word d a b).d = word.d := by
  rw [fillOperands, hfamily]
  dsimp only
  rw [if_neg hopcode]
  exact (Word.nybbles_ofNybbles word.op_le_maxNybble word.d_le_maxNybble ha
    word.b_le_maxNybble).2.1

namespace WellFormed

variable {entry : Entry}

theorem packs (hentry : entry.WellFormed) (hinstruction : entry.isInstruction = true) :
    entry.Packs := by
  cases hentry with
  | primitive hfamily hopcode hop => exact .primitive hfamily hopcode hop
  | @indexed b literal hfamily hopcode hb hliteral =>
    have htertiary : entry.tertiary? = literal := by
      cases literal <;> simp [tertiary?, hopcode]
    exact .indexed hfamily hopcode hb (htertiary ▸ hliteral)
  | expanded hfamily hopcode => exact .expanded hfamily hopcode
  | noCode hnot => rw [hnot] at hinstruction; cases hinstruction

theorem exists_firstWord (hentry : entry.WellFormed) (hinstruction : entry.isInstruction = true) :
    ∃ word, entry.firstWord? = some word :=
  packs_iff_exists_firstWord.1 (hentry.packs hinstruction)

theorem allowsPrimary_firstWord (hentry : entry.WellFormed) {word : Word}
    (hword : entry.firstWord? = some word) : entry.family.allowsPrimary word.op = true := by
  cases hentry with
  | primitive hfamily hopcode hop =>
    rw [(fields_of_firstWord?_primitive hopcode hop hword).1, hfamily]
    exact decide_eq_true hop
  | indexed hfamily hopcode hb hliteral =>
    rw [(fields_of_firstWord?_indexed hopcode hword).1, hfamily]
    rfl
  | expanded hfamily hopcode =>
    rw [(fields_of_firstWord?_expanded hopcode hword).1, hfamily]
    rfl
  | noCode hinstruction hopcode => simp [firstWord?, hopcode] at hword

theorem opcodeFields_firstWord (hentry : entry.WellFormed) {word : Word}
    (hword : entry.firstWord? = some word) : word.opcodeFields = entry.selector := by
  cases hentry with
  | primitive hfamily hopcode hop =>
    have hwordOp := (fields_of_firstWord?_primitive hopcode hop hword).1
    rw [Word.opcodeFields_of_op_lt (hwordOp.symm ▸ hop), hwordOp, selector, hopcode]
    rfl
  | indexed hfamily hopcode hb hliteral =>
    obtain ⟨hwordOp, -, -, hwordB⟩ :=
      fields_of_firstWord?_indexed hopcode hword
    rw [Word.opcodeFields_of_op_eq_indexedEscape hwordOp, hwordB, selector, hopcode]
    rfl
  | expanded hfamily hopcode =>
    obtain ⟨hwordOp, -, hwordAb⟩ := fields_of_firstWord?_expanded hopcode hword
    rw [Word.opcodeFields_of_op_eq_expandedEscape hwordOp, hwordAb, selector, hopcode]
    rfl
  | noCode hinstruction hopcode => simp [firstWord?, hopcode] at hword

/-- An indexed instruction with a literal carries all of its opcode in its first
    word. -/
theorem opcode_eq_append_d (hentry : entry.WellFormed) (hfamily : entry.family = .indexed)
    (hlength : entry.opcode.length = 3) {word : Word} (hword : entry.firstWord? = some word) :
    entry.opcode = entry.selector ++ [word.d] := by
  obtain ⟨b, literal, hopcode, hb, hliteral⟩ := hentry.opcode_of_indexed hfamily
  obtain ⟨-, hd, -, -⟩ := fields_of_firstWord?_indexed hopcode hword
  cases literal with
  | none => rw [hopcode] at hlength; cases hlength
  | some field => rw [hd, selector, hopcode]; rfl

/-- A well-formed instruction takes the number of words that its first word
    calls for. -/
theorem wordCount_eq_ite (hentry : entry.WellFormed) {word : Word}
    (hword : entry.firstWord? = some word) :
    entry.wordCount = if word.isDoubleWord then 2 else 1 := by
  cases hentry with
  | primitive hfamily hopcode hop =>
    have hwordOp := (fields_of_firstWord?_primitive hopcode hop hword).1
    rw [Word.isDoubleWord_of_op_lt (hwordOp.symm ▸ hop)]
    exact Format.wordCount_eq_one_of_family_eq_primitive hfamily
  | indexed hfamily hopcode hb hliteral =>
    have hwordOp := (fields_of_firstWord?_indexed hopcode hword).1
    rw [Word.isDoubleWord_of_op_eq_indexedEscape hwordOp]
    exact Format.wordCount_eq_two_of_family_eq_indexed hfamily
  | expanded hfamily hopcode hwidth =>
    obtain ⟨hwordOp, -, hwordAb⟩ := fields_of_firstWord?_expanded hopcode hword
    have hdouble := Word.isDoubleWord_of_op_eq_expandedEscape hwordOp
    rw [hwordAb, hwidth] at hdouble
    rcases Format.wordCount_of_family_eq_expanded hfamily with hone | htwo
    · have hsingle : ¬ word.isDoubleWord = true := fun h => hdouble.1 h hone
      rw [if_neg hsingle]
      exact hone
    · have hnotOne : entry.wordCount ≠ 1 := by
        rw [wordCount, htwo]
        decide
      rw [if_pos (hdouble.2 hnotOne)]
      exact htwo
  | noCode hinstruction hopcode => simp [firstWord?, hopcode] at hword

/-- Instructions with one selector generate the same number of words, whatever
    their formats. -/
theorem wordCount_eq_of_selector_eq {other : Entry} (hentry : entry.WellFormed)
    (hother : other.WellFormed) (hinstruction : entry.isInstruction = true)
    (hotherInstruction : other.isInstruction = true) (hselector : entry.selector = other.selector) :
    entry.wordCount = other.wordCount := by
  obtain ⟨word, hword⟩ := hentry.exists_firstWord hinstruction
  obtain ⟨otherWord, hotherWord⟩ := hother.exists_firstWord hotherInstruction
  have hfields : word.opcodeFields = otherWord.opcodeFields := by
    rw [hentry.opcodeFields_firstWord hword, hother.opcodeFields_firstWord hotherWord, hselector]
  rw [hentry.wordCount_eq_ite hword, hother.wordCount_eq_ite hotherWord,
    Word.isDoubleWord_congr hfields]

end WellFormed

end Entry

end Sigma16

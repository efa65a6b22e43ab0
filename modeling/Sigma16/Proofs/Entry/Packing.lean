import Sigma16.Proofs.Consistency.Verdict
import Sigma16.Proofs.Entry.FirstWord

namespace Sigma16.Entry

/-- The nybbles of a first word that the opcode of an entry leaves to its
    operands. A literal of an indexed instruction takes up `d`. -/
def operandNybbles (entry : Entry) (word : Word) : List UInt8 :=
  match entry.family with
  | .primitive => [word.d, word.a, word.b]
  | .indexed => if entry.opcode.length = 2 then [word.d, word.a] else [word.a]
  | .expanded => [word.d]
  | .data | .directive | .marker => []

namespace WellFormed

variable {entry : Entry} {word : Word}

theorem selector_eq_opcode_of_primitive (hentry : entry.WellFormed)
    (hfamily : entry.family = .primitive) : entry.selector = entry.opcode := by
  have hcount := hentry.allowsFieldCount
  simp only [hfamily, Family.allowsFieldCount, decide_eq_true_eq] at hcount
  apply List.take_of_length_le
  omega

theorem opcode_eq_nil (hentry : entry.WellFormed) (hnot : entry.isInstruction = false) :
    entry.opcode = [] := by
  cases hentry with
  | primitive hfamily | indexed hfamily | expanded hfamily =>
    rw [isInstruction_eq_family, hfamily] at hnot
    cases hnot
  | noCode hinstruction hopcode => exact hopcode

/-- The nybble `d` of an indexed instruction holds its literal, or nothing. -/
theorem d_firstWord_of_indexed (hentry : entry.WellFormed) (hfamily : entry.family = .indexed)
    (hword : entry.firstWord? = some word) : word.d = entry.tertiary?.getD 0 := by
  obtain ⟨b, literal, hopcode, hb, hliteral⟩ := hentry.opcode_of_indexed hfamily
  obtain ⟨-, hd, -, -⟩ := fields_of_firstWord?_indexed hopcode hword
  rw [hd, tertiary?, hopcode]
  cases literal <;> rfl

theorem operandNybbles_firstWord (hentry : entry.WellFormed)
    (hword : entry.firstWord? = some word) : ∀ nybble ∈ entry.operandNybbles word, nybble = 0 := by
  cases hentry with
  | primitive hfamily hopcode hop =>
    obtain ⟨-, hwordD, hwordAb⟩ := fields_of_firstWord?_primitive hopcode hop hword
    obtain ⟨hwordA, hwordB⟩ := Word.a_b_eq_zero_of_ab_eq_zero hwordAb
    simp [operandNybbles, hfamily, hwordD, hwordA, hwordB]
  | @indexed b literal hfamily hopcode hb hliteral =>
    obtain ⟨-, hwordD, hwordA, -⟩ :=
      fields_of_firstWord?_indexed hopcode hword
    cases literal with
    | none => simp [operandNybbles, hfamily, hopcode, hwordD, hwordA]
    | some field => simp [operandNybbles, hfamily, hopcode, hwordA]
  | expanded hfamily hopcode =>
    obtain ⟨-, hwordD, -⟩ := fields_of_firstWord?_expanded hopcode hword
    simp [operandNybbles, hfamily, hwordD]
  | noCode hinstruction hopcode => simp [firstWord?, hopcode] at hword

/-- The first word of an indexed instruction whose whole opcode, literal
    included, is carried by some word: that word without its operand. -/
theorem firstWord?_eq_clearA (hentry : entry.WellFormed) (hfamily : entry.family = .indexed)
    (hopcode : entry.opcode = word.opcodeFields ++ [word.d])
    (hselector : entry.selector = word.opcodeFields) :
    entry.firstWord? = some word.clearA := by
  have hinstruction : entry.isInstruction = true := by
    rw [isInstruction_eq_family, hfamily, Family.isInstruction]
  obtain ⟨first, hfirst⟩ := hentry.exists_firstWord hinstruction
  have hfields : first.opcodeFields = word.opcodeFields :=
    (hentry.opcodeFields_firstWord hfirst).trans hselector
  obtain ⟨b, literal, hshape, -, -⟩ := hentry.opcode_of_indexed hfamily
  obtain ⟨hescape, -, ha, -⟩ := fields_of_firstWord?_indexed hshape hfirst
  have hliteral : first.d = word.d := by
    rw [hentry.d_firstWord_of_indexed hfamily hfirst, tertiary?, hopcode, ← hselector, selector,
      hshape]
    rfl
  rw [hfirst, Word.clearA_eq_ofNybbles, ← Word.op_eq_of_opcodeFields_eq hfields, ← hliteral, ← ha,
    ← Word.b_eq_of_opcodeFields_eq hescape hfields, first.ofNybbles_eq_self]

end WellFormed

/-- An instruction and its first word: the opcode comes back from the word as
    far as the word carries it, operands are left blank, and the word calls for
    as many words as the format generates. -/
structure PacksInto (entry : Entry) (word : Word) : Prop where
  firstWord?_eq : entry.firstWord? = some word
  opcodeFields_eq : word.opcodeFields = entry.selector
  primitive : entry.family = .primitive → word.opcodeFields = entry.opcode
  indexed : entry.family = .indexed → word.d = entry.tertiary?.getD 0
  operands : ∀ nybble ∈ entry.operandNybbles word, nybble = 0
  isDoubleWord_iff : word.isDoubleWord = true ↔ entry.wordCount = 2

theorem WellFormed.exists_packsInto {entry : Entry} (hentry : entry.WellFormed)
    (hinstruction : entry.isInstruction = true) : ∃ word, entry.PacksInto word := by
  obtain ⟨word, hword⟩ := hentry.exists_firstWord hinstruction
  have hfields := hentry.opcodeFields_firstWord hword
  refine ⟨word, {
    firstWord?_eq := hword
    opcodeFields_eq := hfields
    primitive := fun hfamily => hfields.trans (hentry.selector_eq_opcode_of_primitive hfamily)
    indexed := fun hfamily => hentry.d_firstWord_of_indexed hfamily hword
    operands := hentry.operandNybbles_firstWord hword
    isDoubleWord_iff := ?_ }⟩
  rw [hentry.wordCount_eq_ite hword]
  cases word.isDoubleWord <;> simp

/-- Every instruction of an accepted registry packs into a first word and comes
    back from it, and nothing else packs at all. -/
theorem packsInto_of_validate {registry : Registry} (hvalid : registry.validate = .ok ())
    {entry : Entry} (hmem : entry ∈ registry.table.entries) :
    (entry.isInstruction = true → ∃ word, entry.PacksInto word)
      ∧ (entry.isInstruction = false → entry.opcode = [] ∧ entry.firstWord? = none) := by
  have hentry := (Registry.lawful_of_validate_eq_ok hvalid).wellFormed entry hmem
  refine ⟨hentry.exists_packsInto, ?_⟩
  intro hnot
  have hopcode := hentry.opcode_eq_nil hnot
  exact ⟨hopcode, by simp [firstWord?, hopcode]⟩

/-- The literal of `and` belongs to the second word, and `org` has no word. -/
theorem packsInto_standard_and :
    Registry.standard.validate = .ok ()
      ∧ (∃ word, PacksInto ⟨"and", .rrrExp, [14, 22, 1], true⟩ word)
      ∧ firstWord? ⟨"org", .orgDirective, [], false⟩ = none := by
  have hand : ⟨"and", .rrrExp, [14, 22, 1], true⟩ ∈ Registry.standard.table.entries := by
    decide +kernel
  have horg : ⟨"org", .orgDirective, [], false⟩ ∈ Registry.standard.table.entries := by
    decide +kernel
  exact ⟨Registry.validate_standard, (packsInto_of_validate Registry.validate_standard hand).1 rfl,
    ((packsInto_of_validate Registry.validate_standard horg).2 rfl).2⟩

end Sigma16.Entry

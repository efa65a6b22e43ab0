import Sigma16.Consistency
import Sigma16.Proofs.Word.Fields
import Mathlib.Data.List.Basic

namespace Sigma16.Entry

/-- An entry whose opcode fields go with its format. The two escape codes are
    followed by a secondary opcode, and a literal may stand behind it; what is
    no instruction has no fields at all. -/
inductive WellFormed (entry : Entry) : Prop where
  | primitive {op : UInt8} (hfamily : entry.family = .primitive) (hopcode : entry.opcode = [op])
      (hop : op < expandedEscape)
  | indexed {b : UInt8} {literal : Option UInt8} (hfamily : entry.family = .indexed)
      (hopcode : entry.opcode = indexedEscape :: b :: literal.toList) (hb : b ≤ maxNybble)
      (hliteral : ∀ d ∈ literal, d ≤ maxNybble)
  | expanded {ab : UInt8} {literal : Option UInt8} (hfamily : entry.family = .expanded)
      (hopcode : entry.opcode = expandedEscape :: ab :: literal.toList)
      (hwidth : ab < firstTwoWordExpanded ↔ entry.wordCount = 1)
      (hliteral : ∀ field ∈ literal, field ≤ maxNybble)
  | noCode (hinstruction : entry.isInstruction = false) (hopcode : entry.opcode = [])

theorem isInstruction_eq_family (entry : Entry) :
    entry.isInstruction = entry.family.isInstruction :=
  rfl

theorem WellFormed.opcode_of_indexed {entry : Entry} (hentry : entry.WellFormed)
    (hfamily : entry.family = .indexed) :
    ∃ b, ∃ literal : Option UInt8, entry.opcode = indexedEscape :: b :: literal.toList
      ∧ b ≤ maxNybble ∧ ∀ d ∈ literal, d ≤ maxNybble := by
  cases hentry with
  | primitive hother => rw [hother] at hfamily; cases hfamily
  | indexed _ hopcode hb hliteral => exact ⟨_, _, hopcode, hb, hliteral⟩
  | expanded hother => rw [hother] at hfamily; cases hfamily
  | noCode hother => rw [isInstruction_eq_family, hfamily] at hother; cases hother

theorem partitionViolations_eq_nil_iff {entry : Entry} :
    entry.partitionViolations = [] ↔
      ∀ primary ∈ entry.primary?, entry.family.allowsPrimary primary = true := by
  unfold partitionViolations
  cases entry.primary? with
  | none => simp
  | some primary => simp

theorem expandedWidthViolations_eq_nil_iff {entry : Entry} :
    entry.expandedWidthViolations = [] ↔
      (entry.family = .expanded → ∀ secondary ∈ entry.secondary?,
        (secondary < firstTwoWordExpanded ↔ entry.wordCount = 1)) := by
  unfold expandedWidthViolations
  split
  next secondary hfamily hsecondary => simp [hfamily, hsecondary]
  next hother =>
    simp only [true_iff]
    intro hfamily secondary hsecondary
    exact absurd hsecondary (hother secondary hfamily)

theorem shapeViolations_eq_nil_iff {entry : Entry} :
    entry.shapeViolations = [] ↔
      entry.family.allowsFieldCount entry.opcode.length = true
        ∧ (∀ primary ∈ entry.primary?, entry.family.allowsPrimary primary = true)
        ∧ (entry.family = .expanded → ∀ secondary ∈ entry.secondary?,
            (secondary < firstTwoWordExpanded ↔ entry.wordCount = 1)) := by
  unfold shapeViolations
  split
  next hcount =>
    rw [List.append_eq_nil_iff, partitionViolations_eq_nil_iff, expandedWidthViolations_eq_nil_iff]
    simp [hcount]
  next hcount => simp [hcount]

theorem widthViolations_eq_nil_iff {entry : Entry} :
    entry.widthViolations = [] ↔
      ∀ position value, entry.opcode[position]? = some value → maxNybble < value →
        position = 1 ∧ entry.family = .expanded := by
  rw [widthViolations, List.map_eq_nil_iff, List.filter_eq_nil_iff]
  simp only [Prod.forall, List.mem_zipIdx_iff_getElem?]
  constructor
  · intro hnone position value hvalue hwide
    simpa [hwide] using hnone value position hvalue
  · intro hbyte value position hvalue
    by_cases hwide : maxNybble < value
    · obtain ⟨hposition, hfamily⟩ := hbyte position value hvalue hwide
      simp [hposition, hfamily]
    · simp [hwide]

/-- A primary opcode is followed by a secondary one, and then by a literal or
    by nothing, if two or three fields are allowed. -/
private theorem exists_literal_of_length (fields : List UInt8)
    (hlength : fields.length = 2 ∨ fields.length = 3) :
    ∃ op secondary, ∃ literal : Option UInt8, fields = op :: secondary :: literal.toList := by
  rcases hlength with htwo | hthree
  · obtain ⟨op, secondary, rfl⟩ := List.length_eq_two.1 htwo
    exact ⟨op, secondary, none, rfl⟩
  · obtain ⟨op, secondary, field, rfl⟩ := List.length_eq_three.1 hthree
    exact ⟨op, secondary, some field, rfl⟩

theorem wellFormed_of_violations_eq_nil {entry : Entry} (hviolations : entry.violations = []) :
    entry.WellFormed := by
  obtain ⟨hshape, hwidths⟩ := List.append_eq_nil_iff.1 hviolations
  obtain ⟨hcount, hprimary, hsecondary⟩ := shapeViolations_eq_nil_iff.1 hshape
  have hnarrow : ∀ (position : Nat) (value : UInt8), entry.opcode[position]? = some value →
      (position = 1 → entry.family ≠ .expanded) → value ≤ maxNybble := by
    intro position value hvalue hbyte
    by_contra hwide
    obtain ⟨hposition, hfamily⟩ :=
      widthViolations_eq_nil_iff.1 hwidths position value hvalue (UInt8.not_le.1 hwide)
    exact hbyte hposition hfamily
  cases hfamily : entry.family with
  | primitive =>
    have hone : entry.opcode.length = 1 := by simpa [hfamily, Family.allowsFieldCount] using hcount
    obtain ⟨op, hopcode⟩ := List.length_eq_one_iff.1 hone
    refine .primitive hfamily hopcode ?_
    simpa [hfamily, primary?, hopcode, Family.allowsPrimary] using hprimary op
  | indexed =>
    obtain ⟨op, b, literal, hopcode⟩ := exists_literal_of_length entry.opcode
      (by simpa [hfamily, Family.allowsFieldCount] using hcount)
    have hop : op = indexedEscape := by
      simpa [hfamily, primary?, hopcode, Family.allowsPrimary] using hprimary op
    subst hop
    refine .indexed hfamily hopcode (hnarrow 1 b (by simp [hopcode]) (by simp [hfamily])) ?_
    rintro d rfl
    exact hnarrow 2 d (by simp [hopcode]) (by simp)
  | expanded =>
    obtain ⟨op, ab, literal, hopcode⟩ := exists_literal_of_length entry.opcode
      (by simpa [hfamily, Family.allowsFieldCount] using hcount)
    have hop : op = expandedEscape := by
      simpa [hfamily, primary?, hopcode, Family.allowsPrimary] using hprimary op
    subst hop
    refine .expanded hfamily hopcode (hsecondary hfamily ab (by simp [secondary?, hopcode])) ?_
    rintro field rfl
    exact hnarrow 2 field (by simp [hopcode]) (by simp)
  | data | directive | marker =>
    refine .noCode (by rw [isInstruction_eq_family, hfamily, Family.isInstruction]) ?_
    simpa [hfamily, Family.allowsFieldCount] using hcount

private theorem widthViolations_eq_nil_of_forall_le {entry : Entry}
    (hfields : ∀ value ∈ entry.opcode, value ≤ maxNybble) : entry.widthViolations = [] := by
  refine widthViolations_eq_nil_iff.2 ?_
  intro position value hvalue hwide
  exact absurd (hfields value (List.mem_of_getElem? hvalue)) (UInt8.not_le.2 hwide)

theorem WellFormed.shapeViolations_eq_nil {entry : Entry} (hentry : entry.WellFormed) :
    entry.shapeViolations = [] := by
  rw [shapeViolations_eq_nil_iff]
  cases hentry with
  | primitive hfamily hopcode hop =>
    simp [hfamily, hopcode, primary?, Family.allowsFieldCount, Family.allowsPrimary, hop]
  | @indexed b literal hfamily hopcode hb hliteral =>
    cases literal <;> simp [hfamily, hopcode, primary?, Family.allowsFieldCount, Family.allowsPrimary]
  | @expanded ab literal hfamily hopcode hwidth hliteral =>
    cases literal <;>
      simp [hfamily, hopcode, primary?, secondary?, Family.allowsFieldCount, Family.allowsPrimary,
        hwidth]
  | noCode hinstruction hopcode =>
    rw [isInstruction_eq_family] at hinstruction
    cases hfamily : entry.family <;>
      simp_all [primary?, Family.isInstruction, Family.allowsFieldCount]

theorem WellFormed.allowsFieldCount {entry : Entry} (hentry : entry.WellFormed) :
    entry.family.allowsFieldCount entry.opcode.length = true :=
  (shapeViolations_eq_nil_iff.1 hentry.shapeViolations_eq_nil).1

theorem WellFormed.family_eq_indexed_of_primary? {entry : Entry} (hentry : entry.WellFormed)
    (hprimary : entry.primary? = some indexedEscape) : entry.family = .indexed := by
  have hallowed : entry.family.allowsPrimary indexedEscape = true :=
    (shapeViolations_eq_nil_iff.1 hentry.shapeViolations_eq_nil).2.1 indexedEscape hprimary
  revert hallowed
  cases entry.family <;> decide

theorem WellFormed.primary?_of_indexed {entry : Entry} (hentry : entry.WellFormed)
    (hfamily : entry.family = .indexed) : entry.primary? = some indexedEscape := by
  obtain ⟨b, literal, hopcode, -, -⟩ := hentry.opcode_of_indexed hfamily
  rw [primary?, hopcode]
  rfl

theorem WellFormed.widthViolations_eq_nil {entry : Entry} (hentry : entry.WellFormed) :
    entry.widthViolations = [] := by
  cases hentry with
  | @primitive op hfamily hopcode hop =>
    refine widthViolations_eq_nil_of_forall_le ?_
    simpa [hopcode] using le_maxNybble_of_lt_expandedEscape hop
  | @indexed b literal hfamily hopcode hb hliteral =>
    refine widthViolations_eq_nil_of_forall_le ?_
    have hescape : indexedEscape ≤ maxNybble := by decide
    simpa [hopcode, hescape, hb] using hliteral
  | @expanded ab literal hfamily hopcode hwidth hliteral =>
    refine widthViolations_eq_nil_iff.2 ?_
    intro position value hvalue hwide
    rw [hopcode] at hvalue
    match position with
    | 0 =>
      obtain rfl : expandedEscape = value := by simpa using hvalue
      exact absurd hwide (by decide)
    | 1 => exact ⟨rfl, hfamily⟩
    | position + 2 =>
      have hmem : value ∈ literal := Option.mem_toList.1 (List.mem_of_getElem? hvalue)
      exact absurd (hliteral value hmem) (UInt8.not_le.2 hwide)
  | noCode hinstruction hopcode => simp [widthViolations, hopcode]

/-- The checks of an entry by itself are sound and complete for the opcode
    fields that go with its format. -/
theorem violations_eq_nil_iff_wellFormed {entry : Entry} :
    entry.violations = [] ↔ entry.WellFormed := by
  refine ⟨wellFormed_of_violations_eq_nil, ?_⟩
  intro hentry
  rw [violations, hentry.shapeViolations_eq_nil, hentry.widthViolations_eq_nil, List.append_nil]

instance (entry : Entry) : Decidable entry.WellFormed :=
  decidable_of_iff (entry.violations = []) violations_eq_nil_iff_wellFormed

end Sigma16.Entry

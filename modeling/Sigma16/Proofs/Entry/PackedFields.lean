import Sigma16.Proofs.Word.Fields
import Sigma16.Entry

namespace Sigma16.Entry

/-- The opcode fields that can be packed into a first word. Those behind the
    ones named here are of no account. -/
inductive Packs (entry : Entry) : Prop where
  | primitive {op : UInt8} {rest : List UInt8} (hfamily : entry.family = .primitive)
      (hopcode : entry.opcode = op :: rest) (hop : op < expandedEscape)
  | indexed {b : UInt8} {rest : List UInt8} (hfamily : entry.family = .indexed)
      (hopcode : entry.opcode = indexedEscape :: b :: rest) (hb : b ≤ maxNybble)
      (hliteral : ∀ d ∈ entry.tertiary?, d ≤ maxNybble)
  | expanded {ab : UInt8} {rest : List UInt8} (hfamily : entry.family = .expanded)
      (hopcode : entry.opcode = expandedEscape :: ab :: rest)

/-- What a first word holds of the opcode of its entry. It holds the primary
    field, behind an escape code also the secondary, and behind that of the
    indexed instructions also the literal. All its other bits are zero. -/
structure PackedIn (entry : Entry) (word : Word) : Prop where
  primary : entry.primary? = some word.op
  primitive : word.op < expandedEscape → word.d = 0 ∧ word.ab = 0
  expanded : word.op = expandedEscape → entry.secondary? = some word.ab ∧ word.d = 0
  indexed : word.op = indexedEscape →
    entry.secondary? = some word.b ∧ word.d = entry.tertiary?.getD 0 ∧ word.a = 0

variable {entry other : Entry} {word otherWord : Word}

theorem Packs.exists_packedIn (hentry : entry.Packs) :
    ∃ word, entry.firstWord? = some word ∧ entry.PackedIn word := by
  cases hentry with
  | @primitive op rest hfamily hopcode hop =>
    obtain ⟨hwordOp, hwordD, hwordAb⟩ :=
      Word.fields_ofLowByte 0 (le_maxNybble_of_lt_expandedEscape hop) zero_le_maxNybble
    refine ⟨.ofLowByte op 0 0, by simp [firstWord?, hfamily, hopcode, hop], {
      primary := by simp [primary?, hopcode, hwordOp]
      primitive := fun _ => ⟨hwordD, hwordAb⟩
      expanded := fun hescape => ?_
      indexed := fun hescape => ?_ }⟩
    -- A primary field below the escape codes is neither of them.
    all_goals
      rw [← hwordOp, hescape] at hop
      exact absurd hop (by decide)
  | @indexed b rest hfamily hopcode hb hliteral =>
    have hd : entry.tertiary?.getD 0 ≤ maxNybble := by
      cases htertiary : entry.tertiary? with
      | none => decide
      | some d => exact hliteral d htertiary
    obtain ⟨hwordOp, hwordD, hwordA, hwordB⟩ :=
      Word.nybbles_ofNybbles indexedEscape_le_maxNybble hd zero_le_maxNybble hb
    exact ⟨.ofNybbles indexedEscape (entry.tertiary?.getD 0) 0 b,
      by simp [firstWord?, hfamily, hopcode, hb, hd], {
        primary := by simp [primary?, hopcode, hwordOp]
        primitive := fun hlow => absurd (hwordOp ▸ hlow) (by decide)
        expanded := fun hescape => absurd (hwordOp ▸ hescape) (by decide)
        indexed := fun _ => ⟨by simp [secondary?, hopcode, hwordB], hwordD, hwordA⟩ }⟩
  | @expanded ab rest hfamily hopcode =>
    obtain ⟨hwordOp, hwordD, hwordAb⟩ :=
      Word.fields_ofLowByte ab expandedEscape_le_maxNybble zero_le_maxNybble
    exact ⟨.ofLowByte expandedEscape 0 ab, by simp [firstWord?, hfamily, hopcode], {
      primary := by simp [primary?, hopcode, hwordOp]
      primitive := fun hlow => absurd (hwordOp ▸ hlow) (by decide)
      expanded := fun _ => ⟨by simp [secondary?, hopcode, hwordAb], hwordD⟩
      indexed := fun hescape => absurd (hwordOp ▸ hescape) (by decide) }⟩

theorem packs_of_firstWord?_eq_some (hword : entry.firstWord? = some word) : entry.Packs := by
  unfold firstWord? at hword
  split at hword
  next op rest hfamily hopcode =>
    split at hword
    next hop => exact .primitive hfamily hopcode hop
    next => cases hword
  next op b rest hfamily hopcode =>
    dsimp only at hword
    split at hword
    next hfields =>
      obtain ⟨rfl, hb, hd⟩ := hfields
      refine .indexed hfamily hopcode hb ?_
      intro d hliteral
      rwa [Option.mem_def.1 hliteral] at hd
    next => cases hword
  next op ab rest hfamily hopcode =>
    split at hword
    next hop => exact .expanded hfamily (hop ▸ hopcode)
    next => cases hword
  next => cases hword

theorem packs_iff_exists_firstWord : entry.Packs ↔ ∃ word, entry.firstWord? = some word := by
  constructor
  · intro hentry
    obtain ⟨word, hword, -⟩ := hentry.exists_packedIn
    exact ⟨word, hword⟩
  · rintro ⟨word, hword⟩
    exact packs_of_firstWord?_eq_some hword

theorem packedIn_of_firstWord?_eq_some (hword : entry.firstWord? = some word) :
    entry.PackedIn word := by
  obtain ⟨packed, hpacked, hfields⟩ := (packs_of_firstWord?_eq_some hword).exists_packedIn
  rw [hword, Option.some.injEq] at hpacked
  exact hpacked ▸ hfields

/-- Two opcodes that agree as far as a first word can hold them: in the primary
    field, behind an escape code in the secondary, and behind that of the indexed
    instructions also in the literal. No literal is as good as the literal 0. -/
def SameFields (entry other : Entry) : Prop :=
  entry.primary? = other.primary?
    ∧ (entry.primary? = some expandedEscape → entry.secondary? = other.secondary?)
    ∧ (entry.primary? = some indexedEscape →
        entry.secondary? = other.secondary?
          ∧ entry.tertiary?.getD 0 = other.tertiary?.getD 0)

namespace PackedIn

theorem sameFields (hentry : entry.PackedIn word) (hother : other.PackedIn word) :
    entry.SameFields other := by
  refine ⟨hentry.primary.trans hother.primary.symm, ?_, ?_⟩
  · intro hescape
    have hop : word.op = expandedEscape := Option.some.inj (hentry.primary.symm.trans hescape)
    rw [(hentry.expanded hop).1, (hother.expanded hop).1]
  · intro hescape
    have hop : word.op = indexedEscape := Option.some.inj (hentry.primary.symm.trans hescape)
    obtain ⟨hsecondary, hliteral, -⟩ := hentry.indexed hop
    obtain ⟨hotherSecondary, hotherLiteral, -⟩ := hother.indexed hop
    exact ⟨hsecondary.trans hotherSecondary.symm, hliteral.symm.trans hotherLiteral⟩

/-- The fields that a first word holds determine it, since all else in it is
    zero. -/
theorem eq_of_sameFields (hentry : entry.PackedIn word) (hother : other.PackedIn otherWord)
    (hsame : entry.SameFields other) : word = otherWord := by
  obtain ⟨hprimary, hexpanded, hindexed⟩ := hsame
  have hop : word.op = otherWord.op := by
    rw [hentry.primary, hother.primary] at hprimary
    exact Option.some.inj hprimary
  rcases word.op_cases with hlow | hescape | hescape
  · obtain ⟨hd, hab⟩ := hentry.primitive hlow
    obtain ⟨hotherD, hotherAb⟩ := hother.primitive (hop ▸ hlow)
    rw [← word.ofLowByte_eq_self, ← otherWord.ofLowByte_eq_self, hop, hd, hab, hotherD, hotherAb]
  · obtain ⟨hsecondary, hd⟩ := hentry.expanded hescape
    obtain ⟨hotherSecondary, hotherD⟩ := hother.expanded (hop ▸ hescape)
    have hab := hexpanded (hescape ▸ hentry.primary)
    rw [hsecondary, hotherSecondary, Option.some.injEq] at hab
    rw [← word.ofLowByte_eq_self, ← otherWord.ofLowByte_eq_self, hop, hd, hab, hotherD]
  · obtain ⟨hsecondary, hd, ha⟩ := hentry.indexed hescape
    obtain ⟨hotherSecondary, hotherD, hotherA⟩ := hother.indexed (hop ▸ hescape)
    obtain ⟨hb, hliteral⟩ := hindexed (hescape ▸ hentry.primary)
    rw [hsecondary, hotherSecondary, Option.some.injEq] at hb
    rw [← word.ofNybbles_eq_self, ← otherWord.ofNybbles_eq_self, hop, hd, ha, hb, hliteral, hotherD,
      hotherA]

/-- A first word carries the first fields of its entry's opcode. -/
theorem isPrefix_opcodeFields (hentry : entry.PackedIn word) : word.opcodeFields <+: entry.opcode := by
  obtain ⟨rest, hopcode⟩ : ∃ rest, entry.opcode = word.op :: rest := by
    rw [← List.head?_eq_some_iff, List.head?_eq_getElem?]
    exact hentry.primary
  have hsecond : ∀ field, entry.secondary? = some field → [word.op, field] <+: entry.opcode := by
    intro field hfield
    rw [secondary?, hopcode, List.getElem?_cons_succ, ← List.head?_eq_getElem?] at hfield
    obtain ⟨behind, rfl⟩ := List.head?_eq_some_iff.1 hfield
    exact ⟨behind, hopcode.symm⟩
  rcases word.op_cases with hlow | hescape | hescape
  · rw [Word.opcodeFields_of_op_lt hlow]
    exact ⟨rest, hopcode.symm⟩
  · rw [Word.opcodeFields_of_op_eq_expandedEscape hescape, ← hescape]
    exact hsecond word.ab (hentry.expanded hescape).1
  · rw [Word.opcodeFields_of_op_eq_indexedEscape hescape, ← hescape]
    exact hsecond word.b (hentry.indexed hescape).1

end PackedIn

/-- Packing is exact: it succeeds for the opcodes that fit and no others, the
    opcode fields that a first word carries are the first ones of its entry, and
    two entries share a first word only if their opcodes agree in every field
    that it holds. Nothing is asked of the entries. -/
theorem firstWord?_exact (entry other : Entry) :
    (entry.firstWord?.isSome = true ↔ entry.Packs)
      ∧ (∀ word ∈ entry.firstWord?, word.opcodeFields <+: entry.opcode)
      ∧ ∀ word ∈ entry.firstWord?, ∀ otherWord ∈ other.firstWord?,
          word = otherWord ↔ entry.SameFields other := by
  refine ⟨?_, ?_, ?_⟩
  · rw [packs_iff_exists_firstWord, Option.isSome_iff_exists]
  · intro word hword
    exact (packedIn_of_firstWord?_eq_some hword).isPrefix_opcodeFields
  · intro word hword otherWord hotherWord
    have hentry := packedIn_of_firstWord?_eq_some hword
    have hother := packedIn_of_firstWord?_eq_some hotherWord
    constructor
    · rintro rfl
      exact hentry.sameFields hother
    · exact hentry.eq_of_sameFields hother

/-- A jump has the same first word with its literal 0 and without, whatever else
    the two entries are, and another one with the literal 1. -/
theorem firstWord?_exact_jump :
    firstWord? ⟨"jump", .jx, [15, 3, 0], false⟩ = some 0xf003
      ∧ firstWord? ⟨"goto", .rx, [15, 3], true⟩ = some 0xf003
      ∧ firstWord? ⟨"jumpr", .jx, [15, 3, 1, 7], false⟩ = some 0xf103
      ∧ SameFields ⟨"jump", .jx, [15, 3, 0], false⟩ ⟨"goto", .rx, [15, 3], true⟩
      ∧ ¬ SameFields ⟨"jump", .jx, [15, 3, 0], false⟩ ⟨"jumpr", .jx, [15, 3, 1, 7], false⟩ := by
  have hjump : firstWord? ⟨"jump", .jx, [15, 3, 0], false⟩ = some 0xf003 := by decide
  have hgoto : firstWord? ⟨"goto", .rx, [15, 3], true⟩ = some 0xf003 := by decide
  have hjumpr : firstWord? ⟨"jumpr", .jx, [15, 3, 1, 7], false⟩ = some 0xf103 := by decide
  refine ⟨hjump, hgoto, hjumpr, ((firstWord?_exact _ _).2.2 _ hjump _ hgoto).1 rfl, ?_⟩
  intro hsame
  exact absurd (((firstWord?_exact _ _).2.2 _ hjump _ hjumpr).2 hsame) (by decide)

end Sigma16.Entry

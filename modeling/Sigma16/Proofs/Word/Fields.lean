import Sigma16.Word
import Mathlib.Data.Nat.Bitwise

namespace Sigma16

theorem zero_le_maxNybble : 0 ≤ maxNybble := by decide

theorem expandedEscape_le_maxNybble : expandedEscape ≤ maxNybble := by decide

theorem indexedEscape_le_maxNybble : indexedEscape ≤ maxNybble := by decide

theorem le_maxNybble_of_lt_expandedEscape {op : UInt8} (hop : op < expandedEscape) :
    op ≤ maxNybble :=
  UInt8.le_trans (UInt8.le_of_lt hop) expandedEscape_le_maxNybble

namespace Word

private theorem toNat_le_of_le_maxNybble {value : UInt8} (hvalue : value ≤ maxNybble) :
    value.toNat ≤ 15 := by
  simpa [UInt8.le_iff_toNat_le, maxNybble] using hvalue

theorem nybbles_ofNybbles {op d a b : UInt8} (hop : op ≤ maxNybble) (hd : d ≤ maxNybble)
    (ha : a ≤ maxNybble) (hb : b ≤ maxNybble) :
    (ofNybbles op d a b).op = op ∧ (ofNybbles op d a b).d = d ∧ (ofNybbles op d a b).a = a
      ∧ (ofNybbles op d a b).b = b := by
  have hword := toNat_ofNybbles hop hd ha hb
  have hopBound := toNat_le_of_le_maxNybble hop
  have hdBound := toNat_le_of_le_maxNybble hd
  have haBound := toNat_le_of_le_maxNybble ha
  have hbBound := toNat_le_of_le_maxNybble hb
  simp only [← UInt8.toNat_inj, toNat_op, toNat_d, toNat_a, toNat_b, hword]
  omega

theorem fields_ofLowByte {op d : UInt8} (ab : UInt8) (hop : op ≤ maxNybble) (hd : d ≤ maxNybble) :
    (ofLowByte op d ab).op = op ∧ (ofLowByte op d ab).d = d ∧ (ofLowByte op d ab).ab = ab := by
  have hword := toNat_ofLowByte ab hop hd
  have hopBound := toNat_le_of_le_maxNybble hop
  have hdBound := toNat_le_of_le_maxNybble hd
  have habBound := ab.toNat_lt
  simp only [← UInt8.toNat_inj, toNat_op, toNat_d, toNat_ab, hword]
  omega

theorem op_le_maxNybble (word : Word) : word.op ≤ maxNybble := by
  have hword := word.toNat_lt
  rw [UInt8.le_iff_toNat_le, toNat_op]
  simp only [maxNybble, UInt8.reduceToNat]
  omega

theorem d_le_maxNybble (word : Word) : word.d ≤ maxNybble := by
  rw [UInt8.le_iff_toNat_le, toNat_d]
  simp only [maxNybble, UInt8.reduceToNat]
  omega

theorem a_le_maxNybble (word : Word) : word.a ≤ maxNybble := by
  rw [UInt8.le_iff_toNat_le, toNat_a]
  simp only [maxNybble, UInt8.reduceToNat]
  omega

theorem b_le_maxNybble (word : Word) : word.b ≤ maxNybble := by
  rw [UInt8.le_iff_toNat_le, toNat_b]
  simp only [maxNybble, UInt8.reduceToNat]
  omega

/-- A word is made of its four nybbles. -/
theorem ofNybbles_eq_self (word : Word) : ofNybbles word.op word.d word.a word.b = word := by
  rw [← UInt16.toNat_inj, toNat_ofNybbles word.op_le_maxNybble word.d_le_maxNybble
    word.a_le_maxNybble word.b_le_maxNybble, toNat_op, toNat_d, toNat_a, toNat_b]
  omega

/-- A word is made of its two upper nybbles and its low byte. -/
theorem ofLowByte_eq_self (word : Word) : ofLowByte word.op word.d word.ab = word := by
  rw [← UInt16.toNat_inj, toNat_ofLowByte word.ab word.op_le_maxNybble word.d_le_maxNybble,
    toNat_op, toNat_d, toNat_ab]
  omega

/-- The primary opcode is one of those that have no escape, or one of the two
    escape codes. -/
theorem op_cases (word : Word) :
    word.op < expandedEscape ∨ word.op = expandedEscape ∨ word.op = indexedEscape := by
  have hbound := word.op_le_maxNybble
  simp only [UInt8.le_iff_toNat_le, UInt8.lt_iff_toNat_lt, ← UInt8.toNat_inj, maxNybble,
    expandedEscape, indexedEscape, UInt8.reduceToNat] at hbound ⊢
  omega

theorem a_b_eq_zero_of_ab_eq_zero {word : Word} (hab : word.ab = 0) :
    word.a = 0 ∧ word.b = 0 := by
  have hlow := congrArg UInt8.toNat hab
  simp only [← UInt8.toNat_inj, toNat_a, toNat_b, toNat_ab, UInt8.toNat_zero] at hlow ⊢
  omega

/-- The word with its nybble `a`, the bits 4 to 7, cleared. -/
def clearA (word : Word) : Word :=
  word &&& 0xff0f

theorem toNat_clearA (word : Word) :
    word.clearA.toNat = word.toNat / 256 * 256 + word.toNat % 16 := by
  have hmask : (0xff0f : Word).toNat = 2 ^ 8 * (2 ^ 8 - 1) + (2 ^ 4 - 1) := rfl
  have hparts : word.toNat / 256 * 256 + word.toNat % 16
      = 2 ^ 8 * (word.toNat / 2 ^ 8) + word.toNat % 2 ^ 4 := by omega
  rw [clearA, UInt16.toNat_and, hmask, hparts]
  apply Nat.eq_of_testBit_eq
  intro i
  rw [Nat.testBit_and, Nat.testBit_two_pow_mul_add _ (by decide),
    Nat.testBit_two_pow_mul_add _ (by omega)]
  by_cases hlow : i < 8
  · simp only [if_pos hlow, Nat.testBit_mod_two_pow, Nat.testBit_two_pow_sub_one]
    exact Bool.and_comm _ _
  · have hshift : i - 8 + 8 = i := by omega
    simp only [if_neg hlow, Nat.testBit_div_two_pow, Nat.testBit_two_pow_sub_one, hshift]
    by_cases hhigh : i - 8 < 8
    · simp [hhigh]
    · -- A word has no bits beyond the mask.
      have hbound : word.toNat < 2 ^ i :=
        Nat.lt_of_lt_of_le word.toNat_lt (Nat.pow_le_pow_right (by decide) (by omega))
      simp [Nat.testBit_lt_two_pow hbound]

theorem clearA_eq_ofNybbles (word : Word) : word.clearA = ofNybbles word.op word.d 0 word.b := by
  have hpacked := toNat_ofNybbles word.op_le_maxNybble word.d_le_maxNybble zero_le_maxNybble
    word.b_le_maxNybble
  rw [← UInt16.toNat_inj, hpacked, toNat_clearA, toNat_op, toNat_d, toNat_b, UInt8.toNat_zero]
  omega

theorem opcodeFields_of_op_lt {word : Word} (hop : word.op < expandedEscape) :
    word.opcodeFields = [word.op] := by
  have hexpanded : word.op ≠ expandedEscape := UInt8.ne_of_lt hop
  have hindexed : word.op ≠ indexedEscape := UInt8.ne_of_lt (UInt8.lt_trans hop (by decide))
  rw [opcodeFields, if_neg hexpanded, if_neg hindexed]

theorem opcodeFields_of_op_eq_expandedEscape {word : Word} (hop : word.op = expandedEscape) :
    word.opcodeFields = [expandedEscape, word.ab] := by
  rw [opcodeFields, if_pos hop, hop]

theorem opcodeFields_of_op_eq_indexedEscape {word : Word} (hop : word.op = indexedEscape) :
    word.opcodeFields = [indexedEscape, word.b] := by
  have hexpanded : word.op ≠ expandedEscape := by
    rw [hop]
    decide
  rw [opcodeFields, if_neg hexpanded, if_pos hop, hop]

theorem head?_opcodeFields (word : Word) : word.opcodeFields.head? = some word.op := by
  unfold opcodeFields
  split
  · rfl
  · split <;> rfl

theorem op_eq_of_opcodeFields_eq {word other : Word} (hfields : word.opcodeFields = other.opcodeFields) :
    word.op = other.op := by
  have hhead : some word.op = some other.op := by
    rw [← head?_opcodeFields, ← head?_opcodeFields, hfields]
  exact Option.some.inj hhead

theorem ab_eq_of_opcodeFields_eq {word other : Word} (hop : word.op = expandedEscape)
    (hfields : word.opcodeFields = other.opcodeFields) : word.ab = other.ab := by
  have hother : other.op = expandedEscape := op_eq_of_opcodeFields_eq hfields ▸ hop
  rw [opcodeFields_of_op_eq_expandedEscape hop, opcodeFields_of_op_eq_expandedEscape hother]
    at hfields
  simpa using hfields

theorem b_eq_of_opcodeFields_eq {word other : Word} (hop : word.op = indexedEscape)
    (hfields : word.opcodeFields = other.opcodeFields) : word.b = other.b := by
  have hother : other.op = indexedEscape := op_eq_of_opcodeFields_eq hfields ▸ hop
  rw [opcodeFields_of_op_eq_indexedEscape hop, opcodeFields_of_op_eq_indexedEscape hother]
    at hfields
  simpa using hfields

theorem isDoubleWord_of_op_lt {word : Word} (hop : word.op < expandedEscape) :
    word.isDoubleWord = false := by
  have hexpanded : word.op ≠ expandedEscape := UInt8.ne_of_lt hop
  have hindexed : word.op ≠ indexedEscape := UInt8.ne_of_lt (UInt8.lt_trans hop (by decide))
  simp [isDoubleWord, hexpanded, hindexed]

theorem isDoubleWord_of_op_eq_expandedEscape {word : Word} (hop : word.op = expandedEscape) :
    word.isDoubleWord = true ↔ ¬ word.ab < firstTwoWordExpanded := by
  simp [isDoubleWord, hop, UInt8.not_lt, show expandedEscape ≠ indexedEscape by decide]

theorem isDoubleWord_of_op_eq_indexedEscape {word : Word} (hop : word.op = indexedEscape) :
    word.isDoubleWord = true := by
  simp [isDoubleWord, hop]

/-- The number of words that an instruction takes can be read off the opcode
    fields of its first word: operands have no say in it. -/
theorem isDoubleWord_congr {word other : Word} (hfields : word.opcodeFields = other.opcodeFields) :
    word.isDoubleWord = other.isDoubleWord := by
  have hop := op_eq_of_opcodeFields_eq hfields
  by_cases hexpanded : word.op = expandedEscape
  · rw [isDoubleWord, isDoubleWord, hop, ab_eq_of_opcodeFields_eq hexpanded hfields]
  · have hother : other.op ≠ expandedEscape := hop ▸ hexpanded
    simp [isDoubleWord, hop, hother]

end Word

end Sigma16

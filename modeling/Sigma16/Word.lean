namespace Sigma16

/-- The primary opcode behind which the expanded instructions lie. -/
def expandedEscape : UInt8 := 14

/-- The primary opcode behind which the indexed instructions lie. -/
def indexedEscape : UInt8 := 15

/-- The largest value of a four bit field. -/
def maxNybble : UInt8 := 15

/-- Expanded instructions with a secondary opcode below this one take one
    word, all others two. -/
def firstTwoWordExpanded : UInt8 := 8

/-- A machine word. The first word of an instruction is divided into the four
    bit fields `op`, `d`, `a` and `b`, from the most significant on. -/
abbrev Word := UInt16

namespace Word

/-- The most significant four bits, which hold the primary opcode. -/
def op (word : Word) : UInt8 :=
  (word / 4096).toUInt8

/-- The second four bits: a destination register, or the literal that an
    indexed pseudo-instruction fills in. -/
def d (word : Word) : UInt8 :=
  (word / 256 % 16).toUInt8

def a (word : Word) : UInt8 :=
  (word / 16 % 16).toUInt8

/-- The least significant four bits, where an indexed instruction keeps its
    secondary opcode. -/
def b (word : Word) : UInt8 :=
  (word % 16).toUInt8

/-- The low byte, which is `a` and `b` together and where an expanded
    instruction keeps its secondary opcode. -/
def ab (word : Word) : UInt8 :=
  (word % 256).toUInt8

/-- The word made of four fields of four bits each. -/
def ofNybbles (op d a b : UInt8) : Word :=
  op.toUInt16 * 4096 + d.toUInt16 * 256 + a.toUInt16 * 16 + b.toUInt16

/-- The word made of two fields of four bits each and a low byte. -/
def ofLowByte (op d ab : UInt8) : Word :=
  op.toUInt16 * 4096 + d.toUInt16 * 256 + ab.toUInt16

/-- The opcode fields that a first word carries. Every word carries some;
    whether they name an operation is up to the instruction set. -/
def opcodeFields (word : Word) : List UInt8 :=
  if word.op = expandedEscape then [word.op, word.ab]
  else if word.op = indexedEscape then [word.op, word.b]
  else [word.op]

/-- Whether the instruction that starts with this word has a second one. The
    word need not hold a valid opcode. -/
def isDoubleWord (word : Word) : Bool :=
  word.op = indexedEscape || (word.op = expandedEscape && firstTwoWordExpanded ≤ word.ab)

theorem toNat_op (word : Word) : word.op.toNat = word.toNat / 4096 := by
  have hword := word.toNat_lt
  simp [op]
  omega

theorem toNat_d (word : Word) : word.d.toNat = word.toNat / 256 % 16 := by
  simp [d]
  omega

theorem toNat_a (word : Word) : word.a.toNat = word.toNat / 16 % 16 := by
  simp [a]
  omega

theorem toNat_b (word : Word) : word.b.toNat = word.toNat % 16 := by
  simp [b]
  omega

theorem toNat_ab (word : Word) : word.ab.toNat = word.toNat % 256 := by
  simp [ab]

/-- Fields of four bits are packed without overlap. -/
theorem toNat_ofNybbles {op d a b : UInt8} (hop : op ≤ maxNybble) (hd : d ≤ maxNybble)
    (ha : a ≤ maxNybble) (hb : b ≤ maxNybble) :
    (ofNybbles op d a b).toNat =
      op.toNat * 4096 + d.toNat * 256 + a.toNat * 16 + b.toNat := by
  simp only [UInt8.le_iff_toNat_le, maxNybble, UInt8.reduceToNat] at hop hd ha hb
  simp [ofNybbles]
  omega

/-- Two fields of four bits and a byte are packed without overlap. -/
theorem toNat_ofLowByte {op d : UInt8} (ab : UInt8) (hop : op ≤ maxNybble) (hd : d ≤ maxNybble) :
    (ofLowByte op d ab).toNat = op.toNat * 4096 + d.toNat * 256 + ab.toNat := by
  have hab := ab.toNat_lt
  simp only [UInt8.le_iff_toNat_le, maxNybble, UInt8.reduceToNat] at hop hd
  simp [ofLowByte]
  omega

end Word

end Sigma16

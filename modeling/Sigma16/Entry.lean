import Sigma16.Format
import Sigma16.Word

namespace Sigma16

/-- What the instruction set says about one mnemonic: the form of its
    statements and the opcode fields that select its operation. The primary
    opcode comes first. A secondary one follows an escape code. A field after
    these is a literal that supplies an operand the programmer leaves out. -/
structure Entry where
  /-- The name of the operation, which may be empty. -/
  mnemonic : String
  format : Format
  /-- Its opcode fields, none for what is no instruction. -/
  opcode : List UInt8
  /-- Whether it is a pseudo-instruction, which has no encoding of its own. -/
  pseudo : Bool
  deriving DecidableEq, Repr

namespace Entry

inductive Kind where
  | instruction
  | pseudo
  | directive
  deriving DecidableEq, Repr

def Kind.name : Kind → String
  | instruction => "Instruction"
  | pseudo => "Pseudo"
  | directive => "Directive"

def primary? (entry : Entry) : Option UInt8 :=
  entry.opcode[0]?

def secondary? (entry : Entry) : Option UInt8 :=
  entry.opcode[1]?

/-- The literal that supplies an operand. -/
def tertiary? (entry : Entry) : Option UInt8 :=
  entry.opcode[2]?

/-- The format and the opcode fields of an entry, which no two instructions may
    share. -/
def encoding (entry : Entry) : Format × List UInt8 :=
  (entry.format, entry.opcode)

/-- The layout in memory of an entry's statements. -/
def family (entry : Entry) : Family :=
  entry.format.family

def isInstruction (entry : Entry) : Bool :=
  entry.format.isInstruction

def wordCount (entry : Entry) : Nat :=
  entry.format.wordCount

/-- The kind of statement that an entry introduces. All that is neither a
    pseudo-instruction nor an instruction counts as a directive. -/
def kind (entry : Entry) : Kind :=
  if entry.pseudo then .pseudo
  else if entry.isInstruction then .instruction
  else .directive

def opcodeText (entry : Entry) : String :=
  ",".intercalate (entry.opcode.map fun field => toString field.toNat)

/-- The text of an entry: its mnemonic, the label of its format, its opcode
    fields and a mark on pseudo-instructions. -/
def text (entry : Entry) : String :=
  entry.mnemonic ++ " " ++ entry.format.label ++ " [" ++ entry.opcodeText ++ "]"
    ++ (if entry.pseudo then " pseudo" else "")

/-- An entry extends another of the same family whose opcode fields are the
    first ones of its own, but not all of them. -/
def Extends (entry base : Entry) : Prop :=
  entry.family = base.family ∧ base.opcode.length < entry.opcode.length
    ∧ base.opcode <+: entry.opcode

instance (entry base : Entry) : Decidable (entry.Extends base) :=
  inferInstanceAs (Decidable (_ ∧ _ ∧ _))

/-- The first word of an entry's instructions with all operand fields zero.
    An indexed instruction carries its literal in the field `d`; that of an
    expanded instruction belongs to the second word and is left out here.
    There is no such word for what generates no instruction, nor when a field
    is missing, too wide for its place, or at odds with the family. -/
def firstWord? (entry : Entry) : Option Word :=
  match entry.family, entry.opcode with
  | .primitive, op :: _ =>
    if op < expandedEscape then some (.ofLowByte op 0 0) else none
  | .indexed, op :: b :: _ =>
    let d := entry.tertiary?.getD 0
    if op = indexedEscape ∧ b ≤ maxNybble ∧ d ≤ maxNybble then some (.ofNybbles op d 0 b)
    else none
  | .expanded, op :: ab :: _ =>
    if op = expandedEscape then some (.ofLowByte op 0 ab) else none
  | _, _ => none

end Entry

end Sigma16

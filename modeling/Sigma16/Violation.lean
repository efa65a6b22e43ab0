import Sigma16.ControlRegisters
import Sigma16.Entry

namespace Sigma16

/-- A law of the registry that some of its rows break. -/
inductive Violation where
  /-- Two instructions have the same format and the same opcode fields. -/
  | duplicateEncoding (first second : String)
  /-- A primary opcode lies outside the part of the opcode space that belongs
      to the format. -/
  | escapePartition (mnemonic : String) (primary : UInt8) (format : Format)
  /-- A pseudo-instruction has no base. -/
  | orphanPseudo (mnemonic : String)
  /-- One literal cannot supply the operands that a pseudo-instruction leaves
      out. -/
  | operandShape (mnemonic base : String) (omitted : List Operand)
  /-- The format does not go with that many opcode fields. -/
  | fieldCount (mnemonic : String) (format : Format) (fields : List UInt8)
  /-- An opcode field is too large for its place. -/
  | fieldWidth (mnemonic : String) (value : UInt8)
  /-- The secondary opcode of an expanded instruction is at odds with the
      number of words that the format generates. -/
  | expandedWidth (mnemonic : String) (format : Format) (secondary : UInt8)
  /-- A flag has the index of another one in its namespace, or one that lies
      outside the register. -/
  | bitIndex (space : String) (index : UInt8)
  /-- The indices of the control registers leave a gap below this one. -/
  | controlRegister (register : ControlRegister)
  deriving DecidableEq, Repr

namespace Violation

/-- The texts of a list's elements in brackets. -/
def bracketed (texts : List String) : String :=
  "[" ++ ", ".intercalate texts ++ "]"

/-- The wording of a violation in a report. -/
def message : Violation → String
  | duplicateEncoding first second =>
    "`" ++ first ++ "` and `" ++ second ++ "` have the same format and opcode fields"
  | escapePartition mnemonic primary format =>
    "`" ++ mnemonic ++ "` has primary opcode " ++ toString primary.toNat ++ " but format "
      ++ format.label
  | orphanPseudo mnemonic =>
    "pseudo-instruction `" ++ mnemonic ++ "` does not extend any real instruction"
  | operandShape mnemonic base omitted =>
    "pseudo-instruction `" ++ mnemonic ++ "` leaves out operands "
      ++ bracketed (omitted.map fun operand => "\"" ++ operand.name ++ "\"") ++ " of `" ++ base
      ++ "`"
  | fieldCount mnemonic format fields =>
    "`" ++ mnemonic ++ "` has format " ++ format.label ++ " but opcode fields "
      ++ bracketed (fields.map fun field => toString field.toNat)
  | fieldWidth mnemonic value =>
    "opcode field " ++ toString value.toNat ++ " of `" ++ mnemonic ++ "` does not fit in 4 bits"
  | expandedWidth mnemonic format secondary =>
    "`" ++ mnemonic ++ "` is a " ++ toString format.wordCount ++ " word " ++ format.label
      ++ " instruction with secondary opcode " ++ toString secondary.toNat
  | bitIndex space index =>
    "bit " ++ toString index.toNat ++ " of the " ++ space
      ++ " namespace is reused or out of range"
  | controlRegister register =>
    "control register `" ++ register.name ++ "` has index " ++ toString register.index.toNat

end Violation

end Sigma16

import Sigma16.Decoder
import Sigma16.Flag
import Sigma16.Pseudo
import Sigma16.Violation

namespace Sigma16

namespace Family

/-- Whether entries of a family may have a given number of opcode fields. -/
def allowsFieldCount (family : Family) (count : Nat) : Bool :=
  match family with
  | primitive => count = 1
  | indexed | expanded => count = 2 || count = 3
  | data | directive | marker => count = 0

/-- Whether a primary opcode lies in the part of the opcode space that belongs
    to a family. The two escape codes have a family each, the other codes
    share one, and what is no instruction has no part of the space. -/
def allowsPrimary (family : Family) (primary : UInt8) : Bool :=
  match family with
  | primitive => primary < expandedEscape
  | expanded => primary = expandedEscape
  | indexed => primary = indexedEscape
  | data | directive | marker => false

end Family

namespace Entry

/-- The violation of the partition of the opcode space, if there is one. -/
def partitionViolations (entry : Entry) : List Violation :=
  match entry.primary? with
  | some primary =>
    if entry.family.allowsPrimary primary then []
    else [.escapePartition entry.mnemonic primary entry.format]
  | none => []

/-- The violation of the rule that the expanded instructions of one word are
    those with the low secondary opcodes, if there is one. -/
def expandedWidthViolations (entry : Entry) : List Violation :=
  match entry.family, entry.secondary? with
  | .expanded, some secondary =>
    if secondary < firstTwoWordExpanded ↔ entry.wordCount = 1 then []
    else [.expandedWidth entry.mnemonic entry.format secondary]
  | _, _ => []

/-- What is wrong with the number of opcode fields or else, if that is right,
    with the fields that choose the layout. -/
def shapeViolations (entry : Entry) : List Violation :=
  if entry.family.allowsFieldCount entry.opcode.length then
    entry.partitionViolations ++ entry.expandedWidthViolations
  else [.fieldCount entry.mnemonic entry.format entry.opcode]

/-- The opcode fields that do not fit in four bits. The secondary opcode of an
    expanded instruction has a whole byte. -/
def widthViolations (entry : Entry) : List Violation :=
  (entry.opcode.zipIdx.filter fun (value, position) =>
      maxNybble < value && !(position = 1 && entry.family = .expanded)).map
    fun (value, _) => .fieldWidth entry.mnemonic value

def violations (entry : Entry) : List Violation :=
  entry.shapeViolations ++ entry.widthViolations

end Entry

/-- The clashes among a list of instructions, given the mnemonics of those
    before it. Each instruction is held against the latest one before it with
    the same format and opcode fields, so that a group of equal encodings is
    reported as a chain. -/
def clashes (seen : Std.HashMap (Format × List UInt8) String) : List Entry → List Violation
  | [] => []
  | entry :: entries =>
    (seen[entry.encoding]?.map (.duplicateEncoding · entry.mnemonic)).toList
      ++ clashes (seen.insert entry.encoding entry.mnemonic) entries

namespace Table

def duplicateViolations (table : Table) : List Violation :=
  clashes ∅ (table.entries.filter (·.isInstruction))

/-- What is wrong with an entry as a pseudo-instruction of a table: it needs a
    base, and its literal must be able to supply the operands left out. -/
def baseViolations (table : Table) (entry : Entry) : List Violation :=
  match table.base? entry with
  | none => [.orphanPseudo entry.mnemonic]
  | some base =>
    let omitted := (table.omitted? entry).getD []
    if Operand.literalCovers omitted then []
    else [.operandShape entry.mnemonic base.entry.mnemonic omitted]

def pseudoViolations (table : Table) : List Violation :=
  (table.entries.filter (·.pseudo)).flatMap table.baseViolations

/-- All violations in a table: the clashes between encodings, then what is
    wrong with each entry in the order of declaration, then what is wrong with
    pseudo-instructions. -/
def violations (table : Table) : List Violation :=
  table.duplicateViolations ++ table.entries.flatMap (·.violations) ++ table.pseudoViolations

end Table

/-- The indices in a namespace of flags that lie outside the register or have
    come before, given those that have come so far. -/
def indexViolations (space : String) (seen : List UInt8) : List UInt8 → List Violation
  | [] => []
  | index :: indices =>
    if registerBits ≤ index.toNat ∨ index ∈ seen then
      .bitIndex space index :: indexViolations space seen indices
    else indexViolations space (index :: seen) indices

/-- What is wrong with the indices of the flags, each namespace by itself. -/
def flagViolations : List Violation :=
  indexViolations "condition code" [] (ConditionFlag.all.map (·.index))
    ++ indexViolations "status" [] (StatusFlag.all.map (·.index))
    ++ indexViolations "interrupt" [] (InterruptFlag.all.map (·.index))

/-- The control registers whose index is not the number of registers before
    them. Indices are meant to be used without a gap. -/
def ControlRegisters.violations (registers : ControlRegisters) : List Violation :=
  (registers.entries.zipIdx.filter fun (register, rank) => register.index.toNat ≠ rank).map
    fun (register, _) => .controlRegister register

end Sigma16

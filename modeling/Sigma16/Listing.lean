import Sigma16.Grid
import Sigma16.Pseudo
import Sigma16.Registry
import Sigma16.Word.Hex

namespace Sigma16.Listing

/-- All formats in the order of their codes. -/
def formats : Grid where
  columns :=
    [⟨"Code", .right⟩, ⟨"Format", .left⟩, ⟨"Words", .right⟩, ⟨"Family", .left⟩,
      ⟨"Operands", .left⟩]
  rows := Format.all.map fun format =>
    [toString format.code, format.label, toString format.wordCount, format.family.name,
      ", ".intercalate (format.operands.map (·.name))]
  aligned := by simp

/-- The cells of an entry: its name, its format, its opcode fields, its first
    word, its kind and the name of its base. What does not exist is left
    blank, and the empty mnemonic has a name to show it by. -/
def mnemonicCells (table : Table) (entry : Entry) : List String :=
  [if entry.mnemonic.isEmpty then "(empty)" else entry.mnemonic,
    entry.format.label,
    entry.opcodeText,
    (entry.firstWord?.map Word.toHex).getD "",
    entry.kind.name,
    ((table.base? entry).map (·.entry.mnemonic)).getD ""]

/-- All entries of a table in the order of their declaration. -/
def mnemonics (table : Table) : Grid where
  columns :=
    [⟨"Mnemonic", .left⟩, ⟨"Format", .left⟩, ⟨"Opcode", .left⟩, ⟨"Word", .right⟩,
      ⟨"Kind", .left⟩, ⟨"Base", .left⟩]
  rows := table.entries.map (mnemonicCells table)
  aligned := by simp [mnemonicCells]

/-- All control registers in the order of their indices. -/
def controlRegisters (registers : ControlRegisters) : Grid where
  columns := [⟨"Register", .left⟩, ⟨"Index", .right⟩]
  rows := registers.entries.map fun register => [register.name, toString register.index.toNat]
  aligned := by simp

/-- The text of a mask: its hexadecimal digits after a dollar sign. -/
def maskText (mask : Word) : String :=
  "$" ++ mask.toHex

def conditionFlags : Grid where
  columns := [⟨"Flag", .left⟩, ⟨"Bit", .right⟩, ⟨"Mask", .right⟩, ⟨"Meaning", .left⟩]
  rows := ConditionFlag.all.map fun flag =>
    [flag.letter, toString flag.index.toNat, maskText flag.mask, flag.meaning]
  aligned := by simp

def statusFlags : Grid where
  columns := [⟨"Flag", .left⟩, ⟨"Bit", .right⟩, ⟨"Mask", .right⟩]
  rows := StatusFlag.all.map fun flag =>
    [flag.name, toString flag.index.toNat, maskText flag.mask]
  aligned := by simp

def interruptFlags : Grid where
  columns := [⟨"Flag", .left⟩, ⟨"Bit", .right⟩, ⟨"Mask", .right⟩]
  rows := InterruptFlag.all.map fun flag =>
    [flag.name, toString flag.index.toNat, maskText flag.mask]
  aligned := by simp

/-- The flags of all registers side by side. Each mask follows the numbering
    of its own register, so that equal indices have different masks. -/
def flags : Grid where
  columns :=
    [⟨"Condition code (bit 0 rightmost)", .left⟩, ⟨"Status (bit 0 leftmost)", .left⟩,
      ⟨"Interrupt (bit 0 leftmost)", .left⟩]
  rows := [[conditionFlags.render, statusFlags.render, interruptFlags.render]]
  aligned := by simp

end Sigma16.Listing

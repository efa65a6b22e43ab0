import Sigma16.Operand

namespace Sigma16

/-- The layout in memory of what a statement generates. The three instruction
    families are told apart by the primary opcode of their first word. -/
inductive Family where
  /-- Register instructions, primary opcodes 0 to 13. -/
  | primitive
  /-- Instructions behind the escape code 15, with a displacement word. -/
  | indexed
  /-- Instructions behind the escape code 14. -/
  | expanded
  | data
  /-- Assembler directives, which generate no code. -/
  | directive
  /-- Comments, empty statements and the marks left on faulty statements. -/
  | marker
  deriving DecidableEq, Repr

namespace Family

def all : List Family :=
  [primitive, indexed, expanded, data, directive, marker]

def name : Family → String
  | primitive => "Primitive"
  | indexed => "Indexed"
  | expanded => "Expanded"
  | data => "Data"
  | directive => "Directive"
  | marker => "Marker"

/-- Whether the statements of a family are machine instructions. -/
def isInstruction : Family → Bool
  | primitive | indexed | expanded => true
  | data | directive | marker => false

end Family

/-- The form of an assembly language statement. It fixes the operands that the
    statement is written with and the number of words it generates, and is
    finer than the layout in memory: a jump is laid out like every indexed
    instruction but is written without the operand that its opcode supplies. -/
inductive Format where
  | rrr
  | rr
  | rx
  | kx
  | jx
  | exp0
  | rrExp
  | rrrExp
  | rrkExp
  | rkkExp
  | rrrkExp
  | rrkkExp
  | rrrkkExp
  | rrxExp
  | rcExp
  | data
  /-- A line that holds a comment only. -/
  | comment
  | moduleDirective
  | importDirective
  | exportDirective
  | orgDirective
  | equDirective
  /-- A statement that could not be recognized. -/
  | unknown
  | empty
  /-- A statement without an operation. -/
  | noOperation
  /-- A statement whose operands are missing. -/
  | noOperand
  deriving DecidableEq, Hashable, Repr

namespace Format

/-- The formats in the order of their codes. -/
def all : List Format :=
  [rrr, rr, rx, kx, jx, exp0, rrExp, rrrExp, rrkExp, rkkExp, rrrkExp, rrkkExp, rrrkkExp, rrxExp,
    rcExp, data, comment, moduleDirective, importDirective, exportDirective, orgDirective,
    equDirective, unknown, empty, noOperation, noOperand]

/-- The number that stands for a format in a statement record. -/
def code (format : Format) : Nat :=
  all.idxOf format

def ofCode? (code : Nat) : Option Format :=
  all[code]?

def maxCode : Nat :=
  all.length - 1

/-- The label of a format in listings and reports. -/
def label : Format → String
  | rrr => "RRR"
  | rr => "RR"
  | rx => "RX"
  | kx => "KX"
  | jx => "JX"
  | exp0 => "EXP0"
  | rrExp => "RREXP"
  | rrrExp => "RRREXP"
  | rrkExp => "RRKEXP"
  | rkkExp => "RKKEXP"
  | rrrkExp => "RRRKEXP"
  | rrkkExp => "RRKKEXP"
  | rrrkkExp => "RRRKKEXP"
  | rrxExp => "RRXEXP"
  | rcExp => "RCEXP"
  | data => "DATA"
  | comment => "COMMENT"
  | moduleDirective => "DirModule"
  | importDirective => "DirImport"
  | exportDirective => "DirExport"
  | orgDirective => "DirOrg"
  | equDirective => "DirEqu"
  | unknown => "UNKNOWN"
  | empty => "EMPTY"
  | noOperation => "NOOPERATION"
  | noOperand => "NOOPERAND"

/-- The format with a given label. Labels are compared exactly. -/
def ofLabel? (label : String) : Option Format :=
  all.find? (·.label = label)

/-- The layout in memory of the statements of a format. -/
def family : Format → Family
  | rrr | rr => .primitive
  | rx | kx | jx => .indexed
  | exp0 | rrExp | rrrExp | rrkExp | rkkExp | rrrkExp | rrkkExp | rrrkkExp | rrxExp | rcExp =>
    .expanded
  | data => .data
  | moduleDirective | importDirective | exportDirective | orgDirective | equDirective => .directive
  | comment | unknown | empty | noOperation | noOperand => .marker

def isInstruction (format : Format) : Bool :=
  format.family.isInstruction

/-- The number of words that a statement generates. A statement of zero words
    is no error: it emits no code. -/
def wordCount : Format → Nat
  | rrr | rr | exp0 | data => 1
  | rx | kx | jx | rrExp | rrrExp | rrkExp | rkkExp | rrrkExp | rrkkExp | rrrkkExp | rrxExp
  | rcExp => 2
  | comment | moduleDirective | importDirective | exportDirective | orgDirective | equDirective
  | unknown | empty | noOperation | noOperand => 0

/-- The operands that a statement is written with, in order. -/
def operands : Format → List Operand
  | rrr => [.register, .register, .register]
  | rr => [.register, .register]
  | rx => [.register, .address]
  | kx => [.constant, .address]
  | jx => [.address]
  | exp0 => []
  | rrExp => [.register, .register]
  | rrrExp => [.register, .register, .register]
  | rrkExp => [.register, .register, .constant]
  | rkkExp => [.register, .constant, .constant]
  | rrrkExp => [.register, .register, .register, .constant]
  | rrkkExp => [.register, .register, .constant, .constant]
  | rrrkkExp => [.register, .register, .register, .constant, .constant]
  | rrxExp => [.register, .register, .address]
  | rcExp => [.register, .controlRegister]
  | data => [.value]
  | importDirective => [.identifier, .identifier]
  | exportDirective => [.identifier]
  | orgDirective | equDirective => [.value]
  | comment | moduleDirective | unknown | empty | noOperation | noOperand => []

def unknownLabel : String :=
  "UNKNOWN"

/-- The number of words generated by the format with a given code; a code that
    no format has generates none. -/
def wordCountOfCode (code : Nat) : Nat :=
  ((ofCode? code).map wordCount).getD 0

/-- The label of the format with a given code, or the label for unknown codes. -/
def labelOfCode (code : Nat) : String :=
  ((ofCode? code).map label).getD unknownLabel

theorem ofCode?_code (format : Format) : ofCode? format.code = some format := by
  cases format <;> rfl

theorem ofLabel?_label (format : Format) : ofLabel? format.label = some format := by
  cases format <;> rfl

theorem code_of_ofCode? {code : Nat} {format : Format} (hformat : ofCode? code = some format) :
    format.code = code := by
  obtain ⟨hbound, hget⟩ := List.getElem?_eq_some_iff.1 hformat
  subst hget
  exact (by decide : all.Nodup).idxOf_getElem code hbound

/-- Labels tell formats apart. -/
theorem label_injective {format other : Format} (hlabel : format.label = other.label) :
    format = other := by
  have hfound := ofLabel?_label format
  rw [hlabel, ofLabel?_label other] at hfound
  exact (Option.some.inj hfound).symm

end Format

end Sigma16

import Sigma16.Flag
import Sigma16.Table

namespace Sigma16

/-- A function of two bits, applied to words bit by bit. -/
inductive LogicFunction where
  | and
  | xor
  | or
  /-- Inverts the first operand. -/
  | inverse
  deriving DecidableEq, Repr

/-- The truth table of a logic function, read as a number of four bits. -/
def LogicFunction.truthTable : LogicFunction → UInt8
  | and => 1
  | xor => 6
  | or => 7
  | inverse => 12

namespace InstructionSet

/-- The empty statement, data and directives, which have no opcode fields and
    are told apart by their format alone. -/
def directives : List Entry :=
  let directive (mnemonic : String) (format : Format) : Entry := ⟨mnemonic, format, [], false⟩
  [directive "" .empty,
    directive "data" .data,
    directive "module" .moduleDirective,
    directive "import" .importDirective,
    directive "export" .exportDirective,
    directive "org" .orgDirective,
    directive "equ" .equDirective]

/-- The instructions selected by the primary opcode alone. -/
def primitives : List Entry :=
  let primitive (mnemonic : String) (format : Format) (op : UInt8) : Entry :=
    ⟨mnemonic, format, [op], false⟩
  [primitive "add" .rrr 0,
    primitive "sub" .rrr 1,
    primitive "mul" .rrr 2,
    primitive "div" .rrr 3,
    primitive "cmp" .rr 4,
    primitive "cmplt" .rrr 5,
    primitive "cmpeq" .rrr 6,
    primitive "cmpgt" .rrr 7,
    primitive "invold" .rr 8,
    primitive "andold" .rrr 9,
    primitive "orold" .rrr 10,
    primitive "xorold" .rrr 11,
    primitive "nop" .rrr 12,
    primitive "trap" .rrr 13]

/-- The instructions with a displacement. A jump has the literal 0 in place of
    a destination. -/
def indexed : List Entry :=
  let indexed (mnemonic : String) (format : Format) (fields : List UInt8) : Entry :=
    ⟨mnemonic, format, indexedEscape :: fields, false⟩
  [indexed "lea" .rx [0],
    indexed "load" .rx [1],
    indexed "store" .rx [2],
    indexed "jump" .jx [3, 0],
    indexed "jumpc0" .kx [4],
    indexed "jumpc1" .kx [5],
    indexed "jumpf" .rx [6],
    indexed "jumpt" .rx [7],
    indexed "jal" .rx [8],
    indexed "testset" .rx [9]]

/-- The instructions of the expanded opcode space, the first one of one word
    and all others of two. -/
def expanded : List Entry :=
  let expanded (mnemonic : String) (format : Format) (ab : UInt8) : Entry :=
    ⟨mnemonic, format, [expandedEscape, ab], false⟩
  [expanded "rfi" .exp0 0,
    expanded "save" .rrxExp 8,
    expanded "restore" .rrxExp 9,
    expanded "getctl" .rcExp 10,
    expanded "putctl" .rcExp 11,
    expanded "execute" .rrExp 12,
    expanded "push" .rrrExp 13,
    expanded "pop" .rrrExp 14,
    expanded "top" .rrrExp 15,
    expanded "shiftl" .rrkExp 16,
    expanded "shiftr" .rrkExp 17,
    expanded "extract" .rrkkExp 18,
    expanded "extracti" .rrkkExp 19,
    expanded "inject" .rrrkkExp 20,
    expanded "injecti" .rrrkkExp 21,
    expanded "logicw" .rrrkExp 22,
    expanded "logicb" .rrrkkExp 23]

/-- The conditional jumps, which fill in the flag that `jumpc0` expects to be
    clear or `jumpc1` expects to be set. -/
def conditionalJumps : List Entry :=
  let ifClear (mnemonic : String) (flag : ConditionFlag) : Entry :=
    ⟨mnemonic, .jx, [indexedEscape, 4, flag.index], true⟩
  let ifSet (mnemonic : String) (flag : ConditionFlag) : Entry :=
    ⟨mnemonic, .jx, [indexedEscape, 5, flag.index], true⟩
  [ifClear "jumple" .greaterTwos,
    ifClear "jumpne" .equal,
    ifClear "jumpge" .lessTwos,
    ifClear "jumpnv" .overflowTwos,
    ifClear "jumpnvu" .overflowBinary,
    ifClear "jumpnco" .carry,
    ifSet "jumplt" .lessTwos,
    ifSet "jumpeq" .equal,
    ifSet "jumpgt" .greaterTwos,
    ifSet "jumpv" .overflowTwos,
    ifSet "jumpvu" .overflowBinary,
    ifSet "jumpco" .carry]

/-- The logic operations on words and on fields of words, which fill in the
    function that `logicw` or `logicb` applies. An inversion also leaves out
    its second operand. -/
def logicOperations : List Entry :=
  let onWords (mnemonic : String) (format : Format) (function : LogicFunction) : Entry :=
    ⟨mnemonic, format, [expandedEscape, 22, function.truthTable], true⟩
  let onFields (mnemonic : String) (format : Format) (function : LogicFunction) : Entry :=
    ⟨mnemonic, format, [expandedEscape, 23, function.truthTable], true⟩
  [onWords "inv" .rrExp .inverse,
    onWords "and" .rrrExp .and,
    onWords "or" .rrrExp .or,
    onWords "xor" .rrrExp .xor,
    onFields "invb" .rrkExp .inverse,
    onFields "andb" .rrrkExp .and,
    onFields "orb" .rrrkExp .or,
    onFields "xorb" .rrrkExp .xor]

/-- The operation that makes a field of ones between two bits. It injects the
    inverse of `R0` into `R0`, and its literal is the first of these two
    registers. -/
def fieldOperation : Entry :=
  ⟨"field", .rkkExp, [expandedEscape, 21, 0], true⟩

/-- All entries of the instruction set in the order of their declaration. -/
def entries : List Entry :=
  directives ++ primitives ++ indexed ++ expanded ++ conditionalJumps ++ logicOperations
    ++ [fieldOperation]

def table : Table :=
  .ofEntries entries

end InstructionSet

end Sigma16

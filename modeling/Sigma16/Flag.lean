import Sigma16.Word

namespace Sigma16

/-- From which end the bits of a register are counted. Masks built with one
    numbering never fit a register that uses the other. -/
inductive BitNumbering where
  /-- Bit 0 is the least significant one. -/
  | fromRight
  /-- Bit 0 is the most significant one. -/
  | fromLeft
  deriving DecidableEq, Repr

def registerBits : Nat :=
  16

/-- The word in which only the bit with the given index is set. -/
def BitNumbering.mask (numbering : BitNumbering) (index : UInt8) : Word :=
  match numbering with
  | fromRight => 1 <<< index.toUInt16
  | fromLeft => 0x8000 >>> index.toUInt16

/-- A flag of the condition code register. Arithmetic and comparisons may set
    several of them together. -/
inductive ConditionFlag where
  | greaterBinary
  | greaterTwos
  | equal
  | lessTwos
  | lessBinary
  | overflowBinary
  | overflowTwos
  | carry
  deriving DecidableEq, Repr

namespace ConditionFlag

/-- The flags in the order of their indices. -/
def all : List ConditionFlag :=
  [greaterBinary, greaterTwos, equal, lessTwos, lessBinary, overflowBinary, overflowTwos, carry]

/-- The place of a flag in its register, counted from the right. -/
def index : ConditionFlag → UInt8
  | greaterBinary => 0
  | greaterTwos => 1
  | equal => 2
  | lessTwos => 3
  | lessBinary => 4
  | overflowBinary => 5
  | overflowTwos => 6
  | carry => 7

/-- The flag with a given index. -/
def ofIndex? (index : UInt8) : Option ConditionFlag :=
  all.find? (·.index = index)

/-- The word in which only this flag is set. -/
def mask (flag : ConditionFlag) : Word :=
  BitNumbering.fromRight.mask flag.index

/-- The letter that stands for a flag. -/
def letter : ConditionFlag → String
  | greaterBinary => "G"
  | greaterTwos => "g"
  | equal => "E"
  | lessTwos => "l"
  | lessBinary => "L"
  | overflowBinary => "V"
  | overflowTwos => "v"
  | carry => "C"

/-- What it means that a flag is set. -/
def meaning : ConditionFlag → String
  | greaterBinary => "> (binary)"
  | greaterTwos => "> (two's complement)"
  | equal => "= (all types)"
  | lessTwos => "< (two's complement)"
  | lessBinary => "< (binary)"
  | overflowBinary => "overflow (binary)"
  | overflowTwos => "overflow (two's complement)"
  | carry => "carry (binary)"

end ConditionFlag

/-- A flag of the status register. The machine starts with every flag cleared,
    in system state with interrupts disabled. -/
inductive StatusFlag where
  | userState
  | interruptEnable
  deriving DecidableEq, Repr

namespace StatusFlag

def all : List StatusFlag :=
  [userState, interruptEnable]

/-- The place of a flag in its register, counted from the left. -/
def index : StatusFlag → UInt8
  | userState => 0
  | interruptEnable => 1

def ofIndex? (index : UInt8) : Option StatusFlag :=
  all.find? (·.index = index)

def mask (flag : StatusFlag) : Word :=
  BitNumbering.fromLeft.mask flag.index

/-- The name of a flag in systems code. -/
def name : StatusFlag → String
  | userState => "userStateBit"
  | interruptEnable => "intEnableBit"

/-- What the two values of a flag mean. -/
def meaning : StatusFlag → String
  | userState => "0 = system state, 1 = user state"
  | interruptEnable => "0 = interrupts disabled, 1 = enabled"

end StatusFlag

/-- A flag of the interrupt request register and of the interrupt mask. -/
inductive InterruptFlag where
  | timer
  | segmentFault
  | stackFault
  | userTrap
  | overflow
  | zeroDivide
  deriving DecidableEq, Repr

namespace InterruptFlag

def all : List InterruptFlag :=
  [timer, segmentFault, stackFault, userTrap, overflow, zeroDivide]

def index : InterruptFlag → UInt8
  | timer => 0
  | segmentFault => 1
  | stackFault => 2
  | userTrap => 3
  | overflow => 4
  | zeroDivide => 5

def ofIndex? (index : UInt8) : Option InterruptFlag :=
  all.find? (·.index = index)

def mask (flag : InterruptFlag) : Word :=
  BitNumbering.fromLeft.mask flag.index

def name : InterruptFlag → String
  | timer => "timerBit"
  | segmentFault => "segFaultBit"
  | stackFault => "stackFaultBit"
  | userTrap => "userTrapBit"
  | overflow => "overflowBit"
  | zeroDivide => "zDivBit"

/-- What has happened when a flag is set. -/
def meaning : InterruptFlag → String
  | timer => "timer has gone off"
  | segmentFault => "access to an invalid virtual address"
  | stackFault => "stack overflow or underflow"
  | userTrap => "user trap"
  | overflow => "overflow occurred"
  | zeroDivide => "division by 0"

end InterruptFlag

end Sigma16

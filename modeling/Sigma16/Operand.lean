namespace Sigma16

/-- One operand position in the assembly language form of a statement. -/
inductive Operand where
  /-- A general register `R0` to `R15`. -/
  | register
  /-- A small constant packed into a four bit field. -/
  | constant
  /-- A displacement word together with an index register, written `disp[Rn]`. -/
  | address
  | controlRegister
  /-- An expression that gives a full word. -/
  | value
  | identifier
  deriving DecidableEq, Repr

namespace Operand

def all : List Operand :=
  [register, constant, address, controlRegister, value, identifier]

/-- The name under which listings and reports show an operand kind. -/
def name : Operand → String
  | register => "Register"
  | constant => "Constant"
  | address => "Address"
  | controlRegister => "ControlRegister"
  | value => "Value"
  | identifier => "Identifier"

/-- The operands of `full` that are left over once every operand of `written`
    has been matched with the first equal one, in the order of `full`. There
    is no answer when `written` has an operand that `full` lacks. -/
def difference? : List Operand → List Operand → Option (List Operand)
  | [], [] => some []
  | [], _ :: _ => none
  | operand :: full, written =>
    if operand ∈ written then difference? full (written.erase operand)
    else (difference? full written).map (operand :: ·)

/-- Whether one trailing literal can account for the operands that a
    pseudo-instruction leaves out: there is at least one of them, at most one
    is a constant, and every other one is a register, which stands for `R0`. -/
def literalCovers (omitted : List Operand) : Bool :=
  !omitted.isEmpty
    && omitted.count constant ≤ 1
    && omitted.all fun operand => operand = constant || operand = register

end Operand

end Sigma16

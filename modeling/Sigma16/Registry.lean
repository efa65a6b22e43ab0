import Sigma16.Consistency
import Sigma16.InstructionSet

namespace Sigma16

/-- What an assembler and an emulator share: the mnemonics of the instruction
    set and the control registers. -/
structure Registry where
  table : Table
  registers : ControlRegisters

namespace Registry

def standard : Registry :=
  ⟨InstructionSet.table, .standard⟩

/-- Every violation in a registry: those of the table, then those of the flags,
    which are the same in every registry, and then those of the control
    registers. -/
def violations (registry : Registry) : List Violation :=
  registry.table.violations ++ flagViolations ++ registry.registers.violations

/-- Accepts a registry without violations and answers all of them otherwise. -/
def validate (registry : Registry) : Except (List Violation) Unit :=
  match registry.violations with
  | [] => .ok ()
  | violations => .error violations

theorem validate_eq_ok_iff (registry : Registry) :
    registry.validate = .ok () ↔ registry.violations = [] := by
  unfold validate
  split <;> simp_all

end Registry

end Sigma16

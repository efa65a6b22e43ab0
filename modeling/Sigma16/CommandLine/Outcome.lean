import Sigma16.CommandLine.Report

namespace Sigma16.CommandLine

/-- How the program ends. -/
structure Outcome where
  /-- The exit code: 0 for success, 1 for a failure, 2 for misuse. -/
  exitCode : Nat
  output : String
  diagnostics : String
  deriving DecidableEq, Repr

def usageText : String :=
  "Sigma16 instruction-set registry\n\n"
    ++ "Usage: sigma16-isa <COMMAND>\n\n"
    ++ "Commands:\n"
    ++ "  formats            Every statement format with its word count and operands\n"
    ++ "  mnemonics          Every mnemonic with its format and opcode fields\n"
    ++ "  ctlregs            The control registers and their indices\n"
    ++ "  bits               Condition code, status, and interrupt bits\n"
    ++ "  lookup <MNEMONIC>  Looks up one mnemonic\n"
    ++ "  decode <WORD>      Decodes the first word of an instruction, given in hex\n"
    ++ "  check              Checks the consistency of the registry\n"
    ++ "  help               Shows this text\n\n"
    ++ "Options:\n"
    ++ "  -h, --help         Shows this text\n"
    ++ "  -V, --version      Shows the version\n"

/-- The lines of the events that a filter lets through. -/
def logText (filter : Filter) (events : List Event) : String :=
  String.join ((events.filter filter.admits).map (·.line))

/-- Runs the program on a registry with the given arguments, and with the
    given specification of what to log if there is one. -/
def run (registry : Registry) (arguments : List String) (spec : Option String) : Outcome :=
  let (filter, faults) := (spec.map Filter.ofSpec).getD (.standard, [])
  let warnings := String.join (faults.map (·.line))
  match Request.ofArguments arguments with
  | .error .help => ⟨0, usageText, warnings⟩
  | .error .misuse => ⟨2, "", warnings ++ usageText⟩
  | .ok request =>
    let report := report registry request
    let diagnostics := warnings ++ logText filter report.events
    match report.result with
    | .ok output => ⟨0, output, diagnostics⟩
    | .error failure => ⟨1, "", diagnostics ++ failure.text⟩

end Sigma16.CommandLine

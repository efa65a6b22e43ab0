import Sigma16.CommandLine.Outcome

open Sigma16

/-- Runs the program on the registry of the architecture. The environment may
    specify what to log. -/
def main (arguments : List String) : IO UInt32 := do
  let spec ← IO.getEnv "RUST_LOG"
  let outcome := CommandLine.run .standard arguments spec
  (← IO.getStdout).putStr outcome.output
  (← IO.getStderr).putStr outcome.diagnostics
  return UInt32.ofNat outcome.exitCode

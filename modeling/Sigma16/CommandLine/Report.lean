import Sigma16.CommandLine.Log
import Sigma16.CommandLine.Request
import Sigma16.Listing

namespace Sigma16.CommandLine

/-- Why a request cannot be met. -/
inductive Failure where
  | unknownMnemonic (mnemonic : String)
  | malformedWord (text : String) (cause : HexError)
  | noInstruction (word : Word)
  | inconsistent (violations : List Violation)
  deriving DecidableEq, Repr

def Failure.text : Failure → String
  | unknownMnemonic mnemonic => "Error: " ++ mnemonic ++ " is not a mnemonic\n"
  | malformedWord text cause =>
    "Error: " ++ text ++ " is not a hexadecimal word\n\nCaused by:\n    " ++ cause.message ++ "\n"
  | noInstruction word => "Error: " ++ word.toHex ++ " does not hold a valid opcode\n"
  | inconsistent violations =>
    String.join (violations.map (·.message ++ "\n"))
      ++ "Error: " ++ toString violations.length ++ " inconsistencies in the registry\n"

/-- What comes of a request. -/
structure Report where
  events : List Event
  /-- The text to print, unless the request fails. -/
  result : Except Failure String

/-- The first use of a table of mnemonics is worth logging. -/
def tableReady (table : Table) : Event :=
  ⟨.debug, "mnemonic table initialized with " ++ toString table.size ++ " entries"⟩

def registersReady (registers : ControlRegisters) : Event :=
  ⟨.debug, "control register table initialized with " ++ toString registers.size ++ " entries"⟩

def tableChecked (table : Table) : Event :=
  ⟨.info, toString table.size ++ " mnemonics checked"⟩

/-- What is known about an entry: its text, how many words its statements
    take, and where they exist the first of these words and its base. -/
def entryText (table : Table) (entry : Entry) : String :=
  entry.text ++ "\n"
    ++ "words: " ++ toString entry.wordCount ++ "\n"
    ++ ((entry.firstWord?.map fun word => "first word: " ++ word.toHex ++ "\n").getD "")
    ++ ((table.base? entry).map fun base =>
      "pseudo-instruction for: " ++ base.entry.text ++ "\n").getD ""

/-- What an instruction is decoded to: the entry that tells most about it, the
    real instruction in parentheses if that is another one, and the number of
    words that the first one calls for. -/
def decodedText (word : Word) (real chosen : Entry) : String :=
  (if real = chosen then real.text else chosen.text ++ " (" ++ real.mnemonic ++ ")") ++ "\n"
    ++ "words: " ++ (if word.isDoubleWord then "2" else "1") ++ "\n"

def reportLookup (table : Table) (mnemonic : String) : Report where
  events := [tableReady table]
  result :=
    match table.lookup? mnemonic with
    | some row => .ok (entryText table row.entry)
    | none => .error (.unknownMnemonic mnemonic)

/-- Decodes a word. The table is not used before the word has been read. -/
def reportDecode (table : Table) (text : String) : Report :=
  match Word.ofText text with
  | .error cause => ⟨[], .error (.malformedWord text cause)⟩
  | .ok word =>
    let decoder := Decoder.ofTable table
    let result :=
      match decoder.decode? word, decoder.decodeAlias? word with
      | some real, some chosen => .ok (decodedText word real.entry chosen.entry)
      | some real, none => .ok (decodedText word real.entry real.entry)
      | none, _ => .error (.noInstruction word)
    ⟨[tableReady table], result⟩

def reportCheck (registry : Registry) : Report :=
  let ready := [tableReady registry.table, registersReady registry.registers]
  match registry.validate with
  | .ok () => ⟨ready ++ [tableChecked registry.table], .ok "ok\n"⟩
  | .error violations => ⟨ready, .error (.inconsistent violations)⟩

def versionText : String :=
  "sigma16-isa 0.1.0\n"

/-- Meets a request with the contents of a registry. -/
def report (registry : Registry) : Request → Report
  | .version => ⟨[], .ok versionText⟩
  | .formats => ⟨[], .ok Listing.formats.render⟩
  | .mnemonics => ⟨[tableReady registry.table], .ok (Listing.mnemonics registry.table).render⟩
  | .controlRegisters =>
    ⟨[registersReady registry.registers], .ok (Listing.controlRegisters registry.registers).render⟩
  | .flags => ⟨[], .ok Listing.flags.render⟩
  | .lookup mnemonic => reportLookup registry.table mnemonic
  | .decode text => reportDecode registry.table text
  | .check => reportCheck registry

end Sigma16.CommandLine

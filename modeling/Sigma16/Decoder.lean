import Sigma16.Table

namespace Sigma16

namespace Entry

/-- The opcode fields by which a first word selects an instruction: the
    primary opcode and, where there is one, the secondary. -/
def selector (entry : Entry) : List UInt8 :=
  entry.opcode.take 2

end Entry

namespace Table

/-- The rows of machine instructions, pseudo-instructions among them. -/
def instructions (table : Table) : List Row :=
  table.rows.filter (·.entry.isInstruction)

/-- The rows of the instructions that have an encoding of their own. -/
def realInstructions (table : Table) : List Row :=
  table.instructions.filter (!·.entry.pseudo)

end Table

/-- The way back from opcode fields to the rows of a table, as a disassembler
    or an emulator needs it. -/
structure Decoder where
  /-- The first instruction with each complete sequence of opcode fields. -/
  exact : Std.HashMap (List UInt8) Row
  selectors : Std.HashMap (List UInt8) Row

namespace Decoder

def ofTable (table : Table) : Decoder where
  exact := firstByKey (·.entry.opcode) table.instructions
  selectors := firstByKey (·.entry.selector) table.realInstructions

/-- The instruction whose opcode fields are exactly the given ones. -/
def resolve? (decoder : Decoder) (fields : List UInt8) : Option Row :=
  decoder.exact[fields]?

/-- The real instruction that a first word selects. -/
def decode? (decoder : Decoder) (word : Word) : Option Row :=
  decoder.selectors[word.opcodeFields]?

/-- The instruction that a first word selects, or the one whose literal the
    word carries as well. Only indexed instructions keep a literal in the
    first word, so all others decode to the real instruction. -/
def decodeAlias? (decoder : Decoder) (word : Word) : Option Row := do
  let real ← decoder.decode? word
  if real.entry.family = .indexed then
    (decoder.resolve? (word.opcodeFields ++ [word.d])).getD real
  else real

/-- The number of different sequences of opcode fields. -/
def size (decoder : Decoder) : Nat :=
  decoder.exact.size

def isEmpty (decoder : Decoder) : Bool :=
  decoder.exact.isEmpty

/-- Resolving scans the instructions for the first one with the fields. -/
theorem resolve?_ofTable (table : Table) (fields : List UInt8) :
    (ofTable table).resolve? fields = table.instructions.find? (·.entry.opcode == fields) :=
  getElem?_firstByKey _ _ fields

/-- Decoding scans the real instructions for the first one with the selector
    that the word carries. -/
theorem decode?_ofTable (table : Table) (word : Word) :
    (ofTable table).decode? word =
      table.realInstructions.find? (·.entry.selector == word.opcodeFields) :=
  getElem?_firstByKey _ _ word.opcodeFields

end Decoder

end Sigma16

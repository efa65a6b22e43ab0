namespace Sigma16.CommandLine

/-- What the program is asked for. -/
inductive Request where
  | version
  | formats
  | mnemonics
  | controlRegisters
  | flags
  | lookup (mnemonic : String)
  /-- The instruction that starts with a word, given as text. -/
  | decode (word : String)
  | check
  deriving DecidableEq, Repr

/-- Why arguments make no request. -/
inductive NoRequest where
  | help
  | misuse
  deriving DecidableEq, Repr

namespace Request

/-- Whether an argument is an option rather than a value. A dash alone is a
    value. -/
def isOption (argument : String) : Bool :=
  match argument.toList with
  | '-' :: _ :: _ => true
  | _ => false

/-- Why an option of a subcommand makes no request. The only options ask for
    help, by the full word or by a letter. -/
def refuse (option : String) : NoRequest :=
  if option = "--help" then .help
  else
    match option.toList with
    | '-' :: 'h' :: _ => .help
    | _ => .misuse

/-- Reads the values of a subcommand that takes up to `room` of them. After a
    double dash all arguments are values. What is wrong first decides the
    answer. -/
def values (room : Nat) : List String → Except NoRequest (List String)
  | [] => .ok []
  | argument :: arguments =>
    if argument = "--" then
      if arguments.length ≤ room then .ok arguments else .error .misuse
    else if isOption argument then .error (refuse argument)
    else
      match room with
      | 0 => .error .misuse
      | room + 1 => (values room arguments).map (argument :: ·)

def withoutValue (request : Request) (arguments : List String) : Except NoRequest Request :=
  (values 0 arguments).map fun _ => request

/-- Makes a request that needs exactly one value. -/
def withValue (request : String → Request) (arguments : List String) :
    Except NoRequest Request := do
  match ← values 1 arguments with
  | [value] => .ok (request value)
  | _ => .error .misuse

/-- The subcommands and how each reads the arguments after it. -/
def subcommands : List (String × (List String → Except NoRequest Request)) :=
  [("formats", withoutValue formats),
    ("mnemonics", withoutValue mnemonics),
    ("ctlregs", withoutValue controlRegisters),
    ("bits", withoutValue flags),
    ("lookup", withValue lookup),
    ("decode", withValue decode),
    ("check", withoutValue check)]

/-- Why a request for help on some subject makes no other request: the subject
    must be a single subcommand, or missing. -/
def helpOn : List String → NoRequest
  | [] => .help
  | [subject] =>
    if subject = "help" || subcommands.any (·.1 = subject) then .help else .misuse
  | _ => .misuse

/-- Reads the arguments of the program: a subcommand and what belongs to it,
    or an option of the program itself. -/
def ofArguments : List String → Except NoRequest Request
  | [] => .error .misuse
  | argument :: arguments =>
    if argument = "--version" then .ok version
    else if isOption argument then
      match argument.toList with
      | '-' :: 'V' :: _ => .ok version
      | _ => .error (refuse argument)
    else if argument = "help" then .error (helpOn arguments)
    else
      match subcommands.find? (·.1 = argument) with
      | some (_, request) => request arguments
      | none => .error .misuse

end Request

end Sigma16.CommandLine

import Sigma16.Text.Fields

namespace Sigma16.CommandLine

/-- How important a logged event is. -/
inductive Level where
  | error
  | warn
  | info
  | debug
  | trace
  deriving DecidableEq, Repr

namespace Level

/-- The levels from the most important on. -/
def all : List Level :=
  [error, warn, info, debug, trace]

def rank (level : Level) : Nat :=
  all.idxOf level

def name : Level → String
  | error => "error"
  | warn => "warn"
  | info => "info"
  | debug => "debug"
  | trace => "trace"

/-- The name of a level in the log, filled up to five columns. -/
def tag : Level → String
  | error => "ERROR"
  | warn => "WARN "
  | info => "INFO "
  | debug => "DEBUG"
  | trace => "TRACE"

end Level

/-- The part of the program that logs, as a specification names it. -/
def logTarget : String :=
  "sigma16_isa"

/-- Something worth logging. -/
structure Event where
  level : Level
  message : String
  deriving DecidableEq, Repr

def Event.line (event : Event) : String :=
  "[" ++ event.level.tag ++ " " ++ logTarget ++ "] " ++ event.message ++ "\n"

/-- A threshold for the events of some targets. -/
structure Directive where
  /-- What the names of its targets start with; none for every target. -/
  target : Option String
  /-- The least important level that is logged; none if nothing is. -/
  threshold : Option Level
  deriving DecidableEq, Repr

/-- A part of a specification that cannot be understood. -/
inductive SpecFault where
  | slashes (spec : String)
  /-- A directive has no known form. -/
  | directive (text : String)
  deriving DecidableEq, Repr

def SpecFault.line : SpecFault → String
  | slashes spec =>
    "warning: invalid logging spec '" ++ spec ++ "' (too many '/'s), ignoring it\n"
  | directive text => "warning: invalid logging spec '" ++ text ++ "', ignoring it\n"

namespace Directive

/-- Reads the name of a threshold, in which case does not matter. -/
def threshold? (chars : List Char) : Option (Option Level) :=
  let name := String.ofList (chars.map Char.toLower)
  if name = "off" then some none
  else (Level.all.find? (·.name = name)).map some

/-- Reads one directive: a threshold for all targets, a target from which all
    is logged, or a target and its threshold around an equals sign. -/
def ofChars (chars : List Char) : Except SpecFault Directive :=
  match Text.fields '=' chars with
  | [text] =>
    match threshold? text with
    | some threshold => .ok ⟨none, threshold⟩
    | none => .ok ⟨some (String.ofList text), some .trace⟩
  | [target, text] =>
    let text := Text.trim text
    match text, threshold? text with
    | [], _ => .ok ⟨some (String.ofList target), some .trace⟩
    | _, some threshold => .ok ⟨some (String.ofList target), threshold⟩
    | _, none => .error (.directive (String.ofList text))
  | _ => .error (.directive (String.ofList chars))

/-- Whether a directive applies to the events of a target. -/
def covers (directive : Directive) (target : String) : Bool :=
  match directive.target with
  | none => true
  | some start => start.toList.isPrefixOf target.toList

/-- How closely a directive names its targets. -/
def precision (directive : Directive) : Nat :=
  (directive.target.map String.utf8ByteSize).getD 0

def admits (directive : Directive) (level : Level) : Bool :=
  match directive.threshold with
  | none => false
  | some threshold => level.rank ≤ threshold.rank

/-- Adds a directive, in the place of one for the same targets if there is
    one and after all others if not. -/
def place (directives : List Directive) (directive : Directive) : List Directive :=
  if directives.any (·.target = directive.target) then
    directives.map fun other => if other.target = directive.target then directive else other
  else directives ++ [directive]

end Directive

/-- What is written to the log. -/
structure Filter where
  directives : List Directive
  /-- A text that logged messages contain. -/
  pattern : Option String
  deriving Repr

namespace Filter

/-- What is logged when nothing is specified: errors only. -/
def standard : Filter :=
  ⟨[⟨none, some .error⟩], none⟩

/-- Reads the directives of a specification, which commas separate, and leaves
    out those that cannot be understood. -/
def readDirectives (chars : List Char) : List Directive × List SpecFault :=
  let parts := ((Text.fields ',' chars).map Text.trim).filter (!·.isEmpty)
  let results := parts.map Directive.ofChars
  let directives := results.filterMap fun
    | .ok directive => some directive
    | .error _ => none
  let faults := results.filterMap fun
    | .ok _ => none
    | .error fault => some fault
  (directives.foldl Directive.place [], faults)

/-- The filter of a specification: directives and, after a slash, a pattern.
    Without any directive the standard ones hold. -/
def ofSpec (spec : String) : Filter × List SpecFault :=
  let withDirectives (chars : List Char) (pattern : Option String) : Filter × List SpecFault :=
    let (directives, faults) := readDirectives chars
    (⟨if directives.isEmpty then standard.directives else directives, pattern⟩, faults)
  match Text.fields '/' spec.toList with
  | [chars] => withDirectives chars none
  | [chars, pattern] => withDirectives chars (some (String.ofList pattern))
  | _ => (standard, [.slashes spec])

/-- The directive that decides about a target: the one that names it most
    closely, and the last of those that do so equally. -/
def governing? (filter : Filter) (target : String) : Option Directive :=
  (filter.directives.filter (·.covers target)).foldl
    (fun best directive =>
      match best with
      | none => some directive
      | some other => if directive.precision < other.precision then best else some directive)
    none

def admits (filter : Filter) (event : Event) : Bool :=
  ((filter.governing? logTarget).map (·.admits event.level)).getD false
    && ((filter.pattern.map fun pattern =>
      Text.occursIn pattern.toList event.message.toList).getD true)

end Filter

end Sigma16.CommandLine

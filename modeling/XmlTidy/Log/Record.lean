import XmlTidy.Json.Shown
import XmlTidy.Settings.Profile

/-!
Log lines. A logger has a dotted name, of which the last part stands for its component unless it was
given one. A line is printed if the logger belongs to this library and the level of the line is not below
the threshold.
-/

namespace XmlTidy

/-- The weight of a level. -/
def Level.rank : Level → Nat
  | .debug => 10
  | .info => 20
  | .warning => 30
  | .error => 40
  | .critical => 50

namespace Log

/-- The logger that all loggers of this library belong to. -/
def root : String := "xml_pretty_printer"

/-! ### Thresholds -/

/-- Capital letters for those characters that have some in ASCII. Ligatures of which no name has the
letters stay as they are. -/
def capitals (c : Char) : Text :=
  if c = 'ı' then ['I']
  else if c = 'ſ' then ['S']
  else if c = 'ﬅ' || c = 'ﬆ' then ['S', 'T']
  else [c.toUpper]

/-- A name under which the log keeps something that is no level. -/
inductive LevelFault where
  | lineFormat
  | styles
deriving DecidableEq, Repr

def LevelFault.message : LevelFault → String
  | .lineFormat => "Unknown level: '%(levelname)s:%(name)s:%(message)s'"
  | .styles => "Level not an integer or a valid string"

/-- The threshold with a name, in either case. A name that is not known stands for that of warnings. -/
def threshold (name : String) : Except LevelFault Nat :=
  match String.ofList (name.toList.flatMap capitals) with
  | "NOTSET" => .ok 0
  | "WARN" => .ok Level.warning.rank
  | "FATAL" => .ok Level.critical.rank
  | "BASIC_FORMAT" => .error .lineFormat
  | "_STYLES" => .error .styles
  | key => .ok ((Level.ofKey? key).getD .warning).rank

/-- The threshold after it has been set to each of some names in turn. It is not set at first, and then
nothing is printed. -/
def thresholdAfter (names : List String) : Except LevelFault (Option Nat) :=
  names.foldlM (fun _ name => (threshold name).map some) none

/-- Whether a logger is this library's. -/
def isOwn (logger : String) : Bool :=
  logger == root || Text.startsWith (root ++ ".").toList logger.toList

/-- Whether lines of a level pass. No threshold at all, and a logger of someone else, leave it at that of
warnings. -/
def isEnabled (threshold : Nat) (logger : String) (level : Level) : Bool :=
  let bound := if isOwn logger && threshold != 0 then threshold else Level.warning.rank
  bound ≤ level.rank

/-! ### Lines -/

/-- The last part of a dotted name. -/
def lastPart (name : String) : String :=
  String.ofList (name.toList.reverse.takeWhile (· != '.')).reverse

structure Record where
  level : Level
  logger : String
  component : String
  message : String
  /-- Whether the line is followed by the failure at hand, of which there is none. -/
  traced : Bool := false
deriving DecidableEq, Repr

/-- A text with a newline at its end, which is not doubled. -/
def ended (s : String) : String := if s.endsWith "\n" then s else s ++ "\n"

/-- A record as it is printed. A failure starts a line of its own, and a message that ends its line
already leaves no empty one before it. -/
def Record.image (r : Record) : String :=
  let line := r.level.key ++ " " ++ r.logger ++ " [" ++ r.component ++ "] " ++ r.message
  if r.traced then ended line ++ "NoneType: None\n" else line ++ "\n"

/-- What is printed of a record. -/
def Record.printed (threshold : Option Nat) (r : Record) : String :=
  match threshold with
  | none => ""
  | some bound => if isOwn r.logger && isEnabled bound r.logger r.level then r.image else ""

/-! ### Calls -/

/-- The ways to log a message. -/
inductive Method where
  | debug
  | info
  | warning
  | error
  | failure
deriving DecidableEq, Repr

namespace Method

def key : Method → String
  | .debug => "debug"
  | .info => "info"
  | .warning => "warning"
  | .error => "error"
  | .failure => "exception"

def ofKey? (key : String) : Option Method :=
  [Method.debug, .info, .warning, .error, .failure].find? (·.key == key)

def level : Method → Level
  | .debug => .debug
  | .info => .info
  | .warning => .warning
  | .error | .failure => .error

end Method

/-- A logger that gives its lines a component and carries a correlation id. -/
structure Logger where
  name : String
  component : String
  correlationId : Option String
deriving DecidableEq, Repr

/-- A logger; without a component it has the last part of its name. -/
def Logger.make (name : String) (correlationId component : Option String) : Logger where
  name := name
  component :=
    match component with
    | some c => if c.isEmpty then lastPart name else c
    | none => lastPart name
  correlationId := correlationId

/-- The names that the fields of a line cannot take. -/
def reservedFields : List String :=
  ["name", "msg", "args", "levelname", "levelno", "pathname", "filename", "module", "exc_info",
   "exc_text", "stack_info", "lineno", "funcName", "created", "msecs", "relativeCreated", "thread",
   "threadName", "processName", "process", "message", "asctime"]

/-- A field of a line has a reserved name. -/
structure ReservedField where
  key : String
deriving DecidableEq, Repr

def ReservedField.message (fault : ReservedField) : String :=
  "Attempt to overwrite " ++ String.ofList (Text.quoted fault.key.toList) ++ " in LogRecord"

/-- What a call prints. A field named `component` replaces the logger's. A failure is traced by
`failure` always, and by `error` unless told otherwise. -/
def Logger.call (logger : Logger) (threshold : Option Nat) (method : Method) (message : String)
    (fields : Members Json) (traced : Option Bool) : Except ReservedField String :=
  if isEnabled (threshold.getD 0) logger.name method.level then
    match List.find? (fun (key, _) => reservedFields.contains key) fields with
    | some (key, _) => .error ⟨key⟩
    | none =>
        .ok <| Record.printed threshold
          { level := method.level
            logger := logger.name
            component := ((fields.lookup "component").map Json.shown).getD logger.component
            message
            traced := method = .failure || traced.getD (method = .error) }
  else .ok ""

/-- What a call prints that goes to the log as it is. -/
def plainCall (threshold : Option Nat) (logger : String) (method : Method) (message : String) : String :=
  Record.printed threshold
    { level := method.level
      logger
      component := lastPart logger
      message
      traced := method = .failure }

end Log

end XmlTidy

import XmlTidy.Command.Arguments
import XmlTidy.Format.Formatter
import XmlTidy.Json.Write
import XmlTidy.Log.Notice
import XmlTidy.Settings.Load

/-!
Running a command over a tree of files. `format` prints every file, or writes back those that change;
`check` tells which files would change. A file that cannot be read as a document, or not be written, is
reported, and the others are still done.
-/

namespace XmlTidy

/-! ### One file -/

/-- What became of a file: the formatted text, or a message. -/
structure FileResult where
  path : Path
  outcome : Except String Result
  notices : List Notice

namespace FileResult

def name (r : FileResult) : String := String.ofList r.path.image

def failed (r : FileResult) : Bool := !r.outcome.toBool

def changed (r : FileResult) : Bool :=
  match r.outcome with
  | .ok f => f.changed
  | .error _ => false

def diagnosticJson (d : Diagnostic) : Json :=
  .obj
    [("severity", .str d.severity.key), ("message", .str d.message), ("component", .str d.component)]

/-- The result of a file that was not written back. The time is not measured. -/
def toJson (r : FileResult) : Json :=
  match r.outcome with
  | .ok f =>
      .obj
        [("file", .str r.name), ("success", .bool true), ("changed", .bool f.changed),
         ("written", .bool false), ("processing_time_ms", .int 0),
         ("diagnostics", .arr (f.diagnostics.map diagnosticJson))]
  | .error message =>
      .obj
        [("file", .str r.name), ("success", .bool false), ("changed", .bool false),
         ("error", .str message)]

end FileResult

/-- Formats the bytes of a file. -/
def Formatter.formatBytes (formatter : Formatter) (p : Path) (bytes : Bytes) :
    Except PageFault FileResult :=
  let failed (message : String) (notices : List Notice) : FileResult :=
    ⟨p, .error message, .formattingFile :: notices ++ [.fileFailed]⟩
  match Utf8.decode bytes with
  | .error fault => .ok (failed fault.message [])
  | .ok t =>
      match formatter.format t with
      | .error (.malformed e) => .ok (failed e.message [.syntaxError])
      | .error (.print (.stray value)) =>
          .ok (failed (invalidDocMessage value.typeName) [.parsedDocument])
      | .error (.print (.page fault)) => .error fault
      | .ok f => .ok ⟨p, .ok f, .formattingFile :: f.notices⟩

/-- Formats the file at a path; a file that is not there fails. -/
def Formatter.formatAt (formatter : Formatter) (tree : FileTree) (p : Path) :
    Except PageFault FileResult :=
  match tree.readAt? p with
  | some bytes => formatter.formatBytes p bytes
  | none => .ok ⟨p, .error "No such file", [.formattingFile, .fileFailed]⟩

/-! ### What is said on the way -/

inductive Message where
  | log (record : Log.Record)
  | noFiles
  | failed (name message : String)
  | written (name : String)
  | refused (fault : LoadFault)
deriving DecidableEq, Repr

def Message.image : Message → String
  | .log record => record.image
  | .noFiles => "No XML files found\n"
  | .failed name message => "Error: " ++ name ++ ": " ++ message ++ "\n"
  | .written name => "Formatted: " ++ name ++ "\n"
  | .refused fault => "Configuration error: " ++ fault.message ++ "\n"

/-- The notices that are logged at a threshold. -/
def logged (threshold : Nat) (notices : List Notice) : List Message :=
  (notices.map Notice.record).filterMap fun record =>
    if Log.isEnabled threshold record.logger record.level then some (.log record) else none

/-- How a run ended: its exit code, its output, its messages, and the files it leaves behind. -/
structure Outcome where
  exit : Nat
  output : Text
  messages : List Message
  tree : FileTree
deriving Repr

/-! ### Commands -/

/-- A run as it goes on. -/
structure Progress where
  tree : FileTree
  output : List Text := []
  messages : List Message := []
  failures : Nat := 0

namespace Arguments

/-- The least level that is logged. -/
def threshold (a : Arguments) (profile : Profile) : Nat :=
  if a.verbose then Level.debug.rank
  else if a.quiet then Level.error.rank
  else profile.level.rank

/-- What a formatted file adds to a run. It is written back on request if it changes; if that fails, the file
has failed. -/
def record (a : Arguments) (threshold : Nat) (s : Progress) (result : FileResult) : Progress :=
  let messages := s.messages ++ logged threshold result.notices
  match result.outcome with
  | .error message =>
      { s with
        messages := messages ++ [.failed result.name message]
        failures := s.failures + 1 }
  | .ok f =>
      if !a.write then { s with messages, output := f.formatted :: s.output }
      else if f.changed then
        match s.tree.writeAt result.path (Utf8.encode f.formatted) with
        | (tree, none) =>
            { s with
              tree
              messages := if a.quiet then messages else messages ++ [.written result.name] }
        | (tree, some reason) =>
            { s with
              tree
              messages := messages ++ logged threshold [.fileFailed] ++ [.failed result.name reason]
              failures := s.failures + 1 }
      else { s with messages }

/-- Formats one file. -/
def formatOne (a : Arguments) (formatter : Formatter) (threshold : Nat) (s : Progress) (p : Path) :
    Except PageFault Progress :=
  (formatter.formatAt s.tree p).map (a.record threshold s)

def formatAll (a : Arguments) (formatter : Formatter) (threshold : Nat) (files : List Path)
    (tree : FileTree) : Except PageFault Outcome := do
  let done ← files.foldlM (a.formatOne formatter threshold) { tree }
  return {
    exit := if done.failures = 0 then 0 else 1
    output := done.output.reverse.flatten
    messages := done.messages
    tree := done.tree }

/-- The lines that tell of a checked file. -/
def checkLines (r : FileResult) : List String :=
  match r.outcome with
  | .error message => ["✗ " ++ r.name, "   Error: " ++ message]
  | .ok f => [(if f.changed then "✗ " else "✓ ") ++ r.name]

/-- What `check` prints for a reader. -/
def checkText (results : List FileResult) : List String :=
  let changed := (results.filter FileResult.changed).length
  ("Checked " ++ toString results.length ++ " files, " ++ toString changed ++ " need formatting") ::
    String.ofList (List.replicate 50 '-') :: results.flatMap checkLines

def checkAll (a : Arguments) (formatter : Formatter) (threshold : Nat) (files : List Path)
    (tree : FileTree) : Except PageFault Outcome := do
  let results ← files.mapM (formatter.formatAt tree)
  let lines :=
    if a.json then [Json.write (some 2) (.arr (results.map FileResult.toJson))]
    else if a.quiet then []
    else checkText results
  return {
    exit := if results.any fun r => r.changed || r.failed then 1 else 0
    output := lines.flatMap fun line => line.toList ++ ['\n']
    messages := results.flatMap fun r => logged threshold r.notices
    tree }

/-- The text of the file at a path, or the reason why there is none. -/
def readText (tree : FileTree) (p : Path) : Except String Text :=
  match tree.readAt? p with
  | none => .error "not a file that can be read"
  | some bytes => (Utf8.decode bytes).mapError Utf8Fault.message

/-- The profile that a run is made with. -/
def profile (a : Arguments) (tree : FileTree) : Except LoadFault Profile := do
  let base ←
    match a.config with
    | none => pure {}
    | some p => Profile.ofFile (String.ofList p.image) (readText tree p)
  (base.adjust a.preset a.settings).mapError .profile

/-- One notice for each path that leads nowhere. -/
def missing (a : Arguments) (tree : FileTree) : List Notice :=
  (a.paths.filter fun p => (tree.resolve? p).isNone).map fun _ => .pathNotFound

def execute (a : Arguments) (formatter : Formatter) (tree : FileTree) :
    Except PageFault Outcome := do
  let threshold := a.threshold formatter.profile
  let warnings := logged threshold (a.missing tree)
  let files := tree.collect a.recursive a.paths
  if files.isEmpty then
    return { exit := 1, output := [], messages := warnings ++ [.noFiles], tree }
  let outcome ←
    match a.verb with
    | .format => a.formatAll formatter threshold files tree
    | .check => a.checkAll formatter threshold files tree
  return { outcome with messages := warnings ++ outcome.messages }

end Arguments

/-! ### The program -/

def version : String := "0.1.0"

/-- What is printed for a reader who asks for help. -/
def usage : String :=
  "usage: xml-pretty-printer [-h] [--version] [--verbose] [--quiet] \x7bformat,check\x7d ...\n\n" ++
  "Opinionated XML formatter\n\n" ++
  "commands:\n" ++
  "  format [options] [--write] paths...             Format XML files\n" ++
  "  check [options] [--format json|text] paths...   Check that XML files are formatted\n\n" ++
  "options of both commands:\n" ++
  "  --recursive, -r            Recursively search directories\n" ++
  "  --config, -c FILE          JSON configuration file\n" ++
  "  --preset NAME              canonical, readable or strict\n" ++
  "  --quote-attributes STYLE   double, single or preserve\n" ++
  "  --whitespace-sensitivity MODE   strict, ignore or preserve\n" ++
  "  --sort-attributes, --single-attribute-per-line, --bracket-same-line,\n" ++
  "  --no-self-closing-space, --use-tabs\n" ++
  "  --print-width N, --tab-width N\n" ++
  "  --end-of-line END          lf, crlf or cr\n"

/-- Why there is no outcome: the arguments end the run by themselves, the file with the profile has a
shape that nothing was provided for, the profile has no page, or a path is too long. -/
inductive Halt where
  | stop (stop : Stop)
  | shape (fault : LoadFault)
  | page (fault : PageFault)
  | overlong
deriving DecidableEq, Repr

/-- Runs a command line over a tree of files, where there is room for so many blanks. -/
def run (texts : List Text) (tree : FileTree) (room : Int := Profile.countableBlanks) :
    Except Halt Outcome := do
  let a ← (Arguments.read texts).mapError .stop
  match a.profile tree with
  | .ok profile =>
      let formatter ← (Formatter.make profile none [] room).mapError .page
      if a.paths.any tree.isOverlong then throw .overlong
      (a.execute formatter tree).mapError .page
  | .error fault =>
      if fault.isShape then throw (.shape fault)
      return { exit := 2, output := [], messages := [.refused fault], tree }

end XmlTidy

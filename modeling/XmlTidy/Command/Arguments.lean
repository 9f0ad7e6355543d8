import XmlTidy.Command.FileTree
import XmlTidy.Json.Read
import XmlTidy.Settings.Profile
import XmlTidy.Text.Digit

/-!
Reading command-line arguments. Options stand before the command or behind it, and each side has its
own. A long option may be shortened as long as only one option begins that way, and takes a value behind
an equals sign or as the next argument. A short option takes what is attached to it as its value, or, if
it takes none, as further short options. Behind a double dash nothing is an option, and a double dash
attached to an option is no value at all. All paths of a command stand together.
-/

namespace XmlTidy

/-- Why arguments do not lead to a run. -/
inductive Stop where
  | help
  | version
  | misuse
  | noCommand
deriving DecidableEq, Repr

inductive Verb where
  | format
  | check
deriving DecidableEq, Repr

def Verb.key : Verb → String
  | .format => "format"
  | .check => "check"

def Verb.ofKey? (key : Text) : Option Verb :=
  [Verb.format, .check].find? (·.key.toList == key)

/-- What the arguments say. -/
structure Arguments where
  verbose : Bool := false
  quiet : Bool := false
  verb : Verb := .format
  paths : List Path := []
  recursive : Bool := false
  write : Bool := false
  json : Bool := false
  config : Option Path := none
  preset : Option Profile := none
  settings : Setting → Option Json := fun _ => none

/-! ### Options -/

/-- How an option gives a setting its value. -/
inductive Given where
  | constant (value : Json)
  | oneOf (names : List String)
  | integer

inductive Action where
  | help
  | version
  | verbose
  | quiet
  | recursive
  | write
  | output
  | config
  | preset
  | setting (setting : Setting) (given : Given)

def Action.takesValue : Action → Bool
  | .output | .config | .preset => true
  | .setting _ (.oneOf _) | .setting _ .integer => true
  | _ => false

structure Flag where
  names : List String
  action : Action

namespace Flag

def helpFlag : Flag := ⟨["-h", "--help"], .help⟩

/-- The options that stand before the command. -/
def general : List Flag :=
  [helpFlag, ⟨["--version"], .version⟩, ⟨["--verbose", "-v"], .verbose⟩,
   ⟨["--quiet", "-q"], .quiet⟩]

def ofStyle : List Flag :=
  [helpFlag,
   ⟨["--recursive", "-r"], .recursive⟩,
   ⟨["--config", "-c"], .config⟩,
   ⟨["--preset"], .preset⟩,
   ⟨["--quote-attributes"], .setting .quoteAttributes (.oneOf ["double", "single", "preserve"])⟩,
   ⟨["--whitespace-sensitivity"],
    .setting .whitespaceSensitivity (.oneOf ["strict", "ignore", "preserve"])⟩,
   ⟨["--sort-attributes"], .setting .sortAttributes (.constant (.bool true))⟩,
   ⟨["--single-attribute-per-line"], .setting .singleAttributePerLine (.constant (.bool true))⟩,
   ⟨["--bracket-same-line"], .setting .bracketSameLine (.constant (.bool true))⟩,
   ⟨["--no-self-closing-space"], .setting .selfClosingSpace (.constant (.bool false))⟩,
   ⟨["--print-width"], .setting .printWidth .integer⟩,
   ⟨["--tab-width"], .setting .tabWidth .integer⟩,
   ⟨["--use-tabs"], .setting .useTabs (.constant (.bool true))⟩,
   ⟨["--end-of-line"], .setting .endOfLine (.oneOf ["lf", "crlf", "cr"])⟩]

/-- The options that stand behind a command. -/
def ofVerb : Verb → List Flag
  | .format => ofStyle ++ [⟨["--write", "-w"], .write⟩]
  | .check => ofStyle ++ [⟨["--format", "-f"], .output⟩]

end Flag

/-- The option of a name. -/
def actionOf? (flags : List Flag) (name : Text) : Option Action :=
  (flags.find? fun f => f.names.any (·.toList == name)).map Flag.action

/-- The options with a name that begins in a given way, once for each such name. -/
def abbreviated (flags : List Flag) (lead : Text) : List Action :=
  flags.flatMap fun f =>
    (f.names.filter fun name => Text.startsWith lead name.toList).map fun _ => f.action

/-! ### Classifying arguments -/

/-- An argument. What is attached to an option follows its name, with or without an equals sign. -/
inductive Argument where
  | plain (image : Text)
  | separator
  | unknown (image : Text)
  | option (image : Text) (action : Action) (short : Bool) (attached : Option Text)

namespace Argument

def isOption : Argument → Bool
  | .unknown _ | .option .. => true
  | .plain _ | .separator => false

def isPlain : Argument → Bool
  | .plain _ => true
  | _ => false

/-- The parts of an argument before and behind its first equals sign. -/
def splitEquals? (t : Text) : Option (Text × Text) :=
  match t.span (· != '=') with
  | (_, []) => none
  | (before, _ :: behind) => some (before, behind)

/-- Whether an argument is a negative number, which no option looks like. A line break may follow it. -/
def isNegative (t : Text) : Bool :=
  match if t.getLast? = some '\n' then t.dropLast else t with
  | '-' :: digits =>
      match digits.span isDecimalDigit with
      | (whole, []) => !whole.isEmpty
      | (_, '.' :: places) => !places.isEmpty && places.all isDecimalDigit
      | _ => false
  | _ => false

/-- What an argument that is no option by its beginning is. -/
def other (t : Text) : Argument :=
  if isNegative t || t.contains ' ' then .plain t else .unknown t

/-- An argument that starts with two dashes and is no option by its whole name. -/
def ofLong (flags : List Flag) (t : Text) : Except Stop Argument :=
  let (lead, attached) :=
    match splitEquals? t with
    | some (lead, value) => (lead, some value)
    | none => (t, none)
  match abbreviated flags lead with
  | [] => .ok (other t)
  | [action] => .ok (.option t action false attached)
  | _ => .error .misuse

/-- An argument that starts with one dash and is no option by its whole name. -/
def ofShort (flags : List Flag) (t : Text) : Argument :=
  match actionOf? flags (t.take 2) with
  | some action => .option t action true (some (t.drop 2))
  | none => other t

def isLong (t : Text) : Bool := Text.startsWith ['-', '-'] t

/-- The option that is named in full, with what an equals sign attaches to it. -/
def named? (flags : List Flag) (t : Text) : Option Argument :=
  match actionOf? flags t with
  | some action => some (.option t action (!isLong t) none)
  | none =>
      match splitEquals? t with
      | some (name, value) =>
          (actionOf? flags name).map fun action =>
            .option t action (!isLong name) (some value)
      | none => none

def classify (flags : List Flag) (t : Text) : Except Stop Argument :=
  match t with
  | '-' :: _ :: _ =>
      match named? flags t with
      | some argument => .ok argument
      | none => if isLong t then ofLong flags t else .ok (ofShort flags t)
  | _ => .ok (.plain t)

/-- All arguments; behind the first double dash they are plain. -/
def classifyAll (flags : List Flag) : List Text → Except Stop (List Argument)
  | [] => .ok []
  | t :: rest =>
      if t = ['-', '-'] then .ok (.separator :: rest.map .plain)
      else do
        let argument ← classify flags t
        let arguments ← classifyAll flags rest
        return argument :: arguments

def image : Argument → Text
  | .plain image | .unknown image | .option image .. => image
  | .separator => ['-', '-']

end Argument

/-! ### Values -/

/-- The value of digits, between which single underscores may stand. -/
def digitsValue? (value : Nat) : Text → Option Nat
  | [] => some value
  | '_' :: d :: t => (digitValue? d).bind fun n => digitsValue? (value * 10 + n) t
  | d :: t => (digitValue? d).bind fun n => digitsValue? (value * 10 + n) t

/-- A natural number, written with no more digits than an integer may have. -/
def naturalOf? (t : Text) : Option Nat :=
  if t.isEmpty || t.head? = some '_' || integerDigitLimit < (t.filter (· != '_')).length then none
  else digitsValue? 0 t

/-- The white space that may stand around an integer. The separators among the control characters do
not belong to it. -/
def isIntegerSpace (c : Char) : Bool :=
  Text.isWhiteSpace c && !(0x1C ≤ c.toNat && c.toNat ≤ 0x1F)

/-- An integer, with white space around it and a sign allowed. -/
def integerOf? (t : Text) : Option Int :=
  match Text.stripWhile isIntegerSpace t with
  | '-' :: digits => (naturalOf? digits).map fun n => -(n : Int)
  | '+' :: digits => (naturalOf? digits).map fun n => (n : Int)
  | digits => (naturalOf? digits).map fun n => (n : Int)

def Given.value? : Given → Text → Option Json
  | .constant value, _ => some value
  | .oneOf names, t => (names.find? (·.toList == t)).map .str
  | .integer, t => (integerOf? t).map .int

namespace Arguments

def choose (a : Arguments) (setting : Setting) (value : Json) : Arguments :=
  { a with settings := fun s => if s = setting then some value else a.settings s }

/-- Does what an option says that was given no value at all. -/
def applyVoid (a : Arguments) : Action → Arguments
  | .config => { a with config := none }
  | .preset => { a with preset := none }
  | .output => { a with json := false }
  | .setting setting _ => a.choose setting (.arr [])
  | _ => a

/-- Does what an option says. -/
def applyValue (a : Arguments) (action : Action) (value : Text) : Except Stop Arguments :=
  match action with
  | .help => .error .help
  | .version => .error .version
  | .verbose => .ok { a with verbose := true }
  | .quiet => .ok { a with quiet := true }
  | .recursive => .ok { a with recursive := true }
  | .write => .ok { a with write := true }
  | .config => .ok { a with config := some (.ofText value) }
  | .output =>
      match String.ofList value with
      | "json" => .ok { a with json := true }
      | "text" => .ok { a with json := false }
      | _ => .error .misuse
  | .preset =>
      match Profile.presets.find? (String.ofList value) with
      | some preset => .ok { a with preset := some preset }
      | none => .error .misuse
  | .setting setting given =>
      match given.value? value with
      | some value => .ok (a.choose setting value)
      | none => .error .misuse

/-- Does what an option says; a double dash is no value. -/
def apply (a : Arguments) (action : Action) (value : Text) : Except Stop Arguments :=
  if action.takesValue && value = ['-', '-'] then .ok (a.applyVoid action)
  else a.applyValue action value

end Arguments

/-! ### Options in one argument -/

/-- What one argument asks for: options with their values, and an option whose value is the next
argument. -/
structure Request where
  actions : List (Action × Text) := []
  pending : Option Action := none

/-- Adds an option in front. -/
def Request.cons (action : Action) (r : Request) : Request :=
  { r with actions := (action, []) :: r.actions }

/-- An option without an attached value. -/
def Request.ofAction (action : Action) : Request :=
  if action.takesValue then { pending := some action } else { actions := [(action, [])] }

/-- A short option with what is attached to it: its value, or the next short option and what is
attached to that one. -/
def Request.ofShorts (flags : List Flag) (action : Action) (attached : Text) : Except Stop Request :=
  if action.takesValue then .ok { actions := [(action, attached)] }
  else
    match attached with
    | [] => .error .misuse
    | c :: rest =>
        match actionOf? flags ['-', c] with
        | none => .error .misuse
        | some next =>
            if rest.isEmpty then .ok (cons action (.ofAction next))
            else (Request.ofShorts flags next rest).map (cons action)
termination_by attached.length

def Request.ofOption (flags : List Flag) (action : Action) (short : Bool) :
    Option Text → Except Stop Request
  | none => .ok (.ofAction action)
  | some attached =>
      if short then Request.ofShorts flags action attached
      else if action.takesValue then .ok { actions := [(action, attached)] }
      else .error .misuse

/-! ### Reading -/

/-- What plain arguments are: the paths of a command, or a command with everything behind it. -/
inductive Operands where
  | paths
  | command
deriving DecidableEq, Repr

/-- The operands at the start of arguments, and what follows them. -/
def Operands.take? (operands : Operands) (arguments : List Argument) :
    Option (List Argument × List Argument) :=
  match operands with
  | .paths =>
      let run := arguments.takeWhile (!·.isOption)
      if run.any Argument.isPlain then some (run, arguments.drop run.length) else none
  | .command =>
      match arguments.find? fun | .separator => false | _ => true with
      | some (.plain _) => some (arguments, [])
      | _ => none

/-- What was read: what the options say, the operands, and whether there was anything else. -/
structure Reading where
  arguments : Arguments := {}
  operands : Option (List Argument) := none
  strange : Bool := false

namespace Reading

/-- Does what an argument asks for, with the value that it waits for. -/
def serve (r : Reading) (request : Request) (value : Text) : Except Stop Reading := do
  let actions := request.actions ++ (request.pending.map fun action => (action, value)).toList
  let arguments ← actions.foldlM (fun a (action, value) => a.apply action value) r.arguments
  return { r with arguments }

/-- Takes the operands in front of what is left, if they have not been taken. -/
def take? (r : Reading) (operands : Operands) (rest : List Argument) :
    Option (Reading × List Argument) :=
  if r.operands.isSome then none
  else (operands.take? rest).map fun (taken, rest) => ({ r with operands := some taken }, rest)

theorem length_take? {operands : Operands} {rest taken left : List Argument}
    (h : operands.take? rest = some (taken, left)) : left.length < rest.length := by
  cases operands with
  | paths =>
      simp only [Operands.take?] at h
      split at h
      · next hany =>
          simp only [Option.some.injEq, Prod.mk.injEq] at h
          have hpos : 0 < (rest.takeWhile (!·.isOption)).length := by
            cases hrun : rest.takeWhile (!·.isOption) with
            | nil => simp [hrun] at hany
            | cons _ _ => simp
          have hle := (List.takeWhile_sublist (l := rest) (!·.isOption)).length_le
          rw [← h.2, List.length_drop]
          omega
      · simp at h
  | command =>
      simp only [Operands.take?] at h
      split at h
      · next hfound =>
          simp only [Option.some.injEq, Prod.mk.injEq] at h
          rw [← h.2]
          cases rest with
          | nil => simp at hfound
          | cons _ _ => simp
      · simp at h

/-- Reads classified arguments from left to right. The operands are taken where the first of them
stands; an argument that is neither an option nor an operand is strange. -/
def read (flags : List Flag) (operands : Operands) (r : Reading) :
    List Argument → Except Stop Reading
  | [] => .ok r
  | .unknown _ :: rest => read flags operands { r with strange := true } rest
  | .option _ action short attached :: rest =>
      match Request.ofOption flags action short attached with
      | .error stop => .error stop
      | .ok request =>
          if request.pending.isNone then
            match r.serve request [] with
            | .error stop => .error stop
            | .ok r => read flags operands r rest
          else
            match rest with
            | .plain value :: rest =>
                match r.serve request value with
                | .error stop => .error stop
                | .ok r => read flags operands r rest
            | _ => .error .misuse
  | first :: rest =>
      match _h : r.take? operands (first :: rest) with
      | some (r, left) => read flags operands r left
      | none => read flags operands { r with strange := true } rest
termination_by arguments => arguments.length
decreasing_by
  all_goals simp only [List.length_cons]
  · omega
  · omega
  · omega
  · simp only [take?] at _h
    split at _h
    · simp at _h
    · simp only [Option.map_eq_some_iff, Prod.mk.injEq] at _h
      obtain ⟨⟨taken, left'⟩, htake, -, rfl⟩ := _h
      simpa using length_take? htake
  · omega

end Reading

/-! ### The whole line -/

namespace Arguments

/-- Reads what follows a command, which is at least one path, and tells whether all of it was
understood. -/
def readCommand (a : Arguments) (verb : Verb) (texts : List Text) :
    Except Stop (Arguments × Bool) := do
  let flags := Flag.ofVerb verb
  let classified ← Argument.classifyAll flags texts
  let r ← Reading.read flags .paths { arguments := { a with verb } } classified
  match r.operands with
  | none => throw .misuse
  | some operands =>
      let paths := (operands.filter Argument.isPlain).map fun p => Path.ofText p.image
      return ({ r.arguments with paths }, !r.strange)

/-- Reads a command line. -/
def read (texts : List Text) : Except Stop Arguments := do
  let classified ← Argument.classifyAll Flag.general texts
  let r ← Reading.read Flag.general .command {} classified
  match (r.operands.getD []).map Argument.image with
  | [] => throw (if r.strange then .misuse else .noCommand)
  | name :: rest =>
      match Verb.ofKey? name with
      | none => throw .misuse
      | some verb =>
          let (arguments, understood) ← r.arguments.readCommand verb rest
          if r.strange || !understood then throw .misuse
          return arguments

end Arguments

end XmlTidy

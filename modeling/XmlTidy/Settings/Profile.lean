import XmlTidy.Json.Basic
import XmlTidy.Layout.Page
import XmlTidy.Settings.Style
import XmlTidy.Text.Quoted

/-!
Profiles: the settings of a formatter as they are given, shown and stored. A profile has a printer
section and a layout section of JSON values, a logging level and a name. A section is checked as a
whole whenever it is made: names of choices must be known, the markers must be there and differ, and
the widths must be positive numbers. Values that no check looks at are kept as they are; `style` says what
the printer section means.
-/

namespace XmlTidy

inductive Section where
  | printer
  | layout
deriving DecidableEq, Repr

inductive Setting where
  | quoteAttributes
  | whitespaceSensitivity
  | sortAttributes
  | singleAttributePerLine
  | bracketSameLine
  | selfClosingSpace
  | ignoreStartMarker
  | ignoreEndMarker
  | printWidth
  | tabWidth
  | useTabs
  | endOfLine
deriving DecidableEq, Repr

namespace Section

def key : Section → String
  | .printer => "printer"
  | .layout => "layout"

def all : List Section := [.printer, .layout]

def ofKey? (key : String) : Option Section :=
  all.find? (·.key == key)

/-- The settings of a section in the order in which they are shown. -/
def settings : Section → List Setting
  | .printer =>
      [.quoteAttributes, .whitespaceSensitivity, .sortAttributes, .singleAttributePerLine,
       .bracketSameLine, .selfClosingSpace, .ignoreStartMarker, .ignoreEndMarker]
  | .layout => [.printWidth, .tabWidth, .useTabs, .endOfLine]

end Section

namespace Setting

def key : Setting → String
  | .quoteAttributes => "quote_attributes"
  | .whitespaceSensitivity => "whitespace_sensitivity"
  | .sortAttributes => "sort_attributes"
  | .singleAttributePerLine => "single_attribute_per_line"
  | .bracketSameLine => "bracket_same_line"
  | .selfClosingSpace => "self_closing_space"
  | .ignoreStartMarker => "ignore_start_marker"
  | .ignoreEndMarker => "ignore_end_marker"
  | .printWidth => "print_width"
  | .tabWidth => "tab_width"
  | .useTabs => "use_tabs"
  | .endOfLine => "end_of_line"

def default : Setting → Json
  | .quoteAttributes => .str "preserve"
  | .whitespaceSensitivity => .str "strict"
  | .sortAttributes => .bool false
  | .singleAttributePerLine => .bool false
  | .bracketSameLine => .bool false
  | .selfClosingSpace => .bool true
  | .ignoreStartMarker => .str defaultIgnoreStart
  | .ignoreEndMarker => .str defaultIgnoreEnd
  | .printWidth => .int 80
  | .tabWidth => .int 2
  | .useTabs => .bool false
  | .endOfLine => .str "lf"

end Setting

def Section.setting? (s : Section) (key : String) : Option Setting :=
  s.settings.find? (·.key == key)

/-! ### Faults -/

/-- The settings whose value is the name of a choice. -/
inductive Choice where
  | quotes
  | sensitivity
  | lineEnd
deriving DecidableEq, Repr

def Choice.typeName : Choice → String
  | .quotes => "QuoteStyle"
  | .sensitivity => "WhitespaceSensitivity"
  | .lineEnd => "EndOfLine"

/-- What can be given settings: a section, or a profile as a whole. -/
inductive Owner where
  | oneSection (s : Section)
  | profile
deriving DecidableEq, Repr

def Owner.typeName : Owner → String
  | .oneSection .printer => "PrintConfig"
  | .oneSection .layout => "LayoutConfig"
  | .profile => "FormatterConfig"

/-- The name of the owner together with the place where it is defined. -/
def Owner.fullName (owner : Owner) : String := "xml_pretty_printer.shared.config." ++ owner.typeName

/-- Why given values make no section or no profile. The last three are values of a wrong kind. -/
inductive SettingFault where
  | unknownChoice (choice : Choice) (name : String)
  | halvedChoice (choice : Choice) (codes : List Nat)
  | emptyMarker
  | equalMarkers
  | widthNotPositive
  | tabWidthNotPositive
  | unknownSetting (owner : Owner) (key : String)
  | reservedSetting (owner : Owner)
  | notSettings (owner : Owner) (typeName : String)
  | incomparable (typeName : String)
deriving DecidableEq, Repr

namespace SettingFault

/-- The one name that no setting can be given under. -/
def reservedKey : String := "self"

def message : SettingFault → String
  | .unknownChoice choice name =>
      String.ofList (Text.quoted name.toList) ++ " is not a valid " ++ choice.typeName
  | .halvedChoice choice codes =>
      String.ofList (Quoted.ofCodes codes) ++ " is not a valid " ++ choice.typeName
  | .emptyMarker => "ignore markers cannot be empty"
  | .equalMarkers => "ignore start and end markers must differ"
  | .widthNotPositive => "print_width must be > 0"
  | .tabWidthNotPositive => "tab_width must be > 0"
  | .unknownSetting owner key =>
      owner.typeName ++ ".__init__() got an unexpected keyword argument '" ++ key ++ "'"
  | .reservedSetting owner =>
      owner.typeName ++ ".__init__() got multiple values for argument '" ++ reservedKey ++ "'"
  | .notSettings owner typeName =>
      owner.fullName ++ "() argument after ** must be a mapping, not " ++ typeName
  | .incomparable typeName => "'<=' not supported between instances of '" ++ typeName ++ "' and 'int'"

/-- Whether a value of a wrong kind was given. -/
def isMistyped : SettingFault → Bool
  | .reservedSetting _ | .notSettings .. | .incomparable _ => true
  | _ => false

/-- Whether the values have the wrong shape, rather than a wrong value. -/
def isShape : SettingFault → Bool
  | .unknownSetting .. => true
  | fault => fault.isMistyped

/-- The fault of a key that names no setting. -/
def ofKey (owner : Owner) (key : String) : SettingFault :=
  if key = reservedKey then .reservedSetting owner else .unknownSetting owner key

end SettingFault

/-! ### Sections -/

/-- The values of all settings of a section. -/
abbrev Values := Setting → Json

namespace Values

def set (values : Values) (setting : Setting) (value : Json) : Values :=
  fun s => if s = setting then value else values s

end Values

def LineEnd.key : LineEnd → String
  | .lf => "lf"
  | .crlf => "crlf"
  | .cr => "cr"

def LineEnd.ofKey? (key : String) : Option LineEnd :=
  [LineEnd.lf, .crlf, .cr].find? (·.key == key)

/-- Replaces the name of a choice by its first name. Only a string is looked at. -/
def checkChoice (choice : Choice) (key? : String → Option String) : Json → Except SettingFault Json
  | .str name =>
      match key? name with
      | some key => .ok (.str key)
      | none => .error (.unknownChoice choice name)
  | .scalar (.halved codes) => .error (.halvedChoice choice codes)
  | value => .ok value

/-- Whether a value is not a number up to zero; other values than numbers cannot be compared. -/
def isPositive : Json → Except SettingFault Bool
  | .scalar (.int n) => .ok (0 < n)
  | .scalar (.bool b) => .ok b
  | .scalar (.real negative size) => .ok (!negative && size.digits != 0)
  | .scalar (.infinite negative) => .ok !negative
  | .scalar .nan => .ok true
  | value => .error (.incomparable value.typeName)

def checkPrinter (values : Values) : Except SettingFault Values := do
  let quotes ← checkChoice .quotes (fun k => (QuoteStyle.ofKey? k).map QuoteStyle.key)
    (values .quoteAttributes)
  let sensitivity ← checkChoice .sensitivity (fun k => (Sensitivity.ofKey? k).map Sensitivity.key)
    (values .whitespaceSensitivity)
  if (values .ignoreStartMarker).isVoid || (values .ignoreEndMarker).isVoid then
    throw .emptyMarker
  if (values .ignoreStartMarker).equals (values .ignoreEndMarker) then throw .equalMarkers
  return (values.set .quoteAttributes quotes).set .whitespaceSensitivity sensitivity

def checkLayout (values : Values) : Except SettingFault Values := do
  let lineEnd ← checkChoice .lineEnd (fun k => (LineEnd.ofKey? k).map LineEnd.key)
    (values .endOfLine)
  if !(← isPositive (values .printWidth)) then throw .widthNotPositive
  if !(← isPositive (values .tabWidth)) then throw .tabWidthNotPositive
  return values.set .endOfLine lineEnd

namespace Section

def check : Section → Values → Except SettingFault Values
  | .printer => checkPrinter
  | .layout => checkLayout

/-- Gives settings of a section the values under their keys. -/
def assign (s : Section) (values : Values) : List (String × Json) → Except SettingFault Values
  | [] => .ok values
  | (key, value) :: rest =>
      match s.setting? key with
      | some setting => assign s (values.set setting value) rest
      | none => .error (.ofKey (.oneSection s) key)

/-- The section with some values replaced. -/
def replace (s : Section) (values : Values) (fields : List (String × Json)) :
    Except SettingFault Values :=
  match s.assign values fields with
  | .error e => .error e
  | .ok values => s.check values

/-- The section with given values, and the defaults elsewhere. -/
def make (s : Section) (fields : List (String × Json)) : Except SettingFault Values :=
  s.replace Setting.default fields

def toJson (s : Section) (values : Values) : Json :=
  .obj (s.settings.map fun setting => (setting.key, values setting))

end Section

/-! ### Profiles -/

inductive Level where
  | debug
  | info
  | warning
  | error
  | critical
deriving DecidableEq, Repr

namespace Level

def key : Level → String
  | .debug => "DEBUG"
  | .info => "INFO"
  | .warning => "WARNING"
  | .error => "ERROR"
  | .critical => "CRITICAL"

def all : List Level := [.debug, .info, .warning, .error, .critical]

def ofKey? (key : String) : Option Level :=
  all.find? (·.key == key)

def ofJson? : Json → Option Level
  | .str key => ofKey? key
  | _ => none

end Level

structure Profile where
  printer : Values := Setting.default
  layout : Values := Setting.default
  level : Level := .warning
  name : Json := .null

namespace Profile

/-- The profile as JSON: its sections, the level and the name. -/
def toJson (p : Profile) : Json :=
  .obj
    [(Section.printer.key, Section.printer.toJson p.printer),
     (Section.layout.key, Section.layout.toJson p.layout),
     ("logging_level", .str p.level.key),
     ("name", p.name)]

/-- Profiles are equal if they are shown alike. -/
instance : BEq Profile where
  beq p q := p.toJson == q.toJson

def get (p : Profile) : Section → Values
  | .printer => p.printer
  | .layout => p.layout

def set (p : Profile) (s : Section) (values : Values) : Profile :=
  match s with
  | .printer => { p with printer := values }
  | .layout => { p with layout := values }

/-! ### Presets -/

def strict : Profile := { name := .str "strict" }

def readable : Profile where
  printer := Values.set Setting.default .whitespaceSensitivity (.str "ignore")
  name := .str "readable"

def canonical : Profile where
  printer :=
    ((Values.set Setting.default .quoteAttributes (.str "double")).set
      .whitespaceSensitivity (.str "ignore")).set .sortAttributes (.bool true)
  name := .str "canonical"

/-- The presets by name. -/
def presets : Members Profile :=
  [("strict", strict), ("readable", readable), ("canonical", canonical)]

/-! ### Meaning -/

def textOf : Json → Text
  | .str s => s.toList
  | _ => []

/-- What the printer section means. A choice is known by its name, a flag by whether its value counts
as set, and a marker that is no text marks nothing. -/
def style (p : Profile) : Style where
  quotes :=
    match p.printer .quoteAttributes with
    | .str "preserve" => .preserve
    | .str "double" => .double
    | _ => .single
  sensitivity :=
    match p.printer .whitespaceSensitivity with
    | .str "strict" => .strict
    | .str "preserve" => .preserve
    | _ => .ignore
  sortAttributes := !(p.printer .sortAttributes).isVoid
  oneAttributePerLine := !(p.printer .singleAttributePerLine).isVoid
  bracketSameLine := !(p.printer .bracketSameLine).isVoid
  selfClosingSpace := !(p.printer .selfClosingSpace).isVoid
  ignoreStart := textOf (p.printer .ignoreStartMarker)
  ignoreEnd := textOf (p.printer .ignoreEndMarker)

end Profile

end XmlTidy

import XmlTidy.Json.Read
import XmlTidy.Json.Shown
import XmlTidy.Settings.Override

/-!
Profiles from files, and profiles adjusted by choices made elsewhere. A file holds the JSON of a
profile. It may name a preset, and then what else it holds overrides the preset.
-/

namespace XmlTidy

/-- Why a file gives no profile. -/
inductive LoadFault where
  | unloadable (path reason : String)
  | notObject (path : String)
  | unknownPreset (path shown : String)
  | misplacedSection
  | compoundPreset
  | profile (fault : ProfileFault)
deriving DecidableEq, Repr

namespace LoadFault

/-- Faults of the shape of a file that a run does not recover from. -/
def isShape : LoadFault → Bool
  | .misplacedSection | .compoundPreset => true
  | .profile fault => fault.isUnassignable
  | _ => false

def message : LoadFault → String
  | .unloadable path reason => "Could not load config file " ++ path ++ ": " ++ reason
  | .notObject path => "Config file " ++ path ++ " must contain a JSON object"
  | .unknownPreset path shown => "Unknown preset in " ++ path ++ ": " ++ shown
  | .profile fault => fault.message
  | .misplacedSection => "a section beside a preset is not an object"
  | .compoundPreset => "a preset is not a name"

end LoadFault

namespace Profile

def presetKey : String := "preset"

/-- The overrides that an object gives for a section, each under the key of the setting. -/
def sectionOverrides (members : Members Json) (s : Section) :
    Except LoadFault (List (String × Json)) :=
  match members.find? s.key with
  | none => .ok []
  | some (.obj fields) => .ok (fields.map fun (key, value) => (s.key ++ "__" ++ key, value))
  | some _ => .error .misplacedSection

/-- A preset with what an object overrides. -/
def overridden (preset : Profile) (members : Members Json) : Except LoadFault Profile := do
  let printer ← sectionOverrides members .printer
  let layout ← sectionOverrides members .layout
  let overrides := Members.ofList (printer ++ layout ++ topFields members)
  if overrides.isEmpty then return preset
  (preset.override overrides).mapError .profile

/-- The profile that the members of a file give. -/
def ofFileMembers (path : String) (members : Members Json) : Except LoadFault Profile :=
  let others := members.erase presetKey
  match members.find? presetKey with
  | none | some (.scalar .null) => (ofMembers others).mapError .profile
  | some (.arr _) | some (.obj _) => .error .compoundPreset
  | some (.str name) =>
      match presets.find? name with
      | some preset => overridden preset others
      | none => .error (.unknownPreset path name)
  | some value => .error (.unknownPreset path value.shown)

/-- The profile of a file, of which either the text or the reason why there is none is given. -/
def ofFile (path : String) (content : Except String Text) : Except LoadFault Profile :=
  match content with
  | .error reason => .error (.unloadable path reason)
  | .ok t =>
      match Json.read t with
      | .error fault => .error (.unloadable path fault.message)
      | .ok (.obj members) => ofFileMembers path members
      | .ok _ => .error (.notObject path)

/-! ### Adjustments -/

/-- The settings that can be chosen one by one, in the order in which they are applied. -/
def adjustable : List (Section × Setting) :=
  (Section.printer.settings.filter fun s => s ≠ .ignoreStartMarker && s ≠ .ignoreEndMarker).map
      (Section.printer, ·) ++
    Section.layout.settings.map (Section.layout, ·)

/-- The profile, or the preset chosen in its place, with the chosen settings. -/
def adjust (p : Profile) (preset : Option Profile) (chosen : Setting → Option Json) :
    Except ProfileFault Profile :=
  let base := preset.getD p
  let overrides := adjustable.filterMap fun (s, setting) =>
    (chosen setting).map fun value => (s.key ++ "__" ++ setting.key, value)
  if overrides.isEmpty then .ok base else base.override overrides

end Profile

end XmlTidy

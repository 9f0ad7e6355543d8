import XmlTidy.Settings.Profile

/-!
Making profiles out of JSON: a whole profile from an object, or a profile with some settings
overridden. An override is addressed by `section__setting`, by a section with an object of settings, or
by the name of a top-level setting. All sections are checked before the profile is made.
-/

namespace XmlTidy

/-- Why a profile cannot be made. -/
inductive ProfileFault where
  | settings (fault : SettingFault)
  | level
  | unknownSection (key component field : String)
  | unassignable
deriving DecidableEq, Repr

namespace ProfileFault

def levelMessage : String :=
  "logging_level must be one of [" ++
    String.intercalate ", " (Level.all.map fun l => "'" ++ l.key ++ "'") ++ "]"

def message : ProfileFault → String
  | .settings fault => fault.message
  | .level => levelMessage
  | .unknownSection _ component _ => "Unknown configuration component: " ++ component
  | .unassignable => "overrides cannot be gathered"

/-- The key that a fault is about, if it names one. -/
def field? : ProfileFault → Option String
  | .level => some "logging_level"
  | .unknownSection key _ _ => some key
  | _ => none

/-- The keys that may have been meant. -/
def suggestions : ProfileFault → List String
  | .unknownSection _ _ field => Section.all.map fun s => s.key ++ "__" ++ field
  | _ => []

/-- Whether a value of a wrong kind was given. -/
def isMistyped : ProfileFault → Bool
  | .settings fault => fault.isMistyped
  | _ => false

/-- Whether the values were refused before any setting was looked at. -/
def isUnassignable : ProfileFault → Bool
  | .unassignable => true
  | _ => false

end ProfileFault

namespace Profile

/-- Gives a profile its top-level settings. -/
def assignTop (p : Profile) (level : Json) : List (String × Json) → Except ProfileFault Profile
  | [] =>
      match Level.ofJson? level with
      | some level => .ok { p with level }
      | none => .error .level
  | (key, value) :: rest =>
      if key = "logging_level" then assignTop p value rest
      else if key = "name" then assignTop { p with name := value } level rest
      else .error (.settings (.ofKey .profile key))

/-- The value of a section in an object: an object of settings, or none. -/
def sectionFields (members : Members Json) (s : Section) : Except ProfileFault (List (String × Json)) :=
  match members.find? s.key with
  | none => .ok []
  | some (.obj fields) => .ok fields
  | some value => .error (.settings (.notSettings (.oneSection s) value.typeName))

/-- Makes one section of a profile from an object. -/
def makeSection (members : Members Json) (s : Section) : Except ProfileFault Values :=
  match sectionFields members s with
  | .error e => .error e
  | .ok fields => (s.make fields).mapError .settings

/-- The members that are no sections. -/
def topFields (members : Members Json) : List (String × Json) :=
  members.filter fun (key, _) => (Section.ofKey? key).isNone

/-- The profile that an object describes. -/
def ofMembers (members : Members Json) : Except ProfileFault Profile :=
  match makeSection members .printer with
  | .error e => .error e
  | .ok printer =>
      match makeSection members .layout with
      | .error e => .error e
      | .ok layout =>
          assignTop { printer, layout } (.str Level.warning.key) (topFields members)

/-! ### Overrides -/

/-- The parts of a key before and after its first double underscore. -/
def splitKey? : Text → Option (Text × Text)
  | [] => none
  | '_' :: '_' :: t => some ([], t)
  | c :: t => (splitKey? t).map fun (component, field) => (c :: component, field)

/-- Gathers overrides by section. A section's settings are merged into the object given for it. -/
def gather (gathered : Members Json) : List (String × Json) → Except ProfileFault (Members Json)
  | [] => .ok gathered
  | (key, value) :: rest =>
      match splitKey? key.toList with
      | none => gather (gathered.insert key value) rest
      | some (component, field) =>
          let component := String.ofList component
          let field := String.ofList field
          if (Section.ofKey? component).isNone then .error (.unknownSection key component field)
          else
            match gathered.find? component with
            | none => gather (gathered.insert component (.obj [(field, value)])) rest
            | some (.obj fields) =>
                gather (gathered.insert component (.obj (Members.insert field value fields))) rest
            | some _ => .error .unassignable

/-- Replaces the settings gathered for one section. A section given as anything but an object is left
as it is. -/
def overrideSection (p : Profile) (gathered : Members Json) (s : Section) :
    Except ProfileFault Profile :=
  match gathered.find? s.key with
  | some (.obj fields) =>
      match s.replace (p.get s) fields with
      | .error e => .error (.settings e)
      | .ok values => .ok (p.set s values)
  | _ => .ok p

/-- The profile with the given settings overridden, in the order of the list. -/
def override (p : Profile) (pairs : List (String × Json)) : Except ProfileFault Profile := do
  let pairs := Members.ofList pairs
  if (pairs.find? SettingFault.reservedKey).isSome then throw .unassignable
  let gathered ← gather [] pairs
  let p ← p.overrideSection gathered .printer
  let p ← p.overrideSection gathered .layout
  p.assignTop (.str p.level.key) (topFields gathered)

end Profile

end XmlTidy

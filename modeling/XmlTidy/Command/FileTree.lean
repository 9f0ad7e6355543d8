import XmlTidy.Text.Basic
import XmlTidy.Text.Utf8

/-!
Paths, and a tree of files that they lead into. A path keeps its steps up but not its empty steps. The
files of a tree are known by the names of the folders down to them. Some files may be read but not
written: opening one may fail, or writing to it half-way.
-/

namespace XmlTidy

/-! ### Paths -/

/-- Steps from a starting point: the working folder if `anchor` is empty, the root otherwise. -/
structure Path where
  anchor : Text
  steps : List Text
deriving DecidableEq, Repr

namespace Path

/-- The parts of a text between slashes. -/
def splitSlashes (t : Text) : List Text :=
  t.foldr (fun c parts => if c = '/' then [] :: parts else parts.modifyHead (c :: ·)) [[]]

/-- Exactly two slashes in front are kept; any other number of them stands for one. -/
def anchorOf (t : Text) : Text :=
  let slashes := t.takeWhile (· == '/')
  if slashes.length = 2 then slashes else slashes.take 1

/-- A path as it is written. Empty steps, and steps that stay where they are, count for nothing. -/
def ofText (t : Text) : Path where
  anchor := anchorOf t
  steps := (splitSlashes t).filter fun step => step ≠ [] && step ≠ ['.']

def image (p : Path) : Text :=
  if p.anchor.isEmpty && p.steps.isEmpty then ['.']
  else p.anchor ++ ['/'].intercalate p.steps

def append (p : Path) (steps : List Text) : Path :=
  { p with steps := p.steps ++ steps }

/-- What follows the last point of a name, with the point. There is none if the point is the first or
the last character. -/
def suffix (name : Text) : Text :=
  let tail := (name.reverse.takeWhile (· != '.')).reverse
  if tail.isEmpty || name.length ≤ tail.length + 1 then [] else '.' :: tail

end Path

/-! ### Trees -/

/-- The names from the top of a tree down to a file or a folder. -/
abbrev Location := List Text

/-- How writing to a file fails, with the reason given: the file cannot be opened and stays as it is, or it was
emptied when it was opened and only its first bytes get written. -/
inductive WriteFault where
  | refused (reason : String)
  | cut (written : Nat) (reason : String)
deriving DecidableEq, Repr

/-- Files with their contents, folders that may be empty, the working folder, and the files that cannot be
written. -/
structure FileTree where
  files : List (Location × Bytes)
  folders : List Location := []
  home : Location := []
  faults : List (Location × WriteFault) := []
deriving DecidableEq, Repr

namespace FileTree

def read? (tree : FileTree) (loc : Location) : Option Bytes :=
  tree.files.lookup loc

/-- Replaces the content of a file. -/
def write (tree : FileTree) (loc : Location) (content : Bytes) : FileTree :=
  { tree with files := tree.files.map fun (l, bytes) => (l, if l = loc then content else bytes) }

def isFolder (tree : FileTree) (loc : Location) : Bool :=
  loc.isPrefixOf tree.home || tree.folders.any (loc.isPrefixOf ·) ||
    tree.files.any fun (l, _) => loc.isPrefixOf l && l != loc

/-- Takes one step of a path; from a file there is none. A step up from the top stays there. -/
def step (tree : FileTree) (loc : Location) (name : Text) : Option Location :=
  if !tree.isFolder loc then none
  else if name = ['.', '.'] then some loc.dropLast
  else some (loc ++ [name])

/-- Where a path leads, if there is anything. -/
def resolve? (tree : FileTree) (p : Path) : Option Location :=
  match p.steps.foldlM tree.step (if p.anchor.isEmpty then tree.home else []) with
  | none => none
  | some loc => if (tree.read? loc).isSome || tree.isFolder loc then some loc else none

/-- The most bytes that a name can have. -/
def nameLimit : Nat := 255

/-- The most bytes that a path can have. -/
def pathLimit : Nat := 4095

/-- Whether some step leads out of a folder under a name that is too long to be looked up. -/
def hasOverlongStep (tree : FileTree) (loc : Location) : List Text → Bool
  | [] => false
  | name :: rest =>
      match tree.step loc name with
      | none => false
      | some next => nameLimit < (Utf8.encode name).length || tree.hasOverlongStep next rest

/-- Whether it cannot even be told if a path leads anywhere, because it is too long. With a null
character in it a path leads nowhere. -/
def isOverlong (tree : FileTree) (p : Path) : Bool :=
  !p.image.contains '\x00' &&
    (pathLimit < (Utf8.encode p.image).length ||
      tree.hasOverlongStep (if p.anchor.isEmpty then tree.home else []) p.steps)

/-! ### Searching -/

def suffixes : List Text :=
  [".xml", ".xsl", ".xslt", ".svg", ".xhtml"].map String.toList

/-- Whether a name is that of a markup file, in either case. -/
def isMarkupName (name : Text) : Bool :=
  suffixes.contains ((Path.suffix name).map Char.toLower)

/-- What leads from a folder to what is inside it. -/
def below? (folder loc : Location) : Option Location :=
  if folder.isPrefixOf loc && folder != loc then some (loc.drop folder.length) else none

/-- Locations in the order of their names, name by name. -/
def compareLocations : Location → Location → Ordering
  | [], [] => .eq
  | [], _ :: _ => .lt
  | _ :: _, [] => .gt
  | a :: as, b :: bs => (Text.compare a b).then (compareLocations as bs)

/-- The markup files in a folder, and on request in the folders inside it, in order. -/
def search (tree : FileTree) (recursive : Bool) (folder : Location) : List Location :=
  let found := tree.files.filterMap fun (loc, _) => below? folder loc
  let wanted := found.filter fun loc =>
    (recursive || loc.length = 1) && isMarkupName (loc.getLastD [])
  wanted.mergeSort fun a b => (compareLocations a b).isLE

/-- The files that a path stands for: itself if it is a file, and the markup files in it if it is a
folder. There is no answer if it leads nowhere. -/
def find? (tree : FileTree) (recursive : Bool) (p : Path) : Option (List Path) :=
  match tree.resolve? p with
  | none => none
  | some loc =>
      if (tree.read? loc).isSome then some [p]
      else some ((tree.search recursive loc).map p.append)

/-- The files that paths stand for, one path after the other; a path that leads nowhere gives none. -/
def collect (tree : FileTree) (recursive : Bool) (paths : List Path) : List Path :=
  paths.flatMap fun p => (tree.find? recursive p).getD []

/-- The bytes of the file at a path. -/
def readAt? (tree : FileTree) (p : Path) : Option Bytes :=
  (tree.resolve? p).bind tree.read?

/-- How writing to the file at a path fails, if it does. -/
def faultAt? (tree : FileTree) (p : Path) : Option WriteFault :=
  (tree.resolve? p).bind fun loc => tree.faults.lookup loc

/-- Writes to the file at a path. The reason for a failure comes second. -/
def writeAt (tree : FileTree) (p : Path) (content : Bytes) : FileTree × Option String :=
  match tree.resolve? p with
  | none => (tree, some "No such file")
  | some loc =>
      match tree.faults.lookup loc with
      | none => (tree.write loc content, none)
      | some (.refused reason) => (tree, some reason)
      | some (.cut written reason) => (tree.write loc (content.take written), some reason)

end FileTree

end XmlTidy

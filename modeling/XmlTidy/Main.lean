import XmlTidy.Command.Run

/-!
The command line: it loads the files that the arguments name, runs the command over them, prints what
it says, and writes back the files that it changed.
-/

namespace XmlTidy.Main

/-- The name of a location on disk. -/
def diskName (loc : Location) : String :=
  "/" ++ String.intercalate "/" (loc.map String.ofList)

def isFolder (loc : Location) : IO Bool := do
  ((← IO.currentDir) / diskName loc).isDir

/-- Adds the file at a location, if it is one. -/
def loadFile (tree : FileTree) (loc : Location) : IO FileTree := do
  let file := (← IO.currentDir) / diskName loc
  if (tree.read? loc).isSome || !(← file.pathExists) || (← file.isDir) then return tree
  let bytes ← IO.FS.readBinFile file
  return { tree with files := (loc, bytes.toList) :: tree.files }

/-- Adds the markup files in a folder, and on request in the folders inside it. -/
partial def loadFolder (recursive : Bool) (tree : FileTree) (loc : Location) : IO FileTree := do
  let mut tree := { tree with folders := loc :: tree.folders }
  for entry in ← ((← IO.currentDir) / diskName loc).readDir do
    let inside := loc ++ [entry.fileName.toList]
    if ← isFolder inside then
      if recursive then tree ← loadFolder recursive tree inside
    else if FileTree.isMarkupName entry.fileName.toList then tree ← loadFile tree inside
  return tree

/-- Adds what a path leads to, and the folders on its way. -/
def loadPath (recursive : Bool) (tree : FileTree) (p : Path) : IO FileTree := do
  let mut tree := tree
  let mut loc := if p.anchor.isEmpty then tree.home else []
  for step in p.steps do
    if ← isFolder loc then tree := { tree with folders := loc :: tree.folders }
    loc := if step = ['.', '.'] then loc.dropLast else loc ++ [step]
  if ← isFolder loc then loadFolder recursive tree loc else loadFile tree loc

/-- The files that arguments name. -/
def load (a : Arguments) : IO FileTree := do
  let home := (Path.ofText (← IO.currentDir).toString.toList).steps
  let mut tree : FileTree := { files := [], home }
  for p in a.config.toList do
    tree ← loadPath false tree p
  for p in a.paths do
    tree ← loadPath a.recursive tree p
  return tree

/-- Writes back the files that a run changed, and says whether all of them could be written. -/
def store (before after : FileTree) : IO Bool := do
  let mut stored := true
  for (loc, bytes) in after.files do
    if before.read? loc ≠ some bytes then
      try IO.FS.writeBinFile (diskName loc) ⟨bytes.toArray⟩
      catch e =>
        IO.eprint (Message.failed (diskName loc) (toString e)).image
        stored := false
  return stored

def finish : Stop → IO UInt32
  | .help => do
      IO.print usage
      return 0
  | .version => do
      IO.println version
      return 0
  | .misuse => do
      IO.eprint usage
      return 2
  | .noCommand => do
      IO.print usage
      return 1

end XmlTidy.Main

open XmlTidy XmlTidy.Main in
def main (arguments : List String) : IO UInt32 := do
  let texts := arguments.map String.toList
  match Arguments.read texts with
  | .error stop => finish stop
  | .ok a =>
      let tree ← load a
      match run texts tree with
      | .error (.stop stop) => finish stop
      | .error (.shape fault) =>
          IO.eprintln fault.message
          return 1
      | .error (.page fault) =>
          IO.eprintln fault.message
          return 1
      | .error .overlong =>
          IO.eprintln "a path is too long"
          return 1
      | .ok outcome =>
          IO.print (String.ofList outcome.output)
          IO.eprint (String.join (outcome.messages.map Message.image))
          return if ← store tree outcome.tree then outcome.exit.toUInt32 else 1

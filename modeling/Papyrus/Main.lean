import Papyrus.CommandLine
/-!
# The program

The command line runs on a `FileTree`. This module looks up on the disk what the arguments need,
which is the configuration, the script and the import directories of the active profile, hands it
over and writes what comes back.
-/
namespace Papyrus.Program

/-- Whether there is a directory on the disk under this path. -/
def isDirectory (path : Path) : IO Bool := do
  try (← IO.FS.realPath path).isDir catch _ => return false

/-- Adds a directory to a tree, unless something is there. -/
def addDirectory (tree : FileTree) (place : List String) : FileTree :=
  if (tree.root.get? place).isSome then tree
  else { tree with root := tree.root.put place (.directory []) }

/-- The path from the root to a place. -/
def pathOf (place : List String) : Path := "/" ++ "/".intercalate place

/-- Adds the directories on the way along a path and gives the place where it ends. -/
def addWay (tree : FileTree) (path : Path) : IO (FileTree × List String) := do
  let mut tree := tree
  let mut place := if path.startsWith "/" then [] else tree.workingDirectory
  for name in path.components do
    if name == ".." then place := place.dropLast
    else if name != "" && name != "." then place := place ++ [name]
    if ← isDirectory (pathOf place) then tree := addDirectory tree place
  return (tree, place)

/-- Adds a file with its contents. -/
def addFile (tree : FileTree) (path : Path) : IO FileTree := do
  let (tree, place) ← addWay tree path
  if ← isDirectory (pathOf place) then return tree
  try
    let contents ← IO.FS.readBinFile (pathOf place)
    return { tree with root := tree.root.put place (.file contents) }
  catch _ => return tree

/-- The names below a directory. What the files hold is not looked at. -/
partial def names (path : Path) : IO FileNode := do
  if ← isDirectory path then
    let entries ← (← IO.FS.realPath path).readDir
    let children ← entries.toList.mapM fun e => do
      return (e.fileName, ← names (path.join e.fileName))
    return .directory children
  else return .file .empty

/-- Adds a directory with all names below it. -/
def addImports (tree : FileTree) (path : Path) : IO FileTree := do
  let (tree, place) ← addWay tree path
  if ← isDirectory (pathOf place) then
    return { tree with root := tree.root.put place (← names (pathOf place)) }
  else return tree

/-- What the options need of the disk. Import directories are added without the contents of their
files, so the configuration and the script, which may lie in one of them, come last. -/
def gather (home : Option Path) (o : CommandLine.Options) : IO FileTree := do
  let place := (Path.components (← IO.currentDir).toString).filter (· != "")
  let start := addDirectory { workingDirectory := place } place
  let configurations := o.configuration.toList ++ (home.map Path.configuration).toList
  let configured ← configurations.foldlM addFile start
  let imports :=
    match CommandLine.settings configured home o with
    | .error _ => []
    | .ok s => (s.profile?.map Profile.importDirs).getD []
  let imported ← imports.foldlM addImports start
  (configurations ++ o.file.toList).foldlM addFile imported

end Papyrus.Program

open Papyrus in
/-- Runs the command for the arguments and gives its exit code. -/
def main (args : List String) : IO UInt32 := do
  let home ← IO.getEnv "HOME"
  let tree ←
    match CommandLine.Options.parse {} args with
    | .error _ => pure {}
    | .ok o => Program.gather home o
  let outcome := CommandLine.run tree home args
  IO.print outcome.output
  IO.eprint outcome.errors
  return UInt32.ofNat outcome.code

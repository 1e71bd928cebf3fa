import Papyrus.FileTree
import Papyrus.Unicode.LowerCase
/-!
# Script classes

An identifier names a class if the active profile has a script for it: the file `quest/stage.psc` in
one of the import directories for `Quest:Stage`, in any letter case. `Profile.findScript` looks for
that file. `ClassResolver` does so too and may remember, for each profile, which names it found and
which it did not.

Results:
* `isClass_known`, `isOther_known`: what a look-up has found out is remembered.
-/
namespace Papyrus

/-- A named list of directories in which scripts are looked for. -/
structure Profile where
  name : String
  /-- The first directory that holds the script wins. -/
  importDirs : List Path := []
  deriving DecidableEq, Repr

/-- The lower case of a name. -/
def foldName (name : String) : String := String.ofList (Unicode.lowerCase name.toList)

/-! ## Finding a script -/

/-- The names of the directories and of the file that lead to the script of an identifier. Its parts
stand between colons; empty ones do not count. -/
def scriptPath? (identifier : String) : Option (List String) :=
  let parts := ((Text.splitOn ':' identifier.toList).filter (! ·.isEmpty)).map String.ofList
  parts.getLast?.map fun last => parts.dropLast ++ [last ++ ".psc"]

namespace FileTree

/-- The path of the file that is reached from `dir` through entries whose names, in lower case, are
the given ones. -/
def findFolded (tree : FileTree) (dir : Path) : List String → Option Path
  | [] => if tree.isFile dir then some dir else none
  | part :: parts => do
    let names ← tree.list? dir
    let name ← names.find? fun n => foldName n == part
    tree.findFolded (dir.join name) parts

/-- The path of the file that is reached from `dir` through the given names, if it is spelled like
them or else in any letter case. -/
def findScript (tree : FileTree) (dir : Path) (parts : List String) : Option Path :=
  let path := parts.foldl Path.join dir
  if tree.isFile path then some path else tree.findFolded dir parts

end FileTree

/-- The path of the script of an identifier in lower case. -/
def Profile.findScript (profile : Profile) (tree : FileTree) (identifier : String) : Option Path :=
  (scriptPath? identifier).bind fun parts =>
    profile.importDirs.findSome? fun dir => tree.findScript dir parts

/-! ## Remembering -/

/-- The names known to be classes and those known not to be. -/
structure KnownNames where
  classes : List String := []
  others : List String := []
  deriving Repr, Inhabited

namespace KnownNames

/-- Notes what has been found out about a name. -/
def note (known : KnownNames) (name : String) (isClass : Bool) : KnownNames :=
  if isClass then ⟨known.classes.insert name, known.others.filter (· != name)⟩
  else ⟨known.classes.filter (· != name), known.others.insert name⟩

theorem isClass_known (known : KnownNames) (name : String) :
    name ∈ (known.note name true).classes ∧ name ∉ (known.note name true).others := by
  simp [note]

theorem isOther_known (known : KnownNames) (name : String) :
    name ∈ (known.note name false).others ∧ name ∉ (known.note name false).classes := by
  simp [note]

end KnownNames

/-- Decides whether identifiers name classes. -/
structure ClassResolver where
  /-- Whether answers are remembered. -/
  caching : Bool
  /-- What is remembered, by the name of the profile. -/
  caches : List (String × KnownNames) := []
  deriving Repr, Inhabited

namespace ClassResolver

/-- What is known under a profile. -/
def known (r : ClassResolver) (profile : String) : KnownNames := (r.caches.lookup profile).getD {}

/-- How many names are known to be classes and how many not to be. -/
def cached (r : ClassResolver) (profile : String) : Nat × Nat :=
  ((r.known profile).classes.length, (r.known profile).others.length)

/-- Forgets all answers. -/
def clear (r : ClassResolver) : ClassResolver := { r with caches := [] }

/-- Turns remembering on, or off together with all that is known. -/
def setCaching (r : ClassResolver) (on : Bool) : ClassResolver :=
  ⟨on, if on then r.caches else []⟩

/-- Remembers an answer, unless caching is off. -/
def remember (r : ClassResolver) (profile name : String) (isClass : Bool) : ClassResolver :=
  if r.caching then
    let rest := r.caches.filter (·.1 != profile)
    { r with caches := (profile, (r.known profile).note name isClass) :: rest }
  else r

/-- Looks for the script of an identifier. -/
def resolve (r : ClassResolver) (tree : FileTree) (identifier : String) (profile : Profile) :
    Option Path × ClassResolver :=
  let name := foldName identifier
  let found := profile.findScript tree name
  (found, r.remember profile.name name found.isSome)

/-- Looks for the script of an identifier that is not known to be no class. -/
def locate (r : ClassResolver) (tree : FileTree) (identifier : String) (profile : Profile) :
    Option Path × ClassResolver :=
  if r.caching && (r.known profile.name).others.contains (foldName identifier) then (none, r)
  else r.resolve tree identifier profile

/-- Whether an identifier names a class. Files are looked at only for a name not known yet. -/
def isClass (r : ClassResolver) (tree : FileTree) (identifier : String) (profile : Profile) :
    Bool × ClassResolver :=
  let known := r.known profile.name
  if r.caching && known.classes.contains (foldName identifier) then (true, r)
  else if r.caching && known.others.contains (foldName identifier) then (false, r)
  else
    let (found, r') := r.resolve tree (foldName identifier) profile
    (found.isSome, r')

end ClassResolver

end Papyrus

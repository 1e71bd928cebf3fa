import Papyrus.Text
/-!
# Files and directories

A `FileTree` is what a program can see of a file system: a tree of files and directories, without
links, and a working directory. A path is a text of names between slashes. It is followed from the
root if it starts with a slash and from the working directory otherwise; an empty name and `.` stay
where they are, `..` goes up, and all three need a directory to do so.

Results:
* `get?_put`: what has been put in a place is found there.
-/
namespace Papyrus

/-- A name of a place in a file tree. -/
abbrev Path := String

namespace Path

/-- The path of `part` as seen from the directory `base`. -/
def join (base part : Path) : Path :=
  if base == "" || part.toList.head? == some '/' then part
  else if base.toList.getLast? == some '/' then base ++ part
  else base ++ "/" ++ part

/-- The names of a path, empty ones included. -/
def components (path : Path) : List String := (Text.splitOn '/' path.toList).map String.ofList

/-- The last name of a path, if it is the name of a file or directory. -/
def fileName? (path : Path) : Option String :=
  ((path.components.filter fun c => c != "" && c != ".").getLast?).filter (· != "..")

end Path

/-- Why a file cannot be read or written. -/
inductive FileError where
  | notFound
  | notADirectory
  | isADirectory
  | nameTooLong
  | nulInName
  | notUtf8
  deriving DecidableEq, Repr

/-- The text shown for an error. -/
def FileError.message : FileError → String
  | notFound => "No such file or directory (os error 2)"
  | notADirectory => "Not a directory (os error 20)"
  | isADirectory => "Is a directory (os error 21)"
  | nameTooLong => "File name too long (os error 36)"
  | nulInName => "file name contained an unexpected NUL byte"
  | notUtf8 => "stream did not contain valid UTF-8"

/-! ## Nodes -/

/-- A file or a directory. -/
inductive FileNode where
  | file (contents : ByteArray)
  | directory (entries : List (String × FileNode))
  deriving Inhabited

/-- What is taken out of a list of entries under one key is still there under the others. -/
theorem lookup_filter_ne {α β : Type} [BEq α] [LawfulBEq α] (l : List (α × β)) {key other : α}
    (h : other ≠ key) : (l.filter (·.1 != key)).lookup other = l.lookup other := by
  induction l with
  | nil => rfl
  | cons p l ih =>
    obtain ⟨k, b⟩ := p
    by_cases hk : k = key
    · subst hk
      have : (other == k) = false := by simpa using h
      simpa [List.lookup_cons, this] using ih
    · simp [hk, List.lookup_cons, ih]

namespace FileNode

/-- The entries of a directory; a file has none. -/
def entries : FileNode → List (String × FileNode)
  | file _ => []
  | directory es => es

/-- The node that is reached through the given names. -/
def get? (node : FileNode) : List String → Option FileNode
  | [] => some node
  | name :: rest => (node.entries.lookup name).bind fun child => child.get? rest

/-- Replaces the entry of a name, or adds one. -/
def setEntry (entries : List (String × FileNode)) (name : String) (child : FileNode) :
    List (String × FileNode) :=
  match entries with
  | [] => [(name, child)]
  | (n, c) :: rest => if name == n then (n, child) :: rest else (n, c) :: setEntry rest name child

/-- Puts a node in the given place and makes the directories that lead there. -/
def put (node : FileNode) (place : List String) (new : FileNode) : FileNode :=
  match place with
  | [] => new
  | name :: rest =>
    let child := (node.entries.lookup name).getD (directory [])
    directory (setEntry node.entries name (child.put rest new))

/-- Takes the node in the given place away. -/
def remove (node : FileNode) : List String → FileNode
  | [] => node
  | [name] => directory (node.entries.filter (·.1 != name))
  | name :: rest =>
    match node.entries.lookup name with
    | none => node
    | some child => directory (setEntry node.entries name (child.remove rest))

theorem lookup_setEntry (entries : List (String × FileNode)) (name : String) (child : FileNode) :
    (setEntry entries name child).lookup name = some child := by
  induction entries with
  | nil => simp [setEntry]
  | cons e entries ih =>
    obtain ⟨n, c⟩ := e
    by_cases h : name = n
    · simp [setEntry, h]
    · have h' : (name == n) = false := beq_eq_false_iff_ne.2 h
      simp [setEntry, List.lookup_cons, h', ih]

theorem get?_put (node : FileNode) (place : List String) (new : FileNode) :
    (node.put place new).get? place = some new := by
  induction place generalizing node with
  | nil => rfl
  | cons name rest ih => simp [put, get?, entries, lookup_setEntry, ih]

end FileNode

/-! ## Following paths -/

/-- A file system: the root directory and the place of the working directory. -/
structure FileTree where
  root : FileNode := .directory []
  workingDirectory : List String := []
  deriving Inhabited

namespace FileTree

/-- A name may have at most 255 bytes. -/
def nameLimit : Nat := 255

/-- The place that is reached from `place` through the given names. -/
def follow (tree : FileTree) (place : List String) : List String → Except FileError (List String)
  | [] => .ok place
  | name :: rest =>
    match tree.root.get? place with
    | none => .error .notFound
    | some (.file _) => .error .notADirectory
    | some (.directory es) =>
      if name == "" || name == "." then tree.follow place rest
      else if name == ".." then tree.follow place.dropLast rest
      else if nameLimit < name.utf8ByteSize then .error .nameTooLong
      else if (es.lookup name).isNone then .error .notFound
      else tree.follow (place ++ [name]) rest

/-- A path may have at most 4095 bytes. -/
def pathLimit : Nat := 4095

/-- The place where a path starts, unless the path is no path at all. -/
def origin (tree : FileTree) (path : Path) : Except FileError (List String) :=
  if path.toList.contains '\x00' then .error .nulInName
  else if pathLimit < path.utf8ByteSize then .error .nameTooLong
  else
    match path.toList.head? with
    | none => .error .notFound
    | some c => .ok (if c == '/' then [] else tree.workingDirectory)

/-- The place that a path names. -/
def locate (tree : FileTree) (path : Path) : Except FileError (List String) := do
  tree.follow (← tree.origin path) path.components

/-- The node that a path names. -/
def node? (tree : FileTree) (path : Path) : Option FileNode :=
  match tree.locate path with
  | .error _ => none
  | .ok place => tree.root.get? place

/-- Whether the path names a file or a directory. -/
def exists? (tree : FileTree) (path : Path) : Bool := (tree.node? path).isSome

/-- Whether the path names a file. -/
def isFile (tree : FileTree) (path : Path) : Bool :=
  match tree.node? path with
  | some (.file _) => true
  | _ => false

/-- The names of the entries of a directory. -/
def list? (tree : FileTree) (path : Path) : Option (List String) :=
  match tree.node? path with
  | some (.directory es) => some (es.map (·.1))
  | _ => none

/-! ## Reading and writing -/

/-- The text of a file. -/
def read (tree : FileTree) (path : Path) : Except FileError String := do
  let place ← tree.locate path
  match tree.root.get? place with
  | none => .error .notFound
  | some (.directory _) => .error .isADirectory
  | some (.file contents) =>
    match String.fromUTF8? contents with
    | none => .error .notUtf8
    | some text => .ok text

/-- Splits the names of a path into those that lead to a directory and the name of a new file in
it, if there is one. Slashes at the end make the path one of a directory. -/
def target (names : List String) : List String × Option String :=
  match names.reverse with
  | [] => ([], none)
  | name :: init =>
    if name == "" then ((init.dropWhile (· == "")).tail.reverse, none)
    else (init.reverse, if name == "." || name == ".." then none else some name)

/-- Writes a text to a file, which is made if it is missing. -/
def write (tree : FileTree) (path : Path) (text : String) : Except FileError FileTree := do
  let start ← tree.origin path
  let (init, name?) := target path.components
  let place ← tree.follow start (init ++ ["."])
  match name? with
  | none => .error .isADirectory
  | some name =>
    if nameLimit < name.utf8ByteSize then .error .nameTooLong
    else
      match tree.root.get? (place ++ [name]) with
      | some (.directory _) => .error .isADirectory
      | _ => .ok { tree with root := tree.root.put (place ++ [name]) (.file text.toUTF8) }

end FileTree

end Papyrus

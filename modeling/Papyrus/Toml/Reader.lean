import Papyrus.Toml.Draft
import Papyrus.Toml.Quoted
import Papyrus.Toml.Scalar
/-!
# Reading TOML

`read?` reads a document of TOML 1.0. A document is a list of statements: a key with a value, the
header of a table, or the header of a new table in an array of tables. Values and keys may be nested
less than `nestingLimit` deep. A loop goes on only as long as it gets something read, which is why
it ends.
-/
namespace Papyrus.Toml

/-- Values nest less deeply than this, and a key has fewer parts. -/
def nestingLimit : Nat := 80

/-! ## White space -/

/-- Skips blanks, line breaks and comments. -/
def skipLines (inComment : Bool) : Text → Text
  | [] => []
  | c :: t =>
    if c == '\n' then skipLines false t
    else if c == '\r' && t.head? == some '\n' then skipLines inComment t
    else if inComment && isPlain c then skipLines true t
    else if !inComment && isBlank c then skipLines false t
    else if !inComment && c == '#' then skipLines true t
    else c :: t

/-- Skips what may follow on a line: blanks and a comment, then the line break. -/
def endLine? (t : Text) : Option Text :=
  let t := t.dropWhile isBlank
  let t := if t.head? == some '#' then t.dropWhile isPlain else t
  match t with
  | [] => some []
  | '\n' :: t => some t
  | '\r' :: '\n' :: t => some t
  | _ => none

/-! ## Keys -/

/-- Reads a key without dots. -/
def readSimpleKey (t : Text) : Option (String × Text) :=
  match t with
  | '"' :: t => (readBasic t).map fun (key, t) => (String.ofList key, t)
  | '\'' :: t => (readLiteral t).map fun (key, t) => (String.ofList key, t)
  | t =>
    let key := t.takeWhile isBareKey
    if key.isEmpty then none else some (String.ofList key, t.dropWhile isBareKey)

/-- Reads the parts of a key and the blanks around them. -/
def readKeyParts (t : Text) : Option (List String × Text) := do
  let (key, rest) ← readSimpleKey (t.dropWhile isBlank)
  match rest.dropWhile isBlank with
  | '.' :: more =>
    if more.length < t.length then
      let (keys, rest) ← readKeyParts more
      some (key :: keys, rest)
    else none
  | rest => some ([key], rest)
termination_by t.length

/-- Reads a key, which may have dots. -/
def readKey (t : Text) : Option (List String × Text) :=
  (readKeyParts t).filter fun (path, _) => path.length < nestingLimit

/-! ## Values -/

/-- Reads the items of an array and the closing bracket. -/
def readItems (item : Text → Option (Value × Text)) (t : Text) : Option (List Value × Text) :=
  match skipLines false t with
  | ']' :: rest => some ([], rest)
  | start => do
    let (v, rest) ← item start
    match skipLines false rest with
    | ']' :: rest => some ([v], rest)
    | ',' :: more =>
      if more.length < t.length then
        let (vs, rest) ← readItems item more
        some (v :: vs, rest)
      else none
    | _ => none
termination_by t.length

/-- Reads a key with its value. -/
def readPair (item : Text → Option (Value × Text)) (t : Text) :
    Option ((List String × Value) × Text) := do
  let (path, rest) ← readKey t
  match rest with
  | '=' :: rest =>
    let (v, rest) ← item (rest.dropWhile isBlank)
    some ((path, v), rest)
  | _ => none

/-- Reads the pairs of an inline table, of which there is at least one, and the closing brace. -/
def readPairs (item : Text → Option (Value × Text)) (t : Text) :
    Option (List (List String × Value) × Text) := do
  let (pair, rest) ← readPair item t
  match rest.dropWhile isBlank with
  | '\x7d' :: rest => some ([pair], rest)
  | ',' :: more =>
    if more.length < t.length then
      let (pairs, rest) ← readPairs item more
      some (pair :: pairs, rest)
    else none
  | _ => none
termination_by t.length

/-- Reads an inline table after its opening brace. -/
def readInlineTable (item : Text → Option (Value × Text)) (t : Text) : Option (Value × Text) :=
  match t.dropWhile isBlank with
  | '\x7d' :: rest => some (.table [], rest)
  | start => do
    let (pairs, rest) ← readPairs item start
    some (.table (← tableOfPairs? pairs), rest)

/-- Reads a value in which others are nested at most `depth` deep. -/
def readValue (depth : Nat) (t : Text) : Option (Value × Text) :=
  match depth, t with
  | _, '"' :: _ | _, '\'' :: _ =>
    (readQuoted t).map fun (s, rest) => (.string (String.ofList s), rest)
  | depth + 1, '[' :: t => (readItems (readValue depth) t).map fun (vs, rest) => (.array vs, rest)
  | depth + 1, '\x7b' :: t => readInlineTable (readValue depth) t
  | _, t => readScalar t

/-! ## Documents -/

/-- A statement of a document. -/
inductive Statement where
  | pair (path : List String) (v : Value)
  | openTable (path : List String)
  | openItem (path : List String)
  deriving Repr

/-- Reads a statement up to the end of its line. -/
def readStatement (t : Text) : Option (Statement × Text) :=
  match t with
  | '[' :: '[' :: t => do
    let (path, rest) ← readKey t
    match rest with
    | ']' :: ']' :: rest => some (.openItem path, ← endLine? rest)
    | _ => none
  | '[' :: t => do
    let (path, rest) ← readKey t
    match rest with
    | ']' :: rest => some (.openTable path, ← endLine? rest)
    | _ => none
  | t => do
    let ((path, v), rest) ← readPair (readValue (nestingLimit - 1)) t
    some (.pair path v, ← endLine? rest)

/-- Reads all statements. -/
def readStatements (t : Text) : Option (List Statement) :=
  match skipLines false t with
  | [] => some []
  | start => do
    let (statement, rest) ← readStatement start
    if rest.length < t.length then
      let statements ← readStatements rest
      some (statement :: statements)
    else none
termination_by t.length

/-- A document that has been read in part: its tables, and the header under which its pairs now
stand. -/
abbrev Progress := Entries × List String

/-- Adds a statement to a document. -/
def Statement.add (progress : Progress) : Statement → Option Progress
  | pair path v => do
    let es ← progress.1.update .header .implied progress.2 fun _ es => es.setPair path v
    some (es, progress.2)
  | openTable path => do some (← progress.1.openTable path, path)
  | openItem path => do some (← progress.1.openItem path, path)

/-- The table of a document. -/
def read? (t : Text) : Option Table := do
  let t := if t.head? == some '\uFEFF' then t.tail else t
  let statements ← readStatements t
  let (es, _) ← statements.foldlM Statement.add (([] : Entries), ([] : List String))
  some (finishEntries es)

end Papyrus.Toml

import Papyrus.Lexer.Highlight
import Papyrus.Render
import Papyrus.Settings.File
/-!
# The command line

The command shows a script in colour, with fold levels and the match of a block keyword if they are
asked for. `run` says what it writes and how it ends, for the files that it sees. What has been
written before an error stays written.

Results:
* `run_help`, `run_version`: the first argument may ask for help or for the version.
-/
namespace Papyrus.CommandLine

/-- What the arguments ask for. -/
structure Options where
  /-- The configuration file, if it is not the one of the home directory. -/
  configuration : Option Path := none
  folds : Bool := false
  /-- The line and the display column of a keyword, both from one on. -/
  caret : Option (Nat × Nat) := none
  profile : Option String := none
  file : Option Path := none
  deriving DecidableEq, Repr

/-- How a command ends. -/
structure Outcome where
  output : String
  errors : String := ""
  code : Nat := 0
  deriving DecidableEq, Repr

def version : String := "0.1.0"

def usage : String :=
  "papyrus-lex " ++ version ++ " - Papyrus script lexer\n" ++
  "\n" ++
  "Usage: papyrus-lex [OPTIONS] FILE\n" ++
  "\n" ++
  "Options:\n" ++
  "  --config PATH     Read settings from PATH instead of ~/.papyrus-lex.toml\n" ++
  "  --folds           Show fold levels ('+' marks a fold header)\n" ++
  "  --match LINE:COL  Match the block keyword at LINE:COL\n" ++
  "  --profile NAME    Resolve class names with profile NAME\n" ++
  "  -h, --help        Show this help message\n" ++
  "  -V, --version     Show version information\n" ++
  "\n" ++
  "Set RUST_LOG=debug to trace lexer passes.\n"

/-! ## Arguments -/

/-- The number that a text of decimal digits means, a plus sign allowed before them, if it fits in
64 bits. -/
def number? (t : Text) : Option Nat :=
  let digits := if t.head? == some '+' then t.tail else t
  if digits.isEmpty || !digits.all Char.isDigit then none
  else
    let n := digits.foldl (fun n c => n * 10 + (c.toNat - '0'.toNat)) 0
    if n < UInt64.size then some n else none

/-- The line and the column of a text with a colon between them. Neither can be zero. -/
def position? (t : Text) : Option (Nat × Nat) := do
  match t.dropWhile (· != ':') with
  | [] => none
  | _ :: column =>
    let line ← number? (t.takeWhile (· != ':'))
    let column ← number? column
    if line = 0 ∨ column = 0 then none else some (line, column)

/-- Reads arguments from left to right. Where one is given twice, the last one counts. -/
def Options.parse (o : Options) : List String → Except Error Options
  | [] => .ok o
  | "--folds" :: rest => parse { o with folds := true } rest
  | "--config" :: value :: rest => parse { o with configuration := some value } rest
  | "--profile" :: value :: rest => parse { o with profile := some value } rest
  | "--match" :: value :: rest =>
    match position? value.toList with
    | none => .error (.argument (.malformedPosition value))
    | some caret => parse { o with caret := some caret } rest
  | arg :: rest =>
    if ["--config", "--profile", "--match"].contains arg then
      .error (.argument (.valueMissing arg))
    else if arg.toList.head? == some '-' then .error (.argument (.unknownOption arg))
    else parse { o with file := some arg } rest

/-! ## Running -/

/-- The offset of a line and a display column. -/
def offsetOf (d : Document) (line column : Nat) : Except Error Nat :=
  match d.lines[line - 1]? with
  | none => .error (.argument (.noLine line))
  | some l =>
    match l.byteOfColumn? (column - 1) with
    | none => .error (.argument (.noColumn line column))
    | some byte => .ok (d.lineStart (line - 1) + byte)

/-- The settings that are asked for. -/
def settings (files : FileTree) (home : Option Path) (o : Options) : Except Error Settings := do
  let s ←
    match o.configuration with
    | some path => Settings.load files path
    | none => .ok (Settings.loadHome files home)
  match o.profile with
  | some name => s.selectProfile name
  | none => .ok s

/-- The styled document that is asked for, and its lexer. -/
def prepare (files : FileTree) (home : Option Path) (o : Options) (file : Path) :
    Except Error (Lexer × Document) := do
  let settings ← settings files home o
  let d ← (Document.load files file).mapError Error.file
  let (_, x, d) := (Lexer.ofSettings settings).restyle files d 0 (d.lineCount - 1) .default
  return (x, if o.folds then (x.foldLines d 0 (d.lineCount - 1)).2 else d)

/-- The match that is asked for, in words. -/
def describeMatch (x : Lexer) (d : Document) : Option (Nat × Nat) → Except Error String
  | none => .ok ""
  | some (line, column) => do
    let (m, _, d) := x.matchAt d (← offsetOf d line column)
    return d.renderMatch m

/-- The outcome of an error after some output. -/
def failure (output : String) (e : Error) : Outcome := ⟨output, "Error: " ++ e.message ++ "\n", 1⟩

/-- Does what the options ask for. -/
def perform (files : FileTree) (home : Option Path) (o : Options) : Outcome :=
  match o.file with
  | none => failure usage (.argument .noInputFile)
  | some file =>
    match prepare files home o file with
    | .error e => failure "" e
    | .ok (x, d) =>
      let shown := String.ofList (d.render o.folds)
      match describeMatch x d o.caret with
      | .error e => failure shown e
      | .ok described => { output := shown ++ described }

/-- Runs the command. -/
def run (files : FileTree) (home : Option Path) (args : List String) : Outcome :=
  if ["--help", "-h"].contains (args.headD "") then { output := usage }
  else if ["--version", "-V"].contains (args.headD "") then
    { output := "papyrus-lex " ++ version ++ "\n" }
  else
    match Options.parse {} args with
    | .error e => failure "" e
    | .ok o => perform files home o

theorem run_help (files : FileTree) (home : Option Path) (rest : List String) :
    run files home ("--help" :: rest) = { output := usage } := by
  simp [run]

theorem run_version (files : FileTree) (home : Option Path) (rest : List String) :
    (run files home ("--version" :: rest)).output = "papyrus-lex " ++ version ++ "\n" := by
  simp [run]

end Papyrus.CommandLine

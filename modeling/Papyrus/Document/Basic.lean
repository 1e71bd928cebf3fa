import Papyrus.FileTree
import Papyrus.Line
import Papyrus.Span
/-!
# Documents

A `Document` is what an editor holds of a script: its lines with their styles and fold levels, the
search register, the characters that make up words, the spans painted with indicators and the files
that it was asked to open. Lines are joined by one line feed each.

Reading can be limited to a number of bytes at a time (`readLimit`); `read` then stops at the last
character that fits.

Results:
* `size_text`: the size of a document is that of its text.
* `text_paint`: painting styles leaves the text as it is.
-/
namespace Papyrus

/-- What an editor searches for, and where: from `start` to `stop`, backward if `start` is the
larger of the two. -/
structure SearchRegister where
  start : Nat := 0
  stop : Nat := 0
  wholeWord : Bool := false
  matchCase : Bool := false
  deriving DecidableEq, Repr, Inhabited

/-- The way in which the register is searched. -/
def SearchRegister.direction (r : SearchRegister) : Direction :=
  if r.stop < r.start then .backward else .forward

/-- A document in an editor. -/
structure Document where
  name : String
  filename : Option Path := none
  lines : Lines
  lines_ne_nil : lines ≠ []
  search : SearchRegister := {}
  wordChars : Text
  indicators : List (UInt32 × List Span) := []
  /-- The files to be opened, in the order of the requests. -/
  opened : List Path := []
  readLimit : Option Nat := none

namespace Document

/-- The characters of words, unless an editor sets others. -/
def standardWordChars : Text :=
  "_0123456789abcdefghijklmnopqrstuvwxyzABCDEFGHIJKLMNOPQRSTUVWXYZ".toList

/-- A document with the given text. -/
def ofText (name : String) (text : Text) : Document where
  name := name
  lines := text.breakLines.map Line.ofText
  lines_ne_nil := by simpa using Text.breakLines_ne_nil text
  wordChars := standardWordChars

/-- A new document without text. -/
def scratch : Document := ofText "*scratch*" []

instance : Inhabited Document := ⟨scratch⟩

/-- The document of a file, under the name of the file. -/
def load (files : FileTree) (path : Path) : Except FileError Document := do
  let text ← files.read path
  return { ofText (path.fileName?.getD "unnamed") text.toList with filename := some path }

/-! ## Text -/

/-- The whole text. -/
def text (d : Document) : Text := d.lines.text

/-- The number of bytes of the text. -/
def size (d : Document) : Nat := d.lines.size

def lineCount (d : Document) : Nat := d.lines.length

/-- The offset at which a line starts. -/
def lineStart (d : Document) (line : Nat) : Nat := d.lines.lineStart line

/-- The offset of the terminator of a line. -/
def lineEnd (d : Document) (line : Nat) : Nat := d.lines.lineEnd line

/-- The line that an offset falls into. -/
def lineAt (d : Document) (offset : Nat) : Nat := d.lines.lineAt offset

/-- The text from `start` up to `stop`, widened to whole characters. -/
def slice (d : Document) (start stop : Nat) : Text :=
  if start < min stop d.size then d.lines.slice start stop else []

/-- What can be read of the text from `start` up to `stop`. -/
def read (d : Document) (start stop : Nat) : Text :=
  match d.readLimit with
  | none => d.slice start stop
  | some n => (d.slice start stop).takeFloor n

theorem size_text (d : Document) : Text.size d.text = d.size := Lines.size_text d.lines

theorem lineCount_pos (d : Document) : 0 < d.lineCount := List.length_pos_iff.2 d.lines_ne_nil

/-! ## Styles and fold levels -/

/-- The style at an offset. -/
def styleAt (d : Document) (offset : Nat) : Style := d.lines.styleAt offset

/-- Gives the bytes from `start` up to `stop` a style, terminators included. -/
def paint (d : Document) (start stop : Nat) (s : Style) : Document :=
  { d with
    lines := d.lines.paint start stop s
    lines_ne_nil := by simpa [← List.length_eq_zero_iff] using d.lines_ne_nil }

/-- The fold level of a line, if it has been folded. -/
def foldLevel? (d : Document) (line : Nat) : Option FoldLevel := d.lines[line]?.bind Line.fold

/-- Changes a line, if there is such a line. -/
def modifyLine (d : Document) (line : Nat) (f : Line → Line) : Document :=
  { d with
    lines := d.lines.modify line f
    lines_ne_nil := by simpa [← List.length_eq_zero_iff] using d.lines_ne_nil }

/-- Sets the fold level of a line. -/
def setFoldLevel (d : Document) (line : Nat) (level : FoldLevel) : Document :=
  d.modifyLine line fun l => { l with fold := some level }

theorem text_paint (d : Document) (start stop : Nat) (s : Style) :
    (d.paint start stop s).text = d.text := by
  simp only [text, Lines.text, paint, Lines.map_text_paint]

end Document

end Papyrus

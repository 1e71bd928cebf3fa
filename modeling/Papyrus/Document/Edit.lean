import Papyrus.Document.Basic
/-!
# Editing a document

An edit works on whole lines and says what it did as a `LineChange`. New lines are in plain text and
have no fold level.

Results:
* `insertLines_lineCount`, `deleteLines_lineCount`: the reported change is the change of the number
  of lines, but for the one line that is always left.
-/
namespace Papyrus

/-- What an edit did: from line `line` on, `added` lines were inserted or, if negative, removed;
zero if one line was replaced. -/
structure LineChange where
  line : Nat
  added : Int
  deriving DecidableEq, Repr

namespace Document

/-- Replaces the lines; without any, one empty line is left. -/
def withLines (d : Document) (lines : Lines) : Document :=
  match lines with
  | [] => { d with lines := [default], lines_ne_nil := by simp }
  | l :: ls => { d with lines := l :: ls, lines_ne_nil := by simp }

/-- Inserts lines before line `line`, or at the end. -/
def insertLines (d : Document) (line : Nat) (texts : List Text) : LineChange × Document :=
  let line := min line d.lineCount
  (⟨line, texts.length⟩,
    d.withLines (d.lines.take line ++ texts.map Line.ofText ++ d.lines.drop line))

/-- Deletes up to `count` lines from line `line` on. -/
def deleteLines (d : Document) (line count : Nat) : LineChange × Document :=
  let stop := min (line + count) d.lineCount
  let line := min line stop
  (⟨line, -((stop - line : Nat) : Int)⟩, d.withLines (d.lines.take line ++ d.lines.drop stop))

/-- Replaces the text of a line, if there is such a line. -/
def replaceLine (d : Document) (line : Nat) (text : Text) : LineChange × Document :=
  (⟨line, 0⟩, d.withLines (d.lines.set line (Line.ofText text)))

theorem lines_withLines {d : Document} {lines : Lines} (h : lines ≠ []) :
    (d.withLines lines).lines = lines := by
  cases lines with
  | nil => contradiction
  | cons => rfl

theorem lineCount_withLines (d : Document) (lines : Lines) :
    (d.withLines lines).lineCount = max 1 lines.length := by
  cases lines with
  | nil => rfl
  | cons l ls => simp [withLines, lineCount]

theorem insertLines_lineCount (d : Document) (line : Nat) (texts : List Text) :
    ((d.insertLines line texts).2.lineCount : Int) =
      d.lineCount + (d.insertLines line texts).1.added := by
  have hpos := d.lineCount_pos
  have hlen : d.lines.length = d.lineCount := rfl
  simp only [insertLines, lineCount_withLines, List.length_append, List.length_take,
    List.length_drop, List.length_map]
  omega

theorem deleteLines_lineCount (d : Document) (line count : Nat) :
    ((d.deleteLines line count).2.lineCount : Int) =
      max 1 (d.lineCount + (d.deleteLines line count).1.added) := by
  have hlen : d.lines.length = d.lineCount := rfl
  simp only [deleteLines, lineCount_withLines, List.length_append, List.length_take,
    List.length_drop]
  omega

end Document

end Papyrus

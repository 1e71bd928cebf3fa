import Papyrus.Block.Search
import Papyrus.Document.Indicator
import Papyrus.Lexer.Basic
/-!
# Highlighting a match

The match of the keyword under the caret is painted with one of two indicators, after what was
painted before has been cleared. `repaint` paints the last match once more, for settings may have
changed in between.
-/
namespace Papyrus.Lexer

/-- Clears both indicators, and the one that was used last, over the whole document. -/
def clearHighlights (x : Lexer) (d : Document) : Lexer × Document :=
  let ids := [x.settings.matchedIndicator, x.settings.unmatchedIndicator] ++ x.painted.toList
  ({ x with painted := none }, ids.foldl (fun d id => d.clearIndicator id 0 d.size) d)

/-- The indicator with which a match is painted. -/
def indicatorFor (x : Lexer) (m : BlockMatch) : UInt32 :=
  if m.found then x.settings.matchedIndicator else x.settings.unmatchedIndicator

/-- Paints the highlights of a match. -/
def paintMatch (x : Lexer) (d : Document) (m : BlockMatch) : Lexer × Document :=
  if m.highlights.isEmpty then (x, d)
  else
    ({ x with painted := some (x.indicatorFor m) },
      m.highlights.foldl (fun d s => d.fillIndicator (x.indicatorFor m) s.start s.stop) d)

/-- Matches the block keyword at an offset and highlights the result. -/
def matchAt (x : Lexer) (d : Document) (caret : Nat) : BlockMatch × Lexer × Document :=
  let (x, d) := x.clearHighlights d
  if x.settings.keywordMatching then
    let (m, d) := d.matchBySearch caret
    let (x, d) := x.paintMatch d m
    (m, { x with lastMatch := some m }, d)
  else ({}, { x with lastMatch := none }, d)

/-- Paints the last match as the settings have it now. -/
def repaint (x : Lexer) (d : Document) : Lexer × Document :=
  let (x, d) := x.clearHighlights d
  match x.lastMatch with
  | some m => if x.settings.keywordMatching then x.paintMatch d m else (x, d)
  | none => (x, d)

end Papyrus.Lexer

import Papyrus.Document.Edit
import Papyrus.LineStyling
import Papyrus.Settings
import Papyrus.Block.Match
/-!
# The lexer of a document

A `Lexer` keeps what is known about one document: the settings and word lists, the declared
properties, the names of classes and the last match. It styles and folds runs of lines. A run that
does not start the document takes up what the line before it has left: the style of its terminator,
and the fold level after it.

Results:
* `text_restyle`: styling leaves the text as it is.
-/
namespace Papyrus

/-- What is known about a document. -/
structure Lexer where
  settings : Settings
  words : WordLists
  properties : PropertyRegistry := {}
  classes : ClassResolver
  lastMatch : Option BlockMatch := none
  /-- The indicator with which the last match was painted. -/
  painted : Option UInt32 := none

/-- The number of lines from `first` to `last` that a document has. -/
def Document.lineSpan (d : Document) (first last : Nat) : Nat :=
  min last (d.lineCount - 1) + 1 - first

/-- Writes the styles of a line that reaches from `start` to `stop`, and of which `read` bytes were
read. The rest becomes plain text. The terminator keeps its style unless a line follows. -/
def Document.writeStyles (d : Document) (styles : LineStyles) (start read stop : Nat)
    (followed : Bool) : Document :=
  let plain := if start + read < stop then d.paint (start + read) stop .default else d
  let styled := styles.spans.foldl (fun d s => d.paint s.start s.stop s.style) plain
  if followed then styled.paint stop (stop + 1) styles.trailing else styled

/-- Styles a line that is entered in the given state. -/
def Document.restyleLine (d : Document) (env : Surroundings) (line : Nat) (incoming : LineState)
    (k : Knowledge) : LineState × Knowledge × Document :=
  let start := d.lineStart line
  let stop := d.lineEnd line
  let text := d.read start stop
  let (styles, k) := styleLine env text start line incoming k
  let followed := decide (line + 1 < d.lineCount)
  (styles.endState, k, d.writeStyles styles start text.size stop followed)

/-- Styles `count` lines from line `line` on. -/
def Document.restyleRun (d : Document) (env : Surroundings) (line : Nat) (incoming : LineState)
    (k : Knowledge) : Nat → LineState × Knowledge × Document
  | 0 => (incoming, k, d)
  | count + 1 =>
    let (state, k, d) := d.restyleLine env line incoming k
    d.restyleRun env (line + 1) state k count

/-- The fold level of a line that starts at level `previous`. -/
def Document.foldLevelOf (d : Document) (words : WordLists) (foldMiddle : Bool) (line : Nat)
    (previous : Int) : FoldLevel :=
  let start := d.lineStart line
  let tokens := Token.scan (d.read start (d.lineEnd line)) start
  foldLine words foldMiddle previous (tokens.map fun t => (t, d.styleAt t.start))

/-- Folds `count` lines from line `line` on. -/
def Document.foldRun (d : Document) (words : WordLists) (foldMiddle : Bool) (line : Nat)
    (previous : Int) : Nat → List FoldLevel × Document
  | 0 => ([], d)
  | count + 1 =>
    let level := d.foldLevelOf words foldMiddle line previous
    let (levels, d) :=
      (d.setFoldLevel line level).foldRun words foldMiddle (line + 1) level.next count
    (level :: levels, d)

namespace Lexer

/-- A lexer that has not seen its document yet. -/
def ofSettings (settings : Settings) : Lexer where
  settings := settings
  words := settings.wordLists
  classes := { caching := settings.classCache }

instance : Inhabited Lexer := ⟨ofSettings {}⟩

/-! ## Styling -/

/-- Styles the lines from `first` to `last`, the first of which is entered in the given state, and
returns the state that the last one leaves. -/
def restyle (x : Lexer) (files : FileTree) (d : Document) (first last : Nat)
    (incoming : LineState) : LineState × Lexer × Document :=
  let env : Surroundings := ⟨x.words, x.settings.profile?, files⟩
  let (state, k, d) :=
    d.restyleRun env first incoming ⟨x.properties, x.classes⟩ (d.lineSpan first last)
  (state, { x with properties := k.properties, classes := k.classes }, d)

/-- The state in which a line is entered, as the terminator before it tells. -/
def incomingState (d : Document) : Nat → LineState
  | 0 => .default
  | line + 1 => .ofStyle (d.styleAt (d.lineEnd line))

/-- Styles the lines from `first` to `last`. -/
def restyleLines (x : Lexer) (files : FileTree) (d : Document) (first last : Nat) :
    LineState × Lexer × Document :=
  x.restyle files d first last (incomingState d first)

/-! ## Folding -/

/-- Folds the lines from `first` to `last`, the first of which starts at the given level. -/
def fold (x : Lexer) (d : Document) (first last : Nat) (incoming : Int) :
    List FoldLevel × Document :=
  d.foldRun x.words x.settings.foldMiddle first incoming (d.lineSpan first last)

/-- The level at which a line starts, as the line before it tells. -/
def incomingLevel (d : Document) : Nat → Int
  | 0 => FoldLevel.base
  | line + 1 => ((d.foldLevel? line).map FoldLevel.next).getD FoldLevel.base

/-- Folds the lines from `first` to `last`. -/
def foldLines (x : Lexer) (d : Document) (first last : Nat) : List FoldLevel × Document :=
  x.fold d first last (incomingLevel d first)

/-! ## Edits -/

/-- Follows an edit of the document. -/
def follow (x : Lexer) (change : LineChange) : Lexer :=
  { x with properties := x.properties.edit change.line change.added }

/-! ## The text stays -/

theorem text_writeStyles (d : Document) (styles : LineStyles) (start read stop : Nat)
    (followed : Bool) : (d.writeStyles styles start read stop followed).text = d.text := by
  have hspans : ∀ (spans : List StyledSpan) (d : Document),
      (spans.foldl (fun d s => d.paint s.start s.stop s.style) d).text = d.text := by
    intro spans
    induction spans with
    | nil => exact fun _ => rfl
    | cons s spans ih => exact fun d => (ih _).trans (d.text_paint s.start s.stop s.style)
  have hplain :
      (if start + read < stop then d.paint (start + read) stop .default else d).text = d.text := by
    split
    · exact d.text_paint _ _ _
    · rfl
  rw [Document.writeStyles]
  split
  · rw [Document.text_paint, hspans, hplain]
  · rw [hspans, hplain]

theorem text_restyleLine (d : Document) (env : Surroundings) (line : Nat) (incoming : LineState)
    (k : Knowledge) : (d.restyleLine env line incoming k).2.2.text = d.text :=
  text_writeStyles d _ _ _ _ _

theorem text_restyleRun (d : Document) (env : Surroundings) (line : Nat) (incoming : LineState)
    (k : Knowledge) (count : Nat) : (d.restyleRun env line incoming k count).2.2.text = d.text := by
  induction count generalizing d line incoming k with
  | zero => rfl
  | succ count ih => rw [Document.restyleRun, ih, text_restyleLine]

theorem text_restyle (x : Lexer) (files : FileTree) (d : Document) (first last : Nat)
    (incoming : LineState) : (x.restyle files d first last incoming).2.2.text = d.text :=
  text_restyleRun d _ _ _ _ _

end Lexer

end Papyrus

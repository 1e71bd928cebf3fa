/-!
# Styles

Every byte of a document carries a `Style`, stored by an editor as a small number (`id`, `ofId`).
Of the styles only the two block comments outlive a line break; `LineState` is what is left of a
style at the start of the next line.
-/
namespace Papyrus

/-- The lexical category of a byte. -/
inductive Style where
  /-- Plain text. -/
  | default
  /-- Operator characters and words. -/
  | operator
  /-- Words of `If` and `While` blocks, and `Return`. -/
  | flowControl
  /-- Names of built-in types. -/
  | type
  /-- Declaration words. -/
  | keyword
  /-- Words of the second keyword list. -/
  | keywordAlt
  /-- A comment from `;` to the end of the line. -/
  | comment
  /-- A comment from `;/` to `/;`. -/
  | commentMultiLine
  /-- A comment in braces. -/
  | commentDoc
  | number
  | string
  /-- The name of a declared property. -/
  | property
  /-- The name of a script. -/
  | scriptClass
  /-- A name directly before an opening parenthesis. -/
  | function
  deriving DecidableEq, Repr, Inhabited

namespace Style

/-- The number under which an editor stores the style. -/
def id : Style → Nat
  | default => 0
  | operator => 1
  | flowControl => 2
  | type => 3
  | keyword => 4
  | keywordAlt => 5
  | comment => 6
  | commentMultiLine => 7
  | commentDoc => 8
  | number => 9
  | string => 10
  | property => 11
  | scriptClass => 12
  | function => 13

/-- The style stored under a number; an unknown number is plain text. -/
def ofId : Nat → Style
  | 1 => operator
  | 2 => flowControl
  | 3 => type
  | 4 => keyword
  | 5 => keywordAlt
  | 6 => comment
  | 7 => commentMultiLine
  | 8 => commentDoc
  | 9 => number
  | 10 => string
  | 11 => property
  | 12 => scriptClass
  | 13 => function
  | _ => default

theorem ofId_id (s : Style) : ofId s.id = s := by cases s <;> rfl

/-- Whether text of this style is not code. -/
def isInert : Style → Bool
  | comment | commentMultiLine | commentDoc | string => true
  | _ => false

/-- The name shown to a user. -/
def name : Style → String
  | default => "Default"
  | operator => "Operator"
  | flowControl => "FlowControl"
  | type => "Type"
  | keyword => "Keyword"
  | keywordAlt => "KeywordAlt"
  | comment => "Comment"
  | commentMultiLine => "CommentMultiLine"
  | commentDoc => "CommentDoc"
  | number => "Number"
  | string => "String"
  | property => "Property"
  | scriptClass => "Class"
  | function => "Function"

/-- All styles, by number. -/
def all : List Style :=
  [default, operator, flowControl, type, keyword, keywordAlt, comment, commentMultiLine, commentDoc,
    number, string, property, scriptClass, function]

end Style

/-! ## Colours -/

/-- A colour of a terminal's sixteen-colour palette, or the terminal's own. -/
inductive Colour where
  | default
  | green
  | yellow
  | blue
  | magenta
  | cyan
  | brightBlack
  | brightGreen
  | brightYellow
  | brightBlue
  | brightMagenta
  | brightCyan
  | brightWhite
  deriving DecidableEq, Repr

namespace Colour

/-- The number of the colour in the palette; the terminal's own colour has none. -/
def code? : Colour → Option Nat
  | default => none
  | green => some 2
  | yellow => some 3
  | blue => some 4
  | magenta => some 5
  | cyan => some 6
  | brightBlack => some 8
  | brightGreen => some 10
  | brightYellow => some 11
  | brightBlue => some 12
  | brightMagenta => some 13
  | brightCyan => some 14
  | brightWhite => some 15

end Colour

/-- The colour in which text of a style is shown. -/
def Style.colour : Style → Colour
  | default => .default
  | operator => .brightWhite
  | flowControl => .magenta
  | type => .yellow
  | keyword => .blue
  | keywordAlt => .brightBlue
  | comment | commentMultiLine => .brightBlack
  | commentDoc => .brightGreen
  | number => .cyan
  | string => .green
  | property => .brightMagenta
  | scriptClass => .brightCyan
  | function => .brightYellow

/-! ## States between lines -/

/-- What a line leaves open for the next one. -/
inductive LineState where
  | default
  | commentMultiLine
  | commentDoc
  deriving DecidableEq, Repr, Inhabited

/-- The state that a line leaves if its terminator has the given style. -/
def LineState.ofStyle : Style → LineState
  | .commentMultiLine => commentMultiLine
  | .commentDoc => commentDoc
  | _ => default

end Papyrus

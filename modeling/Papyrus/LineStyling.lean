import Papyrus.Property
import Papyrus.ScriptClass
import Papyrus.Span
import Papyrus.Style
import Papyrus.Token
import Papyrus.WordList
/-!
# Styling a line

A line is styled token by token. A `Mode` says whether the next token is code or stands in a comment
or a string; white space between tokens has the style of the mode it stands in. Code words are
looked up in the word lists, then among the declared properties, then among the script classes; what
is found out on the way (`Knowledge`) is kept for the lines that follow.

Results:
* `Mode.endState_ofState`, `Mode.ofStyle_style`: the state that a line leaves can be read off its
  mode and off the style of its white space.
-/
namespace Papyrus

/-- A span and its style. -/
structure StyledSpan extends Span where
  style : Style
  deriving DecidableEq, Repr

/-- What the next token of a line is part of. -/
inductive Mode where
  | code
  | comment
  | commentMultiLine
  | commentDoc
  | string
  deriving DecidableEq, Repr

namespace Mode

/-- The style of white space in this mode. -/
def style : Mode → Style
  | code => .default
  | comment => .comment
  | commentMultiLine => .commentMultiLine
  | commentDoc => .commentDoc
  | string => .string

/-- The mode in which a line starts. -/
def ofState : LineState → Mode
  | .default => code
  | .commentMultiLine => commentMultiLine
  | .commentDoc => commentDoc

/-- What the mode leaves open for the next line. -/
def endState : Mode → LineState
  | commentMultiLine => .commentMultiLine
  | commentDoc => .commentDoc
  | code | comment | string => .default

theorem endState_ofState (s : LineState) : (ofState s).endState = s := by cases s <;> rfl

theorem ofStyle_style (m : Mode) : LineState.ofStyle m.style = m.endState := by cases m <;> rfl

end Mode

/-- What styling looks up and does not change. -/
structure Surroundings where
  words : WordLists
  /-- The profile whose scripts are classes. -/
  profile : Option Profile
  files : FileTree

/-- What styling finds out. -/
structure Knowledge where
  properties : PropertyRegistry
  classes : ClassResolver

/-! ## Code -/

/-- Whether an identifier is the name in a call: its last character is a letter or a number, and an
opening parenthesis is the next token. -/
def isCallee (word : String) (next : Option Token) : Bool :=
  word.toList.getLast?.any Unicode.isAlphanumeric && next.any (·.content == "(")

/-- The style of an identifier in code on the given line. The word `property` declares the
identifier that follows it. -/
def styleIdentifier (env : Surroundings) (line : Nat) (word : String) (next : Option Token)
    (k : Knowledge) : Style × Knowledge :=
  let isIn (role : WordRole) : Bool := (env.words.get role).contains word
  if !isIn .flowControl && isCallee word next then (.function, k)
  else if isIn .types then (.type, k)
  else if isIn .flowControl then (.flowControl, k)
  else if isIn .keywords then
    match next with
    | some ⟨name, .identifier, _, _⟩ =>
      if word == "property" then
        (.keyword, { k with properties := k.properties.register name line })
      else (.keyword, k)
    | _ => (.keyword, k)
  else if isIn .keywordsAlt then (.keywordAlt, k)
  else if isIn .operators then (.operator, k)
  else if k.properties.isProperty word then (.property, k)
  else
    match env.profile with
    | none => (.default, k)
    | some profile =>
      let (isClass, classes) := k.classes.isClass env.files word profile
      (if isClass then .scriptClass else .default, { k with classes := classes })

/-- The style of a token in code and the mode after it. -/
def styleCode (env : Surroundings) (line : Nat) (t : Token) (next : Option Token) (k : Knowledge) :
    Style × Mode × Knowledge :=
  match t.kind with
  | .identifier =>
    let (style, k) := styleIdentifier env line t.content next k
    (style, .code, k)
  | .numeric => (.number, .code, k)
  | .special =>
    if t.content == "\x7b" then (.commentDoc, .commentDoc, k)
    else if t.content == ";" then
      if next.any fun n => n.content == "/" && t.touches n then
        (.commentMultiLine, .commentMultiLine, k)
      else (.comment, .comment, k)
    else if t.content == "\"" then (.string, .string, k)
    else (if env.words.operators.contains t.content then .operator else .default, .code, k)

/-! ## Comments and strings -/

/-- Whether an odd number of backslashes stands directly before a token. The tokens before it are
given from the last one on. -/
def isEscaped (behind : List Token) : Bool :=
  (behind.takeWhile (·.content == "\\")).length % 2 == 1

/-- Whether a token ends the comment or string of the mode. -/
def closes (mode : Mode) (behind : List Token) (t : Token) : Bool :=
  match mode with
  | .code | .comment => false
  | .commentDoc => t.content == "\x7d"
  | .commentMultiLine =>
    t.content == ";" && behind.head?.any fun p => p.content == "/" && p.touches t
  | .string => t.content == "\"" && !isEscaped behind

/-! ## Lines -/

/-- The style of a token and the mode after it. -/
def styleToken (env : Surroundings) (line : Nat) (mode : Mode) (behind : List Token) (t : Token)
    (next : Option Token) (k : Knowledge) : Style × Mode × Knowledge :=
  match mode with
  | .code => styleCode env line t next k
  | mode => (mode.style, if closes mode behind t then .code else mode, k)

/-- A span, unless it is empty. -/
def gap (start stop : Nat) (style : Style) : List StyledSpan :=
  if start < stop then [⟨⟨start, stop⟩, style⟩] else []

/-- The spans from `cursor` up to the end of the last token, and the mode that is left. -/
def styleTokens (env : Surroundings) (line : Nat) (mode : Mode) (behind : List Token) (cursor : Nat)
    (k : Knowledge) : List Token → List StyledSpan × Nat × Mode × Knowledge
  | [] => ([], cursor, mode, k)
  | t :: rest =>
    let (style, after, k) := styleToken env line mode behind t rest.head? k
    let (spans, stop, final, k) := styleTokens env line after (t :: behind) t.stop k rest
    (gap cursor t.start mode.style ++ ⟨⟨t.start, t.stop⟩, style⟩ :: spans, stop, final, k)

/-- The styles of a line. -/
structure LineStyles where
  /-- Spans that cover the text of the line. -/
  spans : List StyledSpan
  /-- The style of the line's terminator. -/
  trailing : Style
  /-- What the line leaves open for the next one. -/
  endState : LineState
  deriving DecidableEq, Repr

/-- Styles the line with index `line`, which starts at document offset `base`. -/
def styleLine (env : Surroundings) (text : Text) (base line : Nat) (incoming : LineState)
    (k : Knowledge) : LineStyles × Knowledge :=
  let (spans, stop, mode, k) :=
    styleTokens env line (.ofState incoming) [] base k (Token.scan text base)
  (⟨spans ++ gap stop (base + text.size) mode.style, mode.style, mode.endState⟩, k)

end Papyrus

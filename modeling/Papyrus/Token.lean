import Papyrus.Text
import Papyrus.Unicode.LowerCase
import Papyrus.Unicode.Numeric
/-!
# Tokens

A line is read as identifiers, numerals and single special characters; white space separates tokens
and belongs to none. At each position the longest token is taken.

* An identifier is a letter or `_`, then letters, numbers, `_` or `:`.
* A numeral is an optional `-`, then ASCII digits; a dot may follow once a digit has been read, and
  `x` may follow a leading `0`, after which hexadecimal digits are read too.
* Any other character is a token of its own, a `-` without a digit included.
-/
namespace Papyrus

/-- What a token is, by its form alone. -/
inductive Token.Kind where
  | identifier
  | numeric
  | special
  deriving DecidableEq, Repr

/-- A token of one line. -/
structure Token where
  /-- The text in lower case. -/
  content : String
  kind : Token.Kind
  /-- The document offset of the first byte. -/
  start : Nat
  /-- The document offset just past the last byte. -/
  stop : Nat
  deriving DecidableEq, Repr

namespace Token

/-- Whether `next` starts where this token ends. -/
def touches (t next : Token) : Bool := t.stop == next.start

/-! ## Lexemes -/

/-- Whether an identifier may start with the character. -/
def isIdentifierStart (c : Char) : Bool := Unicode.isAlphabetic c || c == '_'

/-- Whether an identifier may go on with the character. -/
def isIdentifierRest (c : Char) : Bool := Unicode.isAlphanumeric c || c == '_' || c == ':'

def isHexDigit (c : Char) : Bool :=
  c.isDigit || ('a' ≤ c && c ≤ 'f') || ('A' ≤ c && c ≤ 'F')

/-- Splits off the rest of a numeral. `afterZero` holds directly after a leading `0`, `digitSeen`
once a digit has been read, and `hex` once an `x` has. -/
def splitNumeral (afterZero digitSeen hex : Bool) : Text → Text × Text
  | [] => ([], [])
  | c :: t =>
    let isX := c == 'x' || c == 'X'
    if c.isDigit || (c == '.' && digitSeen) || (isX && afterZero) || (hex && isHexDigit c) then
      let (a, b) := splitNumeral false (digitSeen || c.isDigit) (hex || isX) t
      (c :: a, b)
    else ([], c :: t)

/-- The kind, the text and the remainder of the token that starts with `c` and is followed by
`t`. -/
def lexeme (c : Char) (t : Text) : Kind × Text × Text :=
  if isIdentifierStart c then
    (.identifier, c :: t.takeWhile isIdentifierRest, t.dropWhile isIdentifierRest)
  else if c.isDigit || c == '-' then
    let (a, b) := splitNumeral (c == '0') c.isDigit false t
    (if c == '-' && a.isEmpty then .special else .numeric, c :: a, b)
  else (.special, [c], t)

theorem splitNumeral_append (z d h : Bool) (t : Text) :
    (splitNumeral z d h t).1 ++ (splitNumeral z d h t).2 = t := by
  fun_induction splitNumeral z d h t <;> simp_all

/-- A token and its remainder are the text that was read. -/
theorem lexeme_append (c : Char) (t : Text) :
    (lexeme c t).2.1 ++ (lexeme c t).2.2 = c :: t := by
  unfold lexeme
  split
  · simp
  · split
    · simp [splitNumeral_append]
    · rfl

/-- A token is never empty. -/
theorem length_lexeme_rest (c : Char) (t : Text) : (lexeme c t).2.2.length < (c :: t).length := by
  have hne : (lexeme c t).2.1 ≠ [] := by
    unfold lexeme; split
    · simp
    · split <;> simp
  have := congrArg List.length (lexeme_append c t)
  have := List.length_pos_iff.2 hne
  simp only [List.length_append] at *
  omega

/-! ## Reading a line -/

/-- The tokens of a line that starts at document offset `base`. -/
def scan (line : Text) (base : Nat) : List Token :=
  match line with
  | [] => []
  | c :: t =>
    if Unicode.isWhiteSpace c then scan t (base + c.utf8Size)
    else
      let lex := lexeme c t
      let stop := base + Text.size lex.2.1
      ⟨String.ofList (Unicode.lowerCase lex.2.1), lex.1, base, stop⟩ :: scan lex.2.2 stop
termination_by line.length
decreasing_by
  · simp
  · exact length_lexeme_rest c t

end Token

end Papyrus

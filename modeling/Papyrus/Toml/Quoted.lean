import Papyrus.Toml.Value
/-!
# Quoted texts in TOML

A text stands between quotation marks, in which a backslash starts an escape, or between
apostrophes, where nothing is escaped. Three marks at each end make it a text of several lines; a
line feed directly after the opening marks does not count, and up to two marks may stand directly
before the closing ones.

Each reader takes what follows the opening marks and gives the text with what follows the closing
marks.
-/
namespace Papyrus.Toml

/-- The character that a letter after a backslash stands for. -/
def escaped? : Char → Option Char
  | 'b' => some '\x08'
  | 't' => some '\t'
  | 'n' => some '\n'
  | 'f' => some '\x0c'
  | 'r' => some '\r'
  | '"' => some '"'
  | '\\' => some '\\'
  | _ => none

/-- The character whose code point is written in hexadecimal digits. -/
def codePoint? (digits : List Char) : Option Char := do
  let n := ofDigits 16 (← digits.mapM hexValue?)
  if n.isValidChar then some (Char.ofNat n) else none

/-- Puts a character in front of a text that has been read. -/
def push (c : Char) : Option (Text × Text) → Option (Text × Text) :=
  Option.map fun (text, rest) => (c :: text, rest)

/-- Reads a text between quotation marks. -/
def readBasic : Text → Option (Text × Text)
  | [] => none
  | '"' :: t => some ([], t)
  | '\\' :: 'u' :: a :: b :: c :: d :: t => (codePoint? [a, b, c, d]).bind (push · (readBasic t))
  | '\\' :: 'U' :: a :: b :: c :: d :: e :: f :: g :: h :: t =>
    (codePoint? [a, b, c, d, e, f, g, h]).bind (push · (readBasic t))
  | '\\' :: c :: t => (escaped? c).bind (push · (readBasic t))
  | c :: t => if isPlain c && c != '\\' then push c (readBasic t) else none

/-- Reads a text between apostrophes. -/
def readLiteral : Text → Option (Text × Text)
  | [] => none
  | '\'' :: t => some ([], t)
  | c :: t => if isPlain c then push c (readLiteral t) else none

/-- What stands after three closing marks: up to two more marks are the end of the text. -/
def closing (mark : Char) : Text → Text × Text
  | a :: b :: t =>
    if a == mark && b == mark then ([a, b], t)
    else if a == mark then ([a], b :: t)
    else ([], a :: b :: t)
  | [a] => if a == mark then ([a], []) else ([], [a])
  | [] => ([], [])

/-- Whether `c`, followed by `t`, is white space or the start of a line break. -/
def isSpaceBefore (c : Char) (t : Text) : Bool :=
  isBlank c || c == '\n' || (c == '\r' && t.head? == some '\n')

/-- Whether nothing but blanks stands before the next line break. -/
def blankToLineBreak (t : Text) : Bool :=
  match t.dropWhile isBlank with
  | '\n' :: _ => true
  | '\r' :: '\n' :: _ => true
  | _ => false

/-- Reads a text of several lines between quotation marks. After a backslash at the end of a line,
`skipping` passes over white space and line breaks. -/
def readBasicLines (skipping : Bool) : Text → Option (Text × Text)
  | [] => none
  | c :: t =>
    if skipping && isSpaceBefore c t then readBasicLines true t
    else
      match c, t with
      | '"', '"' :: '"' :: t => some (closing '"' t)
      | '\\', 'u' :: a :: b :: c :: d :: t =>
        (codePoint? [a, b, c, d]).bind (push · (readBasicLines false t))
      | '\\', 'U' :: a :: b :: c :: d :: e :: f :: g :: h :: t =>
        (codePoint? [a, b, c, d, e, f, g, h]).bind (push · (readBasicLines false t))
      | '\\', e :: t =>
        if blankToLineBreak (e :: t) then readBasicLines true (e :: t)
        else (escaped? e).bind (push · (readBasicLines false t))
      | '\r', '\n' :: t => push '\n' (readBasicLines false t)
      | '\n', t => push '\n' (readBasicLines false t)
      | c, t => if isPlain c && c != '\\' then push c (readBasicLines false t) else none

/-- Reads a text of several lines between apostrophes. -/
def readLiteralLines : Text → Option (Text × Text)
  | [] => none
  | '\'' :: '\'' :: '\'' :: t => some (closing '\'' t)
  | '\r' :: '\n' :: t => push '\n' (readLiteralLines t)
  | '\n' :: t => push '\n' (readLiteralLines t)
  | c :: t => if isPlain c then push c (readLiteralLines t) else none

/-- Drops a line break at the start. -/
def dropLineBreak : Text → Text
  | '\n' :: t => t
  | '\r' :: '\n' :: t => t
  | t => t

/-- Reads a quoted text, opening marks included. -/
def readQuoted : Text → Option (Text × Text)
  | '"' :: '"' :: '"' :: t => readBasicLines false (dropLineBreak t)
  | '\'' :: '\'' :: '\'' :: t => readLiteralLines (dropLineBreak t)
  | '"' :: t => readBasic t
  | '\'' :: t => readLiteral t
  | _ => none

end Papyrus.Toml

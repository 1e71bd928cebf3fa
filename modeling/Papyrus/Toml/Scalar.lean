import Papyrus.Toml.Value
/-!
# Numbers, dates and truth values in TOML

Such a value is a run of characters that stands alone. `scalar?` says what a whole run means; only a
date may go on after a blank, with a time.
-/
namespace Papyrus.Toml

/-- Whether a character may be part of a number, a date or a truth value. -/
def isScalar (c : Char) : Bool :=
  c.isAlphanum || c == '_' || c == '+' || c == '-' || c == '.' || c == ':'

/-! ## Digits -/

/-- Digits of which each two may have one underscore between them. -/
def digitRun? (isDigit : Char → Bool) : Text → Option Text
  | [] => none
  | [c] => if isDigit c then some [c] else none
  | c :: '_' :: t => if isDigit c then (digitRun? isDigit t).map (c :: ·) else none
  | c :: t => if isDigit c then (digitRun? isDigit t).map (c :: ·) else none

/-- The value of a run of digits of a base. -/
def natOf? (base : Nat) (t : Text) : Option Nat := do
  let isDigit c := (hexValue? c).any (· < base)
  ofDigits base (← (← digitRun? isDigit t).mapM hexValue?)

/-- The decimal digits of a whole number, which has no zero in front. -/
def wholeDigits? (t : Text) : Option Text := do
  let digits ← digitRun? Char.isDigit t
  if digits.head? == some '0' && digits.length != 1 then none else some digits

/-- Splits a sign off; the first part says whether it is a minus. -/
def splitSign : Text → Bool × Text
  | '+' :: t => (false, t)
  | '-' :: t => (true, t)
  | t => (false, t)

/-! ## Integers -/

/-- The number, if it fits in 64 bits. -/
def integer? (n : Int) : Option Int :=
  if Int64.minValue.toInt ≤ n ∧ n ≤ Int64.maxValue.toInt then some n else none

/-- The integer that a run of characters means. -/
def readInteger? (t : Text) : Option Int :=
  match t with
  | '0' :: 'x' :: t => do integer? (← natOf? 16 t)
  | '0' :: 'o' :: t => do integer? (← natOf? 8 t)
  | '0' :: 'b' :: t => do integer? (← natOf? 2 t)
  | t => do
    let (negative, t) := splitSign t
    let n ← natOf? 10 (← wholeDigits? t)
    integer? (if negative then -n else n)

/-! ## Floats -/

/-- Whether `m · 10 ^ e` is too large for a float of 64 bits: it is rounded to infinity. -/
def exceedsFloat (m : Nat) (e : Int) : Bool :=
  let places := (Nat.repr m).length + e
  if m == 0 || places < 309 then false
  else if 310 < places then true
  else
    let bound : Nat := 1 <<< 1024 - 1 <<< 970
    if 0 ≤ e then bound ≤ m * Nat.pow 10 e.toNat else bound * Nat.pow 10 (-e).toNat ≤ m

/-- The exponent at the end of a float. -/
def exponent? : Text → Option Int
  | [] => none
  | c :: t =>
    if c == 'e' || c == 'E' then do
      let (negative, t) := splitSign t
      let n ← natOf? 10 t
      some (if negative then -n else n)
    else none

/-- Whether a run of characters means a float. One above all floats is refused, but none below. -/
def isFloat (t : Text) : Bool :=
  let (negative, t) := splitSign t
  if t == ['i', 'n', 'f'] || t == ['n', 'a', 'n'] then true
  else
    let isPart c := c.isDigit || c == '_'
    let parts : Option (Text × Text × Int) := do
      let whole ← wholeDigits? (t.takeWhile isPart)
      match t.dropWhile isPart with
      | '.' :: t =>
        let fraction ← digitRun? Char.isDigit (t.takeWhile isPart)
        match t.dropWhile isPart with
        | [] => some (whole, fraction, 0)
        | t => some (whole, fraction, ← exponent? t)
      | t => some (whole, [], ← exponent? t)
    match parts with
    | none => false
    | some (whole, fraction, e) =>
      negative ||
        !exceedsFloat ((natOf? 10 (whole ++ fraction)).getD 0) (e - fraction.length)

/-! ## Dates and times -/

/-- Reads a number of exactly `count` digits. -/
def fixed? (count : Nat) (t : Text) : Option (Nat × Text) := do
  let digits := t.take count
  if digits.length == count && digits.all Char.isDigit then
    some (← natOf? 10 digits, t.drop count)
  else none

/-- Reads one given character. -/
def expect? (c : Char) : Text → Option Text
  | [] => none
  | d :: t => if c == d then some t else none

/-- The number of days of a month. -/
def daysIn (year month : Nat) : Nat :=
  if month == 2 then
    if year % 4 == 0 && (year % 100 != 0 || year % 400 == 0) then 29 else 28
  else if [4, 6, 9, 11].contains month then 30
  else 31

/-- Reads a date. -/
def date? (t : Text) : Option Text := do
  let (year, t) ← fixed? 4 t
  let (month, t) ← fixed? 2 (← expect? '-' t)
  let (day, t) ← fixed? 2 (← expect? '-' t)
  if 1 ≤ month ∧ month ≤ 12 ∧ 1 ≤ day ∧ day ≤ daysIn year month then some t else none

/-- Reads the time of a day; a minute may end with a leap second. -/
def time? (t : Text) : Option Text := do
  let (hour, t) ← fixed? 2 t
  let (minute, t) ← fixed? 2 (← expect? ':' t)
  let (second, t) ← fixed? 2 (← expect? ':' t)
  if 23 < hour ∨ 59 < minute ∨ 60 < second then none
  else
    match t with
    | '.' :: t => if (t.head?.any Char.isDigit) then some (t.dropWhile Char.isDigit) else none
    | t => some t

/-- Reads the distance of a time zone. -/
def offset? : Text → Option Text
  | [] => none
  | c :: t =>
    if c == 'Z' || c == 'z' then some t
    else if c == '+' || c == '-' then do
      let (hour, t) ← fixed? 2 t
      let (minute, t) ← fixed? 2 (← expect? ':' t)
      if 23 < hour ∨ 59 < minute then none else some t
    else none

/-- Whether the text is a time of a day with or without a time zone. -/
def isZonedTime (t : Text) : Bool :=
  match time? t with
  | none => false
  | some [] => true
  | some t => offset? t == some []

/-- Whether the text is a date, a date with a time or a time. -/
def isDateTime (t : Text) : Bool :=
  match date? t with
  | none => time? t == some []
  | some [] => true
  | some (c :: t) => (c == 'T' || c == 't') && isZonedTime t

/-! ## All together -/

/-- What a run of characters means. -/
def scalar? (t : Text) : Option Value :=
  if t == ['t', 'r', 'u', 'e'] then some (.boolean true)
  else if t == ['f', 'a', 'l', 's', 'e'] then some (.boolean false)
  else if isDateTime t then some (.dateTime (String.ofList t))
  else if isFloat t then some (.float (String.ofList t))
  else (readInteger? t).map .integer

/-- Reads a number, a date or a truth value. -/
def readScalar (t : Text) : Option (Value × Text) := do
  let word := t.takeWhile isScalar
  let rest := t.dropWhile isScalar
  match date? word, rest with
  | some [], ' ' :: more =>
    let time := more.takeWhile isScalar
    if isZonedTime time then
      some (.dateTime (String.ofList (word ++ ' ' :: time)), more.dropWhile isScalar)
    else some (.dateTime (String.ofList word), rest)
  | _, _ => (scalar? word).map (·, rest)

end Papyrus.Toml

import Papyrus.Unicode.Ligature
/-!
# Text widths

The width of a text is the sum of the widths of its characters, but that neighbours may share
columns. `textWidth` takes the characters from the last one to the first and keeps what each has on
its right (`Right`).

Results:
* `textWidth_of_isAscii`: a text of ASCII characters without line feeds has one column each.
-/
namespace Papyrus.Unicode

/-- What the right neighbour of a character is the start of. -/
inductive Tail where
  | other
  | lineFeed
  | ligature (l : Ligature)
  | emoji (e : EmojiTail)
  deriving DecidableEq, Repr

/-- What stands to the right of a character, as far as its width depends on it. -/
structure Right where
  tail : Tail := .other
  /-- Whether a selector before the tail asks for a picture. -/
  picture : Bool := false
  /-- Whether a selector before the tail asks for a text. -/
  text : Bool := false
  deriving DecidableEq, Repr

namespace Tail

/-- What a character is the start of for its left neighbour. -/
def ofChar (c : Char) : Tail :=
  match Ligature.ofChar? c with
  | some l => ligature l
  | none =>
    if isRegionalIndicator c then emoji (.region false)
    else if isEmojiModifier c then emoji .modifier
    else if isEmojiPresentation c then emoji .emoji
    else other

/-- What a character adds to the width of the ligature or emoji that it stands before and belongs
to, and what it is the start of. -/
def extend? (tail : Tail) (c : Char) : Option (Int × Tail) :=
  match tail with
  | ligature l => (l.extend? c).map fun (width, l?) => (width, l?.elim other ligature)
  | emoji e => (e.extend? c).map fun (width, e) => (width, emoji e)
  | other | lineFeed => none

end Tail

namespace Right

/-- With a selector that asks for a picture. It parts what is neither a ligature nor joined. -/
def selectPicture (r : Right) : Right :=
  match r.tail with
  | .ligature _ => { r with picture := true }
  | .emoji e => if e.isJoint then { r with picture := true } else { picture := true }
  | _ => { picture := true }

/-- With a selector that asks for a text. It parts what is no ligature. -/
def selectText (r : Right) : Right :=
  match r.tail with
  | .ligature _ => { r with text := true }
  | _ => { text := true }

/-- For a character that has no picture to be asked for. -/
def withoutPicture (r : Right) : Right :=
  if r.picture then
    match r.tail with
    | .ligature _ => { r with picture := false }
    | _ => {}
  else r

/-- Whether a picture on the left shares the columns of what stands on the right. -/
def isJoint (r : Right) : Bool :=
  match r.tail with
  | .emoji e => e.isJoint
  | _ => false

end Right

/-- The width of a character beyond U+00A0, given its right neighbour, and what it is for its own
left neighbour. -/
def widthBefore (c : Char) (right : Right) : Int × Right :=
  if c = '\uFE0F' then (0, right.selectPicture)
  else if c = '\uFE0E' then (0, right.selectText)
  else if right.text && hasTextForm c then (1, {})
  else
    match right.tail.extend? c with
    | some (width, tail) => (width, { tail := tail })
    | none => (charWidth c, { tail := .ofChar c })

/-- The width of a character, given its right neighbour, and what it is for its own left neighbour.
A line feed ends the line and has no column, nor has a carriage return before it. -/
def widthIn (c : Char) (right : Right) : Int × Right :=
  if right.picture && hasEmojiForm c then
    (if right.isJoint then 0 else 2, { tail := .emoji .emoji })
  else
    let right := right.withoutPicture
    if c = '\n' then (0, { tail := .lineFeed })
    else if c.toNat ≤ 0xA0 then (if c = '\r' ∧ right.tail = .lineFeed then 0 else 1, {})
    else widthBefore c right

/-- The width of a text and what its first character is for a left neighbour. -/
def widthFrom (t : List Char) : Int × Right :=
  t.foldr (fun c (columns, right) =>
    let (width, right) := widthIn c right
    (columns + width, right)) (0, {})

/-- The number of columns of a text. -/
def textWidth (t : List Char) : Nat := (widthFrom t).1.toNat

theorem widthFrom_cons (c : Char) (t : List Char) :
    widthFrom (c :: t) =
      ((widthFrom t).1 + (widthIn c (widthFrom t).2).1, (widthIn c (widthFrom t).2).2) := rfl

theorem widthIn_of_isAscii {c : Char} (h : isAscii c = true) (hc : c ≠ '\n') :
    widthIn c {} = (1, {}) := by
  have h : c.toNat < 128 := by simpa [isAscii] using h
  simp [widthIn, Right.withoutPicture, hc, show c.toNat ≤ 0xA0 by omega]

theorem widthFrom_of_isAscii {t : List Char} (h : ∀ c ∈ t, isAscii c = true ∧ c ≠ '\n') :
    widthFrom t = ((t.length : Int), {}) := by
  induction t with
  | nil => rfl
  | cons c t ih =>
    obtain ⟨hc, hn⟩ := h c (by simp)
    rw [widthFrom_cons, ih fun d hd => h d (by simp [hd]), widthIn_of_isAscii hc hn]
    simp

/-- Every ASCII character but a line feed has a column of its own. -/
theorem textWidth_of_isAscii {t : List Char} (h : ∀ c ∈ t, isAscii c = true ∧ c ≠ '\n') :
    textWidth t = t.length := by
  rw [textWidth, widthFrom_of_isAscii h, Int.toNat_natCast]

end Papyrus.Unicode

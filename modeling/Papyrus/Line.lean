import Papyrus.Folding
import Papyrus.Unicode.TextWidth
/-!
# Lines

A `Line` is a text with a style for each byte and one more for its terminator, which the last line
of a document has too.

Results:
* `styleAt_paint`: painting sets the styles of its range and leaves the others alone.
* `byteOfColumn?_le`: the byte found for a column lies in the line.
-/
namespace Papyrus

/-- A line of a document, without its terminator. -/
structure Line where
  text : Text
  /-- The style of each byte and of the terminator. -/
  styles : Array Style
  fold : Option FoldLevel := none
  size_styles : styles.size = text.size + 1

namespace Line

/-- A line in plain text. -/
def ofText (text : Text) : Line where
  text := text
  styles := .replicate (text.size + 1) .default
  size_styles := Array.size_replicate

instance : Inhabited Line := ⟨ofText []⟩

/-- The number of bytes. -/
def size (l : Line) : Nat := l.styles.size - 1

theorem size_eq (l : Line) : l.size = l.text.size := by simp [size, l.size_styles]

/-! ## Styles -/

/-- The style of a byte; the byte after the last one is the terminator. -/
def styleAt (l : Line) (i : Nat) : Style := l.styles[i]?.getD .default

/-- Gives `count` elements from the one at `start` on a value, as far as there are so many. -/
def fill {α : Type} (a : Array α) (start : Nat) (x : α) : Nat → Array α
  | 0 => a
  | count + 1 => fill (a.setIfInBounds start x) (start + 1) x count

@[simp] theorem size_fill {α : Type} (a : Array α) (start : Nat) (x : α) (count : Nat) :
    (fill a start x count).size = a.size := by
  induction count generalizing a start with
  | zero => rfl
  | succ count ih => rw [fill, ih, Array.size_setIfInBounds]

theorem getElem?_fill {α : Type} (a : Array α) (start : Nat) (x : α) (count i : Nat) :
    (fill a start x count)[i]? =
      if start ≤ i ∧ i < start + count ∧ i < a.size then some x else a[i]? := by
  induction count generalizing a start with
  | zero => rw [fill, if_neg (by omega)]
  | succ count ih =>
    rw [fill, ih, Array.getElem?_setIfInBounds, Array.size_setIfInBounds]
    grind

/-- Gives the bytes from `start` up to `stop` a style, as far as the line has them. -/
def paint (l : Line) (start stop : Nat) (s : Style) : Line where
  text := l.text
  styles := fill l.styles start s (min stop l.styles.size - start)
  fold := l.fold
  size_styles := by simpa using l.size_styles

@[simp] theorem size_paint (l : Line) (start stop : Nat) (s : Style) :
    (l.paint start stop s).size = l.size := by
  simp [size, paint]

@[simp] theorem text_paint (l : Line) (start stop : Nat) (s : Style) :
    (l.paint start stop s).text = l.text := rfl

theorem styleAt_paint (l : Line) (start stop i : Nat) (s : Style) :
    (l.paint start stop s).styleAt i =
      if start ≤ i ∧ i < stop ∧ i ≤ l.size then s else l.styleAt i := by
  have h := l.size_styles
  have hs := l.size_eq
  simp only [styleAt, paint, getElem?_fill]
  split
  · rw [if_pos (by omega)]; rfl
  · rw [if_neg (by omega)]

/-! ## Columns -/

/-- The byte at which the character in a display column starts; none if the line is too short. -/
def byteOfColumn? (l : Line) (column : Nat) : Option Nat :=
  go l.text column
where
  /-- Counts from the start of a text. -/
  go : Text → Nat → Option Nat
    | _, 0 => some 0
    | [], _ + 1 => none
    | c :: t, n => (go t (n - Unicode.charWidth c)).map (c.utf8Size + ·)

/-- The display column of a byte. -/
def columnOfByte (l : Line) (byte : Nat) : Nat := Unicode.textWidth (l.text.slice 0 byte)

theorem byteOfColumn?_le {l : Line} {column byte : Nat} (h : l.byteOfColumn? column = some byte) :
    byte ≤ l.size := by
  rw [size_eq]
  suffices ∀ (t : Text) n b, byteOfColumn?.go t n = some b → b ≤ t.size from this l.text _ _ h
  intro t
  induction t with
  | nil => intro n b; cases n <;> simp [byteOfColumn?.go, eq_comm]
  | cons c t ih =>
    intro n b hb
    cases n with
    | zero => exact Option.some.inj hb ▸ Nat.zero_le _
    | succ n =>
      obtain ⟨b', h', rfl⟩ := Option.map_eq_some_iff.1 hb
      have := ih _ _ h'
      simp only [Text.size_cons]; omega

end Line

/-! ## Runs of lines -/

/-- Consecutive lines. Offsets into them count one byte for each terminator between two lines. -/
abbrev Lines := List Line

namespace Lines

/-- The text of the lines. -/
def text (ls : Lines) : Text := Text.joinLines (ls.map Line.text)

/-- The number of bytes. -/
def size : Lines → Nat
  | [] => 0
  | [l] => l.size
  | l :: ls => l.size + 1 + size ls

/-- The offset of the start of a line; the end of the text if there is no such line. -/
def lineStart : Lines → Nat → Nat
  | [], _ => 0
  | _, 0 => 0
  | [l], _ + 1 => l.size
  | l :: ls, i + 1 => l.size + 1 + lineStart ls i

/-- The offset of the terminator of a line; the end of the text if there is no such line. -/
def lineEnd : Lines → Nat → Nat
  | [], _ => 0
  | [l], _ => l.size
  | l :: _, 0 => l.size
  | l :: ls, i + 1 => l.size + 1 + lineEnd ls i

/-- The index of the line that an offset falls into; its terminator belongs to a line. -/
def lineAt : Lines → Nat → Nat
  | [], _ => 0
  | [_], _ => 0
  | l :: ls, offset => if offset ≤ l.size then 0 else lineAt ls (offset - (l.size + 1)) + 1

/-- The style at an offset. -/
def styleAt : Lines → Nat → Style
  | [], _ => .default
  | l :: ls, offset =>
    if offset ≤ l.size then l.styleAt offset else styleAt ls (offset - (l.size + 1))

/-- Gives the bytes from `start` up to `stop` a style, terminators included. -/
def paint : Lines → Nat → Nat → Style → Lines
  | [], _, _, _ => []
  | l :: ls, start, stop, s =>
    if stop = 0 then l :: ls
    else l.paint start stop s :: paint ls (start - (l.size + 1)) (stop - (l.size + 1)) s

/-- The text from `start` up to `stop`, widened to whole characters. -/
def slice : Lines → Nat → Nat → Text
  | [], _, _ => []
  | [l], start, stop => l.text.slice start stop
  | l :: ls, start, stop =>
    if l.size < start then slice ls (start - (l.size + 1)) (stop - (l.size + 1))
    else if stop ≤ l.size then l.text.slice start stop
    else l.text.slice start stop ++ '\n' :: slice ls 0 (stop - (l.size + 1))

theorem size_text (ls : Lines) : Text.size (text ls) = size ls := by
  induction ls with
  | nil => rfl
  | cons l ls ih =>
    cases ls with
    | nil => exact l.size_eq.symm
    | cons m ls =>
      simp only [text, List.map_cons, Text.joinLines, size] at ih ⊢
      simp only [Text.size_append, Text.size_cons, ih, Line.size_eq]
      simp [Char.utf8Size]; omega

@[simp] theorem length_paint (ls : Lines) (start stop : Nat) (s : Style) :
    (paint ls start stop s).length = ls.length := by
  induction ls generalizing start stop with
  | nil => rfl
  | cons l ls ih =>
    rw [paint]
    split
    · rfl
    · simp [ih]

theorem map_text_paint (ls : Lines) (start stop : Nat) (s : Style) :
    (paint ls start stop s).map Line.text = ls.map Line.text := by
  induction ls generalizing start stop with
  | nil => rfl
  | cons l ls ih =>
    rw [paint]
    split
    · rfl
    · simp [ih]

end Lines

end Papyrus

import Papyrus.Document.Basic
import Papyrus.Text.Occurrences
/-!
# Words of a document

A word is a longest run of word characters: those that the document says, and letters and numbers
beyond ASCII.

Results:
* `wordAt_within`: the word at an offset lies in the document, on both sides of the offset.
-/
namespace Papyrus.Document

/-- Whether a character is part of words. -/
def isWordChar (d : Document) (c : Char) : Bool :=
  d.wordChars.contains c || (!Unicode.isAscii c && Unicode.isAlphanumeric c)

/-- The word around an offset; empty if no word character is next to it. -/
def wordAt (d : Document) (offset : Nat) : Span :=
  let offset := min offset d.size
  match d.text.around? offset with
  | none => ⟨offset, offset⟩
  | some (before, after) =>
    ⟨offset - Text.size (before.takeWhile d.isWordChar),
      offset + Text.size (after.takeWhile d.isWordChar)⟩

/-- Whether no word character stands directly before or after an occurrence. -/
def isWholeWord (d : Document) (o : Text.Occurrence) : Bool :=
  !o.before.any d.isWordChar && !o.after.any d.isWordChar

/-- Does something while more characters count as part of words. -/
def withWordChars {α : Type} (d : Document) (extra : Text) (act : Document → α × Document) :
    α × Document :=
  let (a, d') := act { d with wordChars := d.wordChars ++ extra.filter (! d.wordChars.contains ·) }
  (a, { d' with wordChars := d.wordChars })

theorem size_takeWhile_le (t : Text) (p : Char → Bool) : Text.size (t.takeWhile p) ≤ t.size := by
  have := congrArg Text.size (List.takeWhile_append_dropWhile (p := p) (l := t))
  simp only [Text.size_append] at this
  omega

theorem wordAt_within (d : Document) (offset : Nat) :
    (d.wordAt offset).start ≤ min offset d.size ∧ min offset d.size ≤ (d.wordAt offset).stop ∧
      (d.wordAt offset).stop ≤ d.size := by
  unfold wordAt
  dsimp only
  split
  · exact ⟨Nat.le_refl _, Nat.le_refl _, Nat.min_le_right _ _⟩
  · next before after h =>
    obtain ⟨ht, hn⟩ := Text.eq_append_of_around? h
    have hs := congrArg Text.size ht
    rw [size_text, Text.size_append, Text.size_reverse] at hs
    have := size_takeWhile_le after d.isWordChar
    exact ⟨Nat.sub_le _ _, Nat.le_add_right _ _, by dsimp only; omega⟩

end Papyrus.Document

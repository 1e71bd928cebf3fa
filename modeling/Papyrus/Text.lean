import Papyrus.Unicode.WhiteSpace
/-!
# Texts and byte offsets

A `Text` is a list of characters. Positions in it are counted in bytes of its UTF-8 form, so a
position may fall inside a character. `around?` looks both ways from a character boundary;
`takeCeil` and `dropFloor` widen to the nearest boundary, and `slice` is built from them.

Results:
* `size_append`: sizes add up.
* `eq_append_of_around?`: what stands around a boundary is the text, and the boundary is where it
  was asked for.
* `breakLines_ne_nil`: a text has at least one line.
-/
namespace Papyrus

/-- A run of characters. Offsets into it count bytes of its UTF-8 form. -/
abbrev Text := List Char

namespace Text

/-- The number of bytes of the UTF-8 form. -/
def size : Text → Nat
  | [] => 0
  | c :: t => c.utf8Size + size t

@[simp] theorem size_nil : size [] = 0 := rfl

@[simp] theorem size_cons (c : Char) (t : Text) : size (c :: t) = c.utf8Size + size t := rfl

@[simp] theorem size_append (s t : Text) : size (s ++ t) = size s + size t := by
  induction s with
  | nil => simp
  | cons c s ih => simp [ih]; omega

/-! ## Cutting at byte offsets -/

/-- What stands before byte `n`, the last character first, and what stands after it, if a character
starts or the text ends there. -/
def around? (t : Text) (n : Nat) : Option (Text × Text) :=
  go [] t n
where
  /-- Goes on while `before` holds the characters that have been passed, the last one first. -/
  go (before : Text) : Text → Nat → Option (Text × Text)
    | t, 0 => some (before, t)
    | [], _ + 1 => none
    | c :: t, n => if c.utf8Size ≤ n then go (c :: before) t (n - c.utf8Size) else none

/-- The longest prefix of at most `n` bytes. -/
def takeFloor : Text → Nat → Text
  | [], _ => []
  | c :: t, n => if c.utf8Size ≤ n then c :: takeFloor t (n - c.utf8Size) else []

/-- The shortest prefix of at least `n` bytes, or the whole text. -/
def takeCeil : Text → Nat → Text
  | [], _ => []
  | c :: t, n => if n = 0 then [] else c :: takeCeil t (n - c.utf8Size)

/-- What follows the last boundary at or before byte `n`. -/
def dropFloor : Text → Nat → Text
  | [], _ => []
  | c :: t, n => if c.utf8Size ≤ n then dropFloor t (n - c.utf8Size) else c :: t

/-- The text between two offsets, the first moved back to a character boundary and the second moved
on to one. -/
def slice (t : Text) (start stop : Nat) : Text := (t.takeCeil stop).dropFloor start

theorem eq_append_of_around?_go {before t a b : Text} {n : Nat}
    (h : around?.go before t n = some (a, b)) :
    before.reverse ++ t = a.reverse ++ b ∧ a.size = before.size + n := by
  induction t generalizing n before with
  | nil => cases n <;> simp_all [around?.go]
  | cons c t ih =>
    cases n with
    | zero => simp_all [around?.go]
    | succ n =>
      simp only [around?.go] at h
      split at h
      · obtain ⟨ht, hn⟩ := ih h
        exact ⟨by simpa using ht, by simp only [size_cons] at hn; omega⟩
      · contradiction

theorem eq_append_of_around? {t before after : Text} {n : Nat}
    (h : t.around? n = some (before, after)) : t = before.reverse ++ after ∧ before.size = n := by
  obtain ⟨ht, hn⟩ := eq_append_of_around?_go h
  exact ⟨by simpa using ht, by simpa using hn⟩

@[simp] theorem size_reverse (t : Text) : size t.reverse = size t := by
  induction t with
  | nil => rfl
  | cons c t ih => simp [ih]; omega

/-! ## Lines -/

/-- The lines of a text. A line ends at a line feed, which may follow a carriage return; what stands
after the last line feed is a line too, even if it is empty. -/
def breakLines : Text → List Text
  | [] => [[]]
  | '\n' :: t => [] :: breakLines t
  | '\r' :: '\n' :: t => [] :: breakLines t
  | c :: t =>
    match breakLines t with
    | [] => [[c]]
    | l :: ls => (c :: l) :: ls

theorem breakLines_ne_nil (t : Text) : breakLines t ≠ [] := by
  fun_cases breakLines t <;> simp_all

/-- The texts, with a line feed between each two. -/
def joinLines : List Text → Text
  | [] => []
  | [l] => l
  | l :: ls => l ++ '\n' :: joinLines ls

/-! ## Parts between separators -/

/-- The parts of a text between the occurrences of a character; there is at least one. -/
def splitOn (sep : Char) : Text → List Text
  | [] => [[]]
  | c :: t =>
    match splitOn sep t with
    | [] => []
    | part :: parts => if c = sep then [] :: part :: parts else (c :: part) :: parts

/-! ## Words between white space -/

/-- The maximal runs of characters that are not white space. -/
def words (t : Text) : List Text :=
  go [] t
where
  /-- Reads on while `word` holds the characters of the current run, the last one first. -/
  go (word : Text) : Text → List Text
    | [] => if word.isEmpty then [] else [word.reverse]
    | c :: t =>
      if Unicode.isWhiteSpace c then
        if word.isEmpty then go [] t else word.reverse :: go [] t
      else go (c :: word) t

end Text

end Papyrus

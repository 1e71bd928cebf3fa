import Papyrus.Proofs.LineRun
/-!
# The styles of a run of lines

A run gives each byte that it reads the style of its own span, whatever its style was before.

Results:
* `styleAt_styled`: the style of each byte of a run of lines after styling.
-/
namespace Papyrus

open StyledSpan (styleIn)

/-! ## What a run puts at an offset -/

namespace Lines

/-- The style that a run over all of some lines puts at an offset: that of a span of the line where
it was read, plain text where it was not, and the trailing style of a line at its terminator. -/
def styleOf (cut : Text → Text) (env : Surroundings) (line : Nat) (incoming : LineState)
    (k : Knowledge) : Lines → Nat → Style
  | [], _ => .default
  | l :: ls, offset =>
    let (styles, k) := styleLine env (cut l.text) 0 line incoming k
    if offset < (cut l.text).size then styleIn styles.spans offset
    else if offset < l.size then .default
    else if offset = l.size then styles.trailing
    else styleOf cut env (line + 1) styles.endState k ls (offset - (l.size + 1))

/-- What a run puts into a line that is read in full, and behind it. -/
theorem styleOf_cons (env : Surroundings) (line : Nat) (incoming : LineState) (k : Knowledge)
    (l : Line) (ls : Lines) (offset : Nat) :
    styleOf id env line incoming k (l :: ls) offset =
      let r := styleLine env l.text 0 line incoming k
      if offset < l.size then styleIn r.1.spans offset
      else if offset = l.size then r.1.trailing
      else styleOf id env (line + 1) r.1.endState r.2 ls (offset - (l.size + 1)) := by
  have hsize := l.size_eq
  rw [styleOf]
  by_cases hin : offset < l.size
  · have hread : offset < Text.size (id l.text) := by
      rw [id]
      omega
    dsimp only
    rw [if_pos hread, if_pos hin]
    rfl
  · have hread : ¬ offset < Text.size (id l.text) := by
      rw [id]
      omega
    dsimp only
    rw [if_neg hread, if_neg hin, if_neg hin]
    rfl

theorem styleAt_styled {cut : Text → Text} (hcut : ∀ t, (cut t).size ≤ t.size)
    (env : Surroundings) (line : Nat) (incoming : LineState) (k : Knowledge) (ls : Lines)
    {offset : Nat} (h : offset < size ls) :
    styleAt (styled cut env line incoming k ls.length ls).2.2 offset =
      styleOf cut env line incoming k ls offset := by
  induction ls generalizing line incoming k offset with
  | nil => exact absurd h (Nat.not_lt_zero _)
  | cons l ls ih =>
    have htiles := tiles_styleLine env (cut l.text) 0 line incoming k
    have hread : (cut l.text).size ≤ l.size := by
      rw [l.size_eq]
      exact hcut l.text
    have hstyle := @Line.styleAt_restyle l _ 0 _ (!ls.isEmpty) htiles hread offset
    rw [Nat.zero_add] at hstyle
    have hsize := Line.size_restyle l (styleLine env (cut l.text) 0 line incoming k).1 0
      (cut l.text).size (!ls.isEmpty)
    rw [List.length_cons, styled, Line.styled, styleOf]
    dsimp only
    rw [styleAt, hsize]
    by_cases hread : offset < (cut l.text).size
    · rw [if_pos (by omega), hstyle, if_pos hread, if_pos hread]
    rw [if_neg hread]
    by_cases hin : offset < l.size
    · rw [if_pos (by omega), hstyle, if_neg hread, if_pos hin, if_pos hin]
    rw [if_neg hin]
    have hls : ls ≠ [] := by
      rintro rfl
      exact hin h
    by_cases hend : offset = l.size
    · have hfollowed : offset = l.size ∧ (!ls.isEmpty) = true := ⟨hend, by simpa using hls⟩
      rw [if_pos (by omega), hstyle, if_neg hread, if_neg hin, if_pos hfollowed, if_pos hend]
    · rw [size_cons hls] at h
      rw [if_neg (by omega), if_neg hend, ih _ _ _ (by omega)]

/-- What a run puts at an offset depends on the texts of the lines alone. -/
theorem styleOf_congr (cut : Text → Text) (env : Surroundings) (line : Nat) (incoming : LineState)
    (k : Knowledge) {ls ls' : Lines} (h : ls.map Line.text = ls'.map Line.text) (offset : Nat) :
    styleOf cut env line incoming k ls offset = styleOf cut env line incoming k ls' offset := by
  induction ls generalizing line incoming k ls' offset with
  | nil =>
    cases ls' with
    | nil => rfl
    | cons => cases h
  | cons l ls ih =>
    cases ls' with
    | nil => cases h
    | cons l' ls' =>
      obtain ⟨hl, hls⟩ := List.cons.inj h
      rw [styleOf, styleOf, Line.size_eq, Line.size_eq, hl]
      dsimp only
      rw [ih _ _ _ hls]

end Lines

end Papyrus

import Papyrus.Proofs.Outline
import Papyrus.Proofs.Redaction
/-!
# Where strings end

A quote inside a string ends it unless the backslashes before it escape it. They are counted as
tokens, and white space belongs to no token, so two counts have a say: that of the backslashes that
stand directly before the quote, and that of those farther back with nothing but white space in
between. A quote ends the string if the sum of the two is even. Only where the second count is even
do the backslashes directly before the quote decide alone.

Results:
* `Mode.backslashes_eq_add`: the backslashes that count are of these two sorts.
* `Mode.readAll_append_of_head`: characters are read one part of a line after the other.
* `styleLine_quote`: what a quote inside a string does to the rest of its line.
-/
namespace Papyrus

/-! ## Backslashes -/

namespace Mode

/-- The number of backslashes directly at the end of what has been read, the last character of which
is given first. -/
def directBackslashes (before : Text) : Nat := (before.takeWhile (· == '\\')).length

/-- The number of backslashes behind which only white space and other backslashes stand, and not
only backslashes. -/
def fartherBackslashes (before : Text) : Nat := backslashes (before.dropWhile (· == '\\'))

theorem backslashes_cons_backslash (before : Text) :
    backslashes ('\\' :: before) = backslashes before + 1 := by
  simp [backslashes]

theorem backslashes_eq_add (before : Text) :
    backslashes before = directBackslashes before + fartherBackslashes before := by
  induction before with
  | nil => rfl
  | cons c before ih =>
    by_cases hc : c = '\\'
    · subst hc
      rw [backslashes_cons_backslash, ih]
      simp [directBackslashes, fartherBackslashes]
      omega
    · have hdirect : directBackslashes (c :: before) = 0 := by simp [directBackslashes, hc]
      rw [hdirect, Nat.zero_add, fartherBackslashes, List.dropWhile_cons_of_neg (by simpa using hc)]

/-- The mode behind a quote in a string before which the given text stands. -/
def behindQuote (before : Text) : Mode :=
  if (directBackslashes before.reverse + fartherBackslashes before.reverse) % 2 = 0 then .code
  else .string

theorem style_behindQuote (before : Text) : (behindQuote before).style = .default ↔
    (directBackslashes before.reverse + fartherBackslashes before.reverse) % 2 = 0 := by
  unfold behindQuote
  split <;> simp_all [style]

/-! ## Reading a line in parts -/

theorem opened_append_of_head (c : Char) (text : Text) {rest : Text}
    (h : rest.head? ≠ some '/') : opened c (text ++ rest) = opened c text := by
  have hhead : (text ++ rest).head? = some '/' ↔ text.head? = some '/' := by
    cases text with
    | nil => simp [h]
    | cons d text => simp
  simp only [opened, hhead]

theorem read_append_of_head (mode : Mode) (before : Text) (c : Char) (text : Text) {rest : Text}
    (h : rest.head? ≠ some '/') :
    mode.read before c (text ++ rest) = mode.read before c text := by
  cases mode with
  | code => simp only [read, opened_append_of_head c text h]
  | _ => rfl

/-- A text is read one part after the other; no part may start with a slash, which could be part of
the start of a comment. -/
theorem readAll_append_of_head (mode : Mode) (before text : Text) {rest : Text}
    (h : rest.head? ≠ some '/') :
    mode.readAll before (text ++ rest) =
      let first := mode.readAll before text
      let second := first.2.readAll (text.reverse ++ before) rest
      (first.1 ++ second.1, second.2) := by
  induction text generalizing mode before with
  | nil => rfl
  | cons c text ih =>
    simp only [List.cons_append, readAll, read_append_of_head mode before c text h, ih,
      List.reverse_cons, List.append_assoc, List.nil_append]

/-- A quote in a string is part of it. -/
theorem readAll_quote (text after : Text) :
    string.readAll text.reverse ('"' :: after) =
      let rest := (behindQuote text).readAll ('"' :: text.reverse) after
      (('"', .string) :: rest.1, rest.2) := by
  simp [readAll, read, endsAt, style, behindQuote, backslashes_eq_add]

end Mode

/-! ## Lines -/

section
variable {env : Surroundings} {line base : Nat} {incoming : LineState} {k : Knowledge}
  {before : Text}

open Mode (directBackslashes fartherBackslashes)
open StyledSpan (styleIn)

/-- The style of the terminator tells whether a string is left open. -/
theorem mode_of_trailing_styleLine
    (h : (styleLine env before base line incoming k).1.trailing = .string) :
    ((Mode.ofState incoming).readAll [] before).2 = .string := by
  have htrailing := (final_styleLine env line before base incoming k).1
  rw [h] at htrailing
  cases hmode : ((Mode.ofState incoming).readAll [] before).2 with
  | string => rfl
  | _ => rw [hmode] at htrailing; cases htrailing

theorem readAll_at_quote (h : (styleLine env before base line incoming k).1.trailing = .string)
    (after : Text) :
    (Mode.ofState incoming).readAll [] (before ++ '"' :: after) =
      let rest := (Mode.behindQuote before).readAll ('"' :: before.reverse) after
      (((Mode.ofState incoming).readAll [] before).1 ++ ('"', .string) :: rest.1, rest.2) := by
  have hmode := mode_of_trailing_styleLine h
  rw [Mode.readAll_append_of_head _ _ _ (by simp)]
  simp only [hmode, List.append_nil, Mode.readAll_quote]

/-- The bytes from the quote on. -/
theorem region_from_quote (h : (styleLine env before base line incoming k).1.trailing = .string)
    {after : Text} {i : Nat} (hi : i < 1 + after.size) :
    (styleIn (styleLine env (before ++ '"' :: after) base line incoming k).1.spans
        (base + (before.size + i))).region =
      styleOfByte (('"', .string) ::
        ((Mode.behindQuote before).readAll ('"' :: before.reverse) after).1) i := by
  have hsize : Text.size (before ++ '"' :: after) = before.size + (1 + after.size) := by
    simp [Char.utf8Size]
  have happend := styleOfByte_append_right ((Mode.ofState incoming).readAll [] before).1
    (('"', .string) :: ((Mode.behindQuote before).readAll ('"' :: before.reverse) after).1) i
  rw [Mode.textOf_readAll] at happend
  rw [region_styleLine env line _ _ _ _ (by omega), readAll_at_quote h]
  exact happend

/-- A quote where a string is open is part of the string. It ends the string just if the backslashes
directly before it and those farther back are even in number together; what follows is then read as
code. The backslashes directly before it tell so alone just if those farther back are even in
number. -/
theorem styleLine_quote (h : (styleLine env before base line incoming k).1.trailing = .string)
    (after : Text) :
    let direct := directBackslashes before.reverse
    let farther := fartherBackslashes before.reverse
    let closes := (styleLine env (before ++ ['"']) base line incoming k).1.trailing = .default
    let rest := (Mode.behindQuote before).readAll ('"' :: before.reverse) after
    let r := (styleLine env (before ++ '"' :: after) base line incoming k).1
    (closes ↔ (direct + farther) % 2 = 0) ∧
      ((closes ↔ direct % 2 = 0) ↔ farther % 2 = 0) ∧
      (styleIn r.spans (base + before.size)).region = .string ∧
      (∀ i < after.size, (styleIn r.spans (base + (before.size + (1 + i)))).region =
        styleOfByte rest.1 i) ∧
      r.trailing = rest.2.style ∧ r.endState = rest.2.endState := by
  intro direct farther closes rest r
  have hcloses : closes ↔ (direct + farther) % 2 = 0 := by
    have hfinal := (final_styleLine env line (before ++ ['"']) base incoming k).1
    rw [readAll_at_quote h] at hfinal
    exact (hfinal ▸ Iff.rfl : closes ↔ _).trans (Mode.style_behindQuote before)
  have hfinal := final_styleLine env line (before ++ '"' :: after) base incoming k
  rw [readAll_at_quote h] at hfinal
  refine ⟨hcloses, ?_, ?_, ?_, hfinal⟩
  · rw [hcloses]
    omega
  · exact region_from_quote h (i := 0) (by omega)
  · intro i hi
    rw [region_from_quote h (by omega), styleOfByte, if_neg (by simp [Char.utf8Size])]
    congr 1
    simp [Char.utf8Size]

/-- Two backslashes escape each other, so that the quote behind them ends the string. -/
theorem trailing_quote_doubled :
    let r := fun text => (styleLine .bare text 0 0 .default ⟨{}, ⟨false, []⟩⟩).1.trailing
    r ['"', '\\', '\\'] = .string ∧ r ['"', '\\', '\\', '"'] = .default := by
  have hopen : (styleLine .bare ['"', '\\', '\\'] 0 0 .default ⟨{}, ⟨false, []⟩⟩).1.trailing =
      .string := (final_styleLine _ _ _ _ _ _).1.trans (by decide)
  exact ⟨hopen, (styleLine_quote hopen []).1.2 (by decide)⟩

/-- A backslash keeps a string open even if a blank stands between it and the quote. -/
theorem not_closes_iff_direct :
    ¬ ∀ (env : Surroundings) (line base : Nat) (incoming : LineState) (k : Knowledge)
      (before : Text), (styleLine env before base line incoming k).1.trailing = .string →
      ((styleLine env (before ++ ['"']) base line incoming k).1.trailing = .default ↔
        directBackslashes before.reverse % 2 = 0) := by
  intro h
  have hopen : (styleLine .bare ['"', '\\', ' '] 0 0 .default ⟨{}, ⟨false, []⟩⟩).1.trailing =
      .string := (final_styleLine _ _ _ _ _ _).1.trans (by decide)
  have hclosed := (h _ _ _ _ _ _ hopen).2 (by decide)
  rw [(final_styleLine _ _ _ _ _ _).1] at hclosed
  exact absurd hclosed (by decide)

end

end Papyrus

import Papyrus.LineStyling
/-!
# The spans of a line

The tokens of a line come in order and do not overlap (`Token.Ordered`). The spans that styling
gives them, together with the gaps between them, tile what was read of the line: each starts where
the one before it ends.

Results:
* `scan_ordered`: the tokens of a line come in order.
* `tiles_styleLine`: the spans of a line tile it.
-/
namespace Papyrus

/-! ## Tokens in order -/

/-- Tokens that are not empty, come in order from `lo` up to `hi` and do not overlap. -/
def Token.Ordered : Nat → List Token → Nat → Prop
  | lo, [], hi => lo ≤ hi
  | lo, t :: rest, hi => lo ≤ t.start ∧ t.start < t.stop ∧ Ordered t.stop rest hi

namespace Token

theorem Ordered.mono {lo lo' hi : Nat} {tokens : List Token} (hlo : lo' ≤ lo)
    (h : Ordered lo tokens hi) : Ordered lo' tokens hi := by
  cases tokens with
  | nil => exact Nat.le_trans hlo h
  | cons t rest => exact ⟨Nat.le_trans hlo h.1, h.2⟩

/-- Each of the tokens lies between the bounds. -/
theorem Ordered.mem {lo hi : Nat} {tokens : List Token} (h : Ordered lo tokens hi) {t : Token}
    (ht : t ∈ tokens) : lo ≤ t.start ∧ t.start < t.stop ∧ t.stop ≤ hi := by
  have hle : ∀ {lo : Nat} {tokens : List Token}, Ordered lo tokens hi → lo ≤ hi := by
    intro lo tokens h
    induction tokens generalizing lo with
    | nil => exact h
    | cons t rest ih =>
      obtain ⟨hlo, hpos, h⟩ := h
      have := ih h
      omega
  induction tokens generalizing lo with
  | nil => cases ht
  | cons u rest ih =>
    obtain ⟨hlo, hpos, h⟩ := h
    rcases List.mem_cons.1 ht with rfl | ht
    · exact ⟨hlo, hpos, hle h⟩
    · have := ih h ht
      exact ⟨by omega, this.2⟩

theorem size_lexeme_pos (c : Char) (t : Text) : 0 < Text.size (lexeme c t).2.1 := by
  have happ := lexeme_append c t
  cases hlex : (lexeme c t).2.1 with
  | nil =>
    have hlen := length_lexeme_rest c t
    rw [hlex, List.nil_append] at happ
    rw [happ] at hlen
    exact absurd hlen (Nat.lt_irrefl _)
  | cons a b =>
    have := a.utf8Size_pos
    rw [Text.size_cons]
    omega

/-- The tokens of a line lie in the line and come in order. -/
theorem scan_ordered (line : Text) (base : Nat) :
    Ordered base (scan line base) (base + line.size) := by
  fun_induction scan line base with
  | case1 base => exact Nat.le_refl _
  | case2 base c t h ih =>
    rw [Text.size_cons, ← Nat.add_assoc]
    exact ih.mono (Nat.le_add_right _ _)
  | case3 base c t h lex stop ih =>
    have happ := congrArg Text.size (lexeme_append c t)
    rw [Text.size_append] at happ
    have hpos := size_lexeme_pos c t
    have hstop : stop + Text.size lex.2.2 = base + Text.size (c :: t) := by
      rw [← happ, Nat.add_assoc]
    rw [hstop] at ih
    exact ⟨Nat.le_refl _, Nat.lt_add_of_pos_right hpos, ih⟩

end Token

/-! ## Spans that tile a line -/

namespace StyledSpan

/-- Spans that are not empty and each of which starts where the one before it ends, from `lo` up to
`hi`. -/
def Tiles : Nat → List StyledSpan → Nat → Prop
  | lo, [], hi => lo = hi
  | lo, s :: rest, hi => s.start = lo ∧ lo < s.stop ∧ Tiles s.stop rest hi

/-- The style that spans give to a byte. -/
def styleIn (spans : List StyledSpan) (i : Nat) : Style :=
  ((spans.find? (·.contains i)).map (·.style)).getD .default

theorem Tiles.le {lo hi : Nat} {spans : List StyledSpan} (h : Tiles lo spans hi) : lo ≤ hi := by
  induction spans generalizing lo with
  | nil => exact Nat.le_of_eq h
  | cons s rest ih =>
    obtain ⟨-, hpos, h⟩ := h
    exact Nat.le_of_lt (Nat.lt_of_lt_of_le hpos (ih h))

theorem Tiles.append {lo mid hi : Nat} {spans spans' : List StyledSpan} (h : Tiles lo spans mid)
    (h' : Tiles mid spans' hi) : Tiles lo (spans ++ spans') hi := by
  induction spans generalizing lo with
  | nil =>
    cases h
    exact h'
  | cons s rest ih =>
    obtain ⟨hstart, hpos, h⟩ := h
    exact ⟨hstart, hpos, ih h⟩

theorem tiles_gap {start stop : Nat} (h : start ≤ stop) (style : Style) :
    Tiles start (gap start stop style) stop := by
  unfold gap
  by_cases hlt : start < stop
  · rw [if_pos hlt]
    exact ⟨rfl, hlt, rfl⟩
  · rw [if_neg hlt]
    exact Nat.le_antisymm h (Nat.le_of_not_lt hlt)

/-- A byte is in the first span or has the style that the others give to it. -/
theorem styleIn_cons (s : StyledSpan) (rest : List StyledSpan) (i : Nat) :
    styleIn (s :: rest) i = if s.start ≤ i ∧ i < s.stop then s.style else styleIn rest i := by
  unfold styleIn
  by_cases h : s.start ≤ i ∧ i < s.stop
  · rw [if_pos h, List.find?_cons_of_pos (by simpa [Span.contains] using h)]
    rfl
  · rw [if_neg h, List.find?_cons_of_neg (by simpa [Span.contains] using h)]

theorem styleIn_gap (start stop : Nat) (style : Style) (rest : List StyledSpan) (i : Nat) :
    styleIn (gap start stop style ++ rest) i =
      if start ≤ i ∧ i < stop then style else styleIn rest i := by
  unfold gap
  by_cases h : start < stop
  · rw [if_pos h]
    exact styleIn_cons _ _ _
  · rw [if_neg h, if_neg (by omega)]
    rfl

end StyledSpan

open StyledSpan (Tiles styleIn)

theorem tiles_styleTokens (env : Surroundings) (line : Nat) (mode : Mode) (behind : List Token)
    {cursor hi : Nat} (k : Knowledge) {tokens : List Token}
    (h : Token.Ordered cursor tokens hi) :
    let r := styleTokens env line mode behind cursor k tokens
    Tiles cursor r.1 r.2.1 ∧ r.2.1 ≤ hi := by
  induction tokens generalizing mode behind cursor k with
  | nil => exact ⟨rfl, h⟩
  | cons t rest ih =>
    obtain ⟨hlo, hpos, h⟩ := h
    obtain ⟨htiles, hhi⟩ := ih (styleToken env line mode behind t rest.head? k).2.1 (t :: behind)
      (styleToken env line mode behind t rest.head? k).2.2 h
    exact ⟨(StyledSpan.tiles_gap hlo _).append ⟨rfl, hpos, htiles⟩, hhi⟩

/-- The spans of a line tile it. -/
theorem tiles_styleLine (env : Surroundings) (text : Text) (base line : Nat)
    (incoming : LineState) (k : Knowledge) :
    Tiles base (styleLine env text base line incoming k).1.spans (base + text.size) := by
  obtain ⟨htiles, hhi⟩ := tiles_styleTokens env line (.ofState incoming) [] k
    (Token.scan_ordered text base)
  exact htiles.append (StyledSpan.tiles_gap hhi _)

end Papyrus

import Papyrus.Proofs.CodeToken
import Papyrus.Proofs.Incremental
/-!
# Redacted lines of a document

Lines are redacted one by one, each in the state that those before it leave (`Lines.redacted`); the
terminators are not part of them. Where two documents have lines of the same sizes, the same outline
and the same bytes in code, their redacted lines are the same. A run over lines then finds out the
same and leaves the same styles in both.

Results:
* `outlineAt_split`: the outline of lines, character by character.
* `redacted_eq`: lines that agree on outline and code are redacted to the same.
* `knowledge_styled_of_redacted`, `styleOf_of_redacted`: what a run makes of redacted lines.
-/
namespace Papyrus

/-! ## The outline, character by character -/

theorem styleIn_outline {incoming : LineState} {text : Text} {i : Nat} (hi : i < text.size) :
    StyledSpan.styleIn (outline incoming text).spans i =
      styleOfByte ((Mode.ofState incoming).readAll [] text).1 i := by
  have hregion := region_styleLine .bare 0 text 0 incoming .bare hi
  rw [Nat.zero_add, ← StyledSpan.styleIn_map_region] at hregion
  exact hregion

theorem final_outline (incoming : LineState) (text : Text) :
    (outline incoming text).trailing = ((Mode.ofState incoming).readAll [] text).2.style ∧
      (outline incoming text).endState = ((Mode.ofState incoming).readAll [] text).2.endState :=
  final_styleLine .bare 0 text 0 incoming .bare

namespace Lines

theorem outlineAt_first (incoming : LineState) {l : Line} (ls : Lines) {i : Nat} (hi : i < l.size) :
    outlineAt incoming (l :: ls) i =
      styleOfByte ((Mode.ofState incoming).readAll [] l.text).1 i := by
  rw [outlineAt, if_pos hi, styleIn_outline (l.size_eq ▸ hi)]

theorem outlineAt_behind (incoming : LineState) (l : Line) (ls : Lines) (i : Nat) :
    outlineAt incoming (l :: ls) (l.size + 1 + i) =
      outlineAt (outline incoming l.text).endState ls i := by
  rw [outlineAt, if_neg (by omega), if_neg (by omega), Nat.add_sub_cancel_left]

/-- The outline of the first line, its terminator included. -/
theorem outlineAt_cons (incoming : LineState) {l : Line} (ls : Lines) {i : Nat} (hi : i ≤ l.size) :
    outlineAt incoming (l :: ls) i = styleOfByte (lineCells (.ofState incoming) l.text) i := by
  have hsize := l.size_eq
  have htext := (Mode.ofState incoming).textOf_readAll [] l.text
  rw [lineCells]
  by_cases hin : i < l.size
  · rw [outlineAt_first incoming ls hin, styleOfByte_append_left _ (by rw [htext]; omega)]
  · obtain rfl : i = (textOf ((Mode.ofState incoming).readAll [] l.text).1).size := by
      rw [htext]
      omega
    have hend := styleOfByte_append_right ((Mode.ofState incoming).readAll [] l.text).1
      [('\n', ((Mode.ofState incoming).readAll [] l.text).2.style)] 0
    rw [outlineAt, if_neg hin, if_pos (by omega), ← Nat.add_zero (textOf _).size, hend,
      (final_outline incoming l.text).1]
    rfl

/-- The outline of lines at a byte of a line or at its terminator. -/
theorem outlineAt_split (incoming : LineState) (pre : Lines) (l : Line) (post : Lines) {i : Nat}
    (hi : i ≤ l.size) :
    outlineAt incoming (pre ++ l :: post) (width pre + i) =
      styleOfByte (lineCells (.ofState (leave incoming pre)) l.text) i := by
  rw [outlineAt_append, if_neg (by omega), Nat.add_sub_cancel_left, outlineAt_cons _ _ hi]

/-! ## Redacted lines -/

/-- The lines with their comments and strings redacted. -/
def redacted (incoming : LineState) : Lines → List (List (Char × Style))
  | [] => []
  | l :: ls =>
    redact ((Mode.ofState incoming).readAll [] l.text).1 ::
      redacted (outline incoming l.text).endState ls

section
variable {incoming incoming' : LineState} {ls ls' : Lines}

theorem redacted_append (incoming : LineState) (pre ls : Lines) :
    redacted incoming (pre ++ ls) =
      redacted incoming pre ++ redacted (leave incoming pre) ls := by
  induction pre generalizing incoming with
  | nil => rfl
  | cons l pre ih => rw [List.cons_append, redacted, redacted, ih, leave]; rfl

theorem redacted_congr (h : ls.map Line.text = ls'.map Line.text) :
    redacted incoming ls = redacted incoming ls' := by
  induction ls generalizing incoming ls' with
  | nil =>
    cases ls' with
    | nil => rfl
    | cons => cases h
  | cons l ls ih =>
    cases ls' with
    | nil => cases h
    | cons l' ls' =>
      obtain ⟨hl, hls⟩ := List.cons.inj h
      rw [redacted, redacted, ih hls, hl]

theorem length_redacted (incoming : LineState) (ls : Lines) :
    (redacted incoming ls).length = ls.length := by
  induction ls generalizing incoming with
  | nil => rfl
  | cons l ls ih => rw [redacted, List.length_cons, List.length_cons, ih]

theorem width_of_redacted (h : redacted incoming ls = redacted incoming' ls') :
    width ls = width ls' := by
  induction ls generalizing incoming incoming' ls' with
  | nil =>
    cases ls' with
    | nil => rfl
    | cons => cases h
  | cons l ls ih =>
    cases ls' with
    | nil => cases h
    | cons l' ls' =>
      obtain ⟨hl, hls⟩ := List.cons.inj h
      rw [width_cons, width_cons, ih hls, l.size_eq, l'.size_eq, size_of_redact_eq hl]

theorem size_of_map_size (h : ls.map Line.size = ls'.map Line.size) : size ls = size ls' := by
  induction ls generalizing ls' with
  | nil => rw [List.map_eq_nil_iff.1 h.symm]
  | cons l ls ih =>
    cases ls' with
    | nil => cases h
    | cons l' ls' =>
      obtain ⟨hl, hls⟩ := List.cons.inj h
      by_cases hnil : ls = []
      · subst hnil
        rw [List.map_eq_nil_iff.1 hls.symm]
        exact hl
      · have hnil' : ls' ≠ [] := by
          rintro rfl
          exact hnil (List.map_eq_nil_iff.1 hls)
        rw [size_cons hnil, size_cons hnil', hl, ih hls]

/-- A line with those around it stands in all lines that are redacted to the same. -/
theorem exists_split_of_redacted {pre post : Lines} {l : Line}
    (h : redacted incoming (pre ++ l :: post) = redacted incoming' ls') :
    ∃ pre' l' post', ls' = pre' ++ l' :: post' ∧ width pre' = width pre ∧
      (pre' = [] ↔ pre = []) ∧ (post' = [] ↔ post = []) ∧
      redact ((Mode.ofState (leave incoming pre)).readAll [] l.text).1 =
        redact ((Mode.ofState (leave incoming' pre')).readAll [] l'.text).1 := by
  have hlen : pre.length < ls'.length := by
    have hlen := congrArg List.length h
    rw [length_redacted, length_redacted, List.length_append, List.length_cons] at hlen
    omega
  obtain ⟨pre', l', post', rfl, hpre⟩ := exists_split_at hlen
  rw [redacted_append, redacted_append] at h
  obtain ⟨hbefore, hrest⟩ := List.append_inj h (by rw [length_redacted, length_redacted, hpre])
  obtain ⟨hline, hafter⟩ := List.cons.inj hrest
  have hpost := congrArg List.length hafter
  rw [length_redacted, length_redacted] at hpost
  refine ⟨pre', l', post', rfl, (width_of_redacted hbefore).symm, ?_, ?_, hline⟩
  · rw [← List.length_eq_zero_iff, ← List.length_eq_zero_iff, hpre]
  · rw [← List.length_eq_zero_iff, ← List.length_eq_zero_iff, hpost]

/-- The bytes of a line, and those behind its terminator. -/
theorem getElem?_bytes_text (l : Line) (ls : Lines) (i : Nat) :
    (i < l.size → (text (l :: ls)).bytes[i]? = l.text.bytes[i]?) ∧
      (ls ≠ [] → (text (l :: ls)).bytes[l.size + 1 + i]? = (text ls).bytes[i]?) := by
  have hsize := l.size_eq
  have hlen := Text.length_bytes l.text
  cases ls with
  | nil => exact ⟨fun _ => rfl, fun h => absurd rfl h⟩
  | cons m ls =>
    have htext : text (l :: m :: ls) = l.text ++ '\n' :: text (m :: ls) := rfl
    rw [htext, Text.bytes_append, Text.bytes_cons]
    refine ⟨fun hi => List.getElem?_append_left (by omega), fun _ => ?_⟩
    rw [List.getElem?_append_right (by omega), show l.size + 1 + i - l.text.bytes.length = i + 1
      by omega]
    rfl

/-- Lines of the same sizes with the same outline and the same bytes in code are redacted to the
same. -/
theorem redacted_eq (hsizes : ls.map Line.size = ls'.map Line.size)
    (houtline : ∀ offset < size ls, outlineAt incoming ls offset = outlineAt incoming' ls' offset)
    (hbytes : ∀ offset < size ls, (outlineAt incoming ls offset).isInert = false →
      (text ls).bytes[offset]? = (text ls').bytes[offset]?) :
    redacted incoming ls = redacted incoming' ls' := by
  induction ls generalizing incoming incoming' ls' with
  | nil =>
    cases ls' with
    | nil => rfl
    | cons => cases hsizes
  | cons l ls ih =>
    cases ls' with
    | nil => cases hsizes
    | cons l' ls' =>
      obtain ⟨hl, hls⟩ := List.cons.inj hsizes
      have hsize := l.size_eq
      have hsize' := l'.size_eq
      have hle := @size_le_size_cons l ls
      have hne : ls ≠ [] → ls' ≠ [] := by
        rintro hne rfl
        exact hne (List.map_eq_nil_iff.1 hls)
      rw [redacted, redacted]
      congr 1
      · refine redact_eq ?_ (fun i hi => ?_) fun i hi hcode => ?_
        · rw [Mode.textOf_readAll, Mode.textOf_readAll]
          omega
        · rw [Mode.textOf_readAll] at hi
          have hi' := houtline i (by omega)
          rwa [outlineAt_first _ _ (by omega), outlineAt_first _ _ (by omega)] at hi'
        · rw [Mode.textOf_readAll] at hi
          have hi' := hbytes i (by omega)
          rw [outlineAt_first _ _ (by omega)] at hi'
          rw [Mode.textOf_readAll, Mode.textOf_readAll,
            ← (getElem?_bytes_text l ls i).1 (by omega),
            ← (getElem?_bytes_text l' ls' i).1 (by omega)]
          exact hi' hcode
      · by_cases hnil : ls = []
        · subst hnil
          rw [List.map_eq_nil_iff.1 hls.symm]
          rfl
        · have hwidth := @size_cons l ls hnil
          refine ih hls (fun i hi => ?_) fun i hi hcode => ?_
          · rw [← outlineAt_behind, ← outlineAt_behind, ← hl]
            exact houtline _ (by omega)
          · rw [← (getElem?_bytes_text l ls i).2 hnil,
              ← (getElem?_bytes_text l' ls' i).2 (hne hnil), ← hl]
            exact hbytes _ (by omega) (by rwa [outlineAt_behind])

/-! ## Runs over redacted lines -/

section
variable (env : Surroundings) (line : Nat) (k : Knowledge)

/-- Lines that are redacted to the same tell the same. -/
theorem knowledge_styled_of_redacted (h : redacted incoming ls = redacted incoming' ls') :
    (styled id env line incoming k ls.length ls).2.1 =
      (styled id env line incoming' k ls'.length ls').2.1 := by
  induction ls generalizing incoming incoming' line k ls' with
  | nil =>
    cases ls' with
    | nil => rfl
    | cons => cases h
  | cons l ls ih =>
    cases ls' with
    | nil => cases h
    | cons l' ls' =>
      obtain ⟨hl, hls⟩ := List.cons.inj h
      rw [← endState_eq_outline env l.text line incoming k,
        ← endState_eq_outline env l'.text line incoming' k] at hls
      have ih := ih (line + 1) (styleLine env l.text 0 line incoming k).2 hls
      rw [(styleLine_of_redact_eq env line hl k).1] at ih
      rw [List.length_cons, List.length_cons, styled, styled, Line.styled, Line.styled]
      dsimp only [id]
      rw [(styleLine_of_redact_eq env line hl k).1]
      exact ih

/-- Lines that are redacted to the same have the same styles, except at terminators that are part of
different comments or strings. -/
theorem styleOf_of_redacted (h : redacted incoming ls = redacted incoming' ls') {offset : Nat}
    (houtline : outlineAt incoming ls offset = outlineAt incoming' ls' offset) :
    styleOf id env line incoming k ls offset = styleOf id env line incoming' k ls' offset := by
  induction ls generalizing incoming incoming' line k ls' offset with
  | nil =>
    cases ls' with
    | nil => rfl
    | cons => cases h
  | cons l ls ih =>
    cases ls' with
    | nil => cases h
    | cons l' ls' =>
      obtain ⟨hl, hls⟩ := List.cons.inj h
      obtain ⟨hknowledge, hstyle⟩ := styleLine_of_redact_eq env line hl k
      have hsize : l.size = l'.size := by rw [l.size_eq, l'.size_eq, size_of_redact_eq hl]
      rw [outlineAt, outlineAt] at houtline
      rw [styleOf_cons, styleOf_cons]
      dsimp only
      rw [trailing_eq_outline, trailing_eq_outline, endState_eq_outline, endState_eq_outline,
        ← hknowledge, ← hsize]
      rw [← hsize] at houtline
      by_cases hin : offset < l.size
      · rw [if_pos hin, if_pos hin]
        exact hstyle offset (by rw [← l.size_eq]; exact hin)
      rw [if_neg hin, if_neg hin] at houtline ⊢
      by_cases hend : offset = l.size
      · rw [if_pos hend, if_pos hend] at houtline ⊢
        exact houtline
      · rw [if_neg hend, if_neg hend] at houtline ⊢
        exact ih _ _ hls houtline

end

end

end Lines

end Papyrus

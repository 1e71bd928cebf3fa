import Papyrus.Proofs.LineWrite
/-!
# Styles as one array

Styles are kept line by line: a line has one for each of its bytes and one for its terminator. An
offset leads to the last line that starts there or before it. A painting begins at the line of its
first offset, ends before the first line that starts at its end or behind it, and paints of each
line on the way what of the range falls into that line. For the document as a whole this is one
array with a slot for each offset up to its size: a painting writes the slots of its range and no
other one.

Results:
* `getElem?_paint`: which lines a painting changes, and which part of each.
* `styleAt_painted`: every slot after a painting.
* `styleAt_paintAll`: after many paintings, the last one that covers an offset counts.
-/
namespace Papyrus

theorem Line.styleAt_of_size_lt {l : Line} {i : Nat} (h : l.size < i) : l.styleAt i = .default := by
  have hsize : l.styles.size = l.size + 1 := by rw [l.size_styles, l.size_eq]
  rw [styleAt, Array.getElem?_eq_none (by omega)]
  rfl

namespace Lines

/-- The style at an offset is the style of a byte of its line. -/
theorem styleAt_eq_lineAt (ls : Lines) (offset : Nat) :
    styleAt ls offset = (ls[lineAt ls offset]?).elim .default
      (·.styleAt (offset - lineStart ls (lineAt ls offset))) := by
  induction ls generalizing offset with
  | nil => rfl
  | cons l ls ih =>
    rw [styleAt]
    by_cases hls : ls = []
    · subst hls
      split
      · rfl
      · next hin => exact (Line.styleAt_of_size_lt (Nat.lt_of_not_le hin)).symm
    · rw [lineAt_cons hls]
      split
      · cases ls with
        | nil => contradiction
        | cons => rfl
      · rw [List.getElem?_cons_succ, lineStart_cons hls, ih, Nat.sub_sub]

/-! ## Painting line by line -/

/-- A painting begins at the line of its first offset and ends before the first line that starts at
its end or behind it. Of each line on the way, it paints what of the range falls into the line. -/
theorem getElem?_paint (ls : Lines) (start stop : Nat) (s : Style) (i : Nat) :
    (paint ls start stop s)[i]? = ls[i]?.map fun l =>
      if lineAt ls start ≤ i ∧ lineStart ls i < stop then
        l.paint (start - lineStart ls i) (stop - lineStart ls i) s
      else l := by
  induction ls generalizing start stop i with
  | nil => rfl
  | cons l ls ih =>
    rw [paint]
    by_cases hstop : stop = 0
    · have hnone : ∀ m : Line, (if lineAt (l :: ls) start ≤ i ∧ lineStart (l :: ls) i < stop then
          m.paint (start - lineStart (l :: ls) i) (stop - lineStart (l :: ls) i) s else m) = m :=
        fun m => if_neg (by omega)
      simp only [if_pos hstop, hnone, Option.map_id']
    · rw [if_neg hstop]
      cases i with
      | zero =>
        rw [List.getElem?_cons_zero, List.getElem?_cons_zero, Option.map_some, lineStart_zero]
        by_cases hls : ls = []
        · subst hls
          rw [if_pos ⟨Nat.le_refl _, Nat.pos_of_ne_zero hstop⟩]
          rfl
        · rw [lineAt_cons hls]
          by_cases hin : start ≤ l.size
          · rw [if_pos hin, if_pos ⟨Nat.le_refl _, Nat.pos_of_ne_zero hstop⟩]
            rfl
          · rw [if_neg hin, if_neg (by omega), Line.paint_of_le (by omega)]
      | succ i =>
        rw [List.getElem?_cons_succ, List.getElem?_cons_succ, ih]
        by_cases hls : ls = []
        · subst hls
          rfl
        · have hline : (lineAt (l :: ls) start ≤ i + 1 ∧ l.size + 1 + lineStart ls i < stop) ↔
              lineAt ls (start - (l.size + 1)) ≤ i ∧ lineStart ls i < stop - (l.size + 1) := by
            rw [lineAt_cons hls]
            split
            · rw [Nat.sub_eq_zero_of_le (by omega), lineAt_zero]
              omega
            · omega
          simp only [lineStart_cons hls, hline, Nat.sub_sub]

theorem size_paint (ls : Lines) (start stop : Nat) (s : Style) :
    size (paint ls start stop s) = size ls := by
  rw [← size_text, ← size_text, text, text, map_text_paint]

/-- Every slot of some lines after a painting. -/
theorem styleAt_paint {ls : Lines} (hne : ls ≠ []) (start stop : Nat) (s : Style) {offset : Nat}
    (h : offset ≤ size ls) :
    styleAt (paint ls start stop s) offset =
      if start ≤ offset ∧ offset < stop then s else styleAt ls offset := by
  have hsizes : (paint ls start stop s).map Line.size = ls.map Line.size :=
    map_size_of_text (map_text_paint ls start stop s)
  obtain ⟨pre, l, post, hls, hlength, hlo, hhi⟩ := exists_split_of_le hne h
  have hline : ls[lineAt ls offset]? = some l := by
    rw [← hlength, hls]
    simp
  have hstart : lineStart ls (lineAt ls offset) = width pre := by
    rw [← hlength, hls, lineStart_split]
  rw [styleAt_eq_lineAt, styleAt_eq_lineAt ls, lineAt_congr hsizes, lineStart_congr hsizes,
    getElem?_paint, hline, hstart]
  simp only [Option.map_some, Option.elim_some]
  by_cases hvisited : lineAt ls start ≤ lineAt ls offset ∧ width pre < stop
  · have hrange : (start - width pre ≤ offset - width pre ∧ offset - width pre < stop - width pre ∧
        offset - width pre ≤ l.size) ↔ start ≤ offset ∧ offset < stop := by omega
    simp only [if_pos hvisited, Line.styleAt_paint, hrange]
  · -- a line that the painting does not visit holds no offset of the range
    have hout : ¬(start ≤ offset ∧ offset < stop) := by
      rintro ⟨hfrom, hto⟩
      have hbefore := le_lineAt (lineAt_lt_length hne start)
        (Nat.le_trans (lineStart_lineAt_le ls start) hfrom)
      exact hvisited ⟨hbefore, Nat.lt_of_le_of_lt hlo hto⟩
    rw [if_neg hvisited, if_neg hout]

/-- Behind the terminator of the last line there are no slots. -/
theorem styleAt_of_size_lt {ls : Lines} {offset : Nat} (h : size ls < offset) :
    styleAt ls offset = .default := by
  induction ls generalizing offset with
  | nil => rfl
  | cons l ls ih =>
    have hle := @size_le_size_cons l ls
    rw [styleAt, if_neg (by omega)]
    by_cases hls : ls = []
    · subst hls
      rfl
    · rw [size_cons hls] at h
      exact ih (by omega)

end Lines

namespace Document

theorem size_paint (d : Document) (start stop : Nat) (s : Style) :
    (d.paint start stop s).size = d.size :=
  Lines.size_paint d.lines start stop s

/-- A painting writes the slots of its range, terminators and the one behind the last line included,
and leaves all others as they are. Behind the document everything is in plain text. Each line keeps
its text, and one slot for each of its bytes and one more. -/
theorem styleAt_painted (d : Document) (start stop : Nat) (s : Style) :
    (∀ offset ≤ d.size, (d.paint start stop s).styleAt offset =
      if start ≤ offset ∧ offset < stop then s else d.styleAt offset) ∧
    (∀ offset, d.size < offset →
      d.styleAt offset = .default ∧ (d.paint start stop s).styleAt offset = .default) ∧
    (d.paint start stop s).lines.map (fun l => (l.text, l.styles.size)) =
      d.lines.map fun l => (l.text, l.text.size + 1) := by
  refine ⟨fun offset h => Lines.styleAt_paint d.lines_ne_nil start stop s h, fun offset h => ?_, ?_⟩
  · refine ⟨Lines.styleAt_of_size_lt h, Lines.styleAt_of_size_lt ?_⟩
    exact (Lines.size_paint d.lines start stop s).symm ▸ h
  · have htexts := congrArg (List.map fun t => (t, Text.size t + 1))
      (Lines.map_text_paint d.lines start stop s)
    simp only [List.map_map] at htexts
    refine .trans (List.map_congr_left fun l _ => ?_) htexts
    rw [l.size_styles]
    rfl

/-- A painting from a terminator over an empty line and beyond the document. -/
theorem styleAt_painted_terminator :
    let d := (ofText "lines" "ab\n\ncd".toList).paint 0 3 .keyword
    (1 ≤ d.size ∧ 6 ≤ d.size ∧ d.size < 7) ∧ (d.paint 2 9 .string).styleAt 1 = .keyword ∧
      (d.paint 2 9 .string).styleAt 2 = .string ∧ (d.paint 2 9 .string).styleAt 3 = .string ∧
      (d.paint 2 9 .string).styleAt 6 = .string ∧ (d.paint 2 9 .string).styleAt 7 = .default := by
  intro d
  obtain ⟨hinside, hbehind, -⟩ := styleAt_painted d 2 9 .string
  obtain ⟨hsize, hstyle⟩ : d.size = 6 ∧ d.styleAt 1 = .keyword := by decide +kernel
  rw [hsize] at hinside ⊢
  refine ⟨by decide, ?_, hinside 2 (by decide), hinside 3 (by decide), hinside 6 (by decide),
    (hbehind 7 (by omega)).2⟩
  rw [hinside 1 (by decide), hstyle]
  rfl

/-- After many paintings, an offset has the style of the last one that covers it. -/
theorem styleAt_paintAll (d : Document) (spans : List StyledSpan) {offset : Nat}
    (h : offset ≤ d.size) :
    (spans.foldl (fun d s => d.paint s.start s.stop s.style) d).styleAt offset =
      ((spans.reverse.find? fun s => s.start ≤ offset && offset < s.stop).map (·.style)).getD
        (d.styleAt offset) := by
  induction spans generalizing d with
  | nil => rfl
  | cons s spans ih =>
    have hslot : (d.paint s.start s.stop s.style).styleAt offset =
        if s.start ≤ offset ∧ offset < s.stop then s.style else d.styleAt offset :=
      Lines.styleAt_paint d.lines_ne_nil s.start s.stop s.style h
    rw [List.foldl_cons, ih _ (by rwa [size_paint]), List.reverse_cons, List.find?_append, hslot]
    cases spans.reverse.find? fun s => s.start ≤ offset && offset < s.stop with
    | some t => rfl
    | none =>
      by_cases hin : s.start ≤ offset ∧ offset < s.stop
      · simp [hin]
      · rw [if_neg hin, List.find?_cons_of_neg (by simpa using hin)]
        rfl

end Document

end Papyrus

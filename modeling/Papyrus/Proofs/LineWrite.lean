import Papyrus.Lexer.Basic
import Papyrus.Proofs.LineOffset
import Papyrus.Proofs.Tiling
/-!
# Writing the styles of a line

The styles of a line are written span by span, at offsets into the document. Since the spans stay
between the ends of the line, and the terminator is one byte behind it, this paints the line itself
(`Line.restyle`) and leaves all other lines alone.

Results:
* `styleAt_restyle`: the style of each byte of a line after styling.
* `writeStyles_split`: what is written into a document is written into one line.
* `restyleLine_eq`: styling a line changes that line only.
-/
namespace Papyrus

open StyledSpan (Tiles styleIn)

/-! ## Painting the spans of a line -/

/-- Gives a line that starts at offset `start` the styles of what was read of it, which are `read`
bytes. The rest is in plain text. The terminator keeps its style unless a line follows. -/
def Line.restyle (l : Line) (styles : LineStyles) (start read : Nat) (followed : Bool) : Line :=
  let plain := l.paint read l.size .default
  let styled := styles.spans.foldl
    (fun l s => l.paint (s.start - start) (s.stop - start) s.style) plain
  if followed then styled.paint l.size (l.size + 1) styles.trailing else styled

namespace Line

variable (l : Line) (styles : LineStyles) (start read : Nat)

/-- What painting keeps of a line is kept while its spans are painted. -/
theorem foldl_paint_keeps {α : Type} {f : Line → α}
    (hf : ∀ (l : Line) (start stop : Nat) (s : Style), f (l.paint start stop s) = f l)
    (spans : List StyledSpan) :
    f (spans.foldl (fun l s => l.paint (s.start - start) (s.stop - start) s.style) l) = f l := by
  induction spans generalizing l with
  | nil => rfl
  | cons s spans ih => rw [List.foldl_cons, ih, hf]

theorem restyle_keeps {α : Type} {f : Line → α}
    (hf : ∀ (l : Line) (start stop : Nat) (s : Style), f (l.paint start stop s) = f l)
    (followed : Bool) : f (l.restyle styles start read followed) = f l := by
  unfold restyle
  split <;> simp only [hf, foldl_paint_keeps _ _ hf]

theorem text_restyle (followed : Bool) :
    (l.restyle styles start read followed).text = l.text :=
  l.restyle_keeps styles start read text_paint followed

theorem fold_restyle (followed : Bool) :
    (l.restyle styles start read followed).fold = l.fold :=
  l.restyle_keeps styles start read (fun _ _ _ _ => rfl) followed

theorem size_restyle (followed : Bool) :
    (l.restyle styles start read followed).size = l.size :=
  l.restyle_keeps styles start read size_paint followed

/-- A range without bytes of the line is not painted. -/
theorem paint_of_le {l : Line} {start stop : Nat} (h : min stop (l.size + 1) ≤ start) (s : Style) :
    l.paint start stop s = l := by
  have hsize : l.styles.size = l.size + 1 := by rw [l.size_styles, l.size_eq]
  have hcount : min stop l.styles.size - start = 0 := by omega
  unfold paint
  simp only [hcount]
  rfl

/-- The terminator of a line that has another one behind it. -/
theorem styleAt_restyle_size :
    (l.restyle styles start read true).styleAt l.size = styles.trailing := by
  have hsize := l.size_restyle styles start read false
  rw [restyle, if_neg Bool.false_ne_true] at hsize
  rw [restyle, if_pos rfl, styleAt_paint, hsize, if_pos (by omega)]

theorem styleAt_foldl_paint {l : Line} {start lo hi : Nat} {spans : List StyledSpan}
    (h : Tiles (start + lo) spans (start + hi)) (hhi : hi ≤ l.size) (i : Nat) :
    (spans.foldl (fun l s => l.paint (s.start - start) (s.stop - start) s.style) l).styleAt i =
      if lo ≤ i ∧ i < hi then styleIn spans (start + i) else l.styleAt i := by
  induction spans generalizing l lo with
  | nil =>
    have : start + lo = start + hi := h
    rw [if_neg (by omega)]
    rfl
  | cons s rest ih =>
    obtain ⟨hstart, hpos, h⟩ := h
    have hle := h.le
    obtain ⟨stop, hs⟩ : ∃ stop, s.stop = start + stop := ⟨s.stop - start, by omega⟩
    rw [hs] at h
    rw [List.foldl_cons, ih h (by simpa using hhi), styleAt_paint, StyledSpan.styleIn_cons]
    by_cases hin : s.start ≤ start + i ∧ start + i < s.stop
    · rw [if_neg (by omega), if_pos (by omega), if_pos (by omega), if_pos hin]
    · by_cases hrest : stop ≤ i ∧ i < hi
      · rw [if_pos hrest, if_pos (by omega), if_neg hin]
      · rw [if_neg hrest, if_neg (by omega), if_neg (by omega)]

/-- The style of each byte of a line after styling: that of its span if the byte was read, plain
text if it was not, and for the terminator the trailing style if a line follows. -/
theorem styleAt_restyle {styles : LineStyles} {start read : Nat} {followed : Bool}
    (h : Tiles start styles.spans (start + read)) (hread : read ≤ l.size) (i : Nat) :
    (l.restyle styles start read followed).styleAt i =
      if i < read then styleIn styles.spans (start + i)
      else if i < l.size then .default
      else if i = l.size ∧ followed = true then styles.trailing
      else l.styleAt i := by
  have hsize := foldl_paint_keeps (l.paint read l.size .default) start size_paint styles.spans
  rw [size_paint] at hsize
  have hspans := @styleAt_foldl_paint (l.paint read l.size .default) start 0 read styles.spans h
    (by rw [size_paint]; exact hread) i
  rw [styleAt_paint] at hspans
  cases followed with
  | false =>
    rw [restyle, if_neg Bool.false_ne_true, hspans]
    grind
  | true =>
    rw [restyle, if_pos rfl, styleAt_paint, hsize, hspans]
    grind

end Line

/-! ## Painting a line in place -/

/-- Painting between the start of a line and its terminator paints that line. -/
theorem Lines.paint_split (pre : Lines) (l : Line) (post : Lines) (start : Nat) {stop : Nat}
    (h : stop ≤ l.size + 1) (s : Style) :
    paint (pre ++ l :: post) (width pre + start) (width pre + stop) s =
      pre ++ l.paint start stop s :: post := by
  induction pre with
  | nil =>
    have hpost : ∀ start, paint post start 0 s = post := by
      intro start
      cases post <;> rfl
    simp only [List.nil_append, width_nil, Nat.zero_add]
    by_cases hstop : stop = 0
    · rw [paint, if_pos hstop, Line.paint_of_le (by omega)]
    · rw [paint, if_neg hstop, Nat.sub_eq_zero_of_le h, hpost]
  | cons p pre ih =>
    rw [List.cons_append, List.cons_append, width_cons, paint, if_neg (by omega),
      Line.paint_of_le (by omega), Nat.add_assoc _ _ start, Nat.add_assoc _ _ stop,
      Nat.add_sub_cancel_left, Nat.add_sub_cancel_left, ih]

namespace Document

theorem paint_eq (d : Document) (start stop : Nat) (s : Style) :
    d.paint start stop s = d.withLines (d.lines.paint start stop s) := by
  rw [withLines_eq]
  rfl

section
variable {d : Document} {pre post : Lines} {l : Line}

theorem paint_split (h : d.lines = pre ++ l :: post) (start : Nat) {stop : Nat}
    (hstop : stop ≤ l.size + 1) (s : Style) :
    d.paint (Lines.width pre + start) (Lines.width pre + stop) s =
      d.withLines (pre ++ l.paint start stop s :: post) := by
  rw [paint_eq, h, Lines.paint_split pre l post start hstop]

/-- Spans that tile a part of a line are painted in that line. -/
theorem foldl_paint_split (h : d.lines = pre ++ l :: post) {lo hi : Nat}
    {spans : List StyledSpan} (htiles : Tiles (Lines.width pre + lo) spans (Lines.width pre + hi))
    (hhi : hi ≤ l.size) :
    spans.foldl (fun d s => d.paint s.start s.stop s.style) d =
      d.withLines (pre ++ spans.foldl (fun l s => l.paint (s.start - Lines.width pre)
        (s.stop - Lines.width pre) s.style) l :: post) := by
  induction spans generalizing d l lo with
  | nil => exact (h ▸ d.withLines_lines).symm
  | cons s spans ih =>
    obtain ⟨hstart, hpos, htiles⟩ := htiles
    have hstop := htiles.le
    obtain ⟨stop, hs⟩ : ∃ stop, s.stop = Lines.width pre + stop :=
      ⟨s.stop - Lines.width pre, by omega⟩
    rw [hs] at htiles
    have hpaint := paint_split h lo (by omega : stop ≤ l.size + 1) s.style
    have hlines := lines_withLines (d := d)
      (Lines.append_cons_ne_nil pre (l.paint lo stop s.style) post)
    rw [List.foldl_cons, List.foldl_cons, hstart, hs, hpaint, Nat.add_sub_cancel_left,
      Nat.add_sub_cancel_left, ih hlines htiles (by simpa using hhi), withLines_withLines]

/-- The styles of a line are written into that line. -/
theorem writeStyles_split (h : d.lines = pre ++ l :: post) {styles : LineStyles} {read : Nat}
    (htiles : Tiles (Lines.width pre) styles.spans (Lines.width pre + read))
    (hread : read ≤ l.size) (followed : Bool) :
    d.writeStyles styles (Lines.width pre) read (Lines.width pre + l.size) followed =
      d.withLines (pre ++ l.restyle styles (Lines.width pre) read followed :: post) := by
  have hplain : (if Lines.width pre + read < Lines.width pre + l.size then
        d.paint (Lines.width pre + read) (Lines.width pre + l.size) .default else d) =
      d.withLines (pre ++ l.paint read l.size .default :: post) := by
    by_cases hlt : read < l.size
    · rw [if_pos (by omega), paint_split h read (Nat.le_succ l.size)]
    · rw [if_neg (by omega), Line.paint_of_le (by omega), ← h, withLines_lines]
  have hlines := lines_withLines (d := d)
    (Lines.append_cons_ne_nil pre (l.paint read l.size .default) post)
  have hspans := @foldl_paint_split _ pre post _ hlines 0 read styles.spans htiles
    (by simpa using hread)
  rw [withLines_withLines] at hspans
  rw [writeStyles, hplain, hspans, Line.restyle]
  cases followed with
  | false => rfl
  | true =>
    have hlines := lines_withLines (d := d) (Lines.append_cons_ne_nil pre
      (styles.spans.foldl (fun l s => l.paint (s.start - Lines.width pre)
        (s.stop - Lines.width pre) s.style) (l.paint read l.size .default)) post)
    have hsize : (styles.spans.foldl (fun l s => l.paint (s.start - Lines.width pre)
        (s.stop - Lines.width pre) s.style) (l.paint read l.size .default)).size = l.size := by
      rw [Line.foldl_paint_keeps _ _ Line.size_paint, Line.size_paint]
    have hpaint := paint_split hlines l.size (Nat.le_refl _) styles.trailing
    rw [withLines_withLines, hsize] at hpaint
    exact hpaint

end

/-- Styling a line changes that line only. -/
theorem restyleLine_eq (d : Document) (env : Surroundings) (line : Nat) (incoming : LineState)
    (k : Knowledge) :
    d.restyleLine env line incoming k =
      let start := d.lineStart line
      let text := d.read start (d.lineEnd line)
      let r := styleLine env text start line incoming k
      (r.1.endState, r.2, d.modifyLine line
        (·.restyle r.1 start text.size (decide (line + 1 < d.lineCount)))) := by
  by_cases h : line < d.lineCount
  · obtain ⟨pre, l, post, hsplit, rfl⟩ := Lines.exists_split_at h
    have hstart : d.lineStart pre.length = Lines.width pre := by
      rw [lineStart, hsplit, Lines.lineStart_split]
    have hend : d.lineEnd pre.length = Lines.width pre + l.size := by
      rw [lineEnd, hsplit, Lines.lineEnd_split]
    have hread : Text.size (d.read (d.lineStart pre.length) (d.lineEnd pre.length)) ≤ l.size := by
      rw [read_line hsplit, l.size_eq]
      exact d.size_cut_le l.text
    rw [hstart, hend] at hread
    dsimp only [restyleLine]
    rw [hstart, hend, modifyLine_split hsplit,
      writeStyles_split hsplit (tiles_styleLine _ _ _ _ _ _) hread]
  · have hlen : d.lineCount ≤ line := Nat.le_of_not_lt h
    have hlast : decide (line + 1 < d.lineCount) = false := decide_eq_false (by omega)
    have hsame : ∀ f : Line → Line, d.modifyLine line f = d := by
      intro f
      simp only [modifyLine, List.modify_eq_self hlen]
    have hstart : d.lineEnd line = d.lineStart line := by
      rw [lineStart, lineEnd, Lines.lineStart_of_length_le hlen, Lines.lineEnd_of_length_le hlen]
    dsimp only [restyleLine]
    rw [read_of_lineCount_le hlen, hlast, hsame, hstart]
    simp [writeStyles, styleLine, styleTokens, Token.scan, gap]

end Document

end Papyrus

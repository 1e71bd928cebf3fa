import Papyrus.Proofs.CaretWord
import Papyrus.Proofs.LineRun
/-!
# What styling writes

A run enters its first line in a given state, and each line after it in the state that the line
before has left (`Document.entered`). What it makes of a document can then be written down at once
(`Document.writtenLines`): the lines of the run have the styles of what is read of them, and all
other lines are as they were.

Results:
* `restyleRun_eq`: a run in closed form.
* `restyle_writes_lines`: styling writes the lines it is asked for and nothing else.
-/
namespace Papyrus

open StyledSpan (Tiles styleIn)

/-! ## Documents with the same texts -/

namespace Document

/-- What is read of a line. -/
def readLine (d : Document) (line : Nat) : Text := d.read (d.lineStart line) (d.lineEnd line)

section
variable (d : Document) {lines : Lines} (h : lines.map Line.text = d.lines.map Line.text)
include h

theorem ne_nil_of_map_text : lines ≠ [] := by
  rintro rfl
  exact d.lines_ne_nil (List.map_eq_nil_iff.1 h.symm)

theorem lineCount_withLines_of_text : (d.withLines lines).lineCount = d.lineCount := by
  rw [lineCount, lines_withLines (d.ne_nil_of_map_text h), ← List.length_map Line.text, h,
    List.length_map, lineCount]

theorem lineStart_withLines (line : Nat) :
    (d.withLines lines).lineStart line = d.lineStart line := by
  rw [lineStart, lines_withLines (d.ne_nil_of_map_text h),
    Lines.lineStart_congr (Lines.map_size_of_text h), lineStart]

theorem lineEnd_withLines (line : Nat) : (d.withLines lines).lineEnd line = d.lineEnd line := by
  rw [lineEnd, lines_withLines (d.ne_nil_of_map_text h),
    Lines.lineEnd_congr (Lines.map_size_of_text h), lineEnd]

theorem readLine_withLines (line : Nat) : (d.withLines lines).readLine line = d.readLine line := by
  have hslice : ∀ start stop, (d.withLines lines).slice start stop = d.slice start stop := by
    intro start stop
    have htext : (d.withLines lines).text = d.text := by
      rw [text, lines_withLines (d.ne_nil_of_map_text h), Lines.text, h, text, Lines.text]
    have hsize : (d.withLines lines).size = d.size := by rw [← size_text, htext, size_text]
    rw [slice, slice, Lines.slice_eq, Lines.slice_eq, ← text, ← text, htext, hsize]
  have hlimit : (d.withLines lines).readLimit = d.readLimit := by
    cases lines <;> rfl
  rw [readLine, readLine, d.lineStart_withLines h, d.lineEnd_withLines h, read, read, hslice, hlimit]

end

theorem modifyLine_withLines {d : Document} {lines : Lines} (h : lines ≠ []) (line : Nat)
    (f : Line → Line) :
    (d.withLines lines).modifyLine line f = d.withLines (lines.modify line f) := by
  have hne : lines.modify line f ≠ [] := by
    rwa [Ne, ← List.length_eq_zero_iff, List.length_modify, List.length_eq_zero_iff]
  rw [withLines_eq h, withLines_eq hne]
  rfl

/-! ## A run in closed form -/

section
variable (d : Document) (env : Surroundings) (first : Nat) (incoming : LineState) (k : Knowledge)

/-- The state and the knowledge with which a run that starts at line `first` enters the line
`n` lines further down. -/
def entered : Nat → LineState × Knowledge
  | 0 => (incoming, k)
  | n + 1 =>
    let (state, k) := entered n
    let line := first + n
    let (styles, k) := styleLine env (d.readLine line) (d.lineStart line) line state k
    (styles.endState, k)

/-- The styles that such a run gives to a line. -/
def lineStyles (line : Nat) : LineStyles :=
  let (state, k) := d.entered env first incoming k (line - first)
  (styleLine env (d.readLine line) (d.lineStart line) line state k).1

/-- A line with the styles that such a run gives to it. -/
def writtenLine (line : Nat) (l : Line) : Line :=
  l.restyle (d.lineStyles env first incoming k line) (d.lineStart line)
    (Text.size (d.readLine line)) (decide (line + 1 < d.lineCount))

/-- The lines after a run over `count` of them. -/
def writtenLines (count : Nat) : Lines :=
  d.lines.mapIdx fun line l =>
    if first ≤ line ∧ line < first + count then d.writtenLine env first incoming k line l else l

variable (count : Nat)

/-- What styling keeps of a line, a run keeps of all lines. -/
theorem map_writtenLines {α : Type} {f : Line → α}
    (hf : ∀ (l : Line) (styles : LineStyles) (start read : Nat) (followed : Bool),
      f (l.restyle styles start read followed) = f l) :
    (d.writtenLines env first incoming k count).map f = d.lines.map f := by
  refine List.ext_getElem? fun i => ?_
  rw [writtenLines, List.getElem?_map, List.getElem?_map, List.getElem?_mapIdx]
  cases d.lines[i]? with
  | none => rfl
  | some l =>
    simp only [Option.map_some, Option.some.injEq]
    split
    · exact hf l _ _ _ _
    · rfl

theorem map_text_writtenLines :
    (d.writtenLines env first incoming k count).map Line.text = d.lines.map Line.text :=
  d.map_writtenLines env first incoming k count Line.text_restyle

/-- A run that is one line longer writes that line too. -/
theorem writtenLines_succ :
    d.writtenLines env first incoming k (count + 1) =
      (d.writtenLines env first incoming k count).modify (first + count)
        (d.writtenLine env first incoming k (first + count)) := by
  refine List.ext_getElem? fun i => ?_
  rw [writtenLines, writtenLines, List.getElem?_modify, List.getElem?_mapIdx, List.getElem?_mapIdx]
  cases d.lines[i]? with
  | none => simp only [Option.map_none, Option.map_eq_map]
  | some l =>
    by_cases hi : first + count = i
    · subst hi
      have hin : first ≤ first + count ∧ first + count < first + (count + 1) := by omega
      simp only [Option.map_some, Option.map_eq_map, hin, Nat.lt_irrefl, and_self, and_false,
        if_true, if_false]
    · have hiff : (first ≤ i ∧ i < first + (count + 1)) ↔ (first ≤ i ∧ i < first + count) := by
        omega
      simp only [Option.map_some, hi, hiff, if_false, Option.map_eq_map]

/-- A run writes its lines, each entered as the line before has left it. -/
theorem restyleRun_eq :
    d.restyleRun env first incoming k count =
      ((d.entered env first incoming k count).1, (d.entered env first incoming k count).2,
        d.withLines (d.writtenLines env first incoming k count)) := by
  induction count with
  | zero =>
    have hnone : d.writtenLines env first incoming k 0 = d.lines := by
      refine List.ext_getElem? fun i => ?_
      have hout : ¬ (first ≤ i ∧ i < first + 0) := by omega
      rw [writtenLines, List.getElem?_mapIdx]
      simp only [hout, if_false, Option.map_id_fun', id]
    rw [hnone, withLines_lines]
    rfl
  | succ count ih =>
    have htext := d.map_text_writtenLines env first incoming k count
    have hread : (d.withLines (d.writtenLines env first incoming k count)).read
        (d.lineStart (first + count)) (d.lineEnd (first + count)) = d.readLine (first + count) := by
      rw [← d.lineStart_withLines htext, ← d.lineEnd_withLines htext]
      exact d.readLine_withLines htext (first + count)
    rw [restyleRun_add, ih]
    dsimp only [restyleRun]
    rw [restyleLine_eq]
    dsimp only
    rw [d.lineStart_withLines htext, d.lineEnd_withLines htext,
      d.lineCount_withLines_of_text htext, hread, modifyLine_withLines (d.ne_nil_of_map_text htext),
      writtenLines_succ]
    unfold writtenLine lineStyles
    rw [Nat.add_sub_cancel_left]
    rfl

end

/-! ## What stands at an offset -/

section
variable {d : Document} {line : Nat} {l : Line}

theorem lineEnd_eq (h : d.lines[line]? = some l) : d.lineEnd line = d.lineStart line + l.size := by
  obtain ⟨pre, post, hsplit, rfl⟩ := Lines.exists_split_of_getElem? h
  rw [lineEnd, lineStart, hsplit, Lines.lineEnd_split, Lines.lineStart_split]

theorem size_readLine_le (h : d.lines[line]? = some l) : Text.size (d.readLine line) ≤ l.size := by
  obtain ⟨pre, post, hsplit, rfl⟩ := Lines.exists_split_of_getElem? h
  rw [readLine, read_line hsplit, l.size_eq]
  exact d.size_cut_le l.text

/-- The style at an offset is that of a byte of the line that the offset falls into. -/
theorem styleAt_withLines {lines : Lines} (htext : lines.map Line.text = d.lines.map Line.text)
    (h : lines[line]? = some l) {i : Nat} (hi : i ≤ l.size) :
    (d.withLines lines).styleAt (d.lineStart line + i) = l.styleAt i := by
  obtain ⟨pre, post, hsplit, rfl⟩ := Lines.exists_split_of_getElem? h
  have hlines : (d.withLines lines).lines = pre ++ l :: post := by
    rw [lines_withLines (d.ne_nil_of_map_text htext), hsplit]
  rw [← d.lineStart_withLines htext, lineStart, hlines, Lines.lineStart_split,
    styleAt_line hlines hi]

end

variable (env : Surroundings) (first : Nat) (incoming : LineState) (k : Knowledge) in
/-- The spans of a line cover what is read of it. -/
theorem tiles_lineStyles (d : Document) (line : Nat) :
    Tiles (d.lineStart line) (d.lineStyles env first incoming k line).spans
      (d.lineStart line + Text.size (d.readLine line)) :=
  tiles_styleLine _ _ _ _ _ _

/-- A run over some lines leaves the state of the last of them. -/
theorem entered_succ_fst (d : Document) (env : Surroundings) (first : Nat) (incoming : LineState)
    (k : Knowledge) (n : Nat) :
    (d.entered env first incoming k (n + 1)).1 =
      (d.lineStyles env first incoming k (first + n)).endState := by
  rw [lineStyles, Nat.add_sub_cancel_left]
  rfl

/-- What a run puts at an offset. -/
theorem styleAt_writtenLines (d : Document) (env : Surroundings) (first : Nat)
    (incoming : LineState) (k : Knowledge) (count : Nat) {line offset : Nat}
    (hline : line < d.lineCount) (hstart : d.lineStart line ≤ offset)
    (hend : offset ≤ d.lineEnd line) :
    (d.withLines (d.writtenLines env first incoming k count)).styleAt offset =
      if first ≤ line ∧ line < first + count then
        if offset < d.lineStart line + Text.size (d.readLine line) then
          styleIn (d.lineStyles env first incoming k line).spans offset
        else if offset < d.lineEnd line then .default
        else if line + 1 < d.lineCount then (d.lineStyles env first incoming k line).trailing
        else d.styleAt offset
      else d.styleAt offset := by
  have hl : d.lines[line]? = some d.lines[line] := List.getElem?_eq_getElem hline
  generalize d.lines[line] = l at hl
  obtain ⟨i, rfl⟩ := Nat.exists_eq_add_of_le hstart
  have hendl := lineEnd_eq hl
  have hi : i ≤ l.size := by omega
  have hbefore : d.styleAt (d.lineStart line + i) = l.styleAt i := by
    have := styleAt_withLines (rfl : d.lines.map Line.text = _) hl hi
    rwa [withLines_lines] at this
  have hwritten : (d.writtenLines env first incoming k count)[line]? =
      some (if first ≤ line ∧ line < first + count then d.writtenLine env first incoming k line l
        else l) := by
    rw [writtenLines, List.getElem?_mapIdx, hl, Option.map_some]
  have htext := d.map_text_writtenLines env first incoming k count
  by_cases hin : first ≤ line ∧ line < first + count
  · rw [if_pos hin] at hwritten
    have hsize : (d.writtenLine env first incoming k line l).size = l.size :=
      l.size_restyle _ _ _ _
    rw [styleAt_withLines htext hwritten (by omega), writtenLine,
      l.styleAt_restyle (d.tiles_lineStyles env first incoming k line) (size_readLine_le hl),
      if_pos hin, hbefore, hendl]
    simp only [Nat.add_lt_add_iff_left]
    by_cases hlast : i < l.size
    · simp only [hlast, if_true]
    · have hi : i = l.size := by omega
      simp only [hi, Nat.lt_irrefl, if_false, true_and, decide_eq_true_eq]
  · rw [if_neg hin] at hwritten
    rw [styleAt_withLines htext hwritten hi, if_neg hin, hbefore]

end Document

namespace Lexer

/-- Styling some lines writes those of them that the document has, and nothing else: what was read of
a line gets the styles of the line as it is entered, what was not read becomes plain text, and the
terminator, if a line follows, gets the style that trails the line. No other style and no text, fold
level or indicator changes. The state that is left is that of the last of the lines. -/
theorem restyle_writes_lines (x : Lexer) (files : FileTree) (d : Document) (first last : Nat)
    (incoming : LineState) :
    let r := x.restyle files d first last incoming
    let styles := d.lineStyles (x.surroundings files) first incoming x.knowledge
    (∀ line < d.lineCount, ∀ offset, d.lineStart line ≤ offset → offset ≤ d.lineEnd line →
      r.2.2.styleAt offset =
        if first ≤ line ∧ line ≤ last then
          if offset < d.lineStart line + Text.size (d.readLine line) then
            styleIn (styles line).spans offset
          else if offset < d.lineEnd line then .default
          else if line + 1 < d.lineCount then (styles line).trailing
          else d.styleAt offset
        else d.styleAt offset) ∧
      (∀ line, Tiles (d.lineStart line) (styles line).spans
        (d.lineStart line + Text.size (d.readLine line))) ∧
      r.2.2 = d.withLines r.2.2.lines ∧
      r.2.2.lines.map Line.text = d.lines.map Line.text ∧
      r.2.2.lines.map Line.fold = d.lines.map Line.fold ∧
      r.1 =
        if first ≤ last ∧ first < d.lineCount then (styles (min last (d.lineCount - 1))).endState
        else incoming := by
  have hcount := d.lineCount_pos
  have htext := d.map_text_writtenLines (x.surroundings files) first incoming x.knowledge
    (d.lineSpan first last)
  dsimp only
  rw [restyle_eq, Document.restyleRun_eq]
  dsimp only
  refine ⟨?_, d.tiles_lineStyles _ _ _ _, ?_, ?_, ?_, ?_⟩
  · intro line hline offset hstart hend
    have hiff : first ≤ line ∧ line < first + d.lineSpan first last ↔
        first ≤ line ∧ line ≤ last := by
      rw [Document.lineSpan]
      omega
    rw [d.styleAt_writtenLines _ _ _ _ _ hline hstart hend]
    simp only [hiff]
  · rw [Document.lines_withLines (d.ne_nil_of_map_text htext)]
  · rw [Document.lines_withLines (d.ne_nil_of_map_text htext), htext]
  · rw [Document.lines_withLines (d.ne_nil_of_map_text htext),
      d.map_writtenLines _ _ _ _ _ Line.fold_restyle]
  · by_cases h : first ≤ last ∧ first < d.lineCount
    · obtain ⟨n, hn⟩ : ∃ n, d.lineSpan first last = n + 1 :=
        Nat.exists_eq_succ_of_ne_zero (by rw [Document.lineSpan]; omega)
      have hlast : min last (d.lineCount - 1) = first + n := by
        rw [Document.lineSpan] at hn
        omega
      rw [if_pos h, hn, hlast, Document.entered_succ_fst]
    · have hnone : d.lineSpan first last = 0 := by
        rw [Document.lineSpan]
        omega
      rw [if_neg h, hnone]
      rfl

/-- The second line opens a comment with the two bytes that are read of it. The character that the
limit cuts stays plain, and the terminator stands in the comment. -/
theorem restyle_writes_short_line :
    let d := { Document.ofText "short" "If 12\n\x7bxé\nEndIf".toList with readLimit := some 3 }
    let r := (ofSettings {}).restyle {} d 0 1 .default
    1 < d.lineCount ∧ d.lineStart 1 ≤ 7 ∧ 10 ≤ d.lineEnd 1 ∧
      r.2.2.styleAt 7 = .commentDoc ∧ r.2.2.styleAt 9 = .default ∧
      r.2.2.styleAt 10 = .commentDoc := by
  intro d r
  have hline : 1 < d.lineCount := by decide +kernel
  have hstart : d.lineStart 1 ≤ 7 := by decide +kernel
  have hend : 10 ≤ d.lineEnd 1 := by decide +kernel
  have hlo : d.lineStart 1 ≤ 9 := Nat.le_trans hstart (by decide)
  have hhi : 9 ≤ d.lineEnd 1 := Nat.le_trans (by decide) hend
  obtain ⟨hstyle, -⟩ := restyle_writes_lines (ofSettings {}) {} d 0 1 .default
  refine ⟨hline, hstart, hend, ?_, ?_, ?_⟩
  · exact (hstyle 1 hline 7 hstart (Nat.le_trans (by decide) hhi)).trans (by decide +kernel)
  · exact (hstyle 1 hline 9 hlo hhi).trans (by decide +kernel)
  · exact (hstyle 1 hline 10 (Nat.le_trans hlo (by decide)) hend).trans (by decide +kernel)

end Lexer

end Papyrus

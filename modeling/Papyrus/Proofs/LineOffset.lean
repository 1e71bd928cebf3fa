import Papyrus.Document.Edit
/-!
# The lines of a document by their offsets

A line of a document splits its lines into those before it, which take up `Lines.width` bytes with
their terminators, and those behind it. What a document says of an offset, a line start or a line
end is then what the line says of a byte of its own.

Results:
* `styleAt_split`: the style at an offset is the style of a byte of a line.
* `lineStart_lineAt_le`, `le_lineAt`: the line of an offset is the last one that starts there or
  before it.
* `read_line`: what is read of a line.
-/
namespace Papyrus

namespace Text

theorem takeCeil_size (t : Text) : t.takeCeil t.size = t := by
  induction t with
  | nil => rfl
  | cons c t ih =>
    have := c.utf8Size_pos
    rw [size_cons, takeCeil, if_neg (by omega), Nat.add_sub_cancel_left, ih]

theorem dropFloor_zero (t : Text) : t.dropFloor 0 = t := by
  cases t with
  | nil => rfl
  | cons c t => rw [dropFloor, if_neg (Nat.not_le.2 c.utf8Size_pos)]

theorem size_takeFloor_le (t : Text) (n : Nat) : Text.size (t.takeFloor n) ≤ t.size := by
  induction t generalizing n with
  | nil => exact Nat.le_refl _
  | cons c t ih =>
    have := ih (n - c.utf8Size)
    rw [takeFloor]
    split <;> simp only [size_cons, size_nil] <;> omega

theorem joinLines_cons {l : Text} {ls : List Text} (h : ls ≠ []) :
    joinLines (l :: ls) = l ++ '\n' :: joinLines ls := by
  cases ls with
  | nil => contradiction
  | cons => rfl

theorem slice_self (t : Text) : t.slice 0 t.size = t := by
  rw [slice, takeCeil_size, dropFloor_zero]

end Text

namespace Lines

/-- The number of bytes of lines that all have a terminator behind them. -/
def width : Lines → Nat
  | [] => 0
  | l :: ls => l.size + 1 + width ls

@[simp] theorem width_nil : width [] = 0 := rfl

@[simp] theorem width_cons (l : Line) (ls : Lines) : width (l :: ls) = l.size + 1 + width ls := rfl

theorem width_append (ls ls' : Lines) : width (ls ++ ls') = width ls + width ls' := by
  induction ls with
  | nil => exact (Nat.zero_add _).symm
  | cons l ls ih => rw [List.cons_append, width_cons, width_cons, ih, Nat.add_assoc (l.size + 1)]

/-! ## Behind the first line -/

section
variable {l : Line} {ls : Lines}

theorem size_cons (h : ls ≠ []) : size (l :: ls) = l.size + 1 + size ls := by
  cases ls with
  | nil => contradiction
  | cons => rfl

theorem lineStart_cons (h : ls ≠ []) (i : Nat) :
    lineStart (l :: ls) (i + 1) = l.size + 1 + lineStart ls i := by
  cases ls with
  | nil => contradiction
  | cons => rfl

theorem lineStart_zero (ls : Lines) : lineStart ls 0 = 0 := by
  cases ls with
  | nil => rfl
  | cons l ls => cases ls <;> rfl

theorem lineEnd_zero : lineEnd (l :: ls) 0 = l.size := by
  cases ls <;> rfl

theorem lineEnd_cons (h : ls ≠ []) (i : Nat) :
    lineEnd (l :: ls) (i + 1) = l.size + 1 + lineEnd ls i := by
  cases ls with
  | nil => contradiction
  | cons => rfl

theorem slice_cons (h : ls ≠ []) (start stop : Nat) :
    slice (l :: ls) (l.size + 1 + start) (l.size + 1 + stop) = slice ls start stop := by
  cases ls with
  | nil => contradiction
  | cons =>
    rw [slice, if_pos (by omega), Nat.add_sub_cancel_left, Nat.add_sub_cancel_left]
    exact h

theorem styleAt_cons (offset : Nat) :
    styleAt (l :: ls) (l.size + 1 + offset) = styleAt ls offset := by
  rw [styleAt, if_neg (by omega), Nat.add_sub_cancel_left]

theorem lineStart_of_length_le {ls : Lines} {i : Nat} (h : ls.length ≤ i) :
    lineStart ls i = size ls := by
  induction ls generalizing i with
  | nil => rfl
  | cons l ls ih =>
    obtain ⟨i, rfl⟩ := Nat.exists_eq_succ_of_ne_zero (Nat.ne_zero_of_lt h)
    cases ls with
    | nil => rfl
    | cons m ls =>
      rw [lineStart_cons (List.cons_ne_nil m ls), size_cons (List.cons_ne_nil m ls),
        ih (Nat.le_of_succ_le_succ h)]

theorem lineEnd_of_length_le {ls : Lines} {i : Nat} (h : ls.length ≤ i) :
    lineEnd ls i = size ls := by
  induction ls generalizing i with
  | nil => rfl
  | cons l ls ih =>
    obtain ⟨i, rfl⟩ := Nat.exists_eq_succ_of_ne_zero (Nat.ne_zero_of_lt h)
    cases ls with
    | nil => rfl
    | cons m ls =>
      rw [lineEnd_cons (List.cons_ne_nil m ls), size_cons (List.cons_ne_nil m ls),
        ih (Nat.le_of_succ_le_succ h)]

theorem size_le_size_cons : l.size ≤ size (l :: ls) := by
  cases ls with
  | nil => exact Nat.le_refl _
  | cons => rw [size_cons (by simp)]; omega

end

/-! ## Lines of the same sizes -/

section
variable {ls ls' : Lines}

theorem map_size_of_text (h : ls.map Line.text = ls'.map Line.text) :
    ls.map Line.size = ls'.map Line.size := by
  have hsize : ∀ ls : Lines, ls.map Line.size = (ls.map Line.text).map Text.size := by
    intro ls
    rw [List.map_map]
    exact List.map_congr_left fun l _ => l.size_eq
  rw [hsize, hsize, h]

theorem lineStart_congr (h : ls.map Line.size = ls'.map Line.size) (i : Nat) :
    lineStart ls i = lineStart ls' i := by
  induction ls generalizing ls' i with
  | nil => rw [List.map_eq_nil_iff.1 h.symm]
  | cons l ls ih =>
    cases ls' with
    | nil => cases h
    | cons l' ls' =>
      obtain ⟨hsize, hls⟩ := List.cons.inj h
      cases i with
      | zero => simp [lineStart]
      | succ i =>
        cases ls with
        | nil => rw [List.map_eq_nil_iff.1 hls.symm, lineStart, lineStart, hsize]
        | cons m ls =>
          have hne : ls' ≠ [] := by
            rintro rfl
            cases hls
          rw [lineStart_cons (List.cons_ne_nil m ls), lineStart_cons hne, hsize, ih hls]

theorem lineEnd_congr (h : ls.map Line.size = ls'.map Line.size) (i : Nat) :
    lineEnd ls i = lineEnd ls' i := by
  induction ls generalizing ls' i with
  | nil => rw [List.map_eq_nil_iff.1 h.symm]
  | cons l ls ih =>
    cases ls' with
    | nil => cases h
    | cons l' ls' =>
      obtain ⟨hsize, hls⟩ := List.cons.inj h
      cases ls with
      | nil => rw [List.map_eq_nil_iff.1 hls.symm, lineEnd, lineEnd, hsize]
      | cons m ls =>
        have hne : ls' ≠ [] := by
          rintro rfl
          cases hls
        cases i with
        | zero => rw [lineEnd_zero, lineEnd_zero, hsize]
        | succ i => rw [lineEnd_cons (List.cons_ne_nil m ls), lineEnd_cons hne, hsize, ih hls]

end

/-! ## At a line -/

section
variable (pre : Lines) (l : Line) (post : Lines)

theorem append_cons_ne_nil : pre ++ l :: post ≠ [] := by simp

theorem size_split : size (pre ++ l :: post) = width pre + size (l :: post) := by
  induction pre with
  | nil => simp
  | cons p pre ih =>
    rw [List.cons_append, size_cons (append_cons_ne_nil pre l post), ih, width_cons]
    omega

theorem size_append {ls : Lines} (h : ls ≠ []) : size (pre ++ ls) = width pre + size ls := by
  cases ls with
  | nil => contradiction
  | cons l post => exact size_split pre l post

theorem lineStart_split : lineStart (pre ++ l :: post) pre.length = width pre := by
  induction pre with
  | nil => rfl
  | cons p pre ih =>
    rw [List.cons_append, List.length_cons, lineStart_cons (append_cons_ne_nil pre l post), ih,
      width_cons]

theorem lineEnd_split : lineEnd (pre ++ l :: post) pre.length = width pre + l.size := by
  induction pre with
  | nil => rw [List.nil_append, List.length_nil, lineEnd_zero, width_nil, Nat.zero_add]
  | cons p pre ih =>
    rw [List.cons_append, List.length_cons, lineEnd_cons (append_cons_ne_nil pre l post), ih,
      width_cons]
    omega

theorem slice_split {start stop : Nat} (hstart : start ≤ l.size) (hstop : stop ≤ l.size) :
    slice (pre ++ l :: post) (width pre + start) (width pre + stop) = l.text.slice start stop := by
  induction pre with
  | nil =>
    simp only [List.nil_append, width_nil, Nat.zero_add]
    cases post with
    | nil => rfl
    | cons m post =>
      rw [slice, if_neg (by omega), if_pos hstop]
      exact List.cons_ne_nil m post
  | cons p pre ih =>
    rw [List.cons_append, width_cons, Nat.add_assoc _ _ start, Nat.add_assoc _ _ stop,
      slice_cons (append_cons_ne_nil pre l post), ih]

theorem styleAt_split {offset : Nat} (h : offset ≤ l.size) :
    styleAt (pre ++ l :: post) (width pre + offset) = l.styleAt offset := by
  induction pre with
  | nil => rw [List.nil_append, width_nil, Nat.zero_add, styleAt, if_pos h]
  | cons p pre ih =>
    rw [List.cons_append, width_cons, Nat.add_assoc, styleAt_cons, ih]

end

/-! ## The text of lines -/

/-- The text of lines that all have a terminator behind them. -/
def terminated : Lines → Text
  | [] => []
  | l :: ls => l.text ++ '\n' :: terminated ls

theorem size_terminated (ls : Lines) : Text.size (terminated ls) = width ls := by
  induction ls with
  | nil => rfl
  | cons l ls ih =>
    rw [terminated, Text.size_append, Text.size_cons, ih, width_cons, l.size_eq,
      show ('\n' : Char).utf8Size = 1 from rfl, Nat.add_assoc]

theorem text_cons {l : Line} {ls : Lines} (h : ls ≠ []) :
    text (l :: ls) = l.text ++ '\n' :: text ls :=
  Text.joinLines_cons (mt List.map_eq_nil_iff.1 h)

theorem text_append (pre : Lines) {ls : Lines} (h : ls ≠ []) :
    text (pre ++ ls) = terminated pre ++ text ls := by
  induction pre with
  | nil => rfl
  | cons p pre ih =>
    rw [List.cons_append, text_cons (List.append_ne_nil_of_right_ne_nil pre h), ih, terminated,
      List.append_assoc, List.cons_append]

theorem getLast?_terminated_cons (l : Line) (ls : Lines) :
    (terminated (l :: ls)).getLast? = some '\n' := by
  induction ls generalizing l with
  | nil => simp [terminated]
  | cons m ls ih => rw [terminated, List.getLast?_append, List.getLast?_cons, ih]; rfl

theorem exists_split_of_getElem? {ls : Lines} {l : Line} {i : Nat} (h : ls[i]? = some l) :
    ∃ pre post, ls = pre ++ l :: post ∧ pre.length = i := by
  obtain ⟨hi, rfl⟩ := List.getElem?_eq_some_iff.1 h
  exact ⟨ls.take i, ls.drop (i + 1), by simp, by simp [Nat.le_of_lt hi]⟩

theorem exists_split_at {ls : Lines} {i : Nat} (h : i < ls.length) :
    ∃ pre l post, ls = pre ++ l :: post ∧ pre.length = i := by
  obtain ⟨pre, post, hsplit⟩ := exists_split_of_getElem? (List.getElem?_eq_getElem h)
  exact ⟨pre, ls[i], post, hsplit⟩

/-- A line ends before the lines behind it start. -/
theorem lineEnd_lt_lineStart {ls : Lines} {i j : Nat} (h : i < j) (hj : j < ls.length) :
    lineEnd ls i < lineStart ls j := by
  obtain ⟨pre, l, post, rfl, rfl⟩ := exists_split_at hj
  obtain ⟨pre, m, mid, rfl, rfl⟩ := exists_split_at h
  have hend : lineEnd (pre ++ m :: mid ++ l :: post) pre.length = width pre + m.size := by
    rw [List.append_assoc, List.cons_append, lineEnd_split]
  rw [hend, lineStart_split, width_append, width_cons]
  omega

/-! ## The line of an offset -/

theorem lineAt_cons {l : Line} {ls : Lines} (h : ls ≠ []) (offset : Nat) :
    lineAt (l :: ls) offset =
      if offset ≤ l.size then 0 else lineAt ls (offset - (l.size + 1)) + 1 := by
  cases ls with
  | nil => contradiction
  | cons => rfl

theorem lineAt_zero (ls : Lines) : lineAt ls 0 = 0 := by
  cases ls with
  | nil => rfl
  | cons l ls => cases ls <;> rfl

theorem lineAt_lt_length {ls : Lines} (hne : ls ≠ []) (offset : Nat) :
    lineAt ls offset < ls.length := by
  induction ls generalizing offset with
  | nil => contradiction
  | cons l ls ih =>
    by_cases hls : ls = []
    · subst hls
      exact Nat.one_pos
    · rw [lineAt_cons hls, List.length_cons]
      split
      · exact Nat.succ_pos _
      · exact Nat.succ_lt_succ (ih hls _)

/-- The line of an offset starts there or before it. -/
theorem lineStart_lineAt_le (ls : Lines) (offset : Nat) :
    lineStart ls (lineAt ls offset) ≤ offset := by
  induction ls generalizing offset with
  | nil => exact Nat.zero_le _
  | cons l ls ih =>
    by_cases hls : ls = []
    · subst hls
      exact Nat.zero_le _
    · rw [lineAt_cons hls]
      split
      · rw [lineStart_zero]
        exact Nat.zero_le _
      · have := ih (offset - (l.size + 1))
        rw [lineStart_cons hls]
        omega

/-- No line behind the line of an offset starts there or before it. -/
theorem le_lineAt {ls : Lines} {i offset : Nat} (hi : i < ls.length)
    (h : lineStart ls i ≤ offset) : i ≤ lineAt ls offset := by
  induction ls generalizing i offset with
  | nil => exact absurd hi (Nat.not_lt_zero _)
  | cons l ls ih =>
    cases i with
    | zero => exact Nat.zero_le _
    | succ i =>
      have hi := Nat.lt_of_succ_lt_succ hi
      have hls : ls ≠ [] := List.ne_nil_of_length_pos (Nat.zero_lt_of_lt hi)
      rw [lineStart_cons hls] at h
      rw [lineAt_cons hls, if_neg (by omega)]
      exact Nat.succ_le_succ (ih hi (by omega))

theorem lineAt_congr {ls ls' : Lines} (h : ls.map Line.size = ls'.map Line.size) (offset : Nat) :
    lineAt ls offset = lineAt ls' offset := by
  induction ls generalizing ls' offset with
  | nil => rw [List.map_eq_nil_iff.1 h.symm]
  | cons l ls ih =>
    cases ls' with
    | nil => cases h
    | cons l' ls' =>
      obtain ⟨hsize, hrest⟩ := List.cons.inj h
      by_cases hls : ls = []
      · subst hls
        rw [List.map_eq_nil_iff.1 hrest.symm]
        rfl
      · have hls' : ls' ≠ [] := by
          rintro rfl
          exact hls (List.map_eq_nil_iff.1 hrest)
        rw [lineAt_cons hls, lineAt_cons hls', hsize, ih hrest]

/-- Every offset up to the end of lines is one of a line or of its terminator. -/
theorem exists_split_of_le {ls : Lines} (hne : ls ≠ []) {offset : Nat}
    (h : offset ≤ size ls) : ∃ pre l post, ls = pre ++ l :: post ∧
      pre.length = lineAt ls offset ∧ width pre ≤ offset ∧ offset ≤ width pre + l.size := by
  induction ls generalizing offset with
  | nil => contradiction
  | cons l ls ih =>
    by_cases hls : ls = []
    · subst hls
      exact ⟨[], l, [], rfl, rfl, Nat.zero_le _, by simpa [size] using h⟩
    · rw [lineAt_cons hls]
      split
      · next hin => exact ⟨[], l, ls, rfl, rfl, Nat.zero_le _, by simpa using hin⟩
      · rw [size_cons hls] at h
        have hle : offset - (l.size + 1) ≤ size ls := by omega
        obtain ⟨pre, k, post, hsplit, hlength, hlo, hhi⟩ := ih hls hle
        refine ⟨l :: pre, k, post, by rw [hsplit]; rfl, by rw [List.length_cons, hlength], ?_, ?_⟩
        · rw [width_cons]
          omega
        · rw [width_cons]
          omega

end Lines

namespace Document

/-- What is read of a line that has the given text. -/
def cut (d : Document) (t : Text) : Text := d.readLimit.elim t t.takeFloor

theorem cut_of_unlimited {d : Document} (h : d.readLimit = none) (t : Text) : d.cut t = t := by
  rw [cut, h]
  rfl

theorem size_cut_le (d : Document) (t : Text) : Text.size (d.cut t) ≤ t.size := by
  rw [cut]
  cases d.readLimit with
  | none => exact Nat.le_refl _
  | some n => exact t.size_takeFloor_le n

theorem withLines_eq {d : Document} {lines : Lines} (h : lines ≠ []) :
    d.withLines lines = { d with lines := lines, lines_ne_nil := h } := by
  cases lines with
  | nil => contradiction
  | cons => rfl

/-- Lines that are replaced twice are those of the second time. -/
theorem withLines_withLines (d : Document) (lines lines' : Lines) :
    (d.withLines lines).withLines lines' = d.withLines lines' := by
  cases lines <;> cases lines' <;> rfl

theorem withLines_lines (d : Document) : d.withLines d.lines = d := withLines_eq d.lines_ne_nil

@[simp] theorem cut_withLines (d : Document) (lines : Lines) :
    (d.withLines lines).cut = d.cut := by
  cases lines <;> rfl

/-- There is nothing to read behind the last line. -/
theorem read_of_lineCount_le {d : Document} {line : Nat} (h : d.lineCount ≤ line) :
    d.read (d.lineStart line) (d.lineEnd line) = [] := by
  rw [lineStart, lineEnd, Lines.lineStart_of_length_le h, Lines.lineEnd_of_length_le h, ← size,
    read, slice, if_neg (by omega)]
  cases d.readLimit <;> rfl

section
variable {d : Document} {pre post : Lines} {l : Line}

theorem lineCount_split (h : d.lines = pre ++ l :: post) :
    d.lineCount = pre.length + post.length + 1 := by
  rw [lineCount, h, List.length_append, List.length_cons]
  omega

theorem slice_line (h : d.lines = pre ++ l :: post) :
    d.slice (d.lineStart pre.length) (d.lineEnd pre.length) = l.text := by
  have hsize : d.size = Lines.width pre + Lines.size (l :: post) := by
    rw [size, h, Lines.size_split]
  have hle := @Lines.size_le_size_cons l post
  rw [slice, lineStart, lineEnd, h, Lines.lineStart_split, Lines.lineEnd_split]
  by_cases hl : l.size = 0
  · have ht : l.text = [] := by
      rw [l.size_eq] at hl
      cases ht : l.text with
      | nil => rfl
      | cons c t =>
        have := c.utf8Size_pos
        rw [ht, Text.size_cons] at hl
        omega
    rw [if_neg (by omega), ht]
  · rw [if_pos (by omega)]
    have := Lines.slice_split pre l post (Nat.zero_le _) (Nat.le_refl l.size)
    rw [Nat.add_zero] at this
    rw [this, l.size_eq, Text.slice_self]

/-- What is read of a line is what is read of its text alone. -/
theorem read_line (h : d.lines = pre ++ l :: post) :
    d.read (d.lineStart pre.length) (d.lineEnd pre.length) = d.cut l.text := by
  rw [read, slice_line h, cut]
  cases d.readLimit <;> rfl

theorem styleAt_line (h : d.lines = pre ++ l :: post) {i : Nat} (hi : i ≤ l.size) :
    d.styleAt (Lines.width pre + i) = l.styleAt i := by
  rw [styleAt, h, Lines.styleAt_split pre l post hi]

theorem modifyLine_split (h : d.lines = pre ++ l :: post) (f : Line → Line) :
    d.modifyLine pre.length f = d.withLines (pre ++ f l :: post) := by
  have hlines : d.lines.modify pre.length f = pre ++ f l :: post := by
    rw [h]
    clear h
    induction pre with
    | nil => rfl
    | cons p pre ih => rw [List.cons_append, List.length_cons, List.modify_succ_cons, ih]; rfl
  rw [withLines_eq (Lines.append_cons_ne_nil pre (f l) post)]
  unfold modifyLine
  simp only [hlines]

end

end Document

end Papyrus

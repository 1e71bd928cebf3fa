import Papyrus.CommandLine
import Papyrus.Proofs.FlatText
import Papyrus.Proofs.LineRun
import Papyrus.Proofs.MatchSpan
/-!
# Printed positions

A match is printed with the line and the display column at which each of its keywords starts, and
the command takes a line and a display column for the caret. The two do not count columns in the
same way. A printed column is the width of the whole text before the keyword, in which characters
may share columns or give each other more of them; on the way back the widths of single characters
are added up until the column is reached. A printed position leads back to its keyword exactly if
the sums bracket the width.

Results:
* `byteOfColumn?_eq_some_iff`: the byte that a column leads to.
* `exists_prefix_of_isBoundary`: every character boundary is one of a line.
* `offsetOf_position_iff`: when the position of an offset leads back to it.
* `offsetOf_position_highlights`: when that is so for what a match highlights.
-/
namespace Papyrus

/-! ## Columns of single characters -/

/-- The columns of the characters of a text, added up one by one. -/
def Unicode.columns : Text → Nat
  | [] => 0
  | c :: t => charWidth c + columns t

/-- Whether the width of a text is reached by its last character, if the columns of its characters
are added up one by one. -/
def Unicode.Reaches (t : Text) : Prop :=
  t = [] ∨ columns t.dropLast < textWidth t ∧ textWidth t ≤ columns t

instance : DecidablePred Unicode.Reaches := fun _ => inferInstanceAs (Decidable (_ ∨ _))

/-- ASCII characters have a column each, alone and side by side. -/
theorem Unicode.reaches_of_isAscii {t : Text} (h : ∀ c ∈ t, isAscii c = true ∧ c ≠ '\n') :
    Reaches t := by
  have hcolumns : ∀ s : Text, s ⊆ t → columns s = s.length := by
    intro s
    induction s with
    | nil => exact fun _ => rfl
    | cons c s ih =>
      intro hs
      obtain ⟨hc, hs⟩ := List.cons_subset.1 hs
      rw [columns, charWidth_of_isAscii (h c hc).1, ih hs, List.length_cons, Nat.add_comm]
  by_cases hnil : t = []
  · exact Or.inl hnil
  · have hpos := List.length_pos_iff.2 hnil
    rw [Reaches, textWidth_of_isAscii h, hcolumns t (List.Subset.refl t),
      hcolumns t.dropLast (List.dropLast_subset t), List.length_dropLast]
    exact Or.inr ⟨by omega, Nat.le_refl _⟩

namespace Line

/-- A column leads behind a prefix if the columns of the prefix reach it, and not without the last
character. -/
theorem byteOfColumn?_go_eq_some_iff (p rest : Text) (column : Nat) :
    byteOfColumn?.go (p ++ rest) column = some p.size ↔
      p = [] ∧ column = 0 ∨
        Unicode.columns p.dropLast < column ∧ column ≤ Unicode.columns p := by
  induction p generalizing column with
  | nil =>
    have hnone : ¬ (Unicode.columns [] < column ∧ column ≤ Unicode.columns []) := by
      rw [Unicode.columns]
      omega
    rw [List.dropLast_nil, or_iff_left hnone, List.nil_append]
    cases column with
    | zero => simp [byteOfColumn?.go]
    | succ n =>
      cases rest with
      | nil => simp [byteOfColumn?.go]
      | cons c rest =>
        have hpos := c.utf8Size_pos
        simp only [byteOfColumn?.go, Option.map_eq_some_iff, Text.size_nil]
        omega
  | cons c p ih =>
    have hpos := c.utf8Size_pos
    cases column with
    | zero =>
      rw [List.cons_append, byteOfColumn?.go, Option.some.injEq, Text.size_cons]
      constructor
      · omega
      · rintro (⟨hnil, -⟩ | ⟨hlt, -⟩)
        · cases hnil
        · exact absurd hlt (Nat.not_lt_zero _)
    | succ n =>
      have hgo : byteOfColumn?.go (c :: p ++ rest) (n + 1) = some (Text.size (c :: p)) ↔
          byteOfColumn?.go (p ++ rest) (n + 1 - Unicode.charWidth c) = some (Text.size p) := by
        simp [byteOfColumn?.go]
      rw [hgo, ih, Unicode.columns]
      cases p with
      | nil =>
        simp only [List.dropLast_nil, List.dropLast_singleton, Unicode.columns, true_and,
          List.cons_ne_nil, false_and, false_or]
        omega
      | cons x p =>
        simp only [List.dropLast_cons_cons, Unicode.columns, List.cons_ne_nil, false_and, false_or]
        omega

theorem byteOfColumn?_columnOfByte {l : Line} {p rest : Text} (h : l.text = p ++ rest) :
    l.byteOfColumn? (l.columnOfByte p.size) = some p.size ↔ Unicode.Reaches p := by
  have hprefix : l.text.slice 0 p.size = p := by
    have hcut := Text.slice_cut [] p rest
    rwa [List.nil_append, ← h, Text.size_nil, Nat.zero_add] at hcut
  have hnil : Unicode.textWidth [] = 0 := rfl
  rw [byteOfColumn?, columnOfByte, hprefix, h, byteOfColumn?_go_eq_some_iff, Unicode.Reaches]
  refine or_congr_left' fun _ => ⟨And.left, fun hp => ⟨hp, ?_⟩⟩
  rw [hp, hnil]

end Line

/-! ## Positions in a document -/

namespace Document

/-- A character boundary stands behind a prefix of its line. -/
theorem exists_prefix_of_isBoundary {d : Document} {offset : Nat} (h : d.text.IsBoundary offset) :
    ∃ pre l post p rest after, d.lines = pre ++ l :: post ∧ pre.length = d.lineAt offset ∧
      l.text = p ++ rest ∧ d.text = Lines.terminated pre ++ p ++ after ∧
      offset = Lines.width pre + p.size := by
  obtain ⟨a, b, htext, rfl⟩ := h
  have hsize := d.size_text
  rw [htext, Text.size_append] at hsize
  have hle : a.size ≤ d.lines.size := by
    rw [← size, ← hsize]
    exact Nat.le_add_right _ _
  obtain ⟨pre, l, post, hlines, hlength, hlo, hhi⟩ := Lines.exists_split_of_le d.lines_ne_nil hle
  have hcut : Lines.terminated pre ++ Lines.text (l :: post) = a ++ b := by
    rw [← Lines.text_append pre (List.cons_ne_nil l post), ← hlines, ← text, htext]
  obtain ⟨p, rfl, hp⟩ := Text.exists_of_append_eq hcut (by rw [Lines.size_terminated]; exact hlo)
  obtain ⟨behind, hbehind⟩ : ∃ behind, Lines.text (l :: post) = l.text ++ behind := by
    cases post with
    | nil => exact ⟨[], (List.append_nil _).symm⟩
    | cons m post => exact ⟨'\n' :: Lines.text (m :: post), rfl⟩
  rw [Text.size_append, Lines.size_terminated, l.size_eq] at hhi
  obtain ⟨rest, hrest, -⟩ := Text.exists_of_append_eq (hp.symm.trans hbehind) (by omega)
  exact ⟨pre, l, post, p, rest, b, hlines, hlength, hrest, htext, by
    rw [Text.size_append, Lines.size_terminated]⟩

/-- The position of a character boundary leads back to it exactly if the columns of the characters
before it on its line reach their width. -/
theorem offsetOf_position_iff {d : Document} {offset : Nat} (h : d.text.IsBoundary offset) :
    CommandLine.offsetOf d (d.position offset).1 (d.position offset).2 = .ok offset ↔
      Unicode.Reaches (d.slice (d.lineStart (d.lineAt offset)) offset) := by
  obtain ⟨pre, l, post, p, rest, after, hlines, hlength, hrest, htext, hoffset⟩ :=
    exists_prefix_of_isBoundary h
  have hstart : d.lineStart (d.lineAt offset) = Lines.width pre := by
    rw [lineStart, ← hlength, hlines, Lines.lineStart_split]
  have hline : d.lines[d.lineAt offset]? = some l := by
    rw [← hlength, hlines]
    simp
  have hslice : d.slice (Lines.width pre) offset = p := by
    have hcut := d.slice_cut htext
    rwa [Lines.size_terminated, ← hoffset] at hcut
  have hposition : d.position offset = (d.lineAt offset + 1, l.columnOfByte p.size + 1) := by
    have hinside : offset - Lines.width pre = p.size := by omega
    rw [position, hline, hstart, hinside]
    rfl
  rw [hposition, hstart, hslice, ← Line.byteOfColumn?_columnOfByte hrest, CommandLine.offsetOf,
    Nat.add_sub_cancel, Nat.add_sub_cancel, hline, hstart]
  dsimp only
  cases l.byteOfColumn? (l.columnOfByte p.size) with
  | none =>
    dsimp only
    constructor
    · intro hrefused
      cases hrefused
    · intro hnone
      cases hnone
  | some byte =>
    dsimp only
    rw [Except.ok.injEq, Option.some.injEq]
    omega

/-! ## What a match highlights -/

theorem isBoundary_of_mem_marks {d : Document} {word : String} {style : Style} {p : Mark}
    (h : p ∈ (d.marks word style).places) : d.text.IsBoundary p.start := by
  simp only [marks] at h
  split at h
  · cases h
  · next hword =>
    obtain ⟨o, ho, rfl⟩ := List.mem_map.1 h
    obtain ⟨pre, mid, post, htext, -, rfl⟩ := (Text.mem_places_iff hword).1 ho
    exact ⟨pre, mid ++ post, by rw [htext, List.append_assoc], rfl⟩

/-- What a match highlights starts at a character boundary. -/
theorem isBoundary_of_mem_highlights {d : Document} {caret : Nat} {s : Span}
    (hs : s ∈ (d.matchKeyword caret).highlights) : d.text.IsBoundary s.start := by
  refine BlockMatch.of_mem_highlights (P := fun s => d.text.IsBoundary s.start)
    (all_matchKeyword (fun _ _ _ => isBoundary_of_mem_marks) fun hword => ?_) hs
  obtain ⟨pre, mid, post, h, hspan⟩ := isWord_wordAt hword
  rw [hspan]
  exact ⟨pre, mid ++ post, by rw [h.text_eq, List.append_assoc], rfl⟩

/-- The printed position of what a match highlights leads back to where it starts exactly if the
columns of the characters before it on its line reach their width. -/
theorem offsetOf_position_highlights (d : Document) (caret : Nat) {s : Span}
    (hs : s ∈ (d.matchKeyword caret).highlights) :
    CommandLine.offsetOf d (d.position s.start).1 (d.position s.start).2 = .ok s.start ↔
      Unicode.Reaches (d.slice (d.lineStart (d.lineAt s.start)) s.start) :=
  offsetOf_position_iff (isBoundary_of_mem_highlights hs)

/-- A keyword behind a wide character. -/
theorem offsetOf_position_highlights_wide :
    let d := (ofText "wide" "\u5168 If\nEndIf".toList).paint 0 99 .flowControl
    ⟨4, 6⟩ ∈ (d.matchKeyword 4).highlights ∧ d.position 4 = (1, 4) ∧
      CommandLine.offsetOf d 1 4 = .ok 4 := by
  intro d
  have hmatch : d.matchKeyword 4 =
      { found := true, keyword := some ⟨4, 6⟩, counterparts := [⟨7, 12⟩] } := by decide +kernel
  have hs : ⟨4, 6⟩ ∈ (d.matchKeyword 4).highlights := by
    rw [hmatch, BlockMatch.highlights_declaration (by decide)]
    exact List.mem_cons_self
  have hposition : d.position 4 = (1, 4) := by decide +kernel
  have hback := (offsetOf_position_highlights d 4 hs).2 (by decide +kernel)
  rw [hposition] at hback
  exact ⟨hs, hposition, hback⟩

/-- Three suns, each with a selector that asks for a picture, have two columns each, where their
characters have one. The printed position of the keyword behind them is refused. -/
theorem offsetOf_position_highlights_picture :
    let d := ((Lexer.ofSettings {}).restyleAll {} (ofText "suns"
      "\u2600\uFE0F\u2600\uFE0F\u2600\uFE0FIf\nEndIf".toList)).2
    ¬ ∀ caret, ∀ s ∈ (d.matchKeyword caret).highlights,
      CommandLine.offsetOf d (d.position s.start).1 (d.position s.start).2 = .ok s.start := by
  intro d h
  have hmatch : d.matchKeyword 18 =
      { found := true, keyword := some ⟨18, 20⟩, counterparts := [⟨21, 26⟩] } := by decide +kernel
  have hs : ⟨18, 20⟩ ∈ (d.matchKeyword 18).highlights := by
    rw [hmatch, BlockMatch.highlights_declaration (by decide)]
    exact List.mem_cons_self
  have hreaches := (offsetOf_position_iff (isBoundary_of_mem_highlights hs)).1 (h 18 _ hs)
  revert hreaches
  decide +kernel

end Document

end Papyrus

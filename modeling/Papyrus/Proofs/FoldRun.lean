import Papyrus.Proofs.RedactedLines
/-!
# Folding line by line

Folding a document is a run over its lines (`Lines.foldLevels`): a line gets its level from the
tokens of its text, their styles and the level that the line before it leaves. Only tokens in code
count, so lines that are redacted to the same are folded alike.

Results:
* `foldRun_split`: folding a document is a run over its lines.
* `count_eq_inCode`: what counts are the tokens in code.
* `foldLevels_of_redacted`: redacted lines tell the fold levels.
-/
namespace Papyrus

/-! ## Counting -/

/-- Fold levels depend on tokens through the numbers of words alone. -/
theorem foldLine_congr {words : WordLists} {tokens tokens' : List (Token × Style)}
    (h : ∀ role, words.count role tokens = words.count role tokens') (foldMiddle : Bool)
    (previous : Int) :
    foldLine words foldMiddle previous tokens = foldLine words foldMiddle previous tokens' := by
  unfold foldLine
  rw [h, h, h]

/-- The words that count are the tokens in code. -/
theorem count_eq_inCode {code : Nat → Bool} {style : Nat → Style} {tokens : List Token}
    (h : ∀ t ∈ tokens, code t.start = !(style t.start).isInert) (words : WordLists)
    (role : WordRole) :
    words.count role (tokens.map fun t => (t, style t.start)) =
      (Token.inCode code tokens).countP fun (t, _) => (words.get role).contains t.content := by
  induction tokens with
  | nil => rfl
  | cons t tokens ih =>
    have hfirst := h t List.mem_cons_self
    have ih := ih fun u hu => h u (List.mem_cons_of_mem t hu)
    rw [WordLists.count] at ih ⊢
    rw [List.map_cons, List.countP_cons, ih, Token.inCode]
    rcases Bool.eq_false_or_eq_true (style t.start).isInert with hinert | hinert
    · simp [hfirst, hinert]
    · simp [hfirst, hinert, List.countP_cons]

/-! ## Runs over lines -/

/-- The fold level of a line that starts at level `previous`. -/
def Line.foldLevel (l : Line) (words : WordLists) (foldMiddle : Bool) (previous : Int) :
    FoldLevel :=
  foldLine words foldMiddle previous ((Token.scan l.text 0).map fun t => (t, l.styleAt t.start))

/-- The fold levels of lines, the first of which starts at level `previous`. -/
def Lines.foldLevels (words : WordLists) (foldMiddle : Bool) (previous : Int) :
    Lines → List FoldLevel
  | [] => []
  | l :: ls =>
    let level := l.foldLevel words foldMiddle previous
    level :: foldLevels words foldMiddle level.next ls

/-- Lines, the first of which starts at level `previous`, with their fold levels. -/
def Lines.folded (words : WordLists) (foldMiddle : Bool) (previous : Int) : Lines → Lines
  | [] => []
  | l :: ls =>
    let level := l.foldLevel words foldMiddle previous
    { l with fold := some level } :: folded words foldMiddle level.next ls

namespace Document

section
variable {d : Document} (words : WordLists) (foldMiddle : Bool) {pre post : Lines} {l : Line}

/-- A line is folded wherever it stands. -/
theorem foldLevelOf_split (hread : d.readLimit = none) (h : d.lines = pre ++ l :: post)
    (previous : Int) :
    d.foldLevelOf words foldMiddle pre.length previous = l.foldLevel words foldMiddle previous := by
  have hstart : d.lineStart pre.length = Lines.width pre := by
    rw [lineStart, h, Lines.lineStart_split]
  have hscan : Token.scan l.text (Lines.width pre) =
      (Token.scan l.text 0).map (Token.shift (Lines.width pre)) := by
    rw [← Token.scan_shift, Nat.zero_add]
  have hstyle : ∀ t ∈ Token.scan l.text 0,
      d.styleAt (t.shift (Lines.width pre)).start = l.styleAt t.start := by
    intro t ht
    have hbound := (Token.scan_ordered l.text 0).mem ht
    have hsize := l.size_eq
    rw [← styleAt_line h (by omega), Nat.add_comm]
    rfl
  unfold foldLevelOf Line.foldLevel
  dsimp only
  rw [read_line h, cut_of_unlimited hread, hstart, hscan, List.map_map]
  refine foldLine_congr (fun role => ?_) foldMiddle previous
  rw [WordLists.count, WordLists.count, List.countP_map, List.countP_map]
  refine List.countP_congr fun t ht => ?_
  simp only [Function.comp_apply, hstyle t ht, Token.content_shift]

/-- Folding from a line on to the end of a document is a run over its last lines, which are given
their levels. -/
theorem foldRun_split {ls : Lines} (hread : d.readLimit = none) (h : d.lines = pre ++ ls)
    (previous : Int) :
    d.foldRun words foldMiddle pre.length previous ls.length =
      (ls.foldLevels words foldMiddle previous,
        d.withLines (pre ++ ls.folded words foldMiddle previous)) := by
  induction ls generalizing d pre previous with
  | nil =>
    rw [Lines.folded, ← h, withLines_lines]
    rfl
  | cons l ls ih =>
    have hset : d.setFoldLevel pre.length (l.foldLevel words foldMiddle previous) = d.withLines
        (pre ++ { l with fold := some (l.foldLevel words foldMiddle previous) } :: ls) :=
      modifyLine_split h _
    rw [List.length_cons, foldRun, foldLevelOf_split words foldMiddle hread h, hset,
      Lines.foldLevels, Lines.folded]
    generalize { l with fold := some (l.foldLevel words foldMiddle previous) } = l'
    have hne := Lines.append_cons_ne_nil pre l' ls
    have hlines : (d.withLines (pre ++ l' :: ls)).lines = (pre ++ [l']) ++ ls := by
      rw [lines_withLines hne, List.append_cons]
    have hread' := (congrArg readLimit (withLines_eq (d := d) hne)).trans hread
    have ih := ih hread' hlines (l.foldLevel words foldMiddle previous).next
    rw [List.length_append, List.length_singleton] at ih
    dsimp only
    rw [ih, withLines_withLines, List.append_assoc]
    rfl

end

/-- Folding a whole document is a run over its lines. -/
theorem foldLines_all (x : Lexer) {d : Document} (hread : d.readLimit = none) :
    (x.foldLines d 0 (d.lineCount - 1)).1 =
      d.lines.foldLevels x.words x.settings.foldMiddle FoldLevel.base := by
  have hpos := d.lineCount_pos
  have hspan : d.lineSpan 0 (d.lineCount - 1) = d.lines.length := by
    rw [lineSpan, lineCount]
    rw [lineCount] at hpos
    omega
  have hrun := @foldRun_split d x.words x.settings.foldMiddle [] d.lines hread rfl FoldLevel.base
  rw [Lexer.foldLines, Lexer.fold, hspan]
  exact congrArg Prod.fst hrun

end Document

/-! ## Folding redacted lines -/

namespace Lines

section
variable {incoming : LineState} {l : Line} {ls : Lines}
  (hstyle : ∀ offset < size (l :: ls),
    (styleAt (l :: ls) offset).region = outlineAt incoming (l :: ls) offset)
include hstyle

/-- In the first of lines with the styles of their outline the tokens in code count. -/
theorem count_first (words : WordLists) (role : WordRole) :
    words.count role ((Token.scan l.text 0).map fun t => (t, l.styleAt t.start)) =
      (Token.inCode (codeAt incoming l.text) (Token.scan l.text 0)).countP
        fun (t, _) => (words.get role).contains t.content := by
  refine count_eq_inCode (fun t ht => ?_) words role
  have hbound := (Token.scan_ordered l.text 0).mem ht
  have hsize := l.size_eq
  have hle := @size_le_size_cons l ls
  have hregion := hstyle t.start (by omega)
  rw [styleAt, if_pos (by omega), outlineAt_first _ _ (by omega)] at hregion
  rw [codeAt, ← hregion, Style.isInert_region]

/-- The lines behind the first one have the styles of their outline too. -/
theorem region_behind {offset : Nat} (hoff : offset < size ls) :
    (styleAt ls offset).region = outlineAt (outline incoming l.text).endState ls offset := by
  have hne : ls ≠ [] := by
    rintro rfl
    exact Nat.not_lt_zero _ hoff
  have hregion := hstyle (l.size + 1 + offset) (by rw [size_cons hne]; omega)
  rwa [styleAt_cons, outlineAt_behind] at hregion

end

/-- Lines that are redacted to the same are folded alike, if their comments and strings have their
styles. -/
theorem foldLevels_of_redacted {incoming incoming' : LineState} {ls ls' : Lines}
    (h : redacted incoming ls = redacted incoming' ls')
    (hstyle : ∀ offset < size ls, (styleAt ls offset).region = outlineAt incoming ls offset)
    (hstyle' : ∀ offset < size ls', (styleAt ls' offset).region = outlineAt incoming' ls' offset)
    (words : WordLists) (foldMiddle : Bool) (previous : Int) :
    ls.foldLevels words foldMiddle previous = ls'.foldLevels words foldMiddle previous := by
  induction ls generalizing incoming incoming' ls' previous with
  | nil =>
    cases ls' with
    | nil => rfl
    | cons => cases h
  | cons l ls ih =>
    cases ls' with
    | nil => cases h
    | cons l' ls' =>
      obtain ⟨hl, hls⟩ := List.cons.inj h
      have hcount : ∀ role,
          words.count role ((Token.scan l.text 0).map fun t => (t, l.styleAt t.start)) =
            words.count role ((Token.scan l'.text 0).map fun t => (t, l'.styleAt t.start)) := by
        intro role
        rw [count_first hstyle, count_first hstyle', inCode_of_redact_eq hl]
      have hlevel : l.foldLevel words foldMiddle previous =
          l'.foldLevel words foldMiddle previous := foldLine_congr hcount foldMiddle previous
      rw [foldLevels, foldLevels, hlevel]
      exact congrArg _ (ih hls (fun _ => region_behind hstyle) (fun _ => region_behind hstyle') _)

end Lines

end Papyrus

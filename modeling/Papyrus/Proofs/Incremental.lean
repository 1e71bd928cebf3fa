import Papyrus.Proofs.Edit
import Papyrus.Proofs.Outline
/-!
# Styling after edits

After each edit an editor styles the lines from the edited one on again and leaves those before it
as they are. The first of them is entered in the state that the terminator before it tells.

Inside a document that terminator has been styled. The slot behind the last line has not: styling
leaves it alone, as no line follows, and when lines are appended it becomes a terminator as it is.
Comments and strings therefore stay where styling from scratch puts them exactly as long as no lines
are appended while that slot tells something else than what the last line leaves (`Sealed`).

Results:
* `wellOutlined_iff`: what styling from scratch makes of comments and strings is the outline.
* `wellOutlined_editStep`: one edit keeps the outline, unless it appends to a document not sealed.
* `wellOutlined_run_iff`: the same for runs of edits.
-/
namespace Papyrus

namespace Lexer

/-- Carries out an edit, which the lexer follows, and styles the lines from the edited one on. -/
def editStep (files : FileTree) (s : Lexer × Document) (e : Edit) : Lexer × Document :=
  let (change, d) := e.apply s.2
  ((s.1.follow change).restyleLines files d change.line (d.lineCount - 1)).2

/-- Carries out edits, one after the other. -/
def editRun (files : FileTree) (s : Lexer × Document) (edits : List Edit) : Lexer × Document :=
  edits.foldl (editStep files) s

/-- The state in which the lines behind some others are entered. -/
theorem incomingState_append {d : Document} {pre ls : Lines} (h : d.lines = pre ++ ls)
    (hpre : ∀ offset < Lines.width pre,
      (Lines.styleAt pre offset).region = Lines.outlineAt .default pre offset) :
    incomingState d pre.length = Lines.leave .default pre := by
  rcases List.eq_nil_or_concat pre with rfl | ⟨p, l, rfl⟩
  · rfl
  · rw [List.concat_eq_append] at h hpre ⊢
    have hne : p ++ [l] ≠ [] := by simp
    have hlines : d.lines = p ++ l :: ls := by rw [h, List.append_assoc]; rfl
    have hsize : Lines.size (p ++ [l]) = Lines.width p + l.size := Lines.size_split p l []
    have hlt : Lines.size (p ++ [l]) < Lines.width (p ++ [l]) := by
      rw [Lines.width_eq hne]
      exact Nat.lt_succ_self _
    have hend := hpre _ hlt
    rw [hsize, Lines.styleAt_split p l [] (Nat.le_refl _)] at hend
    rw [Lines.leave_eq_ofStyle hne, hsize, ← hend, LineState.ofStyle_region, List.length_append,
      List.length_singleton, incomingState, Document.lineEnd, hlines, Lines.lineEnd_split,
      Document.styleAt_line hlines (Nat.le_refl _)]

end Lexer

namespace Document

/-- The comments and strings of a document stand where styling its lines from scratch puts them. -/
def WellOutlined (d : Document) : Prop :=
  ∀ (x : Lexer) (files : FileTree) (f : Document), f.readLimit = none →
    f.lines.map Line.text = d.lines.map Line.text →
    ∀ offset < d.size, (d.styleAt offset).region = ((x.restyleAll files f).2.styleAt offset).region

/-- The slot behind the last line has the style of white space there, as if a line followed. -/
def Sealed (d : Document) : Prop :=
  (d.styleAt d.size).region = d.lines.outlineAt .default d.size

theorem region_restyleAll (x : Lexer) (files : FileTree) {d : Document} (h : d.readLimit = none)
    {offset : Nat} (hoff : offset < d.size) :
    ((x.restyleAll files d).2.styleAt offset).region = d.lines.outlineAt .default offset := by
  rw [styleAt, Lexer.lines_restyleAll x files h]
  exact Lines.region_styled _ _ _ _ _ hoff

theorem wellOutlined_iff {d : Document} :
    d.WellOutlined ↔
      ∀ offset < d.size, (d.styleAt offset).region = d.lines.outlineAt .default offset := by
  constructor
  · intro h offset hoff
    rw [h default {} { d with readLimit := none } rfl rfl offset hoff]
    exact region_restyleAll _ _ rfl hoff
  · intro h x files f hread htexts offset hoff
    have hsize : f.size = d.size := Lines.size_congr htexts
    rw [h offset hoff, region_restyleAll x files hread (by omega), Lines.outlineAt_congr htexts]

theorem wellOutlined_restyleAll (x : Lexer) (files : FileTree) {d : Document}
    (h : d.readLimit = none) : (x.restyleAll files d).2.WellOutlined := by
  have htexts := x.map_text_restyleAll files d
  have hsize : (x.restyleAll files d).2.size = d.size := Lines.size_congr htexts
  rw [wellOutlined_iff]
  intro offset hoff
  rw [region_restyleAll x files h (by omega), Lines.outlineAt_congr htexts]

/-! ## One edit -/

section
variable (x : Lexer) (files : FileTree) {d : Document} {e : Edit} {pre old new post : Lines}

/-- Styling from the edited line on styles the lines that an edit puts in and those behind them. -/
theorem lines_restyleLines (he : e.Effect d pre old new post) (hread : d.readLimit = none) :
    (x.restyleLines files (e.apply d).2 (e.apply d).1.line
      ((e.apply d).2.lineCount - 1)).2.2.lines = pre ++
      (Lines.styled id (x.surroundings files) pre.length
        (Lexer.incomingState (e.apply d).2 pre.length) x.knowledge
        (new ++ post).length (new ++ post)).2.2 := by
  have hlines := he.lines_apply
  have hcut : (e.apply d).2.cut = id := funext (cut_of_unlimited (by rw [e.readLimit_apply, hread]))
  unfold Lexer.restyleLines
  rcases he.line_eq with hline | ⟨hnil, hline⟩
  · rw [hline, Lexer.restyle_split _ _ hlines, hcut]
    refine lines_withLines fun hempty => he.ne_nil ?_
    obtain ⟨hpre, hrest⟩ := List.append_eq_nil_iff.1 hempty
    rw [hpre, Classical.not_not.1 fun hne => Lines.styled_ne_nil.2 hne hrest]
    rfl
  · have hnil := (List.append_eq_nil_iff.1 hnil).2
    rw [hnil, List.append_nil] at hlines
    have hbeyond : (e.apply d).2.lineCount ≤ (e.apply d).1.line := by
      rw [lineCount, hlines]
      exact hline
    rw [Lexer.restyle_beyond _ _ hbeyond, hnil, hlines]
    exact (List.append_nil pre).symm

/-- After an edit, the lines from the edited one on are styled. -/
theorem lines_editStep (he : e.Effect d pre old new post) (hread : d.readLimit = none) :
    ∃ env k, (Lexer.editStep files (x, d) e).2.lines = pre ++
      (Lines.styled id env pre.length (Lexer.incomingState (e.apply d).2 pre.length) k
        (new ++ post).length (new ++ post)).2.2 :=
  ⟨_, _, lines_restyleLines (x.follow (e.apply d).1) files he hread⟩

/-- The lines before the edited one end within the document, or with it if none stand behind. -/
theorem width_le_of_effect (he : e.Effect d pre old new post) :
    Lines.width pre ≤ d.size + 1 ∧ (old ++ post ≠ [] → Lines.width pre ≤ d.size) := by
  by_cases hold : old ++ post = []
  · have hlines : d.lines = pre := by rw [he.lines_eq, hold, List.append_nil]
    rw [size, ← hlines, Lines.width_eq d.lines_ne_nil]
    exact ⟨Nat.le_refl _, absurd hold⟩
  · rw [size, he.lines_eq, Lines.size_append pre hold]
    omega

/-- The outline of the lines before the edited one, with the slot behind the document if they are
all of it. -/
theorem outlined_before (he : e.Effect d pre old new post) (h : d.WellOutlined) {offset : Nat}
    (hoff : offset < Lines.width pre) (hend : offset = d.size → d.Sealed) :
    (Lines.styleAt pre offset).region = Lines.outlineAt .default pre offset := by
  have hstyle : d.styleAt offset = Lines.styleAt pre offset := by
    rw [styleAt, he.lines_eq, Lines.styleAt_append, if_pos hoff]
  have houtline : d.lines.outlineAt .default offset = Lines.outlineAt .default pre offset := by
    rw [he.lines_eq, Lines.outlineAt_append, if_pos hoff]
  have hwidth := (width_le_of_effect he).1
  rw [← hstyle, ← houtline]
  by_cases hin : offset < d.size
  · exact wellOutlined_iff.1 h offset hin
  · obtain rfl : offset = d.size := by omega
    exact hend rfl

/-- An edit keeps comments and strings where they belong, unless it appends to a document whose last
slot tells something else than what its last line leaves. -/
theorem wellOutlined_editStep (e : Edit) (hread : d.readLimit = none) (h : d.WellOutlined) :
    (Lexer.editStep files (x, d) e).2.WellOutlined ↔ (e.appends d → d.Sealed) := by
  obtain ⟨pre, old, new, post, he⟩ := Edit.exists_effect d e
  obtain ⟨env, k, hlines⟩ := lines_editStep x files he hread
  have hstyled := Lines.map_text_styled id env pre.length
    (Lexer.incomingState (e.apply d).2 pre.length) k (new ++ post).length (new ++ post)
  have hne := @Lines.styled_ne_nil id env pre.length
    (Lexer.incomingState (e.apply d).2 pre.length) k (new ++ post).length (new ++ post)
  have hregion := @Lines.region_styled env pre.length
    (Lexer.incomingState (e.apply d).2 pre.length) k (new ++ post)
  generalize (Lines.styled id env pre.length (Lexer.incomingState (e.apply d).2 pre.length) k
    (new ++ post).length (new ++ post)).2.2 = rest at hlines hstyled hne hregion
  rw [wellOutlined_iff, size, hlines]
  constructor
  · intro hafter happends
    obtain ⟨hold, hnew⟩ := he.appends_iff.1 happends
    have hpre : d.lines = pre := by rw [he.lines_eq, hold, List.append_nil]
    have hwidth : Lines.width pre = d.size + 1 := by
      rw [size, ← hpre, Lines.width_eq d.lines_ne_nil]
    have hend := hafter d.size (by rw [Lines.size_append pre (hne.2 hnew)]; omega)
    rw [styleAt, hlines, Lines.styleAt_append, if_pos (by omega), Lines.outlineAt_append,
      if_pos (by omega)] at hend
    rw [Sealed, styleAt, hpre]
    exact hend
  · intro hsealed offset hoff
    have hwidth := width_le_of_effect he
    rw [styleAt, hlines, Lines.styleAt_append, Lines.outlineAt_append]
    by_cases hnew : new ++ post = []
    · -- no line is left behind those before the edit
      have hrest : rest = [] := Classical.not_not.1 fun h => hne.1 h hnew
      have hpre : pre ≠ [] := fun hnil => he.ne_nil (by rw [hnil, hnew]; rfl)
      rw [hrest, List.append_nil] at hoff
      rw [Lines.width_eq hpre] at hwidth ⊢
      rw [if_pos (by omega), if_pos (by omega)]
      refine outlined_before he h ?_ fun hend => ?_
      · rw [Lines.width_eq hpre]
        omega
      · omega
    · have hpre : ∀ offset < Lines.width pre,
          (Lines.styleAt pre offset).region = Lines.outlineAt .default pre offset := by
        intro offset hoff
        refine outlined_before he h hoff fun hend => hsealed (he.appends_iff.2 ⟨?_, hnew⟩)
        refine Classical.not_not.1 fun hold => ?_
        have := hwidth.2 hold
        omega
      by_cases hin : offset < Lines.width pre
      · rw [if_pos hin, if_pos hin]
        exact hpre offset hin
      · rw [Lines.size_append pre (hne.2 hnew), Lines.size_congr hstyled] at hoff
        rw [if_neg hin, if_neg hin, hregion (by omega), Lines.outlineAt_congr hstyled,
          Lexer.incomingState_append he.lines_apply hpre]

end

/-! ## Runs of edits -/

theorem readLimit_editStep (files : FileTree) (s : Lexer × Document) (e : Edit) :
    (Lexer.editStep files s e).2.readLimit = s.2.readLimit :=
  (Lexer.readLimit_restyle _ _ _ _ _ _).trans (e.readLimit_apply _)

theorem readLimit_editRun (files : FileTree) (s : Lexer × Document) (edits : List Edit) :
    (Lexer.editRun files s edits).2.readLimit = s.2.readLimit := by
  induction edits generalizing s with
  | nil => rfl
  | cons e edits ih => rw [Lexer.editRun, List.foldl_cons, ← Lexer.editRun, ih, readLimit_editStep]

theorem editRun_take_succ (files : FileTree) (s : Lexer × Document) {edits : List Edit} {n : Nat}
    {e : Edit} (h : edits[n]? = some e) :
    Lexer.editRun files s (edits.take (n + 1)) =
      Lexer.editStep files (Lexer.editRun files s (edits.take n)) e := by
  rw [Lexer.editRun, List.take_add_one, h, List.foldl_append]
  rfl

/-- A run of edits keeps comments and strings where styling from scratch puts them after every step
exactly if no lines are appended while the document is not sealed. -/
theorem wellOutlined_run_iff (x : Lexer) (files : FileTree) (name : String) (text : Text)
    (edits : List Edit) :
    let after (n : Nat) :=
      (Lexer.editRun files (x.restyleAll files (ofText name text)) (edits.take n)).2
    (∀ n, (after n).WellOutlined) ↔
      ∀ n e, edits[n]? = some e → e.appends (after n) → (after n).Sealed := by
  intro after
  have hread : ∀ n, (after n).readLimit = none := by
    intro n
    exact (readLimit_editRun _ _ _).trans (Lexer.readLimit_restyle _ _ _ _ _ _)
  have hstep : ∀ n e, edits[n]? = some e → (after n).WellOutlined →
      ((after (n + 1)).WellOutlined ↔ (e.appends (after n) → (after n).Sealed)) := by
    intro n e he h
    have happly := wellOutlined_editStep
      (Lexer.editRun files (x.restyleAll files (ofText name text)) (edits.take n)).1 files e
      (hread n) h
    show (Lexer.editRun files _ (edits.take (n + 1))).2.WellOutlined ↔ _
    rw [editRun_take_succ files _ he]
    exact happly
  constructor
  · intro h n e he
    exact (hstep n e he (h n)).1 (h (n + 1))
  · intro h n
    induction n with
    | zero => exact wellOutlined_restyleAll x files rfl
    | succ n ih =>
      cases he : edits[n]? with
      | none =>
        have htake : edits.take (n + 1) = edits.take n := by
          rw [List.take_add_one, he]
          exact List.append_nil _
        show (Lexer.editRun files _ (edits.take (n + 1))).2.WellOutlined
        rw [htake]
        exact ih
      | some e => exact (hstep n e he ih).2 (h n e he)

/-- A line that is put behind an open comment at the end of a document is styled as code. -/
theorem not_wellOutlined_appended :
    let x := Lexer.ofSettings { words := PerRole.ofFn fun _ => some "" }
    let s := x.restyleAll {} (ofText "open" ['\x7b'])
    ¬ (Lexer.editStep {} s (.insert 1 [['x']])).2.WellOutlined := by
  intro x s h
  have hline := wellOutlined_iff.1 h 2 (by decide +kernel)
  exact absurd hline (by decide +kernel)

end Document

end Papyrus

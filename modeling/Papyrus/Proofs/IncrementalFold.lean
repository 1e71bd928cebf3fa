import Papyrus.Proofs.FoldRun
import Papyrus.Proofs.Incremental
/-!
# Folding after edits

After each edit an editor styles and folds the lines from the edited one on again. The level at
which the first of them starts is what the line before it leaves (`Lexer.incomingLevel`). That line
has not been touched since, and its level was right, so this one is right too; new lines have no
level of their own, but none is asked for before they have been folded.

Results:
* `lines_foldLines`: folding from a line on gives the lines behind it their levels.
* `incomingLevel_append`: the level at which lines start that follow others with the right levels.
* `wellFolded_refold`: one edit keeps all fold levels right.
* `wellFolded_refoldAll`: runs of edits do.
-/
namespace Papyrus

/-! ## Folded lines -/

namespace Lines

/-- The level that lines leave. -/
def levelAfter (words : WordLists) (foldMiddle : Bool) (previous : Int) : Lines → Int
  | [] => previous
  | l :: ls => levelAfter words foldMiddle (l.foldLevel words foldMiddle previous).next ls

/-- The fold levels of lines are right, if the first one starts at level `previous`. -/
def WellFolded (words : WordLists) (foldMiddle : Bool) (previous : Int) (ls : Lines) : Prop :=
  ls.map Line.fold = (ls.foldLevels words foldMiddle previous).map some

section
variable (words : WordLists) (foldMiddle : Bool) (previous : Int)

theorem foldLevels_append (pre ls : Lines) :
    (pre ++ ls).foldLevels words foldMiddle previous =
      pre.foldLevels words foldMiddle previous ++
        ls.foldLevels words foldMiddle (pre.levelAfter words foldMiddle previous) := by
  induction pre generalizing previous with
  | nil => rfl
  | cons l pre ih => exact congrArg (_ :: ·) (ih _)

theorem levelAfter_append (pre ls : Lines) :
    (pre ++ ls).levelAfter words foldMiddle previous =
      ls.levelAfter words foldMiddle (pre.levelAfter words foldMiddle previous) := by
  induction pre generalizing previous with
  | nil => rfl
  | cons l pre ih => exact ih _

theorem length_foldLevels (ls : Lines) :
    (ls.foldLevels words foldMiddle previous).length = ls.length := by
  induction ls generalizing previous with
  | nil => rfl
  | cons l ls ih => exact congrArg (· + 1) (ih _)

theorem length_folded (ls : Lines) :
    (ls.folded words foldMiddle previous).length = ls.length := by
  induction ls generalizing previous with
  | nil => rfl
  | cons l ls ih => exact congrArg (· + 1) (ih _)

theorem wellFolded_folded (ls : Lines) :
    (ls.folded words foldMiddle previous).WellFolded words foldMiddle previous := by
  induction ls generalizing previous with
  | nil => rfl
  | cons l ls ih => exact congrArg (_ :: ·) (ih _)

theorem wellFolded_append (pre ls : Lines) :
    (pre ++ ls).WellFolded words foldMiddle previous ↔
      pre.WellFolded words foldMiddle previous ∧
        ls.WellFolded words foldMiddle (pre.levelAfter words foldMiddle previous) := by
  have hlength : (pre.map Line.fold).length =
      ((pre.foldLevels words foldMiddle previous).map some).length := by
    rw [List.length_map, List.length_map, length_foldLevels]
  unfold WellFolded
  rw [foldLevels_append, List.map_append, List.map_append]
  exact ⟨fun h => List.append_inj h hlength, fun h => by rw [h.1, h.2]⟩

end

end Lines

namespace Document

/-- The fold levels are those that folding all lines gives. -/
def WellFolded (d : Document) (x : Lexer) : Prop :=
  ∀ line, d.foldLevel? line = (x.foldLines d 0 (d.lineCount - 1)).1[line]?

theorem wellFolded_iff {d : Document} {x : Lexer} (hread : d.readLimit = none) :
    d.WellFolded x ↔ d.lines.WellFolded x.words x.settings.foldMiddle FoldLevel.base := by
  have hlength := Lines.length_foldLevels x.words x.settings.foldMiddle FoldLevel.base d.lines
  unfold WellFolded
  rw [foldLines_all x hread, Lines.WellFolded]
  generalize d.lines.foldLevels x.words x.settings.foldMiddle FoldLevel.base = levels at hlength ⊢
  rw [List.ext_getElem?_iff]
  refine forall_congr' fun i => ?_
  rw [List.getElem?_map, List.getElem?_map, foldLevel?]
  by_cases hi : i < d.lines.length
  · rw [List.getElem?_eq_getElem hi, List.getElem?_eq_getElem (hlength ▸ hi)]
    exact ⟨congrArg some, Option.some.inj⟩
  · rw [List.getElem?_eq_none (Nat.le_of_not_lt hi),
      List.getElem?_eq_none (hlength ▸ Nat.le_of_not_lt hi)]
    exact ⟨fun _ => rfl, fun _ => rfl⟩

theorem readLimit_foldRun (d : Document) (words : WordLists) (foldMiddle : Bool) (line : Nat)
    (previous : Int) (count : Nat) :
    (d.foldRun words foldMiddle line previous count).2.readLimit = d.readLimit := by
  induction count generalizing d line previous with
  | zero => rfl
  | succ count ih => exact ih _ _ _

end Document

namespace Lexer

theorem readLimit_foldLines (x : Lexer) (d : Document) (first last : Nat) :
    (x.foldLines d first last).2.readLimit = d.readLimit := d.readLimit_foldRun _ _ _ _ _

section
variable {x : Lexer} {d : Document} {pre ls : Lines}

/-- Folding from a line on gives it and the lines behind it their levels. -/
theorem lines_foldLines (hread : d.readLimit = none) (h : d.lines = pre ++ ls) {line : Nat}
    (hline : line = pre.length ∨ ls = [] ∧ pre.length ≤ line) :
    (x.foldLines d line (d.lineCount - 1)).2.lines =
      pre ++ ls.folded x.words x.settings.foldMiddle (incomingLevel d pre.length) := by
  have hcount : d.lineCount = pre.length + ls.length := by
    rw [Document.lineCount, h, List.length_append]
  have hpos := d.lineCount_pos
  unfold foldLines fold Document.lineSpan
  rcases hline with rfl | ⟨rfl, hline⟩
  · have hspan : min (d.lineCount - 1) (d.lineCount - 1) + 1 - pre.length = ls.length := by omega
    rw [hspan, Document.foldRun_split _ _ hread h]
    refine Document.lines_withLines (List.ne_nil_of_length_pos ?_)
    rw [List.length_append, Lines.length_folded]
    omega
  · -- nothing is folded behind the last line
    rw [List.length_nil] at hcount
    have hspan : min (d.lineCount - 1) (d.lineCount - 1) + 1 - line = 0 := by omega
    rw [hspan]
    exact h

/-- The level at which the lines behind some others start, as the last one of them tells. -/
theorem incomingLevel_append {words : WordLists} {foldMiddle : Bool} (h : d.lines = pre ++ ls)
    (hpre : pre.WellFolded words foldMiddle FoldLevel.base) :
    incomingLevel d pre.length = pre.levelAfter words foldMiddle FoldLevel.base := by
  rcases List.eq_nil_or_concat pre with rfl | ⟨p, l, rfl⟩
  · rfl
  · rw [List.concat_eq_append] at h hpre ⊢
    have hlast : l.fold = some (l.foldLevel words foldMiddle
        (Lines.levelAfter words foldMiddle FoldLevel.base p)) :=
      (List.cons.inj ((Lines.wellFolded_append _ _ _ _ _).1 hpre).2).1
    have hline : d.lines[p.length]? = some l := by
      rw [h, List.append_assoc, List.getElem?_append_right (Nat.le_refl _), Nat.sub_self]
      rfl
    rw [List.length_append, List.length_singleton, incomingLevel, Document.foldLevel?, hline,
      Option.bind_some, hlast, Lines.levelAfter_append]
    rfl

/-- Folding from a line on makes all levels right, if those before it are. -/
theorem wellFolded_foldLines (hread : d.readLimit = none) (h : d.lines = pre ++ ls)
    (hpre : pre.WellFolded x.words x.settings.foldMiddle FoldLevel.base) {line : Nat}
    (hline : line = pre.length ∨ ls = [] ∧ pre.length ≤ line) :
    (x.foldLines d line (d.lineCount - 1)).2.WellFolded x := by
  have hread' := (readLimit_foldLines x d line (d.lineCount - 1)).trans hread
  rw [Document.wellFolded_iff hread', lines_foldLines hread h hline, incomingLevel_append h hpre,
    Lines.wellFolded_append]
  exact ⟨hpre, Lines.wellFolded_folded _ _ _ _⟩

end

/-! ## Edits -/

/-- Folds a whole document. -/
def foldAll (x : Lexer) (d : Document) : Document := (x.foldLines d 0 (d.lineCount - 1)).2

/-- Carries out an edit, which the lexer follows if it is told of it, and styles and folds the lines
from the edited one on. -/
def refold (files : FileTree) (s : Lexer × Document) (step : Edit × Bool) : Lexer × Document :=
  let (change, d) := step.1.apply s.2
  let x := if step.2 then s.1.follow change else s.1
  let (x, d) := (x.restyleLines files d change.line (d.lineCount - 1)).2
  (x, (x.foldLines d change.line (d.lineCount - 1)).2)

/-- Carries out edits, one after the other, and folds after each of them. -/
def refoldAll (files : FileTree) (s : Lexer × Document) (steps : List (Edit × Bool)) :
    Lexer × Document :=
  steps.foldl (refold files) s

section
variable {files : FileTree} {s : Lexer × Document}

/-- An edit keeps all fold levels right, if the lines from the edited one on are styled and folded
again. -/
theorem wellFolded_refold (hread : s.2.readLimit = none) (h : s.2.WellFolded s.1)
    (step : Edit × Bool) : (refold files s step).2.WellFolded (refold files s step).1 := by
  obtain ⟨x, d⟩ := s
  obtain ⟨e, told⟩ := step
  obtain ⟨pre, old, new, post, he⟩ := e.exists_effect d
  have hpre : Lines.WellFolded x.words x.settings.foldMiddle FoldLevel.base pre := by
    rw [Document.wellFolded_iff hread, he.lines_eq] at h
    exact ((Lines.wellFolded_append _ _ _ _ _).1 h).1
  have hfollow : ∃ y : Lexer, (if told then x.follow (e.apply d).1 else x) = y ∧
      y.words = x.words ∧ y.settings = x.settings := by
    cases told <;> exact ⟨_, rfl, rfl, rfl⟩
  obtain ⟨y, hy, hwords, hsettings⟩ := hfollow
  have hlines := Document.lines_restyleLines y files he hread
  have hline : (e.apply d).1.line = pre.length ∨
      (Lines.styled id (y.surroundings files) pre.length (incomingState (e.apply d).2 pre.length)
        y.knowledge (new ++ post).length (new ++ post)).2.2 = [] ∧
      pre.length ≤ (e.apply d).1.line := by
    refine he.line_eq.imp id fun ⟨hnil, hle⟩ => ⟨?_, hle⟩
    refine Classical.not_not.1 fun hne => Lines.styled_ne_nil.1 hne ?_
    exact (List.append_eq_nil_iff.1 hnil).2
  have hread' : (y.restyleLines files (e.apply d).2 (e.apply d).1.line
      ((e.apply d).2.lineCount - 1)).2.2.readLimit = none :=
    (readLimit_restyle _ _ _ _ _ _).trans ((e.readLimit_apply d).trans hread)
  rw [← hwords, ← hsettings] at hpre
  unfold refold
  dsimp only
  rw [hy]
  exact wellFolded_foldLines hread' hlines hpre hline

theorem readLimit_refold (step : Edit × Bool) :
    (refold files s step).2.readLimit = s.2.readLimit :=
  (readLimit_foldLines _ _ _ _).trans
    ((readLimit_restyle _ _ _ _ _ _).trans (step.1.readLimit_apply s.2))

/-- Runs of edits keep all fold levels right. -/
theorem wellFolded_run (hread : s.2.readLimit = none) (h : s.2.WellFolded s.1)
    (steps : List (Edit × Bool)) :
    (refoldAll files s steps).2.WellFolded (refoldAll files s steps).1 := by
  induction steps generalizing s with
  | nil => exact h
  | cons step steps ih =>
    exact ih ((readLimit_refold step).trans hread) (wellFolded_refold hread h step)

theorem wellFolded_foldAll (x : Lexer) {d : Document} (hread : d.readLimit = none) :
    (x.foldAll d).WellFolded x :=
  @wellFolded_foldLines x d [] d.lines hread rfl rfl 0 (Or.inl rfl)

end

/-- A document that has been folded, in whatever way it is styled, has the fold levels that folding
all its lines gives after any run of edits, if after each the lines from the edited one on are
styled and folded again. -/
theorem wellFolded_refoldAll (x : Lexer) (files : FileTree) {d : Document}
    (hread : d.readLimit = none) (steps : List (Edit × Bool)) :
    let s := refoldAll files (x, x.foldAll d) steps
    s.2.WellFolded s.1 :=
  wellFolded_run ((readLimit_foldLines x d _ _).trans hread) (wellFolded_foldAll x hread) steps

/-- Lines are put in before the first one, all lines are deleted, and lines are put in behind the
last one. -/
theorem wellFolded_refoldAll_deleted :
    let x := ofSettings {}
    let d := Document.ofText "if" "If\nEndIf".toList
    let s := refoldAll {} (x, x.foldAll d)
      [(.insert 0 [['I', 'f']], true), (.delete 0 9, true), (.insert 9 [['I', 'f'], []], false)]
    s.2.WellFolded s.1 ∧ s.2.foldLevel? 2 = some ⟨0x401, 0x401, false⟩ := by
  intro x d s
  have h := @wellFolded_refoldAll x {} d rfl
    [(.insert 0 [['I', 'f']], true), (.delete 0 9, true), (.insert 9 [['I', 'f'], []], false)]
  exact ⟨h, by decide +kernel⟩

end Lexer

end Papyrus

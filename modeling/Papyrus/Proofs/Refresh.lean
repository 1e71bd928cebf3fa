import Papyrus.Proofs.ClassCache
import Papyrus.Proofs.Highlight
import Papyrus.Proofs.IncrementalFold
/-!
# What a changed setting leaves as it is

When a setting is changed, `Lexer.apply` says what has to be done anew. Nothing else has to be:
styles that styling the whole document does not change any more are not changed under the new
setting either, unless `apply` asks for styles, and fold levels stay likewise.

Styling does not look at the words for folding, at the way of folding and at the settings for
matches. It looks at what is remembered of classes, but what a lexer remembers is so, in whatever
way it has been used (`Lexer.Reached`), and can be forgotten. Folding looks at the words and at the
way of folding only.

Results:
* `restyleRun_congr`: styling does not look at the words for folding.
* `truthful_of_reached`: a lexer remembers nothing that is not so.
* `settled_apply`: what is settled stays settled, but for what is to be done anew.
-/
namespace Papyrus

/-! ## What styling looks at -/

section
variable {env : Surroundings} {words : WordLists}
  (h : ∀ role : WordRole, role.isFolding = false → env.words.get role = words.get role)
  (line : Nat) (k : Knowledge)
include h

theorem styleIdentifier_congr (word : String) (next : Option Token) :
    styleIdentifier env line word next k =
      styleIdentifier { env with words := words } line word next k := by
  simp only [styleIdentifier, h .flowControl rfl, h .types rfl, h .keywords rfl,
    h .keywordsAlt rfl, h .operators rfl]

theorem styleToken_congr (mode : Mode) (behind : List Token) (t : Token) (next : Option Token) :
    styleToken env line mode behind t next k =
      styleToken { env with words := words } line mode behind t next k := by
  have hoperators : env.words.operators = words.operators := h .operators rfl
  cases mode with
  | code =>
    unfold styleToken styleCode
    rw [styleIdentifier_congr h, hoperators]
  | _ => rfl

theorem styleTokens_congr (mode : Mode) (behind : List Token) (cursor : Nat)
    (tokens : List Token) :
    styleTokens env line mode behind cursor k tokens =
      styleTokens { env with words := words } line mode behind cursor k tokens := by
  induction tokens generalizing mode behind cursor k with
  | nil => rfl
  | cons t rest ih => simp only [styleTokens, styleToken_congr h, ih]

/-- Styling does not look at the words for folding. -/
theorem restyleRun_congr (d : Document) (incoming : LineState) (count : Nat) :
    d.restyleRun env line incoming k count =
      d.restyleRun { env with words := words } line incoming k count := by
  induction count generalizing d line incoming k with
  | zero => rfl
  | succ count ih =>
    have hline : d.restyleLine env line incoming k =
        d.restyleLine { env with words := words } line incoming k := by
      simp only [Document.restyleLine, styleLine, styleTokens_congr h]
    simp only [Document.restyleRun, hline, ih]

end

namespace Lexer

/-! ## Lexers in use -/

/-- A lexer that has been in use, with any settings and on any documents. Styling in the state that
a terminator tells is styling in a given state, and folding a document leaves the lexer as it is. -/
inductive Reached (files : FileTree) : Lexer → Prop
  | new (settings : Settings) : Reached files (ofSettings settings)
  | restyle {x : Lexer} (h : Reached files x) (d : Document) (first last : Nat)
      (incoming : LineState) : Reached files (x.restyle files d first last incoming).2.1
  | follow {x : Lexer} (h : Reached files x) (change : LineChange) : Reached files (x.follow change)
  | matchAt {x : Lexer} (h : Reached files x) (d : Document) (caret : Nat) :
      Reached files (x.matchAt d caret).2.1
  | repaint {x : Lexer} (h : Reached files x) (d : Document) : Reached files (x.repaint d).1
  | followLink {x : Lexer} (h : Reached files x) (d : Document) (offset : Nat) :
      Reached files (x.followLink files d offset).2.1
  | apply {x y : Lexer} {change : SettingChange} {refresh : Refresh} (h : Reached files x)
      (happly : x.apply change = .ok (refresh, y)) : Reached files y

theorem truthful_repaint {files : FileTree} {x : Lexer} (h : x.Truthful files) (d : Document) :
    (x.repaint d).1.Truthful files := by
  obtain ⟨painted, hx, -⟩ := x.fst_repaint d
  rw [hx]
  exact h

/-- What a lexer remembers of classes is so. -/
theorem truthful_of_reached {files : FileTree} {x : Lexer} (h : Reached files x) :
    x.Truthful files := by
  induction h with
  | new settings => exact fun _ _ => ClassResolver.truthful_of_caches rfl
  | restyle _ d first last incoming ih =>
    exact (alike_restyle ⟨rfl, ih, ih⟩ d first last incoming).2.1.left
  | follow _ change ih => exact ih
  | matchAt _ d caret ih =>
    rw [matchAt_eq_repaint]
    exact @truthful_repaint files (ask _ d caret) ih d
  | repaint _ d ih => exact truthful_repaint ih d
  | followLink _ d offset ih => exact (alike_followLink ⟨rfl, ih, ih⟩ d offset).2.1.left
  | apply _ happly ih => exact truthful_apply ih happly

/-! ## What a change leaves as it is -/

section
variable {files : FileTree} {x y : Lexer} {change : SettingChange} {refresh : Refresh}
  (h : x.apply change = .ok (refresh, y))
include h

/-- Unless it asks for styles, a change leaves what styling looks at as it is, but for what is
remembered of classes. -/
theorem surroundings_apply (hrefresh : refresh ≠ .styles) :
    (∀ role : WordRole, role.isFolding = false → x.words.get role = y.words.get role) ∧
      y.surroundings files = { x.surroundings files with words := y.words } ∧
      y.properties = x.properties := by
  cases change with
  | activeProfile name? => exact absurd (apply_activeProfile h).1 hrefresh
  | profiles profiles =>
    obtain ⟨rfl, -⟩ := Prod.mk.inj (Except.ok.inj h)
    exact absurd rfl hrefresh
  | words role words =>
    obtain ⟨rfl, rfl⟩ := Prod.mk.inj (Except.ok.inj h)
    refine ⟨fun other hother => ?_, rfl, rfl⟩
    have hrole : role.isFolding = true := by
      by_contra hnot
      exact hrefresh (if_neg hnot)
    have hne : other ≠ role := by
      rintro rfl
      rw [hrole] at hother
      cases hother
    rw [PerRole.get_set, if_neg hne]
  | _ =>
    obtain ⟨-, rfl⟩ := Prod.mk.inj (Except.ok.inj h)
    exact ⟨fun _ _ => rfl, rfl, rfl⟩

/-- If it asks for nothing or for highlights, a change leaves what folding looks at as it is. -/
theorem folding_apply (hrefresh : refresh = .nothing ∨ refresh = .highlights) :
    y.words = x.words ∧ y.settings.foldMiddle = x.settings.foldMiddle := by
  have hnot : refresh ≠ .styles ∧ refresh ≠ .folds := by
    rcases hrefresh with rfl | rfl <;> decide
  cases change with
  | activeProfile name? => exact absurd (apply_activeProfile h).1 hnot.1
  | profiles profiles =>
    obtain ⟨rfl, -⟩ := Prod.mk.inj (Except.ok.inj h)
    exact absurd rfl hnot.1
  | foldMiddle on =>
    obtain ⟨rfl, -⟩ := Prod.mk.inj (Except.ok.inj h)
    exact absurd rfl hnot.2
  | words role words =>
    obtain ⟨rfl, -⟩ := Prod.mk.inj (Except.ok.inj h)
    by_cases hrole : role.isFolding = true
    · exact absurd (if_pos hrole) hnot.2
    · exact absurd (if_neg hrole) hnot.1
  | _ =>
    obtain ⟨-, rfl⟩ := Prod.mk.inj (Except.ok.inj h)
    exact ⟨rfl, rfl⟩

end

/-! ## What is settled -/

/-- Styling the whole document changes no style, that of the slot behind the last line included. -/
def StylesSettled (x : Lexer) (files : FileTree) (d : Document) : Prop :=
  ∀ offset ≤ d.size, (x.restyleAll files d).2.styleAt offset = d.styleAt offset

/-- Folding the whole document changes no fold level. -/
def FoldsSettled (x : Lexer) (d : Document) : Prop :=
  ∀ line < d.lineCount, (x.foldAll d).foldLevel? line = d.foldLevel? line

instance (x : Lexer) (files : FileTree) (d : Document) : Decidable (x.StylesSettled files d) :=
  inferInstanceAs (Decidable (∀ offset ≤ d.size, _))

instance (x : Lexer) (d : Document) : Decidable (x.FoldsSettled d) :=
  inferInstanceAs (Decidable (∀ line < d.lineCount, _))

section
variable {files : FileTree} {x y : Lexer} {change : SettingChange} {refresh : Refresh}

/-- Unless a change asks for styles, styling makes the same of a document before and after it. -/
theorem restyleAll_apply (hx : x.Truthful files) (h : x.apply change = .ok (refresh, y))
    (hrefresh : refresh ≠ .styles) (d : Document) :
    (y.restyleAll files d).2 = (x.restyleAll files d).2 := by
  obtain ⟨hwords, hsurroundings, hproperties⟩ := @surroundings_apply files _ _ _ _ h hrefresh
  have hagree : (x.surroundings files).Agree y.knowledge x.knowledge := by
    refine ⟨hproperties, fun profile hprofile => ?_, hx⟩
    have hprofile' : profile ∈ (y.surroundings files).profile := by
      rw [hsurroundings]
      exact hprofile
    exact truthful_apply hx h profile hprofile'
  have hrun := (agree_restyleRun hagree 0 d .default (d.lineSpan 0 (d.lineCount - 1))).2.2
  unfold restyleAll
  rw [restyle_eq, restyle_eq, hsurroundings]
  dsimp only
  rw [← restyleRun_congr hwords, hrun]

/-- If a change asks for nothing or for highlights only, folding makes the same of a document before
and after it. -/
theorem foldAll_apply (h : x.apply change = .ok (refresh, y))
    (hrefresh : refresh = .nothing ∨ refresh = .highlights) (d : Document) :
    y.foldAll d = x.foldAll d := by
  obtain ⟨hwords, hfoldMiddle⟩ := folding_apply h hrefresh
  unfold foldAll foldLines fold
  rw [hwords, hfoldMiddle]

end

/-- What a change does not ask for need not be done: where styles and fold levels are settled,
styles stay so unless the change asks for styles, and fold levels stay so if it asks for nothing or
for highlights only. -/
theorem settled_apply {files : FileTree} {x y : Lexer} {d : Document} {change : SettingChange}
    {refresh : Refresh} (hx : Reached files x) (hstyles : x.StylesSettled files d)
    (hfolds : x.FoldsSettled d) (happly : x.apply change = .ok (refresh, y)) :
    (refresh ≠ .styles → y.StylesSettled files d) ∧
      (refresh = .nothing ∨ refresh = .highlights → y.FoldsSettled d) := by
  constructor
  · intro hrefresh offset hoffset
    rw [restyleAll_apply (truthful_of_reached hx) happly hrefresh]
    exact hstyles offset hoffset
  · intro hrefresh line hline
    rw [foldAll_apply happly hrefresh]
    exact hfolds line hline

/-- What is remembered of a class is forgotten, and its name keeps its style. -/
theorem settled_apply_classCache :
    let files : FileTree := { root := .directory [("foo.psc", .file .empty)] }
    let x := ofSettings {
      activeProfile := some "scripts"
      words := PerRole.ofFn fun _ => some ""
      profiles := [⟨"scripts", ["/"]⟩] }
    let s := x.restyleAll files (Document.ofText "foo" "Foo".toList)
    let d := s.1.foldAll s.2
    (s.1.classes.known "scripts").classes = ["foo"] ∧ d.styleAt 0 = .scriptClass ∧
      ∃ y, s.1.apply (.classCache false) = .ok (.nothing, y) ∧
        (y.classes.known "scripts").classes = [] ∧ y.StylesSettled files d ∧ y.FoldsSettled d := by
  intro files x s d
  obtain ⟨hknown, hstyle, hstyles, hfolds⟩ : (s.1.classes.known "scripts").classes = ["foo"] ∧
      d.styleAt 0 = .scriptClass ∧ s.1.StylesSettled files d ∧ s.1.FoldsSettled d := by
    decide +kernel
  have hreached : Reached files s.1 :=
    .restyle (.new _) (Document.ofText "foo" "Foo".toList) 0 0 .default
  obtain ⟨hstyles', hfolds'⟩ := @settled_apply files s.1 _ d (.classCache false) .nothing hreached
    hstyles hfolds rfl
  exact ⟨hknown, hstyle, _, rfl, rfl, hstyles' nofun, hfolds' (Or.inl rfl)⟩

end Lexer

end Papyrus

import Papyrus.Proofs.Edit
import Papyrus.Proofs.PropertyStyle
/-!
# What the registry remembers in a session

In a session a document is edited and styled, in any order, and the lexer follows every edit. A
record of the registry stays until an edit drops it. It need not stand for a declaration any more:
it may be marked, because an edit touched its line, or its line may have come to stand in a comment.
In all other respects the lexer forgets text that is gone.

Results:
* `edit_eq_some`: what an edit does to a record that it keeps.
* `getElem?_apply`: the line of a record that an edit keeps is kept, unless the record is marked.
* `backed_run`, `spells_of_unmarked`: the line of a record that is not marked spells a declaration
  of its name.
* `styleAt_run`: after any session, styling twice gives what a new lexer gives, but for names that
  have a record.
-/
namespace Papyrus

/-! ## Records and edits -/

/-- An edit keeps a record where it is, if it stands before the edited line, marks it, if lines are
put in before it, or moves it along with the lines behind the edit. -/
theorem PropertyRecord.edit_eq_some {r r' : PropertyRecord} {line : Nat} {added : Int}
    (h : r.edit line added = some r') :
    r.line < line ∧ r' = r ∨
      r.line = line ∧ r' = { r with needsRecheck := true } ∨
      line < r.line ∧ (line : Int) - added < r.line ∧
        r' = { r with line := (r.line + added).toNat } := by
  unfold edit at h
  by_cases hbefore : r.line < line
  · rw [if_pos hbefore] at h
    exact Or.inl ⟨hbefore, (Option.some.inj h).symm⟩
  rw [if_neg hbefore] at h
  by_cases hdrop : (added < 0 ∧ (r.line : Int) ≤ line - added) ∨ (added = 0 ∧ r.line = line)
  · rw [if_pos hdrop] at h
    cases h
  rw [if_neg hdrop] at h
  by_cases hat : r.line = line
  · rw [if_pos hat] at h
    exact Or.inr (Or.inl ⟨hat, (Option.some.inj h).symm⟩)
  · rw [if_neg hat] at h
    exact Or.inr (Or.inr ⟨by omega, by omega, (Option.some.inj h).symm⟩)

/-- A record that an edit keeps and does not mark has its line kept. -/
theorem Edit.getElem?_apply {d : Document} (e : Edit) {r r' : PropertyRecord} {l : Line}
    (h : r.edit (e.apply d).1.line (e.apply d).1.added = some r')
    (hmark : r'.needsRecheck = false) (hl : d.lines[r.line]? = some l) :
    (e.apply d).2.lines[r'.line]? = some l := by
  have hlt : r.line < d.lineCount := (List.getElem?_eq_some_iff.1 hl).1
  obtain ⟨pre, old, new, post, he⟩ := exists_effect d e
  rcases PropertyRecord.edit_eq_some h with ⟨hbefore, rfl⟩ | ⟨-, rfl⟩ | ⟨hbehind, hlast, rfl⟩
  · rw [he.getElem?_of_before hlt hbefore, hl]
  · cases hmark
  · dsimp only
    rw [he.getElem?_of_behind hlt hbehind hlast, hl]

/-! ## Sessions -/

/-- A step of a session. -/
inductive Step where
  /-- An edit, which the lexer follows. -/
  | edit (e : Edit)
  /-- Styling the whole document. -/
  | styleAll
  /-- Styling some lines, the first of which is entered in the given state. -/
  | style (first last : Nat) (incoming : LineState)
  /-- Styling some lines in the state that the terminator before them tells. -/
  | styleLines (first last : Nat)
  deriving DecidableEq, Repr

namespace Lexer

/-- Takes a step of a session. -/
def step (files : FileTree) (s : Lexer × Document) : Step → Lexer × Document
  | .edit e => (s.1.follow (e.apply s.2).1, (e.apply s.2).2)
  | .styleAll => s.1.restyleAll files s.2
  | .style first last incoming => (s.1.restyle files s.2 first last incoming).2
  | .styleLines first last => (s.1.restyleLines files s.2 first last).2

/-- A session. -/
def run (files : FileTree) (s : Lexer × Document) (steps : List Step) : Lexer × Document :=
  steps.foldl (step files) s

/-- What every step keeps is kept by a session. -/
theorem run_induction {files : FileTree} {Kept : Lexer × Document → Prop}
    (hstep : ∀ s t, Kept s → Kept (step files s t)) {s : Lexer × Document} (h : Kept s)
    (steps : List Step) : Kept (run files s steps) := by
  induction steps generalizing s with
  | nil => exact h
  | cons t steps ih => exact ih (hstep s t h)

/-- A step changes neither the settings and word lists nor how much of a line is read. -/
theorem step_frame (files : FileTree) (s : Lexer × Document) (t : Step) :
    (step files s t).1.settings = s.1.settings ∧ (step files s t).1.words = s.1.words ∧
      (step files s t).2.readLimit = s.2.readLimit := by
  cases t with
  | edit e => exact ⟨rfl, rfl, Edit.readLimit_apply _ _⟩
  | _ => exact ⟨rfl, rfl, readLimit_restyle _ _ _ _ _ _⟩

theorem run_frame (files : FileTree) (s : Lexer × Document) (steps : List Step) :
    (run files s steps).1.settings = s.1.settings ∧ (run files s steps).1.words = s.1.words ∧
      (run files s steps).2.readLimit = s.2.readLimit := by
  induction steps generalizing s with
  | nil => exact ⟨rfl, rfl, rfl⟩
  | cons t steps ih =>
    obtain ⟨hsettings, hwords, hread⟩ := step_frame files s t
    obtain ⟨hsettings', hwords', hread'⟩ := ih (step files s t)
    exact ⟨hsettings'.trans hsettings, hwords'.trans hwords, hread'.trans hread⟩

end Lexer

/-! ## Records and lines -/

/-- Whether a line spells the declaration of a name, be it in code or in a comment. -/
def Document.Spells (d : Document) (line : Nat) (name : String) : Prop :=
  ∃ l, d.lines[line]? = some l ∧ Token.Spells (Token.scan l.text 0) name

/-- Every record is marked, or its line spells the declaration of its name. -/
def Lexer.Backed (s : Lexer × Document) : Prop :=
  ∀ r ∈ s.1.properties.records, r.needsRecheck = true ∨ s.2.Spells r.line r.name

namespace Lexer

theorem backed_edit {s : Lexer × Document} (h : Backed s) (e : Edit) :
    Backed (s.1.follow (e.apply s.2).1, (e.apply s.2).2) := by
  intro r' hr'
  obtain ⟨r, hr, hedit⟩ := List.mem_filterMap.1 hr'
  cases hmark : r'.needsRecheck with
  | true => exact Or.inl rfl
  | false =>
    right
    have hsame : r'.name = r.name ∧ r.needsRecheck = false := by
      rcases PropertyRecord.edit_eq_some hedit with ⟨-, rfl⟩ | ⟨-, rfl⟩ | ⟨-, -, rfl⟩
      · exact ⟨rfl, hmark⟩
      · cases hmark
      · exact ⟨rfl, hmark⟩
    rcases h r hr with hmarked | ⟨l, hl, hspells⟩
    · rw [hsame.2] at hmarked
      cases hmarked
    · exact ⟨l, e.getElem?_apply hedit hmark hl, hsame.1 ▸ hspells⟩

theorem spells_congr {d d' : Document} (h : d'.lines.map Line.text = d.lines.map Line.text)
    {line : Nat} {name : String} (hspells : d.Spells line name) : d'.Spells line name := by
  obtain ⟨l, hl, hspells⟩ := hspells
  have htext : (d'.lines.map Line.text)[line]? = some l.text := by
    rw [h, List.getElem?_map, hl]
    rfl
  rw [List.getElem?_map, Option.map_eq_some_iff] at htext
  obtain ⟨l', hl', heq⟩ := htext
  exact ⟨l', hl', heq ▸ hspells⟩

/-- Styling registers names that their lines spell. -/
theorem backed_restyle (x : Lexer) (files : FileTree) {d : Document} (hread : d.readLimit = none)
    (h : Backed (x, d)) (first last : Nat) (incoming : LineState) :
    Backed (x.restyle files d first last incoming).2 := by
  have htexts := x.map_text_restyle files d first last incoming
  by_cases hfirst : first < d.lineCount
  · have hcut : d.cut = id := funext (Document.cut_of_unlimited hread)
    have hregistry : (x.restyle files d first last incoming).2.1.properties =
        x.properties.registerAll (Lines.declared x.words first incoming
          ((d.lines.drop first).take (d.lineSpan first last))) := by
      rw [restyle_lines x files hfirst, hcut]
      exact properties_styled (x.surroundings files) first incoming x.knowledge _ _
    intro r hr
    rw [hregistry] at hr
    rcases PropertyRegistry.mem_registerAll hr with hr | hr
    · exact (h r hr).imp_right (spells_congr htexts)
    · obtain ⟨n, l, hline, hl, hspells⟩ := spells_of_mem_declared hr
      obtain ⟨hn, -⟩ := List.getElem?_eq_some_iff.1 hl
      rw [List.length_take] at hn
      rw [List.getElem?_take_of_lt (by omega), List.getElem?_drop] at hl
      exact Or.inr (spells_congr htexts ⟨l, by rw [hline, hl], hspells⟩)
  · rw [restyle_beyond x files (Nat.le_of_not_lt hfirst)]
    exact h

/-- In a session every record that is not marked has a line that spells its declaration. -/
theorem backed_run (files : FileTree) {s : Lexer × Document} (hread : s.2.readLimit = none)
    (h : Backed s) (steps : List Step) : Backed (run files s steps) := by
  have hkept := @run_induction files (fun s => s.2.readLimit = none ∧ Backed s) ?_ s ⟨hread, h⟩
    steps
  · exact hkept.2
  · intro s t hs
    obtain ⟨hread, h⟩ := hs
    refine ⟨(step_frame files s t).2.2.trans hread, ?_⟩
    cases t with
    | edit e => exact backed_edit h e
    | _ => exact backed_restyle s.1 files hread h _ _ _

/-- Without a profile, styling a document twice at the end of a session gives the styles that a new
lexer gives the same lines, but for one thing: an identifier that the new lexer leaves in plain text
is a property if its name has a record. Such a record is marked, or its line spells the declaration
of the name, where it does not count as code. -/
theorem styleAt_run (settings : Settings) (hprofile : settings.profile? = none) (files : FileTree)
    (name : String) (text : Text) (steps : List Step) :
    let s := run files (ofSettings settings, Document.ofText name text) steps
    (∀ f : Document, f.readLimit = none → f.lines.map Line.text = s.2.lines.map Line.text →
      ∀ offset < s.2.size,
        let fresh := ((ofSettings settings).restyleTwice files f).2.styleAt offset
        (s.1.restyleTwice files s.2).2.styleAt offset =
          if fresh = .default ∧
              (s.2.lines.identifierAt offset).any s.1.properties.isProperty = true
          then .property else fresh) ∧
      ∀ r ∈ s.1.properties.records, r.needsRecheck = true ∨ s.2.Spells r.line r.name := by
  intro s
  obtain ⟨hsettings, hwords, hread⟩ :=
    run_frame files (ofSettings settings, Document.ofText name text) steps
  constructor
  · intro f hf htexts offset hoff
    refine styleAt_restyleTwice files hwords.symm ?_ hprofile ?_ hread hf htexts hoff
    · rw [hsettings]
      exact hprofile
    · intro name hname
      cases hname
  · have hempty : Backed (ofSettings settings, Document.ofText name text) := fun r hr => by
      cases hr
    exact backed_run files rfl hempty steps

/-- Settings under which `property` is the only word. -/
def propertyOnly : Settings where
  words := PerRole.ofFn fun role => some (if role = .keywords then "property" else "")

/-- A declaration that is moved down by a new line and then deleted: the record is marked and stays
where it was, so that the deletion does not drop it. -/
def movedDeclaration : List Step :=
  [.styleAll, .edit (.insert 0 [[]]), .edit (.replace 1 [])]

/-- After the declaration is gone, the use of its name is still a property by the record. -/
theorem styleAt_run_moved :
    let s := run {} (ofSettings propertyOnly, .ofText "moved" "property a\na".toList)
      movedDeclaration
    (s.1.restyleTwice {} s.2).2.styleAt 2 = .property := by
  intro s
  have hstyle := (styleAt_run propertyOnly rfl {} "moved" "property a\na".toList
    movedDeclaration).1 (.ofText "moved" "\n\na".toList) rfl (by decide +kernel) 2
      (by decide +kernel)
  exact hstyle.trans (by decide +kernel)

/-- A new lexer leaves it in plain text. -/
theorem styleAt_restyleTwice_stale :
    let s := run {} (ofSettings propertyOnly, .ofText "moved" "property a\na".toList)
      movedDeclaration
    propertyOnly.profile? = none ∧ s.2.text = "\n\na".toList ∧
      (s.1.restyleTwice {} s.2).2.styleAt 2 ≠
        ((ofSettings propertyOnly).restyleTwice {} (.ofText "moved" s.2.text)).2.styleAt 2 := by
  decide +kernel

/-! ## Records that are not marked -/

/-- At any time of a session with a new lexer, a record that is not marked names a line that is
there and spells the declaration of its name. -/
theorem spells_of_unmarked (settings : Settings) (files : FileTree) (name : String) (text : Text)
    (steps : List Step) :
    let s := run files (ofSettings settings, Document.ofText name text) steps
    ∀ r ∈ s.1.properties.records, r.needsRecheck = false → s.2.Spells r.line r.name := by
  intro s r hr hmark
  have hempty : Backed (ofSettings settings, Document.ofText name text) := fun r hr => by
    cases hr
  rcases backed_run files rfl hempty steps r hr with hmarked | hspells
  · rw [hmark] at hmarked
    cases hmarked
  · exact hspells

/-- The record of a declaration that two new lines have moved down. -/
theorem spells_of_unmarked_moved :
    let s := run {} (ofSettings propertyOnly, .ofText "moved" "\nproperty a".toList)
      [.styleLines 0 1, .edit (.insert 0 [[], []])]
    ⟨"a", 3, false⟩ ∈ s.1.properties.records ∧ s.2.Spells 3 "a" := by
  intro s
  have hr : ⟨"a", 3, false⟩ ∈ s.1.properties.records := by decide +kernel
  exact ⟨hr, spells_of_unmarked propertyOnly {} "moved" "\nproperty a".toList _ _ hr rfl⟩

end Lexer

end Papyrus

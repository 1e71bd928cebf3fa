import Papyrus.Proofs.Edit
import Papyrus.Proofs.Highlight
/-!
# Highlights and edits

Indicators paint offsets, and edits leave them alone. When the next match clears the document, it
takes out the offsets that the document has by then. Where lines have been deleted in between,
offsets behind the new end stay painted.

Results:
* `indicators_apply`: an edit leaves what is painted as it is.
* `indicatorSpans_matchAt_edited_iff`: a second match shows just what it highlights exactly if
  nothing that the first one highlighted reaches beyond the end of the edited document.
-/
namespace Papyrus

theorem Document.indicators_withLines (d : Document) (lines : Lines) :
    (d.withLines lines).indicators = d.indicators := by
  cases lines <;> rfl

/-- An edit leaves what is painted as it is. -/
theorem Edit.indicators_apply (d : Document) (e : Edit) :
    (e.apply d).2.indicators = d.indicators := by
  obtain ⟨pre, old, new, post, he⟩ := exists_effect d e
  rw [he.apply_eq, Document.indicators_withLines]

namespace Lexer

/-- Carries out edits, one after the other. The lexer follows those that it is told of. -/
def editAll (s : Lexer × Document) (edits : List (Edit × Bool)) : Lexer × Document :=
  edits.foldl (fun s (e, told) =>
    (if told then s.1.follow (e.apply s.2).1 else s.1, (e.apply s.2).2)) s

theorem editAll_frame (s : Lexer × Document) (edits : List (Edit × Bool)) :
    (editAll s edits).1.settings = s.1.settings ∧
      (editAll s edits).2.indicators = s.2.indicators := by
  induction edits generalizing s with
  | nil => exact ⟨rfl, rfl⟩
  | cons edit edits ih =>
    obtain ⟨e, told⟩ := edit
    obtain ⟨hsettings, hindicators⟩ := ih (if told then s.1.follow (e.apply s.2).1 else s.1,
      (e.apply s.2).2)
    refine ⟨hsettings.trans ?_, hindicators.trans (e.indicators_apply s.2)⟩
    cases told <;> rfl

/-- A match that is asked for after edits is shown behind what is left of the one before. -/
theorem indicatorSpans_matchAt_edited (x : Lexer) {d : Document}
    (hd : ∀ id, ∀ span ∈ d.indicatorSpans id, span.Within d.size) (caret caret' : Nat)
    (edits : List (Edit × Bool)) {id : UInt32} (hid : id ∈ x.matchIndicators) :
    let a := x.matchAt d caret
    let s := editAll a.2 edits
    let b := s.1.matchAt s.2 caret'
    b.2.2.indicatorSpans id =
      (if id = x.indicatorFor a.1 then a.1.highlights.flatMap (·.without 0 s.2.size) else []) ++
        if id = x.indicatorFor b.1 then b.1.highlights else [] := by
  intro a s b
  obtain ⟨hsettings, hindicators⟩ := editAll_frame a.2 edits
  have hsame : s.1.settings = x.settings := hsettings.trans (settings_matchAt x d caret)
  have hfor : s.1.indicatorFor b.1 = x.indicatorFor b.1 := by
    rw [indicatorFor, indicatorFor, hsame]
  -- nothing of what was painted before the first match is left
  have hgone : (d.indicatorSpans id).flatMap (·.without 0 d.size) = [] :=
    (Span.flatMap_without_eq_nil_iff fun span hspan => (hd id span hspan).1).2
      fun span hspan => (hd id span hspan).2
  have hfirst : s.2.indicatorSpans id =
      if id = x.indicatorFor a.1 then a.1.highlights else [] := by
    rw [Document.indicatorSpans, hindicators, ← Document.indicatorSpans,
      indicatorSpans_matchAt x d caret hid, hgone, List.nil_append]
  have hid' : id ∈ s.1.matchIndicators := by rwa [matchIndicators, hsame]
  rw [indicatorSpans_matchAt s.1 s.2 caret' hid', hfor, hfirst]
  congr 1
  split <;> rfl

/-- When a keyword is matched, the document is edited and a keyword is matched again, then the
indicators for matches show just what the second match highlights, exactly if nothing that the first
one highlights reaches beyond the end of the edited document. -/
theorem indicatorSpans_matchAt_edited_iff (x : Lexer) {d : Document}
    (hd : ∀ id, ∀ span ∈ d.indicatorSpans id, span.Within d.size) (caret caret' : Nat)
    (edits : List (Edit × Bool)) :
    let a := x.matchAt d caret
    let s := editAll a.2 edits
    let b := s.1.matchAt s.2 caret'
    (∀ id ∈ x.matchIndicators,
      b.2.2.indicatorSpans id = if id = x.indicatorFor b.1 then b.1.highlights else []) ↔
      ∀ span ∈ a.1.highlights, span.stop ≤ s.2.size := by
  intro a s b
  have hspans := fun id hid => @indicatorSpans_matchAt_edited x d hd caret caret' edits id hid
  have hleft : a.1.highlights.flatMap (·.without 0 s.2.size) = [] ↔
      ∀ span ∈ a.1.highlights, span.stop ≤ s.2.size :=
    Span.flatMap_without_eq_nil_iff fun span hspan =>
      (BlockMatch.within_highlights (x.within_matchAt d caret) hspan).1
  rw [← hleft]
  constructor
  · intro hshown
    have hid := x.indicatorFor_mem a.1
    have hnil := (hspans _ hid).symm.trans (hshown _ hid)
    rwa [List.append_left_eq_self, if_pos rfl] at hnil
  · intro hnil id hid
    rw [hspans id hid, hnil, ite_self, List.nil_append]

/-- A line behind the block is deleted, and just what the second match highlights is shown. -/
theorem indicatorSpans_matchAt_edited_behind :
    let x := ofSettings {}
    let d := (Document.ofText "event" "Event\nEndEvent\nx".toList).paint 0 14 .keyword
    let s := editAll (x.matchAt d 0).2 [(.delete 2 1, true)]
    let b := s.1.matchAt s.2 3
    ∀ id ∈ x.matchIndicators,
      b.2.2.indicatorSpans id = if id = x.indicatorFor b.1 then b.1.highlights else [] := by
  intro x d
  have hmatch : (x.matchAt d 0).1 =
      { found := true, keyword := some ⟨0, 5⟩, counterparts := [⟨6, 14⟩] } :=
    (x.fst_matchAt d 0).trans (by decide +kernel)
  have hsize : (editAll (x.matchAt d 0).2 [(.delete 2 1, true)]).2.size = 14 := by
    obtain ⟨indicators, hsame⟩ := x.sameButPaint_matchAt d 0
    have hedit : ∀ s : Lexer × Document, s.2 = { d with indicators := indicators } →
        (editAll s [(.delete 2 1, true)]).2.size = 14 := by
      rintro ⟨_, _⟩ rfl
      rfl
    exact hedit _ hsame
  refine (@indicatorSpans_matchAt_edited_iff x d (fun _ span hspan => nomatch hspan) 0 3
    [(.delete 2 1, true)]).2 ?_
  rw [hmatch, BlockMatch.highlights_declaration (by decide), hsize]
  decide

/-- When the end of a block has been deleted, its keyword stays painted behind the end of the
document. -/
theorem indicatorSpans_matchAt_edited_deleted :
    let x := ofSettings {}
    let d := (Document.ofText "event" "Event\nEndEvent".toList).paint 0 14 .keyword
    let s := editAll (x.matchAt d 0).2 [(.delete 1 1, true)]
    let b := s.1.matchAt s.2 0
    ¬ ∀ id ∈ x.matchIndicators,
      b.2.2.indicatorSpans id = if id = x.indicatorFor b.1 then b.1.highlights else [] := by
  intro x d
  have hmatch : (x.matchAt d 0).1 =
      { found := true, keyword := some ⟨0, 5⟩, counterparts := [⟨6, 14⟩] } :=
    (x.fst_matchAt d 0).trans (by decide +kernel)
  have hsize : (editAll (x.matchAt d 0).2 [(.delete 1 1, true)]).2.size = 5 := by
    obtain ⟨indicators, hsame⟩ := x.sameButPaint_matchAt d 0
    have hedit : ∀ s : Lexer × Document, s.2 = { d with indicators := indicators } →
        (editAll s [(.delete 1 1, true)]).2.size = 5 := by
      rintro ⟨_, _⟩ rfl
      rfl
    exact hedit _ hsame
  have hfor : 8 = x.indicatorFor (x.matchAt d 0).1 := by
    rw [hmatch]
    rfl
  have hspans := @indicatorSpans_matchAt_edited x d (fun _ span hspan => nomatch hspan) 0 0
    [(.delete 1 1, true)] 8 List.mem_cons_self
  dsimp only at hspans ⊢
  intro h
  have hleft := hspans.symm.trans (h 8 List.mem_cons_self)
  rw [List.append_left_eq_self, if_pos hfor, hsize, hmatch,
    BlockMatch.highlights_declaration (by decide)] at hleft
  exact absurd hleft (by decide)

end Lexer

end Papyrus

import Mathlib.Data.Option.Basic
import Papyrus.Proofs.CodeSearch
import Papyrus.Proofs.Nesting
/-!
# Matching from code

All words that open, close or divide blocks are plain ones, and a match looks for them in code. In
documents with the same code it goes from one to the next alike, and a caret in code that is on a
keyword in one of them is on the same keyword in the other.

Results:
* `BlockWay.way?_congr`: the way between the ends of a block depends on the nearest keywords only.
* `Construct.known_of_ofWord?`: block keywords and what they look for are plain words.
* `SameMarks.matchConstruct`: a match depends on where plain words count.
* `SameCode.matchKeyword_eq`: matching from a caret in code gives the same.
-/
namespace Papyrus

/-! ## The way between the ends of a block -/

/-- The way depends on the nearest keywords only. -/
theorem BlockWay.way?_congr {size size' : Nat} {near far : Marks size} {near' far' : Marks size'}
    {direction : Direction} (hsize : size = size')
    (hnear : ∀ offset, near.nearest? direction offset = near'.nearest? direction offset)
    (hfar : ∀ offset, far.nearest? direction offset = far'.nearest? direction offset)
    (offset : Nat) : way? near far direction offset = way? near' far' direction offset := by
  subst hsize
  induction hroom : direction.room size offset using Nat.strongRecOn generalizing offset with
  | ind room ih =>
    subst hroom
    rw [way?_eq near far, way?_eq near' far', hfar, hnear]
    cases far'.nearest? direction offset with
    | none => rfl
    | some last =>
      cases hnested : (near'.nearest? direction offset).filter (direction.precedes · last) with
      | none => simp only [Option.bind_some, hnested]
      | some nested =>
        have hstep := Marks.nearest?_room (Option.filter_eq_some_iff.1 hnested).1
        simp only [Option.bind_some, hnested, ih _ hstep _ rfl]
        cases hinner : way? near' far' direction (direction.past nested) with
        | none => rfl
        | some inner =>
          have hinnerStep := Nat.lt_trans (way?_room hinner) hstep
          simp only [Option.bind_some, ih _ hinnerStep _ rfl]

/-! ## The words of blocks -/

theorem DeclarationBlock.plain_words {b : DeclarationBlock} (hb : b ∈ all) {word : String}
    (hword : word ∈ b.openers ++ b.closers) : Plain word := by
  have hplain : ∀ b ∈ all, ∀ word ∈ b.openers ++ b.closers, Plain word := by decide +kernel
  exact hplain b hb word hword

/-- The words that a match looks for are those of the language. -/
def Construct.Known : Construct → Prop
  | declaration counterparts _ => ∀ word ∈ counterparts, Plain word
  | flow block _ => block ∈ FlowBlock.all
  | branch => True

/-- A block keyword is a plain word, and its match looks for words of the language. -/
theorem Construct.known_of_ofWord? {word : String} {construct : Construct}
    (h : ofWord? word = some construct) : Plain word ∧ construct.Known := by
  have hends : ∀ b ∈ FlowBlock.all, ∀ direction : Direction, Plain (b.near direction) :=
    fun b hb direction => (@FlowBlock.plain_words b hb direction _ List.mem_cons_self).1
  rw [ofWord?, Option.orElse_eq_some, Option.orElse_eq_some] at h
  rcases h with h | ⟨-, h | ⟨-, h⟩⟩
  · obtain ⟨b, hb, h⟩ := List.exists_of_findSome?_eq_some h
    split at h
    · next hword =>
      obtain rfl := Option.some.inj h
      exact ⟨DeclarationBlock.plain_words hb
          (List.mem_append_left _ (List.contains_iff_mem.1 hword)),
        fun _ hother => DeclarationBlock.plain_words hb (List.mem_append_right _ hother)⟩
    · split at h
      · next hword =>
        obtain rfl := Option.some.inj h
        exact ⟨DeclarationBlock.plain_words hb
            (List.mem_append_right _ (List.contains_iff_mem.1 hword)),
          fun _ hother => DeclarationBlock.plain_words hb (List.mem_append_left _ hother)⟩
      · cases h
  · obtain ⟨b, hb, h⟩ := List.exists_of_findSome?_eq_some h
    split at h
    · next hword =>
      obtain rfl := Option.some.inj h
      exact ⟨beq_iff_eq.1 hword ▸ hends b hb .forward, hb⟩
    · split at h
      · next hword =>
        obtain rfl := Option.some.inj h
        exact ⟨beq_iff_eq.1 hword ▸ hends b hb .backward, hb⟩
      · cases h
  · split at h
    · next hword =>
      obtain rfl := Option.some.inj h
      exact ⟨@FlowBlock.plain_of_mem_branches FlowBlock.ifBlock (by decide) _
        (List.contains_iff_mem.1 hword), trivial⟩
    · cases h

namespace Document

/-! ## Documents with the same words in code -/

/-- Two documents of one size in which the same plain words count. -/
structure SameMarks (d d' : Document) : Prop where
  size : d.size = d'.size
  between : ∀ word, Plain word → ∀ style : Style, style.isInert = false → ∀ lo hi,
    (d.marks word style).between lo hi = (d'.marks word style).between lo hi

namespace SameMarks

variable {d d' : Document} (h : SameMarks d d')
include h

theorem nearest? {word : String} (hplain : Plain word) {style : Style}
    (hstyle : style.isInert = false) (direction : Direction) (offset : Nat) :
    (d.marks word style).nearest? direction offset =
      (d'.marks word style).nearest? direction offset := by
  cases direction <;> simp only [Marks.nearest?, h.between word hplain style hstyle, h.size]

theorem blockWay? {block : FlowBlock} (hblock : block ∈ FlowBlock.all) (direction : Direction)
    (offset : Nat) : d.blockWay? block direction offset = d'.blockWay? block direction offset := by
  have hwords := fun w => @FlowBlock.plain_words block hblock direction w
  have hnear := (hwords _ List.mem_cons_self).1
  have hfar := (hwords _ (List.mem_cons_of_mem _ List.mem_cons_self)).1
  exact BlockWay.way?_congr h.size (h.nearest? hnear rfl direction)
    (h.nearest? hfar rfl direction) offset

theorem branchWords {block : FlowBlock} (hblock : block ∈ FlowBlock.all) (way : BlockWay) :
    d.branchWords block way = d'.branchWords block way := by
  rw [Document.branchWords, Document.branchWords]
  simp only [List.flatMap_map]
  congr 1
  exact List.flatMap_congr fun gap _ => List.flatMap_congr fun word hword =>
    h.between word (FlowBlock.plain_of_mem_branches hblock hword) .flowControl rfl _ _

/-- What a block keyword asks for is found at the same places. -/
theorem matchConstruct {construct : Construct} (hknown : construct.Known)
    (word : Span) : d.matchConstruct word construct = d'.matchConstruct word construct := by
  cases construct with
  | declaration counterparts direction =>
    have hends : counterparts.filterMap (fun c =>
          (d.marks c .keyword).nearest? direction (direction.past word)) =
        counterparts.filterMap fun c =>
          (d'.marks c .keyword).nearest? direction (direction.past word) :=
      List.filterMap_congr fun c hc => h.nearest? (hknown c hc) rfl _ _
    simp only [Document.matchConstruct, matchDeclaration, hends]
  | flow block direction =>
    simp only [Document.matchConstruct, matchFlow, h.blockWay? hknown, h.branchWords hknown]
  | branch =>
    have hbranch : d.branchWords .ifBlock = d'.branchWords .ifBlock :=
      funext (h.branchWords (by decide))
    have hway := @blockWay? _ _ h .ifBlock (by decide)
    simp only [Document.matchConstruct, matchBranch, hway, hbranch]

end SameMarks

/-! ## Documents with the same code -/

namespace SameCode

variable {d d' : Document} (h : SameCode d d')
include h

theorem sameMarks : SameMarks d d' where
  size := h.size
  between _ hplain _ hstyle := h.between_marks hplain hstyle

/-- Where a caret in code is on a block keyword, it is on the same keyword in the other document. -/
theorem wordAt {caret : Nat} (hlt : caret < d.size) (hcode : d.isCode caret = true)
    {construct : Construct} (hname : Construct.ofWord? (d.wordName caret) = some construct) :
    d'.wordAt caret = d.wordAt caret ∧ d'.wordName caret = d.wordName caret ∧
      (d.wordAt caret).start < d.size := by
  have hplain := (Construct.known_of_ofWord? hname).1
  obtain ⟨pre, mid, post, hword, hspan⟩ := isWord_wordAt (isEmpty_wordAt hplain.nonempty)
  obtain ⟨hlo, hhi, hstop⟩ := d.wordAt_within caret
  rw [Nat.min_eq_left (Nat.le_of_lt hlt), hspan] at hlo hhi
  rw [hspan] at hstop
  dsimp only at hlo hhi hstop
  have hread := read_cut h.read hword.text_eq
  have hlower : Unicode.lowerCase mid = (d.wordName caret).toList := by
    rw [wordName, hspan, hread, foldName, String.toList_ofList, String.toList_ofList]
  obtain ⟨hascii, hkeys⟩ := hplain.isAscii_of_lowerCase hlower
  have hne : mid ≠ [] := by
    rintro rfl
    exact hplain.nonempty hkeys.symm
  have hrest : ∀ c ∈ mid, Token.isIdentifierRest c = true := fun c hc =>
    hplain.isIdentifierRest (hkeys.trans hplain.map_foldCase.symm) hc
  have hs : d.Stands pre.size pre.getLast? mid post.head? :=
    ⟨pre, post, hword.text_eq, rfl, rfl, rfl⟩
  have hstart := hs.isCode_of_caret h.outlined hne hrest hlo hhi hlt hcode
  obtain ⟨pre', post', htext', hpre, hlast, hhead⟩ := h.stands hs hne hrest hstart
  have hword' : d'.IsWord pre' mid post' :=
    ⟨htext', h.isWordChar ▸ hword.chars, by rw [hlast, ← h.isWordChar, hword.before],
      by rw [hhead, ← h.isWordChar, hword.after]⟩
  have hspan' : d'.wordAt caret = d.wordAt caret := by
    rw [hspan, ← hpre]
    exact hword'.wordAt_of_isAscii hascii (hpre ▸ hlo) (hpre ▸ hhi)
  refine ⟨hspan', ?_, ?_⟩
  · rw [wordName, wordName, hspan', hspan, hread, ← hpre, read_cut h.read' htext']
  · rw [hspan]
    have := Text.size_pos hne
    dsimp only
    omega

/-- Matching from a caret in code gives the same. -/
theorem matchKeyword_eq {caret : Nat} (hlt : caret < d.size) (hcode : d.isCode caret = true) :
    d.matchKeyword caret = d'.matchKeyword caret := by
  cases hname : Construct.ofWord? (d.wordName caret) with
  | some construct =>
    obtain ⟨hspan, hsame, hstart⟩ := h.wordAt hlt hcode hname
    have hname' := hname
    rw [← hsame] at hname'
    rw [matchKeyword_of_ofWord? hname, matchKeyword_of_ofWord? hname', hspan,
      h.styles _ hstart, h.sameMarks.matchConstruct (Construct.known_of_ofWord? hname).2]
  | none =>
    have hcode' : d'.isCode caret = true := by rwa [isCode, ← h.styles caret hlt]
    cases hname' : Construct.ofWord? (d'.wordName caret) with
    | none =>
      rw [matchKeyword_of_ofWord?_eq_none hname, matchKeyword_of_ofWord?_eq_none hname']
    | some construct =>
      obtain ⟨-, hsame, -⟩ := h.symm.wordAt (h.size ▸ hlt) hcode' hname'
      rw [← hsame, hname] at hname'
      cases hname'

end SameCode

end Document

end Papyrus

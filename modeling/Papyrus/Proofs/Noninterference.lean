import Papyrus.Proofs.BranchWord
import Papyrus.Proofs.CodeMatch
import Papyrus.Proofs.FoldRun
/-!
# What comments and strings say

Comments and strings say nothing to the lexer. Two documents that differ in the text of their
comments and strings alone (`Document.AgreeOutside`) have the same code when restyled
(`sameCode_restyleAll`), and so everything that is made of code is the same: styles, properties,
fold levels and matches.

Results:
* `redacted_of_agreeOutside`: such documents are redacted to the same.
* `restyleAll_of_agreeOutside`: restyling, folding and matching give the same in both.
-/
namespace Papyrus

namespace Document

/-- Two styled documents with lines of the same sizes and with the same comments and strings, but
for their text; all other bytes are the same. -/
structure AgreeOutside (d d' : Document) : Prop where
  sizes : d.lines.map Line.size = d'.lines.map Line.size
  regions : ∀ offset < d.size, (d.styleAt offset).region = (d'.styleAt offset).region
  bytes : ∀ offset < d.size, (d.styleAt offset).isInert = false →
    d.text.bytes[offset]? = d'.text.bytes[offset]?

theorem AgreeOutside.size_eq {d d' : Document} (h : d.AgreeOutside d') : d.size = d'.size :=
  Lines.size_of_map_size h.sizes

/-- Documents that differ in comments and strings alone are redacted to the same. -/
theorem redacted_of_agreeOutside {d d' : Document} (h : d.AgreeOutside d') (hd : d.WellOutlined)
    (hd' : d'.WellOutlined) : d.lines.redacted .default = d'.lines.redacted .default := by
  have houtline := wellOutlined_iff.1 hd
  refine Lines.redacted_eq h.sizes (fun offset hoff => ?_) fun offset hoff hcode => ?_
  · rw [← houtline offset hoff, ← wellOutlined_iff.1 hd' offset (h.size_eq ▸ hoff),
      h.regions offset hoff]
  · rw [← houtline offset hoff, Style.isInert_region] at hcode
    exact h.bytes offset hoff hcode

end Document

namespace Lexer

section
variable (x : Lexer) (files : FileTree) {d d' : Document}

/-- The outlines of documents tell whether they differ in comments and strings alone. -/
theorem agreeOutside_restyleAll (hread : d.readLimit = none) (hread' : d'.readLimit = none)
    (hsizes : d.lines.map Line.size = d'.lines.map Line.size)
    (houtline : ∀ offset < d.size,
      d.lines.outlineAt .default offset = d'.lines.outlineAt .default offset)
    (hbytes : ∀ offset < d.size, (d.lines.outlineAt .default offset).isInert = false →
      d.text.bytes[offset]? = d'.text.bytes[offset]?) :
    (x.restyleAll files d).2.AgreeOutside (x.restyleAll files d').2 := by
  have hmap : ∀ d : Document,
      (x.restyleAll files d).2.lines.map Line.size = d.lines.map Line.size := by
    intro d
    have htext := congrArg (List.map Text.size) (x.map_text_restyleAll files d)
    simpa only [List.map_map, Function.comp_def, ← Line.size_eq] using htext
  have hregion := fun offset => @Document.region_restyleAll x files d hread offset
  refine ⟨by rw [hmap, hmap, hsizes], fun offset hoff => ?_, fun offset hoff hcode => ?_⟩
  · rw [size_restyleAll] at hoff
    have hoff' : offset < d'.size := Nat.lt_of_lt_of_eq hoff (Lines.size_of_map_size hsizes)
    rw [hregion offset hoff, Document.region_restyleAll x files hread' hoff', houtline offset hoff]
  · rw [size_restyleAll] at hoff
    rw [← Style.isInert_region, hregion offset hoff] at hcode
    rw [Document.text, Document.text, Lines.text, x.map_text_restyleAll, Lines.text,
      x.map_text_restyleAll]
    exact hbytes offset hoff hcode

/-- Restyled documents that differ in comments and strings alone have the same code. -/
theorem sameCode_restyleAll (hread : d.readLimit = none) (hread' : d'.readLimit = none)
    (hchars : d.wordChars = d'.wordChars)
    (h : (x.restyleAll files d).2.AgreeOutside (x.restyleAll files d').2) :
    (x.restyleAll files d).2.SameCode (x.restyleAll files d').2 := by
  have hd := Document.wellOutlined_restyleAll x files hread
  have hd' := Document.wellOutlined_restyleAll x files hread'
  have hredacted := Document.redacted_of_agreeOutside h hd hd'
  refine ⟨(x.readLimit_restyleAll files d).trans hread,
    (x.readLimit_restyleAll files d').trans hread', ?_, hd, hd', hredacted, fun offset hoff => ?_⟩
  · rw [Document.wordChars_restyleAll x files hread, Document.wordChars_restyleAll x files hread',
      hchars]
  · have hoff' : offset < (x.restyleAll files d').2.size := h.size_eq ▸ hoff
    have hregion := h.regions offset hoff
    rw [Document.wellOutlined_iff.1 hd offset hoff,
      Document.wellOutlined_iff.1 hd' offset hoff'] at hregion
    rw [x.styleAt_restyleAll files hread hoff, x.styleAt_restyleAll files hread' hoff',
      Lines.styleOf_of_redacted _ _ _ hredacted hregion]

/-- Comments and strings say nothing: restyled documents that differ in their text alone have the
same styles, tell the lexer the same, are folded alike, and have the same matches from every caret
in code. -/
theorem restyleAll_of_agreeOutside (hread : d.readLimit = none) (hread' : d'.readLimit = none)
    (hchars : d.wordChars = d'.wordChars)
    (h : (x.restyleAll files d).2.AgreeOutside (x.restyleAll files d').2) :
    let r := x.restyleAll files d
    let r' := x.restyleAll files d'
    (∀ offset < r.2.size, r.2.styleAt offset = r'.2.styleAt offset) ∧ r.1 = r'.1 ∧
      (r.1.foldLines r.2 0 (r.2.lineCount - 1)).1 = (r'.1.foldLines r'.2 0 (r'.2.lineCount - 1)).1 ∧
      ∀ caret < r.2.size, (r.2.styleAt caret).isInert = false →
        r.2.matchKeyword caret = r'.2.matchKeyword caret := by
  intro r r'
  have hcode : r.2.SameCode r'.2 := x.sameCode_restyleAll files hread hread' hchars h
  have hlexer : r.1 = r'.1 := by
    have hredacted : d.lines.redacted .default = d'.lines.redacted .default := by
      rw [← Lines.redacted_congr (x.map_text_restyleAll files d),
        ← Lines.redacted_congr (x.map_text_restyleAll files d')]
      exact hcode.redacted
    have hknowledge := Lines.knowledge_styled_of_redacted (x.surroundings files) 0 x.knowledge
      hredacted
    simp only [r, r', x.restyleAll_eq files hread, x.restyleAll_eq files hread', hknowledge]
  refine ⟨hcode.styles, hlexer, ?_, fun caret hlt hinert => hcode.matchKeyword_eq hlt ?_⟩
  · rw [Document.foldLines_all _ hcode.read, Document.foldLines_all _ hcode.read', hlexer]
    exact Lines.foldLevels_of_redacted hcode.redacted (Document.wellOutlined_iff.1 hcode.outlined)
      (Document.wellOutlined_iff.1 hcode.outlined') _ _ _
  · rw [Document.isCode, hinert]
    rfl

end

/-- A comment that says `EndIf` and a string that says `While` do not count. -/
theorem restyleAll_redacted_words :
    let d := Document.ofText "words" "If \"While\" ;EndIf\nEndIf".toList
    let d' := Document.ofText "words" "If \"If ;;\" ;While\nEndIf".toList
    let r := (ofSettings {}).restyleAll {} d
    let r' := (ofSettings {}).restyleAll {} d'
    r.2.AgreeOutside r'.2 ∧ r.1 = r'.1 ∧ r.2.matchKeyword 0 = r'.2.matchKeyword 0 := by
  intro d d' r r'
  have hagree : r.2.AgreeOutside r'.2 :=
    agreeOutside_restyleAll _ _ rfl rfl (by decide +kernel) (by decide +kernel) (by decide +kernel)
  have hsize : 0 < r.2.size := by
    rw [size_restyleAll]
    decide +kernel
  have hinert : (r.2.styleAt 0).isInert = false := by
    rw [← Style.isInert_region, Document.region_restyleAll _ _ rfl (by decide +kernel)]
    decide +kernel
  have hchars : d.wordChars = Document.standardWordChars ∧
      d'.wordChars = Document.standardWordChars := ⟨rfl, rfl⟩
  have h := restyleAll_of_agreeOutside (ofSettings {}) {} rfl rfl
    (hchars.1.trans hchars.2.symm) hagree
  exact ⟨hagree, h.2.1, h.2.2.2 0 hsize hinert⟩

end Lexer

end Papyrus

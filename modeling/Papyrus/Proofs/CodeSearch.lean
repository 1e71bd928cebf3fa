import Papyrus.Proofs.KeywordToken
import Papyrus.Proofs.RedactedLines
/-!
# Searching code

A search for a keyword sees the whole text of a document, and the places in comments and strings
are told apart by their style. A place lies in code as a whole or not at all, as the edges of
comments and strings are delimiters, and a place in one of them overlaps none in code. Documents
with the same code (`Document.SameCode`) therefore have the same places in code, with the same
characters around them, so that a word that is whole in one of them is whole in the other.

Results:
* `Stands.isCode_eq`: a word is in code as a whole or not at all.
* `SameCode.stands`: text in code stands in both documents.
* `Span.filter_disjoint_of_apart`: passing over overlaps keeps to code if places do.
* `SameCode.between_marks`: between two offsets the same words count.
-/
namespace Papyrus

/-! ## Parts of a document -/

/-- A part of the lines that has no line feed in it is a part of a line. -/
theorem Lines.exists_line_of_text {ls : Lines} {pre mid post : Text}
    (h : text ls = pre ++ mid ++ post) (hne : mid ≠ []) (hfeed : '\n' ∉ mid) :
    ∃ before l behind pre' post', ls = before ++ l :: behind ∧ l.text = pre' ++ mid ++ post' ∧
      Text.size pre = width before + Text.size pre' ∧
      pre.getLast? = pre'.getLast?.or (feed before) ∧
      post.head? = post'.head?.or (feed behind) := by
  induction ls generalizing pre with
  | nil =>
    have hmid := congrArg List.length h
    have hpos := List.length_pos_iff.2 hne
    simp only [text, List.map_nil, Text.joinLines, List.length_append, List.length_nil] at hmid
    omega
  | cons l ls ih =>
    cases hls : ls with
    | nil =>
      rw [hls] at h
      refine ⟨[], l, [], pre, post, rfl, h, ?_, ?_, ?_⟩
      · rw [width_nil, Nat.zero_add]
      · cases pre.getLast? <;> rfl
      · cases post.head? <;> rfl
    | cons m rest =>
      rw [← hls]
      have htext : text (l :: ls) = l.text ++ '\n' :: text ls := by
        rw [hls]
        rfl
      have hfeedSize : Text.size (l.text ++ ['\n']) = l.text.size + 1 := Text.size_append _ _
      rw [htext, List.append_assoc] at h
      rcases Nat.lt_or_ge l.text.size (Text.size pre) with hlt | hle
      · -- the part stands behind the line feed of the first line
        rw [List.append_cons] at h
        obtain ⟨k, rfl, hk⟩ := Text.exists_of_append_eq h (by omega)
        rw [← List.append_assoc] at hk
        obtain ⟨before, l', behind, pre', post', rfl, hl, hsize, hlast, hhead⟩ := ih hk
        refine ⟨l :: before, l', behind, pre', post', rfl, hl, ?_, ?_, hhead⟩
        · rw [Text.size_append, hfeedSize, hsize, width_cons, l.size_eq, Nat.add_assoc (_ + 1)]
        · rw [List.getLast?_append, hlast, List.getLast?_append]
          cases pre'.getLast? <;> cases before <;> rfl
      · obtain ⟨k, hk, hmid⟩ := Text.exists_of_append_eq h.symm hle
        rcases Nat.lt_or_ge (Text.size k) (Text.size mid) with hlt | hin
        · obtain ⟨n, rfl, hn⟩ := Text.exists_of_append_eq hmid.symm (Nat.le_of_lt hlt)
          cases n with
          | nil => rw [List.append_nil] at hlt; omega
          | cons x n =>
            obtain ⟨rfl, -⟩ := List.cons.inj hn
            exact absurd (by simp) hfeed
        · obtain ⟨post', rfl, rfl⟩ := Text.exists_of_append_eq hmid hin
          refine ⟨[], l, ls, pre, post', rfl, ?_, ?_, ?_, ?_⟩
          · rw [hk, List.append_assoc]
          · rw [width_nil, Nat.zero_add]
          · cases pre.getLast? <;> rfl
          · rw [List.head?_append, hls]
            rfl

namespace Document

/-- A part of a document that stands at an offset between two characters. -/
def Stands (d : Document) (offset : Nat) (before : Option Char) (mid : Text)
    (after : Option Char) : Prop :=
  ∃ pre post, d.text = pre ++ mid ++ post ∧ pre.size = offset ∧ pre.getLast? = before ∧
    post.head? = after

section
variable {d : Document} {offset : Nat} {before after : Option Char} {mid : Text}

/-- A part without line feeds stands in a line. -/
theorem stands_iff (hne : mid ≠ []) (hfeed : '\n' ∉ mid) :
    d.Stands offset before mid after ↔
      ∃ lead l rest pre post, d.lines = lead ++ l :: rest ∧ l.text = pre ++ mid ++ post ∧
        offset = Lines.width lead + pre.size ∧ before = pre.getLast?.or (Lines.feed lead) ∧
        after = post.head?.or (Lines.feed rest) := by
  constructor
  · rintro ⟨pre, post, htext, rfl, rfl, rfl⟩
    obtain ⟨lead, l, rest, pre', post', hlines, hl, hsize, hlast, hhead⟩ :=
      Lines.exists_line_of_text htext hne hfeed
    exact ⟨lead, l, rest, pre', post', hlines, hl, hsize, hlast, hhead⟩
  · rintro ⟨lead, l, rest, pre, post, hlines, hl, rfl, rfl, rfl⟩
    obtain ⟨front, back, htext, hsize, hlast, hhead⟩ := Lines.text_split lead l rest
    refine ⟨front ++ pre, post ++ back, ?_, ?_, ?_, ?_⟩
    · rw [text, hlines, htext, hl]
      simp only [List.append_assoc]
    · rw [Text.size_append, hsize]
    · rw [List.getLast?_append, hlast]
    · rw [List.head?_append, hhead]

theorem Stands.size_le (h : d.Stands offset before mid after) : offset + mid.size ≤ d.size := by
  obtain ⟨pre, post, htext, rfl, -, -⟩ := h
  rw [← d.size_text, htext, Text.size_append, Text.size_append]
  exact Nat.le_add_right _ _

end

/-- Whether the byte at an offset is code. -/
def isCode (d : Document) (offset : Nat) : Bool := !(d.styleAt offset).isInert

section
variable {d : Document} {offset : Nat} {before after : Option Char} {mid : Text}

/-- The comments and strings of a document are those of its lines. -/
theorem isCode_split (h : d.WellOutlined) {lead rest : Lines} {l : Line}
    (hlines : d.lines = lead ++ l :: rest) {i : Nat} (hi : i ≤ l.size)
    (hoff : Lines.width lead + i < d.size) :
    d.isCode (Lines.width lead + i) =
      !(styleOfByte (lineCells (.ofState (Lines.leave .default lead)) l.text) i).isInert := by
  rw [isCode, ← Style.isInert_region, wellOutlined_iff.1 h _ hoff, hlines,
    Lines.outlineAt_split _ _ _ _ hi]

/-- The characters of identifiers are no delimiters and do not end a line. -/
theorem isDelimiter_of_rest (hrest : ∀ c ∈ mid, Token.isIdentifierRest c = true) :
    (∀ c ∈ mid, isDelimiter c = false) ∧ '\n' ∉ mid :=
  ⟨fun c hc => Token.isDelimiter_of_isIdentifierRest (hrest c hc),
    fun hfeed => absurd (hrest _ hfeed) (by decide)⟩

/-- A part of a document that could be one of an identifier is in code as a whole or not at all;
code behind it follows on code. -/
theorem Stands.isCode_eq (hs : d.Stands offset before mid after) (h : d.WellOutlined)
    (hne : mid ≠ []) (hrest : ∀ c ∈ mid, Token.isIdentifierRest c = true) :
    (∀ i, offset ≤ i → i < offset + mid.size → d.isCode i = d.isCode offset) ∧
      (offset + mid.size < d.size → d.isCode (offset + mid.size) = true →
        d.isCode offset = true) := by
  obtain ⟨hplain, hfeed⟩ := isDelimiter_of_rest hrest
  have hle := hs.size_le
  have hpos := Text.size_pos hne
  obtain ⟨lead, l, rest, pre, post, hlines, hl, rfl, -, -⟩ := (stands_iff hne hfeed).1 hs
  have hline : l.text ++ ['\n'] = pre ++ mid ++ (post ++ ['\n']) := by
    rw [hl]
    simp only [List.append_assoc]
  obtain ⟨hsame, hnext⟩ := @isInert_part (.ofState (Lines.leave .default lead)) l.text pre mid
    (post ++ ['\n']) hline hne hplain
  have hsize := l.size_eq
  have hlsize := congrArg Text.size hl
  rw [Text.size_append, Text.size_append] at hlsize
  have hstart := isCode_split h hlines (i := pre.size) (by omega) (by omega)
  constructor
  · intro i hlo hhi
    obtain ⟨j, rfl⟩ := Nat.exists_eq_add_of_le (show Lines.width lead ≤ i by omega)
    rw [isCode_split h hlines (by omega) (by omega), hstart, hsame j (by omega) (by omega)]
  · intro hlt hcode
    rw [Nat.add_assoc] at hlt hcode
    rw [isCode_split h hlines (by omega) hlt, Bool.not_eq_true'] at hcode
    rw [hstart, hnext (by simp) hcode]
    rfl

/-- A caret in code that is next to a character of such a part tells that the part is in code. -/
theorem Stands.isCode_of_caret (hs : d.Stands offset before mid after) (h : d.WellOutlined)
    (hne : mid ≠ []) (hrest : ∀ c ∈ mid, Token.isIdentifierRest c = true) {caret : Nat}
    (hlo : offset ≤ caret) (hhi : caret ≤ offset + mid.size) (hlt : caret < d.size)
    (hcode : d.isCode caret = true) : d.isCode offset = true := by
  obtain ⟨hsame, hnext⟩ := hs.isCode_eq h hne hrest
  rcases Nat.lt_or_ge caret (offset + mid.size) with hin | hend
  · rw [← hsame caret hlo hin, hcode]
  · obtain rfl := Nat.le_antisymm hhi hend
    exact hnext hlt hcode

end

/-! ## Documents with the same code -/

/-- Two documents with the same lines when redacted and the same styles. -/
structure SameCode (d d' : Document) : Prop where
  read : d.readLimit = none
  read' : d'.readLimit = none
  wordChars : d.wordChars = d'.wordChars
  outlined : d.WellOutlined
  outlined' : d'.WellOutlined
  redacted : d.lines.redacted .default = d'.lines.redacted .default
  styles : ∀ offset < d.size, d.styleAt offset = d'.styleAt offset

namespace SameCode

variable {d d' : Document} (h : SameCode d d')
include h

theorem size : d.size = d'.size := by
  have hwidth := Lines.width_of_redacted h.redacted
  rw [Lines.width_eq d.lines_ne_nil, Lines.width_eq d'.lines_ne_nil] at hwidth
  exact Nat.succ.inj hwidth

theorem symm : SameCode d' d where
  read := h.read'
  read' := h.read
  wordChars := h.wordChars.symm
  outlined := h.outlined'
  outlined' := h.outlined
  redacted := h.redacted.symm
  styles offset hoff := (h.styles offset (h.size ▸ hoff)).symm

theorem isWordChar : d.isWordChar = d'.isWordChar := by
  funext c
  rw [Document.isWordChar, Document.isWordChar, h.wordChars]

/-- Text in code stands in both documents, between the same characters. -/
theorem stands {offset : Nat} {before after : Option Char} {mid : Text}
    (hs : d.Stands offset before mid after) (hne : mid ≠ [])
    (hrest : ∀ c ∈ mid, Token.isIdentifierRest c = true) (hcode : d.isCode offset = true) :
    d'.Stands offset before mid after := by
  obtain ⟨hplain, hfeed⟩ := isDelimiter_of_rest hrest
  have hle := hs.size_le
  have hpos := Text.size_pos hne
  obtain ⟨lead, l, rest, pre, post, hlines, hl, rfl, rfl, rfl⟩ := (stands_iff hne hfeed).1 hs
  have hsize := l.size_eq
  have hlsize := congrArg Text.size hl
  rw [Text.size_append, Text.size_append] at hlsize
  obtain ⟨lead', l', rest', hlines', hwidth, hlead, hrest', hredact⟩ :=
    Lines.exists_split_of_redacted (hlines ▸ h.redacted)
  rw [isCode_split h.outlined hlines (by omega) (by omega), Bool.not_eq_true', lineCells,
    styleOfByte_append_left _ (by rw [Mode.textOf_readAll]; omega)] at hcode
  obtain ⟨pre', post', hl', hpre, hlast, hhead⟩ := exists_of_redact_eq hredact hl hne hplain hcode
  have hfeeds : ∀ {ls ls' : Lines}, (ls' = [] ↔ ls = []) → Lines.feed ls = Lines.feed ls' := by
    intro ls ls' hiff
    cases ls <;> cases ls' <;> first | rfl | simp at hiff
  refine (stands_iff hne hfeed).2 ⟨lead', l', rest', pre', post', hlines', hl', ?_, ?_, ?_⟩
  · rw [hwidth, hpre]
  · rw [hlast, hfeeds hlead]
  · rw [hhead, hfeeds hrest']

/-! ## Marks -/

/-- The places of a plain word in code are places of it in the other document, with the same
note. -/
theorem mem_marks {word : String} (hplain : Plain word) (style : Style) {m : Mark}
    (hm : m ∈ (d.marks word style).places) (hcode : d.isCode m.start = true) :
    m ∈ (d'.marks word style).places ∧ d'.isCode m.start = true := by
  rw [places_marks _ hplain.nonempty] at hm ⊢
  obtain ⟨o, ho, rfl⟩ := List.mem_map.1 hm
  obtain ⟨pre, mid, post, htext, hkeys, rfl⟩ := (Text.mem_places_iff hplain.nonempty).1 ho
  dsimp only at hcode ⊢
  have hne : mid ≠ [] := by
    rintro rfl
    exact hplain.nonempty (List.map_eq_nil_iff.1 hkeys.symm)
  have hs : d.Stands pre.size pre.getLast? mid post.head? := ⟨pre, post, htext, rfl, rfl, rfl⟩
  obtain ⟨pre', post', htext', hpre, hlast, hhead⟩ :=
    h.stands hs hne (fun c hc => hplain.isIdentifierRest hkeys hc) hcode
  have hstyle := h.styles pre.size (by
    have := hs.size_le
    have := Text.size_pos hne
    omega)
  refine ⟨List.mem_map.2 ⟨⟨⟨pre.size, pre.size + mid.size⟩, pre.getLast?, post.head?⟩,
    (Text.mem_places_iff hplain.nonempty).2 ⟨pre', mid, post', htext', hkeys, ?_⟩, ?_⟩, ?_⟩
  · rw [hpre, hlast, hhead]
  · rw [isWholeWord, isWholeWord, h.isWordChar, hstyle]
  · rwa [isCode, ← hstyle]

end SameCode

/-- The places of a word come in order. -/
theorem marks_pairwise (d : Document) {word : String} (hne : word.toList ≠ []) (style : Style) :
    (d.marks word style).places.Pairwise fun a b => a.start < b.start := by
  rw [d.places_marks hne, List.pairwise_map]
  exact Text.placesFrom_pairwise _ _ _ _ _

end Document

/-- Whether spans overlap or not, passing over overlaps and keeping to some of them is passing over
overlaps among those, if they overlap no others. -/
theorem Span.filter_disjoint_of_apart {α : Type} {span : α → Span} {p : α → Bool} {l : List α}
    (hl : l.Pairwise fun a b => (span a).start ≤ (span b).start)
    (h : l.Pairwise fun a b => p a ≠ p b → (span a).stop ≤ (span b).start) {bound bound' : Nat}
    (hbound : ∀ a ∈ l, p a = true → (bound ≤ (span a).start ↔ bound' ≤ (span a).start)) :
    (disjoint span bound l).filter p = disjoint span bound' (l.filter p) := by
  induction l generalizing bound bound' with
  | nil => rfl
  | cons a l ih =>
    obtain ⟨hfirst, hl⟩ := List.pairwise_cons.1 hl
    obtain ⟨hapart, h⟩ := List.pairwise_cons.1 h
    have hlater : ∀ b ∈ l, p b = true → (bound ≤ (span b).start ↔ bound' ≤ (span b).start) :=
      fun b hb => hbound b (List.mem_cons_of_mem a hb)
    rw [disjoint]
    cases hp : p a with
    | true =>
      have ha := hbound a List.mem_cons_self hp
      rw [List.filter_cons_of_pos hp, disjoint]
      by_cases hin : bound ≤ (span a).start
      · rw [if_pos hin, if_pos (ha.1 hin), List.filter_cons_of_pos hp,
          ih hl h fun _ _ _ => Iff.rfl]
      · rw [if_neg hin, if_neg fun hin' => hin (ha.2 hin'), ih hl h hlater]
    | false =>
      rw [List.filter_cons_of_neg (Bool.eq_false_iff.1 hp)]
      by_cases hin : bound ≤ (span a).start
      · rw [if_pos hin, List.filter_cons_of_neg (Bool.eq_false_iff.1 hp)]
        refine ih hl h fun b hb hpb => ?_
        have hstop := hapart b hb (by rw [hp, hpb]; exact Bool.false_ne_true)
        have hstart := hfirst b hb
        exact ⟨fun _ => (hlater b hb hpb).1 (Nat.le_trans hin hstart), fun _ => hstop⟩
      · rw [if_neg hin, ih hl h hlater]

namespace Document

/-- A place of a plain word in code overlaps none in a comment or string. -/
theorem marks_apart {d : Document} (hd : d.WellOutlined) {word : String} (hplain : Plain word)
    (style : Style) :
    (d.marks word style).places.Pairwise fun a b =>
      d.isCode a.start ≠ d.isCode b.start → a.stop ≤ b.start := by
  refine (marks_pairwise d hplain.nonempty style).imp_of_mem fun {a b} ha _ hlt hne => ?_
  rw [d.places_marks hplain.nonempty] at ha
  obtain ⟨o, ho, rfl⟩ := List.mem_map.1 ha
  obtain ⟨pre, mid, post, htext, hkeys, rfl⟩ := (Text.mem_places_iff hplain.nonempty).1 ho
  dsimp only at hlt hne ⊢
  have hmid : mid ≠ [] := by
    rintro rfl
    exact hplain.nonempty (List.map_eq_nil_iff.1 hkeys.symm)
  have hs : d.Stands pre.size pre.getLast? mid post.head? := ⟨pre, post, htext, rfl, rfl, rfl⟩
  by_contra hover
  exact hne ((hs.isCode_eq hd hmid fun c hc => hplain.isIdentifierRest hkeys hc).1 b.start
    (Nat.le_of_lt hlt) (Nat.lt_of_not_le hover)).symm

namespace SameCode

variable {d d' : Document} (h : SameCode d d')
include h

/-- The places of a plain word in code are the same. -/
theorem marks_code {word : String} (hplain : Plain word) (style : Style) :
    (d.marks word style).places.filter (fun m => d.isCode m.start) =
      (d'.marks word style).places.filter fun m => d'.isCode m.start := by
  refine @eq_of_mem_iff_of_pairwise _ (fun m => m.start) _ _
    ((marks_pairwise d hplain.nonempty style).filter _)
    ((marks_pairwise d' hplain.nonempty style).filter _) fun m => ?_
  rw [List.mem_filter, List.mem_filter]
  exact ⟨fun hm => h.mem_marks hplain style hm.1 hm.2,
    fun hm => h.symm.mem_marks hplain style hm.1 hm.2⟩

/-- Between two offsets the same words count. -/
theorem between_marks {word : String} (hplain : Plain word) {style : Style}
    (hstyle : style.isInert = false) (lo hi : Nat) :
    (d.marks word style).between lo hi = (d'.marks word style).between lo hi := by
  have hcounts : ∀ {d : Document}, d.WellOutlined → (d.marks word style).between lo hi =
      ((Span.disjoint (·.toSpan) lo (((d.marks word style).places.filter
        fun m => d.isCode m.start).filter (·.stop ≤ hi))).filter (·.counts)).map (·.toSpan) := by
    intro d hd
    have hsorted := (marks_pairwise d hplain.nonempty style).filter (·.stop ≤ hi)
    have hapart := (marks_apart hd hplain style).filter (·.stop ≤ hi)
    have hcode : ∀ m ∈ (d.marks word style).places, m.counts = true → d.isCode m.start = true := by
      intro m hm hcounts
      rw [places_marks _ hplain.nonempty] at hm
      obtain ⟨o, -, rfl⟩ := List.mem_map.1 hm
      have hstyleAt := beq_iff_eq.1 (Bool.and_eq_true_iff.1 hcounts).2
      dsimp only at hstyleAt ⊢
      rw [isCode, hstyleAt, hstyle]
      rfl
    have hfilter := @Span.filter_disjoint_of_apart Mark (·.toSpan) (fun m => d.isCode m.start) _
      (hsorted.imp Nat.le_of_lt) hapart lo lo fun _ _ _ => Iff.rfl
    rw [Marks.between, List.filter_filter (l := (d.marks word style).places)]
    simp only [Bool.and_comm (decide _)]
    rw [← List.filter_filter, ← hfilter, List.filter_filter]
    refine congrArg (List.map _) (List.filter_congr fun m hm => ?_)
    have hmem := (List.mem_filter.1 ((Span.disjoint_sublist _ _ _).mem hm)).1
    cases hc : m.counts with
    | false => rfl
    | true => rw [hcode m hmem hc]; rfl
  rw [hcounts h.outlined, hcounts h.outlined', h.marks_code hplain style]

end SameCode

end Document

end Papyrus

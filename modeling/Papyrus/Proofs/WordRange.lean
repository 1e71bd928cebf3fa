import Papyrus.Proofs.CaretWord
/-!
# The longest word around an offset

The characters on both sides of an offset can be looked up in its line alone (`charBefore?`,
`charAt?`): before the first one of a line stands the terminator of the line before, and behind the
last one its own. They are the characters of the whole text (`charBefore?_eq`, `charAt?_eq`), so
that the word at an offset is found by going from one character to the next in both directions for
as long as they are word characters (`wordAt_eq_walk`).

Where a character starts or the text ends, the word is the longest range of word characters around
the offset. No word reaches over the end of a line unless the line feed is a word character, and
each offset of a word has the same word.

Results:
* `charBefore?_eq`, `charAt?_eq`: the characters next to an offset, found by lines.
* `wordAt_eq_walk`: the word at an offset, found character by character.
* `IsWord.le_of_range`: a whole word covers every range of word characters that meets it.
* `wordAt_longest`: the word at an offset is the longest range, and what follows from it.
-/
namespace Papyrus

namespace Text

theorem around?_eq_some_iff {t before after : Text} {n : Nat} :
    t.around? n = some (before, after) ↔ t = before.reverse ++ after ∧ before.size = n := by
  constructor
  · exact eq_append_of_around?
  · rintro ⟨rfl, rfl⟩
    have haround := around?_append before.reverse after
    rwa [size_reverse, List.reverse_reverse] at haround

/-- In a part of a text, the characters after an offset end with the part. -/
theorem around?_append_of_le {s : Text} (t : Text) {n : Nat} (h : n ≤ s.size) :
    (s ++ t).around? n = (s.around? n).map fun (before, after) => (before, after ++ t) := by
  cases haround : s.around? n with
  | some sides =>
    obtain ⟨hs, hn⟩ := around?_eq_some_iff.1 haround
    rw [Option.map_some, around?_eq_some_iff, hs, List.append_assoc]
    exact ⟨rfl, hn⟩
  | none =>
    rw [Option.map_none, Option.eq_none_iff_forall_ne_some]
    rintro ⟨before, after⟩ hsides
    obtain ⟨hst, rfl⟩ := around?_eq_some_iff.1 hsides
    rw [← size_reverse] at h
    obtain ⟨m, hm, -⟩ := exists_of_append_eq hst.symm h
    cases haround.symm.trans (around?_eq_some_iff.2 ⟨hm, rfl⟩)

/-- Behind a part of a text, the characters before an offset go on into the part. -/
theorem around?_append_add (s t : Text) (n : Nat) :
    (s ++ t).around? (s.size + n) =
      (t.around? n).map fun (before, after) => (before ++ s.reverse, after) := by
  cases haround : t.around? n with
  | some sides =>
    obtain ⟨rfl, rfl⟩ := around?_eq_some_iff.1 haround
    rw [Option.map_some, around?_eq_some_iff, List.reverse_append, List.reverse_reverse,
      List.append_assoc, size_append, size_reverse, Nat.add_comm]
    exact ⟨rfl, rfl⟩
  | none =>
    rw [Option.map_none, Option.eq_none_iff_forall_ne_some]
    rintro ⟨before, after⟩ hsides
    obtain ⟨hst, hn⟩ := around?_eq_some_iff.1 hsides
    rw [← size_reverse] at hn
    obtain ⟨m, hm, ht⟩ := exists_of_append_eq hst (by omega)
    rw [hm, size_append] at hn
    refine absurd (around?_eq_some_iff.2 ⟨?_, ?_⟩) (Option.eq_none_iff_forall_ne_some.1 haround
      (m.reverse, after))
    · rw [List.reverse_reverse, ht]
    · rw [size_reverse]
      omega

theorem around?_of_size_lt {t : Text} {n : Nat} (h : t.size < n) : t.around? n = none := by
  rw [Option.eq_none_iff_forall_ne_some]
  rintro ⟨before, after⟩ hsides
  obtain ⟨ht, rfl⟩ := around?_eq_some_iff.1 hsides
  rw [ht, size_append, size_reverse] at h
  omega

theorem size_takeWhile_eq_zero {t : Text} {p : Char → Bool} :
    Text.size (t.takeWhile p) = 0 ↔ t.head?.any p = false := by
  cases t with
  | nil => simp
  | cons c t =>
    have := c.utf8Size_pos
    rw [List.takeWhile_cons, List.head?_cons, Option.any_some]
    cases p c <;> simp; omega

end Text

/-! ## The text of a line -/

/-- The text around a line: what stands before the line ends with a line feed, and what stands
behind it starts with one. -/
theorem Lines.exists_text_split (pre : Lines) (l : Line) (post : Lines) :
    ∃ behind, text (pre ++ l :: post) = terminated pre ++ (l.text ++ behind) ∧
      behind.head? = if post = [] then none else some '\n' := by
  rw [text_append pre (List.cons_ne_nil l post)]
  cases post with
  | nil => exact ⟨[], by rw [List.append_nil]; rfl, rfl⟩
  | cons m post => exact ⟨'\n' :: text (m :: post), rfl, rfl⟩

namespace Document

/-! ## Characters next to an offset -/

/-- The character that ends at an offset, looked up in the line of the offset. -/
def charBefore? (d : Document) (offset : Nat) : Option Char :=
  if offset = 0 ∨ d.size < offset then none
  else
    d.lines[d.lineAt offset]?.bind fun l =>
      let i := offset - d.lineStart (d.lineAt offset)
      if i = 0 then some '\n' else (l.text.around? i).bind fun (before, _) => before.head?

/-- The character that starts at an offset, looked up in the line of the offset. -/
def charAt? (d : Document) (offset : Nat) : Option Char :=
  d.lines[d.lineAt offset]?.bind fun l =>
    let i := offset - d.lineStart (d.lineAt offset)
    if i < l.size then (l.text.around? i).bind fun (_, after) => after.head?
    else if i = l.size ∧ d.lineAt offset + 1 < d.lineCount then some '\n'
    else none

/-- An offset in a document, as an offset in its line. -/
theorem exists_line_at {d : Document} {offset : Nat} (h : offset ≤ d.size) :
    ∃ pre l post i, d.lines = pre ++ l :: post ∧ d.lineAt offset = pre.length ∧
      d.lines[d.lineAt offset]? = some l ∧ d.lineStart (d.lineAt offset) = Lines.width pre ∧
      i ≤ l.size ∧ offset = Lines.width pre + i := by
  obtain ⟨pre, l, post, hlines, hlength, hlo, hhi⟩ := Lines.exists_split_of_le d.lines_ne_nil h
  have hat : d.lineAt offset = pre.length := hlength.symm
  refine ⟨pre, l, post, offset - Lines.width pre, hlines, hat, ?_, ?_, by omega, by omega⟩
  · rw [hat, hlines]
    simp
  · rw [hat, lineStart, hlines, Lines.lineStart_split]

/-- What stands around an offset of a line in the whole text. -/
theorem around?_line {d : Document} {pre post : Lines} {l : Line} (h : d.lines = pre ++ l :: post)
    {i : Nat} (hi : i ≤ l.size) :
    ∃ behind : Text, behind.head? = (if post = [] then none else some '\n') ∧
      d.text.around? (Lines.width pre + i) = (l.text.around? i).map fun (before, after) =>
        (before ++ (Lines.terminated pre).reverse, after ++ behind) := by
  obtain ⟨behind, htext, hbehind⟩ := Lines.exists_text_split pre l post
  refine ⟨behind, hbehind, ?_⟩
  rw [text, h, htext, ← Lines.size_terminated, Text.around?_append_add,
    Text.around?_append_of_le behind (l.size_eq ▸ hi), Option.map_map]
  rfl

theorem charBefore?_eq (d : Document) (offset : Nat) :
    d.charBefore? offset = (d.text.around? offset).bind fun (before, _) => before.head? := by
  rw [charBefore?]
  by_cases hout : offset = 0 ∨ d.size < offset
  · rw [if_pos hout]
    rcases hout with rfl | hlt
    · rw [show d.text.around? 0 = some ([], d.text) from Text.around?_append [] d.text]
      rfl
    · rw [Text.around?_of_size_lt (by rwa [size_text])]
      rfl
  · obtain ⟨pre, l, post, i, hlines, -, hline, hstart, hi, rfl⟩ :=
      @exists_line_at d offset (by omega)
    obtain ⟨behind, -, haround⟩ := around?_line hlines hi
    rw [if_neg hout, hline, Option.bind_some, hstart, Nat.add_sub_cancel_left, haround]
    by_cases hfirst : i = 0
    · -- before the first character of a line stands the line feed of the line before
      subst hfirst
      rw [if_pos rfl, show l.text.around? 0 = some ([], l.text) from Text.around?_append [] l.text]
      cases pre with
      | nil => exact absurd (Or.inl rfl) hout
      | cons p pre =>
        rw [Option.map_some, Option.bind_some]
        dsimp only
        rw [List.nil_append, List.head?_reverse, Lines.getLast?_terminated_cons]
    · rw [if_neg hfirst]
      cases hsides : l.text.around? i with
      | none => rfl
      | some sides =>
        obtain ⟨before, after⟩ := sides
        cases before with
        | nil => exact absurd (Text.around?_eq_some_iff.1 hsides).2.symm hfirst
        | cons c before => rfl

theorem charAt?_of_size_lt {d : Document} {offset : Nat} (h : d.size < offset) :
    d.charAt? offset = none := by
  obtain ⟨pre, l, post, hlines, hlength⟩ :=
    Lines.exists_split_at (Lines.lineAt_lt_length d.lines_ne_nil offset)
  have hat : d.lineAt offset = pre.length := hlength.symm
  have hline : d.lines[pre.length]? = some l := by
    rw [hlines]
    simp
  have hstart : d.lineStart pre.length = Lines.width pre := by
    rw [lineStart, hlines, Lines.lineStart_split]
  have hsize : d.size = Lines.width pre + Lines.size (l :: post) := by
    rw [size, hlines, Lines.size_split]
  have hle := @Lines.size_le_size_cons l post
  rw [charAt?, hat, hline, Option.bind_some, hstart]
  dsimp only
  rw [if_neg (by omega), if_neg (by omega)]

theorem charAt?_eq (d : Document) (offset : Nat) :
    d.charAt? offset = (d.text.around? offset).bind fun (_, after) => after.head? := by
  by_cases hout : d.size < offset
  · rw [charAt?_of_size_lt hout, Text.around?_of_size_lt (by rwa [size_text])]
    rfl
  · obtain ⟨pre, l, post, i, hlines, hat, hline, hstart, hi, rfl⟩ :=
      exists_line_at (Nat.le_of_not_lt hout)
    obtain ⟨behind, hbehind, haround⟩ := around?_line hlines hi
    rw [charAt?, hline, Option.bind_some, hstart, Nat.add_sub_cancel_left, haround, hat,
      lineCount_split hlines]
    by_cases hin : i < l.size
    · rw [if_pos hin]
      cases hsides : l.text.around? i with
      | none => rfl
      | some sides =>
        obtain ⟨before, after⟩ := sides
        obtain ⟨htext, rfl⟩ := Text.around?_eq_some_iff.1 hsides
        rw [l.size_eq, htext, Text.size_append, Text.size_reverse] at hin
        cases after with
        | nil => exact absurd hin (Nat.lt_irrefl _)
        | cons c after => rfl
    · -- behind the last character of a line stands its line feed, unless it is the last line
      obtain rfl : i = l.size := by omega
      have hend := Text.around?_append l.text []
      rw [List.append_nil, ← l.size_eq] at hend
      rw [if_neg hin, hend, Option.map_some, Option.bind_some]
      dsimp only
      rw [List.nil_append, hbehind]
      cases post with
      | nil => simp
      | cons m post => simp

theorem lt_size_of_charAt? {d : Document} {offset : Nat} {c : Char}
    (h : d.charAt? offset = some c) : offset + c.utf8Size ≤ d.size := by
  rw [charAt?_eq, Option.bind_eq_some_iff] at h
  obtain ⟨⟨before, after⟩, haround, hafter⟩ := h
  obtain ⟨htext, rfl⟩ := Text.eq_append_of_around? haround
  obtain ⟨rest, rfl⟩ := List.head?_eq_some_iff.1 hafter
  rw [← size_text, htext, Text.size_append, Text.size_reverse, Text.size_cons]
  omega

/-! ## From character to character -/

/-- Goes back from an offset for as long as word characters stand before it. -/
def walkBack (d : Document) (offset : Nat) : Nat :=
  match _hbefore : d.charBefore? offset with
  | none => offset
  | some c => if d.isWordChar c then d.walkBack (offset - c.utf8Size) else offset
termination_by offset
decreasing_by
  have hpos := c.utf8Size_pos
  have hne : offset ≠ 0 := by
    rintro rfl
    rw [charBefore?, if_pos (Or.inl rfl)] at _hbefore
    cases _hbefore
  omega

/-- Goes on from an offset for as long as word characters stand behind it. -/
def walkAhead (d : Document) (offset : Nat) : Nat :=
  match _hat : d.charAt? offset with
  | none => offset
  | some c => if d.isWordChar c then d.walkAhead (offset + c.utf8Size) else offset
termination_by d.size - offset
decreasing_by
  have hpos := c.utf8Size_pos
  have hle := lt_size_of_charAt? _hat
  omega

section
variable {d : Document} {offset : Nat} {before after : Text}

theorem walkBack_eq_self (h : (d.charBefore? offset).any d.isWordChar = false) :
    d.walkBack offset = offset := by
  rw [walkBack]
  split
  · rfl
  · next c hc =>
    rw [hc, Option.any_some] at h
    rw [if_neg (Bool.eq_false_iff.1 h)]

theorem walkBack_step {c : Char} (h : d.charBefore? offset = some c)
    (hc : d.isWordChar c = true) : d.walkBack offset = d.walkBack (offset - c.utf8Size) := by
  rw [walkBack]
  split
  · next hnone => cases h.symm.trans hnone
  · next c' hc' =>
    obtain rfl := Option.some.inj (h.symm.trans hc')
    rw [if_pos hc]

theorem walkAhead_eq_self (h : (d.charAt? offset).any d.isWordChar = false) :
    d.walkAhead offset = offset := by
  rw [walkAhead]
  split
  · rfl
  · next c hc =>
    rw [hc, Option.any_some] at h
    rw [if_neg (Bool.eq_false_iff.1 h)]

theorem walkAhead_step {c : Char} (h : d.charAt? offset = some c)
    (hc : d.isWordChar c = true) : d.walkAhead offset = d.walkAhead (offset + c.utf8Size) := by
  rw [walkAhead]
  split
  · next hnone => cases h.symm.trans hnone
  · next c' hc' =>
    obtain rfl := Option.some.inj (h.symm.trans hc')
    rw [if_pos hc]

theorem charBefore?_of_around? (h : d.text.around? offset = some (before, after)) :
    d.charBefore? offset = before.head? := by
  rw [charBefore?_eq, h, Option.bind_some]

theorem charAt?_of_around? (h : d.text.around? offset = some (before, after)) :
    d.charAt? offset = after.head? := by
  rw [charAt?_eq, h, Option.bind_some]

theorem walkBack_eq (h : d.text.around? offset = some (before, after)) :
    d.walkBack offset = offset - Text.size (before.takeWhile d.isWordChar) := by
  induction before generalizing offset after with
  | nil =>
    refine walkBack_eq_self ?_
    rw [charBefore?_of_around? h]
    rfl
  | cons c before ih =>
    have hbefore := charBefore?_of_around? h
    by_cases hc : d.isWordChar c = true
    · obtain ⟨htext, rfl⟩ := Text.around?_eq_some_iff.1 h
      have hback : d.text.around? (Text.size before) = some (before, c :: after) := by
        rw [Text.around?_eq_some_iff, htext, List.reverse_cons, List.append_assoc]
        exact ⟨rfl, rfl⟩
      rw [walkBack_step hbefore hc, Text.size_cons, Nat.add_sub_cancel_left, ih hback,
        List.takeWhile_cons_of_pos hc, Text.size_cons, Nat.add_sub_add_left]
    · rw [List.takeWhile_cons_of_neg hc]
      refine walkBack_eq_self ?_
      rw [hbefore]
      exact Bool.eq_false_iff.2 hc

theorem walkAhead_eq (h : d.text.around? offset = some (before, after)) :
    d.walkAhead offset = offset + Text.size (after.takeWhile d.isWordChar) := by
  induction after generalizing offset before with
  | nil =>
    refine walkAhead_eq_self ?_
    rw [charAt?_of_around? h]
    rfl
  | cons c after ih =>
    have hat := charAt?_of_around? h
    by_cases hc : d.isWordChar c = true
    · obtain ⟨htext, rfl⟩ := Text.around?_eq_some_iff.1 h
      have hahead : d.text.around? (Text.size before + c.utf8Size) = some (c :: before, after) := by
        rw [Text.around?_eq_some_iff, htext, List.reverse_cons, List.append_assoc, Text.size_cons,
          Nat.add_comm]
        exact ⟨rfl, rfl⟩
      rw [walkAhead_step hat hc, ih hahead, List.takeWhile_cons_of_pos hc, Text.size_cons,
        Nat.add_assoc]
    · rw [List.takeWhile_cons_of_neg hc]
      refine walkAhead_eq_self ?_
      rw [hat]
      exact Bool.eq_false_iff.2 hc

end

/-- The word at an offset is found by going from character to character in both directions. -/
theorem wordAt_eq_walk (d : Document) (offset : Nat) :
    d.wordAt offset = ⟨d.walkBack (min offset d.size), d.walkAhead (min offset d.size)⟩ := by
  rw [wordAt]
  cases haround : d.text.around? (min offset d.size) with
  | some sides => rw [walkBack_eq haround, walkAhead_eq haround]
  | none =>
    rw [walkBack_eq_self, walkAhead_eq_self]
    · rw [charAt?_eq, haround]
      rfl
    · rw [charBefore?_eq, haround]
      rfl

/-! ## The longest word -/

/-- A range of whole characters, all of which are word characters. -/
def IsWordRange (d : Document) (s : Span) : Prop :=
  ∃ pre mid post, d.text = pre ++ mid ++ post ∧ s = ⟨pre.size, pre.size + Text.size mid⟩ ∧
    ∀ c ∈ mid, d.isWordChar c = true

/-- The longest range of word characters around an offset: it covers every other one. -/
structure IsLongestWord (d : Document) (offset : Nat) (w : Span) : Prop where
  range : d.IsWordRange w
  around : w.start ≤ offset ∧ offset ≤ w.stop
  longest : ∀ s, d.IsWordRange s → s.start ≤ offset → offset ≤ s.stop →
    w.start ≤ s.start ∧ s.stop ≤ w.stop

section
variable {d : Document} {pre mid post a m b : Text}

/-- A whole word covers every range of word characters that meets it. -/
theorem IsWord.le_of_range (h : d.IsWord pre mid post) (htext : d.text = a ++ m ++ b)
    (hchars : ∀ c ∈ m, d.isWordChar c = true) (hlo : pre.size ≤ a.size + m.size)
    (hhi : a.size ≤ pre.size + mid.size) :
    pre.size ≤ a.size ∧ a.size + m.size ≤ pre.size + mid.size := by
  have htexts := h.text_eq.symm.trans htext
  constructor
  · -- what the range has before the word ends with a word character
    refine Nat.le_of_not_lt fun hlt => ?_
    rw [List.append_assoc, List.append_assoc] at htexts
    obtain ⟨k, rfl, hrest⟩ := Text.exists_of_append_eq htexts.symm (Nat.le_of_lt hlt)
    rw [Text.size_append] at hlo hlt
    obtain ⟨r, rfl, -⟩ := Text.exists_of_append_eq hrest.symm (by omega)
    have hne : k ≠ [] := by
      rintro rfl
      exact absurd hlt (Nat.lt_irrefl _)
    have hlast := h.before
    rw [List.getLast?_append_of_ne_nil _ hne, List.getLast?_eq_some_getLast hne, Option.any_some,
      hchars _ (List.mem_append_left _ (List.getLast_mem hne))] at hlast
    cases hlast
  · -- and what it has behind the word starts with one
    refine Nat.le_of_not_lt fun hlt => ?_
    rw [← Text.size_append, ← Text.size_append] at hlt
    obtain ⟨k, hk, rfl⟩ := Text.exists_of_append_eq htexts (Nat.le_of_lt hlt)
    rw [← Text.size_append] at hhi
    obtain ⟨j, -, rfl⟩ := Text.exists_of_append_eq hk hhi
    cases k with
    | nil =>
      rw [hk, List.append_nil] at hlt
      exact absurd hlt (Nat.lt_irrefl _)
    | cons c k =>
      have hfirst := h.after
      rw [List.cons_append, List.head?_cons, Option.any_some, hchars c (by simp)] at hfirst
      cases hfirst

/-- A range without a line feed lies in one line. -/
theorem exists_line_of_range (htext : d.text = a ++ m ++ b) (hfeed : '\n' ∉ m) :
    ∃ line < d.lineCount, d.lineStart line ≤ a.size ∧ a.size + m.size ≤ d.lineEnd line := by
  have hle : a.size ≤ d.size := by
    rw [← size_text, htext, Text.size_append, Text.size_append]
    omega
  obtain ⟨pre, l, post, i, hlines, -, -, -, hi, hoffset⟩ := exists_line_at hle
  refine ⟨pre.length, ?_, ?_, ?_⟩
  · rw [lineCount_split hlines]
    omega
  · rw [lineStart, hlines, Lines.lineStart_split, hoffset]
    exact Nat.le_add_right _ _
  · rw [lineEnd, hlines, Lines.lineEnd_split]
    -- what the range has behind the line starts with the line feed
    refine Nat.le_of_not_lt fun hlt => ?_
    obtain ⟨behind, hsplit, hbehind⟩ := Lines.exists_text_split pre l post
    rw [← hlines, ← text, ← List.append_assoc] at hsplit
    have hwidth : Text.size (Lines.terminated pre ++ l.text) = Lines.width pre + l.size := by
      rw [Text.size_append, Lines.size_terminated, l.size_eq]
    rw [← hwidth, ← Text.size_append] at hlt
    obtain ⟨k, hk, rfl⟩ := Text.exists_of_append_eq (hsplit.symm.trans htext) (Nat.le_of_lt hlt)
    obtain ⟨j, -, rfl⟩ := Text.exists_of_append_eq hk (by omega)
    cases k with
    | nil =>
      rw [hk, List.append_nil] at hlt
      exact absurd hlt (Nat.lt_irrefl _)
    | cons c k =>
      rw [List.cons_append, List.head?_cons] at hbehind
      split at hbehind
      · cases hbehind
      · obtain rfl := Option.some.inj hbehind
        exact hfeed (by simp)

end

/-- The word at an offset where a character starts or the text ends is the longest one there. -/
theorem isLongestWord_wordAt {d : Document} {offset : Nat}
    (h : d.isBoundary (min offset d.size) = true) :
    d.IsLongestWord (min offset d.size) (d.wordAt offset) := by
  obtain ⟨pre, mid, post, hword, hspan⟩ := isWord_wordAt_of_isBoundary h
  obtain ⟨hlo, hhi, -⟩ := d.wordAt_within offset
  rw [hspan] at hlo hhi ⊢
  refine ⟨⟨pre, mid, post, hword.text_eq, rfl, hword.chars⟩, ⟨hlo, hhi⟩, ?_⟩
  rintro s ⟨a, m, b, htext, rfl, hchars⟩ hstart hstop
  exact hword.le_of_range htext hchars (Nat.le_trans hlo hstop) (Nat.le_trans hstart hhi)

/-- There is no word at an offset exactly if there is no word character on either side. -/
theorem isEmpty_wordAt_iff {d : Document} {offset : Nat}
    (h : d.isBoundary (min offset d.size) = true) :
    (d.wordAt offset).isEmpty = true ↔
      (d.charBefore? (min offset d.size)).any d.isWordChar = false ∧
        (d.charAt? (min offset d.size)).any d.isWordChar = false := by
  obtain ⟨⟨before, after⟩, haround⟩ := Option.isSome_iff_exists.1 h
  obtain ⟨-, hsize⟩ := Text.eq_append_of_around? haround
  have hle := size_takeWhile_le before d.isWordChar
  rw [charBefore?_of_around? haround, charAt?_of_around? haround, wordAt, haround, Span.isEmpty,
    decide_eq_true_eq, ← Text.size_takeWhile_eq_zero, ← Text.size_takeWhile_eq_zero]
  dsimp only
  omega

/-- If line feeds are no word characters, the word at an offset where a character starts or the
text ends is the longest range of word characters there and lies in one line. It is empty exactly if
no word character stands on either side, and it is the word at each offset on it where a character
starts, its ends included. Every range of word characters that a search takes for a whole word is
the word at its start. -/
theorem wordAt_longest (d : Document) (hfeed : '\n' ∉ d.wordChars) :
    (∀ offset, d.isBoundary (min offset d.size) = true →
      d.IsLongestWord (min offset d.size) (d.wordAt offset) ∧
      (∃ line < d.lineCount, d.lineStart line ≤ (d.wordAt offset).start ∧
        (d.wordAt offset).stop ≤ d.lineEnd line) ∧
      ((d.wordAt offset).isEmpty = true ↔
        (d.charBefore? (min offset d.size)).any d.isWordChar = false ∧
          (d.charAt? (min offset d.size)).any d.isWordChar = false) ∧
      ∀ other, d.isBoundary other = true → (d.wordAt offset).start ≤ other →
        other ≤ (d.wordAt offset).stop → d.wordAt other = d.wordAt offset) ∧
    ∀ pre mid post : Text, d.text = pre ++ mid ++ post → (∀ c ∈ mid, d.isWordChar c = true) →
      d.isWholeWord ⟨⟨pre.size, pre.size + mid.size⟩, pre.getLast?, post.head?⟩ = true →
      d.wordAt pre.size = ⟨pre.size, pre.size + mid.size⟩ := by
  have hbreak : d.isWordChar '\n' = false := by
    rw [isWordChar, List.contains_eq_mem, decide_eq_false hfeed]
    rfl
  constructor
  · intro offset hoffset
    obtain ⟨pre, mid, post, hword, hspan⟩ := isWord_wordAt_of_isBoundary hoffset
    refine ⟨isLongestWord_wordAt hoffset, ?_, isEmpty_wordAt_iff hoffset, ?_⟩
    · rw [hspan]
      refine exists_line_of_range hword.text_eq fun hmem => ?_
      cases hbreak.symm.trans (hword.chars _ hmem)
    · intro other hother hlo hhi
      rw [hspan] at hlo hhi ⊢
      exact hword.wordAt_of_isBoundary hlo hhi hother
  · intro pre mid post htext hchars hwhole
    rw [isWholeWord, Bool.and_eq_true, Bool.not_eq_true', Bool.not_eq_true'] at hwhole
    have hword : d.IsWord pre ([] ++ mid) post := ⟨htext, hchars, hwhole.1, hwhole.2⟩
    exact hword.wordAt

/-- A word with a colon and with a letter beyond ASCII, at the end of a line. -/
theorem wordAt_longest_colon :
    let d := { ofText "words" "x Ä1:b\n\nif".toList with wordChars := ':' :: standardWordChars }
    ('\n' ∉ d.wordChars ∧ d.isBoundary (min 5 d.size) = true) ∧ d.IsLongestWord 5 ⟨2, 7⟩ ∧
      d.wordAt 7 = ⟨2, 7⟩ ∧ d.wordAt (Text.size "x ".toList) = ⟨2, 7⟩ := by
  intro d
  have hfeed : '\n' ∉ d.wordChars := by
    rw [← List.contains_iff_mem]
    decide +kernel
  obtain ⟨hoffset, hend, htext, hchars, hwhole⟩ : d.isBoundary (min 5 d.size) = true ∧
      d.isBoundary 7 = true ∧ d.text = "x ".toList ++ "Ä1:b".toList ++ "\n\nif".toList ∧
      ("Ä1:b".toList.all d.isWordChar) = true ∧
      d.isWholeWord ⟨⟨2, 7⟩, some ' ', some '\n'⟩ = true := by decide +kernel
  obtain ⟨hsize, hword⟩ : min 5 d.size = 5 ∧ d.wordAt 5 = ⟨2, 7⟩ := by decide +kernel
  obtain ⟨hat, hstart⟩ := wordAt_longest d hfeed
  obtain ⟨hlongest, -, -, hsame⟩ := hat 5 hoffset
  rw [hword] at hsame hlongest
  exact ⟨⟨hfeed, hoffset⟩, hsize ▸ hlongest, hsame 7 hend (by decide) (by decide),
    hstart _ _ _ htext (List.all_eq_true.1 hchars) hwhole⟩

end Document

end Papyrus

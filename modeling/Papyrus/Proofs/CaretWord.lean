import Papyrus.Proofs.AsciiCase
import Papyrus.Proofs.BlockScan
import Papyrus.Proofs.LineOffset
/-!
# The word under the caret

A document is read in full if reads are not limited; what is read between two places where the text
can be cut is what stands there. The word under the caret is a part of the text that is made of word
characters and has none on either side (`Document.IsWord`), and every caret next to a character of
such a part is on it. This is how the word under the caret meets the keywords, which are found by a
search: in lower case they are the same ASCII word.

Results:
* `read_cut`: what is read of a part of the text.
* `IsWord.wordAt`, `isWord_wordAt`: the word under a caret is the whole word around it.
* `mem_keywords_iff`: the keywords of a document are whole words.
* `wordName_of_keyword`: a keyword in ASCII letters, from a caret on it.
* `mem_keywords_of_wordName`: a word that is a block's in lower case is one of its keywords.
* `matchKeyword_of_ofWord?`: a block keyword under the caret is matched if it is in code.
-/
namespace Papyrus

/-! ## Reading a part of the text -/

namespace Text

theorem takeCeil_append (s t : Text) (n : Nat) :
    (s ++ t).takeCeil (s.size + n) = s ++ t.takeCeil n := by
  induction s with
  | nil => rw [size_nil, Nat.zero_add]; rfl
  | cons c s ih =>
    have hpos := c.utf8Size_pos
    rw [List.cons_append, takeCeil, size_cons, if_neg (by omega),
      show c.utf8Size + size s + n - c.utf8Size = size s + n by omega, ih]
    rfl

theorem takeCeil_append_of_le {s : Text} (t : Text) {n : Nat} (h : n ≤ s.size) :
    (s ++ t).takeCeil n = s.takeCeil n := by
  induction s generalizing n with
  | nil =>
    obtain rfl := Nat.le_zero.1 h
    cases t <;> rfl
  | cons c s ih =>
    rw [size_cons] at h
    rw [List.cons_append, takeCeil, takeCeil, ih (by omega)]

theorem dropFloor_append (s t : Text) (n : Nat) :
    (s ++ t).dropFloor (s.size + n) = t.dropFloor n := by
  induction s with
  | nil => rw [size_nil, Nat.zero_add]; rfl
  | cons c s ih =>
    rw [List.cons_append, dropFloor, size_cons, if_pos (by omega),
      show c.utf8Size + size s + n - c.utf8Size = size s + n by omega, ih]

theorem dropFloor_append_of_le {s : Text} (t : Text) {n : Nat} (h : n ≤ s.size) :
    (s ++ t).dropFloor n = s.dropFloor n ++ t := by
  induction s generalizing n with
  | nil =>
    obtain rfl := Nat.le_zero.1 h
    rw [List.nil_append, dropFloor_zero]
    rfl
  | cons c s ih =>
    rw [size_cons] at h
    rw [List.cons_append, dropFloor, dropFloor]
    by_cases hc : c.utf8Size ≤ n
    · rw [if_pos hc, if_pos hc, ih (by omega)]
    · rw [if_neg hc, if_neg hc]
      rfl

theorem takeCeil_zero (t : Text) : t.takeCeil 0 = [] := by cases t <;> rfl

theorem size_takeCeil_le (t : Text) (n : Nat) : (t.takeCeil n).size ≤ t.size := by
  induction t generalizing n with
  | nil => exact Nat.le_refl _
  | cons c t ih =>
    rw [takeCeil]
    split
    · exact Nat.zero_le _
    · rw [size_cons, size_cons]
      exact Nat.add_le_add_left (ih _) _

theorem takeCeil_of_size_le {t : Text} {n : Nat} (h : t.size ≤ n) : t.takeCeil n = t := by
  have htake := takeCeil_append t [] (n - t.size)
  rw [Nat.add_sub_cancel' h, List.append_nil] at htake
  exact htake.trans (List.append_nil t)

theorem dropFloor_of_size_le {t : Text} {n : Nat} (h : t.size ≤ n) : t.dropFloor n = [] := by
  have hdrop := dropFloor_append t [] (n - t.size)
  rwa [List.append_nil, Nat.add_sub_cancel' h] at hdrop

/-- An ASCII text can be cut at each of its bytes. -/
theorem exists_split_of_isAscii {t : Text} (ht : ∀ c ∈ t, Unicode.isAscii c = true) {n : Nat}
    (hn : n ≤ t.size) : ∃ m m', t = m ++ m' ∧ Text.size m = n := by
  induction t generalizing n with
  | nil => exact ⟨[], [], rfl, (Nat.le_zero.1 hn).symm⟩
  | cons c t ih =>
    have hc : c.utf8Size = 1 := by
      have := ht c List.mem_cons_self
      rw [Unicode.isAscii, decide_eq_true_eq] at this
      exact Char.utf8Size_eq_one_iff.2 (UInt32.le_iff_toNat_le.2 (Nat.le_of_lt_succ this))
    cases n with
    | zero => exact ⟨[], c :: t, rfl, rfl⟩
    | succ n =>
      rw [Text.size_cons, hc] at hn
      obtain ⟨m, m', rfl, rfl⟩ := ih (fun d hd => ht d (List.mem_cons_of_mem c hd)) (n := n)
        (by omega)
      exact ⟨c :: m, m', rfl, by rw [Text.size_cons, hc, Nat.add_comm]⟩

/-- What is left behind the characters of a kind does not start with one of them. -/
theorem any_head?_dropWhile (p : Char → Bool) (t : Text) :
    (t.dropWhile p).head?.any p = false := by
  have hnot := List.head?_dropWhile_not p t
  cases hhead : (t.dropWhile p).head? with
  | none => rfl
  | some c => simpa [hhead] using hnot

/-- What stands between two places where the text is cut. -/
theorem slice_cut (pre mid post : Text) :
    (pre ++ mid ++ post).slice pre.size (pre.size + mid.size) = mid := by
  have htake := takeCeil_append (pre ++ mid) post 0
  rw [Nat.add_zero, size_append, takeCeil_zero, List.append_nil] at htake
  have hdrop := dropFloor_append pre mid 0
  rw [Nat.add_zero, dropFloor_zero] at hdrop
  rw [slice, htake, hdrop]

/-- Around the place where a text is cut stand its two parts. -/
theorem around?_append (s t : Text) : (s ++ t).around? s.size = some (s.reverse, t) := by
  have hgo : ∀ before, around?.go before (s ++ t) s.size = some (s.reverse ++ before, t) := by
    induction s with
    | nil => intro before; cases t <;> rfl
    | cons c s ih =>
      intro before
      have hpos := c.utf8Size_pos
      obtain ⟨n, hn⟩ : ∃ n, c.utf8Size + size s = n + 1 := ⟨c.utf8Size + size s - 1, by omega⟩
      rw [size_cons, hn, List.cons_append, around?.go, if_pos (by omega), ← hn,
        Nat.add_sub_cancel_left, ih, List.reverse_cons, List.append_assoc]
      · rfl
      · exact fun h => by cases h
  rw [around?, hgo, List.append_nil]

end Text

/-- What stands between two offsets of lines is what stands there in their text. -/
theorem Lines.slice_eq (ls : Lines) (start stop : Nat) :
    slice ls start stop = (text ls).slice start stop := by
  induction ls generalizing start stop with
  | nil => rfl
  | cons l ls ih =>
    cases ls with
    | nil => rfl
    | cons m ls =>
      have htext : text (l :: m :: ls) = (l.text ++ ['\n']) ++ text (m :: ls) := by
        simp [text, Text.joinLines]
      have hsize : Text.size (l.text ++ ['\n']) = l.text.size + 1 := Text.size_append _ _
      rw [slice]
      case x_3 => exact List.cons_ne_nil m ls
      rw [htext, l.size_eq, ih]
      unfold Text.slice
      by_cases hstop : stop ≤ l.text.size
      · rw [List.append_assoc, Text.takeCeil_append_of_le _ hstop, if_pos hstop]
        by_cases hstart : l.text.size < start
        · have hle := Text.size_takeCeil_le l.text stop
          rw [if_pos hstart, Nat.sub_eq_zero_of_le (Nat.le_succ_of_le hstop), Text.takeCeil_zero,
            Text.dropFloor_of_size_le (t := l.text.takeCeil stop) (by omega)]
          rfl
        · rw [if_neg hstart]
      · obtain ⟨n, rfl⟩ := Nat.exists_eq_add_of_le (show l.text.size + 1 ≤ stop by omega)
        rw [if_neg hstop, Nat.add_sub_cancel_left, ← hsize, Text.takeCeil_append,
          Text.takeCeil_of_size_le (t := l.text) (by omega)]
        by_cases hstart : l.text.size < start
        · obtain ⟨k, rfl⟩ := Nat.exists_eq_add_of_le (show l.text.size + 1 ≤ start by omega)
          rw [if_pos hstart, ← hsize, Nat.add_sub_cancel_left, Text.dropFloor_append]
        · rw [if_neg hstart, List.append_assoc,
            Text.dropFloor_append_of_le _ (Nat.le_of_not_lt hstart), ih, Text.slice,
            Text.dropFloor_zero]
          rfl

namespace Document

theorem slice_cut {d : Document} {pre mid post : Text} (h : d.text = pre ++ mid ++ post) :
    d.slice pre.size (pre.size + mid.size) = mid := by
  rw [slice, Lines.slice_eq, ← text, h, Text.slice_cut]
  split
  · rfl
  · next hout =>
    have hsize := d.size_text
    rw [h, Text.size_append, Text.size_append] at hsize
    exact (Text.size_eq_zero (by omega)).symm

/-- What is read of a part of the text. -/
theorem read_cut {d : Document} (hread : d.readLimit = none) {pre mid post : Text}
    (h : d.text = pre ++ mid ++ post) : d.read pre.size (pre.size + mid.size) = mid := by
  rw [read, hread, slice_cut h]

theorem isBoundary_cut {d : Document} {before after : Text} (h : d.text = before ++ after) :
    d.isBoundary before.size = true := by
  rw [isBoundary, h, Text.around?_append]
  rfl

/-! ## Whole words -/

/-- A part of a document that is made of word characters and has none on either side. -/
structure IsWord (d : Document) (pre mid post : Text) : Prop where
  text_eq : d.text = pre ++ mid ++ post
  chars : ∀ c ∈ mid, d.isWordChar c = true
  before : pre.getLast?.any d.isWordChar = false
  after : post.head?.any d.isWordChar = false

/-- The word at an offset in lower case. -/
def wordName (d : Document) (offset : Nat) : String :=
  foldName (String.ofList (d.read (d.wordAt offset).start (d.wordAt offset).stop))

theorem takeWhile_append_of_stop {p : Char → Bool} {s t : Text} (hs : ∀ c ∈ s, p c = true)
    (ht : t.head?.any p = false) : (s ++ t).takeWhile p = s := by
  rw [List.takeWhile_append_of_pos hs]
  cases t with
  | nil => rw [List.takeWhile_nil, List.append_nil]
  | cons c t =>
    have hc : ¬ p c = true := Bool.eq_false_iff.1 ht
    rw [List.takeWhile_cons_of_neg hc, List.append_nil]

/-- A caret between two characters of a word, or at its end, is on it. -/
theorem IsWord.wordAt {d : Document} {pre m m' post : Text} (h : d.IsWord pre (m ++ m') post) :
    d.wordAt (pre.size + m.size) = ⟨pre.size, pre.size + Text.size (m ++ m')⟩ := by
  have hsize := d.size_text
  rw [h.text_eq, Text.size_append, Text.size_append, Text.size_append] at hsize
  have haround : d.text.around? (pre.size + m.size) = some ((pre ++ m).reverse, m' ++ post) := by
    rw [h.text_eq, ← Text.size_append, List.append_assoc, List.append_assoc, ← List.append_assoc,
      Text.around?_append]
  have hbefore : (pre ++ m).reverse.takeWhile d.isWordChar = m.reverse := by
    rw [List.reverse_append]
    refine takeWhile_append_of_stop (fun c hc => ?_) (by rw [List.head?_reverse]; exact h.before)
    exact h.chars c (List.mem_append_left _ (List.mem_reverse.1 hc))
  have hafter : (m' ++ post).takeWhile d.isWordChar = m' :=
    takeWhile_append_of_stop (fun c hc => h.chars c (List.mem_append_right _ hc)) h.after
  rw [Document.wordAt, Nat.min_eq_left (by omega), haround]
  dsimp only
  rw [hbefore, hafter, Text.size_reverse, Nat.add_sub_cancel, Text.size_append, Nat.add_assoc]

/-- The word around an offset at which a character starts or ends. -/
theorem IsWord.wordAt_of_isBoundary {d : Document} {before word after : Text}
    (hword : d.IsWord before word after) {offset : Nat} (hlo : before.size ≤ offset)
    (hhi : offset ≤ before.size + word.size) (hboundary : d.isBoundary offset = true) :
    d.wordAt offset = ⟨before.size, before.size + word.size⟩ := by
  obtain ⟨⟨left, right⟩, haround⟩ := Option.isSome_iff_exists.1 hboundary
  obtain ⟨hsides, hsize⟩ := Text.eq_append_of_around? haround
  rw [← Text.size_reverse] at hsize
  rw [hword.text_eq, List.append_assoc] at hsides
  -- the offset parts the word in two
  obtain ⟨m, hleft, hright⟩ := Text.exists_of_append_eq hsides (by omega)
  rw [hleft, Text.size_append] at hsize
  obtain ⟨m', rfl, -⟩ := Text.exists_of_append_eq hright.symm (by omega)
  rw [← hsize]
  exact hword.wordAt

/-- A caret on any byte of an ASCII word, or at its end, is on the word. -/
theorem IsWord.wordAt_of_isAscii {d : Document} {pre mid post : Text} (h : d.IsWord pre mid post)
    (hascii : ∀ c ∈ mid, Unicode.isAscii c = true) {offset : Nat} (hlo : pre.size ≤ offset)
    (hhi : offset ≤ pre.size + mid.size) :
    d.wordAt offset = ⟨pre.size, pre.size + mid.size⟩ := by
  obtain ⟨m, m', rfl, hm⟩ := Text.exists_split_of_isAscii hascii (n := offset - pre.size) (by omega)
  rw [show offset = pre.size + m.size by omega]
  exact h.wordAt

theorem isEmpty_wordAt {d : Document} {offset : Nat} (h : (d.wordName offset).toList ≠ []) :
    (d.wordAt offset).isEmpty = false := by
  rw [Bool.eq_false_iff]
  intro hempty
  rw [wordName, read_eq_nil (of_decide_eq_true hempty)] at h
  exact h rfl

/-- The word at an offset where a character starts or ends is a whole word, which may be empty. -/
theorem isWord_wordAt_of_isBoundary {d : Document} {offset : Nat}
    (h : d.isBoundary (min offset d.size) = true) :
    ∃ pre mid post, d.IsWord pre mid post ∧
      d.wordAt offset = ⟨pre.size, pre.size + mid.size⟩ := by
  obtain ⟨⟨before, after⟩, haround⟩ := Option.isSome_iff_exists.1 h
  obtain ⟨htext, hsize⟩ := Text.eq_append_of_around? haround
  have hbefore := List.takeWhile_append_dropWhile (p := d.isWordChar) (l := before)
  have hafter := List.takeWhile_append_dropWhile (p := d.isWordChar) (l := after)
  have hb := congrArg Text.size hbefore
  rw [Text.size_append] at hb
  have hstop := Text.any_head?_dropWhile d.isWordChar
  rw [Document.wordAt, haround]
  refine ⟨(before.dropWhile d.isWordChar).reverse,
    (before.takeWhile d.isWordChar).reverse ++ after.takeWhile d.isWordChar,
    after.dropWhile d.isWordChar, ⟨?_, fun c hc => ?_, ?_, hstop _⟩, ?_⟩
  · rw [htext, ← List.append_assoc, ← List.reverse_append, hbefore, List.append_assoc, hafter]
  · rcases List.mem_append.1 hc with hc | hc
    · exact List.all_eq_true.1 List.all_takeWhile c (List.mem_reverse.1 hc)
    · exact List.all_eq_true.1 List.all_takeWhile c hc
  · rw [List.getLast?_reverse]
    exact hstop _
  · dsimp only
    rw [Text.size_append, Text.size_reverse, Text.size_reverse, ← hsize]
    congr 1
    · omega
    · omega

/-- The word at an offset is a whole word if it is not empty. -/
theorem isWord_wordAt {d : Document} {offset : Nat} (h : (d.wordAt offset).isEmpty = false) :
    ∃ pre mid post, d.IsWord pre mid post ∧
      d.wordAt offset = ⟨pre.size, pre.size + mid.size⟩ := by
  refine isWord_wordAt_of_isBoundary (Option.isSome_iff_ne_none.2 fun hnone => ?_)
  rw [Document.wordAt, hnone] at h
  exact absurd h (by simp [Span.isEmpty])

/-- The keywords of a solid word are the whole words that have its keys and the right style. -/
theorem mem_keywords_iff {d : Document} {word : String} (hsolid : d.Solid word) {style : Style}
    {s : Span} :
    s ∈ d.keywords word style ↔ ∃ pre mid post, d.IsWord pre mid post ∧
      mid.map Unicode.foldCase = word.toList.map Unicode.foldCase ∧
      s = ⟨pre.size, pre.size + mid.size⟩ ∧ d.styleAt s.start = style := by
  rw [mem_keywords_iff_isStyledWord hsolid.1]
  constructor
  · rintro ⟨pre, mid, post, htext, rfl, hkeys, hbefore, hafter, hstyle⟩
    refine ⟨pre, mid, post, ⟨htext, fun c hc => hsolid.2 c ?_, hbefore, hafter⟩, hkeys, rfl, hstyle⟩
    exact hkeys ▸ List.mem_map_of_mem hc
  · rintro ⟨pre, mid, post, h, hkeys, hs, hstyle⟩
    exact ⟨pre, mid, post, h.text_eq, hs, hkeys, h.before, h.after, hstyle⟩

end Document

/-! ## Plain words -/

/-- A word in lower-case ASCII letters other than `k`, which is the lower case of the Kelvin sign
too. -/
structure Plain (word : String) : Prop where
  nonempty : word.toList ≠ []
  letters : ∀ c ∈ word.toList, c.isLower = true ∧ c ≠ 'k'

theorem plain_iff {word : String} :
    Plain word ↔ word.toList ≠ [] ∧ (word.toList.all fun c => c.isLower && c != 'k') = true := by
  simp only [List.all_eq_true, Bool.and_eq_true, bne_iff_ne]
  exact ⟨fun h => ⟨h.nonempty, h.letters⟩, fun ⟨hne, hletters⟩ => ⟨hne, hletters⟩⟩

instance : DecidablePred Plain := fun _ => decidable_of_iff _ plain_iff.symm

namespace Plain

variable {word : String} (h : Plain word)
include h

theorem isAscii {c : Char} (hc : c ∈ word.toList) : Unicode.isAscii c = true ∧ 0 < c.toNat := by
  obtain ⟨hlo, hhi⟩ : 97 ≤ c.toNat ∧ c.toNat ≤ 122 :=
    Unicode.toNat_of_isLower (h.letters c hc).1
  exact ⟨decide_eq_true (by omega), by omega⟩

theorem foldCase_eq {c : Char} (hc : c ∈ word.toList) : Unicode.foldCase c = c := by
  rw [Unicode.foldCase_of_isAscii (h.isAscii hc).1]
  obtain ⟨hlo, -⟩ : 97 ≤ c.toNat ∧ c.toNat ≤ 122 := Unicode.toNat_of_isLower (h.letters c hc).1
  rcases Unicode.toLower_cases c with ⟨hsame, -⟩ | ⟨-, -, hhi, -⟩
  · exact hsame
  · omega

theorem map_foldCase : word.toList.map Unicode.foldCase = word.toList :=
  (List.map_congr_left fun _ hc => h.foldCase_eq hc).trans (List.map_id' _)

theorem solid_of_letters {d : Document} (hd : Document.letters ⊆ d.wordChars) : d.Solid word := by
  refine Document.solid_of_letters hd h.nonempty fun c hc => ?_
  rw [h.foldCase_eq hc]
  exact Unicode.toNat_of_isLower (h.letters c hc).1

theorem solid {d : Document} (hd : d.wordChars = Document.standardWordChars) : d.Solid word :=
  h.solid_of_letters (Document.letters_subset hd)

/-- Only ASCII texts have a plain word as their lower case. -/
theorem isAscii_of_lowerCase {t : Text} (ht : Unicode.lowerCase t = word.toList) :
    (∀ c ∈ t, Unicode.isAscii c = true) ∧ t.map Unicode.foldCase = word.toList := by
  suffices hgo : ∀ (before t w : List Char), (∀ c ∈ w, c ∈ word.toList) →
      Unicode.lowerCase.go before t = w → (∀ c ∈ t, Unicode.isAscii c = true) ∧
        t.map Unicode.foldCase = w from hgo [] t _ (fun _ => id) ht
  intro before t
  induction t generalizing before with
  | nil =>
    rintro w - rfl
    exact ⟨by simp, rfl⟩
  | cons c t ih =>
    rintro w hw rfl
    rw [Unicode.lowerCase.go] at hw ⊢
    have hpiece : (if c = '\u03A3' then [if Unicode.isFinalSigma before t then '\u03C2'
        else '\u03C3'] else Unicode.lowerChar c) = [Unicode.foldCase c] ∧
          Unicode.isAscii c = true := by
      have hmem := fun x hx => hw x (List.mem_append_left _ hx)
      split at hmem
      · next hsigma =>
        have := h.isAscii (hmem _ List.mem_cons_self)
        split at this <;> exact absurd this.1 (by decide)
      · next hsigma =>
        rw [if_neg hsigma]
        cases hc : Unicode.isAscii c with
        | true => rw [Unicode.lowerChar_of_isAscii hc, Unicode.foldCase_of_isAscii hc]; simp
        | false =>
          rw [Unicode.lowerChar, hc, if_neg Bool.false_ne_true] at hmem
          split at hmem
          · exact absurd (h.isAscii (hmem '\u0307' (by simp))).1 (by decide)
          · have hk := hmem _ List.mem_cons_self
            have hmap := Unicode.map_lowerCaseRuns_isAscii hc (h.isAscii hk).1 (h.isAscii hk).2
            exact absurd hmap.2 (h.letters _ hk).2
    obtain ⟨hascii, hmap⟩ := ih (c :: before) _ (fun x hx => hw x (List.mem_append_right _ hx)) rfl
    rw [hpiece.1, List.map_cons, hmap]
    refine ⟨fun x hx => ?_, rfl⟩
    rcases List.mem_cons.1 hx with rfl | hx
    · exact hpiece.2
    · exact hascii x hx

/-- An ASCII text that is a plain word but for case has it as its lower case. -/
theorem lowerCase_eq {t : Text} (hascii : ∀ c ∈ t, Unicode.isAscii c = true)
    (ht : t.map Unicode.foldCase = word.toList.map Unicode.foldCase) :
    Unicode.lowerCase t = word.toList := by
  rw [Unicode.lowerCase_of_isAscii hascii, ← h.map_foldCase, ← ht]
  exact List.map_congr_left fun c hc => (Unicode.foldCase_of_isAscii (hascii c hc)).symm

/-- A text that is a plain word but for case is ASCII, unless it may have a long s. -/
theorem isAscii_of_foldCase (hs : 's' ∉ word.toList) {t : Text}
    (ht : t.map Unicode.foldCase = word.toList.map Unicode.foldCase) {c : Char} (hc : c ∈ t) :
    Unicode.isAscii c = true := by
  have hmem : Unicode.foldCase c ∈ word.toList := by
    rw [← h.map_foldCase, ← ht]
    exact List.mem_map_of_mem hc
  rcases Unicode.isAscii_foldCase (h.isAscii hmem).1 (h.isAscii hmem).2 with hascii | ⟨-, heq⟩ |
    ⟨-, heq⟩
  · exact hascii
  · exact absurd (heq ▸ hmem) hs
  · exact absurd heq (h.letters _ hmem).2

end Plain

namespace Document

variable {d : Document} {word : String} {style : Style}

/-- A word that is a plain one in lower case is one of its keywords. -/
theorem mem_keywords_of_wordName (hread : d.readLimit = none)
    (hd : d.wordChars = standardWordChars) (hplain : Plain word) {offset : Nat}
    (hname : d.wordName offset = word) (hstyle : d.styleAt (d.wordAt offset).start = style) :
    d.wordAt offset ∈ d.keywords word style := by
  obtain ⟨pre, mid, post, hword, hspan⟩ := isWord_wordAt (isEmpty_wordAt (hname ▸ hplain.nonempty))
  rw [wordName, hspan, read_cut hread hword.text_eq] at hname
  have hlower : Unicode.lowerCase mid = word.toList := by
    rw [← hname, foldName, String.toList_ofList, String.toList_ofList]
  rw [mem_keywords_iff (hplain.solid hd)]
  refine ⟨pre, mid, post, hword, ?_, hspan, hstyle⟩
  rw [(hplain.isAscii_of_lowerCase hlower).2, hplain.map_foldCase]

/-- Every caret on an ASCII keyword, or at its end, is on the word, which is that of the keyword in
lower case. -/
theorem wordName_of_keyword (hread : d.readLimit = none) (hd : d.wordChars = standardWordChars)
    (hplain : Plain word) {s : Span} (hs : s ∈ d.keywords word style)
    (hascii : ∀ c ∈ d.read s.start s.stop, Unicode.isAscii c = true) {offset : Nat}
    (hlo : s.start ≤ offset) (hhi : offset ≤ s.stop) :
    d.wordAt offset = s ∧ d.wordName offset = word := by
  obtain ⟨pre, mid, post, hword, hkeys, rfl, -⟩ := (mem_keywords_iff (hplain.solid hd)).1 hs
  rw [read_cut hread hword.text_eq] at hascii
  have hspan := hword.wordAt_of_isAscii hascii hlo hhi
  refine ⟨hspan, ?_⟩
  rw [wordName, hspan, read_cut hread hword.text_eq, foldName, String.toList_ofList,
    hplain.lowerCase_eq hascii hkeys, String.ofList_toList]

/-- A keyword without an `s` is ASCII. -/
theorem isAscii_of_keyword (hread : d.readLimit = none) (hd : d.wordChars = standardWordChars)
    (hplain : Plain word) (hs : 's' ∉ word.toList) {s : Span} (h : s ∈ d.keywords word style) :
    ∀ c ∈ d.read s.start s.stop, Unicode.isAscii c = true := by
  obtain ⟨pre, mid, post, hword, hkeys, rfl, -⟩ := (mem_keywords_iff (hplain.solid hd)).1 h
  rw [read_cut hread hword.text_eq]
  exact fun c hc => hplain.isAscii_of_foldCase hs hkeys hc

/-! ## What the word under the caret asks for -/

/-- The match of a block keyword in the style of code. -/
def matchConstruct (d : Document) (word : Span) : Construct → BlockMatch
  | .declaration counterparts direction => d.matchDeclaration word counterparts direction
  | .flow block direction => d.matchFlow word block direction
  | .branch => d.matchBranch word

/-- A block keyword under the caret is matched if it has the style of code. -/
theorem matchKeyword_of_ofWord? {caret : Nat} {construct : Construct}
    (h : Construct.ofWord? (d.wordName caret) = some construct) :
    d.matchKeyword caret =
      if d.styleAt (d.wordAt caret).start = construct.style then
        d.matchConstruct (d.wordAt caret) construct
      else {} := by
  have hempty : (d.wordAt caret).isEmpty = false := isEmpty_wordAt fun hnil => by
    have hnone : Construct.ofWord? "" = none := by decide
    rw [String.toList_eq_nil_iff.1 hnil, hnone] at h
    cases h
  rw [wordName] at h
  rw [matchKeyword]
  simp only [hempty, h]
  by_cases hstyle : d.styleAt (d.wordAt caret).start = construct.style
  · rw [if_pos hstyle, hstyle]
    cases construct <;> simp [matchConstruct]
  · rw [if_neg hstyle]
    exact (if_neg Bool.false_ne_true).trans (if_pos (bne_iff_ne.2 hstyle))

theorem matchKeyword_of_ofWord?_eq_none {caret : Nat}
    (h : Construct.ofWord? (d.wordName caret) = none) : d.matchKeyword caret = {} := by
  rw [wordName] at h
  rw [matchKeyword]
  simp only [h]
  split <;> rfl

end Document

end Papyrus

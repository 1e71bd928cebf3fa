import Mathlib.Order.Bounds.Defs
import Papyrus.Proofs.CaretWord
import Papyrus.Proofs.Edit
/-!
# A document as one text

A document is kept as lines. All the same its offsets are those of one text, in which each line ends
at a line feed: where a line starts and ends, which line an offset falls into and what is read
between two offsets can be told from that text alone (`Document.FlatView`). This needs that no line
holds a line feed, which is so for a text that has been broken into lines and stays so as long as
edits put in none.

Results:
* `joinLines_breakLines`: a text that is broken into lines and joined again.
* `takeCeil_spec`, `dropFloor_spec`: what is cut off a text ends or starts at the nearest boundary.
* `flatView_of_unbroken`: the view that a document without line feeds in its lines gives.
* `flatView_edited`: the view after edits.
-/
namespace Papyrus

namespace Text

/-! ## Line feeds -/

/-- A text with line feeds in the place of carriage returns that are followed by one. -/
def replaceCrlf : Text → Text
  | [] => []
  | '\r' :: '\n' :: t => '\n' :: replaceCrlf t
  | c :: t => c :: replaceCrlf t

/-- Breaking a text into lines and joining them again replaces the line ends. -/
theorem joinLines_breakLines (t : Text) : joinLines t.breakLines = t.replaceCrlf := by
  fun_induction breakLines t with
  | case1 => rfl
  | case2 t ih =>
    rw [joinLines_cons (breakLines_ne_nil t), ih, replaceCrlf]
    · rfl
    · intro _ h
      cases h
  | case3 t ih => rw [joinLines_cons (breakLines_ne_nil t), ih, replaceCrlf]; rfl
  | case4 c t hfeed hcrlf hnil => exact absurd hnil (breakLines_ne_nil t)
  | case5 c t hfeed hcrlf l ls hlines ih =>
    rw [replaceCrlf, ← ih, hlines]
    · cases ls <;> rfl
    · exact hcrlf

theorem not_mem_of_mem_breakLines {t l : Text} (h : l ∈ t.breakLines) : '\n' ∉ l := by
  fun_induction breakLines t generalizing l with
  | case1 => simp [List.mem_singleton.1 h]
  | case2 t ih | case3 t ih =>
    rcases List.mem_cons.1 h with rfl | h
    · exact List.not_mem_nil
    · exact ih h
  | case4 c t hfeed hcrlf hnil => exact absurd hnil (breakLines_ne_nil t)
  | case5 c t hfeed hcrlf m ls hlines ih =>
    rw [hlines] at ih
    rcases List.mem_cons.1 h with rfl | h
    · exact List.not_mem_cons_of_ne_of_not_mem (fun hc => hfeed hc.symm) (ih List.mem_cons_self)
    · exact ih (List.mem_cons_of_mem m h)

/-! ## Boundaries -/

/-- Whether a character starts or the text ends at a byte. -/
def IsBoundary (t : Text) (n : Nat) : Prop := ∃ a b, t = a ++ b ∧ a.size = n

theorem isBoundary_nil {n : Nat} : IsBoundary [] n ↔ n = 0 := by
  constructor
  · rintro ⟨a, b, h, rfl⟩
    rw [(List.append_eq_nil_iff.1 h.symm).1]
    rfl
  · rintro rfl
    exact ⟨[], [], rfl, rfl⟩

theorem isBoundary_cons {c : Char} {t : Text} {n : Nat} :
    IsBoundary (c :: t) n ↔ n = 0 ∨ ∃ m, t.IsBoundary m ∧ n = c.utf8Size + m := by
  constructor
  · rintro ⟨a, b, h, rfl⟩
    cases a with
    | nil => exact Or.inl rfl
    | cons x a =>
      obtain ⟨rfl, rfl⟩ := List.cons.inj h
      exact Or.inr ⟨Text.size a, ⟨a, b, rfl, rfl⟩, rfl⟩
  · rintro (rfl | ⟨m, ⟨a, b, rfl, rfl⟩, rfl⟩)
    · exact ⟨[], c :: t, rfl, rfl⟩
    · exact ⟨c :: a, b, rfl, rfl⟩

/-- The shortest prefix of at least `n` bytes ends at the first boundary from there on. -/
theorem takeCeil_spec (t : Text) (n : Nat) :
    (∃ rest, t = t.takeCeil n ++ rest) ∧
      IsLeast {m | t.IsBoundary m ∧ min n t.size ≤ m} (t.takeCeil n).size := by
  induction t generalizing n with
  | nil => exact ⟨⟨[], rfl⟩, ⟨isBoundary_nil.2 rfl, Nat.min_le_right _ _⟩, fun _ _ => Nat.zero_le _⟩
  | cons c t ih =>
    obtain ⟨⟨rest, hrest⟩, ⟨hboundary, hle⟩, hleast⟩ := ih (n - c.utf8Size)
    have hpos := c.utf8Size_pos
    rw [takeCeil]
    by_cases hn : n = 0
    · rw [if_pos hn]
      exact ⟨⟨c :: t, rfl⟩, ⟨isBoundary_cons.2 (Or.inl rfl), by simp [hn]⟩,
        fun _ _ => Nat.zero_le _⟩
    · rw [if_neg hn]
      refine ⟨⟨rest, congrArg (c :: ·) hrest⟩,
        ⟨isBoundary_cons.2 (Or.inr ⟨_, hboundary, rfl⟩), ?_⟩, ?_⟩
      · rw [size_cons, size_cons]
        omega
      · rintro m ⟨hm, hlo⟩
        rw [size_cons] at hlo
        rcases isBoundary_cons.1 hm with rfl | ⟨k, hk, rfl⟩
        · omega
        · have := hleast ⟨hk, by omega⟩
          rw [size_cons]
          omega

/-- What follows the last boundary up to byte `n`. -/
theorem dropFloor_spec (t : Text) (n : Nat) :
    ∃ front, t = front ++ t.dropFloor n ∧
      IsGreatest {m | t.IsBoundary m ∧ m ≤ n} front.size := by
  induction t generalizing n with
  | nil =>
    refine ⟨[], rfl, ⟨isBoundary_nil.2 rfl, Nat.zero_le _⟩, ?_⟩
    rintro m ⟨hm, -⟩
    exact Nat.le_of_eq (isBoundary_nil.1 hm)
  | cons c t ih =>
    rw [dropFloor]
    by_cases hc : c.utf8Size ≤ n
    · obtain ⟨front, hfront, ⟨hboundary, hle⟩, hgreatest⟩ := ih (n - c.utf8Size)
      rw [if_pos hc]
      refine ⟨c :: front, congrArg (c :: ·) hfront,
        ⟨isBoundary_cons.2 (Or.inr ⟨_, hboundary, rfl⟩), ?_⟩, ?_⟩
      · rw [size_cons]
        omega
      · rintro m ⟨hm, hhi⟩
        rcases isBoundary_cons.1 hm with rfl | ⟨k, hk, rfl⟩
        · exact Nat.zero_le _
        · have := hgreatest ⟨hk, by omega⟩
          rw [size_cons]
          omega
    · rw [if_neg hc]
      refine ⟨[], rfl, ⟨isBoundary_cons.2 (Or.inl rfl), Nat.zero_le _⟩, ?_⟩
      rintro m ⟨hm, hhi⟩
      rcases isBoundary_cons.1 hm with rfl | ⟨k, -, rfl⟩
      · exact Nat.le_refl _
      · omega

/-- A boundary of a prefix is one of the text. -/
theorem isBoundary_append {s t : Text} {n : Nat} (h : n ≤ s.size) :
    (s ++ t).IsBoundary n ↔ s.IsBoundary n := by
  constructor
  · rintro ⟨a, b, hab, rfl⟩
    obtain ⟨m, hm, -⟩ := exists_of_append_eq hab.symm h
    exact ⟨a, m, hm, rfl⟩
  · rintro ⟨a, b, rfl, rfl⟩
    exact ⟨a, b ++ t, List.append_assoc _ _ _, rfl⟩

/-- What stands between two offsets is a part of the text that starts at the last boundary up to the
first offset and ends at the first boundary from the second one on. -/
theorem slice_spec {t : Text} {start stop : Nat} (h : start < min stop t.size) :
    ∃ before after, t = before ++ t.slice start stop ++ after ∧
      IsGreatest {n | t.IsBoundary n ∧ n ≤ start} before.size ∧
      IsLeast {n | t.IsBoundary n ∧ min stop t.size ≤ n} (before ++ t.slice start stop).size := by
  obtain ⟨⟨after, hafter⟩, hleast⟩ := t.takeCeil_spec stop
  obtain ⟨before, hbefore, ⟨hboundary, hle⟩, hgreatest⟩ := (t.takeCeil stop).dropFloor_spec start
  have hstop : min stop t.size ≤ (t.takeCeil stop).size := hleast.1.2
  have hslice : before ++ t.slice start stop = t.takeCeil stop := hbefore.symm
  refine ⟨before, after, hslice ▸ hafter, ⟨⟨?_, hle⟩, ?_⟩, hslice ▸ hleast⟩
  · rw [hafter]
    exact (isBoundary_append (Nat.le_trans hle (by omega))).2 hboundary
  · rintro n ⟨hn, hstart⟩
    rw [hafter] at hn
    exact hgreatest ⟨(isBoundary_append (by omega)).1 hn, hstart⟩

theorem takeFloor_zero (t : Text) : t.takeFloor 0 = [] := by
  cases t with
  | nil => rfl
  | cons c t => rw [takeFloor, if_neg (Nat.not_le.2 c.utf8Size_pos)]

theorem takeFloor_append (s t : Text) (n : Nat) :
    (s ++ t).takeFloor (s.size + n) = s ++ t.takeFloor n := by
  induction s with
  | nil => rw [size_nil, Nat.zero_add]; rfl
  | cons c s ih =>
    rw [List.cons_append, takeFloor, size_cons, if_pos (by omega),
      show c.utf8Size + size s + n - c.utf8Size = size s + n by omega, ih]
    rfl

theorem takeFloor_append_of_le {s : Text} (t : Text) {n : Nat} (h : n ≤ s.size) :
    (s ++ t).takeFloor n = s.takeFloor n := by
  induction s generalizing n with
  | nil =>
    obtain rfl := Nat.le_zero.1 h
    exact takeFloor_zero t
  | cons c s ih =>
    rw [size_cons] at h
    rw [List.cons_append, takeFloor, takeFloor, ih (by omega)]

theorem takeFloor_subset (t : Text) (n : Nat) : t.takeFloor n ⊆ t := by
  induction t generalizing n with
  | nil => exact List.Subset.refl _
  | cons c t ih =>
    rw [takeFloor]
    split
    · exact List.cons_subset_cons c (ih _)
    · exact List.nil_subset _

/-! ## Lines of a text -/

/-- A line of a text and what stands before and behind it. -/
structure IsLine (t : Text) (i : Nat) (before line after : Text) : Prop where
  text_eq : t = before ++ line ++ after
  index_eq : before.count '\n' = i
  unbroken : '\n' ∉ line
  /-- The line starts behind a line feed, unless it is the first one. -/
  behind : ∀ c ∈ before.getLast?, c = '\n'
  /-- The line ends before a line feed, unless it is the last one. -/
  ahead : ∀ c ∈ after.head?, c = '\n'

end Text

/-! ## Lines without line feeds -/

/-- Whether no line holds a line feed. -/
def Lines.Unbroken (ls : Lines) : Prop := ∀ l ∈ ls, '\n' ∉ l.text

namespace Lines
variable {ls : Lines}

theorem count_terminated (h : ls.Unbroken) : (terminated ls).count '\n' = ls.length := by
  induction ls with
  | nil => rfl
  | cons l ls ih =>
    rw [terminated, List.count_append, List.count_eq_zero.2 (h l List.mem_cons_self),
      List.count_cons_self, ih fun m hm => h m (List.mem_cons_of_mem l hm), Nat.zero_add,
      List.length_cons]

theorem count_text (h : ls.Unbroken) (hne : ls ≠ []) :
    (text ls).count '\n' + 1 = ls.length := by
  induction ls with
  | nil => contradiction
  | cons l ls ih =>
    have hl : l.text.count '\n' = 0 := List.count_eq_zero.2 (h l List.mem_cons_self)
    by_cases hls : ls = []
    · subst hls
      exact congrArg (· + 1) hl
    · rw [text_cons hls, List.count_append, hl, List.count_cons_self, Nat.zero_add,
        ih (fun m hm => h m (List.mem_cons_of_mem l hm)) hls, List.length_cons]

/-- A line is a line of the text. -/
theorem isLine_text {pre post : Lines} {l : Line} (h : (pre ++ l :: post).Unbroken) :
    ∃ after, (text (pre ++ l :: post)).IsLine pre.length (terminated pre) l.text after := by
  have hpre : pre.Unbroken := fun m hm => h m (List.mem_append_left _ hm)
  have hl : '\n' ∉ l.text := h l (by simp)
  have hbehind : ∀ c ∈ (terminated pre).getLast?, c = '\n' := by
    cases pre with
    | nil => exact fun _ hc => absurd hc (by simp [terminated])
    | cons p pre =>
      rw [getLast?_terminated_cons]
      exact fun c hc => (Option.some.inj hc).symm
  rw [text_append pre (List.cons_ne_nil l post)]
  cases post with
  | nil =>
    exact ⟨[], (List.append_nil _).symm, count_terminated hpre, hl, hbehind,
      fun c hc => absurd hc (Option.not_mem_none c)⟩
  | cons m post =>
    refine ⟨'\n' :: text (m :: post), ?_, count_terminated hpre, hl, hbehind,
      fun c hc => (Option.some.inj hc).symm⟩
    rw [List.append_assoc]
    rfl

/-- The line of an offset is told by the line feeds before it. -/
theorem lineAt_eq_count (h : ls.Unbroken) (offset : Nat) :
    lineAt ls offset = ((text ls).takeFloor offset).count '\n' := by
  have hnone : ∀ (l : Line) (n : Nat), '\n' ∉ l.text →
      (l.text.takeFloor n).count '\n' = 0 := fun l n hl =>
    List.count_eq_zero.2 fun hmem => hl (Text.takeFloor_subset _ _ hmem)
  induction ls generalizing offset with
  | nil => rfl
  | cons l ls ih =>
    have hl := h l List.mem_cons_self
    have ih := ih fun m hm => h m (List.mem_cons_of_mem l hm)
    cases ls with
    | nil => exact (hnone l offset hl).symm
    | cons m ls =>
      rw [lineAt, text_cons (List.cons_ne_nil m ls), l.size_eq]
      case x_2 => exact List.cons_ne_nil m ls
      by_cases hin : offset ≤ l.text.size
      · rw [if_pos hin, Text.takeFloor_append_of_le _ hin, hnone l offset hl]
      · obtain ⟨n, rfl⟩ := Nat.exists_eq_add_of_le (show l.text.size + 1 ≤ offset by omega)
        have hsize : Text.size (l.text ++ ['\n']) = l.text.size + 1 := Text.size_append _ _
        rw [if_neg hin, Nat.add_sub_cancel_left, ih, List.append_cons, ← hsize,
          Text.takeFloor_append, List.count_append, List.count_append, List.count_eq_zero.2 hl,
          List.count_singleton_self]
        omega

end Lines

/-! ## Edits -/

namespace Edit

/-- The texts that an edit puts in. -/
def texts : Edit → List Text
  | insert _ texts => texts
  | delete _ _ => []
  | replace _ text => [text]

/-- A line of an edited document was there before, or is new or empty. -/
theorem text_mem_apply {d : Document} {e : Edit} {l : Line} (h : l ∈ (e.apply d).2.lines) :
    l ∈ d.lines ∨ l.text ∈ e.texts ∨ l.text = [] := by
  have hlines : ∀ {ls : Lines}, l ∈ (d.withLines ls).lines → l ∈ ls ∨ l.text = [] := by
    intro ls hl
    cases ls with
    | nil => exact Or.inr (congrArg Line.text (List.mem_singleton.1 hl))
    | cons => exact Or.inl hl
  cases e with
  | insert line texts =>
    refine (hlines h).elim (fun hl => ?_) fun hempty => Or.inr (Or.inr hempty)
    rcases List.mem_append.1 hl with hl | hl
    · rcases List.mem_append.1 hl with hl | hl
      · exact Or.inl (List.mem_of_mem_take hl)
      · obtain ⟨t, ht, rfl⟩ := List.mem_map.1 hl
        exact Or.inr (Or.inl ht)
    · exact Or.inl (List.mem_of_mem_drop hl)
  | delete line count =>
    refine (hlines h).elim (fun hl => ?_) fun hempty => Or.inr (Or.inr hempty)
    rcases List.mem_append.1 hl with hl | hl
    · exact Or.inl (List.mem_of_mem_take hl)
    · exact Or.inl (List.mem_of_mem_drop hl)
  | replace line text =>
    refine (hlines h).elim (fun hl => ?_) fun hempty => Or.inr (Or.inr hempty)
    rcases List.mem_or_eq_of_mem_set hl with hl | rfl
    · exact Or.inl hl
    · exact Or.inr (Or.inl (List.mem_singleton.2 rfl))

/-- An edit whose texts hold no line feed puts none into a line. -/
theorem unbroken_apply {d : Document} {e : Edit} (hd : d.lines.Unbroken)
    (h : ∀ t ∈ e.texts, '\n' ∉ t) : (e.apply d).2.lines.Unbroken := by
  intro l hl
  rcases text_mem_apply hl with hold | hnew | hempty
  · exact hd l hold
  · exact h l.text hnew
  · rw [hempty]
    exact List.not_mem_nil

end Edit

namespace Document

/-- A document after edits. -/
def edited (d : Document) (edits : List Edit) : Document :=
  edits.foldl (fun d e => (e.apply d).2) d

theorem edited_induction {Kept : Document → Prop} {edits : List Edit}
    (hstep : ∀ d, ∀ e ∈ edits, Kept d → Kept (e.apply d).2) {d : Document} (h : Kept d) :
    Kept (d.edited edits) := by
  induction edits generalizing d with
  | nil => exact h
  | cons e edits ih =>
    exact ih (fun d e he => hstep d e (List.mem_cons_of_mem _ he))
      (hstep d e List.mem_cons_self h)

/-! ## What a document says of its text -/

theorem text_ofText (name : String) (t : Text) : (ofText name t).text = t.replaceCrlf := by
  have hlines : (t.breakLines.map Line.ofText).map Line.text = t.breakLines := by
    rw [List.map_map]
    exact List.map_id _
  rw [text, ofText, Lines.text, hlines, Text.joinLines_breakLines]

theorem unbroken_ofText (name : String) (t : Text) : (ofText name t).lines.Unbroken := by
  intro l hl
  obtain ⟨line, hline, rfl⟩ := List.mem_map.1 hl
  exact Text.not_mem_of_mem_breakLines hline

/-- What a document tells is what a text tells. -/
structure FlatView (d : Document) (t : Text) : Prop where
  size_eq : d.size = t.size
  lineCount_eq : d.lineCount = t.count '\n' + 1
  /-- Lines start and end where those of the text do. -/
  line : ∀ i < d.lineCount, ∃ before line after, t.IsLine i before line after ∧
    d.lineStart i = before.size ∧ d.lineEnd i = before.size + line.size
  /-- An offset falls into the line that is told by the line feeds before it. -/
  lineAt_eq : ∀ offset, d.lineAt offset = (t.takeFloor offset).count '\n'
  lineAt_beyond : ∀ offset, t.size ≤ offset → d.lineAt offset = d.lineCount - 1
  read_empty : ∀ start stop, min stop t.size ≤ start → d.read start stop = []
  /-- What is read goes from the last character boundary up to the first offset to the first one
  from the second offset on. -/
  read_part : ∀ start stop, start < min stop t.size → ∃ before after,
    t = before ++ d.read start stop ++ after ∧
      IsGreatest {n | t.IsBoundary n ∧ n ≤ start} before.size ∧
      IsLeast {n | t.IsBoundary n ∧ min stop t.size ≤ n} (before ++ d.read start stop).size

/-- A document whose lines hold no line feeds tells what its text tells. -/
theorem flatView_of_unbroken {d : Document} (hread : d.readLimit = none)
    (h : d.lines.Unbroken) : d.FlatView d.text := by
  have hsize : Text.size d.text = d.size := d.size_text
  have hcount : d.text.count '\n' + 1 = d.lineCount := Lines.count_text h d.lines_ne_nil
  have hlineAt : ∀ offset, d.lineAt offset = (d.text.takeFloor offset).count '\n' :=
    Lines.lineAt_eq_count h
  have hslice : ∀ start stop, d.read start stop =
      if start < min stop d.text.size then d.text.slice start stop else [] := by
    intro start stop
    rw [read, hread, slice, Lines.slice_eq, hsize]
    rfl
  refine ⟨hsize.symm, hcount.symm, fun i hi => ?_, hlineAt, fun offset hoff => ?_,
    fun start stop hle => ?_, fun start stop hlt => ?_⟩
  · obtain ⟨pre, l, post, hlines, rfl⟩ := Lines.exists_split_at hi
    rw [hlines] at h
    obtain ⟨after, hline⟩ := Lines.isLine_text h
    refine ⟨Lines.terminated pre, l.text, after, ?_, ?_, ?_⟩
    · rwa [text, hlines]
    · rw [lineStart, hlines, Lines.lineStart_split, Lines.size_terminated]
    · rw [lineEnd, hlines, Lines.lineEnd_split, Lines.size_terminated, l.size_eq]
  · have htake := Text.takeFloor_append d.text [] (offset - d.text.size)
    rw [List.append_nil, Nat.add_sub_cancel' hoff] at htake
    rw [hlineAt, htake, ← hcount]
    simp [Text.takeFloor]
  · rw [hslice, if_neg (Nat.not_lt.2 hle)]
  · rw [hslice, if_pos hlt]
    exact Text.slice_spec hlt

/-- A text that is made into a document has its line ends replaced. After any edits that put in no
line feeds, the document tells what its text tells. -/
theorem flatView_edited (name : String) (t : Text) (edits : List Edit)
    (h : ∀ e ∈ edits, ∀ new ∈ e.texts, '\n' ∉ new) :
    (ofText name t).text = t.replaceCrlf ∧
      ((ofText name t).edited edits).FlatView ((ofText name t).edited edits).text := by
  have hkept : ((ofText name t).edited edits).readLimit = none ∧
      ((ofText name t).edited edits).lines.Unbroken := by
    refine @edited_induction (fun d => d.readLimit = none ∧ d.lines.Unbroken) edits ?_ _
      ⟨rfl, unbroken_ofText name t⟩
    rintro d e he ⟨hread, hd⟩
    exact ⟨(e.readLimit_apply d).trans hread, e.unbroken_apply hd (h e he)⟩
  exact ⟨text_ofText name t, flatView_of_unbroken hkept.1 hkept.2⟩

/-- A text with both kinds of line ends, of which a line is taken out and one is put in. -/
theorem flatView_edited_crlf :
    let edits : List Edit := [.delete 1 1, .insert 0 ["é".toList]]
    (∀ e ∈ edits, ∀ new ∈ e.texts, '\n' ∉ new) ∧
      ((ofText "crlf" "a\r\nb\nc".toList).edited edits).text = "é\na\nc".toList ∧
      ((ofText "crlf" "a\r\nb\nc".toList).edited edits).FlatView "é\na\nc".toList := by
  intro edits
  have hnew : ∀ e ∈ edits, ∀ new ∈ e.texts, '\n' ∉ new := by decide
  have htext : ((ofText "crlf" "a\r\nb\nc".toList).edited edits).text = "é\na\nc".toList := by
    decide +kernel
  have hview := (flatView_edited "crlf" "a\r\nb\nc".toList edits hnew).2
  rw [htext] at hview
  exact ⟨hnew, htext, hview⟩

end Document

end Papyrus

import Papyrus.Document.Mark
/-!
# Whole words of a document

A place of a word is a part of the text whose characters are those of the word but for case. When
every such character is a word character (`Document.Solid`), a place that stands alone overlaps no
place before it. The words that count between two offsets are then all whole words of the document
there (`Document.keywords`), although `Marks.between` passes over what overlaps.

Results:
* `mem_places_iff`: the places of a needle, as parts of the text.
* `mem_keywords_iff_isStyledWord`: the keywords of a document, as parts of its text.
* `keywords_disjoint`: keywords of one or of two words come apart from each other.
* `between_marks`: the marks that count between two offsets are the keywords there.
* `solid_of_letters`: a word in lower-case letters is solid if all ASCII letters are word characters.
-/
namespace Papyrus

/-! ## Places as parts of the text -/

namespace Text

theorem size_eq_zero {t : Text} (h : t.size = 0) : t = [] := by
  cases t with
  | nil => rfl
  | cons c t => have := c.utf8Size_pos; rw [size_cons] at h; omega

/-- Of two ways to cut a text, the one that cuts later has what the other one cuts off. -/
theorem exists_of_append_eq {a b a' b' : Text} (h : a ++ b = a' ++ b') (hs : a.size ≤ a'.size) :
    ∃ m, a' = a ++ m ∧ b = m ++ b' := by
  rcases List.append_eq_append_iff.1 h with ⟨m, rfl, rfl⟩ | ⟨m, rfl, rfl⟩
  · exact ⟨m, rfl, rfl⟩
  · rw [size_append] at hs
    obtain rfl := size_eq_zero (t := m) (by omega)
    exact ⟨[], by simp, by simp⟩

theorem needleEnd?_eq_some {key : Char → Char} {base stop : Nat} {needle t : Text}
    {after : Option Char} :
    needleEnd? key base needle t = some (stop, after) ↔
      ∃ mid post, t = mid ++ post ∧ mid.map key = needle ∧ stop = base + mid.size ∧
        after = post.head? := by
  induction needle generalizing base t with
  | nil =>
    simp only [needleEnd?, Option.some.injEq, Prod.mk.injEq, List.map_eq_nil_iff]
    constructor
    · rintro ⟨rfl, rfl⟩; exact ⟨[], t, rfl, rfl, rfl, rfl⟩
    · rintro ⟨_, post, rfl, rfl, rfl, rfl⟩; exact ⟨rfl, rfl⟩
  | cons n needle ih =>
    cases t with
    | nil =>
      simp only [needleEnd?, reduceCtorEq, false_iff]
      rintro ⟨mid, post, hmid, hkeys, -⟩
      obtain ⟨rfl, -⟩ := List.append_eq_nil_iff.1 hmid.symm
      cases hkeys
    | cons c t =>
      rw [needleEnd?]
      constructor
      · intro h
        split at h
        · next hn =>
          obtain ⟨mid, post, rfl, rfl, rfl, rfl⟩ := ih.1 h
          exact ⟨c :: mid, post, rfl, by rw [hn, List.map_cons], by rw [size_cons]; omega, rfl⟩
        · cases h
      · rintro ⟨mid, post, ht, hkeys, rfl, rfl⟩
        obtain ⟨m, mid, rfl⟩ : ∃ m mid', mid = m :: mid' := by
          cases mid with
          | nil => cases hkeys
          | cons m mid => exact ⟨m, mid, rfl⟩
        obtain ⟨rfl, rfl⟩ := List.cons.inj ht
        obtain ⟨hn, hkeys⟩ := List.cons.inj hkeys
        rw [if_pos hn.symm, ih]
        exact ⟨mid, post, rfl, hkeys, by rw [size_cons]; omega, rfl⟩

theorem getLast?_cons_or (c : Char) (t : Text) (before : Option Char) :
    (c :: t).getLast?.or before = t.getLast?.or (some c) := by
  rw [List.getLast?_cons]
  cases t.getLast? <;> rfl

theorem mem_placesFrom_cons {key : Char → Char} {needle t : Text} {base : Nat}
    {before : Option Char} {c : Char} {o : Occurrence} :
    o ∈ placesFrom key needle base before (c :: t) ↔
      (∃ stop after, needleEnd? key base needle (c :: t) = some (stop, after) ∧
        o = ⟨⟨base, stop⟩, before, after⟩) ∨
      o ∈ placesFrom key needle (base + c.utf8Size) (some c) t := by
  rw [placesFrom]
  split
  · next stop after h =>
    rw [List.mem_cons]
    refine or_congr ⟨fun ho => ⟨stop, after, h, ho⟩, ?_⟩ Iff.rfl
    rintro ⟨stop', after', h', rfl⟩
    obtain ⟨rfl, rfl⟩ := Prod.mk.inj (Option.some.inj (h.symm.trans h'))
    rfl
  · next h =>
    refine ⟨Or.inr, fun ho => ho.resolve_left ?_⟩
    rintro ⟨stop, after, h', -⟩
    cases h.symm.trans h'

theorem mem_placesFrom_iff {key : Char → Char} {needle t : Text} {base : Nat}
    {before : Option Char} {o : Occurrence} (hn : needle ≠ []) :
    o ∈ placesFrom key needle base before t ↔
      ∃ pre mid post, t = pre ++ mid ++ post ∧ mid.map key = needle ∧
        o = ⟨⟨base + pre.size, base + pre.size + mid.size⟩, pre.getLast?.or before,
          post.head?⟩ := by
  induction t generalizing base before with
  | nil =>
    rw [placesFrom, if_neg (by simpa using hn)]
    constructor
    · intro h; cases h
    · rintro ⟨pre, mid, post, ht, hkeys, -⟩
      obtain ⟨h, -⟩ := List.append_eq_nil_iff.1 ht.symm
      obtain ⟨-, rfl⟩ := List.append_eq_nil_iff.1 h
      exact absurd hkeys.symm hn
  | cons c t ih =>
    rw [mem_placesFrom_cons, ih]
    constructor
    · rintro (⟨stop, after, h, rfl⟩ | ⟨pre, mid, post, rfl, hkeys, rfl⟩)
      · obtain ⟨mid, post, ht, hkeys, rfl, rfl⟩ := needleEnd?_eq_some.1 h
        exact ⟨[], mid, post, ht, hkeys, by simp⟩
      · refine ⟨c :: pre, mid, post, rfl, hkeys, ?_⟩
        rw [getLast?_cons_or, size_cons, ← Nat.add_assoc]
    · rintro ⟨pre, mid, post, ht, hkeys, rfl⟩
      cases pre with
      | nil =>
        left
        exact ⟨base + mid.size, post.head?,
          needleEnd?_eq_some.2 ⟨mid, post, by simpa using ht, hkeys, rfl, rfl⟩, by simp⟩
      | cons p pre =>
        right
        obtain ⟨rfl, rfl⟩ := List.cons.inj ht
        refine ⟨pre, mid, post, rfl, hkeys, ?_⟩
        rw [getLast?_cons_or, size_cons, ← Nat.add_assoc]

/-- The places of a needle are the parts of the text that have its keys. -/
theorem mem_places_iff {key : Char → Char} {needle t : Text} {o : Occurrence} (hn : needle ≠ []) :
    o ∈ places key needle t ↔
      ∃ pre mid post, t = pre ++ mid ++ post ∧ mid.map key = needle.map key ∧
        o = ⟨⟨pre.size, pre.size + mid.size⟩, pre.getLast?, post.head?⟩ := by
  rw [places, mem_placesFrom_iff (by simpa using hn)]
  simp

/-- Places are listed by their starts. -/
theorem placesFrom_pairwise (key : Char → Char) (needle : Text) (base : Nat)
    (before : Option Char) (t : Text) :
    (placesFrom key needle base before t).Pairwise fun a b => a.start < b.start := by
  induction t generalizing base before with
  | nil => rw [placesFrom]; split <;> simp
  | cons c t ih =>
    rw [placesFrom]
    split
    · refine List.pairwise_cons.2 ⟨fun b hb => ?_, ih _ _⟩
      have := mem_placesFrom hb
      have := c.utf8Size_pos
      dsimp only; omega
    · exact ih _ _

/-- A place that starts inside another one has a character of that one before it. -/
theorem before_of_overlap {key : Char → Char} {needle needle' t : Text} {o o' : Occurrence}
    (hn : needle ≠ []) (hn' : needle' ≠ []) (h : o ∈ places key needle t)
    (h' : o' ∈ places key needle' t) (hlt : o.start < o'.start) (hin : o'.start < o.stop) :
    ∃ c, o'.before = some c ∧ key c ∈ needle.map key := by
  obtain ⟨pre, mid, post, ht, hkeys, rfl⟩ := (mem_places_iff hn).1 h
  obtain ⟨pre', mid', post', ht', -, rfl⟩ := (mem_places_iff hn').1 h'
  dsimp only at hlt hin ⊢
  rw [ht, List.append_assoc, List.append_assoc] at ht'
  obtain ⟨m, rfl, hm⟩ := exists_of_append_eq ht' (by omega)
  rw [size_append] at hlt hin
  obtain ⟨r, rfl, -⟩ := exists_of_append_eq hm.symm (by omega)
  have hne : m ≠ [] := by rintro rfl; simp at hlt
  refine ⟨m.getLast hne, by rw [List.getLast?_append, List.getLast?_eq_some_getLast hne]; rfl, ?_⟩
  rw [← hkeys]
  exact List.mem_map_of_mem (List.mem_append_left _ (List.getLast_mem hne))

/-- Of two places that start together, the shorter one has a character of the longer one after
it. -/
theorem after_of_overlap {key : Char → Char} {needle needle' t : Text} {o o' : Occurrence}
    (hn : needle ≠ []) (hn' : needle' ≠ []) (h : o ∈ places key needle t)
    (h' : o' ∈ places key needle' t) (heq : o.start = o'.start) (hlt : o.stop < o'.stop) :
    ∃ c, o.after = some c ∧ key c ∈ needle'.map key := by
  obtain ⟨pre, mid, post, ht, -, rfl⟩ := (mem_places_iff hn).1 h
  obtain ⟨pre', mid', post', ht', hkeys, rfl⟩ := (mem_places_iff hn').1 h'
  dsimp only at heq hlt ⊢
  rw [ht, List.append_assoc, List.append_assoc] at ht'
  obtain ⟨m, rfl, hm⟩ := exists_of_append_eq ht' (by omega)
  rw [size_append] at heq hlt
  obtain rfl := size_eq_zero (t := m) (by omega)
  rw [List.nil_append] at hm
  obtain ⟨r, rfl, rfl⟩ := exists_of_append_eq hm (by omega)
  cases r with
  | nil => simp at hlt
  | cons c r =>
    refine ⟨c, rfl, ?_⟩
    rw [← hkeys]
    exact List.mem_map_of_mem (by simp)

/-- Places that start and end together have the same keys. -/
theorem keys_of_same_span {key : Char → Char} {needle needle' t : Text} {o o' : Occurrence}
    (hn : needle ≠ []) (hn' : needle' ≠ []) (h : o ∈ places key needle t)
    (h' : o' ∈ places key needle' t) (hs : o.toSpan = o'.toSpan) :
    needle.map key = needle'.map key := by
  obtain ⟨pre, mid, post, ht, hkeys, rfl⟩ := (mem_places_iff hn).1 h
  obtain ⟨pre', mid', post', ht', hkeys', rfl⟩ := (mem_places_iff hn').1 h'
  obtain ⟨hstart, hstop⟩ := Span.mk.inj hs
  rw [ht, List.append_assoc, List.append_assoc] at ht'
  obtain ⟨m, rfl, hm⟩ := exists_of_append_eq ht' (by omega)
  rw [size_append] at hstart hstop
  obtain rfl := size_eq_zero (t := m) (by omega)
  rw [List.nil_append] at hm
  obtain ⟨r, rfl, -⟩ := exists_of_append_eq hm (by omega)
  rw [size_append] at hstop
  obtain rfl := size_eq_zero (t := r) (by omega)
  rw [← hkeys, ← hkeys', List.append_nil]

end Text

/-! ## What is left when overlaps are passed over -/

/-- If the spans that count overlap none before them, passing over overlaps loses none of them. -/
theorem Span.filter_disjoint {α : Type} {span : α → Span} {p : α → Bool} {l : List α}
    (hl : ∀ a ∈ l, (span a).start ≤ (span a).stop)
    (h : l.Pairwise fun a b => p b = true → (span a).stop ≤ (span b).start) (bound : Nat) :
    (disjoint span bound l).filter p = l.filter fun a => p a && bound ≤ (span a).start := by
  induction l generalizing bound with
  | nil => rfl
  | cons a l ih =>
    have ha := hl a List.mem_cons_self
    obtain ⟨hfirst, hrest⟩ := List.pairwise_cons.1 h
    have ih := ih (fun b hb => hl b (List.mem_cons_of_mem a hb)) hrest
    rw [disjoint, List.filter_cons (p := fun a => p a && decide (bound ≤ (span a).start))]
    by_cases hb : bound ≤ (span a).start
    · have hlater : l.filter (fun b => p b && decide ((span a).stop ≤ (span b).start)) =
          l.filter fun b => p b && decide (bound ≤ (span b).start) := by
        refine List.filter_congr fun b hmem => ?_
        cases hp : p b with
        | false => rfl
        | true =>
          have := hfirst b hmem hp
          simp only [Bool.true_and, decide_eq_decide]; omega
      rw [if_pos hb, List.filter_cons, ih, hlater]
      simp [hb]
    · rw [if_neg hb, ih, if_neg (by simp [hb])]

namespace Document

/-! ## Solid words -/

/-- A word is solid if each character that a search takes for one of its own is a word
character. -/
def Solid (d : Document) (word : String) : Prop :=
  word.toList ≠ [] ∧
    ∀ c, Unicode.foldCase c ∈ word.toList.map Unicode.foldCase → d.isWordChar c = true

/-- The whole words of a document that are the given one but for case and have the given style, in
document order. -/
def keywords (d : Document) (word : String) (style : Style) : List Span :=
  ((d.places word.toList false).filter fun o =>
    d.isWholeWord o && d.styleAt o.start == style).map (·.toSpan)

theorem mem_keywords {d : Document} {word : String} {style : Style} {s : Span} :
    s ∈ d.keywords word style ↔
      ∃ o ∈ d.places word.toList false, d.isWholeWord o = true ∧ d.styleAt s.start = style ∧
        o.toSpan = s := by
  simp only [keywords, List.mem_map, List.mem_filter, Bool.and_eq_true, beq_iff_eq]
  constructor
  · rintro ⟨o, ⟨ho, hw, hs⟩, rfl⟩; exact ⟨o, ho, hw, hs, rfl⟩
  · rintro ⟨o, ho, hw, hs, rfl⟩; exact ⟨o, ⟨ho, hw, hs⟩, rfl⟩

/-- A part of the text that is a word but for case, has no word character directly before or after
it, and starts in a style. -/
def IsStyledWord (d : Document) (word : String) (style : Style) (s : Span) : Prop :=
  ∃ pre mid post, d.text = pre ++ mid ++ post ∧ s = ⟨pre.size, pre.size + mid.size⟩ ∧
    mid.map Unicode.foldCase = word.toList.map Unicode.foldCase ∧
    pre.getLast?.any d.isWordChar = false ∧ post.head?.any d.isWordChar = false ∧
    d.styleAt s.start = style

theorem mem_keywords_iff_isStyledWord {d : Document} {word : String} {style : Style} {s : Span}
    (hne : word.toList ≠ []) : s ∈ d.keywords word style ↔ d.IsStyledWord word style s := by
  rw [mem_keywords]
  constructor
  · rintro ⟨o, ho, hwhole, hstyle, rfl⟩
    obtain ⟨pre, mid, post, htext, hkeys, rfl⟩ := (Text.mem_places_iff hne).1 ho
    rw [isWholeWord, Bool.and_eq_true, Bool.not_eq_true', Bool.not_eq_true'] at hwhole
    exact ⟨pre, mid, post, htext, rfl, hkeys, hwhole.1, hwhole.2, hstyle⟩
  · rintro ⟨pre, mid, post, htext, rfl, hkeys, hbefore, hafter, hstyle⟩
    have hplace := (@Text.mem_places_iff Unicode.foldCase _ _ _ hne).2
      ⟨pre, mid, post, htext, hkeys, rfl⟩
    refine ⟨_, hplace, ?_, hstyle, rfl⟩
    rw [isWholeWord, hbefore, hafter]
    rfl

/-- A whole word overlaps no place of a solid word that starts before it. -/
theorem stop_le_of_isWholeWord {d : Document} {word : String} {needle : Text}
    {o o' : Text.Occurrence} (hw : d.Solid word) (hn : needle ≠ [])
    (h : o ∈ d.places word.toList false) (h' : o' ∈ d.places needle false)
    (hwhole : d.isWholeWord o' = true) (hlt : o.start < o'.start) : o.stop ≤ o'.start := by
  rcases Nat.lt_or_ge o'.start o.stop with hin | hle
  · obtain ⟨c, hc, hkey⟩ := Text.before_of_overlap hw.1 hn h h' hlt hin
    rw [isWholeWord, hc, Option.any_some, hw.2 c hkey] at hwhole
    cases hwhole
  · exact hle

theorem places_apart {d : Document} {word : String} (hw : d.Solid word) :
    (d.places word.toList false).Pairwise fun a b =>
      d.isWholeWord b = true → a.stop ≤ b.start :=
  (Text.placesFrom_pairwise _ _ _ _ _).imp_of_mem fun ha hb hlt hwhole =>
    stop_le_of_isWholeWord hw hw.1 ha hb hwhole hlt

/-- Keywords of solid words that start together are the same, and so are their words but for
case. -/
theorem keywords_inj {d : Document} {word word' : String} {style : Style} {s s' : Span}
    (hw : d.Solid word) (hw' : d.Solid word') (h : s ∈ d.keywords word style)
    (h' : s' ∈ d.keywords word' style) (heq : s.start = s'.start) :
    s = s' ∧ word.toList.map Unicode.foldCase = word'.toList.map Unicode.foldCase := by
  obtain ⟨o, ho, hwhole, -, rfl⟩ := mem_keywords.1 h
  obtain ⟨o', ho', hwhole', -, rfl⟩ := mem_keywords.1 h'
  have hstop : o.stop = o'.stop := by
    rcases Nat.lt_trichotomy o.stop o'.stop with hlt | heq' | hlt
    · obtain ⟨c, hc, hkey⟩ := Text.after_of_overlap hw.1 hw'.1 ho ho' heq hlt
      rw [isWholeWord, hc, Option.any_some, hw'.2 c hkey] at hwhole
      simp at hwhole
    · exact heq'
    · obtain ⟨c, hc, hkey⟩ := Text.after_of_overlap hw'.1 hw.1 ho' ho heq.symm hlt
      rw [isWholeWord, hc, Option.any_some, hw.2 c hkey] at hwhole'
      simp at hwhole'
  have hs : o.toSpan = o'.toSpan := by
    show (⟨o.start, o.stop⟩ : Span) = ⟨o'.start, o'.stop⟩
    rw [heq, hstop]
  exact ⟨hs, Text.keys_of_same_span hw.1 hw'.1 ho ho' hs⟩

/-- Keywords of solid words come apart from each other. -/
theorem keywords_disjoint {d : Document} {word word' : String} {style style' : Style} {s s' : Span}
    (hw : d.Solid word) (hw' : d.Solid word') (h : s ∈ d.keywords word style)
    (h' : s' ∈ d.keywords word' style') (hlt : s.start < s'.start) : s.stop ≤ s'.start := by
  obtain ⟨o, ho, -, -, rfl⟩ := mem_keywords.1 h
  obtain ⟨o', ho', hwhole', -, rfl⟩ := mem_keywords.1 h'
  exact stop_le_of_isWholeWord hw hw'.1 ho ho' hwhole' hlt

theorem keywords_nonempty {d : Document} {word : String} {style : Style} {s : Span}
    (hw : d.Solid word) (h : s ∈ d.keywords word style) : s.start < s.stop ∧ s.stop ≤ d.size := by
  obtain ⟨o, ho, -, -, rfl⟩ := mem_keywords.1 h
  exact mem_places hw.1 ho

theorem keywords_pairwise (d : Document) (word : String) (style : Style) :
    (d.keywords word style).Pairwise fun a b => a.start < b.start :=
  List.pairwise_map.2 ((Text.placesFrom_pairwise _ _ _ _ _).sublist List.filter_sublist)

/-! ## Marks of a solid word -/

/-- The marks of a word that is not empty. -/
theorem places_marks (d : Document) {word : String} (hne : word.toList ≠ []) (style : Style) :
    (d.marks word style).places = (d.places word.toList false).map fun o =>
      ⟨o.toSpan, d.isWholeWord o && d.styleAt o.start == style⟩ := if_neg hne

/-- The marks that count between two offsets are the keywords there. -/
theorem between_marks {d : Document} {word : String} (hw : d.Solid word) (style : Style)
    (lo hi : Nat) :
    (d.marks word style).between lo hi =
      (d.keywords word style).filter fun s => lo ≤ s.start && s.stop ≤ hi := by
  have hplaces := d.places_marks hw.1 style
  have hle : ∀ m ∈ (d.marks word style).places.filter (·.stop ≤ hi), m.start ≤ m.stop :=
    fun m hm => Nat.le_of_lt ((d.marks word style).within m (List.mem_filter.1 hm).1).1
  have hapart : ((d.marks word style).places.filter (·.stop ≤ hi)).Pairwise
      fun a b => b.counts = true → a.stop ≤ b.start := by
    refine List.Pairwise.sublist List.filter_sublist ?_
    rw [hplaces, List.pairwise_map]
    exact (places_apart hw).imp fun hle hcounts => hle (Bool.and_eq_true_iff.1 hcounts).1
  rw [Marks.between, Span.filter_disjoint hle hapart lo, List.filter_filter, hplaces, keywords]
  simp only [List.filter_map, List.map_map, List.filter_filter, Function.comp_def]
  congr 1
  exact List.filter_congr fun o _ => by
    cases d.isWholeWord o <;> cases d.styleAt o.start == style <;> simp

/-! ## Letters as word characters -/

theorem toNat_ofNat (n : Nat) : (Char.ofNat n).toNat = n ∨ (Char.ofNat n).toNat = 0 := by
  by_cases h : n.isValidChar
  · exact Or.inl (by rw [Char.ofNat, dif_pos h]; rfl)
  · exact Or.inr (by rw [Char.ofNat, dif_neg h]; rfl)

/-- A character beyond ASCII that a search takes for an ASCII letter is a letter. -/
theorem isAlphanumeric_of_foldCase {c : Char} (hc : Unicode.isAscii c = false)
    (hlo : 'a'.toNat ≤ (Unicode.foldCase c).toNat) (hhi : (Unicode.foldCase c).toNat ≤ 'z'.toNat) :
    Unicode.isAlphanumeric c = true := by
  -- a run that leads into ASCII has a single character, which is a letter
  have hruns : ∀ r ∈ Unicode.foldCaseRuns, 128 ≤ (r.1 : Int) + r.2.2.2 ∨
      (r.1 = r.2.1 ∧ Unicode.isAlphanumeric (Char.ofNat r.1) = true) := by decide +kernel
  have ha : 'a'.toNat = 97 := rfl
  have hz : 'z'.toNat = 122 := rfl
  rw [Unicode.isAscii, decide_eq_false_iff_not] at hc
  rw [Unicode.foldCase, Unicode.isAscii, decide_eq_false hc, if_neg Bool.false_ne_true,
    Unicode.CaseRuns.map] at hlo hhi
  split at hlo
  · next first last step shift hfind =>
    rw [hfind] at hhi
    have hcov := List.find?_some hfind
    simp only [Bool.and_eq_true, decide_eq_true_eq] at hcov
    rcases hruns _ (List.mem_of_find?_eq_some hfind) with hbig | ⟨hone, hletter⟩
    · dsimp only at hbig hlo hhi
      rcases toNat_ofNat (c.toNat + shift).toNat with h | h <;> omega
    · dsimp only at hone hletter
      have hn : c.toNat = first := by omega
      rwa [← hn, Char.ofNat_toNat] at hletter
  · next hfind =>
    rw [hfind] at hhi
    dsimp only at hhi
    omega

/-- The ASCII letters. -/
def letters : Text := "abcdefghijklmnopqrstuvwxyzABCDEFGHIJKLMNOPQRSTUVWXYZ".toList

theorem isWordChar_of_foldCase {d : Document} (hd : letters ⊆ d.wordChars) {c : Char}
    (hlo : 'a'.toNat ≤ (Unicode.foldCase c).toNat) (hhi : (Unicode.foldCase c).toNat ≤ 'z'.toNat) :
    d.isWordChar c = true := by
  rw [isWordChar, Bool.or_eq_true]
  cases hc : Unicode.isAscii c with
  | false =>
    right
    rw [isAlphanumeric_of_foldCase hc hlo hhi]
    rfl
  | true =>
    left
    have hall : ∀ n < 128, 'a'.toNat ≤ (Char.ofNat n).toLower.toNat →
        (Char.ofNat n).toLower.toNat ≤ 'z'.toNat → Char.ofNat n ∈ letters := by decide +kernel
    rw [Unicode.foldCase_of_isAscii hc] at hlo hhi
    have hmem := hall c.toNat (by simpa [Unicode.isAscii] using hc)
    rw [Char.ofNat_toNat] at hmem
    exact List.contains_iff_mem.2 (hd (hmem hlo hhi))

/-- Where all ASCII letters are word characters, a word in lower-case letters is solid. -/
theorem solid_of_letters {d : Document} (hd : letters ⊆ d.wordChars) {word : String}
    (hne : word.toList ≠ []) (hlower : ∀ c ∈ word.toList,
      'a'.toNat ≤ (Unicode.foldCase c).toNat ∧ (Unicode.foldCase c).toNat ≤ 'z'.toNat) :
    d.Solid word := by
  refine ⟨hne, fun c hc => ?_⟩
  obtain ⟨x, hx, hxc⟩ := List.mem_map.1 hc
  obtain ⟨hlo, hhi⟩ := hlower x hx
  rw [hxc] at hlo hhi
  exact isWordChar_of_foldCase hd hlo hhi

/-- The ASCII letters are standard word characters. -/
theorem letters_subset {d : Document} (hd : d.wordChars = standardWordChars) :
    letters ⊆ d.wordChars := by
  have hall : (letters.all standardWordChars.contains) = true := by decide +kernel
  exact fun c hc => hd ▸ List.contains_iff_mem.1 (List.all_eq_true.1 hall c hc)

end Document

end Papyrus

import Papyrus.Proofs.BlockScan
/-!
# The nearest hit of a search

A search reads the occurrences of a needle from left to right and passes over each that overlaps one
that it has taken; only then does it set aside what is no whole word, and a backward search takes
the last one that is left. What it finds is the nearest hit, unless an occurrence that was taken
reaches into that hit.

Results:
* `Span.mem_disjoint_of_clear`: a span is passed over only for one that was taken before it.
* `isNearest_iff`: the nearest hit is the first one of all hits.
* `isNearest_searchTarget`: the nearest hit is found if no occurrence that was taken reaches into
  it, as always forward, unless whole words are looked for, and for whole words of word characters.
* `searchTarget_nearest_iff`: it is found in no other case.
-/
namespace Papyrus

/-- A span is passed over only if one that was taken reaches into it. -/
theorem Span.mem_disjoint_of_clear {α : Type} {span : α → Span} {l : List α}
    (hl : l.Pairwise fun a b => (span a).start < (span b).start) {bound : Nat} {a : α} (ha : a ∈ l)
    (hbound : bound ≤ (span a).start)
    (hclear : ∀ b ∈ disjoint span bound l, (span b).start < (span a).start →
      (span b).stop ≤ (span a).start) : a ∈ disjoint span bound l := by
  induction l generalizing bound with
  | nil => exact ha
  | cons b l ih =>
    obtain ⟨hfirst, hl⟩ := List.pairwise_cons.1 hl
    rw [disjoint] at hclear ⊢
    by_cases hb : bound ≤ (span b).start
    · rw [if_pos hb] at hclear ⊢
      rcases List.mem_cons.1 ha with rfl | ha
      · exact List.mem_cons_self
      · have hstop := hclear b List.mem_cons_self (hfirst a ha)
        exact List.mem_cons_of_mem b (ih hl ha hstop fun c hc =>
          hclear c (List.mem_cons_of_mem b hc))
    · rw [if_neg hb] at hclear ⊢
      rcases List.mem_cons.1 ha with rfl | ha
      · exact absurd hbound hb
      · exact ih hl ha hbound hclear

/-- None of the spans that were taken reaches into another one. -/
theorem Span.stop_le_of_mem_disjoint {α : Type} {span : α → Span} {l : List α}
    (hl : l.Pairwise fun a b => (span a).start < (span b).start)
    (hle : ∀ a ∈ l, (span a).start ≤ (span a).stop) {bound : Nat} {a b : α}
    (ha : a ∈ disjoint span bound l) (hb : b ∈ disjoint span bound l)
    (hlt : (span b).start < (span a).start) : (span b).stop ≤ (span a).start := by
  induction l generalizing bound with
  | nil => cases ha
  | cons c l ih =>
    obtain ⟨hfirst, hl⟩ := List.pairwise_cons.1 hl
    have hle' : ∀ a ∈ l, (span a).start ≤ (span a).stop := fun a ha =>
      hle a (List.mem_cons_of_mem c ha)
    rw [disjoint] at ha hb
    split at ha
    · next hbound =>
      rw [if_pos hbound] at hb
      rcases List.mem_cons.1 hb with rfl | hb
      · rcases List.mem_cons.1 ha with rfl | ha
        · omega
        · exact le_start_of_mem_disjoint hle' ha
      · rcases List.mem_cons.1 ha with rfl | ha
        · have := hfirst b ((disjoint_sublist _ _ _).mem hb)
          omega
        · exact ih hl hle' ha hb
    · next hbound =>
      rw [if_neg hbound] at hb
      exact ih hl hle' ha hb

/-- The first of some spans in a direction is the one that none of them precedes. -/
theorem Direction.head?_read_eq_some_iff {l : List Span}
    (hl : l.Pairwise fun a b => a.start < b.start) {direction : Direction} {s : Span} :
    (direction.read l).head? = some s ↔
      s ∈ l ∧ ∀ t ∈ l, direction.precedes t s = false := by
  have hsorted : (direction.read l).Pairwise fun a b => direction.precedes a b = true := by
    cases direction with
    | forward => exact hl.imp decide_eq_true
    | backward => exact List.pairwise_reverse.2 (hl.imp decide_eq_true)
  have hmem {t : Span} : t ∈ direction.read l ↔ t ∈ l := mem_read
  constructor
  · intro h
    refine ⟨hmem.1 (List.mem_of_head? h), fun t ht => ?_⟩
    obtain ⟨rest, hrest⟩ := List.head?_eq_some_iff.1 h
    rw [hrest, List.pairwise_cons] at hsorted
    rw [← hmem, hrest] at ht
    rcases List.mem_cons.1 ht with rfl | ht
    · cases direction <;> exact decide_eq_false (Nat.lt_irrefl _)
    · exact Direction.precedes_asymm (hsorted.1 t ht)
  · rintro ⟨hs, hfirst⟩
    rw [← hmem] at hs
    cases hread : direction.read l with
    | nil => rw [hread] at hs; cases hs
    | cons t rest =>
      rw [hread] at hs hsorted
      rcases List.mem_cons.1 hs with rfl | hs
      · rfl
      · have ht : t ∈ l := by
          rw [← hmem, hread]
          exact List.mem_cons_self
        exact absurd ((List.pairwise_cons.1 hsorted).1 s hs) (Bool.eq_false_iff.1 (hfirst t ht))

namespace Document

variable {d : Document} {needle : Text}

/-! ## Hits -/

/-- A hit of a search is a part of the text between the ends of the register. It is the needle, or
equal to it but for case if letter case does not count. If whole words are looked for, no word
character stands directly before or after it. -/
def IsHit (d : Document) (needle : Text) (s : Span) : Prop :=
  min d.search.start d.search.stop ≤ s.start ∧ s.stop ≤ max d.search.start d.search.stop ∧
    ∃ pre mid post, d.text = pre ++ mid ++ post ∧ s = ⟨pre.size, pre.size + mid.size⟩ ∧
      (if d.search.matchCase then mid = needle
        else mid.map Unicode.foldCase = needle.map Unicode.foldCase) ∧
      (d.search.wholeWord = true →
        pre.getLast?.any d.isWordChar = false ∧ post.head?.any d.isWordChar = false)

/-- What a search should answer: a hit that no other one precedes, or nothing if there is none. -/
def IsNearest (d : Document) (needle : Text) : Option Span → Prop
  | none => ∀ s, ¬ d.IsHit needle s
  | some s => d.IsHit needle s ∧ ∀ t, d.IsHit needle t → d.search.direction.precedes t s = false

/-- The occurrences between the ends of the register. -/
def inTarget (d : Document) (needle : Text) : List Text.Occurrence :=
  (d.places needle d.search.matchCase).filter fun o =>
    o.stop ≤ max d.search.start d.search.stop

/-- The occurrences that a search takes, whether they are whole words or not. -/
def taken (d : Document) (needle : Text) : List Text.Occurrence :=
  Span.disjoint (·.toSpan) (min d.search.start d.search.stop) (d.inTarget needle)

/-- Whether an occurrence counts as a whole word, if only such words count. -/
def counts (d : Document) (o : Text.Occurrence) : Bool := !d.search.wholeWord || d.isWholeWord o

/-- All hits of a search, from left to right. -/
def allHits (d : Document) (needle : Text) : List Span :=
  ((d.inTarget needle).filter fun o =>
    min d.search.start d.search.stop ≤ o.start && d.counts o).map (·.toSpan)

theorem inTarget_pairwise (d : Document) (needle : Text) :
    (d.inTarget needle).Pairwise fun a b => a.start < b.start :=
  (Text.placesFrom_pairwise _ _ _ _ _).sublist List.filter_sublist

theorem allHits_pairwise (d : Document) (needle : Text) :
    (d.allHits needle).Pairwise fun a b => a.start < b.start :=
  List.pairwise_map.2 ((d.inTarget_pairwise needle).sublist List.filter_sublist)

theorem mem_allHits {s : Span} :
    s ∈ d.allHits needle ↔ ∃ o ∈ d.inTarget needle,
      min d.search.start d.search.stop ≤ o.start ∧ d.counts o = true ∧ o.toSpan = s := by
  simp only [allHits, List.mem_map, List.mem_filter, Bool.and_eq_true, decide_eq_true_eq,
    and_assoc]

theorem isHit_iff_mem_allHits (hne : needle ≠ []) {s : Span} :
    d.IsHit needle s ↔ s ∈ d.allHits needle := by
  have hkeys : ∀ mid : Text, (if d.search.matchCase then mid = needle
      else mid.map Unicode.foldCase = needle.map Unicode.foldCase) ↔
        mid.map (if d.search.matchCase then id else Unicode.foldCase) =
          needle.map (if d.search.matchCase then id else Unicode.foldCase) := by
    intro mid
    cases d.search.matchCase <;> simp
  have hcounts : ∀ o : Text.Occurrence, (d.search.wholeWord = true →
      o.before.any d.isWordChar = false ∧ o.after.any d.isWordChar = false) ↔
        d.counts o = true := by
    intro o
    rw [counts, isWholeWord]
    cases d.search.wholeWord <;> simp
  rw [mem_allHits, IsHit]
  constructor
  · rintro ⟨hlo, hhi, pre, mid, post, htext, rfl, hmid, hwhole⟩
    refine ⟨⟨_, pre.getLast?, post.head?⟩, List.mem_filter.2 ⟨?_, decide_eq_true hhi⟩, hlo,
      (hcounts _).1 hwhole, rfl⟩
    exact (Text.mem_places_iff hne).2 ⟨pre, mid, post, htext, (hkeys mid).1 hmid, rfl⟩
  · rintro ⟨o, ho, hlo, hwhole, rfl⟩
    obtain ⟨hplace, hhi⟩ := List.mem_filter.1 ho
    obtain ⟨pre, mid, post, htext, hmid, rfl⟩ := (Text.mem_places_iff hne).1 hplace
    exact ⟨hlo, of_decide_eq_true hhi, pre, mid, post, htext, rfl, (hkeys mid).2 hmid,
      (hcounts _).2 hwhole⟩

/-- The nearest hit is the first one of all hits in the direction of the search. -/
theorem isNearest_iff (hne : needle ≠ []) {answer : Option Span} :
    d.IsNearest needle answer ↔
      answer = (d.search.direction.read (d.allHits needle)).head? := by
  cases answer with
  | none =>
    rw [eq_comm, List.head?_eq_none_iff, List.eq_nil_iff_forall_not_mem]
    refine forall_congr' fun s => not_congr ?_
    rw [isHit_iff_mem_allHits hne, Direction.mem_read]
  | some s =>
    simp only [IsNearest, isHit_iff_mem_allHits hne]
    rw [eq_comm, Direction.head?_read_eq_some_iff (d.allHits_pairwise needle)]

/-! ## What is found -/

theorem le_size_of_isBoundary {offset : Nat} (h : d.isBoundary offset = true) :
    offset ≤ d.size := by
  obtain ⟨sides, hsides⟩ := Option.isSome_iff_exists.1 h
  obtain ⟨htext, rfl⟩ := Text.eq_append_of_around? hsides
  rw [← size_text, htext, Text.size_append, Text.size_reverse]
  exact Nat.le_add_right _ _

section
variable (hne : needle ≠ []) (hstart : d.isBoundary d.search.start = true)
  (hstop : d.isBoundary d.search.stop = true)
include hne hstart hstop

/-- The hits between the ends of the register are those that were taken. -/
theorem hits_target :
    d.hits needle d.search.wholeWord d.search.matchCase (min d.search.start d.search.stop)
        (max d.search.start d.search.stop) =
      ((d.taken needle).filter d.counts).map (·.toSpan) := by
  have hlo : d.isBoundary (min d.search.start d.search.stop) = true := by
    rcases Nat.le_total d.search.start d.search.stop with hle | hle
    · rwa [Nat.min_eq_left hle]
    · rwa [Nat.min_eq_right hle]
  have hhi : d.isBoundary (min (max d.search.start d.search.stop) d.size) = true := by
    have hsize := Nat.max_le.2
      ⟨le_size_of_isBoundary hstart, le_size_of_isBoundary hstop⟩
    rw [Nat.min_eq_left hsize]
    rcases Nat.le_total d.search.start d.search.stop with hle | hle
    · rwa [Nat.max_eq_right hle]
    · rwa [Nat.max_eq_left hle]
  exact hits_of_isBoundary hne hlo hhi

theorem fst_searchTarget :
    (d.searchTarget needle).1 =
      (d.search.direction.read (((d.taken needle).filter d.counts).map (·.toSpan))).head? := by
  rw [searchTarget, hits_target hne hstart hstop]
  cases d.search.direction with
  | forward =>
    rw [Direction.read]
    cases (((d.taken needle).filter d.counts).map (·.toSpan)).head? <;> rfl
  | backward =>
    rw [Direction.read, List.head?_reverse]
    cases (((d.taken needle).filter d.counts).map (·.toSpan)).getLast? <;> rfl

end

theorem start_le_stop (d : Document) (needle : Text) :
    ∀ o ∈ d.inTarget needle, o.start ≤ o.stop := by
  intro o ho
  have := Text.mem_places (List.mem_filter.1 ho).1
  omega

theorem mem_taken {o : Text.Occurrence} (ho : o ∈ d.taken needle) :
    o ∈ d.inTarget needle ∧ min d.search.start d.search.stop ≤ o.start :=
  ⟨(Span.disjoint_sublist _ _ _).mem ho,
    Span.le_start_of_mem_disjoint (d.start_le_stop needle) ho⟩

/-- An occurrence that is taken is a hit if it counts. -/
theorem isHit_of_mem_taken (hne : needle ≠ []) {o : Text.Occurrence} (ho : o ∈ d.taken needle)
    (hcounts : d.counts o = true) : d.IsHit needle o.toSpan :=
  (isHit_iff_mem_allHits hne).2
    (mem_allHits.2 ⟨o, (mem_taken ho).1, (mem_taken ho).2, hcounts, rfl⟩)

/-- No occurrence that a search takes reaches into a span. -/
def IsClear (d : Document) (needle : Text) (s : Span) : Prop :=
  ∀ o ∈ d.taken needle, o.start < s.start → o.stop ≤ s.start

/-- An occurrence that no other one reaches into is taken. -/
theorem mem_taken_of_isClear {o : Text.Occurrence} (ho : o ∈ d.inTarget needle)
    (hlo : min d.search.start d.search.stop ≤ o.start) (hclear : d.IsClear needle o.toSpan) :
    o ∈ d.taken needle :=
  Span.mem_disjoint_of_clear (d.inTarget_pairwise needle) ho hlo hclear

section
variable (hne : needle ≠ []) (hstart : d.isBoundary d.search.start = true)
  (hstop : d.isBoundary d.search.stop = true)
include hne hstart hstop

theorem searchTarget_eq_some_iff {s : Span} :
    (d.searchTarget needle).1 = some s ↔
      (∃ o ∈ d.taken needle, d.counts o = true ∧ o.toSpan = s) ∧
        ∀ o ∈ d.taken needle, d.counts o = true →
          d.search.direction.precedes o.toSpan s = false := by
  have hsorted : (((d.taken needle).filter d.counts).map (·.toSpan)).Pairwise
      fun a b => a.start < b.start :=
    List.pairwise_map.2 ((d.inTarget_pairwise needle).sublist
      (List.filter_sublist.trans (Span.disjoint_sublist _ _ _)))
  rw [fst_searchTarget hne hstart hstop, Direction.head?_read_eq_some_iff hsorted]
  simp only [List.mem_map, List.mem_filter, forall_exists_index, and_imp, and_assoc]
  exact and_congr_right fun _ =>
    ⟨fun h o ho hcounts => h _ o ho hcounts rfl, fun h _ o ho hcounts heq => heq ▸ h o ho hcounts⟩

theorem searchTarget_eq_none (h : ∀ s, ¬ d.IsHit needle s) : (d.searchTarget needle).1 = none := by
  rw [Option.eq_none_iff_forall_ne_some]
  intro s hs
  obtain ⟨⟨o, ho, hcounts, -⟩, -⟩ := (searchTarget_eq_some_iff hne hstart hstop).1 hs
  exact h _ (isHit_of_mem_taken hne ho hcounts)

/-- The nearest hit is found if no occurrence that is taken reaches into it. -/
theorem isNearest_searchTarget
    (h : ∀ s, d.IsNearest needle (some s) → d.IsClear needle s) :
    d.IsNearest needle (d.searchTarget needle).1 := by
  cases hnearest : (d.search.direction.read (d.allHits needle)).head? with
  | none =>
    have hnone := (isNearest_iff hne).2 hnearest.symm
    rw [searchTarget_eq_none hne hstart hstop hnone]
    exact hnone
  | some s =>
    have hs := (isNearest_iff hne).2 hnearest.symm
    obtain ⟨o, ho, hlo, hcounts, rfl⟩ := mem_allHits.1 ((isHit_iff_mem_allHits hne).1 hs.1)
    have htaken := mem_taken_of_isClear ho hlo (h _ hs)
    have hfound := (searchTarget_eq_some_iff hne hstart hstop).2
      ⟨⟨o, htaken, hcounts, rfl⟩, fun a ha hcounts' =>
        hs.2 _ (isHit_of_mem_taken hne ha hcounts')⟩
    rw [hfound]
    exact hs

/-- What is found is clear. -/
theorem isClear_of_found {s : Span} (h : (d.searchTarget needle).1 = some s) :
    d.IsClear needle s := by
  obtain ⟨⟨o, ho, -, rfl⟩, -⟩ := (searchTarget_eq_some_iff hne hstart hstop).1 h
  exact fun a ha => Span.stop_le_of_mem_disjoint (d.inTarget_pairwise needle)
    (d.start_le_stop needle) ho ha

/-- A forward search for more than whole words always finds the nearest hit. -/
theorem isNearest_searchTarget_forward (hforward : d.search.direction = .forward)
    (hwhole : d.search.wholeWord = false) : d.IsNearest needle (d.searchTarget needle).1 := by
  refine isNearest_searchTarget hne hstart hstop fun s hs o ho hlt => ?_
  have hcounts : d.counts o = true := by rw [counts, hwhole]; rfl
  have hfirst := hs.2 _ (isHit_of_mem_taken hne ho hcounts)
  rw [hforward] at hfirst
  exact absurd hlt (of_decide_eq_false hfirst)

end

/-- A search for a whole word of word characters, in any letter case, always finds the nearest
hit. -/
theorem isNearest_searchTarget_solid {word : String} (hsolid : d.Solid word)
    (hstart : d.isBoundary d.search.start = true) (hstop : d.isBoundary d.search.stop = true)
    (hwhole : d.search.wholeWord = true) (hcase : d.search.matchCase = false) :
    d.IsNearest word.toList (d.searchTarget word.toList).1 := by
  refine isNearest_searchTarget hsolid.1 hstart hstop fun s hs o ho hlt => ?_
  obtain ⟨a, ha, -, hcounts, rfl⟩ := mem_allHits.1 ((isHit_iff_mem_allHits hsolid.1).1 hs.1)
  rw [counts, hwhole] at hcounts
  have hplace : ∀ {b : Text.Occurrence}, b ∈ d.inTarget word.toList →
      b ∈ d.places word.toList false := fun hb => hcase ▸ (List.mem_filter.1 hb).1
  exact stop_le_of_isWholeWord hsolid hsolid.1 (hplace (mem_taken ho).1) (hplace ha) hcounts hlt

/-- A search between two character boundaries answers with the nearest hit, or nothing if there is
no hit, exactly if no occurrence that it takes reaches into the nearest hit. The register moves to
what is found, and stays as it is if nothing is found. -/
theorem searchTarget_nearest_iff (hne : needle ≠ [])
    (hstart : d.isBoundary d.search.start = true) (hstop : d.isBoundary d.search.stop = true) :
    (d.IsNearest needle (d.searchTarget needle).1 ↔
      ∀ s, d.IsNearest needle (some s) → d.IsClear needle s) ∧
    (d.searchTarget needle).2 =
      (d.searchTarget needle).1.elim d fun s =>
        { d with search := { d.search with start := s.start, stop := s.stop } } := by
  refine ⟨⟨fun h s hs => ?_, isNearest_searchTarget hne hstart hstop⟩, ?_⟩
  · refine isClear_of_found hne hstart hstop ?_
    rw [(isNearest_iff hne).1 h, (isNearest_iff hne).1 hs]
  · rw [searchTarget]
    dsimp only
    split <;> rfl

/-- The last whole word is found although the word is met once more behind it. -/
theorem searchTarget_nearest_iff_elseIf :
    let d := { ofText "words" "If x\nElseIf".toList with search := ⟨11, 0, true, false⟩ }
    d.IsNearest "if".toList (some ⟨0, 2⟩) ∧
      (d.searchTarget "if".toList).2.search = ⟨0, 2, true, false⟩ := by
  intro d
  obtain ⟨hnearest, hregister⟩ := @searchTarget_nearest_iff d "if".toList (by decide)
    (by decide +kernel) (by decide +kernel)
  obtain ⟨hfound, hfirst, htaken⟩ : (d.searchTarget "if".toList).1 = some ⟨0, 2⟩ ∧
      (d.search.direction.read (d.allHits "if".toList)).head? = some ⟨0, 2⟩ ∧
      (d.taken "if".toList).map (·.start) = [0, 9] := by decide +kernel
  constructor
  · rw [← hfound]
    refine hnearest.2 fun s hs o ho hlt => ?_
    obtain rfl := Option.some.inj (((isNearest_iff (by decide)).1 hs).trans hfirst)
    exact absurd hlt (Nat.not_lt_zero _)
  · rw [hregister, hfound]
    rfl

/-- Two occurrences that overlap: the one that ends where a backward search starts is not found. A
whole word behind an occurrence that overlaps it and is none is not found either. -/
theorem not_isNearest_searchTarget_overlap :
    let d := { ofText "run" "aaa".toList with search := ⟨3, 0, false, true⟩ }
    let d' := { ofText "words" "xa-a-a".toList with search := ⟨0, 6, true, true⟩ }
    (d.searchTarget "aa".toList).1 = some ⟨0, 2⟩ ∧ d.IsNearest "aa".toList (some ⟨1, 3⟩) ∧
      (d'.searchTarget "a-a".toList).1 = none ∧ d'.IsNearest "a-a".toList (some ⟨3, 6⟩) := by
  intro d d'
  rw [isNearest_iff (by decide), isNearest_iff (by decide)]
  decide +kernel

end Document

end Papyrus

import Papyrus.Block.Search
import Papyrus.Proofs.CaretWord
import Papyrus.Proofs.ClassCache
import Papyrus.Proofs.MatchSpan
import Papyrus.Proofs.NearestHit
/-!
# Matching through the search register

A match that looks up the places of words and one that searches for them anew from each hit find the
same. A search from behind a hit goes on with the hits behind it, and one from before a hit, in the
other direction, with those before it, so that the searches meet the hits of one search one by one.
The branch words are sorted once more with each gap on the way; the sort is stable, so that they are
in the order of one sort at the end.

Results:
* `met_past`: past a hit, a search meets the hits that are left.
* `findStyled_eq`, `collectStyled_eq`: what searches find are the marks that count.
* `fst_resolveBlock`: a search for the end of a block follows the way along the marks.
* `matchBySearch_eq`: searching finds the match, and leaves the document as it was.
-/
namespace Papyrus

namespace Span

/-! ## What is taken behind and before a span -/

theorem disjoint_map {α β : Type} (f : α → β) (span : β → Span) (bound : Nat) (l : List α) :
    disjoint span bound (l.map f) = (disjoint (fun a => span (f a)) bound l).map f := by
  induction l generalizing bound with
  | nil => rfl
  | cons a l ih =>
    rw [List.map_cons, disjoint, disjoint, ih, ih]
    split <;> rfl

section
variable {α : Type} {span : α → Span} {l : List α}
  (hl : l.Pairwise fun a b => (span a).start < (span b).start)
  (hpos : ∀ a ∈ l, (span a).start < (span a).stop)
include hl hpos

/-- Behind a span that is taken, what is taken after it is taken again. -/
theorem disjoint_behind {bound : Nat} {pre post : List α} {a : α}
    (h : disjoint span bound l = pre ++ a :: post) : disjoint span (span a).stop l = post := by
  induction l generalizing bound pre with
  | nil => cases pre <;> cases h
  | cons b l ih =>
    obtain ⟨hfirst, hl⟩ := List.pairwise_cons.1 hl
    have hpos' : ∀ a ∈ l, (span a).start < (span a).stop := fun a ha =>
      hpos a (List.mem_cons_of_mem b ha)
    rw [disjoint] at h ⊢
    have hlater : ∀ {bound pre}, disjoint span bound l = pre ++ a :: post →
        disjoint span (span a).stop l = post ∧ ¬ (span a).stop ≤ (span b).start := by
      intro bound pre h
      have ha : a ∈ l := (disjoint_sublist span bound l).mem (h ▸ by simp)
      have := hfirst a ha
      have := hpos' a ha
      exact ⟨ih hl hpos' h, by omega⟩
    by_cases hb : bound ≤ (span b).start
    · rw [if_pos hb] at h
      cases pre with
      | nil =>
        obtain ⟨rfl, hpost⟩ := List.cons.inj h
        have := hpos b List.mem_cons_self
        have hnot : ¬ (span b).stop ≤ (span b).start := by omega
        rw [if_neg hnot, hpost]
      | cons c pre =>
        obtain ⟨hpost, hnot⟩ := hlater (List.cons.inj h).2
        rw [if_neg hnot, hpost]
    · rw [if_neg hb] at h
      obtain ⟨hpost, hnot⟩ := hlater h
      rw [if_neg hnot, hpost]

/-- Of the spans before one that is taken, what is taken before it is taken again. -/
theorem disjoint_before {bound : Nat} {pre post : List α} {a : α}
    (h : disjoint span bound l = pre ++ a :: post) :
    disjoint span bound (l.filter fun b => (span b).stop ≤ (span a).start) = pre := by
  induction l generalizing bound pre with
  | nil => cases pre <;> cases h
  | cons b l ih =>
    obtain ⟨hfirst, hl⟩ := List.pairwise_cons.1 hl
    have hpos' : ∀ a ∈ l, (span a).start < (span a).stop := fun a ha =>
      hpos a (List.mem_cons_of_mem b ha)
    rw [disjoint] at h
    by_cases hb : bound ≤ (span b).start
    · rw [if_pos hb] at h
      cases pre with
      | nil =>
        obtain ⟨rfl, -⟩ := List.cons.inj h
        have hnone : (b :: l).filter (fun c => (span c).stop ≤ (span b).start) = [] := by
          refine List.filter_eq_nil_iff.2 fun c hc => ?_
          have := hpos c hc
          rw [decide_eq_true_eq]
          rcases List.mem_cons.1 hc with rfl | hc
          · omega
          · have := hfirst c hc
            omega
        rw [hnone]
        rfl
      | cons c pre =>
        obtain ⟨rfl, hrest⟩ := List.cons.inj h
        have hle : (span b).stop ≤ (span a).start :=
          le_start_of_mem_disjoint (fun c hc => Nat.le_of_lt (hpos' c hc)) (hrest ▸ by simp)
        rw [List.filter_cons, if_pos (decide_eq_true hle), disjoint, if_pos hb, ih hl hpos' hrest]
    · rw [if_neg hb] at h
      rw [List.filter_cons]
      split
      · rw [disjoint, if_neg hb, ih hl hpos' h]
      · exact ih hl hpos' h

end

/-! ## Sorting -/

theorem sort_perm (l : List Span) : (sort l).Perm l := List.mergeSort_perm _ _

/-- Spans that start together keep their order. -/
theorem filter_sort (l : List Span) (start : Nat) :
    (sort l).filter (·.start = start) = l.filter (·.start = start) := by
  have htogether : (l.filter (·.start = start)).Pairwise fun a b => decide (a.start ≤ b.start) := by
    refine List.pairwise_of_forall_mem_list fun a ha b hb => decide_eq_true ?_
    have ha := of_decide_eq_true (List.mem_filter.1 ha).2
    have hb := of_decide_eq_true (List.mem_filter.1 hb).2
    omega
  have hsub : (l.filter (·.start = start)).Sublist (sort l) :=
    List.sublist_mergeSort (fun a b c hab hbc => by simp only [decide_eq_true_eq] at *; omega)
      (fun a b => by simp only [Bool.or_eq_true, decide_eq_true_eq]; omega) htogether
      List.filter_sublist
  have hsub := hsub.filter (·.start = start)
  rw [List.filter_filter] at hsub
  simp only [Bool.and_self] at hsub
  exact (hsub.eq_of_length ((sort_perm l).filter _).length_eq.symm).symm

/-- Spans in document order are known by those that start together. -/
theorem eq_of_filter_start {l l' : List Span} (h : l.Pairwise fun a b => a.start ≤ b.start)
    (h' : l'.Pairwise fun a b => a.start ≤ b.start)
    (hsame : ∀ start, l.filter (·.start = start) = l'.filter (·.start = start)) : l = l' := by
  have hmem : ∀ {l l' : List Span},
      (∀ start, l.filter (·.start = start) = l'.filter (·.start = start)) → ∀ s ∈ l, s ∈ l' := by
    intro l l' hsame s hs
    have hin : s ∈ l.filter (·.start = s.start) := List.mem_filter.2 ⟨hs, decide_eq_true rfl⟩
    rw [hsame] at hin
    exact (List.mem_filter.1 hin).1
  induction l generalizing l' with
  | nil =>
    refine (List.eq_nil_iff_forall_not_mem.2 fun s hs => ?_).symm
    cases hmem (fun start => (hsame start).symm) s hs
  | cons a l ih =>
    cases l' with
    | nil => cases hmem hsame a List.mem_cons_self
    | cons b l' =>
      obtain ⟨hfirst, hl⟩ := List.pairwise_cons.1 h
      obtain ⟨hfirst', hl'⟩ := List.pairwise_cons.1 h'
      -- each of the two first spans stands in the other list, where the first one starts no later
      have hle : b.start ≤ a.start := by
        rcases List.mem_cons.1 (hmem hsame a List.mem_cons_self) with rfl | ha
        · exact Nat.le_refl _
        · exact hfirst' a ha
      have hge : a.start ≤ b.start := by
        rcases List.mem_cons.1 (hmem (fun start => (hsame start).symm) b List.mem_cons_self)
          with rfl | hb
        · exact Nat.le_refl _
        · exact hfirst b hb
      have hstart := Nat.le_antisymm hge hle
      have hhead := hsame a.start
      rw [List.filter_cons, List.filter_cons, if_pos (decide_eq_true rfl),
        if_pos (decide_eq_true hstart.symm)] at hhead
      obtain ⟨rfl, -⟩ := List.cons.inj hhead
      refine congrArg (a :: ·) (ih hl hl' fun start => ?_)
      have hrest := hsame start
      rw [List.filter_cons, List.filter_cons] at hrest
      split at hrest
      · exact (List.cons.inj hrest).2
      · exact hrest

/-- A sort depends on the order of spans that start together only. -/
theorem sort_congr {l l' : List Span}
    (h : ∀ start, l.filter (·.start = start) = l'.filter (·.start = start)) : sort l = sort l' := by
  refine eq_of_filter_start (sort_pairwise l) (sort_pairwise l') fun start => ?_
  rw [filter_sort, filter_sort, h]

/-- What has been sorted in part is in the same order in the end. -/
theorem sort_append_sort (l l' l'' : List Span) :
    sort (l ++ sort l' ++ l'') = sort (l ++ (l' ++ l'')) :=
  sort_congr fun start => by simp only [List.filter_append, filter_sort, List.append_assoc]

end Span

namespace Document

variable {d d' : Document} {word : String} {style : Style} {direction : Direction} {offset : Nat}

/-! ## Hits -/

theorem isBoundary_of_mem_places {needle : Text} {matchCase : Bool} {o : Text.Occurrence}
    (hne : needle ≠ []) (ho : o ∈ d.places needle matchCase) :
    d.isBoundary o.start = true ∧ d.isBoundary o.stop = true := by
  obtain ⟨pre, mid, post, htext, -, rfl⟩ := (Text.mem_places_iff hne).1 ho
  refine ⟨isBoundary_cut (htext.trans (List.append_assoc _ _ _)), ?_⟩
  dsimp only
  rw [← Text.size_append]
  exact isBoundary_cut htext

section
variable {needle : Text} {wholeWord matchCase : Bool} {lo hi : Nat} {s : Span} {rest : List Span}

/-- A search that finds something lies between boundaries. -/
theorem hits_ne_nil (h : d.hits needle wholeWord matchCase lo hi ≠ []) :
    needle ≠ [] ∧ d.isBoundary lo = true ∧ d.isBoundary (min hi d.size) = true := by
  rw [hits] at h
  split at h
  · exact absurd rfl h
  · next hnot => simpa [and_assoc] using hnot

theorem hits_eq_nil (h : min hi d.size ≤ lo) : d.hits needle wholeWord matchCase lo hi = [] := by
  rw [List.eq_nil_iff_forall_not_mem]
  intro s hs
  have := mem_hits hs
  omega

/-- A hit is a place that a search takes; what it takes besides need not count. -/
theorem exists_disjoint_of_hits {init : List Span}
    (h : d.hits needle wholeWord matchCase lo hi = init ++ s :: rest) :
    ∃ pre o post,
      Span.disjoint (·.toSpan) lo ((d.places needle matchCase).filter (·.stop ≤ hi)) =
        pre ++ o :: post ∧ o ∈ d.places needle matchCase ∧ o.stop ≤ hi ∧ o.toSpan = s ∧
      (pre.filter fun o => !wholeWord || d.isWholeWord o).map (·.toSpan) = init ∧
      (post.filter fun o => !wholeWord || d.isWholeWord o).map (·.toSpan) = rest := by
  obtain ⟨hne, hlo, hhi⟩ := hits_ne_nil (by rw [h]; simp)
  rw [hits_of_isBoundary hne hlo hhi] at h
  obtain ⟨_, found, hfound, rfl, hmap⟩ := List.map_eq_append_iff.1 h
  obtain ⟨o, _, rfl, rfl, rfl⟩ := List.map_eq_cons_iff.1 hmap
  obtain ⟨before, behind, hcut, rfl, hbehind⟩ := List.filter_eq_append_iff.1 hfound
  obtain ⟨skipped, post, rfl, hskipped, -, rfl⟩ := List.filter_eq_cons_iff.1 hbehind
  have htaken := hcut.trans (List.append_assoc before skipped (o :: post)).symm
  have ho : o ∈ (d.places needle matchCase).filter (·.stop ≤ hi) :=
    (Span.disjoint_sublist (·.toSpan) lo _).mem (by rw [htaken]; simp)
  obtain ⟨hplace, hstop⟩ := List.mem_filter.1 ho
  refine ⟨before ++ skipped, o, post, htaken, hplace, of_decide_eq_true hstop, rfl, ?_, rfl⟩
  rw [List.filter_append, List.filter_eq_nil_iff.2 hskipped, List.append_nil]

variable {pre post : List Text.Occurrence} {o : Text.Occurrence}

/-- A search from behind a hit finds the hits behind it. -/
theorem hits_behind {init : List Span}
    (h : d.hits needle wholeWord matchCase lo hi = init ++ s :: rest) :
    d.hits needle wholeWord matchCase s.stop hi = rest := by
  obtain ⟨hne, -, hhi⟩ := hits_ne_nil (by rw [h]; simp)
  obtain ⟨pre, o, post, htaken, hplace, -, rfl, -, hrest⟩ := exists_disjoint_of_hits h
  have hstop := (isBoundary_of_mem_places hne hplace).2
  rw [hits_of_isBoundary hne hstop hhi, ← hrest]
  congr 2
  exact Span.disjoint_behind
    ((Text.placesFrom_pairwise _ _ _ _ _).sublist List.filter_sublist)
    (fun a ha => (mem_places hne (List.mem_filter.1 ha).1).1) htaken

/-- A search from before a hit finds the hits before it. -/
theorem hits_before {init : List Span}
    (h : d.hits needle wholeWord matchCase lo hi = init ++ s :: rest) :
    d.hits needle wholeWord matchCase lo s.start = init := by
  obtain ⟨hne, hlo, -⟩ := hits_ne_nil (by rw [h]; simp)
  obtain ⟨pre, o, post, htaken, hplace, hhi, rfl, hinit, -⟩ := exists_disjoint_of_hits h
  obtain ⟨hpos, hsize⟩ := mem_places hne hplace
  have hstart := (isBoundary_of_mem_places hne hplace).1
  rw [← Nat.min_eq_left (show o.start ≤ d.size by omega)] at hstart
  rw [hits_of_isBoundary hne hlo hstart, ← hinit]
  congr 2
  rw [← Span.disjoint_before ((Text.placesFrom_pairwise _ _ _ _ _).sublist List.filter_sublist)
    (fun a ha => (mem_places hne (List.mem_filter.1 ha).1).1) htaken, List.filter_filter]
  congr 1
  refine List.filter_congr fun a _ => ?_
  rw [← Bool.decide_and, decide_eq_decide]
  omega

end

/-! ## Keywords that are found -/

/-- The hits of a search from an offset to the end of the document, as they are met. -/
def met (d : Document) (word : String) : Direction → Nat → List Span
  | .forward, offset => d.hits word.toList true false offset d.size
  | .backward, offset => (d.hits word.toList true false 0 offset).reverse

/-- Past a hit, a search meets the hits that are left. -/
theorem met_past {s : Span} {rest : List Span} (h : d.met word direction offset = s :: rest) :
    d.met word direction (direction.past s) = rest := by
  cases direction with
  | forward => exact @hits_behind _ _ _ _ _ _ _ _ [] h
  | backward =>
    have hhits : d.hits word.toList true false 0 offset = rest.reverse ++ [s] := by
      rw [← List.reverse_inj, List.reverse_append, List.reverse_reverse]
      exact h
    show (d.hits word.toList true false 0 s.start).reverse = rest
    rw [hits_before hhits, List.reverse_reverse]

theorem met_of_sameButSearch (h : d.SameButSearch d') : d'.met word = d.met word := by
  obtain ⟨_, rfl⟩ := h
  funext direction
  cases direction <;> rfl

/-- A search finds the last of its hits if it runs backward, and else the first one. -/
theorem fst_seek (d : Document) (word : String) (start stop : Nat) :
    (d.seek word start stop).1 =
      let hits := d.hits word.toList true false (min start stop) (max start stop)
      if stop < start then hits.getLast? else hits.head? := by
  rw [seek, searchTarget]
  dsimp only [SearchRegister.direction]
  by_cases hlt : stop < start
  · rw [if_pos hlt, if_pos hlt]
    dsimp only
    split
    · next hnone => exact hnone.symm
    · next hsome => exact hsome.symm
  · rw [if_neg hlt, if_neg hlt]
    dsimp only
    split
    · next hnone => exact hnone.symm
    · next hsome => exact hsome.symm

/-- A search to the end of the document finds what is met first. -/
theorem fst_seek_edge (d : Document) (word : String) (direction : Direction) (offset : Nat) :
    (d.seek word offset (direction.edge d.size)).1 = (d.met word direction offset).head? := by
  rw [fst_seek]
  cases direction with
  | forward =>
    rw [Direction.edge, met]
    by_cases hlt : d.size < offset
    · rw [if_pos hlt, hits_eq_nil (by omega), hits_eq_nil (by omega)]
      rfl
    · rw [if_neg hlt, Nat.min_eq_left (by omega), Nat.max_eq_right (by omega)]
  | backward =>
    rw [Direction.edge, met, List.head?_reverse, Nat.min_zero, Nat.max_zero]
    by_cases hlt : 0 < offset
    · rw [if_pos hlt]
    · rw [if_neg hlt, hits_eq_nil (by omega)]
      rfl

theorem fst_seek_of_lt (d : Document) (word : String) {start stop : Nat} (h : start < stop) :
    (d.seek word start stop).1 = (d.hits word.toList true false start stop).head? := by
  rw [fst_seek, if_neg (by omega), Nat.min_eq_left (by omega), Nat.max_eq_right (by omega)]

/-- A search for a keyword finds the first hit that has its style. -/
theorem fst_findStyled (d : Document) (word : String) (style : Style) (direction : Direction)
    (offset : Nat) :
    (d.findStyled word style direction offset).1 =
      (d.met word direction offset).find? fun s => d.styleAt s.start == style := by
  induction hmet : d.met word direction offset generalizing d offset with
  | nil =>
    have hfirst := fst_seek_edge d word direction offset
    rw [hmet] at hfirst
    rw [findStyled]
    split
    · rfl
    · next hseek =>
      rw [hseek] at hfirst
      cases hfirst
  | cons s rest ih =>
    have hfirst := fst_seek_edge d word direction offset
    rw [hmet] at hfirst
    rw [findStyled]
    split
    · next hseek =>
      rw [hseek] at hfirst
      cases hfirst
    · next hit d' hseek =>
      have hsame := sameButSearch_seek hseek
      rw [hseek] at hfirst
      obtain rfl : hit = s := Option.some.inj hfirst
      have hrest := met_past hmet
      rw [← met_of_sameButSearch hsame] at hrest
      have hpast : ¬ (direction.past hit == offset) = true := by
        intro heq
        have hless := seek_room hseek
        rw [beq_iff_eq.1 heq] at hless
        exact Nat.lt_irrefl _ hless
      have ih := ih d' (direction.past hit) hrest
      rw [hsame.styleAt] at ih ⊢
      dsimp only
      by_cases hstyle : (d.styleAt hit.start == style) = true
      · rw [if_pos hstyle]
        exact Eq.symm (List.find?_cons_of_pos hstyle)
      · rw [if_neg hstyle, if_neg hpast]
        exact ih.trans (Eq.symm (List.find?_cons_of_neg hstyle))

/-- The hits of a search between two boundaries that have a style are the marks there. -/
theorem filter_hits_eq_between (word : String) (style : Style) {lo hi : Nat}
    (hlo : d.isBoundary lo = true) (hhi : d.isBoundary hi = true) :
    (d.hits word.toList true false lo hi).filter (fun s => d.styleAt s.start == style) =
      (d.marks word style).between lo hi := by
  by_cases hne : word.toList = []
  · have hnil : d.hits word.toList true false lo hi = [] := by
      rw [hits, hne]
      rfl
    have hmarks : (d.marks word style).places = [] := if_pos hne
    rw [hnil, Marks.between, hmarks]
    rfl
  · have hle := le_size_of_isBoundary hhi
    rw [hits_of_isBoundary hne hlo (by rwa [Nat.min_eq_left hle]), Marks.between,
      d.places_marks hne]
    simp only [List.filter_map, Span.disjoint_map, List.filter_filter, List.map_map,
      Function.comp_def, Bool.not_true, Bool.false_or, Bool.and_comm]

theorem find?_met (word : String) (style : Style) (direction : Direction)
    (hoffset : d.isBoundary offset = true) :
    (d.met word direction offset).find? (fun s => d.styleAt s.start == style) =
      (d.marks word style).nearest? direction offset := by
  have hstart : d.isBoundary 0 = true := @isBoundary_cut d [] d.text rfl
  have hstop : d.isBoundary d.size = true := by
    rw [← size_text]
    exact isBoundary_cut (List.append_nil d.text).symm
  rw [← List.head?_filter]
  cases direction with
  | forward => rw [met, filter_hits_eq_between word style hoffset hstop, Marks.nearest?]
  | backward =>
    rw [met, List.filter_reverse, List.head?_reverse,
      filter_hits_eq_between word style hstart hoffset, Marks.nearest?]

/-- After other searches, a search for a keyword finds the nearest mark that counts. -/
theorem SameButSearch.fst_findStyled (h : d.SameButSearch d') (word : String) (style : Style)
    (direction : Direction) (hoffset : d.isBoundary offset = true) :
    (d'.findStyled word style direction offset).1 =
      (d.marks word style).nearest? direction offset := by
  obtain ⟨_, rfl⟩ := h
  exact (Document.fst_findStyled _ word style direction offset).trans
    (find?_met word style direction hoffset)

/-! ## Keywords that are collected -/

theorem hits_of_sameButSearch (h : d.SameButSearch d') : d'.hits = d.hits := by
  obtain ⟨_, rfl⟩ := h
  rfl

/-- Searching from each hit on to the next collects the hits that have the right style. -/
theorem fst_collectWord (d : Document) (word : String) (start stop : Nat) :
    (d.collectWord word start stop).1 =
      (d.hits word.toList true false start stop).filter fun s =>
        d.styleAt s.start == .flowControl := by
  induction hhits : d.hits word.toList true false start stop generalizing d start with
  | nil =>
    rw [collectWord]
    split
    · next hlt =>
      have hfirst := fst_seek_of_lt d word hlt
      rw [hhits] at hfirst
      split
      · rfl
      · next hseek =>
        rw [hseek] at hfirst
        cases hfirst
    · rfl
  | cons s rest ih =>
    obtain ⟨hlo, hpos, hhi, -⟩ := mem_hits (hhits ▸ List.mem_cons_self)
    have hlt : start < stop := by omega
    have hfirst := fst_seek_of_lt d word hlt
    rw [hhits] at hfirst
    rw [collectWord, if_pos hlt]
    split
    · next hseek =>
      rw [hseek] at hfirst
      cases hfirst
    · next hit d' hseek =>
      have hsame := sameButSearch_seek hseek
      rw [hseek] at hfirst
      obtain rfl : hit = s := Option.some.inj hfirst
      have hrest := @hits_behind _ _ _ _ _ _ _ _ [] hhits
      rw [← hits_of_sameButSearch hsame] at hrest
      have ih := ih d' hit.stop hrest
      rw [hsame.styleAt] at ih ⊢
      rw [Nat.max_eq_left (by omega)]
      dsimp only
      rw [ih, List.filter_cons]

theorem fst_collectWords (d : Document) (words : List String) (range : Span) :
    (d.collectWords words range).1 = words.flatMap fun word =>
      (d.hits word.toList true false range.start range.stop).filter fun s =>
        d.styleAt s.start == .flowControl := by
  induction words generalizing d with
  | nil => rfl
  | cons word words ih =>
    have hsame := @sameButSearch_collectWord d _ word range.start range.stop _ rfl
    rw [collectWords, List.flatMap_cons, ← fst_collectWord]
    dsimp only
    rw [ih, hits_of_sameButSearch hsame, hsame.styleAt]

/-- The words of a block that lie in a gap, one word after the other. -/
def wordsBetween (d : Document) (words : List String) (gap : Span) : List Span :=
  words.flatMap fun word => (d.marks word .flowControl).between gap.start gap.stop

/-- A span that starts and ends at boundaries. -/
def Bounded (d : Document) (s : Span) : Prop :=
  d.isBoundary s.start = true ∧ d.isBoundary s.stop = true

/-- After other searches, what is collected in a gap are the marks there, sorted. -/
theorem SameButSearch.fst_collectStyled (h : d.SameButSearch d') (words : List String) {gap : Span}
    (hgap : d.Bounded gap) :
    (d'.collectStyled words gap).1 = Span.sort (d.wordsBetween words gap) := by
  obtain ⟨_, rfl⟩ := h
  rw [collectStyled]
  dsimp only
  rw [fst_collectWords]
  congr 1
  exact List.flatMap_congr fun word _ => filter_hits_eq_between word .flowControl hgap.1 hgap.2

/-! ## The end of a block -/

theorem bounded_of_mem_marks {p : Mark} (hp : p ∈ (d.marks word style).places) :
    d.Bounded p.toSpan := by
  by_cases hne : word.toList = []
  · rw [show (d.marks word style).places = [] from if_pos hne] at hp
    cases hp
  · rw [d.places_marks hne] at hp
    obtain ⟨o, ho, rfl⟩ := List.mem_map.1 hp
    exact isBoundary_of_mem_places hne ho

theorem Bounded.past {s : Span} (h : d.Bounded s) (direction : Direction) :
    d.isBoundary (direction.past s) = true := by
  cases direction with
  | forward => exact h.2
  | backward => exact h.1

theorem Bounded.between {s : Span} (h : d.Bounded s) (direction : Direction)
    (hoffset : d.isBoundary offset = true) : d.Bounded (direction.between offset s) := by
  cases direction with
  | forward =>
    refine ⟨hoffset, ?_⟩
    rcases Nat.le_total s.start offset with hle | hle
    · rwa [Direction.between, Nat.max_eq_right hle]
    · rw [Direction.between, Nat.max_eq_left hle]
      exact h.1
  | backward =>
    refine ⟨?_, hoffset⟩
    rcases Nat.le_total s.stop offset with hle | hle
    · rw [Direction.between, Nat.min_eq_left hle]
      exact h.2
    · rwa [Direction.between, Nat.min_eq_right hle]

/-- After other searches, a search for the end of a block follows the way along the marks of its
keywords. -/
theorem SameButSearch.found_resolveBlock (h : d.SameButSearch d') (near far : String)
    (branches : List String) (direction : Direction) (hoffset : d.isBoundary offset = true)
    (collected : List Span) :
    (d'.resolveBlock near far branches direction offset collected).found =
      (BlockWay.way? (d.marks near .flowControl) (d.marks far .flowControl) direction offset).map
        fun way => (way.last,
          Span.sort (collected ++ way.gaps.flatMap (d.wordsBetween branches))) := by
  obtain ⟨room, hroom⟩ : ∃ room, direction.room d.size offset = room := ⟨_, rfl⟩
  induction room using Nat.strongRecOn generalizing d' offset branches collected with
  | ind room ih =>
    subst hroom
    have hfar := h.fst_findStyled far .flowControl direction hoffset
    rw [resolveBlock, BlockWay.way?_eq]
    split
    · next d₁ hlast =>
      rw [hlast] at hfar
      rw [← hfar]
      rfl
    · next last d₁ hlast =>
      have h₁ := h.trans (sameButSearch_findStyled hlast)
      have hnear := h₁.fst_findStyled near .flowControl direction hoffset
      have h₂ := h₁.trans (@sameButSearch_findStyled d₁ _ near .flowControl direction offset _ rfl)
      rw [hlast] at hfar
      rw [← hfar, Option.bind_some, ← hnear]
      dsimp only
      split
      · next hbefore =>
        have hend : d.Bounded last := Marks.of_nearest? (fun _ => bounded_of_mem_marks) hfar.symm
        have hgap := h₂.fst_collectStyled branches (hend.between direction hoffset)
        dsimp only
        rw [hbefore, Option.map_some, hgap, List.flatMap_singleton, ← List.append_nil (_ ++ _),
          Span.sort_append_sort, List.append_nil]
      · next nested hbefore =>
        have hnested := hnear.symm.trans (Option.filter_eq_some_iff.1 hbefore).1
        have hstart : d.Bounded nested := Marks.of_nearest? (fun _ => bounded_of_mem_marks) hnested
        have hgap := h₂.fst_collectStyled branches (hstart.between direction hoffset)
        have h₃ := h₂.trans (@sameButSearch_collectStyled _ (collectStyled _ _ _).2 branches
          (direction.between offset nested) _ rfl)
        have hstep := Marks.nearest?_room hnested
        have hskip := ih _ hstep h₃ [] (hstart.past direction) [] rfl
        split
        · next d₄ h₄ _ hinner =>
          rw [hinner] at hskip
          dsimp only
          rw [hbefore]
          dsimp only
          rw [Option.map_eq_none_iff.1 hskip.symm]
          rfl
        · next inner _ d₄ h₄ _ hinner =>
          rw [hinner] at hskip
          obtain ⟨way, hway, heq⟩ := Option.map_eq_some_iff.1 hskip.symm
          obtain ⟨rfl, -⟩ := Prod.mk.inj heq
          have hinnerEnd : d.Bounded way.last :=
            BlockWay.of_last (fun _ => bounded_of_mem_marks) hway
          have hrest := fun collected => ih _ (Nat.lt_trans (BlockWay.way?_room hway) hstep)
            (h₃.trans h₄) branches (hinnerEnd.past direction) collected rfl
          dsimp only
          rw [hbefore]
          dsimp only
          rw [hrest, hway, Option.bind_some, Option.map_map]
          congr 1
          funext rest
          rw [hgap, Span.sort_append_sort]
          rfl

/-! ## Matching -/

/-- After other searches, the searches for some words find the nearest mark of each. -/
theorem SameButSearch.findEach (h : d.SameButSearch d') (words : List String) (style : Style)
    (direction : Direction) (hoffset : d.isBoundary offset = true) :
    (d'.findEach words style direction offset).1 =
        words.filterMap (fun word => (d.marks word style).nearest? direction offset) ∧
      d.SameButSearch (d'.findEach words style direction offset).2 := by
  induction words generalizing d' with
  | nil => exact ⟨rfl, h⟩
  | cons word words ih =>
    have hfound := h.fst_findStyled word style direction hoffset
    obtain ⟨hrest, hsame⟩ := ih (h.trans
      (@sameButSearch_findStyled d' (d'.findStyled _ _ _ _).2 word style direction offset _ rfl))
    rw [Document.findEach]
    refine ⟨?_, hsame⟩
    dsimp only
    rw [hrest, hfound, List.filterMap_cons]
    cases (d.marks word style).nearest? direction offset <;> rfl

variable {word : Span}

theorem searchDeclaration_eq (counterparts : List String)
    (hoffset : d.isBoundary (direction.past word) = true) :
    (d.searchDeclaration word counterparts direction).1 =
        d.matchDeclaration word counterparts direction ∧
      d.SameButSearch (d.searchDeclaration word counterparts direction).2 := by
  obtain ⟨hends, hsame⟩ := SameButSearch.findEach ⟨d.search, rfl⟩ counterparts .keyword direction
    hoffset
  rw [searchDeclaration, matchDeclaration]
  dsimp only
  rw [hends]
  cases direction.first? (counterparts.filterMap fun c =>
    (d.marks c .keyword).nearest? direction (direction.past word)) with
  | none => exact ⟨rfl, hsame⟩
  | some s => exact ⟨rfl, hsame⟩

theorem SameButSearch.found_searchBlock (h : d.SameButSearch d') (block : FlowBlock)
    (direction : Direction) (hoffset : d.isBoundary offset = true) :
    (d'.searchBlock block direction offset).found =
      (d.blockWay? block direction offset).map fun way => (way.last, d.branchWords block way) := by
  have hwords : ∀ way, d.branchWords block way =
      Span.sort ([] ++ way.gaps.flatMap (d.wordsBetween block.branches)) := by
    intro way
    rw [branchWords, List.nil_append]
    simp only [List.flatMap_map]
    rfl
  simp only [hwords]
  exact h.found_resolveBlock _ _ block.branches direction hoffset []

theorem searchFlow_eq (block : FlowBlock) (hoffset : d.isBoundary (direction.past word) = true) :
    (d.searchFlow word block direction).1 = d.matchFlow word block direction ∧
      d.SameButSearch (d.searchFlow word block direction).2 := by
  have hfound := SameButSearch.found_searchBlock ⟨d.search, rfl⟩ block direction hoffset
  have hsame := (d.searchBlock block direction (direction.past word)).same
  rw [searchFlow, matchFlow, hfound]
  cases d.blockWay? block direction (direction.past word) with
  | none => exact ⟨rfl, hsame⟩
  | some way => exact ⟨rfl, hsame⟩

theorem searchBranch_eq (hword : d.Bounded word) :
    (d.searchBranch word).1 = d.matchBranch word ∧ d.SameButSearch (d.searchBranch word).2 := by
  have hup := SameButSearch.found_searchBlock ⟨d.search, rfl⟩ .ifBlock .backward hword.1
  have hsameUp := (d.searchBlock .ifBlock .backward word.start).same
  have hdown := hsameUp.found_searchBlock .ifBlock .forward hword.2
  refine ⟨?_, hsameUp.trans (BlockSearch.same _)⟩
  rw [searchBranch, matchBranch]
  dsimp only
  rw [hup, hdown]
  cases d.blockWay? .ifBlock .backward word.start with
  | none => cases d.blockWay? .ifBlock .forward word.stop <;> rfl
  | some way => cases d.blockWay? .ifBlock .forward word.stop <;> rfl

theorem bounded_wordAt {caret : Nat} (h : (d.wordAt caret).isEmpty = false) :
    d.Bounded (d.wordAt caret) := by
  obtain ⟨pre, mid, post, hword, hspan⟩ := isWord_wordAt h
  rw [hspan]
  refine ⟨isBoundary_cut (hword.text_eq.trans (List.append_assoc _ _ _)), ?_⟩
  dsimp only
  rw [← Text.size_append]
  exact isBoundary_cut hword.text_eq

/-- Searching for the keywords of a block finds what the places of its words say, and changes
nothing but the register. -/
theorem searchKeyword_eq (d : Document) (caret : Nat) :
    (d.searchKeyword caret).1 = d.matchKeyword caret ∧
      d.SameButSearch (d.searchKeyword caret).2 := by
  rw [searchKeyword, matchKeyword]
  by_cases hempty : (d.wordAt caret).isEmpty = true
  · rw [if_pos hempty, if_pos hempty]
    exact ⟨rfl, d.search, rfl⟩
  · have hword := bounded_wordAt (Bool.eq_false_iff.2 hempty)
    rw [if_neg hempty, if_neg hempty]
    cases Construct.ofWord?
      (foldName (String.ofList (d.read (d.wordAt caret).start (d.wordAt caret).stop))) with
    | none => exact ⟨rfl, d.search, rfl⟩
    | some construct =>
      dsimp only
      by_cases hstyle : (d.styleAt (d.wordAt caret).start != construct.style) = true
      · rw [if_pos hstyle, if_pos hstyle]
        exact ⟨rfl, d.search, rfl⟩
      · rw [if_neg hstyle, if_neg hstyle]
        cases construct with
        | declaration counterparts direction =>
          exact searchDeclaration_eq counterparts (hword.past direction)
        | flow block direction => exact searchFlow_eq block (hword.past direction)
        | branch => exact searchBranch_eq hword

/-- A match by searching is the match, and leaves the document as it was. -/
theorem matchBySearch_eq (d : Document) (caret : Nat) :
    d.matchBySearch caret = (d.matchKeyword caret, d) := by
  obtain ⟨hmatch, r, hsame⟩ := d.searchKeyword_eq caret
  rw [matchBySearch, keepingSearch]
  dsimp only
  rw [hmatch, hsame]

end Document

/-! ## What is left behind -/

/-- A link only adds the script that it leads to to the files to be opened. -/
theorem Lexer.document_followLink (x : Lexer) (files : FileTree) (d : Document) (offset : Nat) :
    (x.followLink files d offset).2.2 =
      { d with opened := d.opened ++ (x.followLink files d offset).1.toList } := by
  have hnone : { d with opened := d.opened ++ [] } = d := by rw [List.append_nil]
  rw [followLink_eq]
  split
  · next profile name _ _ =>
    dsimp only
    cases (x.classes.locate files name profile).1 with
    | none => exact hnone.symm
    | some path => rfl
  · exact hnone.symm

/-- Whatever is in the search register, a match finds the same and leaves the whole document as it
was, the register included. A link leaves all of it as it was but the files to be opened, to which
it adds the script that it answers, if it answers one. -/
theorem matchBySearch_followLink_frame (d : Document) :
    (∀ caret register, { d with search := register }.matchBySearch caret =
      ((d.matchBySearch caret).1, { d with search := register })) ∧
    ∀ (x : Lexer) files offset, (x.followLink files d offset).2.2 =
      { d with opened := d.opened ++ (x.followLink files d offset).1.toList } := by
  refine ⟨fun caret register => ?_, fun x files offset => x.document_followLink files d offset⟩
  rw [Document.matchBySearch_eq, Document.matchBySearch_eq]
  rfl

end Papyrus

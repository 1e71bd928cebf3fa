import Papyrus.Proofs.CodeMatch
import Papyrus.Proofs.RegisterSearch
/-!
# Searches for styled words

A search of the register finds a whole word in whatever style it has. To find one in a given style,
the search is started again past each hit that has another one; to collect all in a range, it is
started again behind each hit. Both are loops from one offset to the next (`restart?`, `advance?`),
and each round leaves less to be searched. As long as the ASCII letters are word characters, no
place of a block keyword reaches into a hit behind it, so that starting again skips none.

Results:
* `Run.exists_of_measure`: a loop along which a measure goes down ends after as many rounds.
* `fst_findStyled_of_run`, `fst_collectWord_of_run`: what the loops answer, by their rounds.
* `isNearestWord_findStyled`: the nearest word of a style is found, and nothing if there is none.
* `lists_collectStyled`: each word in a range is collected once, in document order.
* `styledSearch_exact`: both for the block keywords, and how many rounds that takes.
-/
namespace Papyrus

/-! ## Loops over offsets -/

/-- A loop that goes from an offset on to the next one until there is none. The list has the offsets
behind the first one. -/
inductive Run (next? : Nat → Option Nat) : Nat → List Nat → Prop where
  | ended {offset : Nat} : next? offset = none → Run next? offset []
  | step {offset next : Nat} {visited : List Nat} :
      next? offset = some next → Run next? next visited → Run next? offset (next :: visited)

/-- A loop along which a measure goes down ends after as many rounds at most. -/
theorem Run.exists_of_measure {next? : Nat → Option Nat} {room : Nat → Nat}
    (hless : ∀ offset next, next? offset = some next → room next < room offset) (offset : Nat) :
    ∃ visited, Run next? offset visited ∧ visited.length ≤ room offset := by
  induction hroom : room offset using Nat.strongRecOn generalizing offset with
  | ind n ih =>
    subst hroom
    cases hnext : next? offset with
    | none => exact ⟨[], .ended hnext, Nat.zero_le _⟩
    | some next =>
      have hstep := hless offset next hnext
      obtain ⟨visited, hrun, hlength⟩ := ih _ hstep next rfl
      exact ⟨next :: visited, .step hnext hrun, Nat.lt_of_le_of_lt hlength hstep⟩

namespace Document

variable {d : Document} {word : String} {words : List String} {style : Style}
  {direction : Direction} {offset start stop next : Nat} {visited : List Nat}

/-! ## The rounds of a search for a style -/

/-- Where a search for a word in a style starts again: past what is found from an offset, if that
has another style. -/
def restart? (d : Document) (word : String) (style : Style) (direction : Direction) (offset : Nat) :
    Option Nat :=
  ((d.seek word offset (direction.edge d.size)).1.filter fun s => d.styleAt s.start != style).map
    direction.past

/-- Past a hit of another style, less of the document lies ahead. -/
theorem room_of_restart? (h : d.restart? word style direction offset = some next) :
    direction.room d.size next < direction.room d.size offset := by
  obtain ⟨s, hs, rfl⟩ := Option.map_eq_some_iff.1 h
  exact seek_room (Prod.ext (Option.filter_eq_some_iff.1 hs).1 rfl)

/-- What is to be found is still to be found where a search starts again. -/
theorem fst_findStyled_of_restart? (h : d.restart? word style direction offset = some next) :
    (d.findStyled word style direction offset).1 =
      (d.findStyled word style direction next).1 := by
  obtain ⟨s, hs, rfl⟩ := Option.map_eq_some_iff.1 h
  obtain ⟨hseek, hstyle⟩ := Option.filter_eq_some_iff.1 hs
  rw [fst_seek_edge] at hseek
  obtain ⟨rest, hmet⟩ := List.head?_eq_some_iff.1 hseek
  rw [fst_findStyled, fst_findStyled, met_past hmet, hmet]
  exact List.find?_cons_of_neg (by simpa using hstyle)

/-- Where a search does not start again, it answers what it has found. -/
theorem fst_findStyled_of_restart?_eq_none (h : d.restart? word style direction offset = none) :
    (d.findStyled word style direction offset).1 =
      (d.seek word offset (direction.edge d.size)).1 := by
  rw [restart?, fst_seek_edge, Option.map_eq_none_iff, Option.filter_eq_none_iff] at h
  rw [fst_findStyled, fst_seek_edge]
  cases hmet : d.met word direction offset with
  | nil => rfl
  | cons s rest =>
    have hstyle := h s (by rw [hmet]; rfl)
    exact List.find?_cons_of_pos (by simpa using hstyle)

/-- The word of a style is what the search of the last round finds. -/
theorem fst_findStyled_of_run (h : Run (d.restart? word style direction) offset visited) :
    (d.findStyled word style direction offset).1 =
      (d.seek word (visited.getLastD offset) (direction.edge d.size)).1 := by
  induction h with
  | ended hended => exact fst_findStyled_of_restart?_eq_none hended
  | step hstep _ ih => rw [fst_findStyled_of_restart? hstep, ih, List.getLastD_cons]

/-! ## The rounds of a collecting search -/

/-- What a collecting search finds from an offset. -/
def nextHit? (d : Document) (word : String) (stop start : Nat) : Option Span :=
  if start < stop then (d.seek word start stop).1 else none

/-- Where a collecting search goes on. -/
def advance? (d : Document) (word : String) (stop start : Nat) : Option Nat :=
  (d.nextHit? word stop start).map fun s => max s.stop (start + 1)

/-- Each round leaves less to be searched. -/
theorem room_of_advance? (h : d.advance? word stop start = some next) :
    stop - next < stop - start := by
  obtain ⟨s, hs, rfl⟩ := Option.map_eq_some_iff.1 h
  rw [nextHit?] at hs
  split at hs
  · omega
  · cases hs

/-- The first hit in a range is met in one round, and those that are left behind it. -/
theorem hits_of_nextHit? {s : Span} (h : d.nextHit? word stop start = some s) :
    d.hits word.toList true false start stop =
      s :: d.hits word.toList true false (max s.stop (start + 1)) stop := by
  rw [nextHit?] at h
  split at h
  · next hlt =>
    rw [fst_seek_of_lt d word hlt] at h
    obtain ⟨rest, hhits⟩ := List.head?_eq_some_iff.1 h
    obtain ⟨hlo, hpos, -⟩ := mem_hits (hhits ▸ List.mem_cons_self)
    have hrest := @hits_behind _ _ _ _ _ _ _ _ [] hhits
    rw [Nat.max_eq_left (by omega), hrest, hhits]
  · cases h

theorem hits_of_nextHit?_eq_none (h : d.nextHit? word stop start = none) :
    d.hits word.toList true false start stop = [] := by
  rw [nextHit?] at h
  split at h
  · next hlt => rwa [fst_seek_of_lt d word hlt, List.head?_eq_none_iff] at h
  · exact hits_eq_nil (by omega)

/-- The rounds meet all hits of one search of the range. -/
theorem hits_of_run (h : Run (d.advance? word stop) start visited) :
    d.hits word.toList true false start stop =
      (start :: visited).filterMap (d.nextHit? word stop) := by
  induction h with
  | ended hended =>
    have hnone := Option.map_eq_none_iff.1 hended
    rw [hits_of_nextHit?_eq_none hnone, List.filterMap_cons_none hnone, List.filterMap_nil]
  | step hstep _ ih =>
    obtain ⟨s, hs, rfl⟩ := Option.map_eq_some_iff.1 hstep
    rw [hits_of_nextHit? hs, List.filterMap_cons_some hs, ih]

/-- What is collected is what the single rounds find, as far as it has the right style. -/
theorem fst_collectWord_of_run (h : Run (d.advance? word stop) start visited) :
    (d.collectWord word start stop).1 =
      ((start :: visited).filterMap (d.nextHit? word stop)).filter fun s =>
        d.styleAt s.start == .flowControl := by
  rw [fst_collectWord, hits_of_run h]

/-! ## What is found -/

/-- What a search for a word in a style should answer: such a word wholly ahead of the offset that
all others ahead lie beyond, or nothing if no such word lies ahead. -/
def IsNearestWord (d : Document) (word : String) (style : Style) (direction : Direction)
    (offset : Nat) : Option Span → Prop
  | none => ∀ s, d.IsStyledWord word style s → direction.isAhead offset s = false
  | some s => d.IsStyledWord word style s ∧ direction.isAhead offset s = true ∧
      ∀ t, d.IsStyledWord word style t → direction.isAhead offset t = true → t ≠ s →
        direction.isAhead (direction.past s) t = true

/-- The nearest word of a style is found, and nothing if there is none. -/
theorem isNearestWord_findStyled (hsolid : d.Solid word) (style : Style) (direction : Direction)
    (hoffset : d.isBoundary offset = true) :
    d.IsNearestWord word style direction offset
      (d.findStyled word style direction offset).1 := by
  have hmem : ∀ s, s ∈ (d.keywords word style).filter (direction.isAhead offset) ↔
      d.IsStyledWord word style s ∧ direction.isAhead offset s = true := fun s => by
    rw [List.mem_filter, mem_keywords_iff_isStyledWord hsolid.1]
  have hsorted : ((d.keywords word style).filter (direction.isAhead offset)).Pairwise
      fun a b => a.start < b.start :=
    (keywords_pairwise d word style).sublist List.filter_sublist
  rw [SameButSearch.fst_findStyled ⟨d.search, rfl⟩ word style direction hoffset,
    nearest?_marks_of_solid hsolid]
  cases hhead : (direction.read ((d.keywords word style).filter
      (direction.isAhead offset))).head? with
  | none =>
    intro s hs
    rw [List.head?_eq_none_iff] at hhead
    refine Bool.eq_false_iff.2 fun hahead => ?_
    have hin := (@Direction.mem_read _ direction _ _).2 ((hmem s).2 ⟨hs, hahead⟩)
    rw [hhead] at hin
    cases hin
  | some s =>
    obtain ⟨hs, hfirst⟩ := (Direction.head?_read_eq_some_iff hsorted).1 hhead
    refine ⟨((hmem s).1 hs).1, ((hmem s).1 hs).2, fun t ht hahead hne => ?_⟩
    have hnot := hfirst t ((hmem t).2 ⟨ht, hahead⟩)
    have hskey := (List.mem_filter.1 hs).1
    have htkey := (mem_keywords_iff_isStyledWord hsolid.1).2 ht
    have hstart : t.start ≠ s.start := fun heq =>
      hne (keywords_inj hsolid hsolid htkey hskey heq).1
    -- two words of one document do not overlap
    cases direction with
    | forward =>
      have hle := of_decide_eq_false hnot
      exact decide_eq_true (keywords_disjoint hsolid hsolid hskey htkey (by omega))
    | backward =>
      have hle := of_decide_eq_false hnot
      exact decide_eq_true (keywords_disjoint hsolid hsolid htkey hskey (by omega))

/-! ## What is collected -/

/-- Spans that list the words of flow control in a range, each once and in document order. -/
structure Lists (d : Document) (words : List String) (range : Span) (l : List Span) : Prop where
  mem_iff : ∀ s, s ∈ l ↔ range.start ≤ s.start ∧ s.stop ≤ range.stop ∧
    ∃ word ∈ words, d.IsStyledWord word .flowControl s
  sorted : l.Pairwise fun a b => a.start < b.start

theorem mem_wordsBetween (hsolid : ∀ word ∈ words, d.Solid word) {range s : Span} :
    s ∈ d.wordsBetween words range ↔ range.start ≤ s.start ∧ s.stop ≤ range.stop ∧
      ∃ word ∈ words, d.IsStyledWord word .flowControl s := by
  rw [wordsBetween, List.mem_flatMap]
  constructor
  · rintro ⟨word, hword, hs⟩
    rw [between_marks (hsolid word hword), List.mem_filter, Bool.and_eq_true, decide_eq_true_eq,
      decide_eq_true_eq, mem_keywords_iff_isStyledWord (hsolid word hword).1] at hs
    exact ⟨hs.2.1, hs.2.2, word, hword, hs.1⟩
  · rintro ⟨hlo, hhi, word, hword, hs⟩
    refine ⟨word, hword, ?_⟩
    rw [between_marks (hsolid word hword), List.mem_filter, Bool.and_eq_true, decide_eq_true_eq,
      decide_eq_true_eq, mem_keywords_iff_isStyledWord (hsolid word hword).1]
    exact ⟨hs, hlo, hhi⟩

/-- Words that differ by more than case start at different offsets. -/
theorem wordsBetween_pairwise_ne (hsolid : ∀ word ∈ words, d.Solid word)
    (hdistinct : words.Pairwise fun a b =>
      a.toList.map Unicode.foldCase ≠ b.toList.map Unicode.foldCase) (range : Span) :
    (d.wordsBetween words range).Pairwise fun a b => a.start ≠ b.start := by
  have hbetween : ∀ word ∈ words, ((d.marks word .flowControl).between range.start
      range.stop).Sublist (d.keywords word .flowControl) := fun word hword => by
    rw [between_marks (hsolid word hword)]
    exact List.filter_sublist
  rw [wordsBetween, List.pairwise_flatMap]
  constructor
  · intro word hword
    exact ((keywords_pairwise d word _).sublist (hbetween word hword)).imp Nat.ne_of_lt
  · refine hdistinct.imp_of_mem fun {v w} hv hw hvw a ha b hb heq => ?_
    exact hvw (keywords_inj (hsolid v hv) (hsolid w hw) ((hbetween v hv).mem ha)
      ((hbetween w hw).mem hb) heq).2

/-- Each word of flow control in a range is collected once, in document order. -/
theorem lists_collectStyled (hsolid : ∀ word ∈ words, d.Solid word)
    (hdistinct : words.Pairwise fun a b =>
      a.toList.map Unicode.foldCase ≠ b.toList.map Unicode.foldCase) {range : Span}
    (hrange : d.Bounded range) : d.Lists words range (d.collectStyled words range).1 := by
  rw [SameButSearch.fst_collectStyled ⟨d.search, rfl⟩ words hrange]
  constructor
  · intro s
    rw [(Span.sort_perm _).mem_iff, mem_wordsBetween hsolid]
  · have hne := ((Span.sort_perm _).pairwise_iff Ne.symm).2
      (wordsBetween_pairwise_ne hsolid hdistinct range)
    exact (hne.and (Span.sort_pairwise _)).imp fun h => Nat.lt_of_le_of_ne h.2 h.1

/-! ## Block keywords -/

/-- Where the ASCII letters are word characters, a search from a character boundary for a block
keyword in a style finds the nearest whole word of that style between the boundary and the end of
the document, and nothing exactly if there is none. A search of a range between boundaries for the
branch words of a block collects the whole words of flow control in the range, each once and in
document order. A search for a style starts again no more often than there are bytes ahead, and a
collecting search goes on no more often than there are bytes in the range. -/
theorem styledSearch_exact (d : Document) (hletters : letters ⊆ d.wordChars) :
    (∀ word, (Construct.ofWord? word).isSome = true → ∀ style direction offset,
      d.isBoundary offset = true →
        d.IsNearestWord word style direction offset
          (d.findStyled word style direction offset).1 ∧
        ∃ visited, Run (d.restart? word style direction) offset visited ∧
          visited.length ≤ direction.room d.size offset ∧
          (d.findStyled word style direction offset).1 =
            (d.seek word (visited.getLastD offset) (direction.edge d.size)).1) ∧
    ∀ block ∈ FlowBlock.all, ∀ range, d.Bounded range →
      d.Lists block.branches range (d.collectStyled block.branches range).1 ∧
      ∀ word ∈ block.branches, ∃ visited, Run (d.advance? word range.stop) range.start visited ∧
        visited.length ≤ range.stop - range.start ∧
        (d.collectWord word range.start range.stop).1 =
          ((range.start :: visited).filterMap (d.nextHit? word range.stop)).filter fun s =>
            d.styleAt s.start == .flowControl := by
  constructor
  · intro word hword style direction offset hoffset
    obtain ⟨construct, hconstruct⟩ := Option.isSome_iff_exists.1 hword
    have hplain := (Construct.known_of_ofWord? hconstruct).1
    obtain ⟨visited, hrun, hlength⟩ := @Run.exists_of_measure _ (direction.room d.size)
      (fun _ _ => @room_of_restart? d word style direction _ _) offset
    exact ⟨isNearestWord_findStyled (hplain.solid_of_letters hletters) style direction hoffset,
      visited, hrun, hlength, fst_findStyled_of_run hrun⟩
  · intro block hblock range hrange
    have hsolid : ∀ word ∈ block.branches, d.Solid word := fun word hword =>
      (FlowBlock.plain_of_mem_branches hblock hword).solid_of_letters hletters
    have hdistinct : ∀ b ∈ FlowBlock.all, b.branches.Pairwise fun a b =>
        a.toList.map Unicode.foldCase ≠ b.toList.map Unicode.foldCase := by decide +kernel
    refine ⟨lists_collectStyled hsolid (hdistinct block hblock) hrange, fun word _ => ?_⟩
    obtain ⟨visited, hrun, hlength⟩ := @Run.exists_of_measure _ (range.stop - ·)
      (fun _ _ => room_of_advance?) range.start
    exact ⟨visited, hrun, hlength, fst_collectWord_of_run hrun⟩

/-- With a hyphen for a word character, the word of flow control is found past one in plain text and
one that ends a longer word. -/
theorem styledSearch_exact_hyphen :
    let d := ({ ofText "hyphen" "If x-if\nElse\nEndIf ; if".toList with
      wordChars := '-' :: letters }.paint 0 2 .flowControl).paint 8 18 .flowControl
    d.restart? "if" .flowControl .backward d.size = some 21 ∧
      d.IsNearestWord "if" .flowControl .backward d.size (some ⟨0, 2⟩) ∧
      d.Lists ["else", "elseif"] ⟨2, 13⟩ [⟨8, 12⟩] := by
  intro d
  obtain ⟨hfind, hcollect⟩ := styledSearch_exact d (List.subset_cons_self _ _)
  have hrange : d.Bounded ⟨2, 13⟩ := by constructor <;> decide +kernel
  obtain ⟨hnearest, -⟩ := hfind "if" (by decide) .flowControl .backward d.size (by decide +kernel)
  obtain ⟨hlists, -⟩ := hcollect .ifBlock (by decide) ⟨2, 13⟩ hrange
  obtain ⟨hrestart, hfound, hwords⟩ :
      d.restart? "if" .flowControl .backward d.size = some 21 ∧
        (d.met "if" .backward d.size).find? (fun s => d.styleAt s.start == .flowControl) =
          some ⟨0, 2⟩ ∧
        d.wordsBetween FlowBlock.ifBlock.branches ⟨2, 13⟩ = [⟨8, 12⟩] := by decide +kernel
  rw [fst_findStyled, hfound] at hnearest
  rw [SameButSearch.fst_collectStyled ⟨d.search, rfl⟩ _ hrange, hwords, Span.sort,
    List.mergeSort_singleton] at hlists
  exact ⟨hrestart, hnearest, hlists⟩

end Document

end Papyrus

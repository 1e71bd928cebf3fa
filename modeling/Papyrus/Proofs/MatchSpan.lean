import Papyrus.Proofs.BlockScan
/-!
# The spans of a match

A match consists of the word under the caret and of keywords that it finds through the marks of
words. What holds of that word and of all marks holds of all spans of a match, and so of all that is
highlighted. None of them is empty or reaches beyond the end of the document, for one.

Results:
* `of_last`: the keyword at the end of a block is a mark.
* `of_mem_highlights`: what is highlighted are spans of the match.
* `all_matchKeyword`: the spans of a match are the word under the caret and marks.
* `within_matchKeyword`: all spans of a match lie in the document.
-/
namespace Papyrus

/-- A span that is not empty and does not reach beyond the end of a document of the given size. -/
def Span.Within (size : Nat) (s : Span) : Prop := s.start < s.stop ∧ s.stop ≤ size

/-! ## Marks -/

section
variable {size : Nat} {P : Span → Prop}

theorem Marks.of_mem_between {m : Marks size} (hm : ∀ p ∈ m.places, P p.toSpan) {lo hi : Nat}
    {s : Span} (h : s ∈ m.between lo hi) : P s := by
  obtain ⟨p, hp, rfl⟩ := List.mem_map.1 h
  have hplaces := (Span.disjoint_sublist _ _ _).mem (List.mem_filter.1 hp).1
  exact hm p (List.mem_filter.1 hplaces).1

theorem Marks.of_nearest? {m : Marks size} (hm : ∀ p ∈ m.places, P p.toSpan)
    {direction : Direction} {offset : Nat} {s : Span} (h : m.nearest? direction offset = some s) :
    P s := by
  cases direction with
  | forward => exact of_mem_between hm (List.mem_of_head? h)
  | backward => exact of_mem_between hm (List.mem_of_getLast? h)

/-- The keyword at the end of a block is one of the marks of its word. -/
theorem BlockWay.of_last {near far : Marks size} (hfar : ∀ p ∈ far.places, P p.toSpan)
    {direction : Direction} {offset : Nat} {way : BlockWay}
    (h : way? near far direction offset = some way) : P way.last := by
  -- the way behind a nested block has less of the document ahead
  induction hroom : direction.room size offset using Nat.strongRecOn generalizing offset way with
  | ind room ih =>
    subst hroom
    rw [way?_eq, Option.bind_eq_some_iff] at h
    obtain ⟨last, hlast, h⟩ := h
    split at h
    · obtain rfl := Option.some.inj h
      exact Marks.of_nearest? hfar hlast
    · next nested hnested =>
      obtain ⟨inner, hinner, h⟩ := Option.bind_eq_some_iff.1 h
      obtain ⟨rest, hrest, rfl⟩ := Option.map_eq_some_iff.1 h
      have hstep := Marks.nearest?_room (Option.filter_eq_some_iff.1 hnested).1
      exact @ih _ (Nat.lt_trans (way?_room hinner) hstep) _ rest hrest rfl

end

/-! ## Matches -/

/-- The best of some spans is one of them. -/
theorem Direction.mem_of_first? {direction : Direction} {l : List Span} {s : Span}
    (h : direction.first? l = some s) : s ∈ l := by
  have hbest : ∀ (rest : List Span) (best : Span), best ∈ l → (∀ t ∈ rest, t ∈ l) →
      rest.foldl (fun best t => if direction.precedes t best then t else best) best ∈ l := by
    intro rest
    induction rest with
    | nil => exact fun best hbest _ => hbest
    | cons t rest ih =>
      intro best hbest hrest
      refine ih _ ?_ fun u hu => hrest u (List.mem_cons_of_mem t hu)
      dsimp only
      split
      · exact hrest t List.mem_cons_self
      · exact hbest
  cases l with
  | nil => cases h
  | cons a l =>
    obtain rfl := Option.some.inj h
    exact hbest l a List.mem_cons_self fun t ht => List.mem_cons_of_mem a ht

theorem Span.mem_sort {l : List Span} {s : Span} : s ∈ sort l ↔ s ∈ l := List.mem_mergeSort

namespace BlockMatch

/-- What holds of all spans of a match. -/
def All (P : Span → Prop) (m : BlockMatch) : Prop :=
  ∀ s ∈ m.keyword.toList ++ m.auxiliary ++ m.counterparts, P s

theorem all_empty (P : Span → Prop) : All P {} := fun _ hs => absurd hs List.not_mem_nil

/-- All spans of a match lie in a document of the given size. -/
def Within (size : Nat) (m : BlockMatch) : Prop :=
  ∀ s ∈ m.keyword.toList ++ m.auxiliary ++ m.counterparts, s.Within size

theorem within_empty (size : Nat) : Within size {} := all_empty _

/-- No match highlights nothing. -/
theorem highlights_empty : highlights {} = [] := by
  simp [highlights, List.eraseReps, List.eraseRepsBy]

/-- A declaration is highlighted at both ends. -/
theorem highlights_declaration {a b : Span} (h : a.start < b.start) :
    highlights { found := true, keyword := some a, counterparts := [b] } = [a, b] := by
  have hle : a.le b = true := by simp [Span.le, h]
  have hne : (a == b) = false := beq_false_of_ne fun heq => Nat.lt_irrefl _ (heq ▸ h)
  have hsort : [a, b].mergeSort Span.le = [a, b] :=
    List.mergeSort_of_pairwise (List.pairwise_pair.2 hle)
  show ([a, b].mergeSort Span.le).eraseReps = [a, b]
  rw [hsort]
  simp [List.eraseReps, List.eraseRepsBy, List.eraseRepsBy.loop, hne]

/-- What is highlighted are spans of the match. -/
theorem of_mem_highlights {P : Span → Prop} {m : BlockMatch} (h : m.All P) {s : Span}
    (hs : s ∈ m.highlights) : P s := by
  have hs := List.mem_mergeSort.1 ((eraseReps_sublist _).mem hs)
  refine h s ?_
  by_cases hfound : m.found = true
  · rwa [if_pos hfound] at hs
  · rw [if_neg hfound, List.append_nil] at hs
    exact List.mem_append_left _ hs

theorem within_highlights {size : Nat} {m : BlockMatch} (h : m.Within size) {s : Span}
    (hs : s ∈ m.highlights) : s.Within size := of_mem_highlights h hs

end BlockMatch

namespace Document

section
variable {d : Document} {P : Span → Prop}
  (hmarks : ∀ word style, ∀ p ∈ (d.marks word style).places, P p.toSpan)
include hmarks

theorem of_blockWay? {block : FlowBlock} {direction : Direction} {offset : Nat} {way : BlockWay}
    (h : d.blockWay? block direction offset = some way) : P way.last :=
  BlockWay.of_last (hmarks _ _) h

theorem of_mem_branchWords {block : FlowBlock} {way : BlockWay} {s : Span}
    (h : s ∈ d.branchWords block way) : P s := by
  obtain ⟨gap, -, h⟩ := List.mem_flatMap.1 (Span.mem_sort.1 h)
  obtain ⟨m, hm, h⟩ := List.mem_flatMap.1 h
  obtain ⟨word, -, rfl⟩ := List.mem_map.1 hm
  exact Marks.of_mem_between (hmarks word _) h

section
variable {word : Span} (hword : P word)
include hword

omit hmarks in
/-- A match of a keyword alone. -/
theorem all_unmatched : BlockMatch.All P { keyword := some word } := by
  intro s hs
  obtain rfl := List.mem_singleton.1 hs
  exact hword

theorem all_matchDeclaration (counterparts : List String) (direction : Direction) :
    (d.matchDeclaration word counterparts direction).All P := by
  unfold matchDeclaration
  dsimp only
  split
  · exact all_unmatched hword
  · next s hs =>
    obtain ⟨c, -, hnearest⟩ := List.mem_filterMap.1 (Direction.mem_of_first? hs)
    intro t ht
    rcases List.mem_cons.1 ht with rfl | ht
    · exact hword
    · obtain rfl := List.mem_singleton.1 ht
      exact Marks.of_nearest? (hmarks _ _) hnearest

theorem all_matchFlow (block : FlowBlock) (direction : Direction) :
    (d.matchFlow word block direction).All P := by
  unfold matchFlow
  split
  · exact all_unmatched hword
  · next way hway =>
    intro s hs
    rcases List.mem_append.1 hs with hs | hs
    · rcases List.mem_cons.1 hs with rfl | hs
      · exact hword
      · exact of_mem_branchWords hmarks hs
    · obtain rfl := List.mem_singleton.1 hs
      exact of_blockWay? hmarks hway

theorem all_matchBranch : (d.matchBranch word).All P := by
  intro s hs
  rcases List.mem_append.1 hs with hs | hs
  · rcases List.mem_cons.1 hs with rfl | hs
    · exact hword
    · obtain ⟨way, -, hs⟩ := List.mem_flatMap.1 (Span.mem_sort.1 hs)
      exact of_mem_branchWords hmarks hs
  · obtain ⟨way, hway, rfl⟩ := List.mem_map.1 (Span.mem_sort.1 hs)
    rcases List.mem_append.1 hway with hway | hway
    · exact of_blockWay? hmarks (Option.mem_toList.1 hway)
    · exact of_blockWay? hmarks (Option.mem_toList.1 hway)

end

/-- The spans of a match are the word under the caret and marks. -/
theorem all_matchKeyword {caret : Nat}
    (hword : (d.wordAt caret).isEmpty = false → P (d.wordAt caret)) :
    (d.matchKeyword caret).All P := by
  have hnone := BlockMatch.all_empty P
  unfold matchKeyword
  dsimp only
  split
  · exact hnone
  · next hempty =>
    have hword := hword (Bool.eq_false_iff.2 hempty)
    split
    · exact hnone
    · split
      · exact hnone
      · split
        · exact all_matchDeclaration hmarks hword _ _
        · exact all_matchFlow hmarks hword _ _
        · exact all_matchBranch hmarks hword

end

/-- All spans of a match lie in the document. -/
theorem within_matchKeyword (d : Document) (caret : Nat) :
    (d.matchKeyword caret).Within d.size := by
  refine all_matchKeyword (P := Span.Within d.size) (fun _ _ => (d.marks _ _).within)
    fun hempty => ?_
  have hwithin := d.wordAt_within caret
  simp only [Span.isEmpty, decide_eq_false_iff_not] at hempty
  exact ⟨Nat.lt_of_not_le hempty, hwithin.2.2⟩

end Document

end Papyrus

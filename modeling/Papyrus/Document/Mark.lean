import Papyrus.Document.Search
/-!
# Marks of a word

The `Marks` of a word are its places in a document, in any letter case, each with a note whether the
word counts there: as a whole word, in the style that is asked for. They are taken once, and then
answer which of the words that count lie between two offsets (`between`) and which one is met first
on the way to an end of the document (`nearest?`).

Results:
* `mem_between`: what lies between two offsets is not empty.
* `nearest?_room`: past the nearest word less of the document lies ahead.
-/
namespace Papyrus

/-- A place of a word, and whether the word counts there. -/
structure Mark extends Span where
  counts : Bool
  deriving DecidableEq, Repr

/-- The places of a word in a document of the given size, from left to right. -/
structure Marks (size : Nat) where
  places : List Mark
  within : ∀ m ∈ places, m.start < m.stop ∧ m.stop ≤ size

namespace Marks

variable {size : Nat}

/-- The words that count from `lo` up to `hi`. A place that overlaps one before it is passed over,
whether the word counts there or not. -/
def between (m : Marks size) (lo hi : Nat) : List Span :=
  let disjoint := Span.disjoint (·.toSpan) lo (m.places.filter (·.stop ≤ hi))
  (disjoint.filter (·.counts)).map (·.toSpan)

/-- The first word that counts on the way from an offset to the end of the document. -/
def nearest? (m : Marks size) (direction : Direction) (offset : Nat) : Option Span :=
  match direction with
  | .forward => (m.between offset size).head?
  | .backward => (m.between 0 offset).getLast?

theorem mem_between {m : Marks size} {lo hi : Nat} {s : Span} (h : s ∈ m.between lo hi) :
    lo ≤ s.start ∧ s.start < s.stop ∧ s.stop ≤ hi ∧ s.stop ≤ size := by
  obtain ⟨a, ha, rfl⟩ := List.mem_map.1 h
  have hdis := (List.mem_filter.1 ha).1
  have hin {a : Mark} (ha : a ∈ m.places.filter (·.stop ≤ hi)) :
      a.start < a.stop ∧ a.stop ≤ hi ∧ a.stop ≤ size := by
    obtain ⟨hp, hhi⟩ := List.mem_filter.1 ha
    have := m.within a hp
    simp only [decide_eq_true_eq] at hhi; omega
  exact ⟨Span.le_start_of_mem_disjoint (fun a ha => Nat.le_of_lt (hin ha).1) hdis,
    hin ((Span.disjoint_sublist _ _ _).mem hdis)⟩

theorem nearest?_room {m : Marks size} {direction : Direction} {offset : Nat} {s : Span}
    (h : m.nearest? direction offset = some s) :
    direction.room size (direction.past s) < direction.room size offset := by
  cases direction with
  | forward =>
    have := mem_between (List.mem_of_head? h)
    simp only [Direction.room, Direction.past]; omega
  | backward =>
    have := mem_between (List.mem_of_getLast? h)
    simp only [Direction.room, Direction.past]; omega

end Marks

namespace Document

/-- The places of a word in any letter case. It counts where it is a whole word and has the given
style. -/
def marks (d : Document) (word : String) (style : Style) : Marks d.size where
  places :=
    if word.toList = [] then []
    else (d.places word.toList false).map fun o =>
      ⟨o.toSpan, d.isWholeWord o && d.styleAt o.start == style⟩
  within m h := by
    split at h
    · simp at h
    · next hw =>
      obtain ⟨o, ho, rfl⟩ := List.mem_map.1 h
      exact mem_places hw ho

end Document

end Papyrus

/-!
# Spans and directions

A `Span` is a half-open range of document offsets. `disjoint` reads spans from left to right and
passes over those that overlap one before them. A search runs forward or backward over a document;
`Direction` says what "before", "past" and "between" mean on the way.

Results:
* `Span.disjoint_pairwise`: what `disjoint` takes comes in order and does not overlap.
-/
namespace Papyrus

/-- The document offsets from `start` up to, but not including, `stop`. -/
structure Span where
  start : Nat
  stop : Nat
  deriving DecidableEq, Repr, Inhabited

namespace Span

/-- Whether the span covers the offset. -/
def contains (s : Span) (offset : Nat) : Bool := s.start ≤ offset && offset < s.stop

/-- The number of bytes covered. -/
def size (s : Span) : Nat := s.stop - s.start

def isEmpty (s : Span) : Bool := s.stop ≤ s.start

theorem isEmpty_iff_size {s : Span} : s.isEmpty = true ↔ s.size = 0 := by
  simp only [isEmpty, size, decide_eq_true_eq]; omega

/-- Document order, by start and then by end. -/
def le (a b : Span) : Bool := a.start < b.start || (a.start == b.start && a.stop ≤ b.stop)

theorem le_trans {a b c : Span} (h : a.le b = true) (h' : b.le c = true) : a.le c = true := by
  simp only [le, Bool.or_eq_true, Bool.and_eq_true, decide_eq_true_eq, beq_iff_eq] at *; omega

theorem le_total (a b : Span) : (a.le b || b.le a) = true := by
  simp only [le, Bool.or_eq_true, Bool.and_eq_true, decide_eq_true_eq, beq_iff_eq]; omega

/-! ## Spans that do not overlap -/

/-- Takes each of a list of spans that starts at `bound` or later and after the end of the one that
was taken before it. -/
def disjoint {α : Type} (span : α → Span) (bound : Nat) : List α → List α
  | [] => []
  | a :: l =>
    if bound ≤ (span a).start then a :: disjoint span (span a).stop l else disjoint span bound l

theorem disjoint_sublist {α : Type} (span : α → Span) (bound : Nat) (l : List α) :
    (disjoint span bound l).Sublist l := by
  induction l generalizing bound with
  | nil => exact .refl _
  | cons a l ih =>
    simp only [disjoint]
    split
    · exact (ih _).cons_cons a
    · exact (ih _).cons a

theorem le_start_of_mem_disjoint {α : Type} {span : α → Span} {bound : Nat} {l : List α}
    (hl : ∀ a ∈ l, (span a).start ≤ (span a).stop) {a : α} (h : a ∈ disjoint span bound l) :
    bound ≤ (span a).start := by
  induction l generalizing bound with
  | nil => simp [disjoint] at h
  | cons b l ih =>
    have hb := hl b List.mem_cons_self
    have ih {n : Nat} := @ih n fun a ha => hl a (List.mem_cons_of_mem b ha)
    simp only [disjoint] at h
    split at h
    · rcases List.mem_cons.1 h with rfl | h
      · assumption
      · have := ih h; omega
    · exact ih h

theorem disjoint_pairwise {α : Type} {span : α → Span} (bound : Nat) {l : List α}
    (hl : ∀ a ∈ l, (span a).start ≤ (span a).stop) :
    (disjoint span bound l).Pairwise fun a b => (span a).stop ≤ (span b).start := by
  induction l generalizing bound with
  | nil => exact .nil
  | cons b l ih =>
    have hl' : ∀ a ∈ l, (span a).start ≤ (span a).stop := fun a ha =>
      hl a (List.mem_cons_of_mem b ha)
    simp only [disjoint]
    split
    · exact List.pairwise_cons.2 ⟨fun a ha => le_start_of_mem_disjoint hl' ha, ih _ hl'⟩
    · exact ih _ hl'

end Span

/-- The way in which a document is searched. -/
inductive Direction where
  | forward
  | backward
  deriving DecidableEq, Repr, Inhabited

namespace Direction

/-- Whether `a` is met before `b`. -/
def precedes : Direction → Span → Span → Bool
  | forward, a, b => a.start < b.start
  | backward, a, b => b.start < a.start

/-- The offset at which a search goes on once it has met `hit`. -/
def past : Direction → Span → Nat
  | forward, hit => hit.stop
  | backward, hit => hit.start

/-- What lies between an offset and the span `limit` further on. -/
def between : Direction → Nat → Span → Span
  | forward, offset, limit => ⟨offset, max limit.start offset⟩
  | backward, offset, limit => ⟨min limit.stop offset, offset⟩

/-- How much of a document of the given size lies ahead of an offset. -/
def room : Direction → Nat → Nat → Nat
  | forward, size, offset => size - offset
  | backward, _, offset => offset

end Direction

end Papyrus

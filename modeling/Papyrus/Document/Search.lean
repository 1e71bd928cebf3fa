import Papyrus.Document.Word
import Papyrus.Unicode.CaseFold
/-!
# Searching a document

`places` are all places of a needle in a document, and `hits` those that a search between two
offsets finds. `searchTarget` is an editor's search: it looks between the offsets of the search
register, in their direction, and moves the register to what it finds.

Results:
* `mem_hits`: a hit lies between the offsets and is not empty.
-/
namespace Papyrus.Document

/-- The places where a needle is met, from left to right. -/
def places (d : Document) (needle : Text) (matchCase : Bool) : List Text.Occurrence :=
  Text.places (if matchCase then id else Unicode.foldCase) needle d.text

/-- Whether a character starts or the text ends at an offset. -/
def isBoundary (d : Document) (offset : Nat) : Bool := (d.text.around? offset).isSome

/-- The occurrences of a needle from `lo` up to `hi`, in order. An empty needle has none, and so has
a range that does not start and end between two characters. -/
def hits (d : Document) (needle : Text) (wholeWord matchCase : Bool) (lo hi : Nat) : List Span :=
  if needle.isEmpty || !d.isBoundary lo || !d.isBoundary (min hi d.size) then []
  else
    let inside := (d.places needle matchCase).filter (·.stop ≤ hi)
    let found := (Span.disjoint (·.toSpan) lo inside).filter fun o => !wholeWord || d.isWholeWord o
    found.map (·.toSpan)

/-- A place of a needle that is not empty is not empty and lies in the document. -/
theorem mem_places {d : Document} {needle : Text} {matchCase : Bool} {o : Text.Occurrence}
    (hn : needle ≠ []) (h : o ∈ d.places needle matchCase) :
    o.start < o.stop ∧ o.stop ≤ d.size := by
  have hmem := Text.mem_places h
  have := List.length_pos_iff.2 hn
  rw [size_text] at hmem
  omega

theorem mem_hits {d : Document} {needle : Text} {wholeWord matchCase : Bool} {lo hi : Nat}
    {s : Span} (h : s ∈ d.hits needle wholeWord matchCase lo hi) :
    lo ≤ s.start ∧ s.start < s.stop ∧ s.stop ≤ hi ∧ s.stop ≤ d.size := by
  unfold hits at h
  split at h
  · simp at h
  · next hn =>
    have hn : needle ≠ [] := by rintro rfl; simp at hn
    obtain ⟨o, ho, rfl⟩ := List.mem_map.1 h
    have hdis := (List.mem_filter.1 ho).1
    have hin {a : Text.Occurrence}
        (ha : a ∈ (d.places needle matchCase).filter (·.stop ≤ hi)) :
        a.start < a.stop ∧ a.stop ≤ hi ∧ a.stop ≤ d.size := by
      obtain ⟨hp, hhi⟩ := List.mem_filter.1 ha
      have := mem_places hn hp
      simp only [decide_eq_true_eq] at hhi; omega
    exact ⟨Span.le_start_of_mem_disjoint (fun a ha => Nat.le_of_lt (hin ha).1) hdis,
      hin ((Span.disjoint_sublist _ _ _).mem hdis)⟩

/-- Between boundaries, a search takes the places that come apart and keeps those that count. -/
theorem hits_of_isBoundary {d : Document} {needle : Text} {wholeWord matchCase : Bool} {lo hi : Nat}
    (hne : needle ≠ []) (hlo : d.isBoundary lo = true) (hhi : d.isBoundary (min hi d.size) = true) :
    d.hits needle wholeWord matchCase lo hi =
      ((Span.disjoint (·.toSpan) lo ((d.places needle matchCase).filter (·.stop ≤ hi))).filter
        fun o => !wholeWord || d.isWholeWord o).map (·.toSpan) := by
  have hempty : needle.isEmpty = false := List.isEmpty_eq_false_iff.2 hne
  rw [hits, if_neg (by rw [hempty, hlo, hhi]; decide)]

/-! ## The search register -/

/-- The next occurrence of a needle from the start of the register towards its end, to which the
register then moves. -/
def searchTarget (d : Document) (needle : Text) : Option Span × Document :=
  let r := d.search
  let hits := d.hits needle r.wholeWord r.matchCase (min r.start r.stop) (max r.start r.stop)
  let hit :=
    match r.direction with
    | .forward => hits.head?
    | .backward => hits.getLast?
  match hit with
  | none => (none, d)
  | some s => (some s, { d with search := { r with start := s.start, stop := s.stop } })

/-- Does something and puts the register back to what it was. -/
def keepingSearch {α : Type} (d : Document) (act : Document → α × Document) : α × Document :=
  let (a, d') := act d
  (a, { d' with search := d.search })

/-- The offset of the `nth` occurrence of a needle in its own letter case. -/
def find? (d : Document) (needle : Text) (nth : Nat) : Option Nat :=
  (Text.occurrences id needle d.text)[nth]?.map (·.start)

end Papyrus.Document

import Papyrus.Document.Basic
/-!
# Indicators

An indicator is a numbered way of painting spans. Filling adds a span to those of the indicator;
clearing takes the bytes of a range out of all of them.

Results:
* `indicatorSpans_setIndicator`: the spans of one indicator do not depend on the others.
-/
namespace Papyrus

/-- What is left of a span outside a range. -/
def Span.without (s : Span) (start stop : Nat) : List Span :=
  if s.stop ≤ start ∨ stop ≤ s.start then [s]
  else (if s.start < start then [⟨s.start, start⟩] else []) ++
    (if stop < s.stop then [⟨stop, s.stop⟩] else [])

namespace Document

/-- The spans that an indicator paints, in the order in which they were filled. -/
def indicatorSpans (d : Document) (id : UInt32) : List Span := (d.indicators.lookup id).getD []

/-- Replaces the spans of an indicator. -/
def setIndicator (d : Document) (id : UInt32) (spans : List Span) : Document :=
  { d with indicators := (id, spans) :: d.indicators.filter (·.1 != id) }

/-- Paints a range with an indicator. -/
def fillIndicator (d : Document) (id : UInt32) (start stop : Nat) : Document :=
  if start < stop then d.setIndicator id (d.indicatorSpans id ++ [⟨start, stop⟩]) else d

/-- Takes a range out of what an indicator paints. -/
def clearIndicator (d : Document) (id : UInt32) (start stop : Nat) : Document :=
  d.setIndicator id ((d.indicatorSpans id).flatMap (·.without start stop))

theorem indicatorSpans_setIndicator (d : Document) (id other : UInt32) (spans : List Span) :
    (d.setIndicator id spans).indicatorSpans other =
      if other = id then spans else d.indicatorSpans other := by
  by_cases h : other = id
  · simp [indicatorSpans, setIndicator, h]
  · have : (other == id) = false := by simpa using h
    simp [indicatorSpans, setIndicator, List.lookup_cons, this, h, lookup_filter_ne d.indicators h]

end Document

end Papyrus

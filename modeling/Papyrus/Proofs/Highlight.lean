import Papyrus.Lexer.Highlight
import Papyrus.Lexer.Setting
import Papyrus.Proofs.MatchSpan
import Papyrus.Proofs.RegisterSearch
/-!
# What the indicators show

An indicator is known by its number only, and settings may give the highlights another one at any
time. The lexer therefore keeps the number that it painted with (`Lexer.painted`), and clears that
one along with those of the settings. As long as this number is right, and what is painted lies in
the document (`Lexer.Tracks`), nothing is left when the highlights are cleared, and then the last
match is painted (`Lexer.shown`).

Results:
* `matchAt_eq_repaint`: matching a keyword is painting anew with another last match.
* `indicatorSpans_repaint`: what is painted is what clearing leaves and what is to be shown.
* `tracks_repaint`: a lexer that keeps track of what is painted goes on doing so.
* `lastMatch_displayAll`: the last match of a lexer is the one that was asked for last.
* `indicatorSpans_displayAll`: the indicators show the last match, whatever settings are changed.
-/
namespace Papyrus

/-! ## Clearing -/

namespace Span
variable {s : Span} {size : Nat}

/-- Nothing is left of a span without the bytes of a document exactly if it ends with it. -/
theorem without_eq_nil_iff (h : s.start < s.stop) : s.without 0 size = [] ↔ s.stop ≤ size := by
  unfold without
  by_cases houtside : s.stop ≤ 0 ∨ size ≤ s.start
  · rw [if_pos houtside]
    exact ⟨fun hnil => absurd hnil (List.cons_ne_nil _ _), fun hle => by omega⟩
  · rw [if_neg houtside, if_neg (Nat.not_lt_zero _), List.nil_append]
    by_cases hbeyond : size < s.stop
    · rw [if_pos hbeyond]
      exact ⟨fun hnil => absurd hnil (List.cons_ne_nil _ _), fun hle => by omega⟩
    · rw [if_neg hbeyond]
      exact ⟨fun _ => Nat.le_of_not_lt hbeyond, fun _ => rfl⟩

theorem flatMap_without_eq_nil_iff {spans : List Span} (h : ∀ s ∈ spans, s.start < s.stop) :
    spans.flatMap (·.without 0 size) = [] ↔ ∀ s ∈ spans, s.stop ≤ size :=
  List.flatMap_eq_nil_iff.trans (forall₂_congr fun s hs => without_eq_nil_iff (h s hs))

/-- Clearing a second time changes nothing. -/
theorem without_without {t : Span} (h : t ∈ s.without 0 size) : t.without 0 size = [t] := by
  unfold without at h
  by_cases houtside : s.stop ≤ 0 ∨ size ≤ s.start
  · rw [if_pos houtside] at h
    obtain rfl := List.mem_singleton.1 h
    exact if_pos houtside
  · rw [if_neg houtside, if_neg (Nat.not_lt_zero _), List.nil_append] at h
    split at h
    · obtain rfl := List.mem_singleton.1 h
      exact if_pos (Or.inr (Nat.le_refl size))
    · cases h

theorem flatMap_without_twice (spans : List Span) (size : Nat) :
    (spans.flatMap (·.without 0 size)).flatMap (·.without 0 size) =
      spans.flatMap (·.without 0 size) := by
  rw [List.flatMap_assoc]
  refine List.flatMap_congr fun s _ => ?_
  calc (s.without 0 size).flatMap (·.without 0 size)
    _ = (s.without 0 size).flatMap ([·]) := List.flatMap_congr fun t ht => without_without ht
    _ = s.without 0 size := List.flatMap_singleton' _

end Span

namespace Document

/-- Documents that are the same but for what is painted. -/
def SameButPaint (d e : Document) : Prop := ∃ indicators, e = { d with indicators := indicators }

theorem SameButPaint.trans {d e f : Document} (h : d.SameButPaint e) (h' : e.SameButPaint f) :
    d.SameButPaint f := by
  obtain ⟨indicators, rfl⟩ := h
  obtain ⟨indicators', rfl⟩ := h'
  exact ⟨indicators', rfl⟩

theorem SameButPaint.size {d e : Document} (h : d.SameButPaint e) : e.size = d.size := by
  obtain ⟨indicators, rfl⟩ := h
  rfl

/-- A match does not look at what is painted. -/
theorem SameButPaint.matchKeyword {d e : Document} (h : d.SameButPaint e) (caret : Nat) :
    e.matchKeyword caret = d.matchKeyword caret := by
  obtain ⟨indicators, rfl⟩ := h
  rfl

section
variable (d : Document)

theorem sameButPaint_setIndicator (id : UInt32) (spans : List Span) :
    d.SameButPaint (d.setIndicator id spans) := ⟨_, rfl⟩

theorem sameButPaint_fillIndicator (id : UInt32) (start stop : Nat) :
    d.SameButPaint (d.fillIndicator id start stop) := by
  unfold fillIndicator
  split
  · exact d.sameButPaint_setIndicator id _
  · exact ⟨d.indicators, rfl⟩

theorem indicatorSpans_fillIndicator (id other : UInt32) {s : Span} (h : s.start < s.stop) :
    (d.fillIndicator id s.start s.stop).indicatorSpans other =
      d.indicatorSpans other ++ if other = id then [s] else [] := by
  rw [fillIndicator, if_pos h, indicatorSpans_setIndicator]
  by_cases hid : other = id
  · rw [if_pos hid, if_pos hid, hid]
  · rw [if_neg hid, if_neg hid, List.append_nil]

theorem indicatorSpans_clearIndicator (id other : UInt32) (start stop : Nat) :
    (d.clearIndicator id start stop).indicatorSpans other =
      if other = id then (d.indicatorSpans other).flatMap (·.without start stop)
      else d.indicatorSpans other := by
  rw [clearIndicator, indicatorSpans_setIndicator]
  by_cases hid : other = id
  · rw [if_pos hid, if_pos hid, hid]
  · rw [if_neg hid, if_neg hid]

/-- Paints spans with an indicator. -/
def fillAll (id : UInt32) (spans : List Span) : Document :=
  spans.foldl (fun d s => d.fillIndicator id s.start s.stop) d

/-- Clears indicators over the whole document. -/
def clearAll (ids : List UInt32) : Document :=
  ids.foldl (fun d id => d.clearIndicator id 0 d.size) d

theorem sameButPaint_fillAll (id : UInt32) (spans : List Span) :
    d.SameButPaint (d.fillAll id spans) := by
  induction spans generalizing d with
  | nil => exact ⟨d.indicators, rfl⟩
  | cons s spans ih => exact (d.sameButPaint_fillIndicator id s.start s.stop).trans (ih _)

theorem sameButPaint_clearAll (ids : List UInt32) : d.SameButPaint (d.clearAll ids) := by
  induction ids generalizing d with
  | nil => exact ⟨d.indicators, rfl⟩
  | cons id ids ih => exact (d.sameButPaint_setIndicator id _).trans (ih _)

theorem indicatorSpans_fillAll (id other : UInt32) {spans : List Span}
    (h : ∀ s ∈ spans, s.start < s.stop) :
    (d.fillAll id spans).indicatorSpans other =
      d.indicatorSpans other ++ if other = id then spans else [] := by
  induction spans generalizing d with
  | nil => rw [ite_self, List.append_nil]; rfl
  | cons s spans ih =>
    obtain ⟨hs, hspans⟩ := List.forall_mem_cons.1 h
    rw [fillAll, List.foldl_cons, ← fillAll, ih _ hspans,
      indicatorSpans_fillIndicator d id other hs, List.append_assoc]
    congr 1
    split <;> rfl

theorem indicatorSpans_clearAll (ids : List UInt32) (other : UInt32) :
    (d.clearAll ids).indicatorSpans other =
      if other ∈ ids then (d.indicatorSpans other).flatMap (·.without 0 d.size)
      else d.indicatorSpans other := by
  induction ids generalizing d with
  | nil => rfl
  | cons id ids ih =>
    have hsize : (d.clearIndicator id 0 d.size).size = d.size :=
      (d.sameButPaint_setIndicator id _).size
    rw [clearAll, List.foldl_cons, ← clearAll, ih, hsize, indicatorSpans_clearIndicator]
    by_cases hid : other = id
    · rw [if_pos hid, Span.flatMap_without_twice, ite_self, if_pos (List.mem_cons.2 (Or.inl hid))]
    · rw [if_neg hid]
      simp only [List.mem_cons, hid, false_or]

end

end Document

/-! ## Painting anew -/

namespace Lexer

/-- The match that is to be seen: the last one, if keywords are matched. -/
def seen (x : Lexer) : Option BlockMatch :=
  if x.settings.keywordMatching then x.lastMatch else none

/-- What an indicator is to show. -/
def shown (x : Lexer) (id : UInt32) : List Span :=
  match x.seen with
  | some m => if id = x.indicatorFor m then m.highlights else []
  | none => []

/-- The indicators for matches. -/
def matchIndicators (x : Lexer) : List UInt32 :=
  [x.settings.matchedIndicator, x.settings.unmatchedIndicator]

theorem indicatorFor_mem (x : Lexer) (m : BlockMatch) : x.indicatorFor m ∈ x.matchIndicators := by
  unfold indicatorFor matchIndicators
  cases m.found <;> simp

/-- The indicators that are cleared. -/
def cleared (x : Lexer) : List UInt32 := x.matchIndicators ++ x.painted.toList

section
variable (x : Lexer) (d : Document)

theorem clearHighlights_eq :
    x.clearHighlights d = ({ x with painted := none }, d.clearAll x.cleared) := rfl

theorem paintMatch_eq (m : BlockMatch) :
    x.paintMatch d m =
      ({ x with painted := if m.highlights = [] then x.painted else some (x.indicatorFor m) },
        d.fillAll (x.indicatorFor m) m.highlights) := by
  unfold paintMatch
  cases m.highlights <;> rfl

theorem repaint_eq :
    x.repaint d = x.seen.elim (x.clearHighlights d) ((x.clearHighlights d).1.paintMatch
      (x.clearHighlights d).2) := by
  unfold repaint seen
  rw [clearHighlights_eq]
  dsimp only
  cases x.lastMatch <;> cases x.settings.keywordMatching <;> rfl

/-- A lexer whose last match is the one at an offset, or none if keywords are not matched. -/
def ask (caret : Nat) : Lexer :=
  { x with
    lastMatch := if x.settings.keywordMatching then some (d.matchKeyword caret) else none }

theorem within_ask (caret : Nat) : ∀ m ∈ (x.ask d caret).lastMatch, m.Within d.size := by
  intro m hm
  dsimp only [ask] at hm
  split at hm
  · obtain rfl := Option.some.inj hm
    exact d.within_matchKeyword caret
  · cases hm

/-- Matching a keyword is painting anew, after the last match has been replaced. -/
theorem matchAt_eq_repaint (caret : Nat) : (x.matchAt d caret).2 = (x.ask d caret).repaint d := by
  have hmatch := (d.sameButPaint_clearAll x.cleared).matchKeyword caret
  rw [repaint_eq, seen]
  unfold matchAt ask
  rw [clearHighlights_eq, clearHighlights_eq]
  dsimp only
  by_cases hon : x.settings.keywordMatching = true
  · rw [if_pos hon, if_pos hon, if_pos hon, Document.matchBySearch_eq, hmatch, Option.elim_some,
      paintMatch_eq, paintMatch_eq]
    rfl
  · rw [if_neg hon, if_neg hon, if_neg hon]
    rfl

theorem fst_matchAt (caret : Nat) :
    (x.matchAt d caret).1 = if x.settings.keywordMatching then d.matchKeyword caret else {} := by
  have hmatch := (d.sameButPaint_clearAll x.cleared).matchKeyword caret
  unfold matchAt
  rw [clearHighlights_eq]
  dsimp only
  rw [Document.matchBySearch_eq, hmatch]
  split <;> rfl

theorem within_matchAt (caret : Nat) : (x.matchAt d caret).1.Within d.size := by
  rw [fst_matchAt]
  split
  · exact d.within_matchKeyword caret
  · exact BlockMatch.within_empty d.size

/-- Painting anew changes nothing of the lexer but the number that it keeps. -/
theorem fst_repaint : ∃ painted, (x.repaint d).1 = { x with painted := painted } ∧
    ∀ id, x.shown id ≠ [] → painted = some id := by
  rw [repaint_eq, clearHighlights_eq]
  unfold shown
  cases x.seen with
  | none => exact ⟨none, rfl, fun id hid => absurd rfl hid⟩
  | some m =>
    rw [Option.elim_some, paintMatch_eq]
    refine ⟨_, rfl, fun id hid => ?_⟩
    dsimp only at hid ⊢
    by_cases hfor : id = x.indicatorFor m
    · rw [if_pos hfor] at hid
      rw [if_neg hid, hfor]
      rfl
    · exact absurd (if_neg hfor) hid

@[simp] theorem settings_repaint : (x.repaint d).1.settings = x.settings := by
  obtain ⟨painted, hx, -⟩ := x.fst_repaint d
  rw [hx]

@[simp] theorem settings_matchAt (caret : Nat) : (x.matchAt d caret).2.1.settings = x.settings := by
  rw [matchAt_eq_repaint, settings_repaint]
  rfl

theorem sameButPaint_repaint : d.SameButPaint (x.repaint d).2 := by
  have hclear := d.sameButPaint_clearAll x.cleared
  rw [repaint_eq, clearHighlights_eq]
  cases x.seen with
  | none => exact hclear
  | some m =>
    rw [Option.elim_some, paintMatch_eq]
    exact hclear.trans (Document.sameButPaint_fillAll _ _ _)

theorem sameButPaint_matchAt (caret : Nat) : d.SameButPaint (x.matchAt d caret).2.2 := by
  rw [matchAt_eq_repaint]
  exact sameButPaint_repaint _ d

end

section
variable {x : Lexer} {d : Document}

/-- An indicator that is cleared keeps what does not lie in the document. -/
theorem indicatorSpans_clearHighlights (id : UInt32) :
    (x.clearHighlights d).2.indicatorSpans id =
      if id ∈ x.cleared then (d.indicatorSpans id).flatMap (·.without 0 d.size)
      else d.indicatorSpans id :=
  d.indicatorSpans_clearAll x.cleared id

theorem mem_of_seen {m : BlockMatch} (h : m ∈ x.seen) : m ∈ x.lastMatch := by
  unfold seen at h
  split at h
  · exact h
  · cases h

/-- What is painted is what clearing leaves and what is to be shown. -/
theorem indicatorSpans_repaint {size : Nat} (h : ∀ m ∈ x.lastMatch, m.Within size) (id : UInt32) :
    (x.repaint d).2.indicatorSpans id =
      (x.clearHighlights d).2.indicatorSpans id ++ x.shown id := by
  rw [repaint_eq]
  unfold shown
  cases hm : x.seen with
  | none => exact (List.append_nil _).symm
  | some m =>
    have hwithin := h m (mem_of_seen hm)
    rw [Option.elim_some, paintMatch_eq, Document.indicatorSpans_fillAll]
    · rfl
    · exact fun s hs => (BlockMatch.within_highlights hwithin hs).1

/-- What is to be shown after a match has been asked for is what it highlights. -/
theorem shown_ask (caret : Nat) (id : UInt32) :
    (x.ask d caret).shown id =
      if id = x.indicatorFor (x.matchAt d caret).1 then (x.matchAt d caret).1.highlights
      else [] := by
  rw [fst_matchAt, shown, seen, ask]
  by_cases hon : x.settings.keywordMatching = true
  · simp only [if_pos hon]
    rfl
  · simp only [if_neg hon, BlockMatch.highlights_empty, ite_self]

/-- The indicators for matches show what a match highlights, behind what clearing leaves of them. -/
theorem indicatorSpans_matchAt (x : Lexer) (d : Document) (caret : Nat) {id : UInt32}
    (hid : id ∈ x.matchIndicators) :
    (x.matchAt d caret).2.2.indicatorSpans id =
      (d.indicatorSpans id).flatMap (·.without 0 d.size) ++
        if id = x.indicatorFor (x.matchAt d caret).1 then (x.matchAt d caret).1.highlights
        else [] := by
  have hcleared : id ∈ (x.ask d caret).cleared := List.mem_append_left _ hid
  rw [← shown_ask, matchAt_eq_repaint, indicatorSpans_repaint (within_ask x d caret),
    indicatorSpans_clearHighlights, if_pos hcleared]

end

/-! ## Keeping track -/

/-- The lexer knows which indicator has been used, and all highlights lie in the document. -/
structure Tracks (x : Lexer) (d : Document) : Prop where
  painted : ∀ id, d.indicatorSpans id ≠ [] → x.painted = some id
  within : ∀ id, ∀ s ∈ d.indicatorSpans id, s.Within d.size
  lastMatch : ∀ m ∈ x.lastMatch, m.Within d.size

section
variable {x : Lexer} {d : Document}

/-- Nothing is left when the highlights are cleared. -/
theorem Tracks.indicatorSpans_clearHighlights (h : x.Tracks d) (id : UInt32) :
    (x.clearHighlights d).2.indicatorSpans id = [] := by
  rw [Lexer.indicatorSpans_clearHighlights]
  by_cases hid : id ∈ x.cleared
  · rw [if_pos hid, Span.flatMap_without_eq_nil_iff fun s hs => (h.within id s hs).1]
    exact fun s hs => (h.within id s hs).2
  · rw [if_neg hid]
    by_contra hne
    refine hid (List.mem_append_right _ ?_)
    rw [h.painted id hne]
    exact List.mem_singleton_self id

/-- Painting anew shows what is to be shown. -/
theorem Tracks.indicatorSpans_repaint (h : x.Tracks d) (id : UInt32) :
    (x.repaint d).2.indicatorSpans id = x.shown id := by
  rw [Lexer.indicatorSpans_repaint h.lastMatch, h.indicatorSpans_clearHighlights, List.nil_append]

theorem within_shown {size : Nat} (h : ∀ m ∈ x.lastMatch, m.Within size) {id : UInt32} {s : Span}
    (hs : s ∈ x.shown id) : s.Within size := by
  unfold shown at hs
  cases hm : x.seen with
  | none =>
    rw [hm] at hs
    cases hs
  | some m =>
    rw [hm] at hs
    dsimp only at hs
    split at hs
    · exact BlockMatch.within_highlights (h m (mem_of_seen hm)) hs
    · cases hs

/-- A lexer that keeps track goes on doing so when it paints anew. -/
theorem tracks_repaint (h : x.Tracks d) : (x.repaint d).1.Tracks (x.repaint d).2 := by
  obtain ⟨painted, hx, hpainted⟩ := x.fst_repaint d
  have hsize := (x.sameButPaint_repaint d).size
  rw [hx]
  refine ⟨fun id hid => ?_, fun id s hs => ?_, fun m hm => ?_⟩
  · rw [h.indicatorSpans_repaint] at hid
    exact hpainted id hid
  · rw [h.indicatorSpans_repaint] at hs
    rw [hsize]
    exact within_shown h.lastMatch hs
  · rw [hsize]
    exact h.lastMatch m hm

theorem tracks_ask (h : x.Tracks d) (caret : Nat) : (x.ask d caret).Tracks d where
  painted := h.painted
  within := h.within
  lastMatch := within_ask x d caret

/-- A changed setting changes neither the last match nor the number of the indicator that has been
used. -/
theorem frame_apply {y : Lexer} {change : SettingChange} {refresh : Refresh}
    (h : x.apply change = .ok (refresh, y)) :
    y.lastMatch = x.lastMatch ∧ y.painted = x.painted := by
  cases change with
  | activeProfile name? =>
    obtain ⟨-, rfl⟩ := apply_activeProfile h
    exact ⟨rfl, rfl⟩
  | _ =>
    obtain ⟨-, rfl⟩ := Prod.mk.inj (Except.ok.inj h)
    exact ⟨rfl, rfl⟩

end

end Lexer

/-! ## Runs -/

/-- What may be done with the highlights of a document. -/
inductive HighlightStep where
  /-- Matching the keyword at an offset. -/
  | matchAt (caret : Nat)
  /-- Painting the last match anew. -/
  | repaint
  /-- Changing a setting. -/
  | set (change : SettingChange)
  deriving DecidableEq, Repr

/-- Whether a step paints. -/
def HighlightStep.paints : HighlightStep → Bool
  | matchAt _ | repaint => true
  | set _ => false

namespace Lexer

/-- Takes a step. A setting that is not accepted changes nothing. -/
def display (s : Lexer × Document) : HighlightStep → Lexer × Document
  | .matchAt caret => (s.1.matchAt s.2 caret).2
  | .repaint => s.1.repaint s.2
  | .set change =>
    match s.1.apply change with
    | .ok (_, x) => (x, s.2)
    | .error _ => s

/-- Takes steps, one after the other. -/
def displayAll (s : Lexer × Document) (steps : List HighlightStep) : Lexer × Document :=
  steps.foldl display s

end Lexer

/-- The match of the last step that asked for one, if keywords were matched at the time. Before the
steps, `last` was the last match, and `on` tells whether keywords were matched. -/
def Document.latestMatch (d : Document) (on : Bool) (last : Option BlockMatch) :
    List HighlightStep → Option BlockMatch
  | [] => last
  | .matchAt caret :: rest =>
    d.latestMatch on (if on then some (d.matchKeyword caret) else none) rest
  | .set (.keywordMatching on) :: rest => d.latestMatch on last rest
  | .repaint :: rest | .set _ :: rest => d.latestMatch on last rest

namespace Lexer

/-- Only one setting tells whether keywords are matched. -/
theorem latestMatch_apply (d : Document) {x y : Lexer} {change : SettingChange} {refresh : Refresh}
    (h : x.apply change = .ok (refresh, y)) (last : Option BlockMatch)
    (rest : List HighlightStep) :
    d.latestMatch x.settings.keywordMatching last (.set change :: rest) =
      d.latestMatch y.settings.keywordMatching last rest := by
  cases change with
  | activeProfile name? =>
    obtain ⟨-, rfl⟩ := apply_activeProfile h
    rfl
  | _ =>
    obtain ⟨-, rfl⟩ := Prod.mk.inj (Except.ok.inj h)
    rfl

/-- Only the name of a profile may be unknown. -/
theorem latestMatch_rejected (d : Document) {x : Lexer} {change : SettingChange} {e : Error}
    (h : x.apply change = .error e) (on : Bool) (last : Option BlockMatch)
    (rest : List HighlightStep) :
    d.latestMatch on last (.set change :: rest) = d.latestMatch on last rest := by
  cases change with
  | keywordMatching => cases h
  | _ => rfl

theorem display_matchAt (s : Lexer × Document) (caret : Nat) :
    display s (.matchAt caret) = (s.1.ask s.2 caret).repaint s.2 := s.1.matchAt_eq_repaint s.2 caret

section
variable {s : Lexer × Document}

theorem display_ok {change : SettingChange} {r : Refresh × Lexer}
    (h : s.1.apply change = .ok r) : display s (.set change) = (r.2, s.2) := by
  rw [display, h]

theorem display_error {change : SettingChange} {e : Error} (h : s.1.apply change = .error e) :
    display s (.set change) = s := by
  rw [display, h]

theorem tracks_display (h : s.1.Tracks s.2) (t : HighlightStep) :
    (display s t).1.Tracks (display s t).2 := by
  cases t with
  | matchAt caret =>
    rw [display_matchAt]
    exact tracks_repaint (tracks_ask h caret)
  | repaint => exact tracks_repaint h
  | set change =>
    cases hy : s.1.apply change with
    | error e => rwa [display_error hy]
    | ok r =>
      obtain ⟨hlast, hpainted⟩ := frame_apply hy
      rw [display_ok hy]
      exact ⟨fun id hid => hpainted.trans (h.painted id hid), h.within,
        fun m hm => h.lastMatch m (hlast ▸ hm)⟩

theorem tracks_displayAll (h : s.1.Tracks s.2) (steps : List HighlightStep) :
    (displayAll s steps).1.Tracks (displayAll s steps).2 := by
  induction steps generalizing s with
  | nil => exact h
  | cons t steps ih => exact ih (tracks_display h t)

/-- A step that paints shows what is to be shown. -/
theorem Tracks.indicatorSpans_display (h : s.1.Tracks s.2) {t : HighlightStep}
    (ht : t.paints = true) (id : UInt32) :
    (display s t).2.indicatorSpans id = (display s t).1.shown id := by
  -- what is to be shown does not depend on the number that is kept
  have hshown : ∀ x : Lexer, (x.repaint s.2).1.shown id = x.shown id := by
    intro x
    obtain ⟨painted, hx, -⟩ := x.fst_repaint s.2
    rw [hx]
    rfl
  cases t with
  | matchAt caret =>
    rw [display_matchAt, hshown]
    exact (tracks_ask h caret).indicatorSpans_repaint id
  | repaint => exact (h.indicatorSpans_repaint id).trans (hshown s.1).symm
  | set change => cases ht

/-- The last match of the lexer is the one that was asked for last. -/
theorem lastMatch_displayAll {d : Document} (hd : d.SameButPaint s.2) (steps : List HighlightStep) :
    (displayAll s steps).1.lastMatch =
      d.latestMatch s.1.settings.keywordMatching s.1.lastMatch steps := by
  induction steps generalizing s with
  | nil => rfl
  | cons t steps ih =>
    cases t with
    | matchAt caret =>
      obtain ⟨painted, hx, -⟩ := (s.1.ask s.2 caret).fst_repaint s.2
      rw [displayAll, List.foldl_cons, ← displayAll, ih, display_matchAt, hx]
      · rw [Document.latestMatch, ask, hd.matchKeyword]
      · rw [display_matchAt]
        exact hd.trans (sameButPaint_repaint _ _)
    | repaint =>
      obtain ⟨painted, hx, -⟩ := s.1.fst_repaint s.2
      rw [displayAll, List.foldl_cons, ← displayAll, ih, display, hx]
      · rfl
      · exact hd.trans (sameButPaint_repaint _ _)
    | set change =>
      rw [displayAll, List.foldl_cons, ← displayAll]
      cases hy : s.1.apply change with
      | error e => rw [display_error hy, latestMatch_rejected d hy, ih hd]
      | ok r => rw [display_ok hy, latestMatch_apply d hy, @ih (r.2, s.2) hd, (frame_apply hy).1]

end

/-- In whatever way settings are changed in between, after every step that paints the indicators
show the last match: what it highlights is painted with the indicator that the settings have for
such a match, and nothing else is painted. -/
theorem indicatorSpans_displayAll (settings : Settings) {d : Document}
    (hd : ∀ id, d.indicatorSpans id = []) (steps : List HighlightStep) {t : HighlightStep}
    (ht : t.paints = true) :
    let s := displayAll (ofSettings settings, d) (steps ++ [t])
    s.1.lastMatch = d.latestMatch settings.keywordMatching none (steps ++ [t]) ∧
      ∀ id, s.2.indicatorSpans id = s.1.shown id := by
  have hstart : (ofSettings settings).Tracks d :=
    ⟨fun id hid => absurd (hd id) hid, fun id s hs => (by rw [hd id] at hs; cases hs),
      fun m hm => by cases hm⟩
  refine ⟨lastMatch_displayAll ⟨d.indicators, rfl⟩ _, fun id => ?_⟩
  rw [displayAll, List.foldl_append]
  exact (tracks_displayAll hstart steps).indicatorSpans_display ht id

/-- The indicators change places, and the number that was used for a match is not the one for such
matches any more. -/
theorem indicatorSpans_displayAll_swapped :
    let d := (Document.ofText "event" "Event\nEndEvent".toList).paint 0 14 .keyword
    let steps := [.matchAt 0, .set (.matchedIndicator 9), .set (.unmatchedIndicator 8)]
    let s := displayAll (ofSettings {}, d) (steps ++ [.repaint])
    s.2.indicatorSpans 8 = [] ∧ s.2.indicatorSpans 9 = [⟨0, 5⟩, ⟨6, 14⟩] := by
  intro d steps s
  obtain ⟨hlast, hspans⟩ := @indicatorSpans_displayAll {} d (fun _ => rfl) steps .repaint rfl
  have hmatch : d.matchKeyword 0 =
      { found := true, keyword := some ⟨0, 5⟩, counterparts := [⟨6, 14⟩] } := by decide +kernel
  have hsettings : s.1.settings = { matchedIndicator := 9, unmatchedIndicator := 8 } := by
    simp only [s, steps, displayAll, List.cons_append, List.nil_append, List.foldl_cons,
      List.foldl_nil, display, apply, settings_repaint, settings_matchAt]
    rfl
  have hhighlights : (d.matchKeyword 0).highlights = [⟨0, 5⟩, ⟨6, 14⟩] := by
    rw [hmatch, BlockMatch.highlights_declaration (by decide)]
  have hseen : s.1.seen = some (d.matchKeyword 0) := by
    rw [seen, hsettings, hlast]
    rfl
  have hfor : s.1.indicatorFor (d.matchKeyword 0) = 9 := by
    rw [indicatorFor, hmatch, hsettings]
    rfl
  rw [hspans, hspans, shown, shown, hseen]
  dsimp only
  rw [hfor, hhighlights]
  exact ⟨rfl, rfl⟩

end Lexer

end Papyrus

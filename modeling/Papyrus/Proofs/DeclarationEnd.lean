import Papyrus.Proofs.CodeMatch
import Papyrus.Proofs.MatchSpan
import Papyrus.Proofs.NearestHit
/-!
# The end of a declaration

Declarations do not nest: from the word at one end, the other end is the nearest of the words that
may stand there. Each of these words is searched for on its own, past all its places that have
another style, and of what the searches find the nearest is taken. It is the nearest of all keywords
that may stand at the other end, whichever word they are.

Results:
* `Direction.first?_eq_some`: the best of some spans is one that no other precedes.
* `exists_matchDeclaration`: a declaration is matched with its nearest counterpart.
* `exists_matchKeyword_declaration`: so is the declaration whose word is under the caret.
-/
namespace Papyrus

/-! ## The best of some spans -/

namespace Direction

variable {direction : Direction} {a b c : Span}

theorem precedes_irrefl : direction.precedes a a = false := by
  cases direction <;> exact decide_eq_false (Nat.lt_irrefl _)

theorem not_precedes_trans (hba : direction.precedes b a = false)
    (hcb : direction.precedes c b = false) : direction.precedes c a = false := by
  cases direction <;> simp only [precedes, decide_eq_false_iff_not] at * <;> omega

/-- Of two spans that start at different offsets, one precedes the other. -/
theorem start_eq_or_precedes (h : direction.precedes b a = false) :
    a.start = b.start ∨ direction.precedes a b = true := by
  cases direction <;>
    simp only [precedes, decide_eq_false_iff_not, decide_eq_true_eq] at * <;> omega

/-- What is kept of some spans that are met in turn is preceded by none of them. -/
theorem foldl_not_precedes {rest : List Span} {best s : Span}
    (h : rest.foldl (fun best t => if direction.precedes t best then t else best) best = s) :
    ∀ t ∈ best :: rest, direction.precedes t s = false := by
  induction rest generalizing best with
  | nil =>
    obtain rfl : best = s := h
    intro t ht
    obtain rfl := List.mem_singleton.1 ht
    exact precedes_irrefl
  | cons a rest ih =>
    rw [List.foldl_cons] at h
    have hkept := ih h
    have hbetter := hkept _ List.mem_cons_self
    -- the one of the two that is not kept is preceded by the other one
    have hboth : direction.precedes best s = false ∧ direction.precedes a s = false := by
      cases ha : direction.precedes a best with
      | true =>
        rw [if_pos ha] at hbetter
        exact ⟨not_precedes_trans hbetter (precedes_asymm ha), hbetter⟩
      | false =>
        rw [if_neg (Bool.eq_false_iff.1 ha)] at hbetter
        exact ⟨hbetter, not_precedes_trans hbetter ha⟩
    intro t ht
    rcases List.mem_cons.1 ht with rfl | ht
    · exact hboth.1
    rcases List.mem_cons.1 ht with rfl | ht
    · exact hboth.2
    · exact hkept t (List.mem_cons_of_mem _ ht)

/-- The best of some spans is one of them, and none of them precedes it. -/
theorem first?_eq_some {l : List Span} {s : Span} (h : direction.first? l = some s) :
    s ∈ l ∧ ∀ t ∈ l, direction.precedes t s = false := by
  refine ⟨mem_of_first? h, ?_⟩
  cases l with
  | nil => cases h
  | cons a l => exact foldl_not_precedes (Option.some.inj h)

theorem first?_eq_none {l : List Span} (h : direction.first? l = none) : l = [] := by
  cases l with
  | nil => rfl
  | cons a l => cases h

end Direction

/-! ## The words of declarations -/

namespace DeclarationBlock

/-- The words at the end where a search in the given direction starts. -/
def near (b : DeclarationBlock) : Direction → List String
  | .forward => b.openers
  | .backward => b.closers

/-- The words at the other end. -/
def far (b : DeclarationBlock) : Direction → List String
  | .forward => b.closers
  | .backward => b.openers

variable {b : DeclarationBlock} (hb : b ∈ all) (direction : Direction)
include hb

theorem plain_far {word : String} (hword : word ∈ b.far direction) : Plain word := by
  refine plain_words hb ?_
  cases direction with
  | forward => exact List.mem_append_right _ hword
  | backward => exact List.mem_append_left _ hword

/-- A declaration seen from one of its ends has the words of the other one as counterparts. -/
theorem ofWord?_near {word : String} (hword : word ∈ b.near direction) :
    Construct.ofWord? word = some (.declaration (b.far direction) direction) := by
  have hforward : ∀ b ∈ all, ∀ word ∈ b.openers,
      Construct.ofWord? word = some (.declaration b.closers .forward) := by decide +kernel
  have hbackward : ∀ b ∈ all, ∀ word ∈ b.closers,
      Construct.ofWord? word = some (.declaration b.openers .backward) := by decide +kernel
  cases direction with
  | forward => exact hforward b hb word hword
  | backward => exact hbackward b hb word hword

end DeclarationBlock

namespace Document

variable {d : Document} {words : List String} {direction : Direction} {offset : Nat}

/-! ## The nearest counterpart -/

/-- What a declaration may end at: a part of the text ahead of an offset that is one of the words but
for case, has no word character directly before or after it, and has the style of keywords. -/
def IsCounterpart (d : Document) (words : List String) (direction : Direction) (offset : Nat)
    (s : Span) : Prop :=
  direction.isAhead offset s = true ∧ d.styleAt s.start = .keyword ∧
    ∃ word ∈ words, ∃ pre mid post, d.text = pre ++ mid ++ post ∧
      s = ⟨pre.size, pre.size + mid.size⟩ ∧
      mid.map Unicode.foldCase = word.toList.map Unicode.foldCase ∧
      pre.getLast?.any d.isWordChar = false ∧ post.head?.any d.isWordChar = false

/-- What a declaration should end at: the counterpart that precedes all others, or nothing if there
is none. -/
def IsNearestCounterpart (d : Document) (words : List String) (direction : Direction)
    (offset : Nat) : Option Span → Prop
  | none => ∀ s, ¬ d.IsCounterpart words direction offset s
  | some s => d.IsCounterpart words direction offset s ∧
      ∀ t, d.IsCounterpart words direction offset t → t ≠ s → direction.precedes s t = true

/-- The counterparts are the keywords ahead. -/
theorem isCounterpart_iff (hsolid : ∀ word ∈ words, d.Solid word) {s : Span} :
    d.IsCounterpart words direction offset s ↔
      ∃ word ∈ words, s ∈ (d.keywords word .keyword).filter (direction.isAhead offset) := by
  constructor
  · rintro ⟨hahead, hstyle, word, hword, pre, mid, post, htext, hs, hkeys, hbefore, hafter⟩
    have hkeyword := (mem_keywords_iff_isStyledWord (hsolid word hword).1).2
      ⟨pre, mid, post, htext, hs, hkeys, hbefore, hafter, hstyle⟩
    exact ⟨word, hword, List.mem_filter.2 ⟨hkeyword, hahead⟩⟩
  · rintro ⟨word, hword, hs⟩
    obtain ⟨hkeyword, hahead⟩ := List.mem_filter.1 hs
    obtain ⟨pre, mid, post, htext, hs, hkeys, hbefore, hafter, hstyle⟩ :=
      (mem_keywords_iff_isStyledWord (hsolid word hword).1).1 hkeyword
    exact ⟨hahead, hstyle, word, hword, pre, mid, post, htext, hs, hkeys, hbefore, hafter⟩

/-- The nearest of what the searches for the single words find is the nearest counterpart. -/
theorem isNearestCounterpart_first? (hsolid : ∀ word ∈ words, d.Solid word) :
    d.IsNearestCounterpart words direction offset
      (direction.first? (words.filterMap fun word =>
        (d.marks word .keyword).nearest? direction offset)) := by
  have hnearest : ∀ word ∈ words, (d.marks word .keyword).nearest? direction offset =
      (direction.read ((d.keywords word .keyword).filter (direction.isAhead offset))).head? :=
    fun word hword => nearest?_marks_of_solid (hsolid word hword) .keyword direction offset
  have hsorted : ∀ word, ((d.keywords word .keyword).filter (direction.isAhead offset)).Pairwise
      fun a b => a.start < b.start :=
    fun word => (keywords_pairwise d word .keyword).sublist List.filter_sublist
  cases hfirst : direction.first? (words.filterMap fun word =>
      (d.marks word .keyword).nearest? direction offset) with
  | none =>
    intro s hs
    obtain ⟨word, hword, hmem⟩ := (isCounterpart_iff hsolid).1 hs
    have hnone := List.filterMap_eq_nil_iff.1 (Direction.first?_eq_none hfirst) word hword
    rw [hnearest word hword, List.head?_eq_none_iff] at hnone
    rw [← @Direction.mem_read _ direction, hnone] at hmem
    cases hmem
  | some s =>
    obtain ⟨hs, hleast⟩ := Direction.first?_eq_some hfirst
    obtain ⟨word, hword, hfound⟩ := List.mem_filterMap.1 hs
    rw [hnearest word hword] at hfound
    obtain ⟨hmem, -⟩ := (Direction.head?_read_eq_some_iff (hsorted word)).1 hfound
    refine ⟨(isCounterpart_iff hsolid).2 ⟨word, hword, hmem⟩, fun t ht hne => ?_⟩
    obtain ⟨other, hother, hmem'⟩ := (isCounterpart_iff hsolid).1 ht
    -- the search for the other word finds something that `t` does not precede
    have hnotPrecedes : direction.precedes t s = false := by
      cases hfound' : (d.marks other .keyword).nearest? direction offset with
      | none =>
        rw [hnearest other hother, List.head?_eq_none_iff] at hfound'
        rw [← @Direction.mem_read _ direction, hfound'] at hmem'
        cases hmem'
      | some u =>
        have hu := hleast u (List.mem_filterMap.2 ⟨other, hother, hfound'⟩)
        rw [hnearest other hother] at hfound'
        exact Direction.not_precedes_trans hu
          (((Direction.head?_read_eq_some_iff (hsorted other)).1 hfound').2 t hmem')
    rcases Direction.start_eq_or_precedes hnotPrecedes with heq | hprecedes
    · exact absurd (keywords_inj (hsolid other hother) (hsolid word hword)
        (List.mem_filter.1 hmem').1 (List.mem_filter.1 hmem).1 heq.symm).1 hne
    · exact hprecedes

/-! ## Matching -/

/-- A declaration is matched with its nearest counterpart and has no auxiliary words. -/
theorem exists_matchDeclaration (hsolid : ∀ word ∈ words, d.Solid word) (word : Span) :
    ∃ nearest, d.IsNearestCounterpart words direction (direction.past word) nearest ∧
      d.matchDeclaration word words direction =
        { found := nearest.isSome
          keyword := some word
          counterparts := nearest.toList } := by
  refine ⟨_, isNearestCounterpart_first? hsolid, ?_⟩
  rw [matchDeclaration]
  cases direction.first? (words.filterMap fun c =>
    (d.marks c .keyword).nearest? direction (direction.past word)) <;> rfl

/-- Under a caret on a keyword at one end of a declaration, the match has the nearest keyword that
may stand at the other end, beyond the word under the caret and in the direction of that end. It has
no auxiliary words, and without such a keyword it has no counterpart and is not found. -/
theorem exists_matchKeyword_declaration (hchars : d.wordChars = standardWordChars)
    {b : DeclarationBlock} (hb : b ∈ DeclarationBlock.all) {caret : Nat}
    (hword : d.wordName caret ∈ b.near direction)
    (hstyle : d.styleAt (d.wordAt caret).start = .keyword) :
    ∃ nearest, d.IsNearestCounterpart (b.far direction) direction
        (direction.past (d.wordAt caret)) nearest ∧
      d.matchKeyword caret =
        { found := nearest.isSome
          keyword := some (d.wordAt caret)
          counterparts := nearest.toList } := by
  have hsolid : ∀ word ∈ b.far direction, d.Solid word := fun word hfar =>
    (DeclarationBlock.plain_far hb direction hfar).solid hchars
  rw [matchKeyword_of_ofWord? (DeclarationBlock.ofWord?_near hb direction hword), Construct.style,
    if_pos hstyle]
  exact exists_matchDeclaration hsolid (d.wordAt caret)

/-- The nearest end of the function is `NATIVE`: an end in a comment is passed over, that of a state
is none of its own, and `EndFunction` lies behind it. -/
theorem isNearestCounterpart_native :
    let d := ((ofText "ends" "Function\n;Native\nEndState NATIVE EndFunction".toList).paint 0 99
      .keyword).paint 9 16 .comment
    d.IsNearestCounterpart ["endfunction", "native"] .forward 8 (some ⟨26, 32⟩) := by
  intro d
  have hmatch : (d.matchKeyword 3).counterparts = [⟨26, 32⟩] := by decide +kernel
  obtain ⟨nearest, hnearest, hsame⟩ := @exists_matchKeyword_declaration d .forward rfl
    ⟨["function"], ["endfunction", "native"]⟩ (by decide) 3 (by decide +kernel) (by decide +kernel)
  have hword : d.wordAt 3 = ⟨0, 8⟩ := by decide +kernel
  rw [hsame] at hmatch
  rw [hword] at hnearest
  obtain rfl : nearest = some ⟨26, 32⟩ := Option.toList_eq_singleton_iff.1 hmatch
  exact hnearest

end Document

end Papyrus

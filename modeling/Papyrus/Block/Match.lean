import Papyrus.Block.Keyword
import Papyrus.Document.Mark
import Papyrus.ScriptClass
/-!
# Matching block keywords

`Document.matchKeyword` finds the keyword at the other end of the block whose keyword is under the
caret. A keyword counts only where it has the style of code, so that words in comments and strings
are passed over. A declaration ends at the nearest counterpart. In a flow block, blocks of the same
kind that are met on the way are passed over as a whole; if one of them does not end, neither does
the block around it.

Results:
* `highlights_sorted`: highlights are in document order.
-/
namespace Papyrus

/-- What is known of the block of a keyword. -/
structure BlockMatch where
  /-- Whether all counterparts were found. -/
  found : Bool := false
  /-- The block keyword under the caret, if there is one. -/
  keyword : Option Span := none
  /-- The keywords at the other ends; a branch word has two. -/
  counterparts : List Span := []
  /-- The branch words of the block, in document order. -/
  auxiliary : List Span := []
  deriving DecidableEq, Repr, Inhabited

namespace BlockMatch

/-- The first counterpart. -/
def range? (m : BlockMatch) : Option Span := m.counterparts.head?

/-- The spans to be highlighted, each once: the keyword, the branch words and, if they were found,
the counterparts. -/
def highlights (m : BlockMatch) : List Span :=
  ((m.keyword.toList ++ m.auxiliary ++ if m.found then m.counterparts else []).mergeSort
    Span.le).eraseReps

/-- Leaving out repetitions keeps the order of what is left. -/
theorem eraseRepsLoop_sublist (r : Span → Span → Bool) (a : Span) (l acc : List Span) :
    ∃ t, t.Sublist (a :: l) ∧ List.eraseRepsBy.loop r a l acc = acc.reverse ++ t := by
  induction l generalizing a acc with
  | nil => exact ⟨[a], .refl _, by simp [List.eraseRepsBy.loop]⟩
  | cons b l ih =>
    rw [List.eraseRepsBy.loop]
    split
    · obtain ⟨t, ht, e⟩ := ih a acc
      exact ⟨t, ht.trans (.cons_cons a (.cons b (.refl l))), e⟩
    · obtain ⟨t, ht, e⟩ := ih b (a :: acc)
      exact ⟨a :: t, .cons_cons a ht, by simp [e]⟩

theorem eraseReps_sublist (l : List Span) : l.eraseReps.Sublist l := by
  cases l with
  | nil => exact .refl _
  | cons a l =>
    obtain ⟨t, ht, e⟩ := eraseRepsLoop_sublist (· == ·) a l []
    simpa [List.eraseReps, List.eraseRepsBy, e] using ht

theorem highlights_sorted (m : BlockMatch) : m.highlights.Pairwise (Span.le · ·) :=
  (@List.pairwise_mergeSort _ Span.le (fun _ _ _ => Span.le_trans) Span.le_total _).sublist
    (eraseReps_sublist _)

end BlockMatch

/-- Sorts spans by their starts. -/
def Span.sort (l : List Span) : List Span := l.mergeSort fun a b => a.start ≤ b.start

theorem Span.sort_pairwise (l : List Span) : (sort l).Pairwise fun a b => a.start ≤ b.start :=
  (List.pairwise_mergeSort (fun a b c hab hbc => by simp only [decide_eq_true_eq] at *; omega)
    (fun a b => by simp only [Bool.or_eq_true, decide_eq_true_eq]; omega) l).imp of_decide_eq_true

/-- The span that is met first in a direction. -/
def Direction.first? (direction : Direction) : List Span → Option Span
  | [] => none
  | s :: rest => some (rest.foldl (fun best t => if direction.precedes t best then t else best) s)

/-! ## Flow blocks -/

/-- The way from one end of a flow block to the other. -/
structure BlockWay where
  /-- The keyword at the other end. -/
  last : Span
  /-- What lies on the way outside nested blocks. -/
  gaps : List Span
  deriving DecidableEq, Repr

/-- The way from an offset in a flow block to the end of the block, along the marks of its keywords:
`near` are those of the one behind, `far` those of the one ahead. The way leaves less of the
document ahead than there was at the offset. -/
def BlockWay.find? {size : Nat} (near far : Marks size) (direction : Direction) (offset : Nat) :
    Option { way : BlockWay //
      direction.room size (direction.past way.last) < direction.room size offset } :=
  match hlast : far.nearest? direction offset with
  | none => none
  | some last =>
    match hnested : (near.nearest? direction offset).filter (direction.precedes · last) with
    | none => some ⟨⟨last, [direction.between offset last]⟩, Marks.nearest?_room hlast⟩
    | some nested =>
      have hstep : direction.room size (direction.past nested) < direction.room size offset :=
        Marks.nearest?_room (Option.filter_eq_some_iff.1 hnested).1
      match find? near far direction (direction.past nested) with
      | none => none
      | some ⟨inner, hinner⟩ =>
        match find? near far direction (direction.past inner.last) with
        | none => none
        | some ⟨rest, hrest⟩ =>
          some ⟨⟨rest.last, direction.between offset nested :: rest.gaps⟩, by dsimp only; omega⟩
termination_by direction.room size offset
decreasing_by
  · exact hstep
  · omega

namespace Document

/-- The way from an offset in a flow block to the end of the block. -/
def blockWay? (d : Document) (block : FlowBlock) (direction : Direction) (offset : Nat) :
    Option BlockWay :=
  (BlockWay.find? (d.marks (block.near direction) .flowControl)
    (d.marks (block.far direction) .flowControl) direction offset).map (·.val)

/-- The branch words of a block on the way between its ends. -/
def branchWords (d : Document) (block : FlowBlock) (way : BlockWay) : List Span :=
  let marks := block.branches.map fun word => d.marks word .flowControl
  Span.sort (way.gaps.flatMap fun gap => marks.flatMap fun m => m.between gap.start gap.stop)

/-! ## Matching -/

/-- The match of a declaration keyword. -/
def matchDeclaration (d : Document) (word : Span) (counterparts : List String)
    (direction : Direction) : BlockMatch :=
  let ends := counterparts.filterMap fun c =>
    (d.marks c .keyword).nearest? direction (direction.past word)
  match direction.first? ends with
  | none => { keyword := some word }
  | some s => { found := true, keyword := some word, counterparts := [s] }

/-- The match of a keyword at an end of a flow block. -/
def matchFlow (d : Document) (word : Span) (block : FlowBlock) (direction : Direction) :
    BlockMatch :=
  match d.blockWay? block direction (direction.past word) with
  | none => { keyword := some word }
  | some way =>
    { found := true
      keyword := some word
      counterparts := [way.last]
      auxiliary := d.branchWords block way }

/-- The match of a branch word. An end that is found is reported even if the other one is not. -/
def matchBranch (d : Document) (word : Span) : BlockMatch :=
  let up := d.blockWay? .ifBlock .backward word.start
  let down := d.blockWay? .ifBlock .forward word.stop
  let ways := up.toList ++ down.toList
  { found := up.isSome && down.isSome
    keyword := some word
    counterparts := Span.sort (ways.map BlockWay.last)
    auxiliary := Span.sort (ways.flatMap (d.branchWords .ifBlock)) }

/-- The match of the block keyword at an offset. -/
def matchKeyword (d : Document) (caret : Nat) : BlockMatch :=
  let word := d.wordAt caret
  if word.isEmpty then {}
  else
    match Construct.ofWord? (foldName (String.ofList (d.read word.start word.stop))) with
    | none => {}
    | some construct =>
      if d.styleAt word.start != construct.style then {}
      else
        match construct with
        | .declaration counterparts direction => d.matchDeclaration word counterparts direction
        | .flow block direction => d.matchFlow word block direction
        | .branch => d.matchBranch word

end Document

end Papyrus

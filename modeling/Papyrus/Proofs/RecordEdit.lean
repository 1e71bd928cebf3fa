import Papyrus.Proofs.Session
/-!
# Records that an edit keeps

An edit is reported as a line and a number of lines, and the registry has nothing else to go by. It
cannot tell an edit that changes nothing, for which the number is zero, from one that replaces the
line; and behind a deletion it drops the record of one line too many, the first that is left.

Results:
* `getElem?_moved`: where a line stands after an edit that keeps it.
* `edit_apply`: what an edit leaves of one record.
* `records_edit`: what an edit leaves of a registry.
-/
namespace Papyrus

/-! ## Records and reported changes -/

namespace PropertyRecord
variable {r : PropertyRecord} {line : Nat} {added : Int}

theorem edit_before (h : r.line < line) : r.edit line added = some r := if_pos h

theorem edit_at (h : r.line = line) (hadded : 0 < added) :
    r.edit line added = some { r with needsRecheck := true } := by
  rw [edit, if_neg (by omega), if_neg (by omega), if_pos h]

theorem edit_behind (h : line < r.line) (hlast : (line : Int) - added < r.line) :
    r.edit line added = some { r with line := (r.line + added).toNat } := by
  rw [edit, if_neg (by omega), if_neg (by omega), if_neg (by omega)]

/-- A record is dropped from the edited line on, up to the first line behind those taken out. -/
theorem edit_dropped (h : line ≤ r.line) (hlast : (r.line : Int) ≤ line - added) :
    r.edit line added = none := by
  rw [edit, if_neg (by omega), if_pos (by omega)]

end PropertyRecord

/-! ## Lines and edits -/

namespace Edit

/-- Whether an edit takes a line out or replaces it. -/
def removes : Edit → Nat → Bool
  | insert _ _, _ => false
  | delete line count, i => line ≤ i && i < line + count
  | replace line _, i => i == line

/-- Whether a line is the first one behind a deletion, or the one before which nothing is put in. -/
def oversteps : Edit → Nat → Bool
  | insert line texts, i => texts.isEmpty && i == line
  | delete line count, i => i == line + count
  | replace _ _, _ => false

/-- Whether an edit drops the record of a line. -/
def drops (e : Edit) (i : Nat) : Bool := e.removes i || e.oversteps i

/-- Whether new lines are put in directly before a line. -/
def pushes : Edit → Nat → Bool
  | insert line texts, i => !texts.isEmpty && i == line
  | delete _ _, _ | replace _ _, _ => false

/-- The index that a line has after an edit that keeps it. -/
def moved : Edit → Nat → Nat
  | insert line texts, i => if i < line then i else i + texts.length
  | delete line count, i => if i < line then i else i - count
  | replace _ _, i => i

theorem removes_of_oversteps (e : Edit) {i : Nat} (h : e.oversteps i = true) :
    e.removes i = false := by
  cases e with
  | insert line texts => rfl
  | delete line count =>
    rw [oversteps, beq_iff_eq] at h
    simp [removes, h]
  | replace line text => cases h

/-- An edit keeps the lines that it does not remove, and `moved` tells where they stand. -/
theorem getElem?_moved (e : Edit) (d : Document) {i : Nat} (hi : i < d.lineCount)
    (hkept : e.removes i = false) : (e.apply d).2.lines[e.moved i]? = d.lines[i]? := by
  have hlen : d.lines.length = d.lineCount := rfl
  cases e with
  | insert line texts =>
    have he := effect_insert d line texts
    rw [moved]
    split
    · refine he.getElem?_front ?_
      rw [List.length_take]
      omega
    · have hback := he.getElem?_back (i := i) (by
        rw [List.length_take, List.length_nil]
        omega)
      rwa [List.length_map] at hback
  | delete line count =>
    obtain ⟨new, he⟩ := effect_delete d line count
    rw [removes, Bool.and_eq_false_iff, decide_eq_false_iff_not, decide_eq_false_iff_not] at hkept
    rw [moved]
    split
    · refine he.getElem?_front ?_
      rw [List.length_take]
      omega
    · -- the line is there, so that the deletion has not been cut short
      have hstop : min (line + count) d.lineCount = line + count := by omega
      have hfirst : min line (line + count) = line := by omega
      rw [hstop, hfirst] at he
      have hold : ((d.lines.drop line).take (line + count - line)).length = count := by
        rw [List.length_take, List.length_drop]
        omega
      have hnew : new.length = 0 := by
        have hadded := he.added_eq (by rw [Ne, List.drop_eq_nil_iff]; omega)
        rw [apply, Document.deleteLines] at hadded
        dsimp only at hadded
        omega
      have hback := he.getElem?_back (i := i) (by
        rw [hold, List.length_take]
        omega)
      rwa [hold, hnew] at hback
  | replace line text =>
    have hne : d.lines.set line (Line.ofText text) ≠ [] := by
      simpa using d.lines_ne_nil
    rw [removes, beq_eq_false_iff_ne] at hkept
    rw [moved, apply, Document.replaceLine, Document.lines_withLines hne]
    exact List.getElem?_set_ne (Ne.symm hkept)

/-- What an edit leaves of the record of a line. -/
def carry (e : Edit) (r : PropertyRecord) : PropertyRecord :=
  if e.pushes r.line then { r with needsRecheck := true } else { r with line := e.moved r.line }

theorem edit_apply (e : Edit) {d : Document} {r : PropertyRecord} (hr : r.line < d.lineCount) :
    r.edit (e.apply d).1.line (e.apply d).1.added =
      if e.drops r.line then none else some (e.carry r) := by
  cases e with
  | insert line texts =>
    have hline : ((insert line texts).apply d).1.line = min line d.lineCount := rfl
    have hadded : ((insert line texts).apply d).1.added = texts.length := rfl
    rw [hline, hadded]
    rcases Nat.lt_trichotomy r.line line with hbefore | hat | hbehind
    · rw [PropertyRecord.edit_before (by omega)]
      simp [drops, removes, oversteps, carry, pushes, moved, hbefore, Nat.ne_of_lt]
    · cases texts with
      | nil =>
        rw [PropertyRecord.edit_dropped (by omega) (by rw [List.length_nil]; omega)]
        simp [drops, oversteps, hat]
      | cons text texts =>
        rw [PropertyRecord.edit_at (by omega) (by rw [List.length_cons]; omega)]
        simp [drops, removes, oversteps, carry, pushes, hat]
    · rw [PropertyRecord.edit_behind (by omega) (by omega)]
      simp [drops, removes, oversteps, carry, pushes, moved, Nat.not_lt_of_gt hbehind,
        Nat.ne_of_gt hbehind]
      omega
  | delete line count =>
    have hline : ((delete line count).apply d).1.line =
        min line (min (line + count) d.lineCount) := rfl
    have hadded : ((delete line count).apply d).1.added =
        -((min (line + count) d.lineCount - min line (min (line + count) d.lineCount) : Nat)
          : Int) := rfl
    rw [hline, hadded]
    by_cases hbefore : r.line < line
    · rw [PropertyRecord.edit_before (by omega)]
      have hne : r.line ≠ line + count := by omega
      simp [drops, removes, oversteps, carry, pushes, moved, hbefore, Nat.not_le.2 hbefore, hne]
    by_cases hlast : r.line ≤ line + count
    · rw [PropertyRecord.edit_dropped (by omega) (by omega)]
      have hdrop : line ≤ r.line ∧ r.line < line + count ∨ r.line = line + count := by omega
      simp [drops, removes, oversteps, hdrop]
    · rw [PropertyRecord.edit_behind (by omega) (by omega)]
      have hne : r.line ≠ line + count := by omega
      simp [drops, removes, oversteps, carry, pushes, moved, hbefore, hne]
      omega
  | replace line text =>
    have hline : ((replace line text).apply d).1.line = line := rfl
    have hadded : ((replace line text).apply d).1.added = 0 := rfl
    rw [hline, hadded]
    rcases Nat.lt_trichotomy r.line line with hbefore | hat | hbehind
    · rw [PropertyRecord.edit_before hbefore]
      simp [drops, removes, oversteps, carry, pushes, moved, Nat.ne_of_lt hbefore]
    · rw [PropertyRecord.edit_dropped (by omega) (by omega)]
      simp [drops, removes, hat]
    · rw [PropertyRecord.edit_behind hbehind (by omega)]
      simp [drops, removes, oversteps, carry, pushes, moved, Nat.ne_of_gt hbehind]

end Edit

/-- What an edit leaves of a registry: it drops the records of the lines that it removes and of the
line that it oversteps, which it keeps, and no others. Of those that are left it marks the ones
before whose lines new ones are put in; each of the others moves with its line. -/
theorem PropertyRegistry.records_edit (e : Edit) {d : Document} {p : PropertyRegistry}
    (hp : ∀ r ∈ p.records, r.line < d.lineCount) :
    (p.edit (e.apply d).1.line (e.apply d).1.added).records =
        (p.records.filter fun r => !e.drops r.line).map e.carry ∧
      ∀ r ∈ p.records, (e.oversteps r.line = true → e.removes r.line = false) ∧
        (e.removes r.line = false →
          (e.apply d).2.lines[e.moved r.line]? = d.lines[r.line]?) := by
  refine ⟨?_, fun r hr => ⟨e.removes_of_oversteps, e.getElem?_moved d (hp r hr)⟩⟩
  rw [edit_records]
  generalize p.records = records at hp
  induction records with
  | nil => rfl
  | cons r rest ih =>
    obtain ⟨hr, hrest⟩ := List.forall_mem_cons.1 hp
    rw [List.filterMap_cons, e.edit_apply hr, ih hrest]
    cases hdrop : e.drops r.line with
    | true => rw [List.filter_cons_of_neg (by simp [hdrop]), if_pos rfl]
    | false =>
      rw [List.filter_cons_of_pos (by simp [hdrop]), if_neg Bool.false_ne_true, List.map_cons]

/-- The record of a line that moves up behind a deletion, with one line between them. -/
theorem PropertyRegistry.records_edit_delete :
    let d := Document.ofText "moved" "x\ny\nproperty a".toList
    let p := PropertyRegistry.register {} "a" 2
    let change := ((Edit.delete 0 1).apply d).1
    (p.edit change.line change.added).records = [⟨"a", 1, false⟩] := by
  intro d p change
  exact (PropertyRegistry.records_edit (Edit.delete 0 1) (d := d) (p := p) (by decide)).1.trans
    (by decide +kernel)

/-- A declaration is forgotten when the line before it is deleted, and when no lines are put in
before it, though it is there as before. -/
theorem Lexer.not_records_overstepped :
    let s := run {} (ofSettings propertyOnly, .ofText "overstepped" "x\nproperty a".toList)
      [.styleAll]
    let deletion := Edit.delete 0 1
    let insertion := Edit.insert 1 []
    s.1.properties.records = [⟨"a", 1, false⟩] ∧
      deletion.removes 1 = false ∧
      (deletion.apply s.2).2.text = "property a".toList ∧
      (s.1.follow (deletion.apply s.2).1).properties.records = [] ∧
      insertion.removes 1 = false ∧
      (insertion.apply s.2).2.text = s.2.text ∧
      (s.1.follow (insertion.apply s.2).1).properties.records = [] := by
  decide +kernel

end Papyrus

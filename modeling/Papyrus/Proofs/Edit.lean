import Papyrus.Proofs.LineOffset
/-!
# Edits as data

An `Edit` is one of the three edits of a document together with its arguments. Each puts new lines
in the place of some of the old ones and leaves the lines on both sides as they are.

Results:
* `exists_effect`: every edit puts new lines in the place of old ones.
* `getElem?_of_before`, `getElem?_of_behind`: where a line that an edit keeps stands afterwards.
-/
namespace Papyrus

/-- An edit of the lines of a document. -/
inductive Edit where
  | insert (line : Nat) (texts : List Text)
  | delete (line count : Nat)
  | replace (line : Nat) (text : Text)
  deriving DecidableEq, Repr

namespace Edit

/-- Carries an edit out. -/
def apply (d : Document) : Edit → LineChange × Document
  | insert line texts => d.insertLines line texts
  | delete line count => d.deleteLines line count
  | replace line text => d.replaceLine line text

/-- Whether an edit puts lines behind the last one. -/
def appends (d : Document) : Edit → Prop
  | insert line texts => d.lineCount ≤ line ∧ texts ≠ []
  | delete _ _ | replace _ _ => False

/-- What an edit makes of a document: the lines `old` between `pre` and `post` give way to `new`. -/
structure Effect (d : Document) (e : Edit) (pre old new post : Lines) : Prop where
  lines_eq : d.lines = pre ++ (old ++ post)
  apply_eq : (e.apply d).2 = d.withLines (pre ++ (new ++ post))
  ne_nil : pre ++ (new ++ post) ≠ []
  /-- The reported line is the first new one, unless the edit meets no line. -/
  line_eq : (e.apply d).1.line = pre.length ∨
    old ++ (new ++ post) = [] ∧ pre.length ≤ (e.apply d).1.line
  /-- Unless one line gives way, all that go are reported as taken out. -/
  old_length : old.length ≤ 1 ∨ (e.apply d).1.added = -old.length
  /-- The lines behind the edit move by the reported number. -/
  added_eq : post ≠ [] → (e.apply d).1.added = new.length - old.length
  /-- New lines stand where no old ones do only if they are appended. -/
  appends_iff : e.appends d ↔ old ++ post = [] ∧ new ++ post ≠ []

section
variable (d : Document)

theorem effect_insert (line : Nat) (texts : List Text) :
    Effect d (insert line texts) (d.lines.take (min line d.lineCount)) []
      (texts.map Line.ofText) (d.lines.drop (min line d.lineCount)) := by
  have hlen : d.lines.length = d.lineCount := rfl
  have hpos := d.lineCount_pos
  refine ⟨by simp, by rw [apply, Document.insertLines, List.append_assoc], ?_, Or.inl ?_,
    Or.inl (by simp), fun _ => ?_, ?_⟩
  · intro hnil
    have hlength := congrArg List.length hnil
    simp only [List.length_append, List.length_take, List.length_drop, List.length_map,
      List.length_nil] at hlength
    omega
  · rw [List.length_take, hlen, Nat.min_eq_left (Nat.min_le_right _ _)]
    rfl
  · rw [List.length_map, List.length_nil]
    exact (Int.sub_zero _).symm
  · rw [appends, List.nil_append, List.drop_eq_nil_iff]
    constructor
    · rintro ⟨hline, htexts⟩
      exact ⟨by omega, fun hnil => htexts (by simpa using (List.append_eq_nil_iff.1 hnil).1)⟩
    · rintro ⟨hline, hne⟩
      refine ⟨by omega, ?_⟩
      rintro rfl
      exact hne (List.drop_eq_nil_iff.2 hline)

theorem effect_delete (line count : Nat) :
    ∃ new, Effect d (delete line count)
      (d.lines.take (min line (min (line + count) d.lineCount)))
      ((d.lines.drop (min line (min (line + count) d.lineCount))).take
        (min (line + count) d.lineCount - min line (min (line + count) d.lineCount)))
      new (d.lines.drop (min (line + count) d.lineCount)) := by
  have hlen : d.lines.length = d.lineCount := rfl
  have happly : ((delete line count).apply d).2 = d.withLines
      (d.lines.take (min line (min (line + count) d.lineCount)) ++
        d.lines.drop (min (line + count) d.lineCount)) := rfl
  have hline : ((delete line count).apply d).1.line =
      min line (min (line + count) d.lineCount) := rfl
  have hadded : ((delete line count).apply d).1.added =
      -((min (line + count) d.lineCount - min line (min (line + count) d.lineCount) : Nat)
        : Int) := rfl
  generalize hstop : min (line + count) d.lineCount = stop at *
  generalize hfirst : min line stop = first at *
  have hold : (d.lines.drop first).take (stop - first) ++ d.lines.drop stop =
      d.lines.drop first := by
    have hdrop : d.lines.drop stop = (d.lines.drop first).drop (stop - first) := by
      rw [List.drop_drop]
      congr 1
      omega
    rw [hdrop, List.take_append_drop]
  have hlines : d.lines = d.lines.take first ++
      ((d.lines.drop first).take (stop - first) ++ d.lines.drop stop) := by
    rw [hold, List.take_append_drop]
  have hfirst' : (d.lines.take first).length = first := by
    rw [List.length_take]
    omega
  have hcount : ((d.lines.drop first).take (stop - first)).length = stop - first := by
    rw [List.length_take, List.length_drop]
    omega
  rw [← hcount] at hadded
  by_cases hnil : d.lines.take first ++ d.lines.drop stop = []
  · -- without any line, an empty one is left
    obtain ⟨hpre, hpost⟩ := List.append_eq_nil_iff.1 hnil
    refine ⟨[default], hlines, ?_, by simp, Or.inl (by rw [hline, hfirst']), Or.inr hadded,
      fun hne => absurd hpost hne, ?_⟩
    · rw [happly, hpre, hpost]
      rfl
    · refine ⟨False.elim, fun h => d.lines_ne_nil ?_⟩
      rw [hlines, h.1, hpre]
      rfl
  · refine ⟨[], hlines, happly, hnil, Or.inl (by rw [hline, hfirst']), Or.inr hadded, fun _ => ?_,
      False.elim, fun h => h.2 (List.append_eq_nil_iff.1 h.1).2⟩
    rw [hadded, List.length_nil]
    exact (Int.zero_sub _).symm

theorem effect_replace (line : Nat) (text : Text) :
    ∃ pre old new post, Effect d (replace line text) pre old new post := by
  have hlen : d.lines.length = d.lineCount := rfl
  by_cases h : line < d.lines.length
  · refine ⟨d.lines.take line, [d.lines[line]], [Line.ofText text], d.lines.drop (line + 1),
      by simp, ?_, by simp, Or.inl ?_, Or.inl (Nat.le_refl 1), fun _ => rfl, False.elim,
      fun h => absurd h.1 (List.cons_ne_nil _ _)⟩
    · rw [apply, Document.replaceLine, List.set_eq_take_append_cons_drop, if_pos h]
      rfl
    · rw [List.length_take, Nat.min_eq_left (Nat.le_of_lt h)]
      rfl
  · refine ⟨d.lines, [], [], [], by simp, ?_, by simpa using d.lines_ne_nil,
      Or.inr ⟨rfl, Nat.le_of_not_lt h⟩, Or.inl (Nat.zero_le 1), fun _ => rfl, False.elim,
      fun h => h.2 rfl⟩
    rw [apply, Document.replaceLine, List.set_eq_of_length_le (Nat.le_of_not_lt h)]
    simp

/-- Every edit puts new lines in the place of old ones. -/
theorem exists_effect (e : Edit) : ∃ pre old new post, Effect d e pre old new post := by
  cases e with
  | insert line texts => exact ⟨_, _, _, _, effect_insert d line texts⟩
  | delete line count =>
    obtain ⟨new, h⟩ := effect_delete d line count
    exact ⟨_, _, new, _, h⟩
  | replace line text => exact effect_replace d line text

theorem readLimit_apply (e : Edit) : (e.apply d).2.readLimit = d.readLimit := by
  obtain ⟨pre, old, new, post, h⟩ := exists_effect d e
  rw [h.apply_eq, Document.withLines_eq h.ne_nil]

end

/-! ## The lines that an edit keeps -/

namespace Effect
variable {d : Document} {e : Edit} {pre old new post : Lines} {i : Nat}

theorem lines_apply (he : e.Effect d pre old new post) :
    (e.apply d).2.lines = pre ++ (new ++ post) := by
  rw [he.apply_eq, Document.lines_withLines he.ne_nil]

/-- The lines before the old ones stay where they are. -/
theorem getElem?_front (he : e.Effect d pre old new post) (hi : i < pre.length) :
    (e.apply d).2.lines[i]? = d.lines[i]? := by
  rw [he.lines_apply, he.lines_eq, List.getElem?_append_left hi, List.getElem?_append_left hi]

/-- The lines behind the old ones stand behind the new ones. -/
theorem getElem?_back (he : e.Effect d pre old new post) (hi : pre.length + old.length ≤ i) :
    (e.apply d).2.lines[i - old.length + new.length]? = d.lines[i]? := by
  rw [he.lines_apply, he.lines_eq]
  rw [List.getElem?_append_right (by omega), List.getElem?_append_right (by omega)]
  rw [List.getElem?_append_right (by omega), List.getElem?_append_right (by omega)]
  congr 1
  omega

/-- A line before the reported one stays where it is. -/
theorem getElem?_of_before (he : e.Effect d pre old new post) (hlt : i < d.lineCount)
    (hi : i < (e.apply d).1.line) : (e.apply d).2.lines[i]? = d.lines[i]? := by
  have hpre : i < pre.length := by
    rcases he.line_eq with hline | ⟨hnil, -⟩
    · omega
    · -- the document consists of the lines before the edit
      obtain ⟨hold, hrest⟩ := List.append_eq_nil_iff.1 hnil
      rw [Document.lineCount, he.lines_eq, hold, (List.append_eq_nil_iff.1 hrest).2] at hlt
      simpa using hlt
  exact he.getElem?_front hpre

/-- A line behind the reported one and behind those that are taken out moves by the reported
number. -/
theorem getElem?_of_behind (he : e.Effect d pre old new post) (hlt : i < d.lineCount)
    (hi : (e.apply d).1.line < i) (hlast : ((e.apply d).1.line : Int) - (e.apply d).1.added < i) :
    (e.apply d).2.lines[((i : Int) + (e.apply d).1.added).toNat]? = d.lines[i]? := by
  have hcount : d.lineCount = pre.length + (old.length + post.length) := by
    rw [Document.lineCount, he.lines_eq, List.length_append, List.length_append]
  have hstart : pre.length ≤ (e.apply d).1.line := by
    rcases he.line_eq with hline | ⟨-, hline⟩ <;> omega
  have hbehind : pre.length + old.length ≤ i := by
    rcases he.old_length with hold | hold <;> omega
  have hpost : post ≠ [] := by
    rintro rfl
    rw [List.length_nil] at hcount
    omega
  have hmoved : ((i : Int) + (e.apply d).1.added).toNat = i - old.length + new.length := by
    rw [he.added_eq hpost]
    omega
  rw [hmoved, he.getElem?_back hbehind]

end Effect

end Edit

end Papyrus

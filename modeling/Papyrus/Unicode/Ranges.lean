/-!
# Sets of code points

A property of characters is a table of closed ranges of code points, and a simple case mapping a
table of runs. The tables of this folder follow the Unicode character database.

Results:
* `Ranges.of_contains`, `of_isDigit`: what has been checked for each code point of a table, or of
  the digits, holds of any character of it.
-/
namespace Papyrus.Unicode

/-- Closed ranges of code points, increasing and disjoint. -/
abbrev Ranges := List (Nat × Nat)

/-- Whether one of the ranges holds the code point `n`. -/
def Ranges.contains (r : Ranges) (n : Nat) : Bool :=
  r.any fun (first, last) => first ≤ n && n ≤ last

/-- A simple case mapping: the run `(first, last, step, shift)` moves every `step`-th code point
from `first` to `last` by `shift`. -/
abbrev CaseRuns := List (Nat × Nat × Nat × Int)

/-- Maps one character; a character in no run stays as it is. -/
def CaseRuns.map (runs : CaseRuns) (c : Char) : Char :=
  let n := c.toNat
  let covers : Nat × Nat × Nat × Int → Bool := fun (first, last, step, _) =>
    first ≤ n && n ≤ last && (n - first) % step == 0
  match runs.find? covers with
  | some (_, _, _, shift) => Char.ofNat (n + shift).toNat
  | none => c

/-- Whether the character is one of the 128 of ASCII. -/
def isAscii (c : Char) : Bool := c.toNat < 128

/-! ## Checking characters one by one -/

/-- What holds of all characters of a table holds of each. -/
theorem Ranges.of_contains {ranges : Ranges} {p : Char → Prop}
    (h : ∀ r ∈ ranges, ∀ i < r.2 + 1 - r.1, p (Char.ofNat (r.1 + i))) {c : Char}
    (hc : ranges.contains c.toNat = true) : p c := by
  obtain ⟨r, hr, hin⟩ := List.any_eq_true.1 hc
  simp only [Bool.and_eq_true, decide_eq_true_eq] at hin
  have hp := h r hr (c.toNat - r.1) (by omega)
  rwa [Nat.add_sub_cancel' hin.1, Char.ofNat_toNat] at hp

/-- What holds of the ten digits holds of each. -/
theorem of_isDigit {p : Char → Prop} (h : ∀ i < 10, p (Char.ofNat (0x30 + i))) {c : Char}
    (hc : c.isDigit = true) : p c := by
  have hrange : 0x30 ≤ c.toNat ∧ c.toNat ≤ 0x39 := by
    simpa [Char.isDigit, UInt32.le_iff_toNat_le] using hc
  have hp := h (c.toNat - 0x30) (by omega)
  rwa [Nat.add_sub_cancel' hrange.1, Char.ofNat_toNat] at hp

end Papyrus.Unicode

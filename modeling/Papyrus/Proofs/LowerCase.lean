import Papyrus.Proofs.AsciiCase
import Papyrus.ScriptClass
/-!
# Lower case twice

The lower case of a text is its own lower case: no character that a case mapping leads to has
another lower case, and none is the capital sigma, which is the only character whose lower case
depends on its neighbours.

Results:
* `lowerCase_lowerCase`: mapping a text twice is mapping it once.
* `foldName_foldName`: the same of a name.
-/
namespace Papyrus.Unicode

/-- Whether a character is its own lower case, wherever it stands. -/
def Settled (c : Char) : Prop := c ≠ '\u03A3' ∧ lowerChar c = [c]

theorem lowerCase_of_settled {t : List Char} (h : ∀ c ∈ t, Settled c) : lowerCase t = t := by
  suffices ∀ before, lowerCase.go before t = t from this []
  induction t with
  | nil => exact fun _ => rfl
  | cons c t ih =>
    intro before
    obtain ⟨hc, ht⟩ := List.forall_mem_cons.1 h
    rw [lowerCase.go, if_neg hc.1, hc.2, ih ht, List.singleton_append]

/-! ## Runs of the case mapping -/

/-- Whether a run maps a code point. -/
def CaseRuns.Covers (r : Nat × Nat × Nat × Int) (n : Nat) : Prop :=
  r.1 ≤ n ∧ n ≤ r.2.1 ∧ (n - r.1) % r.2.2.1 = 0

/-- Whether a run maps none of the code points from `lo` to `hi`. If they are `alternate`, only
every other one of them counts, from the first one on; a run over every other code point may then
take turns with them. -/
def CaseRuns.passes (lo hi : Nat) (alternate : Bool) (r : Nat × Nat × Nat × Int) : Bool :=
  Nat.blt hi r.1 || Nat.blt r.2.1 lo ||
    (alternate && Nat.beq r.2.2.1 2 && Nat.beq ((lo + r.1) % 2) 1)

/-- Whether run `r'` maps nothing that run `r` leads to. -/
def CaseRuns.avoids (r r' : Nat × Nat × Nat × Int) : Bool :=
  passes ((r.1 : Int) + r.2.2.2).toNat ((r.2.1 : Int) + r.2.2.2).toNat
    (Nat.beq r.1 r.2.1 || Nat.beq r.2.2.1 2) r'

theorem CaseRuns.not_covers_of_avoids {r r' : Nat × Nat × Nat × Int} (h : avoids r r' = true)
    (hpos : 0 ≤ (r.1 : Int) + r.2.2.2) {n : Nat} (hn : Covers r n) :
    ¬Covers r' ((n : Int) + r.2.2.2).toNat := by
  obtain ⟨first, last, step, shift⟩ := r
  obtain ⟨first', last', step', shift'⟩ := r'
  obtain ⟨hfirst, hlast, hstep⟩ := hn
  rintro ⟨hfirst', hlast', hstep'⟩
  simp only [avoids, passes, Bool.or_eq_true, Bool.and_eq_true, Nat.blt_eq, Nat.beq_eq] at h
  dsimp only at *
  rcases h with (h | h) | ⟨⟨rfl | rfl, rfl⟩, h⟩ <;> omega

/-- The runs of all characters that have another lower case. -/
def changing : CaseRuns := (0x41, 0x5A, 1, 32) :: (0x130, 0x130, 1, 0) :: lowerCaseRuns

/-- The case mapping leads to no character that has another lower case. -/
theorem lowerCaseRuns_avoids : ∀ r ∈ lowerCaseRuns,
    0 ≤ (r.1 : Int) + r.2.2.2 ∧ changing.all (CaseRuns.avoids r) = true := by decide +kernel

theorem CaseRuns.map_of_not_covers {runs : CaseRuns} {c : Char}
    (h : ∀ r ∈ runs, ¬Covers r c.toNat) : runs.map c = c := by
  rw [map, List.find?_eq_none.2]
  intro r hr hcov
  simp only [Bool.and_eq_true, decide_eq_true_eq, beq_iff_eq] at hcov
  exact h r hr ⟨hcov.1.1, hcov.1.2, hcov.2⟩

/-- A case mapping changes only characters of its runs. -/
theorem CaseRuns.map_cases (runs : CaseRuns) (c : Char) :
    (∃ r ∈ runs, Covers r c.toNat ∧ runs.map c = Char.ofNat ((c.toNat : Int) + r.2.2.2).toNat) ∨
      (∀ r ∈ runs, ¬Covers r c.toNat) ∧ runs.map c = c := by
  by_cases h : ∀ r ∈ runs, ¬Covers r c.toNat
  · exact Or.inr ⟨h, map_of_not_covers h⟩
  · left
    rw [map]
    split
    · next first last step shift hfind =>
      have hcov := List.find?_some hfind
      simp only [Bool.and_eq_true, decide_eq_true_eq, beq_iff_eq] at hcov
      exact ⟨_, List.mem_of_find?_eq_some hfind, ⟨hcov.1.1, hcov.1.2, hcov.2⟩, rfl⟩
    · next hfind =>
      refine absurd (fun r hr hcov => ?_) h
      have hnone := List.find?_eq_none.1 hfind r hr
      simp only [Bool.and_eq_true, decide_eq_true_eq, beq_iff_eq] at hnone
      exact hnone ⟨⟨hcov.1, hcov.2.1⟩, hcov.2.2⟩

/-! ## Characters of a lower case -/

theorem settled_of_isAscii {c : Char} (hc : isAscii c = true)
    (hupper : ¬(0x41 ≤ c.toNat ∧ c.toNat ≤ 0x5A)) : Settled c := by
  have hsame : c.toLower = c :=
    (toLower_cases c).elim And.left fun ⟨_, hlo, hhi, _⟩ => absurd ⟨hlo, hhi⟩ hupper
  refine ⟨?_, by rw [lowerChar_of_isAscii hc, hsame]⟩
  rintro rfl
  cases hc

theorem settled_of_not_covers {c : Char} (h : ∀ r ∈ changing, ¬CaseRuns.Covers r c.toNat) :
    Settled c := by
  cases hc : isAscii c with
  | true =>
    have hupper : ¬CaseRuns.Covers (0x41, 0x5A, 1, 32) c.toNat := h _ List.mem_cons_self
    exact settled_of_isAscii hc fun hin => hupper ⟨hin.1, hin.2, Nat.mod_one _⟩
  | false =>
    have hruns : ∀ r ∈ lowerCaseRuns, ¬CaseRuns.Covers r c.toNat := fun r hr =>
      h r (List.mem_cons_of_mem _ (List.mem_cons_of_mem _ hr))
    have hdot : c ≠ '\u0130' := by
      rintro rfl
      exact h (0x130, 0x130, 1, 0) (List.mem_cons_of_mem _ List.mem_cons_self)
        ⟨by decide, by decide, by decide⟩
    constructor
    · rintro rfl
      exact hruns (0x3A3, 0x3AB, 1, 32) (by decide +kernel) ⟨by decide, by decide, by decide⟩
    · rw [lowerChar, hc, if_neg Bool.false_ne_true, if_neg hdot, CaseRuns.map_of_not_covers hruns]

/-- A character is settled if it lies outside each run. -/
theorem settled_of_passes {c : Char}
    (h : changing.all (CaseRuns.passes c.toNat c.toNat false) = true) : Settled c := by
  refine settled_of_not_covers fun r hr hcov => ?_
  have hpasses := List.all_eq_true.1 h r hr
  simp only [CaseRuns.passes, Bool.false_and, Bool.or_false, Bool.or_eq_true, Nat.blt_eq]
    at hpasses
  obtain ⟨hfirst, hlast, -⟩ := hcov
  omega

theorem settled_lowerChar {c : Char} (hc : c ≠ '\u03A3') : ∀ d ∈ lowerChar c, Settled d := by
  cases hascii : isAscii c with
  | true =>
    rw [lowerChar_of_isAscii hascii]
    have hlower : ¬(0x41 ≤ c.toLower.toNat ∧ c.toLower.toNat ≤ 0x5A) := by
      rcases toLower_cases c with ⟨hsame, hsmall⟩ | ⟨-, hlo, -, hlower⟩
      · rwa [hsame]
      · omega
    exact List.forall_mem_singleton.2
      (settled_of_isAscii ((isAscii_toLower c).trans hascii) hlower)
  | false =>
    rw [lowerChar, hascii, if_neg Bool.false_ne_true]
    by_cases hdot : c = '\u0130'
    · rw [if_pos hdot, List.forall_mem_cons, List.forall_mem_singleton]
      exact ⟨settled_of_passes (by decide +kernel), settled_of_passes (by decide +kernel)⟩
    rw [if_neg hdot]
    intro d hd
    rw [List.mem_singleton] at hd
    rcases lowerCaseRuns.map_cases c with ⟨r, hr, hcov, hmap⟩ | ⟨hcov, hmap⟩
    · obtain ⟨hpos, havoids⟩ := lowerCaseRuns_avoids r hr
      rw [hd, hmap]
      rcases Document.toNat_ofNat ((c.toNat : Int) + r.2.2.2).toNat with hn | hn
      · refine settled_of_not_covers fun r' hr' => ?_
        rw [hn]
        exact CaseRuns.not_covers_of_avoids (List.all_eq_true.1 havoids r' hr') hpos hcov
      · rw [Char.toNat_inj.1 (hn.trans (by rfl : 0 = '\x00'.toNat))]
        exact settled_of_passes (by decide +kernel)
    · rw [hd, hmap, Settled, lowerChar, hascii, if_neg Bool.false_ne_true, if_neg hdot, hmap]
      exact ⟨hc, rfl⟩

theorem settled_lowerCase (t : List Char) : ∀ d ∈ lowerCase t, Settled d := by
  suffices ∀ before, ∀ d ∈ lowerCase.go before t, Settled d from this []
  induction t with
  | nil => exact fun _ _ hd => absurd hd List.not_mem_nil
  | cons c t ih =>
    intro before d hd
    rw [lowerCase.go] at hd
    rcases List.mem_append.1 hd with hd | hd
    · by_cases hc : c = '\u03A3'
      · rw [if_pos hc, List.mem_singleton] at hd
        subst hd
        split <;> exact settled_of_passes (by decide +kernel)
      · rw [if_neg hc] at hd
        exact settled_lowerChar hc d hd
    · exact ih _ d hd

/-- The lower case of a text is its own lower case. -/
theorem lowerCase_lowerCase (t : List Char) : lowerCase (lowerCase t) = lowerCase t :=
  lowerCase_of_settled (settled_lowerCase t)

end Papyrus.Unicode

namespace Papyrus

theorem foldName_foldName (name : String) : foldName (foldName name) = foldName name := by
  rw [foldName, foldName, String.toList_ofList, Unicode.lowerCase_lowerCase]

end Papyrus

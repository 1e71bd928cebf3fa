import Papyrus.Proofs.WholeWord
import Papyrus.Unicode.LowerCase
/-!
# Characters that are ASCII in another case

Case mappings hardly ever lead into ASCII: only the Kelvin sign has an ASCII letter as its lower
case, and only it and the long s are folded to one.

Results:
* `toLower_cases`, `apply_toLower`: what lower case does to ASCII, and when it has no say.
* `isAscii_foldCase`: what a search takes for an ASCII character.
* `map_lowerCaseRuns_isAscii`: what has an ASCII letter as its lower case.
* `eq_of_mem_lowerChar`, `lowerCase_eq_singleton`: an ASCII character that is no letter is the lower
  case of itself alone.
-/
namespace Papyrus.Unicode

variable {c d : Char}

/-! ## The lower case of ASCII letters -/

/-- Only the capital letters of ASCII are put in lower case. -/
theorem toLower_cases (c : Char) :
    c.toLower = c ∧ ¬ (0x41 ≤ c.toNat ∧ c.toNat ≤ 0x5A) ∨
      c.isAlpha = true ∧ 0x41 ≤ c.toNat ∧ c.toNat ≤ 0x5A ∧ c.toLower.toNat = c.toNat + 0x20 := by
  have hcapital : 'A'.val ≤ c.val ∧ c.val ≤ 'Z'.val ↔ 0x41 ≤ c.toNat ∧ c.toNat ≤ 0x5A :=
    and_congr UInt32.le_iff_toNat_le UInt32.le_iff_toNat_le
  by_cases h : 'A'.val ≤ c.val ∧ c.val ≤ 'Z'.val
  · have hupper : c.isUpper = true := decide_eq_true h
    have hlower : c.toLower.val = c.val + 0x20 := congrArg Char.val (dif_pos h)
    have hnat : c.toLower.toNat = (c.toNat + 0x20) % 2 ^ 32 :=
      (congrArg UInt32.toNat hlower).trans (UInt32.toNat_add _ _)
    obtain ⟨hlo, hhi⟩ := hcapital.1 h
    exact Or.inr ⟨Bool.or_eq_true_iff.2 (Or.inl hupper), hlo, hhi, by omega⟩
  · exact Or.inl ⟨dif_neg h, mt hcapital.2 h⟩

/-- What is the same for the letters of ASCII in both cases is so for every character in lower
case. -/
theorem apply_toLower {α : Type} {f : Char → α}
    (h : ∀ n < 26, f (Char.ofNat (0x61 + n)) = f (Char.ofNat (0x41 + n))) (c : Char) :
    f c.toLower = f c := by
  rcases toLower_cases c with ⟨hsame, -⟩ | ⟨-, hlo, hhi, hlower⟩
  · rw [hsame]
  · have hletter := h (c.toNat - 0x41) (by omega)
    rwa [show 0x61 + (c.toNat - 0x41) = c.toLower.toNat by omega, Nat.add_sub_cancel' hlo,
      Char.ofNat_toNat, Char.ofNat_toNat] at hletter

theorem isAscii_toLower (c : Char) : isAscii c.toLower = isAscii c := apply_toLower (by decide) c

theorem isAlpha_toLower (c : Char) : c.toLower.isAlpha = c.isAlpha :=
  apply_toLower (f := Char.isAlpha) (by decide) c

theorem toLower_of_not_isAlpha (h : c.isAlpha = false) : c.toLower = c := by
  rcases toLower_cases c with ⟨hsame, -⟩ | ⟨hletter, -⟩
  · exact hsame
  · rw [hletter] at h
    cases h

theorem toNat_of_isLower (h : c.isLower = true) :
    'a'.toNat ≤ c.toNat ∧ c.toNat ≤ 'z'.toNat := by
  have hrange : (decide ('a'.val ≤ c.val) && decide (c.val ≤ 'z'.val)) = true := h
  rw [Bool.and_eq_true, decide_eq_true_eq, decide_eq_true_eq] at hrange
  exact ⟨UInt32.le_iff_toNat_le.1 hrange.1, UInt32.le_iff_toNat_le.1 hrange.2⟩

/-! ## Mappings into ASCII -/

/-- A character beyond ASCII that a case mapping takes into ASCII is that of a run. `leads` holds
each such character with what it is mapped to. -/
theorem CaseRuns.map_isAscii {runs : CaseRuns} {leads : List (Nat × Nat)}
    (hruns : ∀ r ∈ runs, 128 ≤ (r.1 : Int) + r.2.2.2 ∨
      (r.1 = r.2.1 ∧ (r.1, ((r.1 : Int) + r.2.2.2).toNat) ∈ leads))
    (hc : isAscii c = false) (hmap : isAscii (runs.map c) = true)
    (hpos : 0 < (runs.map c).toNat) : (c.toNat, (runs.map c).toNat) ∈ leads := by
  rw [isAscii, decide_eq_false_iff_not] at hc
  rw [isAscii, decide_eq_true_eq] at hmap
  rw [CaseRuns.map] at hmap hpos ⊢
  split at hmap
  · next first last step shift hfind =>
    rw [hfind] at hpos
    have hcov := List.find?_some hfind
    simp only [Bool.and_eq_true, decide_eq_true_eq] at hcov
    have hrun := hruns _ (List.mem_of_find?_eq_some hfind)
    dsimp only at hrun hpos hmap ⊢
    rcases Document.toNat_ofNat (c.toNat + shift).toNat with h | h
    · rcases hrun with hbig | ⟨hone, hlead⟩
      · omega
      · have hn : c.toNat = first := by omega
        rw [h, hn]
        exact hlead
    · omega
  · exact absurd hmap hc

/-- A character that a search takes for an ASCII one is ASCII, or a long s or the Kelvin sign. -/
theorem isAscii_foldCase (hd : isAscii (foldCase c) = true) (hpos : 0 < (foldCase c).toNat) :
    isAscii c = true ∨ c = '\u017F' ∧ foldCase c = 's' ∨ c = '\u212A' ∧ foldCase c = 'k' := by
  have hruns : ∀ r ∈ foldCaseRuns, 128 ≤ (r.1 : Int) + r.2.2.2 ∨
      (r.1 = r.2.1 ∧ (r.1, ((r.1 : Int) + r.2.2.2).toNat) ∈
        [('\u017F'.toNat, 's'.toNat), ('\u212A'.toNat, 'k'.toNat)]) := by decide +kernel
  cases hc : isAscii c with
  | true => exact Or.inl rfl
  | false =>
    have hmap : foldCase c = foldCaseRuns.map c := by
      rw [foldCase, hc, if_neg Bool.false_ne_true]
    rw [hmap] at hd hpos ⊢
    have hlead := CaseRuns.map_isAscii hruns hc hd hpos
    simp only [List.mem_cons, List.not_mem_nil, or_false, Prod.mk.injEq, Char.toNat_inj] at hlead
    exact Or.inr hlead

/-- Of the characters beyond ASCII only the Kelvin sign has a lower case in ASCII. -/
theorem map_lowerCaseRuns_isAscii (hc : isAscii c = false)
    (hd : isAscii (lowerCaseRuns.map c) = true) (hpos : 0 < (lowerCaseRuns.map c).toNat) :
    c = '\u212A' ∧ lowerCaseRuns.map c = 'k' := by
  have hruns : ∀ r ∈ lowerCaseRuns, 128 ≤ (r.1 : Int) + r.2.2.2 ∨
      (r.1 = r.2.1 ∧ (r.1, ((r.1 : Int) + r.2.2.2).toNat) ∈
        [('\u212A'.toNat, 'k'.toNat)]) := by decide +kernel
  have hlead := CaseRuns.map_isAscii hruns hc hd hpos
  simpa only [List.mem_singleton, Prod.mk.injEq, Char.toNat_inj] using hlead

/-! ## The lower case of a text -/

theorem lowerCase_go_eq_nil {before t : List Char} (h : lowerCase.go before t = []) : t = [] := by
  cases t with
  | nil => rfl
  | cons c t =>
    rw [lowerCase.go, List.append_eq_nil_iff] at h
    have hpiece := h.1
    unfold lowerChar at hpiece
    repeat' split at hpiece
    all_goals cases hpiece

/-- The lower case of one character alone. -/
theorem lowerCase_go_eq_singleton {before t : List Char} (hd : isAscii d = true)
    (h : lowerCase.go before t = [d]) : ∃ c, t = [c] ∧ lowerChar c = [d] := by
  cases t with
  | nil => cases h
  | cons c t =>
    rw [lowerCase.go] at h
    rcases List.append_eq_singleton_iff.1 h with ⟨hnil, -⟩ | ⟨hc, ht⟩
    · unfold lowerChar at hnil
      repeat' split at hnil
      all_goals cases hnil
    · obtain rfl := lowerCase_go_eq_nil ht
      refine ⟨c, rfl, ?_⟩
      split at hc
      · obtain ⟨rfl, -⟩ := List.cons.inj hc
        split at hd <;> cases hd
      · exact hc

/-- An ASCII character that is no letter comes from itself only. -/
theorem eq_of_mem_lowerChar (hd : isAscii d = true) (hpos : 0 < d.toNat)
    (hletter : d.isAlpha = false) (h : d ∈ lowerChar c) : c = d := by
  cases hascii : isAscii c with
  | true =>
    rw [lowerChar_of_isAscii hascii, List.mem_singleton] at h
    subst h
    rw [isAlpha_toLower] at hletter
    rw [toLower_of_not_isAlpha hletter]
  | false =>
    rw [lowerChar, hascii, if_neg Bool.false_ne_true] at h
    split at h
    · rcases List.mem_cons.1 h with rfl | h
      · cases hletter
      · rw [List.mem_singleton.1 h] at hd
        cases hd
    · have hmap := List.mem_singleton.1 h
      rw [hmap] at hd hpos hletter
      rw [(map_lowerCaseRuns_isAscii hascii hd hpos).2] at hletter
      cases hletter

/-- An ASCII character that is no letter is the lower case of itself alone. -/
theorem lowerCase_eq_singleton {t : List Char} (hd : isAscii d = true) (hpos : 0 < d.toNat)
    (hletter : d.isAlpha = false) : lowerCase t = [d] ↔ t = [d] := by
  constructor
  · intro h
    obtain ⟨c, rfl, hc⟩ := lowerCase_go_eq_singleton hd h
    have hmem : d ∈ lowerChar c := by rw [hc]; exact List.mem_singleton_self d
    rw [eq_of_mem_lowerChar hd hpos hletter hmem]
  · rintro rfl
    rw [lowerCase_of_isAscii fun c hc => List.mem_singleton.1 hc ▸ hd, List.map_singleton,
      toLower_of_not_isAlpha hletter]

end Papyrus.Unicode

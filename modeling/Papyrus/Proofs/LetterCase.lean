import Papyrus.Proofs.CharacterModes
/-!
# Tokens in any letter case

The tokens of a line are the same in any case of its ASCII letters. Letters take the same place in
both cases: they are of the same size, start and continue the same tokens, and count as cased
letters around a capital sigma, whose lower case depends on its neighbours. The proofs put a text
in lower case, as far as ASCII goes, and show that nothing is changed by this.

Results:
* `map_toLower_slice`: what is cut from a text is cut at the same places.
* `lowerCase_map_toLower`: a text has the same lower case.
* `breakLines_map_toLower`: it has the same lines.
* `scan_map_toLower`: it has the same tokens.
-/
namespace Papyrus

/-! ## Characters -/

namespace Unicode

theorem utf8Size_toLower (c : Char) : c.toLower.utf8Size = c.utf8Size :=
  apply_toLower (f := Char.utf8Size) (by decide) c

theorem isWhiteSpace_toLower (c : Char) : isWhiteSpace c.toLower = isWhiteSpace c :=
  apply_toLower (by decide) c

theorem isAlphabetic_toLower (c : Char) : isAlphabetic c.toLower = isAlphabetic c :=
  apply_toLower (by decide) c

theorem isAlphanumeric_toLower (c : Char) : isAlphanumeric c.toLower = isAlphanumeric c :=
  apply_toLower (by decide) c

theorem isDigit_toLower (c : Char) : c.toLower.isDigit = c.isDigit :=
  apply_toLower (f := Char.isDigit) (by decide) c

theorem isCased_toLower (c : Char) : isCased c.toLower = isCased c := apply_toLower (by decide) c

theorem foldCase_toLower (c : Char) : foldCase c.toLower = foldCase c :=
  apply_toLower (by decide) c

theorem lowerChar_toLower (c : Char) : lowerChar c.toLower = lowerChar c :=
  apply_toLower (by decide) c

theorem toLower_eq_iff {c d : Char} (hd : d.isAlpha = false) : c.toLower = d ↔ c = d := by
  constructor
  · rintro rfl
    rw [isAlpha_toLower] at hd
    exact (toLower_of_not_isAlpha hd).symm
  · rintro rfl
    exact toLower_of_not_isAlpha hd

theorem toLower_beq {c d : Char} (hd : d.isAlpha = false) : (c.toLower == d) = (c == d) := by
  rw [Bool.eq_iff_iff, beq_iff_eq, beq_iff_eq, toLower_eq_iff hd]

/-- No ASCII letter is case-ignorable. -/
theorem isCaseIgnorable_toLower (c : Char) : isCaseIgnorable c.toLower = isCaseIgnorable c := by
  have hranges : ∀ r ∈ caseIgnorableRanges,
      r.2 < 0x41 ∨ 0x5A < r.1 ∧ r.2 < 0x61 ∨ 0x7A < r.1 := by decide +kernel
  have hletter : ∀ d : Char, 0x41 ≤ d.toNat → d.toNat ≤ 0x7A →
      (d.toNat ≤ 0x5A ∨ 0x61 ≤ d.toNat) → isCaseIgnorable d = false := by
    intro d hlo hhi hcase
    rw [isCaseIgnorable, Ranges.contains, List.any_eq_false]
    intro r hr hin
    have hrange := hranges r hr
    rw [Bool.and_eq_true, decide_eq_true_eq, decide_eq_true_eq] at hin
    omega
  rcases toLower_cases c with ⟨hsame, -⟩ | ⟨-, hlo, hhi, hlower⟩
  · rw [hsame]
  · rw [hletter c hlo (by omega) (Or.inl hhi), hletter c.toLower (by omega) (by omega) (by omega)]

/-! ## The lower case of a text -/

theorem cased_map_toLower (t : List Char) : cased (t.map Char.toLower) = cased t := by
  have hignorable : isCaseIgnorable ∘ Char.toLower = isCaseIgnorable :=
    funext isCaseIgnorable_toLower
  rw [cased, cased, List.dropWhile_map, hignorable]
  cases t.dropWhile isCaseIgnorable with
  | nil => rfl
  | cons c t => exact isCased_toLower c

/-- The lower case of a text is the same in any letter case. -/
theorem lowerCase_map_toLower (t : List Char) : lowerCase (t.map Char.toLower) = lowerCase t := by
  suffices ∀ before, lowerCase.go (before.map Char.toLower) (t.map Char.toLower) =
      lowerCase.go before t from this []
  induction t with
  | nil => exact fun _ => rfl
  | cons c t ih =>
    intro before
    have hsigma : c.toLower = '\u03A3' ↔ c = '\u03A3' := toLower_eq_iff (by decide)
    have ih := ih (c :: before)
    rw [List.map_cons] at ih
    rw [List.map_cons, lowerCase.go, lowerCase.go, ih, lowerChar_toLower, isFinalSigma,
      isFinalSigma, cased_map_toLower, cased_map_toLower]
    simp only [hsigma]

end Unicode

/-! ## Cutting a text -/

namespace Text

theorem size_map_toLower (t : Text) : size (t.map Char.toLower) = size t := by
  induction t with
  | nil => rfl
  | cons c t ih => rw [List.map_cons, size_cons, size_cons, Unicode.utf8Size_toLower, ih]

theorem takeCeil_map_toLower (t : Text) (n : Nat) :
    takeCeil (t.map Char.toLower) n = (t.takeCeil n).map Char.toLower := by
  induction t generalizing n with
  | nil => rfl
  | cons c t ih =>
    rw [List.map_cons, takeCeil, takeCeil, Unicode.utf8Size_toLower, ih]
    split <;> rfl

theorem takeFloor_map_toLower (t : Text) (n : Nat) :
    takeFloor (t.map Char.toLower) n = (t.takeFloor n).map Char.toLower := by
  induction t generalizing n with
  | nil => rfl
  | cons c t ih =>
    rw [List.map_cons, takeFloor, takeFloor, Unicode.utf8Size_toLower, ih]
    split <;> rfl

theorem dropFloor_map_toLower (t : Text) (n : Nat) :
    dropFloor (t.map Char.toLower) n = (t.dropFloor n).map Char.toLower := by
  induction t generalizing n with
  | nil => rfl
  | cons c t ih =>
    rw [List.map_cons, dropFloor, dropFloor, Unicode.utf8Size_toLower, ih]
    split <;> rfl

theorem map_toLower_slice (t : Text) (start stop : Nat) :
    slice (t.map Char.toLower) start stop = (t.slice start stop).map Char.toLower := by
  rw [slice, slice, takeCeil_map_toLower, dropFloor_map_toLower]

theorem around?_map_toLower (t : Text) (n : Nat) :
    around? (t.map Char.toLower) n =
      (t.around? n).map fun (before, after) =>
        (before.map Char.toLower, after.map Char.toLower) := by
  suffices ∀ before, around?.go (before.map Char.toLower) (t.map Char.toLower) n =
      (around?.go before t n).map fun (before, after) =>
        (before.map Char.toLower, after.map Char.toLower) from this []
  induction t generalizing n with
  | nil => intro before; cases n <;> rfl
  | cons c t ih =>
    intro before
    cases n with
    | zero => rfl
    | succ n =>
      have hgo : ∀ (before : Text) (c : Char) (t : Text), around?.go before (c :: t) (n + 1) =
          if c.utf8Size ≤ n + 1 then around?.go (c :: before) t (n + 1 - c.utf8Size) else none :=
        fun _ _ _ => rfl
      rw [List.map_cons, hgo, hgo, Unicode.utf8Size_toLower]
      split
      · exact ih (n + 1 - c.utf8Size) (c :: before)
      · rfl

/-- A text has the same lines in any letter case. -/
theorem breakLines_map_toLower (t : Text) :
    breakLines (t.map Char.toLower) = (t.breakLines).map (·.map Char.toLower) := by
  have hfeed : ∀ {c : Char}, c.toLower = '\n' ↔ c = '\n' := Unicode.toLower_eq_iff (by decide)
  have hreturn : ∀ {c : Char}, c.toLower = '\r' ↔ c = '\r' := Unicode.toLower_eq_iff (by decide)
  fun_induction breakLines t with
  | case1 => rfl
  | case2 t ih => rw [List.map_cons, List.map_cons, ← ih]; rfl
  | case3 t ih => rw [List.map_cons, List.map_cons, List.map_cons, ← ih]; rfl
  | case4 c t hf hr hnil => exact absurd hnil (breakLines_ne_nil t)
  | case5 c t hf hr l ls hlines ih =>
    rw [hlines] at ih
    rw [List.map_cons, breakLines, ih]
    · rfl
    · exact fun h => hf (hfeed.1 h)
    · intro t' hc ht
      cases t with
      | nil => cases ht
      | cons d t =>
        obtain ⟨hd, -⟩ := List.cons.inj ht
        exact hr t (hreturn.1 hc) (by rw [hfeed.1 hd])

theorem joinLines_map_toLower (ls : List Text) :
    joinLines (ls.map (·.map Char.toLower)) = (joinLines ls).map Char.toLower := by
  induction ls with
  | nil => rfl
  | cons l ls ih =>
    by_cases hls : ls = []
    · subst hls
      rfl
    · rw [List.map_cons, joinLines_cons (mt List.map_eq_nil_iff.1 hls), ih, joinLines_cons hls,
        List.map_append]
      rfl

end Text

/-! ## Tokens -/

namespace Token

theorem isIdentifierStart_toLower (c : Char) :
    isIdentifierStart c.toLower = isIdentifierStart c := by
  rw [isIdentifierStart, isIdentifierStart, Unicode.isAlphabetic_toLower,
    Unicode.toLower_beq (by decide)]

theorem isIdentifierRest_toLower (c : Char) : isIdentifierRest c.toLower = isIdentifierRest c := by
  rw [isIdentifierRest, isIdentifierRest, Unicode.isAlphanumeric_toLower,
    Unicode.toLower_beq (by decide), Unicode.toLower_beq (by decide)]

/-- A numeral goes on with the same characters. -/
theorem splitNumeral_map_toLower (z d h : Bool) (t : Text) :
    splitNumeral z d h (t.map Char.toLower) =
      ((splitNumeral z d h t).1.map Char.toLower, (splitNumeral z d h t).2.map Char.toLower) := by
  have hdot : ∀ c : Char, (c.toLower == '.') = (c == '.') :=
    fun _ => Unicode.toLower_beq (by decide)
  have hx : ∀ c : Char, (c.toLower == 'x' || c.toLower == 'X') = (c == 'x' || c == 'X') :=
    Unicode.apply_toLower (f := fun c => c == 'x' || c == 'X') (by decide)
  have hhex : ∀ c : Char, isHexDigit c.toLower = isHexDigit c :=
    Unicode.apply_toLower (by decide)
  fun_induction splitNumeral z d h t with
  | case1 z d h => rfl
  | case2 z d h c t isX hgo a b heq ih =>
    rw [List.map_cons, splitNumeral]
    dsimp only
    rw [Unicode.isDigit_toLower, hdot, hx, hhex, if_pos hgo, ih, heq]
    rfl
  | case3 z d h c t isX hgo =>
    rw [List.map_cons, splitNumeral]
    dsimp only
    rw [Unicode.isDigit_toLower, hdot, hx, hhex, if_neg hgo]
    rfl

/-- A token takes up the same characters. -/
theorem lexeme_map_toLower (c : Char) (t : Text) :
    lexeme c.toLower (t.map Char.toLower) =
      ((lexeme c t).1, (lexeme c t).2.1.map Char.toLower, (lexeme c t).2.2.map Char.toLower) := by
  have hminus : (c.toLower == '-') = (c == '-') := Unicode.toLower_beq (by decide)
  have hzero : (c.toLower == '0') = (c == '0') := Unicode.toLower_beq (by decide)
  have hrest : isIdentifierRest ∘ Char.toLower = isIdentifierRest := funext isIdentifierRest_toLower
  unfold lexeme
  rw [isIdentifierStart_toLower, Unicode.isDigit_toLower, hminus, hzero, splitNumeral_map_toLower,
    List.takeWhile_map, List.dropWhile_map, hrest]
  split
  · rfl
  · split
    · dsimp only
      rw [List.isEmpty_map]
      rfl
    · rfl

/-- A line has the same tokens in any letter case. -/
theorem scan_map_toLower (text : Text) (base : Nat) :
    scan (text.map Char.toLower) base = scan text base := by
  induction text, base using scanInduction with
  | nil base => rfl
  | blank c t base hc ih =>
    have hc' := (Unicode.isWhiteSpace_toLower c).trans hc
    rw [List.map_cons, scan_cons_isWhiteSpace hc', scan_cons_isWhiteSpace hc,
      Unicode.utf8Size_toLower, ih]
  | token c t base hc ih =>
    have hc' := (Unicode.isWhiteSpace_toLower c).trans hc
    have hfirst : first c.toLower (t.map Char.toLower) base = first c t base := by
      rw [first, first, lexeme_map_toLower]
      dsimp only
      rw [Unicode.lowerCase_map_toLower, Text.size_map_toLower]
    rw [List.map_cons, scan_cons hc', scan_cons hc, hfirst, lexeme_map_toLower]
    exact congrArg _ ih

end Token

end Papyrus

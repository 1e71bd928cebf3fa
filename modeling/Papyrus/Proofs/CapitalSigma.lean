import Papyrus.Proofs.AsciiCase
/-!
# Capital sigmas

The lower case of a text is put together from those of its characters, but for the capital sigmas,
each of which is mapped to one of two letters. `sigmas` tells which of them are final, and
`lowerWith` maps a text that has been told; what has been told is all that matters.

Results:
* `lowerCase_eq_lowerWith`, `lowerWith_inj`: the lower case of a text and what is told of its
  capital sigmas determine each other.
* `lowerWith_append`: one text after the other.
* `lowerCase_cons_of_isCaseIgnorable`: a first character that sigmas do not see.
* `mem_lowerCase_iff`: an ASCII character that is no letter stays and comes from itself only.
-/
namespace Papyrus.Unicode

/-- For each capital sigma of a text, whether it is final. -/
def sigmas (t : List Char) : List Bool :=
  go [] t
where
  /-- Reads on while `before` holds the characters that have been passed, the last one first. -/
  go (before : List Char) : List Char → List Bool
    | [] => []
    | c :: t =>
      if c = '\u03A3' then isFinalSigma before t :: go (c :: before) t else go (c :: before) t

/-- The lower case of a text whose capital sigmas are final if it is said so. -/
def lowerWith : List Bool → List Char → List Char
  | _, [] => []
  | finals, c :: t =>
    if c = '\u03A3' then
      (if finals.headD false then '\u03C2' else '\u03C3') :: lowerWith finals.tail t
    else lowerChar c ++ lowerWith finals t

theorem lowerCase_eq_lowerWith (t : List Char) : lowerCase t = lowerWith (sigmas t) t := by
  suffices ∀ before, lowerCase.go before t = lowerWith (sigmas.go before t) t from this []
  induction t with
  | nil => exact fun _ => rfl
  | cons c t ih =>
    intro before
    rw [lowerCase.go, sigmas.go, lowerWith, ih]
    split <;> rfl

theorem length_sigmas (t : List Char) : (sigmas t).length = t.count '\u03A3' := by
  suffices ∀ before, (sigmas.go before t).length = t.count '\u03A3' from this []
  induction t with
  | nil => exact fun _ => rfl
  | cons c t ih =>
    intro before
    rw [sigmas.go, List.count_cons]
    by_cases hc : c = '\u03A3'
    · rw [if_pos hc, if_pos (beq_iff_eq.2 hc), List.length_cons, ih]
    · rw [if_neg hc, if_neg (mt beq_iff_eq.1 hc), ih, Nat.add_zero]

theorem sigmas_eq_nil {t : List Char} (h : '\u03A3' ∉ t) : sigmas t = [] :=
  List.eq_nil_of_length_eq_zero ((length_sigmas t).trans (List.count_eq_zero.2 h))

/-- What is told of two texts is told of one after the other. -/
theorem exists_append_of_length_eq {finals : List Bool} {s t : List Char}
    (h : finals.length = (s ++ t).count '\u03A3') :
    ∃ first rest, finals = first ++ rest ∧ first.length = s.count '\u03A3' ∧
      rest.length = t.count '\u03A3' := by
  rw [List.count_append] at h
  refine ⟨_, _, (List.take_append_drop (s.count '\u03A3') finals).symm, ?_, ?_⟩
  · rw [List.length_take]
    omega
  · rw [List.length_drop]
    omega

/-- One text is put in lower case after the other. -/
theorem lowerWith_append {finals : List Bool} {s : List Char}
    (h : finals.length = s.count '\u03A3') (finals' : List Bool) (t : List Char) :
    lowerWith (finals ++ finals') (s ++ t) = lowerWith finals s ++ lowerWith finals' t := by
  induction s generalizing finals with
  | nil =>
    obtain rfl := List.eq_nil_of_length_eq_zero h
    rfl
  | cons c s ih =>
    rw [List.cons_append, lowerWith, lowerWith]
    rw [List.count_cons] at h
    by_cases hc : c = '\u03A3'
    · rw [if_pos (beq_iff_eq.2 hc)] at h
      obtain ⟨final, finals, rfl⟩ := List.exists_cons_of_length_eq_add_one h
      rw [if_pos hc, if_pos hc, List.cons_append, List.tail_cons, List.tail_cons,
        ih (Nat.succ.inj h), List.cons_append, List.headD_cons, List.headD_cons]
    · rw [if_neg (mt beq_iff_eq.1 hc)] at h
      rw [if_neg hc, if_neg hc, ih h, List.append_assoc]

/-- The lower case of a text tells which of its capital sigmas are final. -/
theorem lowerWith_inj {finals finals' : List Bool} {t : List Char}
    (h : finals.length = t.count '\u03A3') (h' : finals'.length = t.count '\u03A3') :
    lowerWith finals t = lowerWith finals' t ↔ finals = finals' := by
  refine ⟨fun heq => ?_, fun heq => by rw [heq]⟩
  induction t generalizing finals finals' with
  | nil => rw [List.eq_nil_of_length_eq_zero h, List.eq_nil_of_length_eq_zero h']
  | cons c t ih =>
    rw [lowerWith, lowerWith] at heq
    rw [List.count_cons] at h h'
    by_cases hc : c = '\u03A3'
    · rw [if_pos (beq_iff_eq.2 hc)] at h h'
      obtain ⟨final, finals, rfl⟩ := List.exists_cons_of_length_eq_add_one h
      obtain ⟨final', finals', rfl⟩ := List.exists_cons_of_length_eq_add_one h'
      rw [if_pos hc, if_pos hc] at heq
      obtain ⟨hfirst, hrest⟩ := List.cons.inj heq
      rw [ih (Nat.succ.inj h) (Nat.succ.inj h') hrest]
      rw [List.headD_cons, List.headD_cons] at hfirst
      cases final <;> cases final' <;> first | rfl | cases hfirst
    · rw [if_neg (mt beq_iff_eq.1 hc)] at h h'
      rw [if_neg hc, if_neg hc] at heq
      exact ih h h' (List.append_cancel_left heq)

theorem lowerWith_ne_nil {t : List Char} (h : t ≠ []) (finals : List Bool) :
    lowerWith finals t ≠ [] := by
  cases t with
  | nil => contradiction
  | cons c t =>
    rw [lowerWith]
    split
    · exact List.cons_ne_nil _ _
    · refine List.append_ne_nil_of_left_ne_nil ?_ _
      unfold lowerChar
      repeat' split
      all_goals exact List.cons_ne_nil _ _

/-- An ASCII character that is no letter is in the lower case of a text just if it is in the text. -/
theorem mem_lowerWith_iff {d : Char} (finals : List Bool) {t : List Char}
    (hd : isAscii d = true) (hpos : 0 < d.toNat) (hletter : d.isAlpha = false) :
    d ∈ lowerWith finals t ↔ d ∈ t := by
  have hsigma : d ≠ '\u03A3' := by
    rintro rfl
    cases hd
  have hself : d ∈ lowerChar d := by
    rw [lowerChar_of_isAscii hd, toLower_of_not_isAlpha hletter]
    exact List.mem_cons_self
  induction t generalizing finals with
  | nil => exact Iff.rfl
  | cons c t ih =>
    rw [lowerWith, List.mem_cons]
    split
    · next hc =>
      subst hc
      have hsmall : d ≠ if finals.headD false = true then '\u03C2' else '\u03C3' := by
        rintro rfl
        split at hd <;> cases hd
      rw [List.mem_cons, or_iff_right hsmall, or_iff_right hsigma]
      exact ih finals.tail
    · rw [List.mem_append]
      refine or_congr ⟨fun h => (eq_of_mem_lowerChar hd hpos hletter h).symm, ?_⟩ (ih finals)
      rintro rfl
      exact hself

theorem mem_lowerCase_iff {d : Char} {t : List Char} (hd : isAscii d = true) (hpos : 0 < d.toNat)
    (hletter : d.isAlpha = false) : d ∈ lowerCase t ↔ d ∈ t := by
  rw [lowerCase_eq_lowerWith, mem_lowerWith_iff _ hd hpos hletter]

/-! ## Characters that sigmas do not see -/

theorem cased_append_of_isCaseIgnorable {c : Char} (hc : isCaseIgnorable c = true)
    (t : List Char) : cased (t ++ [c]) = cased t := by
  rw [cased, cased, List.dropWhile_append]
  cases h : t.dropWhile isCaseIgnorable with
  | nil => rw [List.isEmpty_nil, if_pos rfl, List.dropWhile_cons_of_pos hc, List.dropWhile_nil]
  | cons d rest => rfl

/-- A case-ignorable character at the start of a text is put in lower case for itself. -/
theorem lowerCase_cons_of_isCaseIgnorable {c : Char} (hc : isCaseIgnorable c = true)
    (hsigma : c ≠ '\u03A3') (t : List Char) : lowerCase (c :: t) = lowerChar c ++ lowerCase t := by
  have hgo : ∀ before, lowerCase.go (before ++ [c]) t = lowerCase.go before t := by
    induction t with
    | nil => exact fun _ => rfl
    | cons d t ih =>
      intro before
      rw [lowerCase.go, lowerCase.go, ← List.cons_append, ih, isFinalSigma, isFinalSigma,
        cased_append_of_isCaseIgnorable hc]
  rw [lowerCase, lowerCase.go, if_neg hsigma]
  exact congrArg (lowerChar c ++ ·) (hgo [])

end Papyrus.Unicode

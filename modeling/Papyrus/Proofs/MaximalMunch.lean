import Papyrus.Proofs.DocumentToken
/-!
# The longest tokens

What identifiers and numerals are is said here by a grammar (`Token.Kind.Matches`), apart from the
way in which they are read. A token that stands at some place is the longest identifier or numeral
that starts there; if there is none, it is one character (`Token.IsLongest`). Tokens of this kind
that leave out the white space of a line, and nothing else, are its tokens (`Token.IsScan`).

Results:
* `isLongest_lexeme`, `IsLongest.unique`: what is read as a token is the longest one, and only one
  is.
* `isScan_scan`, `IsScan.unique`: the tokens of a line are as the grammar says, and no others are.
* `isScan_iff_eq_scan`: the two together; a minus sign without a digit is a token of its own.
-/
namespace Papyrus

namespace Text

/-- A character of a text in two parts is in the first one or behind it. -/
theorem cases_of_append {w rest pre post : Text} {d : Char} (h : w ++ rest = pre ++ d :: post) :
    (∃ m, w = pre ++ d :: m ∧ post = m ++ rest) ∨ ∃ m, pre = w ++ m ∧ rest = m ++ d :: post := by
  by_cases hsize : w.size ≤ pre.size
  · exact .inr (exists_of_append_eq h hsize)
  · obtain ⟨m, rfl, hm⟩ := exists_of_append_eq h.symm (by omega)
    cases m with
    | nil => simp at hsize
    | cons e m =>
      obtain ⟨rfl, hpost⟩ := List.cons.inj hm
      exact .inl ⟨m, rfl, hpost⟩

end Text

namespace Token

/-! ## The grammar -/

/-- The texts of each kind of token. A special token may be any character. -/
inductive Kind.Matches : Kind → Text → Prop
  | identifier (c : Char) (t : Text) (first : Unicode.isAlphabetic c = true ∨ c = '_')
      (rest : ∀ d ∈ t, Unicode.isAlphanumeric d = true ∨ d = '_' ∨ d = ':') :
      Matches .identifier (c :: t)
  | decimal (c : Char) (t : Text) (first : c.isDigit = true)
      (rest : ∀ d ∈ t, d.isDigit = true ∨ d = '.') : Matches .numeric (c :: t)
  | negative (c : Char) (t : Text) (first : c.isDigit = true)
      (rest : ∀ d ∈ t, d.isDigit = true ∨ d = '.') : Matches .numeric ('-' :: c :: t)
  | hexadecimal (x : Char) (t : Text) (mark : x = 'x' ∨ x = 'X')
      (rest : ∀ d ∈ t, isHexDigit d = true ∨ d = '.') : Matches .numeric ('0' :: x :: t)
  | special (c : Char) : Matches .special [c]

/-- Whether `w` is what is taken as a token where the text `s` goes on: the longest identifier or
numeral with which `s` starts, or its first character if it starts with neither. -/
structure IsLongest (kind : Kind) (w s : Text) : Prop where
  starts : w <+: s
  form : kind.Matches w
  longest : ∀ (kind' : Kind) (w' : Text), kind' ≠ .special → w' <+: s → kind'.Matches w' →
    kind ≠ .special ∧ w'.length ≤ w.length

/-- Whether tokens are those of a line that starts at offset `base`: they are not empty, come in
order and do not overlap, each is the longest one where it starts and has the bytes of its text,
white space belongs to none of them, and every other character to exactly one. -/
structure IsScan (line : Text) (base : Nat) (tokens : List Token) : Prop where
  ordered : Ordered base tokens (base + line.size)
  longest : ∀ t ∈ tokens, ∃ pre w post : Text, line = pre ++ (w ++ post) ∧
    t.start = base + pre.size ∧ t.stop = t.start + w.size ∧
    t.content = String.ofList (Unicode.lowerCase w) ∧ IsLongest t.kind w (w ++ post)
  blank : ∀ (pre : Text) (c : Char) (post : Text), line = pre ++ c :: post →
    Unicode.isWhiteSpace c = true →
    ∀ t ∈ tokens, ¬ (t.start ≤ base + pre.size ∧ base + pre.size < t.stop)
  covered : ∀ (pre : Text) (c : Char) (post : Text), line = pre ++ c :: post →
    Unicode.isWhiteSpace c = false →
    ∃! t, t ∈ tokens ∧ t.start ≤ base + pre.size ∧ base + pre.size < t.stop

/-! ## First characters -/

/-- Whether a decimal numeral may go on with the character. -/
def isDecimalRest (c : Char) : Bool := c.isDigit || c == '.'

/-- Whether a hexadecimal numeral may go on with the character. -/
def isHexadecimalRest (c : Char) : Bool := isHexDigit c || c == '.'

theorem isIdentifierStart_iff {c : Char} :
    isIdentifierStart c = true ↔ Unicode.isAlphabetic c = true ∨ c = '_' := by
  simp [isIdentifierStart]

theorem isIdentifierRest_iff {c : Char} :
    isIdentifierRest c = true ↔ Unicode.isAlphanumeric c = true ∨ c = '_' ∨ c = ':' := by
  simp [isIdentifierRest, or_assoc]

theorem isDecimalRest_iff {c : Char} : isDecimalRest c = true ↔ c.isDigit = true ∨ c = '.' := by
  simp [isDecimalRest]

theorem isHexadecimalRest_iff {c : Char} :
    isHexadecimalRest c = true ↔ isHexDigit c = true ∨ c = '.' := by
  simp [isHexadecimalRest]

theorem isIdentifierStart_of_isDigit {c : Char} (h : c.isDigit = true) :
    isIdentifierStart c = false :=
  Unicode.of_isDigit (p := fun c => isIdentifierStart c = false) (by decide) h

/-- No identifier starts as a numeral does. -/
theorem isIdentifierStart_of_matches {c : Char} {t : Text} (h : Kind.numeric.Matches (c :: t)) :
    isIdentifierStart c = false := by
  cases h with
  | decimal _ _ first => exact isIdentifierStart_of_isDigit first
  | negative => decide
  | hexadecimal => decide

theorem Kind.Matches.ne_nil {kind : Kind} {w : Text} (h : kind.Matches w) : w ≠ [] := by
  cases h <;> exact List.cons_ne_nil _ _

/-- A character behind the first one goes on with an identifier or a numeral, or marks a numeral as
hexadecimal. -/
theorem Kind.Matches.rest_cases {kind : Kind} {c : Char} {t : Text} (h : kind.Matches (c :: t))
    {d : Char} (hd : d ∈ t) :
    isIdentifierRest d = true ∨ isHexadecimalRest d = true ∨ d = 'x' ∨ d = 'X' := by
  have hdecimal : d.isDigit = true ∨ d = '.' → isHexadecimalRest d = true := by
    rintro (hdigit | rfl)
    · simp [isHexadecimalRest, isHexDigit, hdigit]
    · decide
  cases h with
  | identifier _ _ _ rest => exact .inl (isIdentifierRest_iff.2 (rest d hd))
  | decimal _ _ _ rest => exact .inr (.inl (hdecimal (rest d hd)))
  | negative e u first rest =>
    rcases List.mem_cons.1 hd with rfl | hd
    · exact .inr (.inl (hdecimal (.inl first)))
    · exact .inr (.inl (hdecimal (rest d hd)))
  | hexadecimal x u mark rest =>
    rcases List.mem_cons.1 hd with rfl | hd
    · exact .inr (.inr mark)
    · exact .inr (.inl (isHexadecimalRest_iff.2 (rest d hd)))
  | special => cases hd

/-- A text of the grammar that does not start with white space has none. -/
theorem Kind.Matches.isWhiteSpace_eq_false {kind : Kind} {c : Char} {t : Text}
    (h : kind.Matches (c :: t)) (hc : Unicode.isWhiteSpace c = false) {d : Char}
    (hd : d ∈ c :: t) : Unicode.isWhiteSpace d = false := by
  rcases List.mem_cons.1 hd with rfl | hd
  · exact hc
  · have hblank : Unicode.isWhiteSpace d = true →
        ¬ (isIdentifierRest d = true ∨ isHexadecimalRest d = true ∨ d = 'x' ∨ d = 'X') :=
      Unicode.Ranges.of_contains (p := fun d =>
        ¬ (isIdentifierRest d = true ∨ isHexadecimalRest d = true ∨ d = 'x' ∨ d = 'X'))
        (by decide +kernel)
    simpa using fun hws => hblank hws (h.rest_cases hd)

/-! ## The longest token at a place -/

/-- What starts a text and goes on with characters of a kind is no longer than the run of them. -/
theorem length_le_takeWhile {p : Char → Bool} {w t : Text} (hpre : w <+: t)
    (hw : ∀ d ∈ w, p d = true) : w.length ≤ (t.takeWhile p).length := by
  obtain ⟨post, rfl⟩ := hpre
  simp [List.takeWhile_append_of_pos hw]

theorem of_mem_takeWhile {p : Char → Bool} {t : Text} {d : Char} (hd : d ∈ t.takeWhile p) :
    p d = true := List.all_eq_true.1 List.all_takeWhile d hd

variable {c : Char} {t : Text}

/-- The identifiers and numerals with which a text starts, and how long they can be. -/
theorem Kind.Matches.cases_of_prefix {kind : Kind} {w : Text} (h : kind.Matches w)
    (hkind : kind ≠ .special) (hpre : w <+: c :: t) :
    (isIdentifierStart c = true ∧ w.length ≤ (t.takeWhile isIdentifierRest).length + 1) ∨
    (c.isDigit = true ∧ w.length ≤ (t.takeWhile isDecimalRest).length + 1) ∨
    (c = '-' ∧ ∃ d u, t = d :: u ∧ d.isDigit = true ∧
      w.length ≤ (u.takeWhile isDecimalRest).length + 2) ∨
    (c = '0' ∧ ∃ x u, t = x :: u ∧ (x = 'x' ∨ x = 'X') ∧
      w.length ≤ (u.takeWhile isHexadecimalRest).length + 2) := by
  cases h with
  | identifier c' u first rest =>
    obtain ⟨rfl, htail⟩ := List.cons_prefix_cons.1 hpre
    refine .inl ⟨isIdentifierStart_iff.2 first, Nat.succ_le_succ ?_⟩
    exact length_le_takeWhile htail fun d hd => isIdentifierRest_iff.2 (rest d hd)
  | decimal c' u first rest =>
    obtain ⟨rfl, htail⟩ := List.cons_prefix_cons.1 hpre
    refine .inr (.inl ⟨first, Nat.succ_le_succ ?_⟩)
    exact length_le_takeWhile htail fun d hd => isDecimalRest_iff.2 (rest d hd)
  | negative d u first rest =>
    obtain ⟨rfl, v, hv⟩ := List.cons_prefix_cons.1 hpre
    refine .inr (.inr (.inl ⟨rfl, d, u ++ v, hv.symm, first, Nat.add_le_add_right ?_ 2⟩))
    exact length_le_takeWhile (List.prefix_append u v) fun d hd => isDecimalRest_iff.2 (rest d hd)
  | hexadecimal x u mark rest =>
    obtain ⟨rfl, v, hv⟩ := List.cons_prefix_cons.1 hpre
    refine .inr (.inr (.inr ⟨rfl, x, u ++ v, hv.symm, mark, Nat.add_le_add_right ?_ 2⟩))
    exact length_le_takeWhile (List.prefix_append u v) fun d hd =>
      isHexadecimalRest_iff.2 (rest d hd)
  | special => exact absurd rfl hkind

theorem isLongest_identifier (h : isIdentifierStart c = true) :
    IsLongest .identifier (c :: t.takeWhile isIdentifierRest) (c :: t) where
  starts := List.cons_prefix_cons.2 ⟨rfl, List.takeWhile_prefix _⟩
  form := .identifier c _ (isIdentifierStart_iff.1 h) fun d hd =>
    isIdentifierRest_iff.1 (of_mem_takeWhile hd)
  longest kind' w' hkind hpre hw' := by
    refine ⟨by simp, ?_⟩
    rcases hw'.cases_of_prefix hkind hpre with ⟨-, hlen⟩ | ⟨hdigit, -⟩ | ⟨rfl, -⟩ | ⟨rfl, -⟩
    · exact hlen
    · simp [isIdentifierStart_of_isDigit hdigit] at h
    · exact absurd h (by decide)
    · exact absurd h (by decide)

theorem isLongest_decimal (h : c.isDigit = true)
    (hx : c = '0' → ∀ x ∈ t.head?, ¬ (x = 'x' ∨ x = 'X')) :
    IsLongest .numeric (c :: t.takeWhile isDecimalRest) (c :: t) where
  starts := List.cons_prefix_cons.2 ⟨rfl, List.takeWhile_prefix _⟩
  form := .decimal c _ h fun d hd => isDecimalRest_iff.1 (of_mem_takeWhile hd)
  longest kind' w' hkind hpre hw' := by
    refine ⟨by simp, ?_⟩
    rcases hw'.cases_of_prefix hkind hpre with ⟨hident, -⟩ | ⟨-, hlen⟩ | ⟨rfl, -⟩ |
      ⟨rfl, x, u, rfl, hmark, -⟩
    · simp [isIdentifierStart_of_isDigit h] at hident
    · exact hlen
    · exact absurd h (by decide)
    · exact absurd hmark (hx rfl x rfl)

theorem isLongest_negative {d : Char} (h : d.isDigit = true) :
    IsLongest .numeric ('-' :: d :: t.takeWhile isDecimalRest) ('-' :: d :: t) where
  starts := by simp [List.cons_prefix_cons, List.takeWhile_prefix]
  form := .negative d _ h fun d hd => isDecimalRest_iff.1 (of_mem_takeWhile hd)
  longest kind' w' hkind hpre hw' := by
    refine ⟨by simp, ?_⟩
    rcases hw'.cases_of_prefix hkind hpre with ⟨hident, -⟩ | ⟨hdigit, -⟩ |
      ⟨-, d', u, heq, -, hlen⟩ | ⟨hzero, -⟩
    · exact absurd hident (by decide)
    · exact absurd hdigit (by decide)
    · obtain ⟨rfl, rfl⟩ := List.cons.inj heq
      exact hlen
    · exact absurd hzero (by decide)

theorem isLongest_hexadecimal {x : Char} (h : x = 'x' ∨ x = 'X') :
    IsLongest .numeric ('0' :: x :: t.takeWhile isHexadecimalRest) ('0' :: x :: t) where
  starts := by simp [List.cons_prefix_cons, List.takeWhile_prefix]
  form := .hexadecimal x _ h fun d hd => isHexadecimalRest_iff.1 (of_mem_takeWhile hd)
  longest kind' w' hkind hpre hw' := by
    refine ⟨by simp, ?_⟩
    rcases hw'.cases_of_prefix hkind hpre with ⟨hident, -⟩ | ⟨-, hlen⟩ | ⟨hminus, -⟩ |
      ⟨-, x', u, heq, -, hlen⟩
    · exact absurd hident (by decide)
    · have hx : isDecimalRest x = false := by rcases h with rfl | rfl <;> decide
      simp [hx] at hlen
      simp; omega
    · exact absurd hminus (by decide)
    · obtain ⟨rfl, rfl⟩ := List.cons.inj heq
      exact hlen

theorem isLongest_special (hident : isIdentifierStart c = false) (hdigit : c.isDigit = false)
    (hminus : c = '-' → ∀ d ∈ t.head?, d.isDigit = false) : IsLongest .special [c] (c :: t) where
  starts := ⟨t, rfl⟩
  form := .special c
  longest kind' w' hkind hpre hw' := by
    rcases hw'.cases_of_prefix hkind hpre with ⟨h, -⟩ | ⟨h, -⟩ | ⟨rfl, d, u, rfl, h, -⟩ | ⟨rfl, -⟩
    · simp [hident] at h
    · simp [hdigit] at h
    · simp [hminus rfl d rfl] at h
    · exact absurd hdigit (by decide)

/-- Only one token is the longest one at a place. -/
theorem IsLongest.unique {kind kind' : Kind} {w w' s : Text} (h : IsLongest kind w s)
    (h' : IsLongest kind' w' s) : kind = kind' ∧ w = w' := by
  have heq_of_length (hlen : w.length = w'.length) : w = w' :=
    (List.prefix_of_prefix_length_le h.starts h'.starts (Nat.le_of_eq hlen)).eq_of_length hlen
  by_cases hkind : kind = .special
  · have hkind' : kind' = .special := by
      by_contra hne
      exact (h.longest kind' w' hne h'.starts h'.form).1 hkind
    subst hkind hkind'
    obtain ⟨form⟩ := h.form
    obtain ⟨form'⟩ := h'.form
    exact ⟨rfl, heq_of_length rfl⟩
  · obtain ⟨hkind', hle⟩ := h'.longest kind w hkind h.starts h.form
    have hge := (h.longest kind' w' hkind' h'.starts h'.form).2
    obtain rfl := heq_of_length (Nat.le_antisymm hle hge)
    refine ⟨?_, rfl⟩
    have hform := h.form
    have hform' := h'.form
    cases w with
    | nil => exact absurd rfl hform.ne_nil
    | cons c t =>
      -- identifiers and numerals differ in their first characters
      have hstart : ∀ {k : Kind}, k.Matches (c :: t) → k ≠ .special →
          k = if isIdentifierStart c = true then .identifier else .numeric := by
        intro k hk hne
        cases k with
        | identifier =>
          cases hk with
          | identifier _ _ first => rw [if_pos (isIdentifierStart_iff.2 first)]
        | numeric => simp [isIdentifierStart_of_matches hk]
        | special => exact absurd rfl hne
      rw [hstart hform hkind, hstart hform' hkind']

/-! ## What is read as a token -/

theorem splitNumeral_decimal (t : Text) :
    (splitNumeral false true false t).1 = t.takeWhile isDecimalRest := by
  induction t with
  | nil => rfl
  | cons c t ih =>
    cases hc : isDecimalRest c with
    | true =>
      have hx : (c == 'x' || c == 'X') = false := by
        rcases isDecimalRest_iff.1 hc with hdigit | rfl
        · exact Unicode.of_isDigit (p := fun c => (c == 'x' || c == 'X') = false) (by decide) hdigit
        · decide
      simp only [isDecimalRest] at hc
      simp [splitNumeral, hc, hx, ih, isDecimalRest]
    | false =>
      simp only [isDecimalRest] at hc
      simp [splitNumeral, hc, isDecimalRest]

theorem splitNumeral_hexadecimal (t : Text) :
    (splitNumeral false true true t).1 = t.takeWhile isHexadecimalRest := by
  induction t with
  | nil => rfl
  | cons c t ih =>
    have hgo : (c.isDigit || (c == '.' && true) || ((c == 'x' || c == 'X') && false) ||
        (true && isHexDigit c)) = isHexadecimalRest c := by
      simp only [isHexadecimalRest, isHexDigit]
      cases c.isDigit <;> cases c == '.' <;> simp
    rw [splitNumeral, hgo]
    cases hc : isHexadecimalRest c with
    | true => simp [ih, hc]
    | false => simp [hc]

/-- A `0` starts a decimal numeral as any other digit does, if no mark follows. -/
theorem splitNumeral_unmarked (hx : c = '0' → ∀ x ∈ t.head?, ¬ (x = 'x' ∨ x = 'X')) :
    (splitNumeral (c == '0') true false t).1 = t.takeWhile isDecimalRest := by
  rw [← splitNumeral_decimal]
  cases t with
  | nil => rfl
  | cons x u =>
    have hmark : ((x == 'x' || x == 'X') && c == '0') = false := by
      by_cases hzero : c = '0'
      · simpa [hzero] using hx hzero x rfl
      · simp [hzero]
    simp only [splitNumeral, hmark, Bool.and_false]

theorem isLongest_lexeme_digit (h : c.isDigit = true) :
    IsLongest (lexeme c t).1 (lexeme c t).2.1 (c :: t) := by
  have hminus : (c == '-') = false :=
    Unicode.of_isDigit (p := fun c => (c == '-') = false) (by decide) h
  have hlexeme : (lexeme c t).1 = .numeric ∧
      (lexeme c t).2.1 = c :: (splitNumeral (c == '0') true false t).1 := by
    simp [lexeme, isIdentifierStart_of_isDigit h, h, hminus]
  rw [hlexeme.1, hlexeme.2]
  by_cases hmark : c = '0' ∧ ∃ x ∈ t.head?, x = 'x' ∨ x = 'X'
  · obtain ⟨rfl, x, hx, hmark⟩ := hmark
    obtain ⟨u, rfl⟩ : ∃ u, t = x :: u := List.head?_eq_some_iff.1 hx
    have hsplit : (splitNumeral true true false (x :: u)).1 =
        x :: (splitNumeral false true true u).1 := by
      rcases hmark with rfl | rfl <;> rfl
    rw [beq_self_eq_true, hsplit, splitNumeral_hexadecimal]
    exact isLongest_hexadecimal hmark
  · have hx : c = '0' → ∀ x ∈ t.head?, ¬ (x = 'x' ∨ x = 'X') := fun hzero x hx hor =>
      hmark ⟨hzero, x, hx, hor⟩
    rw [splitNumeral_unmarked hx]
    exact isLongest_decimal h hx

theorem isLongest_lexeme_minus :
    IsLongest (lexeme '-' t).1 (lexeme '-' t).2.1 ('-' :: t) := by
  have hstart : isIdentifierStart '-' = false ∧ '-'.isDigit = false := by decide
  have hlexeme : lexeme '-' t =
      (if (splitNumeral false false false t).1.isEmpty then .special else .numeric,
        '-' :: (splitNumeral false false false t).1, (splitNumeral false false false t).2) := by
    simp [lexeme, hstart]
  rw [hlexeme]
  by_cases hd : ∃ d ∈ t.head?, d.isDigit = true
  · obtain ⟨d, hd, hdigit⟩ := hd
    obtain ⟨u, rfl⟩ : ∃ u, t = d :: u := List.head?_eq_some_iff.1 hd
    have hx : (d == 'x' || d == 'X') = false :=
      Unicode.of_isDigit (p := fun d => (d == 'x' || d == 'X') = false) (by decide) hdigit
    have hsplit : (splitNumeral false false false (d :: u)).1 = d :: u.takeWhile isDecimalRest := by
      simp [splitNumeral, hdigit, hx, splitNumeral_decimal]
    simp only [hsplit]
    exact isLongest_negative hdigit
  · have hminus : ∀ d ∈ t.head?, d.isDigit = false := fun d hmem => by
      simpa using fun hdigit => hd ⟨d, hmem, hdigit⟩
    have hsplit : (splitNumeral false false false t).1 = [] := by
      cases t with
      | nil => rfl
      | cons d u => simp [splitNumeral, hminus d rfl]
    simp only [hsplit]
    exact isLongest_special hstart.1 hstart.2 fun _ => hminus

/-- What is read as a token is the longest one. -/
theorem isLongest_lexeme (c : Char) (t : Text) :
    IsLongest (lexeme c t).1 (lexeme c t).2.1 (c :: t) := by
  by_cases hident : isIdentifierStart c = true
  · rw [lexeme, if_pos hident]
    exact isLongest_identifier hident
  by_cases hdigit : c.isDigit = true
  · exact isLongest_lexeme_digit hdigit
  by_cases hminus : c = '-'
  · subst hminus
    exact isLongest_lexeme_minus
  · rw [Bool.not_eq_true] at hident hdigit
    have hlexeme : lexeme c t = (.special, [c], t) := by simp [lexeme, hident, hdigit, hminus]
    rw [hlexeme]
    exact isLongest_special hident hdigit fun h => absurd h hminus

/-! ## The tokens of a line -/

variable {line w rest : Text} {kind : Kind} {base : Nat} {tokens tokens' : List Token}

theorem isScan_nil : IsScan [] base [] where
  ordered := Nat.le_refl base
  longest t ht := by cases ht
  blank pre c post h := by simp at h
  covered pre c post h := by simp at h

/-- White space in front of a line moves its tokens. -/
theorem IsScan.cons_blank (h : IsScan t (base + c.utf8Size) tokens)
    (hc : Unicode.isWhiteSpace c = true) : IsScan (c :: t) base tokens where
  ordered := by
    rw [Text.size_cons, ← Nat.add_assoc]
    exact h.ordered.mono (Nat.le_add_right _ _)
  longest u hu := by
    obtain ⟨pre, w, post, rfl, hstart, hrest⟩ := h.longest u hu
    refine ⟨c :: pre, w, post, rfl, ?_, hrest⟩
    rw [hstart, Text.size_cons, Nat.add_assoc]
  blank pre d post hline hd u hu := by
    cases pre with
    | nil =>
      have hlo := (h.ordered.mem hu).1
      have hpos := c.utf8Size_pos
      simp only [Text.size_nil]; omega
    | cons p pre =>
      obtain ⟨rfl, rfl⟩ := List.cons.inj hline
      rw [Text.size_cons, ← Nat.add_assoc]
      exact h.blank pre d post rfl hd u hu
  covered pre d post hline hd := by
    cases pre with
    | nil =>
      obtain ⟨rfl, -⟩ := List.cons.inj hline
      simp [hc] at hd
    | cons p pre =>
      obtain ⟨rfl, rfl⟩ := List.cons.inj hline
      rw [Text.size_cons, ← Nat.add_assoc]
      exact h.covered pre d post rfl hd

/-- A token in front of a line moves the tokens of the line. -/
theorem IsScan.cons_token (h : IsScan rest (base + w.size) tokens)
    (hw : IsLongest kind w (w ++ rest)) (hc : ∀ d ∈ w, Unicode.isWhiteSpace d = false) :
    IsScan (w ++ rest) base
      (⟨String.ofList (Unicode.lowerCase w), kind, base, base + w.size⟩ :: tokens) where
  ordered := by
    rw [Text.size_append, ← Nat.add_assoc]
    have hpos := Text.size_pos hw.form.ne_nil
    exact ⟨Nat.le_refl base, Nat.lt_add_of_pos_right hpos, h.ordered⟩
  longest u hu := by
    rcases List.mem_cons.1 hu with rfl | hu
    · exact ⟨[], w, rest, rfl, rfl, rfl, rfl, hw⟩
    · obtain ⟨pre, v, post, rfl, hstart, hrest⟩ := h.longest u hu
      refine ⟨w ++ pre, v, post, (List.append_assoc _ _ _).symm, ?_, hrest⟩
      rw [hstart, Text.size_append, Nat.add_assoc]
  blank pre d post hline hd u hu := by
    rcases Text.cases_of_append hline with ⟨m, rfl, -⟩ | ⟨m, rfl, rfl⟩
    · simp [hc d (by simp)] at hd
    · rw [Text.size_append, ← Nat.add_assoc]
      rcases List.mem_cons.1 hu with rfl | hu
      · dsimp only; omega
      · exact h.blank m d post rfl hd u hu
  covered pre d post hline hd := by
    rcases Text.cases_of_append hline with ⟨m, hm, -⟩ | ⟨m, rfl, rfl⟩
    · have hlt : pre.size < w.size := by
        have hpos := d.utf8Size_pos
        simp only [hm, Text.size_append, Text.size_cons]; omega
      refine ⟨_, ⟨List.mem_cons_self, Nat.le_add_right _ _, Nat.add_lt_add_left hlt base⟩, ?_⟩
      intro u hu
      rcases List.mem_cons.1 hu.1 with rfl | hmem
      · rfl
      · have hlo := (h.ordered.mem hmem).1
        omega
    · rw [Text.size_append, ← Nat.add_assoc]
      obtain ⟨u, ⟨hmem, hcover⟩, honly⟩ := h.covered m d post rfl hd
      refine ⟨u, ⟨List.mem_cons_of_mem _ hmem, hcover⟩, fun v hv => ?_⟩
      rcases List.mem_cons.1 hv.1 with rfl | hv'
      · dsimp only at hv; omega
      · exact honly v ⟨hv', hv.2⟩

/-- The tokens of a line are as the grammar says. -/
theorem isScan_scan (line : Text) (base : Nat) : IsScan line base (scan line base) := by
  induction line, base using scanInduction with
  | nil base =>
    rw [scan]
    exact isScan_nil
  | blank c t base hc ih =>
    rw [scan_cons_isWhiteSpace hc]
    exact ih.cons_blank hc
  | token c t base hc ih =>
    have hlongest := isLongest_lexeme c t
    obtain ⟨a, ha⟩ := exists_lexeme_eq_cons c t
    have hblank : ∀ d ∈ (lexeme c t).2.1, Unicode.isWhiteSpace d = false := by
      have hform := hlongest.form
      rw [ha] at hform ⊢
      exact fun d hd => hform.isWhiteSpace_eq_false hc hd
    rw [scan_cons hc]
    rw [← lexeme_append] at hlongest ⊢
    exact ih.cons_token hlongest hblank

/-! ## No other tokens -/

/-- Tokens that start at the same offset are the same. -/
theorem IsScan.eq_of_start (h : IsScan line base tokens) (h' : IsScan line base tokens')
    {u u' : Token} (hu : u ∈ tokens) (hu' : u' ∈ tokens') (hstart : u.start = u'.start) :
    u = u' := by
  obtain ⟨pre, w, post, hline, hpre, hstop, hcontent, hw⟩ := h.longest u hu
  obtain ⟨pre', w', post', hline', hpre', hstop', hcontent', hw'⟩ := h'.longest u' hu'
  have hrest : w ++ post = w' ++ post' := by
    obtain ⟨m, rfl, hm⟩ := Text.exists_of_append_eq (hline ▸ hline' : pre ++ (w ++ post) = _)
      (by omega)
    rw [Text.size_append] at hpre'
    obtain rfl := Text.size_eq_zero (t := m) (by omega)
    exact hm
  rw [← hrest] at hw'
  obtain ⟨hkind, rfl⟩ := hw.unique hw'
  cases u
  cases u'
  simp_all

/-- Tokens of a line that follow the grammar are among any others that do. -/
theorem IsScan.mem (h : IsScan line base tokens) (h' : IsScan line base tokens') {u : Token}
    (hu : u ∈ tokens) : u ∈ tokens' := by
  induction hn : u.start using Nat.strong_induction_on generalizing u tokens tokens' with
  | _ n ih =>
    obtain ⟨pre, w, post, hline, hstart, -, -, hw⟩ := h.longest u hu
    have hpos := (h.ordered.mem hu).2.1
    obtain ⟨c, a, rfl⟩ := List.exists_cons_of_ne_nil hw.form.ne_nil
    have hblank : Unicode.isWhiteSpace c = false := by
      simpa using fun hc => h.blank pre c (a ++ post) hline hc u hu ⟨by omega, by omega⟩
    obtain ⟨v, ⟨hv, hlo, hhi⟩, -⟩ := h'.covered pre c (a ++ post) hline hblank
    by_cases hlt : v.start < u.start
    · -- a token that starts further ahead is in both, and `u` would overlap it
      have hmem := ih v.start (hn ▸ hlt) h' h hv rfl
      have heq := h.ordered.eq_of_overlap hmem hu (by omega) (by omega)
      rw [heq] at hlt
      exact absurd hlt (Nat.lt_irrefl _)
    · rw [h.eq_of_start h' hu hv (by omega)]
      exact hv

/-- Only the tokens of a line are as the grammar says. -/
theorem IsScan.unique (h : IsScan line base tokens) (h' : IsScan line base tokens') :
    tokens = tokens' :=
  eq_of_mem_iff_of_pairwise h.ordered.pairwise h'.ordered.pairwise fun _ =>
    ⟨fun hu => h.mem h' hu, fun hu => h'.mem h hu⟩

/-- A minus sign is part of a token only as its first character. -/
theorem Kind.Matches.not_minus_mem (h : kind.Matches (c :: t)) : '-' ∉ t := fun hminus =>
  absurd (h.rest_cases hminus) (by decide)

/-- A minus sign that no digit follows is a special token. -/
theorem IsScan.minus_mem (h : IsScan line base tokens) {pre post : Text}
    (hline : line = pre ++ '-' :: post) (hpost : ∀ d ∈ post.head?, d.isDigit = false) :
    (⟨"-", .special, base + pre.size, base + pre.size + 1⟩ : Token) ∈ tokens := by
  obtain ⟨u, ⟨hu, hlo, hhi⟩, -⟩ := h.covered pre '-' post hline (by decide)
  obtain ⟨before, w, after, hcut, hstart, hstop, hcontent, hw⟩ := h.longest u hu
  obtain ⟨m, rfl, hm⟩ := Text.exists_of_append_eq (hcut ▸ hline : before ++ (w ++ after) = _)
    (by omega)
  have hform := hw.form
  rcases Text.cases_of_append hm with ⟨a, rfl, rfl⟩ | ⟨b, rfl, -⟩
  · cases m with
    | cons e m => exact absurd (by simp) hform.not_minus_mem
    | nil =>
      obtain ⟨content, kind, start, stop⟩ := u
      dsimp only at *
      cases hform with
      | special =>
        have hlower : String.ofList (Unicode.lowerCase ['-']) = "-" := by decide
        have hsize : Text.size ['-'] = 1 := rfl
        simp_all
      | identifier _ _ first => exact absurd first (by decide)
      | decimal _ _ first => exact absurd first (by decide)
      | negative d t first => simp [hpost d rfl] at first
  · rw [Text.size_append] at hlo
    simp only [Text.size_append] at *
    omega

/-- Tokens are those of a line just if they follow the grammar, and a minus sign that no digit
follows is one of them. -/
theorem isScan_iff_eq_scan (line : Text) (base : Nat) :
    (∀ tokens, IsScan line base tokens ↔ tokens = scan line base) ∧
    ∀ pre post, line = pre ++ '-' :: post → (∀ d ∈ post.head?, d.isDigit = false) →
      (⟨"-", .special, base + pre.size, base + pre.size + 1⟩ : Token) ∈ scan line base := by
  have hscan := isScan_scan line base
  refine ⟨fun tokens => ⟨fun h => h.unique hscan, fun h => h ▸ hscan⟩, ?_⟩
  exact fun pre post hline hpost => hscan.minus_mem hline hpost

/-- The minus sign of `a- 1` is a token of its own. -/
theorem minus_mem_scan_spaced :
    (⟨"-", .special, 1, 2⟩ : Token) ∈ scan ['a', '-', ' ', '1'] 0 :=
  (isScan_iff_eq_scan ['a', '-', ' ', '1'] 0).2 ['a'] [' ', '1'] rfl fun _ hd => by cases hd; rfl

end Token

end Papyrus

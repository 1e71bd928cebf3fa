import Papyrus.Proofs.AsciiCase
import Papyrus.Proofs.Outline
/-!
# Comments and strings, character by character

Where the comments and strings of a line stand can be told without its tokens: `Mode.readAll` goes
through the characters of a line and looks one character ahead where a comment opens, and back over
what it has read where one may end. Six characters matter to it, the delimiters. Each of them is a
token of its own, and no other token has one of them in it; white space belongs to no token, so that
whether two tokens touch can be seen in the characters.

Results:
* `lexeme_of_isDelimiter`, `isDelimiter_of_mem_lexeme`: a delimiter is a token of its own.
* `content_first`: a token is a delimiter if its first character is.
* `Recalls.whiteSpace`, `Recalls.first`: the last tokens tell what the last characters tell.
* `styleLine_eq_readAll`: the comments and strings of a line are those read from its characters.
-/
namespace Papyrus

/-! ## Reading characters -/

namespace Mode

/-- The mode after a character in code that is followed by `after`. -/
def opened (c : Char) (after : Text) : Mode :=
  if c = '\x7b' then .commentDoc
  else if c = ';' then if after.head? = some '/' then .commentMultiLine else .comment
  else if c = '"' then .string
  else .code

/-- The number of backslashes at the end of what has been read, the last character of which is
given first. White space is passed over. -/
def backslashes (before : Text) : Nat :=
  (before.takeWhile fun c => Unicode.isWhiteSpace c || c == '\\').count '\\'

/-- Whether a character ends the comment or string of the mode. -/
def endsAt (mode : Mode) (before : Text) (c : Char) : Bool :=
  match mode with
  | .code | .comment => false
  | .commentDoc => c == '\x7d'
  | .commentMultiLine => c == ';' && before.head? == some '/'
  | .string => c == '"' && backslashes before % 2 == 0

/-- The comment or string that a character is part of, told by its style, and the mode after it. -/
def read (mode : Mode) (before : Text) (c : Char) (after : Text) : Style × Mode :=
  match mode with
  | .code => ((opened c after).style, opened c after)
  | mode => (mode.style, if mode.endsAt before c then .code else mode)

/-- The characters of a text, each with the comment or string that it is part of, and the mode after
the text. What has been read before is given with its last character first. -/
def readAll (mode : Mode) (before : Text) : Text → List (Char × Style) × Mode
  | [] => ([], mode)
  | c :: t =>
    let (style, next) := mode.read before c t
    let (cells, final) := readAll next (c :: before) t
    ((c, style) :: cells, final)

end Mode

/-- The style of a byte of the given characters. -/
def styleOfByte : List (Char × Style) → Nat → Style
  | [], _ => .default
  | (c, style) :: cells, i => if i < c.utf8Size then style else styleOfByte cells (i - c.utf8Size)

theorem styleOfByte_append (text : Text) (style : Style) (cells : List (Char × Style)) (i : Nat) :
    styleOfByte (text.map (·, style) ++ cells) i =
      if i < Text.size text then style else styleOfByte cells (i - Text.size text) := by
  induction text generalizing i with
  | nil => rfl
  | cons c text ih =>
    rw [List.map_cons, List.cons_append, styleOfByte, ih, Text.size_cons]
    by_cases hc : i < c.utf8Size
    · rw [if_pos hc, if_pos (by omega)]
    · rw [if_neg hc]
      by_cases htext : i - c.utf8Size < Text.size text
      · rw [if_pos htext, if_pos (by omega)]
      · rw [if_neg htext, if_neg (by omega), Nat.sub_sub]

/-! ## Delimiters -/

/-- Whether a character opens or ends comments or strings or has a say in whether one ends. -/
def isDelimiter (c : Char) : Bool := ['\x7b', '\x7d', ';', '/', '"', '\\'].contains c

theorem isDelimiter_iff {c : Char} : isDelimiter c = true ↔
    c = '\x7b' ∨ c = '\x7d' ∨ c = ';' ∨ c = '/' ∨ c = '"' ∨ c = '\\' := by
  simp [isDelimiter]

theorem isWhiteSpace_of_isDelimiter {c : Char} (h : isDelimiter c = true) :
    Unicode.isWhiteSpace c = false := by
  rcases isDelimiter_iff.1 h with rfl | rfl | rfl | rfl | rfl | rfl <;> decide

theorem ne_of_isDelimiter {c d : Char} (h : isDelimiter c = false) (hd : isDelimiter d = true) :
    c ≠ d := by
  rintro rfl
  rw [h] at hd
  cases hd

theorem isDelimiter_of_isWhiteSpace {c : Char} (h : Unicode.isWhiteSpace c = true) :
    isDelimiter c = false := by
  rw [Bool.eq_false_iff]
  intro hd
  rw [isWhiteSpace_of_isDelimiter hd] at h
  cases h

/-- Only a delimiter changes the mode of code. -/
theorem Mode.opened_of_not_isDelimiter {c : Char} (h : isDelimiter c = false) (after : Text) :
    Mode.opened c after = .code := by
  rw [opened, if_neg (ne_of_isDelimiter h (by decide)), if_neg (ne_of_isDelimiter h (by decide)),
    if_neg (ne_of_isDelimiter h (by decide))]

theorem Mode.endsAt_of_not_isDelimiter {c : Char} (h : isDelimiter c = false) (mode : Mode)
    (before : Text) : mode.endsAt before c = false := by
  have hne : ∀ d, isDelimiter d = true → (c == d) = false := fun d hd =>
    beq_eq_false_iff_ne.2 (ne_of_isDelimiter h hd)
  cases mode with
  | code | comment => rfl
  | commentDoc => exact hne _ (by decide)
  | commentMultiLine => rw [endsAt, hne _ (by decide), Bool.false_and]
  | string => rw [endsAt, hne _ (by decide), Bool.false_and]

/-- A character that is no delimiter leaves the mode as it is. -/
theorem Mode.read_of_not_isDelimiter {c : Char} (h : isDelimiter c = false) (mode : Mode)
    (before after : Text) : mode.read before c after = (mode.style, mode) := by
  cases mode with
  | code => rw [read, opened_of_not_isDelimiter h]
  | _ => simp only [read, endsAt_of_not_isDelimiter h, if_neg Bool.false_ne_true]

/-- Without delimiters the mode stays. -/
theorem Mode.readAll_append {text : Text} (h : ∀ c ∈ text, isDelimiter c = false) (mode : Mode)
    (before rest : Text) :
    mode.readAll before (text ++ rest) =
      let r := mode.readAll (text.reverse ++ before) rest
      (text.map (·, mode.style) ++ r.1, r.2) := by
  induction text generalizing before with
  | nil => rfl
  | cons c text ih =>
    have ih := ih (fun d hd => h d (List.mem_cons_of_mem c hd)) (c :: before)
    rw [List.cons_append, readAll, read_of_not_isDelimiter (h c List.mem_cons_self),
      List.reverse_cons, List.append_assoc]
    dsimp only
    rw [ih]
    rfl

/-- White space leaves the mode as it is. -/
theorem Mode.readAll_cons_isWhiteSpace {c : Char} (h : Unicode.isWhiteSpace c = true) (mode : Mode)
    (before t : Text) :
    mode.readAll before (c :: t) =
      ((c, mode.style) :: (mode.readAll (c :: before) t).1, (mode.readAll (c :: before) t).2) := by
  rw [readAll, read_of_not_isDelimiter (isDelimiter_of_isWhiteSpace h)]

/-! ## Delimiters are tokens -/

/-- A text is a delimiter in lower case only if it is that delimiter. -/
theorem lowerCase_eq_delimiter {t : Text} {d : Char} (hd : isDelimiter d = true) :
    Unicode.lowerCase t = [d] ↔ t = [d] := by
  have hplain : Unicode.isAscii d = true ∧ 0 < d.toNat ∧ d.isAlpha = false := by
    rcases isDelimiter_iff.1 hd with rfl | rfl | rfl | rfl | rfl | rfl <;> decide
  exact Unicode.lowerCase_eq_singleton hplain.1 hplain.2.1 hplain.2.2

namespace Token

theorem lexeme_of_isDelimiter {c : Char} (h : isDelimiter c = true) (t : Text) :
    lexeme c t = (.special, [c], t) := by
  have hc : isIdentifierStart c = false ∧ (c.isDigit || c == '-') = false := by
    rcases isDelimiter_iff.1 h with rfl | rfl | rfl | rfl | rfl | rfl <;> decide
  rw [lexeme, hc.1, hc.2]
  rfl

theorem isDelimiter_of_isIdentifierRest {c : Char} (h : isIdentifierRest c = true) :
    isDelimiter c = false := by
  rw [Bool.eq_false_iff]
  intro hd
  rcases isDelimiter_iff.1 hd with rfl | rfl | rfl | rfl | rfl | rfl <;> revert h <;> decide

theorem isDelimiter_of_goesOn {z d h : Bool} {c : Char}
    (hgo : (c.isDigit || (c == '.' && d) || ((c == 'x' || c == 'X') && z) ||
      (h && isHexDigit c)) = true) : isDelimiter c = false := by
  rw [Bool.eq_false_iff]
  intro hd
  rcases isDelimiter_iff.1 hd with rfl | rfl | rfl | rfl | rfl | rfl <;> revert z d h <;> decide

theorem isDelimiter_of_mem_splitNumeral {z d h : Bool} {t : Text} {x : Char}
    (hx : x ∈ (splitNumeral z d h t).1) : isDelimiter x = false := by
  fun_induction splitNumeral z d h t with
  | case1 => cases hx
  | case2 z d h c t isX hgo a b heq ih =>
    rcases List.mem_cons.1 hx with rfl | hx
    · exact isDelimiter_of_goesOn hgo
    · exact ih (heq ▸ hx)
  | case3 => cases hx

/-- A token that does not start with a delimiter has none. -/
theorem isDelimiter_of_mem_lexeme {c : Char} (h : isDelimiter c = false) {t : Text} {x : Char}
    (hx : x ∈ (lexeme c t).2.1) : isDelimiter x = false := by
  unfold lexeme at hx
  split at hx
  · rcases List.mem_cons.1 hx with rfl | hx
    · exact h
    · exact isDelimiter_of_isIdentifierRest (List.all_eq_true.1 List.all_takeWhile x hx)
  · split at hx
    · rcases List.mem_cons.1 hx with rfl | hx
      · exact h
      · exact isDelimiter_of_mem_splitNumeral hx
    · obtain rfl := List.mem_singleton.1 hx
      exact h

/-- The token that starts with `c` at an offset and is followed by `t`. -/
def first (c : Char) (t : Text) (base : Nat) : Token :=
  let lex := lexeme c t
  ⟨String.ofList (Unicode.lowerCase lex.2.1), lex.1, base, base + Text.size lex.2.1⟩

theorem scan_cons {c : Char} (h : Unicode.isWhiteSpace c = false) (t : Text) (base : Nat) :
    scan (c :: t) base = first c t base :: scan (lexeme c t).2.2 (first c t base).stop := by
  rw [scan, if_neg (by rw [h]; exact Bool.false_ne_true)]
  rfl

theorem scan_cons_isWhiteSpace {c : Char} (h : Unicode.isWhiteSpace c = true) (t : Text)
    (base : Nat) : scan (c :: t) base = scan t (base + c.utf8Size) := by
  rw [scan, if_pos h]

/-- A text is read token by token, or one character of white space at a time. -/
@[elab_as_elim]
theorem scanInduction {motive : Text → Nat → Prop} (nil : ∀ base, motive [] base)
    (blank : ∀ c t base, Unicode.isWhiteSpace c = true → motive t (base + c.utf8Size) →
      motive (c :: t) base)
    (token : ∀ c t base, Unicode.isWhiteSpace c = false →
      motive (lexeme c t).2.2 (first c t base).stop → motive (c :: t) base)
    (text : Text) (base : Nat) : motive text base := by
  induction text, base using scan.induct with
  | case1 base => exact nil base
  | case2 base c t h ih => exact blank c t base h ih
  | case3 base c t h lex stop ih => exact token c t base (Bool.eq_false_iff.2 h) ih

theorem head?_lexeme (c : Char) (t : Text) : (lexeme c t).2.1.head? = some c := by
  unfold lexeme
  split
  · rfl
  · split <;> rfl

/-- A token is a delimiter if its first character is. -/
theorem content_first {d : Char} (hd : isDelimiter d = true) {s : String} (hs : s.toList = [d])
    (c : Char) (t : Text) (base : Nat) : ((first c t base).content == s) = (c == d) := by
  rw [Bool.eq_iff_iff, beq_iff_eq, beq_iff_eq, ← String.toList_inj, hs, first,
    String.toList_ofList, lowerCase_eq_delimiter hd]
  constructor
  · intro h
    have hhead := head?_lexeme c t
    rw [h] at hhead
    exact (Option.some.inj hhead).symm
  · rintro rfl
    rw [lexeme_of_isDelimiter hd]

/-- A token that touches what stands before it is a slash if the next character is one. -/
theorem isSlash_head?_scan (t : Text) (base : Nat) :
    ((scan t base).head?.any fun n => n.content == "/" && base == n.start) =
      (t.head? == some '/') := by
  cases t with
  | nil => rw [scan]; rfl
  | cons c t =>
    cases h : Unicode.isWhiteSpace c with
    | true =>
      have hne : c ≠ '/' := by
        rintro rfl
        revert h
        decide
      have hbound : ∀ n ∈ (scan t (base + c.utf8Size)).head?, (base == n.start) = false := by
        intro n hn
        have := (scan_ordered t (base + c.utf8Size)).mem (List.mem_of_mem_head? hn)
        have := c.utf8Size_pos
        rw [beq_eq_false_iff_ne]
        omega
      rw [scan_cons_isWhiteSpace h, List.head?_cons]
      cases hn : (scan t (base + c.utf8Size)).head? with
      | none => simpa using hne
      | some n =>
        rw [Option.any_some, hbound n hn, Bool.and_false]
        simpa using hne
    | false =>
      rw [scan_cons h, List.head?_cons, List.head?_cons, Option.any_some,
        content_first (d := '/') (by decide) rfl]
      simp [first]

/-! ## What has been read -/

/-- What is remembered of a line that has been read up to an offset: its characters and its tokens,
the last ones first. -/
structure Recalls (before : Text) (behind : List Token) (base : Nat) : Prop where
  bound : ∀ p ∈ behind.head?, p.stop ≤ base
  slash : (behind.head?.any fun p => p.content == "/" && p.stop == base) =
    (before.head? == some '/')
  backslashes : (behind.takeWhile (·.content == "\\")).length = Mode.backslashes before

theorem recalls_nil (base : Nat) : Recalls [] [] base where
  bound := by simp
  slash := rfl
  backslashes := rfl

variable {before : Text} {behind : List Token} {base : Nat} {c : Char}

theorem Recalls.whiteSpace (h : Recalls before behind base) (hc : Unicode.isWhiteSpace c = true) :
    Recalls (c :: before) behind (base + c.utf8Size) where
  bound p hp := Nat.le_add_right_of_le (h.bound p hp)
  slash := by
    have hne : c ≠ '/' := ne_of_isDelimiter (isDelimiter_of_isWhiteSpace hc) (by decide)
    have hpos := c.utf8Size_pos
    have hbound : ∀ p ∈ behind.head?, (p.stop == base + c.utf8Size) = false := by
      intro p hp
      have := h.bound p hp
      rw [beq_eq_false_iff_ne]
      omega
    cases hp : behind.head? with
    | none => simpa using hne
    | some p =>
      rw [Option.any_some, hbound p hp, Bool.and_false]
      simpa using hne
  backslashes := by
    have hne : c ≠ '\\' := ne_of_isDelimiter (isDelimiter_of_isWhiteSpace hc) (by decide)
    rw [h.backslashes, Mode.backslashes, Mode.backslashes,
      List.takeWhile_cons_of_pos (by rw [hc]; rfl), List.count_cons_of_ne hne]

/-- Behind a token without delimiters stand no backslashes. -/
theorem backslashes_append {text : Text} (h : ∀ x ∈ text, isDelimiter x = false)
    (hc : c ∈ text) (hblank : Unicode.isWhiteSpace c = false) :
    Mode.backslashes (text.reverse ++ before) = 0 := by
  have hne : ∀ x ∈ text, x ≠ '\\' := fun x hx => ne_of_isDelimiter (h x hx) (by decide)
  have hall : ¬ ((text.reverse.takeWhile fun x => Unicode.isWhiteSpace x || x == '\\').length =
      text.reverse.length) := by
    intro hlen
    have hself := (List.takeWhile_prefix (l := text.reverse)
      fun x => Unicode.isWhiteSpace x || x == '\\').eq_of_length hlen
    have hmem := List.all_eq_true.1 (List.all_takeWhile (p := fun x =>
      Unicode.isWhiteSpace x || x == '\\') (l := text.reverse)) c
    rw [hself] at hmem
    have := hmem (List.mem_reverse.2 hc)
    rw [hblank, Bool.false_or, beq_iff_eq] at this
    exact hne c hc this
  rw [Mode.backslashes, List.takeWhile_append, if_neg hall, List.count_eq_zero]
  intro hmem
  exact hne _ (List.mem_reverse.1 (List.takeWhile_subset _ hmem)) rfl

theorem Recalls.first (h : Recalls before behind base) (hc : Unicode.isWhiteSpace c = false)
    (t : Text) :
    Recalls ((lexeme c t).2.1.reverse ++ before) (first c t base :: behind)
      (first c t base).stop where
  bound p hp := by
    obtain rfl := Option.some.inj hp
    exact Nat.le_refl _
  slash := by
    rw [List.head?_cons, Option.any_some, content_first (d := '/') (by decide) rfl,
      beq_self_eq_true, Bool.and_true]
    cases hd : isDelimiter c with
    | true =>
      rw [lexeme_of_isDelimiter hd]
      rfl
    | false =>
      have hall := fun x => @isDelimiter_of_mem_lexeme c hd t x
      have hne : ∀ x, isDelimiter x = false → x ≠ '/' := fun x hx =>
        ne_of_isDelimiter hx (by decide)
      cases hrev : (lexeme c t).2.1.reverse with
      | nil =>
        have hhead := head?_lexeme c t
        rw [List.reverse_eq_nil_iff.1 hrev] at hhead
        cases hhead
      | cons x l =>
        have hx : x ∈ (lexeme c t).2.1 := by
          rw [← List.mem_reverse, hrev]
          exact List.mem_cons_self
        rw [List.cons_append, List.head?_cons, beq_eq_false_iff_ne.2 (hne c hd)]
        simpa using hne x (hall x hx)
  backslashes := by
    rw [List.takeWhile_cons, content_first (d := '\\') (by decide) rfl]
    cases hd : isDelimiter c with
    | true =>
      rw [lexeme_of_isDelimiter hd, List.reverse_singleton, List.singleton_append,
        Mode.backslashes, List.takeWhile_cons, hc, Bool.false_or]
      by_cases hb : c = '\\'
      · rw [if_pos (beq_iff_eq.2 hb), if_pos (beq_iff_eq.2 hb), List.length_cons, h.backslashes, hb,
          List.count_cons_self]
        rfl
      · rw [if_neg (by simpa using hb), if_neg (by simpa using hb)]
        rfl
    | false =>
      have hb : c ≠ '\\' := ne_of_isDelimiter hd (by decide)
      rw [if_neg (by simpa using hb), backslashes_append
        (fun x => isDelimiter_of_mem_lexeme hd) (List.mem_of_mem_head? (head?_lexeme c t)) hc]
      rfl

end Token

/-! ## From tokens to characters -/

variable {before : Text} {behind : List Token} {base : Nat}

/-- The characters of a token are read as its first character is. -/
theorem Mode.readAll_lexeme (mode : Mode) (before : Text) (c : Char) (t : Text) :
    mode.readAll before (c :: t) =
      let r := mode.read before c t
      let s := r.2.readAll ((Token.lexeme c t).2.1.reverse ++ before) (Token.lexeme c t).2.2
      ((Token.lexeme c t).2.1.map (·, r.1) ++ s.1, s.2) := by
  cases h : isDelimiter c with
  | true =>
    rw [Token.lexeme_of_isDelimiter h]
    rfl
  | false =>
    have happend := readAll_append (fun x => Token.isDelimiter_of_mem_lexeme h (t := t)) mode before
      (Token.lexeme c t).2.2
    rw [Token.lexeme_append] at happend
    rw [happend, read_of_not_isDelimiter h]

section
variable (env : Surroundings) (line : Nat)

/-- A token in code opens what its first character opens. -/
theorem styleCode_eq_opened (c : Char) (t : Text) (base : Nat) (k : Knowledge) :
    let next := (Token.scan (Token.lexeme c t).2.2 (Token.first c t base).stop).head?
    (styleCode env line (.first c t base) next k).1.region = (Mode.opened c t).style ∧
      (styleCode env line (.first c t base) next k).2.1 = Mode.opened c t := by
  have hplain : ∀ b : Bool, (if b then Style.operator else Style.default).region = .default := by
    decide
  cases h : isDelimiter c with
  | false =>
    have hcontent : ∀ (s : String) (d : Char), s.toList = [d] → isDelimiter d = true →
        ((Token.first c t base).content == s) = false := by
      intro s d hs hd
      rw [Token.content_first hd hs, beq_eq_false_iff_ne]
      exact ne_of_isDelimiter h hd
    unfold styleCode
    rw [Mode.opened_of_not_isDelimiter h, hcontent "\x7b" '\x7b' rfl rfl,
      hcontent ";" ';' rfl rfl, hcontent "\"" '"' rfl rfl]
    cases (Token.first c t base).kind with
    | identifier => exact ⟨Style.region_of_not_isInert (isInert_styleIdentifier _ _ _ _ _), rfl⟩
    | numeric => exact ⟨rfl, rfl⟩
    | special => exact ⟨hplain _, rfl⟩
  | true =>
    have hkind : (Token.first c t base).kind = .special := by
      rw [Token.first, Token.lexeme_of_isDelimiter h]
    have hslash : ((Token.scan (Token.lexeme c t).2.2 (Token.first c t base).stop).head?.any
        fun n => n.content == "/" && (Token.first c t base).touches n) =
          (t.head? == some '/') := by
      rw [Token.lexeme_of_isDelimiter h]
      exact Token.isSlash_head?_scan t _
    unfold styleCode
    rw [hkind]
    dsimp only
    rw [Token.content_first (d := '\x7b') rfl rfl, Token.content_first (d := ';') rfl rfl,
      Token.content_first (d := '"') rfl rfl, hslash]
    simp only [beq_iff_eq, Mode.opened]
    by_cases hdoc : c = '\x7b'
    · rw [if_pos hdoc, if_pos hdoc]
      exact ⟨rfl, rfl⟩
    rw [if_neg hdoc, if_neg hdoc]
    by_cases hcomment : c = ';'
    · rw [if_pos hcomment, if_pos hcomment]
      by_cases hmulti : t.head? = some '/'
      · rw [if_pos hmulti, if_pos hmulti]
        exact ⟨rfl, rfl⟩
      · rw [if_neg hmulti, if_neg hmulti]
        exact ⟨rfl, rfl⟩
    rw [if_neg hcomment, if_neg hcomment]
    by_cases hstring : c = '"'
    · rw [if_pos hstring, if_pos hstring]
      exact ⟨rfl, rfl⟩
    · rw [if_neg hstring, if_neg hstring]
      exact ⟨hplain _, rfl⟩

/-- A token ends what its first character ends. -/
theorem closes_eq_endsAt (h : Token.Recalls before behind base) (mode : Mode) (c : Char)
    (t : Text) : closes mode behind (.first c t base) = mode.endsAt before c := by
  cases mode with
  | code | comment => rfl
  | commentDoc => exact Token.content_first rfl rfl c t base
  | commentMultiLine =>
    rw [closes, Mode.endsAt, Token.content_first (d := ';') rfl rfl, ← h.slash]
    rfl
  | string =>
    have hparity : ∀ n : Nat, (!(n % 2 == 1)) = (n % 2 == 0) := by
      intro n
      rcases Nat.mod_two_eq_zero_or_one n with h | h <;> rw [h] <;> rfl
    rw [closes, Mode.endsAt, Token.content_first (d := '"') rfl rfl, isEscaped, h.backslashes,
      hparity]

/-- A token is read as its first character is. -/
theorem styleToken_eq_read (h : Token.Recalls before behind base) (mode : Mode) (c : Char)
    (t : Text) (k : Knowledge) :
    let next := (Token.scan (Token.lexeme c t).2.2 (Token.first c t base).stop).head?
    (styleToken env line mode behind (.first c t base) next k).1.region =
        (mode.read before c t).1 ∧
      (styleToken env line mode behind (.first c t base) next k).2.1 =
        (mode.read before c t).2 := by
  cases mode with
  | code => exact styleCode_eq_opened env line c t base k
  | _ =>
    simp only [styleToken, Mode.read, closes_eq_endsAt h]
    exact ⟨Mode.region_style _, trivial⟩

/-- The comments and strings that the tokens of a text give are those read from its characters.
From the end of the last token on, white space has the style of the mode. -/
theorem styleTokens_eq_readAll (text : Text) (h : Token.Recalls before behind base)
    {cursor : Nat} (hcursor : cursor ≤ base) (mode : Mode) (k : Knowledge) :
    let r := styleTokens env line mode behind cursor k (Token.scan text base)
    let s := mode.readAll before text
    r.2.2.1 = s.2 ∧ ∀ p, cursor ≤ p → p < base + text.size →
      (StyledSpan.styleIn (r.1 ++ gap r.2.1 (base + text.size) r.2.2.1.style) p).region =
        if p < base then mode.style else styleOfByte s.1 (p - base) := by
  induction text, base using Token.scanInduction generalizing before behind cursor mode k with
  | nil base =>
    rw [Token.scan]
    refine ⟨rfl, fun p hlo hhi => ?_⟩
    have hgap := StyledSpan.styleIn_gap cursor (base + Text.size []) mode.style [] p
    rw [List.append_nil, if_pos ⟨hlo, hhi⟩] at hgap
    rw [Text.size_nil, Nat.add_zero] at hhi
    rw [if_pos hhi]
    exact (congrArg Style.region hgap).trans mode.region_style
  | blank c t base hc ih =>
    obtain ⟨hmode, hstyle⟩ := ih (h.whiteSpace hc) (Nat.le_add_right_of_le hcursor) mode k
    rw [Mode.readAll_cons_isWhiteSpace hc, Token.scan_cons_isWhiteSpace hc, Text.size_cons,
      ← Nat.add_assoc]
    refine ⟨hmode, fun p hlo hhi => ?_⟩
    rw [hstyle p hlo hhi, styleOfByte]
    by_cases hp : p < base
    · rw [if_pos hp, if_pos (by omega)]
    · rw [if_neg hp]
      by_cases hc : p < base + c.utf8Size
      · rw [if_pos hc, if_pos (by omega)]
      · rw [if_neg hc, if_neg (by omega), Nat.sub_add_eq]
  | token c t base hc ih =>
    obtain ⟨hregion, hafter⟩ := styleToken_eq_read env line h mode c t k
    obtain ⟨hmode, hstyle⟩ := ih (h.first hc t) (Nat.le_refl _) (mode.read before c t).2
      (styleToken env line mode behind (.first c t base)
        (Token.scan (Token.lexeme c t).2.2 (Token.first c t base).stop).head? k).2.2
    have hsize := congrArg Text.size (Token.lexeme_append c t)
    rw [Text.size_append] at hsize
    have hstart : (Token.first c t base).start = base := rfl
    have hstop : (Token.first c t base).stop = base + Text.size (Token.lexeme c t).2.1 := rfl
    have hlast : base + Text.size (c :: t) =
        (Token.first c t base).stop + Text.size (Token.lexeme c t).2.2 := by omega
    have hpos : 0 < Text.size (Token.lexeme c t).2.1 := Token.size_lexeme_pos c t
    rw [Token.scan_cons hc, Mode.readAll_lexeme, hlast, styleTokens]
    dsimp only
    rw [hafter]
    refine ⟨hmode, fun p hlo hhi => ?_⟩
    rw [List.append_assoc, StyledSpan.styleIn_gap, List.cons_append, StyledSpan.styleIn_cons,
      styleOfByte_append]
    dsimp only
    by_cases hgap : p < base
    · rw [if_pos ⟨hlo, hgap⟩, if_pos hgap, Mode.region_style]
    rw [if_neg (fun h => hgap h.2), if_neg hgap]
    by_cases hin : p < (Token.first c t base).stop
    · rw [if_pos ⟨by omega, hin⟩, if_pos (by omega)]
      exact hregion
    · have hrest := hstyle p (by omega) hhi
      rw [if_neg hin] at hrest
      rw [if_neg (fun h => hin h.2), if_neg (by omega), Nat.sub_sub, ← hstop]
      exact hrest

/-- What a byte of a line is part of. -/
theorem region_styleLine (text : Text) (base : Nat) (incoming : LineState) (k : Knowledge)
    {i : Nat} (hi : i < text.size) :
    (StyledSpan.styleIn (styleLine env text base line incoming k).1.spans (base + i)).region =
      styleOfByte ((Mode.ofState incoming).readAll [] text).1 i := by
  obtain ⟨-, hstyle⟩ := styleTokens_eq_readAll env line text (Token.recalls_nil base)
    (Nat.le_refl base) (.ofState incoming) k
  have hbyte := hstyle (base + i) (Nat.le_add_right _ _) (Nat.add_lt_add_left hi _)
  rwa [if_neg (by omega), Nat.add_sub_cancel_left] at hbyte

/-- What a line leaves open. -/
theorem final_styleLine (text : Text) (base : Nat) (incoming : LineState) (k : Knowledge) :
    let r := (styleLine env text base line incoming k).1
    let final := ((Mode.ofState incoming).readAll [] text).2
    r.trailing = final.style ∧ r.endState = final.endState := by
  obtain ⟨hmode, -⟩ := styleTokens_eq_readAll env line text (Token.recalls_nil base)
    (Nat.le_refl base) (.ofState incoming) k
  exact ⟨congrArg Mode.style hmode, congrArg Mode.endState hmode⟩

/-- The comments and strings of a line, whatever styling looks up, are those that are read from its
characters; so are the style of its terminator and the state that it leaves. -/
theorem styleLine_eq_readAll (text : Text) (base : Nat) (incoming : LineState) (k : Knowledge) :
    let r := (styleLine env text base line incoming k).1
    let s := (Mode.ofState incoming).readAll [] text
    StyledSpan.Tiles base r.spans (base + text.size) ∧
      (∀ i < text.size, (StyledSpan.styleIn r.spans (base + i)).region = styleOfByte s.1 i) ∧
      r.trailing = s.2.style ∧ r.endState = s.2.endState :=
  ⟨tiles_styleLine env text base line incoming k,
    fun _ hi => region_styleLine env line text base incoming k hi,
    final_styleLine env line text base incoming k⟩

end

/-- The slash that opens a block comment may be the one that ends it; an escaped quote ends no
string. -/
example : ((Mode.code.readAll [] ";/;\"\\\" \"".toList).1.map (·.2)) =
    .replicate 3 .commentMultiLine ++ .replicate 5 .string := by decide

end Papyrus

import Papyrus.Proofs.Redaction
/-!
# Tokens in code

The tokens of a line that stand in code, each with the token behind it if that one stands in code
too (`Token.inCode`), are all that styling needs of a line but for where its comments and strings
are. They can be read off the redacted line: a token ends where it did when something else stands
behind it, as long as that starts with the same character or a delimiter.

Results:
* `lexeme_append_of_head`: a token does not depend on what follows it.
* `inCode_scan_redact`: the tokens in code are those of the redacted line.
* `styleTokens_eq_styleInCode`: styling goes through the tokens in code.
* `styleLine_of_redact_eq`: lines that are redacted to the same are styled alike.
-/
namespace Papyrus

namespace Token

/-! ## What follows a token -/

/-- Whether a text can stand in for the one that follows a token. -/
def StandsIn (rest rest' : Text) : Prop :=
  ∀ c ∈ rest'.head?, isDelimiter c = true ∨ c ∈ rest.head?

theorem splitNumeral_append_of_head {z d h : Bool} {t rest : Text}
    (hrest : StandsIn (splitNumeral z d h t).2 rest) :
    splitNumeral z d h ((splitNumeral z d h t).1 ++ rest) = ((splitNumeral z d h t).1, rest) := by
  have hstop : ∀ {z d h : Bool} {rest : Text}, (∀ c ∈ rest.head?,
      (c.isDigit || (c == '.' && d) || ((c == 'x' || c == 'X') && z) || (h && isHexDigit c)) =
        false) → splitNumeral z d h rest = ([], rest) := by
    intro z d h rest hhead
    cases rest with
    | nil => rfl
    | cons c rest => rw [splitNumeral, if_neg (by rw [hhead c rfl]; exact Bool.false_ne_true)]
  have hdelim : ∀ {z d h : Bool} {c : Char}, isDelimiter c = true →
      (c.isDigit || (c == '.' && d) || ((c == 'x' || c == 'X') && z) || (h && isHexDigit c)) =
        false := by
    intro z d h c hc
    rw [Bool.eq_false_iff]
    intro hgo
    rw [isDelimiter_of_goesOn hgo] at hc
    cases hc
  fun_induction splitNumeral z d h t with
  | case1 z d h => exact hstop fun c hc => hdelim ((hrest c hc).resolve_right (by simp))
  | case2 z d h c t isX hgo a b heq ih =>
    rw [heq] at ih
    rw [List.cons_append, splitNumeral, if_pos hgo, ih hrest]
  | case3 z d h c t isX hgo =>
    refine hstop fun x hx => ?_
    rcases hrest x hx with hd | hsame
    · exact hdelim hd
    · obtain rfl := Option.some.inj hsame
      exact Bool.eq_false_iff.2 hgo

theorem exists_lexeme_eq_cons (c : Char) (t : Text) : ∃ a, (lexeme c t).2.1 = c :: a := by
  have hhead := head?_lexeme c t
  cases hlex : (lexeme c t).2.1 with
  | nil =>
    rw [hlex] at hhead
    cases hhead
  | cons x a =>
    rw [hlex] at hhead
    obtain rfl := Option.some.inj hhead
    exact ⟨a, rfl⟩

/-- A token does not depend on what follows it. -/
theorem lexeme_append_of_head {c : Char} {t a rest : Text} (ha : (lexeme c t).2.1 = c :: a)
    (hrest : StandsIn (lexeme c t).2.2 rest) :
    lexeme c (a ++ rest) = ((lexeme c t).1, c :: a, rest) := by
  unfold lexeme at ha hrest ⊢
  by_cases hident : isIdentifierStart c = true
  · rw [if_pos hident] at ha hrest ⊢
    rw [if_pos hident]
    obtain rfl : t.takeWhile isIdentifierRest = a := (List.cons.inj ha).2
    have hall : ∀ x ∈ t.takeWhile isIdentifierRest, isIdentifierRest x = true :=
      List.all_eq_true.1 List.all_takeWhile
    have hstop : ∀ x ∈ rest.head?, ¬ isIdentifierRest x = true := by
      intro x hx hgo
      rcases hrest x hx with hd | hsame
      · rw [isDelimiter_of_isIdentifierRest hgo] at hd
        cases hd
      · have hnot := List.head?_dropWhile_not isIdentifierRest t
        rw [Option.mem_def.1 hsame] at hnot
        exact Bool.false_ne_true (hnot.symm.trans hgo)
    rw [List.takeWhile_append_of_pos hall, List.dropWhile_append_of_pos hall]
    cases rest with
    | nil => simp
    | cons x rest =>
      rw [List.takeWhile_cons_of_neg (hstop x rfl), List.dropWhile_cons_of_neg (hstop x rfl),
        List.append_nil]
  rw [if_neg hident] at ha hrest ⊢
  rw [if_neg hident]
  by_cases hnumeral : (c.isDigit || c == '-') = true
  · rw [if_pos hnumeral] at ha hrest ⊢
    rw [if_pos hnumeral]
    obtain rfl : (splitNumeral (c == '0') c.isDigit false t).1 = a := (List.cons.inj ha).2
    rw [splitNumeral_append_of_head hrest]
  · rw [if_neg hnumeral] at ha ⊢
    rw [if_neg hnumeral]
    obtain rfl : [] = a := (List.cons.inj ha).2
    rfl

/-- A token is the same one before a text that stands in for what follows it. -/
theorem scan_append_of_head {c : Char} {t rest : Text} {base : Nat}
    (hc : Unicode.isWhiteSpace c = false) (hrest : StandsIn (lexeme c t).2.2 rest) :
    scan ((lexeme c t).2.1 ++ rest) base =
      first c t base :: scan rest (first c t base).stop := by
  obtain ⟨a, ha⟩ := exists_lexeme_eq_cons c t
  have hlex := lexeme_append_of_head ha hrest
  have hfirst : first c (a ++ rest) base = first c t base := by rw [first, first, hlex, ha]
  rw [ha, List.cons_append, scan_cons hc, hfirst, hlex]

/-! ## Tokens that start in code -/

/-- The tokens that start in code, each with the token behind it if that one does so too. -/
def inCode (code : Nat → Bool) : List Token → List (Token × Option Token)
  | [] => []
  | t :: rest =>
    if code t.start then (t, rest.head?.filter fun n => code n.start) :: inCode code rest
    else inCode code rest

section
variable {code : Nat → Bool}

/-- Semicolons that are no code hold no tokens in code. -/
theorem inCode_scan_replicate {n base : Nat} (h : ∀ i < n, code (base + i) = false)
    (rest : Text) :
    inCode code (scan (.replicate n ';' ++ rest) base) = inCode code (scan rest (base + n)) := by
  induction n generalizing base with
  | zero => rfl
  | succ n ih =>
    have hfirst : code (first ';' (.replicate n ';' ++ rest) base).start = false := h 0 n.succ_pos
    have hrest : ∀ i < n, code (base + 1 + i) = false := by
      intro i hi
      rw [Nat.add_assoc, Nat.add_comm 1]
      exact h (i + 1) (Nat.succ_lt_succ hi)
    rw [List.replicate_succ, List.cons_append, scan_cons (by decide), inCode, hfirst,
      if_neg Bool.false_ne_true, lexeme_of_isDelimiter (by decide)]
    have hstop : (first ';' (.replicate n ';' ++ rest) base).stop = base + 1 := by
      rw [first, lexeme_of_isDelimiter (by decide)]
      rfl
    rw [hstop, ih hrest, Nat.add_assoc, Nat.add_comm 1]

theorem head?_scan_replicate {n base : Nat} (hn : 0 < n) (h : code base = false) (rest : Text) :
    (scan (.replicate n ';' ++ rest) base).head?.filter (fun t => code t.start) = none := by
  obtain ⟨n, rfl⟩ := Nat.exists_eq_succ_of_ne_zero (Nat.ne_of_gt hn)
  rw [List.replicate_succ, List.cons_append, scan_cons (by decide), List.head?_cons]
  have hfirst : code (first ';' (.replicate n ';' ++ rest) base).start = false := h
  exact if_neg (Bool.eq_false_iff.1 hfirst)

end

end Token

open Token (inCode scan)

/-! ## Tokens of a redacted line -/

theorem redact_map_inert {style : Style} (h : style.isInert = true) (text : Text) :
    redact (text.map (·, style)) = .replicate text.size (';', style) := by
  induction text with
  | nil => rfl
  | cons c text ih =>
    rw [List.map_cons, redact_cons_inert h, ih, List.replicate_append_replicate, Text.size_cons]

/-- A redacted line stands in for the line. -/
theorem standsIn_redact (mode : Mode) (before text : Text) :
    Token.StandsIn text (textOf (redact (mode.readAll before text).1)) := by
  intro c hc
  cases text with
  | nil => cases hc
  | cons x text =>
    rw [Mode.readAll] at hc
    dsimp only at hc
    cases hstyle : (mode.read before x text).1.isInert with
    | true =>
      obtain ⟨n, hn⟩ := Nat.exists_eq_succ_of_ne_zero (Nat.ne_of_gt x.utf8Size_pos)
      rw [redact_cons_inert hstyle, hn] at hc
      obtain rfl := Option.some.inj hc
      exact Or.inl (rfl : isDelimiter ';' = true)
    | false =>
      rw [redact_cons_code hstyle] at hc
      exact Or.inr hc

/-- The tokens of a line in code are those of the redacted line. In code, the same goes for what
follows. -/
theorem inCode_scan_redact {code : Nat → Bool} (text : Text) (base : Nat) (mode : Mode)
    (before : Text)
    (hcode : ∀ i < text.size,
      code (base + i) = !(styleOfByte (mode.readAll before text).1 i).isInert) :
    let redacted := textOf (redact (mode.readAll before text).1)
    inCode code (scan text base) = inCode code (scan redacted base) ∧
      (mode = .code → (scan text base).head?.filter (fun t => code t.start) =
        (scan redacted base).head?.filter (fun t => code t.start)) := by
  induction text, base using Token.scanInduction generalizing mode before with
  | nil base => exact ⟨rfl, fun _ => rfl⟩
  | blank c t base hc ih =>
    rw [Mode.readAll_cons_isWhiteSpace hc] at hcode ⊢
    rw [Text.size_cons] at hcode
    obtain ⟨htokens, hhead⟩ := ih mode (c :: before) fun i hi => by
      rw [Nat.add_assoc, hcode _ (Nat.add_lt_add_left hi _), styleOfByte, if_neg (by omega),
        Nat.add_sub_cancel_left]
    dsimp only at htokens hhead ⊢
    rw [Token.scan_cons_isWhiteSpace hc]
    cases hmode : mode.style.isInert with
    | true =>
      rw [redact_cons_inert hmode, textOf_append, textOf, List.map_replicate,
        Token.inCode_scan_replicate]
      · refine ⟨htokens, ?_⟩
        rintro rfl
        cases hmode
      · intro i hi
        rw [hcode i (by omega), styleOfByte, if_pos hi, hmode]
        rfl
    | false =>
      have hcons : ∀ cells, textOf ((c, mode.style) :: cells) = c :: textOf cells := fun _ => rfl
      rw [redact_cons_code hmode, hcons, Token.scan_cons_isWhiteSpace hc]
      exact ⟨htokens, hhead⟩
  | token c t base hc ih =>
    have hsize := congrArg Text.size (Token.lexeme_append c t)
    have hpos := Token.size_lexeme_pos c t
    have hnext := @Mode.read_eq_code mode before c t
    rw [Text.size_append] at hsize
    rw [Mode.readAll_lexeme] at hcode ⊢
    dsimp only at hcode ⊢
    generalize mode.read before c t = r at hcode hnext ⊢
    obtain ⟨style, next⟩ := r
    dsimp only at hcode hnext ⊢
    obtain ⟨htokens, hhead⟩ := ih next ((Token.lexeme c t).2.1.reverse ++ before) fun i hi => by
      rw [show (Token.first c t base).stop + i = base + (Text.size (Token.lexeme c t).2.1 + i) from
        Nat.add_assoc _ _ _, hcode _ (by omega), styleOfByte_append, if_neg (by omega),
        Nat.add_sub_cancel_left]
    have hstart : code (Token.first c t base).start = !style.isInert := by
      have hbyte := hcode 0 (by omega)
      rwa [styleOfByte_append, if_pos hpos] at hbyte
    rw [Token.scan_cons hc, redact_append, textOf_append, inCode, List.head?_cons]
    cases hstyle : style.isInert with
    | true =>
      rw [hstyle, Bool.not_true] at hstart
      have hbase : code base = false := hstart
      rw [hstart, if_neg Bool.false_ne_true, redact_map_inert hstyle, textOf, List.map_replicate,
        Token.inCode_scan_replicate, Token.head?_scan_replicate hpos hbase]
      · exact ⟨htokens, fun _ => if_neg (Bool.eq_false_iff.1 hstart)⟩
      · intro i hi
        rw [hcode i (by omega), styleOfByte_append, if_pos hi, hstyle]
        rfl
    | false =>
      rw [hstyle, Bool.not_false] at hstart
      obtain rfl := hnext hstyle
      rw [textOf_redact_code hstyle, Token.scan_append_of_head hc
        (standsIn_redact .code ((Token.lexeme c t).2.1.reverse ++ before) _), inCode,
        List.head?_cons, hstart, if_pos rfl, if_pos rfl, htokens, hhead rfl]
      exact ⟨rfl, fun _ => rfl⟩

/-! ## Styling goes through the tokens in code -/

section
variable (env : Surroundings) (line : Nat)

/-- The spans of tokens in code. -/
def styleInCode (k : Knowledge) : List (Token × Option Token) → List StyledSpan × Knowledge
  | [] => ([], k)
  | (t, next) :: rest =>
    let (style, _, k) := styleCode env line t next k
    let (spans, k) := styleInCode k rest
    (⟨⟨t.start, t.stop⟩, style⟩ :: spans, k)

/-- What opens a comment or string is neither an identifier nor a parenthesis. -/
theorem opener_of_styleCode {t : Token} {next : Option Token} {k : Knowledge}
    (h : (styleCode env line t next k).1.isInert = true) :
    t.kind = .special ∧ (t.content == "(") = false := by
  unfold styleCode at h
  cases hkind : t.kind with
  | identifier =>
    rw [hkind] at h
    exact absurd h (Bool.eq_false_iff.1 (isInert_styleIdentifier _ _ _ _ _))
  | numeric =>
    rw [hkind] at h
    cases h
  | special =>
    refine ⟨rfl, Bool.eq_false_iff.2 fun hcontent => ?_⟩
    rw [hkind, beq_iff_eq.1 hcontent] at h
    dsimp only at h
    rw [if_neg (by decide), if_neg (by decide), if_neg (by decide)] at h
    split at h <;> cases h

/-- Code has the same style before what opens a comment or string as at the end of the line. -/
theorem styleCode_some_opener {t n : Token} {k : Knowledge}
    (h : (styleCode env line t (some n) k).1.isInert = false) (hkind : n.kind = .special)
    (hcontent : (n.content == "(") = false) :
    styleCode env line t (some n) k = styleCode env line t none k := by
  have hcallee : ∀ word, isCallee word (some n) = isCallee word none := by
    intro word
    rw [isCallee, isCallee, Option.any_some, hcontent]
    rfl
  have hident : ∀ word, styleIdentifier env line word (some n) k =
      styleIdentifier env line word none k := by
    intro word
    obtain ⟨content, kind, start, stop⟩ := n
    obtain rfl : kind = .special := hkind
    unfold styleIdentifier
    rw [hcallee]
  unfold styleCode at h ⊢
  cases hkind : t.kind with
  | identifier => simp only [hident]
  | numeric => rfl
  | special =>
    rw [hkind] at h
    dsimp only at h ⊢
    by_cases hdoc : (t.content == "\x7b") = true
    · rw [if_pos hdoc, if_pos hdoc]
    rw [if_neg hdoc] at h ⊢
    rw [if_neg hdoc]
    by_cases hcomment : (t.content == ";") = true
    · rw [if_pos hcomment] at h
      split at h <;> cases h
    · rw [if_neg hcomment, if_neg hcomment]

/-- To what stands in code, only what follows in code matters. -/
theorem styleCode_filter {code : Nat → Bool} {t : Token} {next : Option Token} {k : Knowledge}
    (h : (styleCode env line t next k).1.isInert = false)
    (hnext : ∀ n ∈ next, code n.start = false → n.kind = .special ∧ (n.content == "(") = false) :
    styleCode env line t next k =
      styleCode env line t (next.filter fun n => code n.start) k := by
  cases next with
  | none => rfl
  | some n =>
    rw [Option.filter_some]
    cases hn : code n.start with
    | true => rw [if_pos rfl]
    | false =>
      rw [if_neg Bool.false_ne_true]
      exact styleCode_some_opener env line h (hnext n rfl hn).1 (hnext n rfl hn).2

/-- What opens no comment or string leaves code behind it, and what opens one teaches nothing. -/
theorem styleToken_cases (mode : Mode) (behind : List Token) (t : Token) (next : Option Token)
    (k : Knowledge) :
    let r := styleToken env line mode behind t next k
    (mode = .code ∧ r.1.isInert = false ∧ r.2.1 = .code) ∨ (r.1.isInert = true ∧ r.2.2 = k) := by
  cases mode with
  | code =>
    dsimp only [styleToken]
    unfold styleCode
    cases t.kind with
    | identifier => exact Or.inl ⟨rfl, isInert_styleIdentifier _ _ _ _ _, rfl⟩
    | numeric => exact Or.inl ⟨rfl, rfl, rfl⟩
    | special =>
      dsimp only
      split
      · exact Or.inr ⟨rfl, rfl⟩
      split
      · split <;> exact Or.inr ⟨rfl, rfl⟩
      split
      · exact Or.inr ⟨rfl, rfl⟩
      · refine Or.inl ⟨rfl, ?_, rfl⟩
        split <;> rfl
  | _ => exact Or.inr ⟨rfl, rfl⟩

open StyledSpan (styleIn)

/-- The styles before the first token, in it and behind it. -/
theorem styleIn_styleTokens_cons (mode : Mode) (behind : List Token) (cursor : Nat) (k : Knowledge)
    (t : Token) (rest : List Token) (tail : List StyledSpan) (i : Nat) :
    let r := styleToken env line mode behind t rest.head? k
    styleIn ((styleTokens env line mode behind cursor k (t :: rest)).1 ++ tail) i =
      if cursor ≤ i ∧ i < t.start then mode.style
      else if t.start ≤ i ∧ i < t.stop then r.1
      else styleIn ((styleTokens env line r.2.1 (t :: behind) t.stop r.2.2 rest).1 ++ tail) i := by
  intro r
  rw [styleTokens]
  dsimp only
  rw [List.append_assoc, StyledSpan.styleIn_gap, List.cons_append, StyledSpan.styleIn_cons]

/-- The style at the start of the first token is that of the token. -/
theorem styleIn_styleTokens_head {mode : Mode} {behind rest : List Token} {t : Token}
    {cursor hi : Nat} {k : Knowledge} (h : Token.Ordered cursor (t :: rest) hi)
    (tail : List StyledSpan) :
    styleIn ((styleTokens env line mode behind cursor k (t :: rest)).1 ++ tail) t.start =
      (styleToken env line mode behind t rest.head? k).1 := by
  rw [styleIn_styleTokens_cons, if_neg (by omega), if_pos ⟨Nat.le_refl _, h.2.1⟩]

/-- The styles behind the first token are those of the tokens that follow. -/
theorem styleIn_styleTokens_behind {mode : Mode} {behind rest : List Token} {t : Token}
    {cursor : Nat} {k : Knowledge} (hpos : t.start < t.stop) (tail : List StyledSpan) {i : Nat}
    (hi : t.stop ≤ i) :
    styleIn ((styleTokens env line mode behind cursor k (t :: rest)).1 ++ tail) i =
      styleIn ((styleTokens env line (mode.after behind t rest.head?) (t :: behind) t.stop
        (styleToken env line mode behind t rest.head? k).2.2 rest).1 ++ tail) i := by
  rw [styleIn_styleTokens_cons, if_neg (by omega), if_neg (by omega), mode_styleToken]

/-- A token behind code that is no code itself opens a comment or string. -/
theorem opener_of_head {code : Nat → Bool} {behind rest : List Token} {cursor hi : Nat}
    {k : Knowledge} {tail : List StyledSpan} (hordered : Token.Ordered cursor rest hi)
    (hcode : ∀ t ∈ rest.head?, code t.start = !(styleIn
      ((styleTokens env line .code behind cursor k rest).1 ++ tail) t.start).isInert) :
    ∀ n ∈ rest.head?, code n.start = false → n.kind = .special ∧ (n.content == "(") = false := by
  intro n hn hncode
  cases rest with
  | nil => cases hn
  | cons m rest =>
    obtain rfl := Option.some.inj hn
    have hstart := hcode m rfl
    rw [hncode, styleIn_styleTokens_head env line hordered] at hstart
    exact opener_of_styleCode env line ((Bool.not_eq_false' _).mp hstart.symm)

/-- Before the tokens no span of theirs is found. -/
theorem styleIn_styleInCode_of_lt {code : Nat → Bool} {tokens : List Token} {lo hi i : Nat}
    {k : Knowledge} (h : Token.Ordered lo tokens hi) (hi : i < lo) :
    styleIn (styleInCode env line k (inCode code tokens)).1 i = .default := by
  induction tokens generalizing lo k with
  | nil => rfl
  | cons t rest ih =>
    obtain ⟨hlo, hpos, hrest⟩ := h
    rw [inCode]
    split
    · rw [styleInCode, StyledSpan.styleIn_cons]
      dsimp only
      rw [if_neg (by omega)]
      exact ih hrest (by omega)
    · exact ih hrest (by omega)

/-- Styling tokens finds out what the tokens in code tell, and gives them their styles. `code` tells
where the spans, together with those that follow, are no comments or strings. -/
theorem styleTokens_eq_styleInCode {code : Nat → Bool} {mode : Mode} {behind tokens : List Token}
    {cursor hi : Nat} {k : Knowledge} (tail : List StyledSpan)
    (htail : ∀ i, (styleIn tail i).isInert = false → styleIn tail i = .default)
    (hordered : Token.Ordered cursor tokens hi)
    (hcode : ∀ t ∈ tokens, code t.start =
      !(styleIn ((styleTokens env line mode behind cursor k tokens).1 ++ tail) t.start).isInert) :
    let r := styleTokens env line mode behind cursor k tokens
    let s := styleInCode env line k (inCode code tokens)
    r.2.2.2 = s.2 ∧ ∀ i, (styleIn (r.1 ++ tail) i).isInert = false →
      styleIn (r.1 ++ tail) i = styleIn s.1 i := by
  induction tokens generalizing mode behind cursor k with
  | nil => exact ⟨rfl, htail⟩
  | cons t rest ih =>
    have hfirst := hcode t List.mem_cons_self
    rw [styleIn_styleTokens_head env line hordered tail] at hfirst
    obtain ⟨hlo, hpos, hrest⟩ := hordered
    have hsplit := styleIn_styleTokens_cons env line mode behind cursor k t rest tail
    dsimp only at hsplit
    have hcases := styleToken_cases env line mode behind t rest.head? k
    have hlater : ∀ u ∈ rest, code u.start = !(styleIn ((styleTokens env line
        (styleToken env line mode behind t rest.head? k).2.1 (t :: behind) t.stop
        (styleToken env line mode behind t rest.head? k).2.2 rest).1 ++ tail) u.start).isInert := by
      intro u hu
      have hbound := hrest.mem hu
      rw [hcode u (List.mem_cons_of_mem t hu), hsplit, if_neg (by omega), if_neg (by omega)]
    obtain ⟨hknowledge, hstyle⟩ := ih hrest hlater
    rcases hcases with ⟨rfl, hplain, hafter⟩ | ⟨hinert, hsame⟩
    · rw [hafter] at hlater
      have hnext := opener_of_head env line hrest fun n hn => hlater n (List.mem_of_head? hn)
      have hsame : styleToken env line .code behind t rest.head? k =
          styleCode env line t (rest.head?.filter fun n => code n.start) k :=
        styleCode_filter env line hplain hnext
      rw [hplain, Bool.not_false] at hfirst
      rw [inCode, hfirst, if_pos rfl, styleInCode, ← hsame]
      refine ⟨hknowledge, fun i hi => ?_⟩
      rw [hsplit] at hi ⊢
      rw [StyledSpan.styleIn_cons]
      by_cases hgap : cursor ≤ i ∧ i < t.start
      · rw [if_pos hgap, if_neg (by dsimp only; omega),
          styleIn_styleInCode_of_lt env line hrest (by omega)]
        rfl
      rw [if_neg hgap] at hi ⊢
      by_cases hin : t.start ≤ i ∧ i < t.stop
      · rw [if_pos hin, if_pos hin]
      · rw [if_neg hin] at hi ⊢
        rw [if_neg hin]
        exact hstyle i hi
    · rw [hinert, Bool.not_true] at hfirst
      rw [inCode, hfirst, if_neg Bool.false_ne_true]
      refine ⟨hknowledge.trans (by rw [hsame]), fun i hi => ?_⟩
      rw [hsplit] at hi ⊢
      by_cases hgap : cursor ≤ i ∧ i < t.start
      · rw [if_pos hgap] at hi ⊢
        rw [styleIn_styleInCode_of_lt env line hrest (by omega), Mode.eq_code_of_style hi]
        rfl
      rw [if_neg hgap] at hi ⊢
      by_cases hin : t.start ≤ i ∧ i < t.stop
      · rw [if_pos hin, hinert] at hi
        cases hi
      · rw [if_neg hin] at hi ⊢
        exact (hstyle i hi).trans (by rw [hsame])

/-! ## Lines that are redacted to the same -/

theorem Style.isInert_region (s : Style) : s.region.isInert = s.isInert := by cases s <;> rfl

/-- Whether a byte of a line is code. -/
def codeAt (incoming : LineState) (text : Text) (i : Nat) : Bool :=
  !(styleOfByte ((Mode.ofState incoming).readAll [] text).1 i).isInert

/-- Styling a line finds out what its tokens in code tell, and gives them their styles. -/
theorem styleLine_eq_styleInCode (text : Text) (incoming : LineState) (k : Knowledge) :
    let r := styleLine env text 0 line incoming k
    let s := styleInCode env line k (inCode (codeAt incoming text) (scan text 0))
    r.2 = s.2 ∧ ∀ i < text.size, codeAt incoming text i = true →
      styleIn r.1.spans i = styleIn s.1 i := by
  have hbyte : ∀ i < text.size, codeAt incoming text i =
      !(styleIn (styleLine env text 0 line incoming k).1.spans i).isInert := by
    intro i hi
    have hregion := region_styleLine env line text 0 incoming k hi
    rw [Nat.zero_add] at hregion
    rw [codeAt, ← hregion, Style.isInert_region]
  have hordered := Token.scan_ordered text 0
  have htail : ∀ (start stop i : Nat) (mode : Mode),
      (styleIn (gap start stop mode.style) i).isInert = false →
        styleIn (gap start stop mode.style) i = .default := by
    intro start stop i mode
    rw [← List.append_nil (gap _ _ _), StyledSpan.styleIn_gap]
    split
    · intro hplain
      rw [Mode.eq_code_of_style hplain]
      rfl
    · exact fun _ => rfl
  obtain ⟨hknowledge, hstyle⟩ := @styleTokens_eq_styleInCode env line (codeAt incoming text)
    (.ofState incoming) [] (scan text 0) 0 (0 + text.size) k _
    (fun i => htail _ (0 + text.size) i _) hordered fun t ht =>
      hbyte t.start (by have := hordered.mem ht; omega)
  refine ⟨hknowledge, fun i hi hcode => hstyle i ?_⟩
  rw [hbyte i hi] at hcode
  exact (Bool.not_eq_true' _).mp hcode

variable {text text' : Text} {incoming incoming' : LineState}

theorem codeAt_of_redact_eq
    (h : redact ((Mode.ofState incoming).readAll [] text).1 =
      redact ((Mode.ofState incoming').readAll [] text').1) :
    codeAt incoming text = codeAt incoming' text' := by
  funext i
  rw [codeAt, codeAt, ← styleOfByte_redact, h, styleOfByte_redact]

theorem size_of_redact_eq
    (h : redact ((Mode.ofState incoming).readAll [] text).1 =
      redact ((Mode.ofState incoming').readAll [] text').1) : text.size = text'.size := by
  have hsize := congrArg (fun cells => (textOf cells).size) h
  rwa [size_redact, size_redact, Mode.textOf_readAll, Mode.textOf_readAll] at hsize

/-- Lines that are redacted to the same have the same tokens in code. -/
theorem inCode_of_redact_eq
    (h : redact ((Mode.ofState incoming).readAll [] text).1 =
      redact ((Mode.ofState incoming').readAll [] text').1) :
    inCode (codeAt incoming text) (scan text 0) =
      inCode (codeAt incoming' text') (scan text' 0) := by
  have htokens : ∀ (incoming : LineState) (text : Text),
      inCode (codeAt incoming text) (scan text 0) = inCode (codeAt incoming text)
        (scan (textOf (redact ((Mode.ofState incoming).readAll [] text).1)) 0) := by
    intro incoming text
    refine (inCode_scan_redact text 0 (.ofState incoming) [] fun i _ => ?_).1
    rw [Nat.zero_add, codeAt]
  rw [htokens, htokens, h, codeAt_of_redact_eq h]

/-- Lines that are redacted to the same are styled alike, and styling finds out the same. -/
theorem styleLine_of_redact_eq
    (h : redact ((Mode.ofState incoming).readAll [] text).1 =
      redact ((Mode.ofState incoming').readAll [] text').1) (k : Knowledge) :
    (styleLine env text 0 line incoming k).2 = (styleLine env text' 0 line incoming' k).2 ∧
      ∀ i < text.size, styleIn (styleLine env text 0 line incoming k).1.spans i =
        styleIn (styleLine env text' 0 line incoming' k).1.spans i := by
  have hcode := codeAt_of_redact_eq h
  have hsize := size_of_redact_eq h
  obtain ⟨hknowledge, hstyle⟩ := styleLine_eq_styleInCode env line text incoming k
  obtain ⟨hknowledge', hstyle'⟩ := styleLine_eq_styleInCode env line text' incoming' k
  rw [← inCode_of_redact_eq h] at hknowledge' hstyle'
  refine ⟨hknowledge.trans hknowledge'.symm, fun i hi => ?_⟩
  cases hi' : codeAt incoming text i with
  | true => rw [hstyle i hi hi', hstyle' i (by omega) (hcode ▸ hi')]
  | false =>
    have hregion := region_styleLine env line text 0 incoming k hi
    have hregion' := region_styleLine env line text' 0 incoming' k (hsize ▸ hi)
    rw [← styleOfByte_redact, ← h, styleOfByte_redact, ← hregion, Nat.zero_add] at hregion'
    have hinert : ∀ s : Style, s.isInert = true → s.region = s := fun s hs => if_pos hs
    rw [codeAt, ← hregion, Nat.zero_add, Style.isInert_region, Bool.not_eq_false'] at hi'
    have hi'' := hi'
    rw [← Style.isInert_region, ← hregion', Style.isInert_region] at hi''
    rw [← hinert _ hi', ← hinert _ hi'', hregion']

end

end Papyrus

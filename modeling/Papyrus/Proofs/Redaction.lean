import Mathlib.Data.List.Chain
import Papyrus.Proofs.CharacterModes
/-!
# Redacted lines

A line is redacted by putting semicolons in place of its comments and strings, one for each byte
(`redact`). What stands in a comment or string is gone then; where it stands, and which style it
has, is still known, and code is left as it is. Two lines that agree on their code, byte by byte,
are the same line when redacted.

Little is lost at the edges of code. The character with which a comment or string opens is told by
its style, and so is the one with which it ends (`Adjoins`). Text in code with its two neighbours
can therefore be found again in every line that is redacted to the same.

Results:
* `redact_eq`: lines that agree on their code are redacted to the same.
* `exists_of_redact_append`: code in a redacted line is code in the line.
* `adjoins_readAll`: the characters around the edges of comments and strings.
* `exists_of_redact_eq`: code and its neighbours in a line that is redacted to the same.
-/
namespace Papyrus

/-! ## Bytes -/

namespace Text

/-- The bytes of the UTF-8 form. -/
def bytes (t : Text) : List UInt8 := t.flatMap String.utf8EncodeChar

theorem bytes_cons (c : Char) (t : Text) :
    bytes (c :: t) = String.utf8EncodeChar c ++ bytes t := List.flatMap_cons

theorem bytes_append (s t : Text) : (s ++ t).bytes = s.bytes ++ t.bytes := List.flatMap_append

@[simp] theorem length_bytes (t : Text) : t.bytes.length = t.size := by
  induction t with
  | nil => rfl
  | cons c t ih => rw [bytes_cons, List.length_append, String.length_utf8EncodeChar, ih, size_cons]

theorem size_pos {t : Text} (h : t ≠ []) : 0 < t.size :=
  Nat.pos_of_ne_zero fun hzero => h (size_eq_zero hzero)

/-- A text is known by its bytes. -/
theorem bytes_inj {s t : Text} (h : s.bytes = t.bytes) : s = t := by
  have henc : s.utf8Encode = t.utf8Encode := congrArg List.toByteArray h
  have hdec := congrArg ByteArray.utf8Decode? henc
  rw [List.utf8Decode?_utf8Encode, List.utf8Decode?_utf8Encode] at hdec
  exact congrArg Array.toList (Option.some.inj hdec)

theorem size_replicate (n : Nat) (c : Char) :
    size (List.replicate n c) = n * c.utf8Size := by
  induction n with
  | zero => exact (Nat.zero_mul _).symm
  | succ n ih => rw [List.replicate_succ, size_cons, ih, Nat.succ_mul, Nat.add_comm]

end Text

/-! ## Redacting -/

/-- What is left of characters when comments and strings are redacted. -/
def redact : List (Char × Style) → List (Char × Style)
  | [] => []
  | (c, style) :: cells =>
    (if style.isInert then .replicate c.utf8Size (';', style) else [(c, style)]) ++ redact cells

/-- The text of characters with styles. -/
def textOf (cells : List (Char × Style)) : Text := cells.map (·.1)

theorem textOf_append (cells cells' : List (Char × Style)) :
    textOf (cells ++ cells') = textOf cells ++ textOf cells' := List.map_append

section
variable {cells cells' : List (Char × Style)}

theorem redact_append (cells cells' : List (Char × Style)) :
    redact (cells ++ cells') = redact cells ++ redact cells' := by
  induction cells with
  | nil => rfl
  | cons cell cells ih => rw [List.cons_append, redact, redact, ih, List.append_assoc]

theorem redact_cons_inert {style : Style} (h : style.isInert = true) (c : Char)
    (cells : List (Char × Style)) :
    redact ((c, style) :: cells) = .replicate c.utf8Size (';', style) ++ redact cells := by
  rw [redact, if_pos h]

theorem redact_cons_code {style : Style} (h : style.isInert = false) (c : Char)
    (cells : List (Char × Style)) : redact ((c, style) :: cells) = (c, style) :: redact cells := by
  rw [redact, if_neg (Bool.eq_false_iff.1 h)]
  rfl

@[simp] theorem size_redact (cells : List (Char × Style)) :
    (textOf (redact cells)).size = (textOf cells).size := by
  induction cells with
  | nil => rfl
  | cons cell cells ih =>
    obtain ⟨c, style⟩ := cell
    rw [redact, textOf_append, Text.size_append, ih]
    refine congrArg (· + _) ?_
    cases h : style.isInert with
    | true =>
      rw [if_pos rfl, textOf, List.map_replicate, Text.size_replicate]
      exact Nat.mul_one _
    | false =>
      rw [if_neg Bool.false_ne_true]
      exact Nat.add_zero _

@[simp] theorem styleOfByte_redact (cells : List (Char × Style)) (i : Nat) :
    styleOfByte (redact cells) i = styleOfByte cells i := by
  induction cells generalizing i with
  | nil => rfl
  | cons cell cells ih =>
    obtain ⟨c, style⟩ := cell
    cases h : style.isInert with
    | true =>
      have hrun := styleOfByte_append (.replicate c.utf8Size ';') style (redact cells) i
      rw [List.map_replicate, Text.size_replicate, show (';' : Char).utf8Size = 1 from rfl,
        Nat.mul_one, ih] at hrun
      rw [redact_cons_inert h, hrun, styleOfByte]
    | false => rw [redact_cons_code h, styleOfByte, styleOfByte, ih]

/-- The bytes of code stay, and all others become semicolons. -/
theorem getElem?_bytes_redact {i : Nat} (hi : i < (textOf cells).size) :
    (textOf (redact cells)).bytes[i]? =
      if (styleOfByte cells i).isInert then some 59 else (textOf cells).bytes[i]? := by
  induction cells generalizing i with
  | nil => exact absurd hi (Nat.not_lt_zero i)
  | cons cell cells ih =>
    obtain ⟨c, style⟩ := cell
    have hcons : textOf ((c, style) :: cells) = c :: textOf cells := rfl
    have hlen := String.length_utf8EncodeChar c
    rw [hcons, Text.size_cons] at hi
    rw [styleOfByte, hcons, Text.bytes_cons]
    cases h : style.isInert with
    | true =>
      have hrun : ∀ n, Text.bytes (.replicate n ';') = .replicate n 59 := by
        intro n
        induction n with
        | zero => rfl
        | succ n ih => rw [List.replicate_succ, Text.bytes_cons, ih]; rfl
      rw [redact_cons_inert h, textOf_append, textOf, List.map_replicate, Text.bytes_append, hrun]
      by_cases hc : i < c.utf8Size
      · rw [if_pos hc, h, if_pos rfl, List.getElem?_append_left (by simpa using hc),
          List.getElem?_replicate_of_lt hc]
      · rw [if_neg hc, List.getElem?_append_right (by simpa using hc), List.length_replicate,
          List.getElem?_append_right (by omega), hlen, ih (by omega)]
    | false =>
      rw [redact_cons_code h, show textOf ((c, style) :: redact cells) = c :: textOf (redact cells)
        from rfl, Text.bytes_cons]
      by_cases hc : i < c.utf8Size
      · rw [if_pos hc, h, if_neg Bool.false_ne_true, List.getElem?_append_left (by omega),
          List.getElem?_append_left (by omega)]
      · rw [if_neg hc, List.getElem?_append_right (by omega), hlen,
          List.getElem?_append_right (by omega), hlen, ih (by omega)]

/-- Characters with styles are known by their text and the styles of its bytes. -/
theorem eq_of_styleOfByte (htext : textOf cells = textOf cells')
    (hstyle : ∀ i < (textOf cells).size, styleOfByte cells i = styleOfByte cells' i) :
    cells = cells' := by
  induction cells generalizing cells' with
  | nil => exact (List.map_eq_nil_iff.1 htext.symm).symm
  | cons cell cells ih =>
    obtain ⟨c, style⟩ := cell
    cases cells' with
    | nil => cases htext
    | cons cell' cells' =>
      obtain ⟨c', style'⟩ := cell'
      obtain ⟨hc, hrest⟩ := List.cons.inj htext
      obtain rfl : c = c' := hc
      have hpos := c.utf8Size_pos
      have hsize : (textOf ((c, style) :: cells)).size = c.utf8Size + (textOf cells).size := rfl
      have hfirst := hstyle 0 (by omega)
      rw [styleOfByte, if_pos hpos, styleOfByte, if_pos hpos] at hfirst
      rw [hfirst, ih hrest fun i hi => ?_]
      have hlater := hstyle (c.utf8Size + i) (by omega)
      rwa [styleOfByte, if_neg (by omega), styleOfByte, if_neg (by omega),
        Nat.add_sub_cancel_left] at hlater

/-- Characters of which the styles agree, and the bytes of code too, are redacted to the same. -/
theorem redact_eq (hsize : (textOf cells).size = (textOf cells').size)
    (hstyle : ∀ i < (textOf cells).size, styleOfByte cells i = styleOfByte cells' i)
    (hbytes : ∀ i < (textOf cells).size, (styleOfByte cells i).isInert = false →
      (textOf cells).bytes[i]? = (textOf cells').bytes[i]?) :
    redact cells = redact cells' := by
  refine eq_of_styleOfByte (Text.bytes_inj (List.ext_getElem? fun i => ?_)) fun i hi => ?_
  · by_cases hi : i < (textOf cells).size
    · rw [getElem?_bytes_redact hi, getElem?_bytes_redact (hsize ▸ hi), ← hstyle i hi]
      cases h : (styleOfByte cells i).isInert with
      | true => rfl
      | false => exact hbytes i hi h
    · rw [List.getElem?_eq_none (by simpa using hi), List.getElem?_eq_none (by simp; omega)]
  · rw [size_redact] at hi
    rw [styleOfByte_redact, styleOfByte_redact, hstyle i hi]

/-! ## Code in redacted text -/

theorem redact_of_code (h : ∀ cell ∈ cells, cell.2.isInert = false) : redact cells = cells := by
  induction cells with
  | nil => rfl
  | cons cell cells ih =>
    rw [redact_cons_code (h cell List.mem_cons_self),
      ih fun x hx => h x (List.mem_cons_of_mem _ hx)]

theorem textOf_redact_code {style : Style} (h : style.isInert = false) (text : Text) :
    textOf (redact (text.map (·, style))) = text := by
  rw [redact_of_code fun cell hcell => ?_, textOf, List.map_map]
  · exact List.map_id' _
  · obtain ⟨x, -, rfl⟩ := List.mem_map.1 hcell
    exact h

theorem redact_eq_nil (h : redact cells = []) : cells = [] :=
  List.map_eq_nil_iff.1 (Text.size_eq_zero (by rw [← textOf, ← size_redact, h]; rfl))

/-- A character of code in redacted text is one of the text. -/
theorem exists_of_redact_cons {before after : List (Char × Style)} {cell : Char × Style}
    (hcode : cell.2.isInert = false) (h : redact cells = before ++ cell :: after) :
    ∃ pre post, cells = pre ++ cell :: post ∧ redact pre = before ∧ redact post = after := by
  induction cells generalizing before with
  | nil => simp [redact] at h
  | cons first cells ih =>
    obtain ⟨c, style⟩ := first
    cases hstyle : style.isInert with
    | true =>
      rw [redact_cons_inert hstyle] at h
      -- the cell stands behind the semicolons, as it is not one of them
      rcases List.append_eq_append_iff.1 h with ⟨m, rfl, hm⟩ | ⟨m, hm, hrest⟩
      · obtain ⟨pre, post, rfl, rfl, rfl⟩ := ih hm
        exact ⟨(c, style) :: pre, post, rfl, redact_cons_inert hstyle c pre, rfl⟩
      · cases m with
        | nil =>
          obtain ⟨pre, post, rfl, hpre, rfl⟩ := @ih [] hrest.symm
          refine ⟨(c, style) :: pre, post, rfl, ?_, rfl⟩
          rw [redact_cons_inert hstyle, hm, hpre, List.append_nil, List.append_nil]
        | cons x m =>
          obtain ⟨rfl, -⟩ := List.cons.inj hrest
          have hmem : cell ∈ List.replicate c.utf8Size (';', style) := by rw [hm]; simp
          rw [List.eq_of_mem_replicate hmem, hstyle] at hcode
          cases hcode
    | false =>
      rw [redact_cons_code hstyle] at h
      cases before with
      | nil =>
        obtain ⟨rfl, rfl⟩ := List.cons.inj h
        exact ⟨[], cells, rfl, rfl, rfl⟩
      | cons x before =>
        obtain ⟨hx, h⟩ := List.cons.inj h
        obtain ⟨pre, post, rfl, rfl, rfl⟩ := ih h
        exact ⟨(c, style) :: pre, post, rfl, by rw [redact_cons_code hstyle, hx], rfl⟩

/-- Code in redacted text is code in the text. -/
theorem exists_of_redact_append {before code after : List (Char × Style)} (hne : code ≠ [])
    (hcode : ∀ cell ∈ code, cell.2.isInert = false) (h : redact cells = before ++ code ++ after) :
    ∃ pre post, cells = pre ++ code ++ post ∧ redact pre = before ∧ redact post = after := by
  have hfront : ∀ (code post : List (Char × Style)), (∀ cell ∈ code, cell.2.isInert = false) →
      redact post = code ++ after → ∃ rest, post = code ++ rest ∧ redact rest = after := by
    intro code
    induction code with
    | nil => intro post _ h; exact ⟨post, rfl, h⟩
    | cons cell code ih =>
      intro post hcode h
      rw [List.cons_append, ← List.nil_append (cell :: _)] at h
      obtain ⟨pre, rest, rfl, hpre, hrest⟩ :=
        exists_of_redact_cons (hcode cell List.mem_cons_self) h
      obtain rfl := redact_eq_nil hpre
      obtain ⟨rest, rfl, hafter⟩ := ih rest (fun x hx => hcode x (List.mem_cons_of_mem _ hx)) hrest
      exact ⟨rest, rfl, hafter⟩
  cases code with
  | nil => contradiction
  | cons cell code =>
    rw [List.append_assoc, List.cons_append] at h
    obtain ⟨pre, post, rfl, hpre, hpost⟩ := exists_of_redact_cons (hcode cell List.mem_cons_self) h
    obtain ⟨rest, rfl, hafter⟩ := hfront code post
      (fun x hx => hcode x (List.mem_cons_of_mem _ hx)) hpost
    exact ⟨pre, rest, by simp, hpre, hafter⟩

end

/-! ## The edges of comments and strings -/

/-- The character with which a comment or string opens. -/
def Style.opener : Style → Char
  | .commentDoc => '\x7b'
  | .string => '"'
  | _ => ';'

/-- The character with which a comment or string ends inside a line. -/
def Style.closer : Style → Char
  | .commentDoc => '\x7d'
  | .string => '"'
  | _ => ';'

/-- What can follow a character of a line: a comment or string opens behind code with its own
character, and ends with its own character before code. -/
structure Adjoins (x y : Char × Style) : Prop where
  opens : x.2.isInert = false → y.2.isInert = true → y.1 = y.2.opener
  ends : x.2.isInert = true → y.2.isInert = false → x.1 = x.2.closer

theorem isDelimiter_opener (s : Style) : isDelimiter s.opener = true := by cases s <;> decide

theorem isDelimiter_closer (s : Style) : isDelimiter s.closer = true := by cases s <;> decide

namespace Mode

/-- A mode other than code is that of a comment or string. -/
theorem eq_code_of_style {mode : Mode} (h : mode.style.isInert = false) : mode = .code := by
  cases mode <;> first | rfl | cases h

/-- What is read in code is the first character of what it opens. -/
theorem opener_opened {c : Char} {after : Text} (h : (opened c after).style.isInert = true) :
    c = (opened c after).style.opener := by
  unfold opened at h ⊢
  by_cases hdoc : c = '\x7b'
  · rw [if_pos hdoc]
    exact hdoc
  rw [if_neg hdoc] at h ⊢
  by_cases hcomment : c = ';'
  · rw [if_pos hcomment]
    split <;> exact hcomment
  rw [if_neg hcomment] at h ⊢
  by_cases hstring : c = '"'
  · rw [if_pos hstring]
    exact hstring
  · rw [if_neg hstring] at h
    cases h

theorem closer_of_endsAt {mode : Mode} {before : Text} {c : Char}
    (h : mode.endsAt before c = true) : c = mode.style.closer := by
  cases mode with
  | code | comment => cases h
  | commentDoc => exact beq_iff_eq.1 h
  | commentMultiLine | string => exact beq_iff_eq.1 (Bool.and_eq_true_iff.1 h).1

/-- The style and the next mode of a character. -/
theorem read_cases (mode : Mode) (before : Text) (c : Char) (after : Text) :
    let r := mode.read before c after
    (mode = .code ∧ r.2.style = r.1 ∧ (r.1.isInert = true → c = r.1.opener)) ∨
      (r.1 = mode.style ∧ mode ≠ .code ∧
        (r.2 = mode ∨ r.2 = .code ∧ c = mode.style.closer)) := by
  cases mode with
  | code => exact Or.inl ⟨rfl, rfl, opener_opened⟩
  | _ =>
    refine Or.inr ⟨rfl, by decide, ?_⟩
    simp only [read]
    split
    · next h => exact Or.inr ⟨rfl, closer_of_endsAt h⟩
    · exact Or.inl rfl

/-- Behind a character in code lies code. -/
theorem read_eq_code {mode : Mode} {before : Text} {c : Char} {after : Text}
    (h : (mode.read before c after).1.isInert = false) :
    (mode.read before c after).2 = .code := by
  rcases mode.read_cases before c after with ⟨-, heq, -⟩ | ⟨heq, hne, -⟩
  · exact eq_code_of_style (heq ▸ h)
  · exact absurd (eq_code_of_style (heq ▸ h)) hne

/-- The characters of a line and its terminator adjoin each other. What stands before the first one
is code if the line starts with code. -/
theorem adjoins_readAll (mode : Mode) (before text : Text) :
    let r := mode.readAll before text
    (r.1 ++ [('\n', r.2.style)]).IsChain Adjoins ∧
      ∀ x ∈ (r.1 ++ [('\n', r.2.style)]).head?, (mode = .code → x.2.isInert = true →
        x.1 = x.2.opener) ∧ (mode ≠ .code → x.2 = mode.style) := by
  induction text generalizing mode before with
  | nil =>
    refine ⟨.singleton _, fun x hx => ?_⟩
    obtain rfl := Option.some.inj hx
    refine ⟨?_, fun _ => rfl⟩
    rintro rfl hinert
    cases hinert
  | cons c t ih =>
    obtain ⟨hchain, hhead⟩ := ih (mode.read before c t).2 (c :: before)
    dsimp only [readAll, List.cons_append, List.head?_cons] at hchain hhead ⊢
    generalize (readAll (mode.read before c t).2 (c :: before) t).1 ++
      [('\n', (readAll (mode.read before c t).2 (c :: before) t).2.style)] = cells at hchain hhead ⊢
    have hcases := read_cases mode before c t
    have hcode := @read_eq_code mode before c t
    generalize mode.read before c t = r at hcases hcode hhead ⊢
    obtain ⟨style, next⟩ := r
    dsimp only at hcases hcode hhead ⊢
    refine ⟨List.isChain_cons.2 ⟨fun y hy => ?_, hchain⟩, fun x hx => ?_⟩
    · obtain ⟨hopens, hgoesOn⟩ := hhead y hy
      refine ⟨fun hx => hopens (hcode hx), fun hx hycode => ?_⟩
      · have hnext : next = .code := by
          by_contra hne
          rw [hgoesOn hne] at hycode
          exact hne (eq_code_of_style hycode)
        rcases hcases with ⟨-, rfl, -⟩ | ⟨rfl, hmode, heq | ⟨-, hclose⟩⟩
        · rw [hnext] at hx
          cases hx
        · exact absurd (heq.symm.trans hnext) hmode
        · exact hclose
    · obtain rfl := Option.some.inj hx
      rcases hcases with ⟨rfl, -, hopen⟩ | ⟨rfl, hmode, -⟩
      · exact ⟨fun _ => hopen, fun h => absurd rfl h⟩
      · exact ⟨fun h => absurd h hmode, fun _ => rfl⟩

end Mode

/-! ## Text in code -/

section
variable {mode mode' : Mode} {text text' : Text}

@[simp] theorem Mode.textOf_readAll (mode : Mode) (before text : Text) :
    textOf (mode.readAll before text).1 = text := by
  induction text generalizing mode before with
  | nil => rfl
  | cons c t ih => exact congrArg (c :: ·) (ih _ _)

/-- The characters of a line and its terminator, each with what it is part of. -/
def lineCells (mode : Mode) (text : Text) : List (Char × Style) :=
  (mode.readAll [] text).1 ++ [('\n', (mode.readAll [] text).2.style)]

theorem textOf_lineCells (mode : Mode) (text : Text) :
    textOf (lineCells mode text) = text ++ ['\n'] := by
  rw [lineCells, textOf_append, mode.textOf_readAll]
  rfl

theorem isChain_lineCells (mode : Mode) (text : Text) :
    (lineCells mode text).IsChain Adjoins := (mode.adjoins_readAll [] text).1

theorem styleOfByte_append_right (cells cells' : List (Char × Style)) (i : Nat) :
    styleOfByte (cells ++ cells') ((textOf cells).size + i) = styleOfByte cells' i := by
  induction cells with
  | nil => exact congrArg (styleOfByte cells') (Nat.zero_add i)
  | cons cell cells ih =>
    obtain ⟨c, style⟩ := cell
    have hcons : textOf ((c, style) :: cells) = c :: textOf cells := rfl
    rw [List.cons_append, styleOfByte, hcons, Text.size_cons, if_neg (by omega), ← ih]
    congr 1
    omega

theorem styleOfByte_append_left {cells : List (Char × Style)} (cells' : List (Char × Style))
    {i : Nat} (h : i < (textOf cells).size) :
    styleOfByte (cells ++ cells') i = styleOfByte cells i := by
  induction cells generalizing i with
  | nil => exact absurd h (Nat.not_lt_zero i)
  | cons cell cells ih =>
    obtain ⟨c, style⟩ := cell
    rw [show textOf ((c, style) :: cells) = c :: textOf cells from rfl, Text.size_cons] at h
    rw [List.cons_append, styleOfByte, styleOfByte]
    by_cases hc : i < c.utf8Size
    · rw [if_pos hc, if_pos hc]
    · rw [if_neg hc, if_neg hc, ih (by omega)]

theorem exists_styleOfByte {cells : List (Char × Style)} {i : Nat} (h : i < (textOf cells).size) :
    ∃ cell ∈ cells, styleOfByte cells i = cell.2 := by
  induction cells generalizing i with
  | nil => exact absurd h (Nat.not_lt_zero i)
  | cons cell cells ih =>
    rw [show textOf (cell :: cells) = cell.1 :: textOf cells from rfl, Text.size_cons] at h
    rw [styleOfByte]
    by_cases hc : i < cell.1.utf8Size
    · exact ⟨cell, List.mem_cons_self, if_pos hc⟩
    · obtain ⟨x, hx, heq⟩ := ih (i := i - cell.1.utf8Size) (by omega)
      exact ⟨x, List.mem_cons_of_mem _ hx, (if_neg hc).trans heq⟩

/-- Characters next to each other that are no delimiters are in code together or not at all. -/
theorem isInert_eq_of_isChain {cells : List (Char × Style)} (h : cells.IsChain Adjoins)
    (hplain : ∀ x ∈ cells, isDelimiter x.1 = false) :
    ∀ x ∈ cells, ∀ y ∈ cells, x.2.isInert = y.2.isInert := by
  have hstep : ∀ x y : Char × Style, Adjoins x y → isDelimiter x.1 = false →
      isDelimiter y.1 = false → x.2.isInert = y.2.isInert := by
    intro x y hxy hx hy
    cases hxs : x.2.isInert <;> cases hys : y.2.isInert
    · rfl
    · rw [hxy.opens hxs hys, isDelimiter_opener] at hy
      cases hy
    · rw [hxy.ends hxs hys, isDelimiter_closer] at hx
      cases hx
    · rfl
  suffices hhead : ∀ x ∈ cells, ∀ y ∈ cells.head?, x.2.isInert = y.2.isInert by
    intro x hx y hy
    obtain ⟨z, hz⟩ : ∃ z, cells.head? = some z := by
      cases cells with
      | nil => cases hx
      | cons z cells => exact ⟨z, rfl⟩
    rw [hhead x hx z hz, hhead y hy z hz]
  induction cells with
  | nil => nofun
  | cons first cells ih =>
    obtain ⟨hfirst, hrest⟩ := List.isChain_cons.1 h
    intro x hx y hy
    obtain rfl := Option.some.inj hy
    rcases List.mem_cons.1 hx with rfl | hx
    · rfl
    · obtain ⟨z, hz⟩ : ∃ z, cells.head? = some z := by
        cases cells with
        | nil => cases hx
        | cons z cells => exact ⟨z, rfl⟩
      rw [ih hrest (fun w hw => hplain w (List.mem_cons_of_mem _ hw)) x hx z hz]
      exact (hstep _ _ (hfirst z hz) (hplain _ List.mem_cons_self)
        (hplain z (List.mem_cons_of_mem _ (List.mem_of_head? hz)))).symm

/-- A part of a line, as cells. -/
theorem exists_cells {cells : List (Char × Style)} {pre mid post : Text}
    (h : textOf cells = pre ++ mid ++ post) :
    ∃ before part after, cells = before ++ part ++ after ∧ textOf before = pre ∧
      textOf part = mid ∧ textOf after = post := by
  obtain ⟨front, after, rfl, hfront, rfl⟩ := List.map_eq_append_iff.1 h
  obtain ⟨before, part, rfl, rfl, rfl⟩ := List.map_eq_append_iff.1 hfront
  exact ⟨before, part, after, rfl, rfl, rfl, rfl⟩

/-- A part of a line without delimiters stands in code, or it does not; the byte behind it is no
code if it does not. -/
theorem isInert_part {pre mid post : Text} (htext : text ++ ['\n'] = pre ++ mid ++ post)
    (hne : mid ≠ []) (hplain : ∀ c ∈ mid, isDelimiter c = false) :
    (∀ i, pre.size ≤ i → i < pre.size + mid.size →
      (styleOfByte (lineCells mode text) i).isInert =
        (styleOfByte (lineCells mode text) pre.size).isInert) ∧
    (post ≠ [] → (styleOfByte (lineCells mode text) (pre.size + mid.size)).isInert = false →
      (styleOfByte (lineCells mode text) pre.size).isInert = false) := by
  have hchain := isChain_lineCells mode text
  rw [← textOf_lineCells mode text] at htext
  obtain ⟨before, part, after, hcells, rfl, rfl, rfl⟩ := exists_cells htext
  rw [hcells] at hchain ⊢
  rw [List.append_assoc] at hchain ⊢
  have hpart := List.IsChain.right_of_append hchain
  have hsame := isInert_eq_of_isChain (List.IsChain.left_of_append hpart)
    fun x hx => hplain x.1 (List.mem_map_of_mem hx)
  have hstyle : ∀ i < (textOf part).size, ∃ x ∈ part,
      styleOfByte (before ++ (part ++ after)) ((textOf before).size + i) = x.2 := by
    intro i hi
    obtain ⟨x, hx, heq⟩ := exists_styleOfByte hi
    exact ⟨x, hx, by rw [styleOfByte_append_right, styleOfByte_append_left _ hi, heq]⟩
  obtain ⟨first, hfirst, hfirstStyle⟩ := hstyle 0 (Text.size_pos hne)
  rw [Nat.add_zero] at hfirstStyle
  constructor
  · intro i hlo hhi
    obtain ⟨x, hx, heq⟩ := hstyle (i - (textOf before).size) (by omega)
    rw [Nat.add_sub_cancel' hlo] at heq
    rw [heq, hfirstStyle, hsame x hx first hfirst]
  · intro hpost hcode
    have hpartne : part ≠ [] := fun h => hne (by rw [h]; rfl)
    obtain ⟨next, after, rfl⟩ : ∃ next rest, after = next :: rest := by
      cases after with
      | nil => exact absurd rfl hpost
      | cons next rest => exact ⟨next, rest, rfl⟩
    have hnext : styleOfByte (before ++ (part ++ next :: after))
        ((textOf before).size + (textOf part).size) = next.2 := by
      have hskip := styleOfByte_append_right part (next :: after) 0
      rw [Nat.add_zero] at hskip
      rw [styleOfByte_append_right, hskip, styleOfByte, if_pos next.1.utf8Size_pos]
    rw [hnext] at hcode
    have hadjoins := (List.isChain_append.1 hpart).2.2 _ (List.getLast?_eq_some_getLast hpartne)
      next rfl
    rw [hfirstStyle, ← hsame _ (List.getLast_mem hpartne) first hfirst]
    by_contra hinert
    have hclose := hadjoins.ends (eq_true_of_ne_false hinert) hcode
    have hdelim := hplain _ (List.mem_map_of_mem (List.getLast_mem hpartne))
    rw [hclose, isDelimiter_closer] at hdelim
    cases hdelim

/-- The characters on both sides of code, as they are told by the redacted line. -/
theorem getLast?_redact {before : List (Char × Style)} {x : Char × Style}
    (h : (before ++ [x]).IsChain Adjoins) (hx : x.2.isInert = false) :
    (textOf before).getLast? = (redact before).getLast?.map fun y =>
      if y.2.isInert then y.2.closer else y.1 := by
  rcases List.eq_nil_or_concat before with rfl | ⟨front, ⟨c, style⟩, rfl⟩
  · rfl
  rw [List.concat_eq_append] at h ⊢
  have hadjoins : Adjoins (c, style) x := (List.isChain_append.1 h).2.2 _ (by simp) x rfl
  rw [textOf_append, redact_append]
  cases hstyle : style.isInert with
  | true =>
    rw [redact_cons_inert hstyle, List.getLast?_append, List.getLast?_append]
    have hlast : (List.replicate c.utf8Size (';', style)).getLast? = some (';', style) := by
      rw [List.getLast?_replicate, if_neg (Nat.ne_of_gt c.utf8Size_pos)]
    have hclose : c = style.closer := hadjoins.ends hstyle hx
    simp [redact, hlast, hstyle, textOf, ← hclose]
  | false => simp [redact, hstyle, textOf]

theorem head?_redact {after : List (Char × Style)} {x : Char × Style}
    (h : (x :: after).IsChain Adjoins) (hx : x.2.isInert = false) :
    (textOf after).head? = (redact after).head?.map fun y =>
      if y.2.isInert then y.2.opener else y.1 := by
  cases after with
  | nil => rfl
  | cons cell after =>
    obtain ⟨c, style⟩ := cell
    have hadjoins : Adjoins x (c, style) := (List.isChain_cons_cons.1 h).1
    cases hstyle : style.isInert with
    | true =>
      have hfirst : (List.replicate c.utf8Size (';', style)).head? = some (';', style) := by
        rw [List.head?_replicate, if_neg (Nat.ne_of_gt c.utf8Size_pos)]
      have hopen : c = style.opener := hadjoins.opens hx hstyle
      rw [redact_cons_inert hstyle, List.head?_append, hfirst]
      simp [hstyle, textOf, ← hopen]
    | false => simp [redact_cons_code hstyle, hstyle, textOf]

/-- Text in code, if it has no delimiters, stands in every line that is redacted to the same, and
there it has the same characters around it. -/
theorem exists_of_redact_eq
    (hredact : redact (mode.readAll [] text).1 = redact (mode'.readAll [] text').1)
    {pre mid post : Text} (htext : text = pre ++ mid ++ post) (hne : mid ≠ [])
    (hplain : ∀ c ∈ mid, isDelimiter c = false)
    (hcode : (styleOfByte (mode.readAll [] text).1 pre.size).isInert = false) :
    ∃ pre' post', text' = pre' ++ mid ++ post' ∧ pre'.size = pre.size ∧
      pre'.getLast? = pre.getLast? ∧ post'.head? = post.head? := by
  have hchain : ∀ (mode : Mode) (text : Text), (mode.readAll [] text).1.IsChain Adjoins :=
    fun mode text => List.IsChain.left_of_append (isChain_lineCells mode text)
  obtain ⟨before, part, after, hcells, rfl, rfl, rfl⟩ :=
    exists_cells ((mode.textOf_readAll [] text).trans htext)
  have hpartne : part ≠ [] := fun h => hne (by rw [h]; rfl)
  obtain ⟨first, part, rfl⟩ : ∃ x l, part = x :: l := List.exists_cons_of_ne_nil hpartne
  have hcodes : ∀ x ∈ first :: part, x.2.isInert = false := by
    have hpart := hchain mode text
    rw [hcells, List.append_assoc] at hpart
    have hsame := isInert_eq_of_isChain
      (List.IsChain.left_of_append (List.IsChain.right_of_append hpart))
      fun x hx => hplain x.1 (List.mem_map_of_mem hx)
    have hskip := styleOfByte_append_right before (first :: part ++ after) 0
    rw [Nat.add_zero, List.cons_append, styleOfByte, if_pos first.1.utf8Size_pos] at hskip
    rw [hcells, List.append_assoc, List.cons_append, hskip] at hcode
    exact fun x hx => (hsame x hx first List.mem_cons_self).trans hcode
  have hmine := hredact
  rw [hcells, redact_append, redact_append, redact_of_code hcodes] at hmine
  obtain ⟨before', after', hcells', hbefore, hafter⟩ :=
    exists_of_redact_append hpartne hcodes hmine.symm
  have hlast := List.getLast_mem hpartne
  have hedges : ∀ {cells before after : List (Char × Style)}, cells.IsChain Adjoins →
      cells = before ++ (first :: part) ++ after → (before ++ [first]).IsChain Adjoins ∧
        ((first :: part).getLast hpartne :: after).IsChain Adjoins := by
    rintro cells before after hcells rfl
    constructor
    · rw [List.append_assoc, List.cons_append] at hcells
      exact (List.isChain_split.1 hcells).1
    · rw [← List.dropLast_append_getLast hpartne, ← List.append_assoc, List.append_assoc,
        List.singleton_append] at hcells
      exact (List.isChain_split.1 hcells).2
  obtain ⟨hbeforeChain, hafterChain⟩ := hedges (hchain mode text) hcells
  obtain ⟨hbeforeChain', hafterChain'⟩ := hedges (hchain mode' text') hcells'
  have hfirst := hcodes first List.mem_cons_self
  refine ⟨textOf before', textOf after', ?_, ?_, ?_, ?_⟩
  · rw [← mode'.textOf_readAll [] text', hcells', textOf_append, textOf_append]
  · rw [← size_redact before', hbefore, size_redact]
  · rw [getLast?_redact hbeforeChain' hfirst, getLast?_redact hbeforeChain hfirst, hbefore]
  · rw [head?_redact hafterChain' (hcodes _ hlast), head?_redact hafterChain (hcodes _ hlast),
      hafter]

end

end Papyrus

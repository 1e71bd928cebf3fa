import Papyrus.Toml.Printer
/-!
# Quoted texts are read as they were written

A text is written in one of four styles (`QuoteStyle`), and each style has a reader of its own. The
reader of a style gets back any text that was written in it, whatever follows the closing marks
except for another mark.

Results:
* `readBasic_escapeText`, `readLiteral_append`: texts on one line.
* `readBasicLines_escapeText`, `readLiteralLines_append`: texts of several lines.
* `readQuoted_quote`: all four together.
-/
namespace Papyrus.Toml

/-! ## Single characters -/

/-- A character that may not stand for itself is one of ASCII. -/
theorem toNat_lt_of_not_isPlain {c : Char} (h : isPlain c = false) : c.toNat < 0x80 := by
  simp only [isPlain, Bool.or_eq_false_iff, Bool.and_eq_false_iff, decide_eq_false_iff_not,
    bne_eq_false_iff_eq] at h
  omega

/-- A line break may not stand for itself. -/
theorem ne_lineBreak_of_isPlain {c : Char} (h : isPlain c = true) : c ≠ '\n' ∧ c ≠ '\r' := by
  constructor <;> rintro rfl <;> cases h

/-- What stands for a character behind a backslash does not announce its code point. -/
theorem ne_u_of_escaped? {e c : Char} (h : escaped? e = some c) : e ≠ 'u' ∧ e ≠ 'U' := by
  constructor <;> rintro rfl <;> cases h

theorem codePoint?_hexDigits {c : Char} (h : isPlain c = false) :
    codePoint? (hexDigits c.toNat) = some c := by
  have hall : ∀ n < 0x80, codePoint? (hexDigits n) = some (Char.ofNat n) := by decide +kernel
  rw [hall c.toNat (toNat_lt_of_not_isPlain h), Char.ofNat_toNat]

/-- The forms in which a character is written, other than a quotation mark. -/
inductive Written (lines : Bool) (c : Char) : Text → Prop
  | plain : isPlain c = true → c ≠ '"' → c ≠ '\\' → Written lines c [c]
  | lineFeed : lines = true → c = '\n' → Written lines c [c]
  | short (e : Char) : escaped? e = some c → Written lines c ['\\', e]
  | code (a b d e : Char) : codePoint? [a, b, d, e] = some c →
      Written lines c ['\\', 'u', a, b, d, e]

theorem written_escape (lines : Bool) {c : Char} (h : c ≠ '"') :
    Written lines c (escape lines c) := by
  unfold escape
  split
  · exact .short 'b' rfl
  · exact .short 't' rfl
  · cases lines with
    | true => exact .lineFeed rfl rfl
    | false => exact .short 'n' rfl
  · exact .short 'f' rfl
  · exact .short 'r' rfl
  · exact .short '\\' rfl
  · next hbackslash =>
    by_cases hplain : isPlain c = true
    · rw [if_pos hplain]
      exact .plain hplain h hbackslash
    · rw [if_neg hplain]
      exact .code _ _ _ _ (codePoint?_hexDigits (by simpa using hplain))

/-! ## Texts on one line -/

theorem readBasic_written {c : Char} {form : Text} (h : Written false c form) (t : Text) :
    readBasic (form ++ t) = push c (readBasic t) := by
  cases h with
  | plain hplain hquote hbackslash => simp [readBasic, hplain, hbackslash]
  | lineFeed hlines => cases hlines
  | short e he => simp [readBasic, he, ne_u_of_escaped? he]
  | code a b d e he => simp [readBasic, he]

theorem readBasic_escapeText (t rest : Text) :
    readBasic (escapeText false 0 t ++ '"' :: rest) = some (t, rest) := by
  induction t with
  | nil => simp [escapeText, readBasic]
  | cons c t ih =>
    by_cases hquote : c = '"'
    · subst hquote
      simp [escapeText, readBasic, escaped?, ih, push]
    · have hc : (c == '"') = false := by simpa using hquote
      simp only [escapeText, hc, Bool.false_eq_true, if_false, List.append_assoc]
      rw [readBasic_written (written_escape false hquote), ih]
      rfl

theorem readLiteral_append {t : Text} (hmark : '\'' ∉ t) (hplain : ∀ c ∈ t, isPlain c = true)
    (rest : Text) : readLiteral (t ++ '\'' :: rest) = some (t, rest) := by
  induction t with
  | nil => simp [readLiteral]
  | cons c t ih =>
    have hc : c ≠ '\'' := fun h => hmark (h ▸ List.mem_cons_self)
    have ih := ih (fun h => hmark (List.mem_cons_of_mem c h)) fun d hd =>
      hplain d (List.mem_cons_of_mem c hd)
    simp [readLiteral, hplain c List.mem_cons_self, ih, push]

/-! ## Texts of several lines -/

/-- Puts a text in front of one that has been read. -/
def pushText (s : Text) : Option (Text × Text) → Option (Text × Text) :=
  Option.map fun (text, rest) => (s ++ text, rest)

theorem head?_written {lines : Bool} {c : Char} {form : Text} (h : Written lines c form)
    (hc : c ≠ '"') (t : Text) : (form ++ t).head? ≠ some '"' := by
  cases h with
  | plain => simpa using hc
  | lineFeed => simpa using hc
  | short => simp
  | code => simp

/-- A character that may stand for itself does so, but for two marks behind a mark. -/
theorem readBasicLines_plain {c : Char} (hplain : isPlain c = true) (hbackslash : c ≠ '\\')
    {t : Text} (ht : c = '"' → ∀ u, t ≠ '"' :: '"' :: u) :
    readBasicLines false (c :: t) = push c (readBasicLines false t) := by
  have hbreak := ne_lineBreak_of_isPlain hplain
  rw [readBasicLines]
  · simp [hplain, hbackslash]
  all_goals intros; simp_all

theorem readBasicLines_written {c : Char} {form : Text} (h : Written true c form) (t : Text) :
    readBasicLines false (form ++ t) = push c (readBasicLines false t) := by
  cases h with
  | plain hplain hquote hbackslash =>
    exact readBasicLines_plain hplain hbackslash fun h => absurd h hquote
  | lineFeed _ hc => subst hc; simp [readBasicLines]
  | short e he =>
    have hbreak : blankToLineBreak (e :: t) = false := by
      unfold escaped? at he
      split at he <;> first | rfl | cases he
    rw [List.cons_append, List.cons_append, List.nil_append, readBasicLines]
    · simp [he, hbreak]
    all_goals simp [ne_u_of_escaped? he]
  | code a b d e he => simp [readBasicLines, he]

/-- A reader that takes a mark for a character unless two more follow does so with two marks. -/
theorem read_marks {read : Text → Option (Text × Text)} {mark : Char}
    (hstep : ∀ t, (∀ u, t ≠ mark :: mark :: u) → read (mark :: t) = push mark (read t))
    {run : Nat} (hrun : run ≤ 2) {t : Text} (ht : t.head? ≠ some mark) :
    read (List.replicate run mark ++ t) = pushText (List.replicate run mark) (read t) := by
  have hother : ∀ u : Text, t ≠ mark :: u := by
    intro u hu
    rw [hu] at ht
    exact ht rfl
  match run, hrun with
  | 0, _ => cases h : read t <;> simp [pushText, h]
  | 1, _ =>
    rw [List.replicate_one, List.singleton_append, hstep t fun u => hother _]
    rfl
  | 2, _ =>
    have hfirst := hstep (mark :: t) fun u h => hother u (List.cons.inj h).2
    rw [hstep t fun u => hother _] at hfirst
    refine hfirst.trans ?_
    cases read t <;> rfl

theorem closing_marks {mark : Char} {run : Nat} (hrun : run ≤ 2) {rest : Text}
    (hrest : rest.head? ≠ some mark) :
    closing mark (List.replicate run mark ++ rest) = (List.replicate run mark, rest) := by
  match run, rest, hrun with
  | 0, [], _ => rfl
  | 0, [a], _ => simp_all [closing]
  | 0, a :: b :: rest, _ => simp_all [closing]
  | 1, [], _ => simp [closing]
  | 1, a :: rest, _ => simp_all [closing]
  | 2, rest, _ => simp [closing, List.replicate]

theorem replicate_append_cons (run : Nat) (mark : Char) (t : Text) :
    List.replicate run mark ++ mark :: t = List.replicate (run + 1) mark ++ t := by
  rw [List.replicate_succ', List.append_assoc, List.singleton_append]

/-- Which of several marks are the closing ones cannot be told. -/
theorem replicate_append_marks (run : Nat) (mark : Char) (t : Text) :
    List.replicate run mark ++ mark :: mark :: mark :: t =
      mark :: mark :: mark :: (List.replicate run mark ++ t) := by
  simp only [replicate_append_cons]
  rfl

/-- In a text of several lines up to two marks in a row stand unescaped; `run` of them have been
written already. -/
theorem readBasicLines_escapeText {run : Nat} (hrun : run ≤ 2) (t : Text) {rest : Text}
    (hrest : rest.head? ≠ some '"') :
    readBasicLines false (List.replicate run '"' ++
        (escapeText true run t ++ '"' :: '"' :: '"' :: rest)) =
      some (List.replicate run '"' ++ t, rest) := by
  induction t generalizing run with
  | nil =>
    -- the first three marks are taken for the closing ones, and those behind them are the text
    simp only [escapeText, List.nil_append, replicate_append_marks]
    simp [readBasicLines, closing_marks hrun hrest]
  | cons c t ih =>
    by_cases hmore : c = '"' ∧ run < 2
    · obtain ⟨rfl, hmore⟩ := hmore
      have ih := @ih (run + 1) hmore
      simpa [escapeText, hmore, replicate_append_cons] using ih
    · obtain ⟨form, hform, hhead, hescape⟩ : ∃ form, Written true c form ∧
          (∀ u, (form ++ u).head? ≠ some '"') ∧
          escapeText true run (c :: t) = form ++ escapeText true 0 t := by
        by_cases hquote : c = '"'
        · subst hquote
          refine ⟨_, .short '"' rfl, by simp, ?_⟩
          have hfull : ¬ run < 2 := fun h => hmore ⟨rfl, h⟩
          simp [escapeText, hfull]
        · have hform := written_escape true hquote
          refine ⟨_, hform, head?_written hform hquote, ?_⟩
          simp [escapeText, hquote]
      have hmark : ∀ u : Text, (∀ v, u ≠ '"' :: '"' :: v) →
          readBasicLines false ('"' :: u) = push '"' (readBasicLines false u) := fun u hu =>
        readBasicLines_plain (by decide) (by decide) fun _ => hu
      rw [hescape, List.append_assoc, read_marks hmark hrun (hhead _),
        readBasicLines_written hform]
      have ih := @ih 0 (Nat.zero_le 2)
      rw [List.replicate_zero, List.nil_append, List.nil_append] at ih
      rw [ih]
      rfl

theorem readLiteralLines_plain {c : Char} (hplain : isPlain c = true) {t : Text}
    (ht : c = '\'' → ∀ u, t ≠ '\'' :: '\'' :: u) :
    readLiteralLines (c :: t) = push c (readLiteralLines t) := by
  have hbreak := ne_lineBreak_of_isPlain hplain
  rw [readLiteralLines]
  · simp [hplain]
  all_goals intros; simp_all

/-- Between apostrophes up to two of them in a row stand for themselves; `run` of them have been
written already. -/
theorem readLiteralLines_append {run : Nat} {t : Text} (hruns : runsBelow '\'' 3 run t = true)
    (hplain : ∀ c ∈ t, isPlain c = true ∨ c = '\n') {rest : Text}
    (hrest : rest.head? ≠ some '\'') :
    readLiteralLines (List.replicate run '\'' ++ (t ++ '\'' :: '\'' :: '\'' :: rest)) =
      some (List.replicate run '\'' ++ t, rest) := by
  have hrun : run ≤ 2 := Nat.le_of_lt_succ (lt_of_runsBelow hruns)
  induction t generalizing run with
  | nil =>
    simp only [List.nil_append, replicate_append_marks]
    simp [readLiteralLines, closing_marks hrun hrest]
  | cons c t ih =>
    have hc := hplain c List.mem_cons_self
    have ih {run : Nat} (h : runsBelow '\'' 3 run t = true) := ih h
      (fun d hd => hplain d (List.mem_cons_of_mem c hd)) (Nat.le_of_lt_succ (lt_of_runsBelow h))
    by_cases hquote : c = '\''
    · subst hquote
      have ih := @ih (run + 1) (by simpa [runsBelow] using hruns)
      simpa [replicate_append_cons] using ih
    · simp only [runsBelow, beq_iff_eq, hquote, if_false, Bool.and_eq_true] at hruns
      have ih := @ih 0 hruns.2
      have hmark : ∀ u : Text, (∀ v, u ≠ '\'' :: '\'' :: v) →
          readLiteralLines ('\'' :: u) = push '\'' (readLiteralLines u) := fun u hu =>
        readLiteralLines_plain (by decide) fun _ => hu
      have hstep : ∀ u, readLiteralLines (c :: u) = push c (readLiteralLines u) := by
        intro u
        rcases hc with hc | rfl
        · exact readLiteralLines_plain hc fun h => absurd h hquote
        · simp [readLiteralLines]
      rw [List.replicate_zero, List.nil_append, List.nil_append] at ih
      rw [List.cons_append, read_marks hmark hrun (by simpa using hquote), hstep, ih]
      rfl

/-! ## Quoted texts -/

/-- A mark that cannot be told from those around a text. -/
def isMark (c : Char) : Bool := c == '"' || c == '\''

theorem dropLineBreak_of_head {t : Text} (h : ∀ c ∈ t.head?, c ≠ '\n' ∧ c ≠ '\r') :
    dropLineBreak t = t := by
  unfold dropLineBreak
  split <;> simp_all

theorem dropLineBreak_lineBreak {t u : Text} (h : '\n' ∉ t → ∀ c ∈ u.head?, c ≠ '\n' ∧ c ≠ '\r') :
    dropLineBreak (lineBreak t ++ u) = u := by
  unfold lineBreak
  by_cases ht : '\n' ∈ t
  · simp [ht, dropLineBreak]
  · simp only [List.contains_iff_mem, ht, if_false, List.nil_append]
    exact dropLineBreak_of_head (h ht)

/-- What a written text starts with: an escape, or else its first character, which is no mark on
one line. -/
theorem head?_escapeText (lines : Bool) (c : Char) (t u : Text) :
    ∃ d, (escapeText lines 0 (c :: t) ++ u).head? = some d ∧
      (d = '\\' ∨ d = c ∧ (c = '"' → lines = true) ∧ (c = '\n' ∨ isPlain c = true)) := by
  by_cases hquote : c = '"'
  · subst hquote
    cases lines with
    | true => exact ⟨'"', by simp [escapeText], .inr ⟨rfl, fun _ => rfl, .inr (by decide)⟩⟩
    | false => exact ⟨'\\', by simp [escapeText], .inl rfl⟩
  · rw [escapeText, if_neg (by simpa using hquote)]
    have hform := written_escape lines hquote
    generalize escape lines c = form at hform ⊢
    cases hform with
    | plain hplain => exact ⟨c, rfl, .inr ⟨rfl, fun h => absurd h hquote, .inr hplain⟩⟩
    | lineFeed _ hc => exact ⟨c, rfl, .inr ⟨rfl, fun h => absurd h hquote, .inl hc⟩⟩
    | short e => exact ⟨'\\', rfl, .inl rfl⟩
    | code a b d e => exact ⟨'\\', rfl, .inl rfl⟩

/-- A line feed is dropped behind the opening marks only if one has been put there. -/
theorem dropLineBreak_escapeText (t rest : Text) :
    dropLineBreak (lineBreak t ++ (escapeText true 0 t ++ '"' :: rest)) =
      escapeText true 0 t ++ '"' :: rest := by
  refine dropLineBreak_lineBreak fun hbreak d hd => ?_
  cases t with
  | nil =>
    obtain rfl := Option.some.inj hd
    decide
  | cons c t =>
    obtain ⟨e, hhead, hcases⟩ := head?_escapeText true c t ('"' :: rest)
    obtain rfl := Option.some.inj (hhead.symm.trans hd)
    rcases hcases with rfl | ⟨rfl, -, rfl | hplain⟩
    · decide
    · exact absurd List.mem_cons_self hbreak
    · exact ne_lineBreak_of_isPlain hplain

theorem dropLineBreak_literal {t : Text} (h : ∀ c ∈ t, isPlain c = true ∨ c = '\n') (rest : Text) :
    dropLineBreak (lineBreak t ++ (t ++ '\'' :: rest)) = t ++ '\'' :: rest := by
  refine dropLineBreak_lineBreak fun hbreak d hd => ?_
  cases t with
  | nil =>
    obtain rfl := Option.some.inj hd
    decide
  | cons c t =>
    obtain rfl := Option.some.inj hd
    rcases h c List.mem_cons_self with hplain | rfl
    · exact ne_lineBreak_of_isPlain hplain
    · exact absurd List.mem_cons_self hbreak

/-- A quoted text is read as it was written, unless another mark follows. -/
theorem readQuoted_quote (t : Text) {rest : Text} (h : ∀ c ∈ rest.head?, isMark c = false) :
    readQuoted (quote t ++ rest) = some (t, rest) := by
  have hrest : rest.head? ≠ some '"' ∧ rest.head? ≠ some '\'' := by
    constructor <;> intro hhead <;> exact absurd (h _ hhead) (by decide)
  unfold quote
  cases hstyle : QuoteStyle.ofText t with
  | basic =>
    have hone : ∀ u, escapeText false 0 t ++ '"' :: rest ≠ '"' :: '"' :: u := by
      intro u hu
      cases t with
      | nil =>
        obtain ⟨-, hrest'⟩ := List.cons.inj hu
        rw [hrest'] at hrest
        exact hrest.1 rfl
      | cons c t =>
        obtain ⟨d, hhead, hcases⟩ := head?_escapeText false c t ('"' :: rest)
        rw [hu] at hhead
        obtain rfl := Option.some.inj hhead
        rcases hcases with hd | ⟨hd, hlines, -⟩
        · exact absurd hd (by decide)
        · cases hlines hd.symm
    have hquoted : readQuoted ('"' :: (escapeText false 0 t ++ '"' :: rest)) =
        readBasic (escapeText false 0 t ++ '"' :: rest) := by
      rw [readQuoted]
      exact hone
    simpa [readBasic_escapeText] using hquoted
  | literal =>
    obtain ⟨hne, hmark, hplain⟩ := plain_of_literal hstyle
    have hone : ∀ u, t ++ '\'' :: rest ≠ '\'' :: '\'' :: u := by
      intro u hu
      obtain ⟨c, t, rfl⟩ := List.exists_cons_of_ne_nil hne
      exact hmark ((List.cons.inj hu).1 ▸ List.mem_cons_self)
    have hquoted : readQuoted ('\'' :: (t ++ '\'' :: rest)) = readLiteral (t ++ '\'' :: rest) := by
      rw [readQuoted]
      exact hone
    simpa [readLiteral_append hmark hplain] using hquoted
  | basicLines =>
    have hread := readBasicLines_escapeText (Nat.zero_le 2) t hrest.1
    have hdrop := dropLineBreak_escapeText t ('"' :: '"' :: rest)
    rw [List.replicate_zero, List.nil_append, List.nil_append] at hread
    simp [readQuoted, hdrop, hread]
  | literalLines =>
    obtain ⟨hruns, hplain⟩ := plain_of_literalLines hstyle
    have hread := readLiteralLines_append hruns hplain hrest.2
    have hdrop := dropLineBreak_literal hplain ('\'' :: '\'' :: rest)
    rw [List.replicate_zero, List.nil_append, List.nil_append] at hread
    simp [readQuoted, hdrop, hread]

end Papyrus.Toml

import Papyrus.Toml.Quoted
/-!
# Writing TOML

A text is written as plainly as it can be: on one line if it is one, without escapes if that is
possible, and between quotation marks rather than apostrophes. An array of two items or more has one
item to a line.

Results:
* `ne_append_of_literalLines`: between three apostrophes nothing is taken for the closing marks.
* `plain_of_literal`, `plain_of_literalLines`: what a text is like in which nothing is escaped.
-/
namespace Papyrus.Toml

/-- What stands around a text. -/
inductive QuoteStyle where
  | basic
  | literal
  /-- Basic, with three marks at each end. -/
  | basicLines
  /-- Literal, with three marks at each end. -/
  | literalLines
  deriving DecidableEq, Repr

/-- Whether all runs of a mark are shorter than `limit`, `run` marks standing before the text. -/
def runsBelow (mark : Char) (limit run : Nat) : Text → Bool
  | [] => run < limit
  | c :: t =>
    if c == mark then runsBelow mark limit (run + 1) t
    else run < limit && runsBelow mark limit 0 t

/-- The style of a text: the first one in which it needs no escapes, or else a basic one. Three
marks in a row cannot stand unescaped even between three. -/
def QuoteStyle.ofText (t : Text) : QuoteStyle :=
  let plain := t.all fun c => isPlain c || c == '\n'
  if plain && !t.contains '\\' && !t.contains '"' && !t.contains '\n' then basic
  else if plain && !t.contains '\'' && !t.contains '\n' then literal
  else if plain && !t.contains '\\' && runsBelow '"' 3 0 t then basicLines
  else if plain && runsBelow '\'' 3 0 t then literalLines
  else if t.contains '\n' then basicLines
  else basic

/-- The hexadecimal digits of a number below 256, four of them. -/
def hexDigits (n : Nat) : Text :=
  let digit (d : Nat) : Char :=
    if d < 10 then Char.ofNat ('0'.toNat + d) else Char.ofNat ('A'.toNat + (d - 10))
  ['0', '0', digit (n / 16 % 16), digit (n % 16)]

/-- A character as it stands between quotation marks, unless it is one itself; on several lines, a
line feed stands for itself. -/
def escape (lines : Bool) (c : Char) : Text :=
  match c with
  | '\x08' => ['\\', 'b']
  | '\t' => ['\\', 't']
  | '\n' => if lines then ['\n'] else ['\\', 'n']
  | '\x0c' => ['\\', 'f']
  | '\r' => ['\\', 'r']
  | '\\' => ['\\', '\\']
  | c => if isPlain c then [c] else '\\' :: 'u' :: hexDigits c.toNat

/-- A text as it stands between quotation marks, `run` of which stand unescaped before it. On
several lines two in a row may. -/
def escapeText (lines : Bool) (run : Nat) : Text → Text
  | [] => []
  | c :: t =>
    if c == '"' then
      if lines && run < 2 then '"' :: escapeText lines (run + 1) t
      else '\\' :: '"' :: escapeText lines 0 t
    else escape lines c ++ escapeText lines 0 t

/-- The line feed after three opening marks, which does not count, before a text of several
lines. -/
def lineBreak (t : Text) : Text := if t.contains '\n' then ['\n'] else []

/-- A quoted text. -/
def quote (t : Text) : Text :=
  match QuoteStyle.ofText t with
  | .basic => '"' :: escapeText false 0 t ++ ['"']
  | .literal => '\'' :: t ++ ['\'']
  | .basicLines => "\"\"\"".toList ++ lineBreak t ++ escapeText true 0 t ++ "\"\"\"".toList
  | .literalLines => "'''".toList ++ lineBreak t ++ t ++ "'''".toList

/-- A text in quotes. -/
def printString (s : String) : Text := quote s.toList

/-- An array of texts. -/
def printStrings (items : List String) : Text :=
  match items with
  | [] => ['[', ']']
  | [s] => '[' :: printString s ++ [']']
  | items =>
    '[' :: '\n' :: items.flatMap (fun s => "    ".toList ++ printString s ++ ",\n".toList) ++ [']']

/-- A line that gives a key a value. -/
def printPair (key : String) (value : Text) : Text := key.toList ++ " = ".toList ++ value ++ ['\n']

/-! ## Runs of marks -/

theorem runsBelow_append {mark : Char} {limit run : Nat} {t : Text} (u : Text)
    (h : runsBelow mark limit run (u ++ t) = true) : ∃ r, runsBelow mark limit r t = true := by
  induction u generalizing run with
  | nil => exact ⟨run, h⟩
  | cons c u ih =>
    rw [List.cons_append, runsBelow] at h
    split at h
    · exact ih h
    · exact ih (Bool.and_eq_true_iff.1 h).2

theorem lt_of_runsBelow {mark : Char} {limit run : Nat} {t : Text}
    (h : runsBelow mark limit run t = true) : run < limit := by
  induction t generalizing run with
  | nil => simpa [runsBelow] using h
  | cons c t ih =>
    rw [runsBelow] at h
    split at h
    · exact Nat.lt_of_succ_lt (ih h)
    · exact of_decide_eq_true (Bool.and_eq_true_iff.1 h).1

theorem runsBelow_replicate {mark : Char} {limit run k : Nat} {t : Text}
    (h : runsBelow mark limit run (List.replicate k mark ++ t) = true) : run + k < limit := by
  induction k generalizing run with
  | zero => exact lt_of_runsBelow h
  | succ k ih =>
    rw [List.replicate_succ, List.cons_append, runsBelow, if_pos (beq_self_eq_true mark)] at h
    have := ih h
    omega

/-! ## Texts without escapes -/

/-- A text between two apostrophes has none, and no line break. -/
theorem plain_of_literal {t : Text} (h : QuoteStyle.ofText t = .literal) :
    t ≠ [] ∧ '\'' ∉ t ∧ ∀ c ∈ t, isPlain c = true := by
  have hne : t ≠ [] := by
    rintro rfl
    cases h
  simp only [QuoteStyle.ofText] at h
  split at h
  · cases h
  split at h
  · next hliteral =>
    simp only [Bool.and_eq_true, List.all_eq_true, Bool.or_eq_true, beq_iff_eq,
      Bool.not_eq_true', List.contains_eq_mem, decide_eq_false_iff_not] at hliteral
    obtain ⟨⟨hplain, hmark⟩, hbreak⟩ := hliteral
    refine ⟨hne, hmark, fun c hc => (hplain c hc).resolve_right ?_⟩
    rintro rfl
    exact hbreak hc
  · repeat' split at h
    all_goals cases h

/-- A text between three apostrophes has no three of them in a row, but it may have line feeds. -/
theorem plain_of_literalLines {t : Text} (h : QuoteStyle.ofText t = .literalLines) :
    runsBelow '\'' 3 0 t = true ∧ ∀ c ∈ t, isPlain c = true ∨ c = '\n' := by
  simp only [QuoteStyle.ofText] at h
  split at h
  · cases h
  split at h
  · cases h
  split at h
  · cases h
  split at h
  · next hlines =>
    simp only [Bool.and_eq_true, List.all_eq_true, Bool.or_eq_true, beq_iff_eq] at hlines
    exact ⟨hlines.2, hlines.1⟩
  · split at h <;> cases h

/-- Nothing in a text between three apostrophes is taken for the closing ones. -/
theorem ne_append_of_literalLines {t u v : Text} (h : QuoteStyle.ofText t = .literalLines) :
    t ≠ u ++ ['\'', '\'', '\''] ++ v := by
  intro e
  have hruns := (plain_of_literalLines h).1
  rw [e, List.append_assoc] at hruns
  obtain ⟨r, hr⟩ := runsBelow_append u hruns
  have hlt := runsBelow_replicate (k := 3) hr
  omega

end Papyrus.Toml

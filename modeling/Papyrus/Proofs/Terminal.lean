import Papyrus.Text
/-!
# Terminals

A `Terminal` takes in text character by character. It puts characters on the screen, and reads the
colour sequences between them: one that opens a run of a palette colour while no run is open, and
one that closes the run that is open. Anything else is refused (`feed`), and an output is shown only
if it closes its last run (`shown?`).

Results:
* `map_char_write`: on the screen is what is left of an output without its colour sequences.
* `write_text`: text is put on the screen in the run that is open.
* `write_sequence`: a colour sequence is carried out at its end.
* `palette?_toDigits`: every palette colour is found in the parameters that ask for it.
-/
namespace Papyrus

/-- A run of characters in a colour. -/
structure ColourRun where
  /-- How many runs have been opened before. -/
  number : Nat
  /-- The number of the colour in the palette. -/
  colour : Nat
  deriving DecidableEq, Repr

/-- A character on the screen, and the run in which it stands; none if it has no colour. -/
structure Cell where
  char : Char
  run : Option ColourRun
  deriving DecidableEq, Repr

namespace Terminal

/-- The character that starts a colour sequence. -/
def escape : Char := '\x1b'

/-- What is being read. -/
inductive Mode where
  | text
  | escape
  /-- A colour sequence, of whose parameters some have been read. -/
  | sequence (parameters : Text)
  deriving DecidableEq

end Terminal

/-- A terminal in the course of an output. -/
structure Terminal where
  mode : Terminal.Mode := .text
  /-- The characters on the screen. -/
  cells : List Cell := []
  /-- The run that is open. -/
  run : Option ColourRun := none
  /-- How many runs have been opened. -/
  opened : Nat := 0

namespace Terminal

/-- Whether a character can stand among the parameters of a colour sequence. -/
def isParameter (c : Char) : Bool := c.isDigit || c == ';'

/-- The palette colour for which the parameters of a colour sequence ask. -/
def palette? (parameters : Text) : Option Nat :=
  let digits := parameters.drop 5
  if parameters.take 5 = "38;5;".toList ∧ digits ≠ [] ∧ digits.all Char.isDigit then
    some (Nat.ofDigitChars 10 digits 0)
  else none

/-- Carries out a colour sequence: a run is opened if none is open, and closed otherwise. -/
def obey (t : Terminal) (parameters : Text) : Option Terminal :=
  match t.run with
  | none => (palette? parameters).map fun colour =>
    { t with mode := .text, run := some ⟨t.opened, colour⟩, opened := t.opened + 1 }
  | some _ => if parameters = ['0'] then some { t with mode := .text, run := none } else none

/-- Takes in a character. -/
def feed (t : Terminal) (c : Char) : Option Terminal :=
  match t.mode with
  | .text =>
    if c = escape then some { t with mode := .escape }
    else some { t with cells := t.cells ++ [⟨c, t.run⟩] }
  | .escape => if c = '[' then some { t with mode := .sequence [] } else none
  | .sequence parameters =>
    if c = 'm' then t.obey parameters
    else if isParameter c then some { t with mode := .sequence (parameters ++ [c]) }
    else none

/-- Takes in a text. -/
def write (t : Terminal) (out : Text) : Option Terminal := out.foldlM feed t

/-- What is on the screen of a new terminal after an output that leaves neither a colour sequence
nor a run unfinished. -/
def shown? (out : Text) : Option (List Cell) :=
  match write {} out with
  | none => none
  | some t => if t.mode = .text ∧ t.run = none then some t.cells else none

/-- An output without its colour sequences. -/
def strip : Mode → Text → Text
  | _, [] => []
  | .text, c :: out => if c = Terminal.escape then strip .escape out else c :: strip .text out
  | .escape, _ :: out => strip (.sequence []) out
  | .sequence parameters, c :: out =>
    if c = 'm' then strip .text out else strip (.sequence (parameters ++ [c])) out

/-! ## What is on the screen -/

/-- A colour sequence does not change what is on the screen. -/
theorem obey_keeps {t t' : Terminal} {parameters : Text} (h : t.obey parameters = some t') :
    t'.mode = .text ∧ t'.cells = t.cells := by
  rw [obey] at h
  split at h
  · obtain ⟨colour, -, rfl⟩ := Option.map_eq_some_iff.1 h
    exact ⟨rfl, rfl⟩
  · split at h <;> cases h
    exact ⟨rfl, rfl⟩

/-- A character that is taken in is put on the screen, or else it belongs to a colour sequence. -/
theorem strip_feed {t t' : Terminal} {c : Char} (h : t.feed c = some t') (out : Text) :
    t.cells.map Cell.char ++ strip t.mode (c :: out) =
      t'.cells.map Cell.char ++ strip t'.mode out := by
  cases hmode : t.mode with
  | text =>
    rw [feed, hmode] at h
    rw [strip]
    by_cases hc : c = Terminal.escape
    · obtain rfl := Option.some.inj ((if_pos hc).symm.trans h)
      rw [if_pos hc]
    · obtain rfl := Option.some.inj ((if_neg hc).symm.trans h)
      rw [if_neg hc, List.map_append, List.append_assoc]
      rfl
  | escape =>
    rw [feed, hmode] at h
    rw [strip]
    dsimp only at h
    split at h <;> cases h
    rfl
  | sequence parameters =>
    rw [feed, hmode] at h
    rw [strip]
    by_cases hc : c = 'm'
    · obtain ⟨htext, hcells⟩ := obey_keeps ((if_pos hc).symm.trans h)
      rw [if_pos hc, htext, hcells]
    · rw [if_neg hc]
      dsimp only at h
      rw [if_neg hc] at h
      split at h <;> cases h
      rfl

/-- On the screen is what is left of an output without its colour sequences. -/
theorem map_char_write {t t' : Terminal} {out : Text} (h : t.write out = some t') :
    t'.cells.map Cell.char = t.cells.map Cell.char ++ strip t.mode out := by
  induction out generalizing t with
  | nil =>
    cases h
    rw [strip, List.append_nil]
  | cons c out ih =>
    obtain ⟨u, hfeed, hwrite⟩ := Option.bind_eq_some_iff.1 h
    rw [strip_feed hfeed, ih hwrite]

/-! ## Text and colour sequences -/

theorem write_append (t : Terminal) (out out' : Text) :
    t.write (out ++ out') = (t.write out).bind (·.write out') := List.foldlM_append

theorem write_cons (t : Terminal) (c : Char) (out : Text) :
    t.write (c :: out) = (t.feed c).bind (·.write out) := List.foldlM_cons

section
variable {cells : List Cell} {run : Option ColourRun} {opened : Nat}

/-- Text is put on the screen in the run that is open. -/
theorem write_text {text : Text} (h : escape ∉ text) :
    write ⟨.text, cells, run, opened⟩ text =
      some ⟨.text, cells ++ text.map (⟨·, run⟩), run, opened⟩ := by
  induction text generalizing cells with
  | nil => rw [List.map_nil, List.append_nil]; rfl
  | cons c text ih =>
    obtain ⟨hc, htext⟩ := not_or.1 (mt List.mem_cons.2 h)
    have hfeed : feed ⟨.text, cells, run, opened⟩ c =
        some ⟨.text, cells ++ [⟨c, run⟩], run, opened⟩ := if_neg (Ne.symm hc)
    rw [write_cons, hfeed, Option.bind_some, ih htext, List.map_cons, List.append_assoc]
    rfl

theorem write_parameters {rest : Text} (done : Text) (h : ∀ c ∈ rest, isParameter c) :
    write ⟨.sequence done, cells, run, opened⟩ (rest ++ ['m']) =
      obey ⟨.text, cells, run, opened⟩ (done ++ rest) := by
  induction rest generalizing done with
  | nil =>
    rw [List.append_nil]
    exact Option.bind_fun_some _
  | cons c rest ih =>
    obtain ⟨hc, hrest⟩ := List.forall_mem_cons.1 h
    have hm : c ≠ 'm' := by
      rintro rfl
      exact absurd hc (by decide)
    have hfeed : feed ⟨.sequence done, cells, run, opened⟩ c =
        some ⟨.sequence (done ++ [c]), cells, run, opened⟩ := (if_neg hm).trans (if_pos hc)
    rw [List.cons_append, write_cons, hfeed, Option.bind_some, ih _ hrest, List.append_assoc]
    rfl

/-- A colour sequence is carried out at its end. -/
theorem write_sequence {parameters : Text} (h : ∀ c ∈ parameters, isParameter c) :
    write ⟨.text, cells, run, opened⟩ (escape :: '[' :: (parameters ++ ['m'])) =
      obey ⟨.text, cells, run, opened⟩ parameters := write_parameters [] h

end

/-- A palette colour is asked for by parameters of a colour sequence. -/
theorem isParameter_palette (n : Nat) :
    ∀ c ∈ "38;5;".toList ++ Nat.toDigits 10 n, isParameter c := by
  intro c hc
  rcases List.mem_append.1 hc with hc | hc
  · exact List.all_eq_true.1 (show "38;5;".toList.all isParameter = true by decide) c hc
  · rw [isParameter, Nat.isDigit_of_mem_toDigits (by omega) (by omega) hc, Bool.true_or]

/-- Every palette colour is found in the parameters that ask for it. -/
theorem palette?_toDigits (n : Nat) :
    palette? ("38;5;".toList ++ Nat.toDigits 10 n) = some n := by
  have hdigits : (Nat.toDigits 10 n).all Char.isDigit = true :=
    List.all_eq_true.2 fun c hc => Nat.isDigit_of_mem_toDigits (by omega) (by omega) hc
  simp [palette?, hdigits]

end Terminal

end Papyrus

import Papyrus.Proofs.RunStyle
/-!
# The outline of a document

The outline of a document are the styles of its comments and strings, all other text being plain.
Where they stand depends on the texts of the lines alone: neither word lists nor profiles nor what
has been found out before have a say in it. `Lines.outlineAt` is the outline at an offset, and the
style slot behind the last line is part of it.

Results:
* `regions_styleLine`: the comments and strings of a line depend on its text and incoming state.
* `outlineAt_append`: the outline of lines goes on where the lines before them leave it.
* `region_styled`: styling a run of lines puts their outline into the document.
-/
namespace Papyrus

/-! ## Comments and strings -/

/-- The style of a comment or string; plain text for any other style. -/
def Style.region (s : Style) : Style := if s.isInert then s else .default

theorem Style.region_of_not_isInert {s : Style} (h : s.isInert = false) : s.region = .default := by
  rw [region, h]
  rfl

@[simp] theorem Mode.region_style (m : Mode) : m.style.region = m.style := by cases m <;> rfl

theorem LineState.ofStyle_region (s : Style) : ofStyle s.region = ofStyle s := by cases s <;> rfl

/-- A span with nothing left of its style but a comment or string. -/
def StyledSpan.region (s : StyledSpan) : StyledSpan := { s with style := s.style.region }

/-- The styles of a line with nothing left of them but comments and strings. -/
def LineStyles.regions (s : LineStyles) : LineStyles :=
  { s with spans := s.spans.map StyledSpan.region }

theorem StyledSpan.styleIn_map_region (spans : List StyledSpan) (i : Nat) :
    styleIn (spans.map region) i = (styleIn spans i).region := by
  induction spans with
  | nil => rfl
  | cons s rest ih =>
    rw [List.map_cons, styleIn_cons, styleIn_cons, ih]
    by_cases h : s.start ≤ i ∧ i < s.stop
    · rw [if_pos h]
      exact if_pos h
    · rw [if_neg h]
      exact if_neg h

/-- Code identifiers are no comments or strings. -/
theorem isInert_styleIdentifier (env : Surroundings) (line : Nat) (word : String)
    (next : Option Token) (k : Knowledge) :
    (styleIdentifier env line word next k).1.isInert = false := by
  unfold styleIdentifier
  dsimp only
  repeat' split
  all_goals rfl

section
variable (env env' : Surroundings) (line line' : Nat)

theorem region_styleCode (t : Token) (next : Option Token) (k k' : Knowledge) :
    (styleCode env line t next k).1.region = (styleCode env' line' t next k').1.region ∧
      (styleCode env line t next k).2.1 = (styleCode env' line' t next k').2.1 := by
  unfold styleCode
  cases t.kind with
  | identifier =>
    dsimp only
    rw [Style.region_of_not_isInert (isInert_styleIdentifier _ _ _ _ _),
      Style.region_of_not_isInert (isInert_styleIdentifier _ _ _ _ _)]
    exact ⟨rfl, rfl⟩
  | numeric => exact ⟨rfl, rfl⟩
  | special =>
    dsimp only
    by_cases hdoc : (t.content == "\x7b") = true
    · rw [if_pos hdoc, if_pos hdoc]
      exact ⟨rfl, rfl⟩
    rw [if_neg hdoc, if_neg hdoc]
    by_cases hcomment : (t.content == ";") = true
    · rw [if_pos hcomment, if_pos hcomment]
      by_cases hmulti : (next.any fun n => n.content == "/" && t.touches n) = true
      · rw [if_pos hmulti, if_pos hmulti]
        exact ⟨rfl, rfl⟩
      · rw [if_neg hmulti, if_neg hmulti]
        exact ⟨rfl, rfl⟩
    rw [if_neg hcomment, if_neg hcomment]
    by_cases hstring : (t.content == "\"") = true
    · rw [if_pos hstring, if_pos hstring]
      exact ⟨rfl, rfl⟩
    rw [if_neg hstring, if_neg hstring]
    have hplain : ∀ b : Bool, (if b then Style.operator else Style.default).region = .default := by
      decide
    exact ⟨by rw [hplain, hplain], rfl⟩

theorem region_styleToken (mode : Mode) (behind : List Token) (t : Token) (next : Option Token)
    (k k' : Knowledge) :
    (styleToken env line mode behind t next k).1.region =
        (styleToken env' line' mode behind t next k').1.region ∧
      (styleToken env line mode behind t next k).2.1 =
        (styleToken env' line' mode behind t next k').2.1 := by
  cases mode with
  | code => exact region_styleCode env env' line line' t next k k'
  | _ => exact ⟨rfl, rfl⟩

theorem regions_styleTokens (mode : Mode) (behind : List Token) (cursor : Nat)
    (k k' : Knowledge) (tokens : List Token) :
    let r := styleTokens env line mode behind cursor k tokens
    let r' := styleTokens env' line' mode behind cursor k' tokens
    r.1.map StyledSpan.region = r'.1.map StyledSpan.region ∧ r.2.1 = r'.2.1 ∧
      r.2.2.1 = r'.2.2.1 := by
  induction tokens generalizing mode behind cursor k k' with
  | nil => exact ⟨rfl, rfl, rfl⟩
  | cons t rest ih =>
    obtain ⟨hstyle, hmode⟩ := region_styleToken env env' line line' mode behind t rest.head? k k'
    obtain ⟨hspans, hstop, hfinal⟩ := ih (styleToken env line mode behind t rest.head? k).2.1
      (t :: behind) t.stop (styleToken env line mode behind t rest.head? k).2.2
      (styleToken env' line' mode behind t rest.head? k').2.2
    simp only [styleTokens, List.map_append, List.map_cons, ← hmode]
    refine ⟨?_, hstop, hfinal⟩
    rw [hspans]
    refine congrArg (_ ++ · :: _) ?_
    exact congrArg (StyledSpan.mk ⟨t.start, t.stop⟩) hstyle

/-- Where the comments and strings of a line stand, and what it leaves open, does not depend on what
styling looks up. -/
theorem regions_styleLine (text : Text) (base : Nat) (incoming : LineState) (k k' : Knowledge) :
    (styleLine env text base line incoming k).1.regions =
      (styleLine env' text base line' incoming k').1.regions := by
  obtain ⟨hspans, hstop, hmode⟩ := regions_styleTokens env env' line line' (.ofState incoming) []
    base k k' (Token.scan text base)
  simp only [styleLine, LineStyles.regions, List.map_append, hspans, hstop, hmode]

end

/-! ## The outline of a line -/

/-- Surroundings without any words. -/
def Surroundings.bare : Surroundings := ⟨PerRole.ofFn fun _ => {}, none, {}⟩

/-- Nothing found out yet, and nothing to be remembered of classes. -/
def Knowledge.bare : Knowledge := ⟨{}, { caching := false }⟩

/-- The mode after a token. -/
def Mode.after (mode : Mode) (behind : List Token) (t : Token) (next : Option Token) : Mode :=
  (styleToken .bare 0 mode behind t next .bare).2.1

theorem mode_styleToken (env : Surroundings) (line : Nat) (mode : Mode) (behind : List Token)
    (t : Token) (next : Option Token) (k : Knowledge) :
    (styleToken env line mode behind t next k).2.1 = mode.after behind t next :=
  (region_styleToken _ _ _ _ _ _ _ _ _ _).2

/-- The comments and strings of a line that is entered in the given state. -/
def outline (incoming : LineState) (text : Text) : LineStyles :=
  (styleLine .bare text 0 0 incoming .bare).1.regions

theorem regions_eq_outline (env : Surroundings) (text : Text) (line : Nat) (incoming : LineState)
    (k : Knowledge) : (styleLine env text 0 line incoming k).1.regions = outline incoming text :=
  regions_styleLine _ _ _ _ _ _ _ _ _

theorem endState_eq_outline (env : Surroundings) (text : Text) (line : Nat) (incoming : LineState)
    (k : Knowledge) :
    (styleLine env text 0 line incoming k).1.endState = (outline incoming text).endState := by
  rw [← regions_eq_outline env text line incoming k]
  rfl

theorem trailing_eq_outline (env : Surroundings) (text : Text) (line : Nat) (incoming : LineState)
    (k : Knowledge) :
    (styleLine env text 0 line incoming k).1.trailing = (outline incoming text).trailing := by
  rw [← regions_eq_outline env text line incoming k]
  rfl

theorem ofStyle_trailing_outline (incoming : LineState) (text : Text) :
    LineState.ofStyle (outline incoming text).trailing = (outline incoming text).endState :=
  ofStyle_trailing _ _ _ _ _ _

/-! ## The outline of lines -/

namespace Lines

/-- The outline of lines at an offset. The terminator of each line, also that of the last one, has
the style of white space at the end of the line. -/
def outlineAt (incoming : LineState) : Lines → Nat → Style
  | [], _ => .default
  | l :: ls, offset =>
    if offset < l.size then StyledSpan.styleIn (outline incoming l.text).spans offset
    else if offset = l.size then (outline incoming l.text).trailing
    else outlineAt (outline incoming l.text).endState ls (offset - (l.size + 1))

/-- What lines leave open for the next one. -/
def leave (incoming : LineState) : Lines → LineState
  | [] => incoming
  | l :: ls => leave (outline incoming l.text).endState ls

section
variable {incoming : LineState} {ls ls' : Lines}

/-- The outline of lines is that of their texts. -/
theorem outlineAt_congr (h : ls.map Line.text = ls'.map Line.text) (offset : Nat) :
    outlineAt incoming ls offset = outlineAt incoming ls' offset := by
  induction ls generalizing incoming ls' offset with
  | nil =>
    cases ls' with
    | nil => rfl
    | cons => cases h
  | cons l ls ih =>
    cases ls' with
    | nil => cases h
    | cons l' ls' =>
      obtain ⟨hl, hls⟩ := List.cons.inj h
      rw [outlineAt, outlineAt, ih hls, Line.size_eq, Line.size_eq, hl]

theorem size_congr (h : ls.map Line.text = ls'.map Line.text) : size ls = size ls' := by
  rw [← size_text, ← size_text, text, text, h]

theorem outlineAt_append (offset : Nat) :
    outlineAt incoming (ls ++ ls') offset =
      if offset < width ls then outlineAt incoming ls offset
      else outlineAt (leave incoming ls) ls' (offset - width ls) := by
  induction ls generalizing incoming offset with
  | nil => simp [leave]
  | cons l ls ih =>
    rw [List.cons_append, outlineAt, outlineAt, leave, width_cons, ih]
    by_cases hin : offset < l.size
    · rw [if_pos hin, if_pos (by omega), if_pos hin]
    · rw [if_neg hin]
      by_cases hend : offset = l.size
      · rw [if_pos hend, if_pos (by omega), if_neg hin, if_pos hend]
      · rw [if_neg hend, if_neg hin, if_neg hend]
        by_cases hrest : offset - (l.size + 1) < width ls
        · rw [if_pos hrest, if_pos (by omega)]
        · rw [if_neg hrest, if_neg (by omega)]
          congr 1
          omega

theorem styleAt_append (offset : Nat) :
    styleAt (ls ++ ls') offset =
      if offset < width ls then styleAt ls offset else styleAt ls' (offset - width ls) := by
  induction ls generalizing offset with
  | nil => simp
  | cons l ls ih =>
    rw [List.cons_append, styleAt, styleAt, width_cons, ih]
    by_cases hin : offset ≤ l.size
    · rw [if_pos hin, if_pos (by omega), if_pos hin]
    · rw [if_neg hin, if_neg hin]
      by_cases hrest : offset - (l.size + 1) < width ls
      · rw [if_pos hrest, if_pos (by omega)]
      · rw [if_neg hrest, if_neg (by omega)]
        congr 1
        omega

/-- What lines leave open is told by the outline at their end. -/
theorem leave_eq_ofStyle (h : ls ≠ []) :
    leave incoming ls = LineState.ofStyle (outlineAt incoming ls (size ls)) := by
  induction ls generalizing incoming with
  | nil => contradiction
  | cons l ls ih =>
    by_cases hls : ls = []
    · subst hls
      rw [leave, leave, outlineAt, size, if_neg (Nat.lt_irrefl _), if_pos rfl,
        ofStyle_trailing_outline]
    · rw [leave, ih hls, outlineAt, size_cons hls, if_neg (by omega), if_neg (by omega)]
      congr 2
      omega

theorem width_eq (h : ls ≠ []) : width ls = size ls + 1 := by
  induction ls with
  | nil => contradiction
  | cons l ls ih =>
    by_cases hls : ls = []
    · subst hls
      rw [width_cons, width_nil, size]
    · rw [width_cons, ih hls, size_cons hls]
      omega

end

/-! ## The outline of styled lines -/

/-- Of the styles that a run puts into lines read in full, the comments and strings are the
outline. -/
theorem region_styleOf (env : Surroundings) (line : Nat) (incoming : LineState) (k : Knowledge)
    (ls : Lines) (offset : Nat) :
    (styleOf id env line incoming k ls offset).region = outlineAt incoming ls offset := by
  induction ls generalizing line incoming k offset with
  | nil => rfl
  | cons l ls ih =>
    have hspans : (styleLine env l.text 0 line incoming k).1.spans.map StyledSpan.region =
        (outline incoming l.text).spans := by
      rw [← regions_eq_outline env l.text line incoming k]
      rfl
    have htrailing := trailing_eq_outline env l.text line incoming k
    have hstate := endState_eq_outline env l.text line incoming k
    rw [styleOf_cons, outlineAt, ← hspans, ← htrailing, ← hstate, StyledSpan.styleIn_map_region]
    dsimp only
    by_cases hin : offset < l.size
    · rw [if_pos hin, if_pos hin]
    rw [if_neg hin, if_neg hin]
    by_cases hend : offset = l.size
    · rw [if_pos hend, if_pos hend]
      exact Mode.region_style _
    · rw [if_neg hend, if_neg hend, ih]

/-- Styling a run of lines that are read in full puts their outline into the document. -/
theorem region_styled (env : Surroundings) (line : Nat) (incoming : LineState) (k : Knowledge)
    (ls : Lines) {offset : Nat} (h : offset < size ls) :
    (styleAt (styled id env line incoming k ls.length ls).2.2 offset).region =
      outlineAt incoming ls offset := by
  have hstyled := @styleAt_styled id (fun _ => Nat.le_refl _) env line incoming k ls offset h
  rw [hstyled, region_styleOf]

end Lines

theorem Lexer.size_restyleAll (x : Lexer) (files : FileTree) (d : Document) :
    (x.restyleAll files d).2.size = d.size :=
  Lines.size_congr (x.map_text_restyleAll files d)

end Papyrus

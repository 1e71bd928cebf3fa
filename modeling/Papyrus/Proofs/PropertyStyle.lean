import Papyrus.Proofs.Declaration
/-!
# Names of properties in a styled document

What has been declared before changes the styles of a line in one way only: an identifier in code
that no word list has and that is a known name is styled as a property. Two runs over the same lines
that know different names, where both know all names that the lines declare, therefore differ only
there.

Without a profile, styling a document twice gives all uses of a declared name their style, also
those above the declaration.

Results:
* `styleOf_recolour`: what knowing more names changes.
* `styleAt_restyleTwice`: the styles that two lexers leave, one of which knows more names.
-/
namespace Papyrus

/-- The style of a place in plain text that turns out to be a property. -/
def Style.recolour (known : Bool) (s : Style) : Style :=
  if s = .default ∧ known = true then .property else s

@[simp] theorem Style.recolour_false (s : Style) : s.recolour false = s :=
  if_neg fun h => Bool.false_ne_true h.2

theorem Style.recolour_of_ne {s : Style} (h : s ≠ .default) (known : Bool) :
    s.recolour known = s := if_neg fun hs => h hs.1

/-! ## Tokens -/

section
variable {env : Surroundings} (line : Nat) {k k' : Knowledge}

theorem style_lookUp (h : env.profile = none) (word : String) (k : Knowledge) :
    (env.lookUp word k).1 = Style.recolour (k.properties.isProperty word) .default := by
  unfold Surroundings.lookUp
  rw [h]
  cases k.properties.isProperty word <;> rfl

theorem style_styleToken (h : env.profile = none) {t : Token}
    (hk : k'.properties.isProperty t.content = true → k.properties.isProperty t.content = true)
    (mode : Mode) (behind : List Token) (next : Option Token) :
    (styleToken env line mode behind t next k).1 =
      (styleToken env line mode behind t next k').1.recolour
        (t.kind == .identifier && k.properties.isProperty t.content) := by
  cases mode with
  | code =>
    unfold styleToken styleCode
    cases t.kind with
    | identifier =>
      dsimp only
      rw [styleIdentifier_eq, styleIdentifier_eq]
      cases hword : wordStyle? env.words t.content next with
      | some s => exact (Style.recolour_of_ne (wordStyle?_ne hword).1 _).symm
      | none =>
        dsimp only
        rw [style_lookUp h, style_lookUp h]
        cases hold : k'.properties.isProperty t.content with
        | true =>
          rw [hk hold]
          rfl
        | false =>
          rw [Style.recolour_false]
          rfl
    | numeric => rfl
    | special =>
      rw [show (Token.Kind.special == Token.Kind.identifier) = false from rfl, Bool.false_and,
        Style.recolour_false]
      dsimp only
      repeat' split
      all_goals rfl
  | _ => rfl

/-! ## Lines -/

/-- The identifier that covers a byte. -/
def identifierIn (tokens : List Token) (i : Nat) : Option String :=
  (tokens.find? fun t => t.kind == .identifier && t.start ≤ i && i < t.stop).map (·.content)

theorem identifierIn_eq_none {lo hi : Nat} {tokens : List Token}
    (h : Token.Ordered lo tokens hi) {i : Nat} (hi : i < lo ∨ hi ≤ i) :
    identifierIn tokens i = none := by
  rw [identifierIn, Option.map_eq_none_iff, List.find?_eq_none]
  intro t ht
  have := h.mem ht
  simp only [Bool.and_eq_true, decide_eq_true_eq]
  omega

theorem identifierIn_cons (t : Token) (rest : List Token) (i : Nat) :
    identifierIn (t :: rest) i =
      if t.kind = .identifier ∧ t.start ≤ i ∧ i < t.stop then some t.content
      else identifierIn rest i := by
  unfold identifierIn
  by_cases h : t.kind = .identifier ∧ t.start ≤ i ∧ i < t.stop
  · rw [if_pos h, List.find?_cons_of_pos (by simpa [and_assoc] using h)]
    rfl
  · rw [if_neg h, List.find?_cons_of_neg (by simpa [and_assoc] using h)]

open StyledSpan (styleIn)

theorem styleIn_styleTokens (h : env.profile = none) {names names' : String → Bool}
    (hnames : ∀ name, names' name = true → names name = true) {mode : Mode}
    {behind tokens : List Token} {cursor hi : Nat} (hordered : Token.Ordered cursor tokens hi)
    (hdeclared : ∀ name ∈ declaredTokens env.words mode behind tokens, names' name = true)
    (hk : k.properties.isProperty = names) (hk' : k'.properties.isProperty = names')
    (tail : List StyledSpan) (i : Nat) :
    styleIn ((styleTokens env line mode behind cursor k tokens).1 ++ tail) i =
      (styleIn ((styleTokens env line mode behind cursor k' tokens).1 ++ tail) i).recolour
        ((identifierIn tokens i).any names) := by
  induction tokens generalizing mode behind cursor k k' with
  | nil => exact (Style.recolour_false _).symm
  | cons t rest ih =>
    obtain ⟨hlo, hpos, hrest⟩ := hordered
    have hsub : k'.properties.isProperty t.content = true →
        k.properties.isProperty t.content = true := by
      rw [hk, hk']
      exact hnames t.content
    have hstyle := style_styleToken line h hsub mode behind rest.head?
    have hstep : ∀ {k : Knowledge} {known : String → Bool}, k.properties.isProperty = known →
        (∀ name, names' name = true → known name = true) →
        (styleToken env line mode behind t rest.head? k).2.2.properties.isProperty = known := by
      intro k known hknown hsub
      rw [properties_styleToken]
      exact PropertyRegistry.isProperty_registerAll_of_known hknown line fun name hname =>
        hsub name (hdeclared name (List.mem_append_left _ hname))
    have hafter : ∀ name ∈ declaredTokens env.words (mode.after behind t rest.head?) (t :: behind)
        rest, names' name = true := fun name hname =>
      hdeclared name (List.mem_append_right _ hname)
    have ih := ih hrest hafter (hstep hk hnames) (hstep hk' fun _ => id)
    rw [styleTokens, styleTokens]
    dsimp only
    rw [mode_styleToken, mode_styleToken, List.append_assoc, List.append_assoc,
      StyledSpan.styleIn_gap, StyledSpan.styleIn_gap, identifierIn_cons]
    by_cases hgap : cursor ≤ i ∧ i < t.start
    · rw [if_pos hgap, if_pos hgap, if_neg (by omega),
        identifierIn_eq_none hrest (Or.inl (by omega))]
      exact (Style.recolour_false _).symm
    rw [if_neg hgap, if_neg hgap, List.cons_append, List.cons_append, StyledSpan.styleIn_cons,
      StyledSpan.styleIn_cons]
    by_cases hin : t.start ≤ i ∧ i < t.stop
    · rw [if_pos hin, if_pos hin, hstyle]
      by_cases hident : t.kind = .identifier
      · rw [if_pos ⟨hident, hin⟩, hident, hk]
        rfl
      · rw [if_neg fun h => hident h.1, identifierIn_eq_none hrest (Or.inl hin.2),
          beq_eq_false_iff_ne.2 hident]
        rfl
    · rw [if_neg hin, if_neg hin, if_neg fun h => hin h.2]
      exact ih

theorem styleIn_styleLine (h : env.profile = none) {names names' : String → Bool}
    (hnames : ∀ name, names' name = true → names name = true) {incoming : LineState} {text : Text}
    (hdeclared : ∀ name ∈ declaredLine env.words incoming text, names' name = true)
    (hk : k.properties.isProperty = names) (hk' : k'.properties.isProperty = names') (i : Nat) :
    StyledSpan.styleIn (styleLine env text 0 line incoming k).1.spans i =
      (StyledSpan.styleIn (styleLine env text 0 line incoming k').1.spans i).recolour
        ((identifierIn (Token.scan text 0) i).any names) := by
  obtain ⟨-, hstop, hmode⟩ := regions_styleTokens env env line line (.ofState incoming) [] 0 k k'
    (Token.scan text 0)
  rw [styleLine, styleLine]
  dsimp only
  rw [hstop, hmode]
  exact styleIn_styleTokens line h hnames (Token.scan_ordered text 0) hdeclared hk hk' _ i

end

/-! ## Runs -/

namespace Lines

/-- The identifier that covers an offset. -/
def identifierAt : Lines → Nat → Option String
  | [], _ => none
  | l :: ls, offset =>
    if offset < l.size then identifierIn (Token.scan l.text 0) offset
    else if offset = l.size then none
    else identifierAt ls (offset - (l.size + 1))

theorem identifierAt_congr {ls ls' : Lines} (h : ls.map Line.text = ls'.map Line.text)
    (offset : Nat) : identifierAt ls offset = identifierAt ls' offset := by
  induction ls generalizing ls' offset with
  | nil =>
    cases ls' with
    | nil => rfl
    | cons => cases h
  | cons l ls ih =>
    cases ls' with
    | nil => cases h
    | cons l' ls' =>
      obtain ⟨hl, hls⟩ := List.cons.inj h
      rw [identifierAt, identifierAt, ih hls, Line.size_eq, Line.size_eq, hl]

theorem declared_congr {words : WordLists} {line : Nat} {incoming : LineState} {ls ls' : Lines}
    (h : ls.map Line.text = ls'.map Line.text) :
    declared words line incoming ls = declared words line incoming ls' := by
  induction ls generalizing line incoming ls' with
  | nil =>
    cases ls' with
    | nil => rfl
    | cons => cases h
  | cons l ls ih =>
    cases ls' with
    | nil => cases h
    | cons l' ls' =>
      obtain ⟨hl, hls⟩ := List.cons.inj h
      rw [declared, declared, ih hls, hl]

/-- Knowing more names than those that the lines declare changes the style of identifiers in plain
text. -/
theorem styleOf_recolour {env : Surroundings} (h : env.profile = none) {k k' : Knowledge}
    {names names' : String → Bool} (hnames : ∀ name, names' name = true → names name = true)
    {line : Nat} {incoming : LineState} {ls : Lines}
    (hdeclared : ∀ name ∈ (declared env.words line incoming ls).map (·.1), names' name = true)
    (hk : k.properties.isProperty = names) (hk' : k'.properties.isProperty = names')
    (offset : Nat) :
    styleOf id env line incoming k ls offset =
      (styleOf id env line incoming k' ls offset).recolour
        ((identifierAt ls offset).any names) := by
  induction ls generalizing k k' line incoming offset with
  | nil => rfl
  | cons l ls ih =>
    rw [declared, List.map_append, List.map_map] at hdeclared
    have hline : ∀ name ∈ declaredLine env.words incoming l.text, names' name = true :=
      fun name hname => hdeclared name (List.mem_append_left _ (by simpa using hname))
    have hstep : ∀ {k : Knowledge} {known : String → Bool}, k.properties.isProperty = known →
        (∀ name, names' name = true → known name = true) →
        (styleLine env l.text 0 line incoming k).2.properties.isProperty = known := by
      intro k known hknown hsub
      rw [properties_styleLine]
      exact PropertyRegistry.isProperty_registerAll_of_known hknown line fun name hname =>
        hsub name (hline name hname)
    have hafter : ∀ name ∈ (declared env.words (line + 1) (outline incoming l.text).endState
        ls).map (·.1), names' name = true := fun name hname =>
      hdeclared name (List.mem_append_right _ hname)
    have ih := ih hafter (hstep hk hnames) (hstep hk' fun _ => id)
    rw [styleOf_cons, styleOf_cons, identifierAt]
    dsimp only
    rw [endState_eq_outline, endState_eq_outline, trailing_eq_outline, trailing_eq_outline]
    by_cases hin : offset < l.size
    · rw [if_pos hin, if_pos hin, if_pos hin]
      exact styleIn_styleLine line h hnames hline hk hk' offset
    rw [if_neg hin, if_neg hin, if_neg hin]
    by_cases hend : offset = l.size
    · rw [if_pos hend, if_pos hend, if_pos hend]
      exact (Style.recolour_false _).symm
    · rw [if_neg hend, if_neg hend, if_neg hend]
      exact ih _

end Lines

/-! ## Styling a document twice -/

namespace Lexer

/-- Styles a whole document, and once more with the names that it declares known. -/
def restyleTwice (x : Lexer) (files : FileTree) (d : Document) : Lexer × Document :=
  (x.restyleAll files d).1.restyleAll files (x.restyleAll files d).2

section
variable (x : Lexer) (files : FileTree) {d : Document}

theorem properties_restyleAll (h : d.readLimit = none) :
    (x.restyleAll files d).1.properties =
      x.properties.registerAll (Lines.declared x.words 0 .default d.lines) := by
  have hproperties := properties_styled (x.surroundings files) 0 .default x.knowledge
    d.lines.length d.lines
  rw [List.take_length] at hproperties
  rw [restyleAll_eq x files h]
  exact hproperties

theorem isProperty_restyleAll (h : d.readLimit = none) {name : String} :
    (x.restyleAll files d).1.properties.isProperty name = true ↔
      x.properties.isProperty name = true ∨
        name ∈ (Lines.declared x.words 0 .default d.lines).map (·.1) := by
  rw [properties_restyleAll x files h, PropertyRegistry.isProperty_registerAll]

theorem styleAt_restyleTwice_eq (h : d.readLimit = none) {offset : Nat} (hoff : offset < d.size) :
    (x.restyleTwice files d).2.styleAt offset =
      Lines.styleOf id (x.surroundings files) 0 .default (x.restyleAll files d).1.knowledge d.lines
        offset := by
  have hread := (x.readLimit_restyleAll files d).trans h
  have htexts := x.map_text_restyleAll files d
  have hsize : (x.restyleAll files d).2.size = d.size := Lines.size_congr htexts
  rw [← hsize] at hoff
  rw [restyleTwice, Document.styleAt, lines_restyleAll _ files hread,
    ← Lines.styleOf_congr id _ 0 .default _ htexts]
  exact @Lines.styleAt_styled id (fun _ => Nat.le_refl _) _ _ _ _ _ _ hoff

/-- A name that styling twice leaves in plain text is none that the lexer knows by then. -/
theorem isProperty_of_plain (h : d.readLimit = none) (hprofile : x.settings.profile? = none)
    {offset : Nat} (hoff : offset < d.size) {name : String}
    (hident : d.lines.identifierAt offset = some name)
    (hplain : (x.restyleTwice files d).2.styleAt offset = .default) :
    (x.restyleAll files d).1.properties.isProperty name = false := by
  have hself := @Lines.styleOf_recolour (x.surroundings files) hprofile
    (x.restyleAll files d).1.knowledge (x.restyleAll files d).1.knowledge _ _ (fun _ => id) 0
    .default d.lines (fun name hname => (isProperty_restyleAll x files h).2 (Or.inr hname)) rfl rfl
    offset
  rw [← styleAt_restyleTwice_eq x files h hoff, hident, hplain, Option.any_some] at hself
  cases hknown : (x.restyleAll files d).1.properties.isProperty name with
  | false => rfl
  | true =>
    rw [hknown] at hself
    cases hself

end

/-- Where two lexers without a profile style the same lines twice, and one of them knew more names,
it leaves the same styles but for the identifiers that it knew and the other one leaves in plain
text. -/
theorem styleAt_restyleTwice {x y : Lexer} (files : FileTree) {d f : Document}
    (hwords : y.words = x.words) (hx : x.settings.profile? = none) (hy : y.settings.profile? = none)
    (hsub : ∀ name, y.properties.isProperty name = true → x.properties.isProperty name = true)
    (hd : d.readLimit = none) (hf : f.readLimit = none)
    (htexts : f.lines.map Line.text = d.lines.map Line.text) {offset : Nat}
    (hoff : offset < d.size) :
    (x.restyleTwice files d).2.styleAt offset =
      ((y.restyleTwice files f).2.styleAt offset).recolour
        ((d.lines.identifierAt offset).any x.properties.isProperty) := by
  have hsize : f.size = d.size := Lines.size_congr htexts
  have henv : y.surroundings files = x.surroundings files := by
    rw [surroundings, surroundings, hwords, hx, hy]
  have hnames : ∀ {name : String}, (x.restyleAll files d).1.properties.isProperty name = true ↔
      x.properties.isProperty name = true ∨
        name ∈ (Lines.declared x.words 0 .default d.lines).map (·.1) :=
    isProperty_restyleAll x files hd
  have hnames' : ∀ {name : String}, (y.restyleAll files f).1.properties.isProperty name = true ↔
      y.properties.isProperty name = true ∨
        name ∈ (Lines.declared x.words 0 .default d.lines).map (·.1) := by
    intro name
    rw [isProperty_restyleAll y files hf, hwords, Lines.declared_congr htexts]
  have hmore : ∀ name, (y.restyleAll files f).1.properties.isProperty name = true →
      (x.restyleAll files d).1.properties.isProperty name = true := fun name h =>
    hnames.2 ((hnames'.1 h).imp_left (hsub name))
  have hdeclared : ∀ name ∈ (Lines.declared (x.surroundings files).words 0 .default
      d.lines).map (·.1), (y.restyleAll files f).1.properties.isProperty name = true :=
    fun name h => hnames'.2 (Or.inr h)
  have hfresh : (y.restyleTwice files f).2.styleAt offset = Lines.styleOf id
      (x.surroundings files) 0 .default (y.restyleAll files f).1.knowledge d.lines offset := by
    rw [styleAt_restyleTwice_eq y files hf (by omega), henv, Lines.styleOf_congr id _ _ _ _ htexts]
  have hstyle := @Lines.styleOf_recolour (x.surroundings files) hx
    (x.restyleAll files d).1.knowledge (y.restyleAll files f).1.knowledge
    _ _ hmore 0 .default d.lines hdeclared rfl rfl offset
  rw [styleAt_restyleTwice_eq x files hd hoff, hstyle, ← hfresh]
  by_cases hplain : (y.restyleTwice files f).2.styleAt offset = .default
  · cases hident : d.lines.identifierAt offset with
    | none => rfl
    | some name =>
      have hunknown := isProperty_of_plain y files hf hy (by omega)
        ((Lines.identifierAt_congr htexts offset).trans hident) hplain
      have hsame : (x.restyleAll files d).1.properties.isProperty name =
          x.properties.isProperty name := by
        rw [Bool.eq_iff_iff, hnames]
        refine ⟨fun h => h.resolve_right fun hmem => ?_, Or.inl⟩
        rw [hdeclared name hmem] at hunknown
        cases hunknown
      rw [Option.any_some, Option.any_some, hsame]
  · rw [Style.recolour_of_ne hplain, Style.recolour_of_ne hplain]

end Lexer

end Papyrus

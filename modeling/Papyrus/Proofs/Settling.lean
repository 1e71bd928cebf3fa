import Papyrus.Proofs.CodeToken
import Papyrus.Proofs.Inquiry
/-!
# Styling once more

Styling a document once settles all that styling it asks. The second time nothing is found out, and
from then on the styles stay the same.

The first time a name that is used before its declaration is not known yet. For a new lexer this is
all that the second time changes.

Results:
* `styleOf_early`: knowing the names before they are declared changes only uses before that.
* `fst_restyleTwice`: the second time nothing is found out.
* `restyleAll_settles`: the third time no style changes, and the second time none either if every
  use of a name stands behind a declaration.
-/
namespace Papyrus

/-! ## Names that are used before they are declared -/

/-- The names that the tokens of a line declare, each with the offset at which the declaration
starts. -/
def declarationTokens (words : WordLists) (mode : Mode) (behind : List Token) :
    List Token → List (String × Nat)
  | [] => []
  | t :: rest =>
    (declaredToken? words mode t rest.head?).toList.map (·, t.start) ++
      declarationTokens words (mode.after behind t rest.head?) (t :: behind) rest

/-- The names that a line declares, each with its place. -/
def declarationLine (words : WordLists) (incoming : LineState) (text : Text) :
    List (String × Nat) :=
  declarationTokens words (.ofState incoming) [] (Token.scan text 0)

/-- The names that lines declare, each with the offset at which the declaration starts. -/
def Lines.declarations (words : WordLists) (incoming : LineState) : Lines → List (String × Nat)
  | [] => []
  | l :: ls =>
    declarationLine words incoming l.text ++
      (declarations words (outline incoming l.text).endState ls).map fun p =>
        (p.1, p.2 + (l.size + 1))

/-- The names that a document declares, each with the offset at which the declaration starts. -/
def Document.declarations (d : Document) (words : WordLists) : List (String × Nat) :=
  d.lines.declarations words .default

theorem map_fst_declarationTokens (words : WordLists) (mode : Mode) (behind tokens : List Token) :
    (declarationTokens words mode behind tokens).map (·.1) =
      declaredTokens words mode behind tokens := by
  induction tokens generalizing mode behind with
  | nil => rfl
  | cons t rest ih =>
    rw [declarationTokens, declaredTokens, List.map_append, List.map_map, ih]
    exact congrArg (· ++ _) (List.map_id _)

/-- The first token declares a name at its own place, or a token behind it does. -/
theorem mem_declarationTokens_cons {words : WordLists} {mode : Mode} {behind rest : List Token}
    {t : Token} {p : String × Nat} :
    p ∈ declarationTokens words mode behind (t :: rest) ↔
      declaredToken? words mode t rest.head? = some p.1 ∧ t.start = p.2 ∨
        p ∈ declarationTokens words (mode.after behind t rest.head?) (t :: behind) rest := by
  rw [declarationTokens, List.mem_append, List.mem_map]
  refine or_congr_left ⟨?_, ?_⟩
  · rintro ⟨name, hname, rfl⟩
    exact ⟨Option.mem_toList.1 hname, rfl⟩
  · rintro ⟨hname, hstart⟩
    exact ⟨p.1, Option.mem_toList.2 hname, by rw [hstart]⟩

/-- No declaration starts before the tokens. -/
theorem le_of_mem_declarationTokens {words : WordLists} {mode : Mode} {behind tokens : List Token}
    {lo hi : Nat} (h : Token.Ordered lo tokens hi) {p : String × Nat}
    (hp : p ∈ declarationTokens words mode behind tokens) : lo ≤ p.2 := by
  induction tokens generalizing lo mode behind with
  | nil => cases hp
  | cons t rest ih =>
    obtain ⟨hlo, hpos, hrest⟩ := h
    rcases mem_declarationTokens_cons.1 hp with ⟨-, hstart⟩ | hp
    · exact hstart ▸ hlo
    · exact Nat.le_trans (Nat.le_of_lt (Nat.lt_of_le_of_lt hlo hpos)) (ih hrest hp)

/-- What is remembered of classes is so under the active profile. -/
def Knowledge.Truthful (env : Surroundings) (k : Knowledge) : Prop :=
  ∀ profile ∈ env.profile, k.classes.Truthful env.files profile

section
variable {env : Surroundings} {line : Nat} {k k' : Knowledge}

theorem Knowledge.Truthful.styleToken (h : k.Truthful env) (line : Nat) (mode : Mode)
    (behind : List Token) (t : Token) (next : Option Token) :
    (styleToken env line mode behind t next k).2.2.Truthful env :=
  (agree_styleToken ⟨rfl, h, h⟩ line mode behind t next).2.2.left

theorem Knowledge.Truthful.styleLine (h : k.Truthful env) (line : Nat) (text : Text) (base : Nat)
    (incoming : LineState) : (styleLine env text base line incoming k).2.Truthful env :=
  (agree_styleLine ⟨rfl, h, h⟩ line text base incoming).2.left

/-- A name is looked up in the same way if it is known to be a property or not. -/
theorem lookUp_early {word : String} (h : k.Truthful env) (h' : k'.Truthful env)
    (hword : k.properties.isProperty word = k'.properties.isProperty word) :
    (env.lookUp word k).1 = (env.lookUp word k').1 := by
  unfold Surroundings.lookUp
  rw [hword]
  cases k'.properties.isProperty word with
  | true => rfl
  | false =>
    cases hprofile : env.profile with
    | none => rfl
    | some profile =>
      dsimp only
      rw [if_neg Bool.false_ne_true, if_neg Bool.false_ne_true,
        ClassResolver.fst_isClass (h profile hprofile),
        ClassResolver.fst_isClass (h' profile hprofile)]

/-- A token that declares nothing has the same style whether or not more names are known, if it is
no property by one of these names. -/
theorem style_styleToken_early {t : Token} (h : k.Truthful env) (h' : k'.Truthful env)
    (hsub : k.properties.isProperty t.content = true → k'.properties.isProperty t.content = true)
    (mode : Mode) (behind : List Token) (next : Option Token)
    (hearly : declaredToken? env.words mode t next = none → t.kind = .identifier →
      (styleToken env line mode behind t next k').1 = .property →
      k.properties.isProperty t.content = true) :
    (styleToken env line mode behind t next k).1 =
      (styleToken env line mode behind t next k').1 := by
  cases mode with
  | code =>
    unfold styleToken styleCode declaredToken? at *
    cases hkind : t.kind with
    | identifier =>
      rw [hkind] at hearly
      dsimp only at hearly ⊢
      rw [styleIdentifier_eq] at hearly
      rw [styleIdentifier_eq, styleIdentifier_eq]
      cases hword : wordStyle? env.words t.content next with
      | some s => rfl
      | none =>
        rw [hword] at hearly
        refine lookUp_early h h' (Bool.eq_iff_iff.2 ⟨hsub, fun hknown => ?_⟩)
        refine hearly (declaredName?_of_wordStyle? hword) rfl ?_
        rw [Surroundings.lookUp, if_pos hknown]
    | numeric => rfl
    | special =>
      dsimp only
      repeat' split
      all_goals rfl
  | _ => rfl

theorem isProperty_styleToken {mode : Mode} {behind : List Token} {t : Token}
    {next : Option Token} {name : String} :
    (styleToken env line mode behind t next k).2.2.properties.isProperty name = true ↔
      k.properties.isProperty name = true ∨
        declaredToken? env.words mode t next = some name := by
  rw [properties_styleToken, PropertyRegistry.isProperty_registerAll, List.map_map]
  simp

theorem isProperty_styleLine {incoming : LineState} {text : Text} {name : String} :
    (styleLine env text 0 line incoming k).2.properties.isProperty name = true ↔
      k.properties.isProperty name = true ∨ name ∈ declaredLine env.words incoming text := by
  rw [properties_styleLine, PropertyRegistry.isProperty_registerAll, List.map_map]
  simp

/-- Of the names of all properties `k` knows some and `k'` knows them all. -/
structure Knowledge.Ahead (env : Surroundings) (names : String → Bool) (k k' : Knowledge) :
    Prop where
  truthful : k.Truthful env
  truthful' : k'.Truthful env
  some_known : ∀ name, k.properties.isProperty name = true → names name = true
  all_known : k'.properties.isProperty = names

namespace Knowledge.Ahead

variable {names : String → Bool} (h : Ahead env names k k')
include h

theorem styleToken (line : Nat) {mode : Mode} (behind : List Token) {t : Token}
    {next : Option Token}
    (hdeclared : ∀ name ∈ declaredToken? env.words mode t next, names name = true) :
    Ahead env names (styleToken env line mode behind t next k).2.2
      (styleToken env line mode behind t next k').2.2 where
  truthful := h.truthful.styleToken line mode behind t next
  truthful' := h.truthful'.styleToken line mode behind t next
  some_known name hname :=
    (isProperty_styleToken.1 hname).elim (h.some_known name) (hdeclared name)
  all_known := by
    rw [properties_styleToken]
    exact PropertyRegistry.isProperty_registerAll_of_known h.all_known line fun name hname =>
      hdeclared name (Option.mem_toList.1 hname)

theorem styleLine (line : Nat) {incoming : LineState} {text : Text}
    (hdeclared : ∀ name ∈ declaredLine env.words incoming text, names name = true) :
    Ahead env names (styleLine env text 0 line incoming k).2
      (styleLine env text 0 line incoming k').2 where
  truthful := h.truthful.styleLine line text 0 incoming
  truthful' := h.truthful'.styleLine line text 0 incoming
  some_known name hname :=
    (isProperty_styleLine.1 hname).elim (h.some_known name) (hdeclared name)
  all_known := by
    rw [properties_styleLine]
    exact PropertyRegistry.isProperty_registerAll_of_known h.all_known line hdeclared

end Knowledge.Ahead

/-- Every identifier that is styled as a property is known to be one, or stands behind a declaration
of its name. -/
def Knowledge.Justifies (k : Knowledge) (identifier : Nat → Option String) (style : Nat → Style)
    (declarations : List (String × Nat)) : Prop :=
  ∀ i, ∀ name ∈ identifier i, style i = .property →
    k.properties.isProperty name = true ∨ ∃ p ∈ declarations, p.1 = name ∧ p.2 ≤ i

open StyledSpan (styleIn)

/-- Behind a token, its declaration has been found out. -/
theorem Knowledge.Justifies.tail {mode : Mode} {behind rest : List Token} {t : Token}
    {cursor hi : Nat} {tail : List StyledSpan}
    (h : k.Justifies (identifierIn (t :: rest))
      (styleIn ((styleTokens env line mode behind cursor k' (t :: rest)).1 ++ tail))
      (declarationTokens env.words mode behind (t :: rest)))
    (hlt : t.start < t.stop) (hrest : Token.Ordered t.stop rest hi) :
    (styleToken env line mode behind t rest.head? k).2.2.Justifies (identifierIn rest)
      (styleIn ((styleTokens env line (mode.after behind t rest.head?) (t :: behind) t.stop
        (styleToken env line mode behind t rest.head? k').2.2 rest).1 ++ tail))
      (declarationTokens env.words (mode.after behind t rest.head?) (t :: behind) rest) := by
  intro i name hname hproperty
  have hbehind : t.stop ≤ i := by
    by_contra hlt
    rw [identifierIn_eq_none hrest (Or.inl (Nat.lt_of_not_le hlt))] at hname
    cases hname
  have hall := h i name (by rwa [identifierIn_cons, if_neg (by omega)])
  rw [styleIn_styleTokens_behind env line hlt tail hbehind] at hall
  rcases hall hproperty with hknown | ⟨p, hp, rfl, hle⟩
  · exact Or.inl (isProperty_styleToken.2 (Or.inl hknown))
  · rcases mem_declarationTokens_cons.1 hp with ⟨hdeclared, -⟩ | hp
    · exact Or.inl (isProperty_styleToken.2 (Or.inr hdeclared))
    · exact Or.inr ⟨p, hp, rfl, hle⟩

/-- Knowing more names changes no style of a line on which every property stands behind a
declaration of its name or is known anyway. -/
theorem styleIn_early {names : String → Bool} {mode : Mode} {behind tokens : List Token}
    {cursor hi : Nat} (h : Knowledge.Ahead env names k k')
    (hdeclared : ∀ name ∈ declaredTokens env.words mode behind tokens, names name = true)
    (hordered : Token.Ordered cursor tokens hi) (tail : List StyledSpan)
    (hearly : k.Justifies (identifierIn tokens)
      (styleIn ((styleTokens env line mode behind cursor k' tokens).1 ++ tail))
      (declarationTokens env.words mode behind tokens)) (i : Nat) :
    styleIn ((styleTokens env line mode behind cursor k tokens).1 ++ tail) i =
      styleIn ((styleTokens env line mode behind cursor k' tokens).1 ++ tail) i := by
  induction tokens generalizing mode behind cursor k k' with
  | nil => rfl
  | cons t rest ih =>
    have hhead := @styleIn_styleTokens_head env line mode behind rest t cursor hi k' hordered tail
    obtain ⟨hlo, hpos, hrest⟩ := hordered
    have hstyle : (styleToken env line mode behind t rest.head? k).1 =
        (styleToken env line mode behind t rest.head? k').1 := by
      refine style_styleToken_early h.truthful h.truthful' (h.all_known ▸ h.some_known t.content)
        mode behind rest.head? fun hnone hident hproperty => ?_
      have hin : identifierIn (t :: rest) t.start = some t.content := by
        rw [identifierIn_cons, if_pos ⟨hident, Nat.le_refl _, hpos⟩]
      refine (hearly t.start _ hin (hhead.trans hproperty)).resolve_right ?_
      rintro ⟨p, hp, -, hle⟩
      -- whatever is declared here is declared behind the token
      rw [mem_declarationTokens_cons, hnone] at hp
      have := le_of_mem_declarationTokens hrest (hp.resolve_left nofun)
      omega
    have hhere : ∀ name ∈ declaredToken? env.words mode t rest.head?, names name = true :=
      fun name hname => hdeclared name (List.mem_append_left _ (Option.mem_toList.2 hname))
    have hafter : ∀ name ∈ declaredTokens env.words (mode.after behind t rest.head?) (t :: behind)
        rest, names name = true := fun name hname =>
      hdeclared name (List.mem_append_right _ hname)
    rw [styleIn_styleTokens_cons, styleIn_styleTokens_cons, hstyle, mode_styleToken,
      mode_styleToken, ih (h.styleToken line behind hhere) hafter hrest (hearly.tail hpos hrest)]

theorem styleIn_styleLine_early {names : String → Bool} {incoming : LineState} {text : Text}
    (h : Knowledge.Ahead env names k k')
    (hdeclared : ∀ name ∈ declaredLine env.words incoming text, names name = true)
    (hearly : k.Justifies (identifierIn (Token.scan text 0))
      (styleIn (styleLine env text 0 line incoming k').1.spans)
      (declarationLine env.words incoming text)) (i : Nat) :
    styleIn (styleLine env text 0 line incoming k).1.spans i =
      styleIn (styleLine env text 0 line incoming k').1.spans i := by
  obtain ⟨-, hstop, hmode⟩ := regions_styleTokens env env line line (.ofState incoming) [] 0 k k'
    (Token.scan text 0)
  rw [styleLine, styleLine]
  dsimp only
  rw [hstop, hmode]
  exact styleIn_early h hdeclared (Token.scan_ordered text 0) _ hearly i

namespace Lines

variable {incoming : LineState} {l : Line} {ls : Lines}
  (hearly : k.Justifies (identifierAt (l :: ls)) (styleOf id env line incoming k' (l :: ls))
    (declarations env.words incoming (l :: ls)))
include hearly

/-- In the first line what is declared behind it does not count. -/
theorem justifies_first : k.Justifies (identifierIn (Token.scan l.text 0))
    (styleIn (styleLine env l.text 0 line incoming k').1.spans)
    (declarationLine env.words incoming l.text) := by
  intro i name hname hproperty
  have hlt : i < l.size := by
    by_contra hle
    rw [identifierIn_eq_none (Token.scan_ordered l.text 0)
      (Or.inr (by rw [Nat.zero_add, ← l.size_eq]; exact Nat.le_of_not_lt hle))] at hname
    cases hname
  have hall := hearly i name (by rwa [identifierAt, if_pos hlt])
  rw [styleOf_cons] at hall
  dsimp only at hall
  rw [if_pos hlt] at hall
  refine (hall hproperty).imp_right ?_
  rintro ⟨p, hp, rfl, hle⟩
  refine ⟨p, (List.mem_append.1 hp).resolve_right fun hp => ?_, rfl, hle⟩
  obtain ⟨q, -, rfl⟩ := List.mem_map.1 hp
  dsimp only at hle
  omega

/-- Behind a line, its declarations have been found out. -/
theorem justifies_behind : (styleLine env l.text 0 line incoming k).2.Justifies (identifierAt ls)
    (styleOf id env (line + 1) (outline incoming l.text).endState
      (styleLine env l.text 0 line incoming k').2 ls)
    (declarations env.words (outline incoming l.text).endState ls) := by
  intro i name hname hproperty
  have hall := hearly (i + (l.size + 1)) name (by
    rwa [identifierAt, if_neg (by omega), if_neg (by omega), Nat.add_sub_cancel])
  rw [styleOf_cons] at hall
  dsimp only at hall
  rw [if_neg (by omega), if_neg (by omega), endState_eq_outline, Nat.add_sub_cancel] at hall
  rcases hall hproperty with hknown | ⟨p, hp, rfl, hle⟩
  · exact Or.inl (isProperty_styleLine.2 (Or.inl hknown))
  · rcases List.mem_append.1 hp with hp | hp
    · refine Or.inl (isProperty_styleLine.2 (Or.inr ?_))
      rw [declaredLine, ← map_fst_declarationTokens]
      exact List.mem_map_of_mem hp
    · obtain ⟨q, hq, rfl⟩ := List.mem_map.1 hp
      exact Or.inr ⟨q, hq, rfl, Nat.le_of_add_le_add_right hle⟩

end Lines

/-- Knowing more names changes no style of lines on which every property stands behind a declaration
of its name or is known anyway. -/
theorem Lines.styleOf_early {names : String → Bool} {incoming : LineState} {ls : Lines}
    (h : Knowledge.Ahead env names k k')
    (hdeclared : ∀ name ∈ (declared env.words line incoming ls).map (·.1), names name = true)
    (hearly : k.Justifies (identifierAt ls) (styleOf id env line incoming k' ls)
      (declarations env.words incoming ls)) (offset : Nat) :
    styleOf id env line incoming k ls offset = styleOf id env line incoming k' ls offset := by
  induction ls generalizing k k' line incoming offset with
  | nil => rfl
  | cons l ls ih =>
    rw [declared, List.map_append, List.map_map] at hdeclared
    have hhere : ∀ name ∈ declaredLine env.words incoming l.text, names name = true :=
      fun name hname => hdeclared name (List.mem_append_left _ (by simpa using hname))
    have hafter : ∀ name ∈ (declared env.words (line + 1) (outline incoming l.text).endState
        ls).map (·.1), names name = true := fun name hname =>
      hdeclared name (List.mem_append_right _ hname)
    have hline := styleIn_styleLine_early h hhere (justifies_first hearly)
    have hrest := ih (h.styleLine line hhere) hafter (justifies_behind hearly)
    rw [styleOf_cons, styleOf_cons]
    dsimp only
    rw [hline, endState_eq_outline, endState_eq_outline, trailing_eq_outline, trailing_eq_outline,
      hrest]

end

/-! ## Styling a document three times -/

namespace Lines

/-- Styling leaves the terminator of the last line as it is. -/
theorem styleAt_styled_of_le (env : Surroundings) (line : Nat) (incoming : LineState)
    (k : Knowledge) {ls : Lines} {offset : Nat} (h : size ls ≤ offset) :
    styleAt (styled id env line incoming k ls.length ls).2.2 offset = styleAt ls offset := by
  induction ls generalizing line incoming k offset with
  | nil => rfl
  | cons l ls ih =>
    have hsize := Line.size_restyle l (styleLine env (id l.text) 0 line incoming k).1 0
      (id l.text).size (!ls.isEmpty)
    rw [List.length_cons, styled, Line.styled, styleAt, styleAt]
    rw [hsize]
    by_cases hend : offset ≤ l.size
    · -- only the terminator of the last line stands here
      have hls : ls = [] := by
        by_contra hne
        rw [size_cons hne] at h
        omega
      subst hls
      have htiles := tiles_styleLine env l.text 0 line incoming k
      have hl : l.size ≤ offset := h
      have hlast := @Line.styleAt_restyle l _ 0 _ false htiles (Nat.le_of_eq l.size_eq.symm) offset
      rw [if_neg (by rw [← l.size_eq]; omega), if_neg (by omega), if_neg (by simp)] at hlast
      rw [if_pos hend, if_pos hend]
      exact hlast
    · rw [if_neg hend, if_neg hend]
      by_cases hls : ls = []
      · subst hls
        rfl
      · rw [size_cons hls] at h
        exact ih _ _ _ (by omega)

/-- An identifier stands before the end of the lines. -/
theorem lt_of_mem_identifierAt {ls : Lines} {offset : Nat} {name : String}
    (h : name ∈ identifierAt ls offset) : offset < size ls := by
  induction ls generalizing offset with
  | nil => cases h
  | cons l ls ih =>
    rw [identifierAt] at h
    by_cases hin : offset < l.size
    · cases ls with
      | nil => exact hin
      | cons m ls =>
        rw [size]
        · omega
        · exact List.cons_ne_nil m ls
    rw [if_neg hin] at h
    by_cases hend : offset = l.size
    · rw [if_pos hend] at h
      cases h
    · rw [if_neg hend] at h
      have hls : ls ≠ [] := by
        rintro rfl
        cases h
      have := ih h
      rw [size_cons hls]
      omega

end Lines

namespace Lexer
variable (x : Lexer) (files : FileTree) {d : Document}

/-- A lexer finds out the answers to the inquiries of a document. -/
theorem fst_restyleAll (h : d.readLimit = none) :
    (x.restyleAll files d).1 = x.learn (x.knowledge.askAll (x.surroundings files)
      (d.lines.inquiries x.words 0 .default)) := by
  rw [restyleAll_eq x files h]
  exact congrArg x.learn (knowledge_styled _ _ _ _ _)

/-- What styling puts at an offset. -/
theorem styleAt_restyleAll_eq (h : d.readLimit = none) (offset : Nat) :
    (x.restyleAll files d).2.styleAt offset =
      if offset < d.size then
        Lines.styleOf id (x.surroundings files) 0 .default x.knowledge d.lines offset
      else d.styleAt offset := by
  rw [Document.styleAt, lines_restyleAll x files h]
  split
  · next hlt => exact Lines.styleAt_styled (fun _ => Nat.le_refl _) _ _ _ _ _ hlt
  · next hle => exact Lines.styleAt_styled_of_le _ _ _ _ (Nat.le_of_not_lt hle)

/-- Styling a document once more finds out nothing. -/
theorem fst_restyleTwice (h : d.readLimit = none) :
    (x.restyleTwice files d).1 = (x.restyleAll files d).1 := by
  have hread := (x.readLimit_restyleAll files d).trans h
  have hasked : Lines.inquiries x.words 0 .default (x.restyleAll files d).2.lines =
      Lines.inquiries x.words 0 .default d.lines :=
    Lines.inquiries_congr (x.map_text_restyleAll files d)
  rw [restyleTwice, fst_restyleAll _ files hread, fst_restyleAll x files h]
  refine congrArg x.learn ?_
  change Knowledge.askAll (x.surroundings files) (x.knowledge.askAll (x.surroundings files) _)
    (Lines.inquiries x.words 0 .default (x.restyleAll files d).2.lines) = _
  rw [hasked]
  exact Knowledge.askAll_of_settles (Knowledge.settles_askAll _ _)

/-- Styles that nothing is found out by stay the same. -/
theorem styleAt_restyleTwice_settled (h : d.readLimit = none) (hx : (x.restyleAll files d).1 = x)
    (offset : Nat) :
    (x.restyleTwice files d).2.styleAt offset = (x.restyleAll files d).2.styleAt offset := by
  have hread := (x.readLimit_restyleAll files d).trans h
  rw [restyleTwice, hx, styleAt_restyleAll_eq x files hread, size_restyleAll]
  by_cases hoff : offset < d.size
  · rw [if_pos hoff, styleAt_restyleAll_eq x files h, if_pos hoff]
    exact Lines.styleOf_congr _ _ _ _ _ (x.map_text_restyleAll files d) offset
  · rw [if_neg hoff]

/-- A new lexer styles a document in the same way twice, if every property stands behind a
declaration of its name. -/
theorem styleAt_restyleTwice_early (settings : Settings) (h : d.readLimit = none)
    (hearly : ∀ offset, ∀ name ∈ d.lines.identifierAt offset,
      ((ofSettings settings).restyleTwice files d).2.styleAt offset = .property →
      ∃ p ∈ d.declarations settings.wordLists, p.1 = name ∧ p.2 ≤ offset) (offset : Nat) :
    ((ofSettings settings).restyleTwice files d).2.styleAt offset =
      ((ofSettings settings).restyleAll files d).2.styleAt offset := by
  set x := ofSettings settings
  have hread := (x.readLimit_restyleAll files d).trans h
  have hknown : ∀ {name : String}, (x.restyleAll files d).1.properties.isProperty name = true ↔
      x.properties.isProperty name = true ∨
        name ∈ (Lines.declared x.words 0 .default d.lines).map (·.1) :=
    isProperty_restyleAll x files h
  have hfresh : x.knowledge.Truthful (x.surroundings files) := fun _ _ =>
    ClassResolver.truthful_of_caches rfl
  have hlearned : (x.restyleAll files d).1.knowledge.Truthful (x.surroundings files) :=
    (agree_restyleRun ⟨rfl, hfresh, hfresh⟩ 0 d .default (d.lineSpan 0 (d.lineCount - 1))).2.1.left
  by_cases hoff : offset < d.size
  · rw [styleAt_restyleTwice_eq x files h hoff, styleAt_restyleAll_eq x files h, if_pos hoff]
    have hahead : Knowledge.Ahead (x.surroundings files)
        (x.restyleAll files d).1.properties.isProperty x.knowledge
        (x.restyleAll files d).1.knowledge :=
      ⟨hfresh, hlearned, fun name hname => hknown.2 (Or.inl hname), rfl⟩
    refine (Lines.styleOf_early hahead (fun name hname => hknown.2 (Or.inr hname))
      (fun i name hi hproperty => Or.inr ?_) offset).symm
    refine hearly i name hi ?_
    rw [styleAt_restyleTwice_eq x files h (Lines.lt_of_mem_identifierAt hi)]
    exact hproperty
  · rw [restyleTwice, styleAt_restyleAll_eq _ files hread, size_restyleAll, if_neg hoff]

/-- Styling a document a second time finds out nothing, and a third time changes no style. If the
lexer was new, and every property stands behind a declaration of its name, then the second time
changes no style either. -/
theorem restyleAll_settles (x : Lexer) (files : FileTree) {d : Document} (h : d.readLimit = none) :
    let r₁ := x.restyleAll files d
    let r₂ := r₁.1.restyleAll files r₁.2
    let r₃ := r₂.1.restyleAll files r₂.2
    r₂.1 = r₁.1 ∧ (∀ offset, r₃.2.styleAt offset = r₂.2.styleAt offset) ∧
      ∀ settings, x = ofSettings settings →
        (∀ offset, ∀ name ∈ d.lines.identifierAt offset, r₂.2.styleAt offset = .property →
          ∃ p ∈ d.declarations x.words, p.1 = name ∧ p.2 ≤ offset) →
        ∀ offset, r₂.2.styleAt offset = r₁.2.styleAt offset := by
  have hread := (x.readLimit_restyleAll files d).trans h
  have hsettled := fst_restyleTwice x files h
  refine ⟨hsettled, fun offset => ?_, ?_⟩
  · exact styleAt_restyleTwice_settled _ files hread hsettled offset
  · rintro settings rfl
    exact styleAt_restyleTwice_early files settings h

/-- A name that is used behind its declaration has its style from the first time on. -/
theorem restyleAll_settles_declared :
    let d := Document.ofText "declared" "x\nproperty a\na".toList
    let r₁ := (ofSettings propertyOnly).restyleAll {} d
    let r₂ := r₁.1.restyleAll {} r₁.2
    r₂.1 = r₁.1 ∧ r₁.1.properties.isProperty "a" = true ∧
      ∀ offset, r₂.2.styleAt offset = r₁.2.styleAt offset := by
  intro d r₁ r₂
  have hall := restyleAll_settles (ofSettings propertyOnly) {} (d := d) rfl
  refine ⟨hall.1, by decide +kernel, hall.2.2 propertyOnly rfl fun offset name hname => ?_⟩
  have hsmall : ∀ offset < d.size, ∀ name ∈ d.lines.identifierAt offset,
      r₂.2.styleAt offset = .property →
      ∃ p ∈ d.declarations (ofSettings propertyOnly).words, p.1 = name ∧ p.2 ≤ offset := by
    decide +kernel
  exact hsmall offset (Lines.lt_of_mem_identifierAt hname) name hname

end Lexer

end Papyrus

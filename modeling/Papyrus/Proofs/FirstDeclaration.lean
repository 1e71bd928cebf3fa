import Papyrus.Proofs.DocumentToken
import Papyrus.Proofs.Settling
import Papyrus.Proofs.WrittenLines
/-!
# First declarations

A declaration is the keyword `property` with an identifier directly behind it. A lexer that knows no
property yet and styles a whole document registers what is declared there: each name once, with the
line of its first declaration. A name that no word list has is styled as a property exactly if it
stands behind a declaration, or in one.

Results:
* `mem_registerAll_empty`: of registrations in the order of the lines the first of each name counts.
* `mem_declarationTokens`: the declarations of a line can be read off its styles.
* `restyleAll_registers_first`: the records and the uses of properties in a styled document.
-/
namespace Papyrus

/-! ## Registrations in the order of the lines -/

namespace PropertyRegistry

variable {p : PropertyRegistry} {name : String}

/-- A name that has a record is not registered again, unless the record is marked. -/
theorem register_of_isProperty (h : p.isProperty name = true)
    (hmarked : ∀ r ∈ p.records, r.needsRecheck = false) (line : Nat) :
    p.register name line = p :=
  Settles.register_eq ⟨h, fun r hr _ _ => hmarked r hr⟩

/-- The line of the first declaration of a name. -/
def IsFirst (declared : List (String × Nat)) (name : String) (line : Nat) : Prop :=
  (name, line) ∈ declared ∧ ∀ i < line, (name, i) ∉ declared

/-- One more declaration, on the last line so far or behind it, is the first one of a name that has
none before. -/
theorem isFirst_concat {declared : List (String × Nat)} {d : String × Nat}
    (h : ∀ a ∈ declared, a.2 ≤ d.2) {line : Nat} :
    IsFirst (declared ++ [d]) name line ↔
      IsFirst declared name line ∨ (name, line) = d ∧ ∀ i, (name, i) ∉ declared := by
  constructor
  · rintro ⟨hmem, hfirst⟩
    have hbefore : ∀ i < line, (name, i) ∉ declared := fun i hi hmem =>
      hfirst i hi (List.mem_append_left _ hmem)
    rcases List.mem_append.1 hmem with hmem | hmem
    · exact Or.inl ⟨hmem, hbefore⟩
    obtain rfl := List.mem_singleton.1 hmem
    by_cases hnone : ∀ i, (name, i) ∉ declared
    · exact Or.inr ⟨rfl, hnone⟩
    · obtain ⟨i, hi⟩ := not_forall_not.1 hnone
      have heq : i = line :=
        Nat.le_antisymm (h _ hi) (Nat.le_of_not_lt fun hlt => hbefore i hlt hi)
      exact Or.inl ⟨heq ▸ hi, hbefore⟩
  · rintro (⟨hmem, hfirst⟩ | ⟨rfl, hnone⟩)
    · refine ⟨List.mem_append_left _ hmem, fun i hi hmem' => ?_⟩
      rcases List.mem_append.1 hmem' with hmem' | hmem'
      · exact hfirst i hi hmem'
      · obtain rfl := List.mem_singleton.1 hmem'
        exact Nat.not_le.2 hi (h _ hmem)
    · refine ⟨List.mem_append_right _ (List.mem_singleton_self _), fun i hi hmem' => ?_⟩
      rcases List.mem_append.1 hmem' with hmem' | hmem'
      · exact hnone i hmem'
      · exact Nat.ne_of_lt hi (congrArg Prod.snd (List.mem_singleton.1 hmem'))

/-- Where nothing is known yet and names are registered in the order of the lines, the first
declaration of each name counts. -/
theorem mem_registerAll_empty {declared : List (String × Nat)}
    (h : declared.Pairwise fun a b => a.2 ≤ b.2) {r : PropertyRecord} :
    r ∈ (registerAll {} declared).records ↔
      r.needsRecheck = false ∧ IsFirst declared r.name r.line := by
  induction declared using List.reverseRecOn generalizing r with
  | nil => simp [registerAll, IsFirst]
  | append_singleton declared d ih =>
    obtain ⟨hbefore, -, hlast⟩ := List.pairwise_append.1 h
    have hle : ∀ a ∈ declared, a.2 ≤ d.2 := fun a ha => hlast a ha d (List.mem_singleton_self d)
    have ih := @ih hbefore
    have hstep : registerAll {} (declared ++ [d]) = (registerAll {} declared).register d.1 d.2 :=
      registerAll_append _ _ _
    have hknown : (registerAll {} declared).isProperty d.1 = true ↔ ∃ i, (d.1, i) ∈ declared := by
      rw [isProperty_registerAll]
      simp [PropertyTable.isProperty]
    rw [hstep, isFirst_concat hle]
    by_cases hd : (registerAll {} declared).isProperty d.1 = true
    · rw [register_of_isProperty hd fun r hr => (ih.1 hr).1, ih]
      refine and_congr_right fun _ => (or_iff_left ?_).symm
      rintro ⟨rfl, hnone⟩
      obtain ⟨i, hi⟩ := hknown.1 hd
      exact hnone i hi
    · have hnone : ∀ i, (d.1, i) ∉ declared := fun i hi => hd (hknown.2 ⟨i, hi⟩)
      rw [records_register, if_neg hd, List.mem_append, ih, List.mem_singleton, and_or_left]
      refine or_congr_right ⟨?_, ?_⟩
      · rintro rfl
        exact ⟨rfl, rfl, hnone⟩
      · rintro ⟨hmarked, rfl, -⟩
        rw [← hmarked]

end PropertyRegistry

/-! ## Declarations among the tokens of a line -/

/-- Among tokens in text of the given style, the keyword `property` and the identifier directly
behind it. -/
structure Token.Declares (style : Nat → Style) (tokens : List Token) (t next : Token) : Prop where
  adjacent : [t, next] <:+: tokens
  kind : t.kind = .identifier
  content : t.content = "property"
  keyword : style t.start = .keyword
  kind_next : next.kind = .identifier

/-- A declaration among some tokens is one of the first two or one among those behind the first. -/
theorem Token.declares_cons {style style' : Nat → Style} {t : Token} {rest : List Token}
    (h : ∀ u ∈ rest, style u.start = style' u.start) {u next : Token} :
    Declares style (t :: rest) u next ↔
      (u = t ∧ next ∈ rest.head? ∧ t.kind = .identifier ∧ t.content = "property" ∧
        style t.start = .keyword ∧ next.kind = .identifier) ∨ Declares style' rest u next := by
  constructor
  · rintro ⟨hadjacent, hkind, hcontent, hkeyword, hnext⟩
    rcases List.infix_cons_iff.1 hadjacent with hfirst | hrest
    · obtain ⟨rfl, hhead⟩ := List.cons_prefix_cons.1 hfirst
      obtain ⟨post, rfl⟩ := hhead
      exact Or.inl ⟨rfl, rfl, hkind, hcontent, hkeyword, hnext⟩
    · have hu := hrest.subset List.mem_cons_self
      exact Or.inr ⟨hrest, hkind, hcontent, h u hu ▸ hkeyword, hnext⟩
  · rintro (⟨rfl, hhead, hkind, hcontent, hkeyword, hnext⟩ | hrest)
    · obtain ⟨post, rfl⟩ := List.head?_eq_some_iff.1 hhead
      exact ⟨⟨[], post, rfl⟩, hkind, hcontent, hkeyword, hnext⟩
    · have hu := hrest.adjacent.subset List.mem_cons_self
      exact ⟨hrest.adjacent.trans (List.suffix_cons t rest).isInfix, hrest.kind, hrest.content,
        (h u hu).trans hrest.keyword, hrest.kind_next⟩

theorem Token.Declares.congr {style style' : Nat → Style} {tokens : List Token} {t next : Token}
    (h : Declares style tokens t next) (hstyle : ∀ u ∈ tokens, style u.start = style' u.start) :
    Declares style' tokens t next :=
  { h with keyword := hstyle t (h.adjacent.subset List.mem_cons_self) ▸ h.keyword }

theorem wordStyle?_eq_keyword {words : WordLists} {word : String} {next : Option Token} :
    wordStyle? words word next = some .keyword ↔
      (words.get .keywords).contains word = true ∧ (words.get .flowControl).contains word = false ∧
        (words.get .types).contains word = false ∧ isCallee word next = false := by
  unfold wordStyle?
  cases isCallee word next <;> cases (words.get .flowControl).contains word <;>
    cases (words.get .types).contains word <;> cases (words.get .keywords).contains word <;>
    grind

/-- None of the lists by which identifiers are styled has the word. -/
def WordLists.Unlisted (words : WordLists) (word : String) : Prop :=
  ∀ role ∈ [WordRole.types, .flowControl, .keywords, .keywordsAlt, .operators],
    (words.get role).contains word = false

instance (words : WordLists) (word : String) : Decidable (words.Unlisted word) :=
  inferInstanceAs (Decidable (∀ role ∈ [WordRole.types, .flowControl, .keywords, .keywordsAlt,
    .operators], (words.get role).contains word = false))

/-- An identifier that no word list has is looked up, unless it is the name in a call. -/
theorem wordStyle?_of_unlisted {words : WordLists} {word : String} {next : Option Token}
    (h : words.Unlisted word) :
    wordStyle? words word next = if isCallee word next = true then some .function else none := by
  simp only [WordLists.Unlisted, List.forall_mem_cons] at h
  obtain ⟨htypes, hflow, hkeywords, halt, hoperators, -⟩ := h
  rw [wordStyle?, htypes, hflow, hkeywords, halt, hoperators]
  simp

section
variable {env : Surroundings} {line : Nat} {k : Knowledge}

/-- What is looked up is a property, or else a class or plain text. -/
theorem style_lookUp_cases (word : String) :
    k.properties.isProperty word = true ∧ (env.lookUp word k).1 = .property ∨
      k.properties.isProperty word = false ∧
        ((env.lookUp word k).1 = .scriptClass ∨ (env.lookUp word k).1 = .default) := by
  unfold Surroundings.lookUp
  cases k.properties.isProperty word with
  | true => exact Or.inl ⟨rfl, rfl⟩
  | false =>
    refine Or.inr ⟨rfl, ?_⟩
    cases env.profile with
    | none => exact Or.inr rfl
    | some profile =>
      dsimp only
      rw [if_neg Bool.false_ne_true]
      cases (k.classes.isClass env.files word profile).1 with
      | true => exact Or.inl rfl
      | false => exact Or.inr rfl

/-- A token declares the identifier behind it if it is the word `property` and styled as a
keyword. -/
theorem declaredToken?_eq_some {mode : Mode} {behind : List Token} {t : Token}
    {next : Option Token} {name : String} :
    declaredToken? env.words mode t next = some name ↔
      t.kind = .identifier ∧ t.content = "property" ∧
        (styleToken env line mode behind t next k).1 = .keyword ∧
        ∃ n ∈ next, n.kind = .identifier ∧ n.content = name := by
  cases mode with
  | code =>
    unfold declaredToken? styleToken styleCode
    cases hkind : t.kind with
    | identifier =>
      dsimp only
      have hkeyword : (styleIdentifier env line t.content next k).1 = .keyword ↔
          wordStyle? env.words t.content next = some .keyword := by
        rw [styleIdentifier_eq]
        cases wordStyle? env.words t.content next with
        | some s => exact Option.some_inj.symm
        | none =>
          refine ⟨fun hkeyword => ?_, nofun⟩
          rcases @style_lookUp_cases env k t.content with ⟨-, hs⟩ | ⟨-, hs | hs⟩
          all_goals exact absurd (hs.symm.trans hkeyword) (by decide)
      rw [hkeyword, wordStyle?_eq_keyword, declaredName?, Option.ite_none_right_eq_some,
        Option.bind_eq_some_iff]
      simp only [Bool.and_eq_true, beq_iff_eq, Bool.not_eq_true', Option.ite_none_right_eq_some,
        Option.some.injEq, Option.mem_def, and_assoc, true_and]
    | numeric => simp
    | special => simp
  | _ => simp [declaredToken?, styleToken, Mode.style]

open StyledSpan (styleIn)

/-- The declarations of a line can be read off its styles. -/
theorem mem_declarationTokens {mode : Mode} {behind tokens : List Token} {cursor hi : Nat}
    (h : Token.Ordered cursor tokens hi) (tail : List StyledSpan) {p : String × Nat} :
    p ∈ declarationTokens env.words mode behind tokens ↔ ∃ t next,
      Token.Declares (styleIn ((styleTokens env line mode behind cursor k tokens).1 ++ tail))
        tokens t next ∧ next.content = p.1 ∧ t.start = p.2 := by
  induction tokens generalizing mode behind cursor k with
  | nil =>
    simp only [declarationTokens, List.not_mem_nil, false_iff]
    rintro ⟨t, next, hdeclares, -⟩
    exact absurd hdeclares.adjacent (by simp)
  | cons t rest ih =>
    have hhead := @styleIn_styleTokens_head env line mode behind rest t cursor hi k h tail
    have hbehind := fun u (hu : u ∈ rest) =>
      @styleIn_styleTokens_behind env line mode behind rest t cursor k h.2.1 tail u.start
        (h.2.2.mem hu).1
    rw [mem_declarationTokens_cons, ih h.2.2, @declaredToken?_eq_some env line k]
    simp only [Token.declares_cons hbehind, hhead]
    constructor
    · rintro (⟨⟨hkind, hcontent, hkeyword, next, hnext, hident, hname⟩, hstart⟩ |
        ⟨u, next, hdeclares, hp⟩)
      · exact ⟨t, next, Or.inl ⟨rfl, hnext, hkind, hcontent, hkeyword, hident⟩, hname, hstart⟩
      · exact ⟨u, next, Or.inr hdeclares, hp⟩
    · rintro ⟨u, next, ⟨rfl, hnext, hkind, hcontent, hkeyword, hident⟩ | hdeclares, hname, hstart⟩
      · exact Or.inl ⟨⟨hkind, hcontent, hkeyword, next, hnext, hident, hname⟩, hstart⟩
      · exact Or.inr ⟨u, next, hdeclares, hname, hstart⟩

/-- An identifier in code that no word list has, and that is not the name in a call, is a property
if its name is known. -/
theorem styleToken_eq_property {mode : Mode} {behind : List Token} {t : Token}
    {next : Option Token} (hkind : t.kind = .identifier)
    (hwords : env.words.Unlisted t.content)
    (hcode : (styleToken env line mode behind t next k).1.isInert = false)
    (hcall : (styleToken env line mode behind t next k).1 ≠ .function) :
    (styleToken env line mode behind t next k).1 = .property ↔
      k.properties.isProperty t.content = true := by
  cases mode with
  | code =>
    have hstyle : (styleToken env line .code behind t next k).1 =
        if isCallee t.content next = true then .function else (env.lookUp t.content k).1 := by
      unfold styleToken styleCode
      rw [hkind]
      dsimp only
      rw [styleIdentifier_eq, wordStyle?_of_unlisted hwords]
      split <;> simp_all
    rw [hstyle] at hcall ⊢
    have hplain : ¬ isCallee t.content next = true := fun h => hcall (if_pos h)
    rw [if_neg hplain]
    rcases @style_lookUp_cases env k t.content with ⟨hknown, hs⟩ | ⟨hknown, hs | hs⟩
    all_goals rw [hs, hknown]; decide
  | _ => cases hcode

/-- An identifier in code that no word list has, and that is not the name in a call, is a property
if its name is known or has been declared before. -/
theorem styleIn_eq_property {mode : Mode} {behind tokens : List Token} {cursor hi : Nat}
    (h : Token.Ordered cursor tokens hi) (tail : List StyledSpan) {t : Token} (ht : t ∈ tokens)
    (hkind : t.kind = .identifier)
    (hwords : env.words.Unlisted t.content) {s : Style}
    (hs : styleIn ((styleTokens env line mode behind cursor k tokens).1 ++ tail) t.start = s)
    (hcode : s.isInert = false) (hcall : s ≠ .function) :
    s = .property ↔ k.properties.isProperty t.content = true ∨
      ∃ p ∈ declarationTokens env.words mode behind tokens, p.1 = t.content ∧ p.2 < t.start := by
  induction tokens generalizing mode behind cursor k with
  | nil => cases ht
  | cons u rest ih =>
    obtain ⟨-, hpos, hrest⟩ := id h
    rcases List.mem_cons.1 ht with rfl | ht
    · -- no declaration starts before the first token
      have hnone : ¬ ∃ p ∈ declarationTokens env.words mode behind (t :: rest),
          p.1 = t.content ∧ p.2 < t.start := by
        rintro ⟨p, hp, -, hlt⟩
        have hfrom : Token.Ordered t.start (t :: rest) hi := ⟨Nat.le_refl _, hpos, hrest⟩
        exact Nat.not_le.2 hlt (le_of_mem_declarationTokens hfrom hp)
      rw [styleIn_styleTokens_head env line h] at hs
      subst hs
      rw [or_iff_left hnone, styleToken_eq_property hkind hwords hcode hcall]
    · have hbehind := (hrest.mem ht).1
      rw [styleIn_styleTokens_behind env line hpos tail hbehind] at hs
      rw [ih hrest ht hs, isProperty_styleToken, or_assoc]
      refine or_congr_right ?_
      simp only [mem_declarationTokens_cons]
      constructor
      · rintro (hdeclared | ⟨p, hp, hname, hlt⟩)
        · have hlt : u.start < t.start := Nat.lt_of_lt_of_le hpos hbehind
          exact ⟨(t.content, u.start), Or.inl ⟨hdeclared, rfl⟩, rfl, hlt⟩
        · exact ⟨p, Or.inr hp, hname, hlt⟩
      · rintro ⟨p, ⟨hdeclared, -⟩ | hp, hname, hlt⟩
        · exact Or.inl (hname ▸ hdeclared)
        · exact Or.inr ⟨p, hp, hname, hlt⟩

end

/-! ## Declarations in a styled document -/

namespace Document

/-- The tokens of what is read of a line. -/
def lineTokens (d : Document) (line : Nat) : List Token :=
  Token.scan (d.readLine line) (d.lineStart line)

/-- On a line of a styled document, the keyword `property` and the identifier directly behind it. -/
def Declares (d : Document) (line : Nat) : Token → Token → Prop :=
  Token.Declares d.styleAt (d.lineTokens line)

/-- The name is declared on the line. -/
def DeclaresName (d : Document) (line : Nat) (name : String) : Prop :=
  ∃ t next, d.Declares line t next ∧ next.content = name

theorem lineTokens_ordered (d : Document) (line : Nat) :
    Token.Ordered (d.lineStart line) (d.lineTokens line)
      (d.lineStart line + Text.size (d.readLine line)) :=
  Token.scan_ordered _ _

theorem lt_lineCount_of_mem {d : Document} {line : Nat} {t : Token} (h : t ∈ d.lineTokens line) :
    line < d.lineCount := by
  by_contra hle
  rw [lineTokens, readLine, read_of_lineCount_le (Nat.le_of_not_lt hle), Token.scan] at h
  cases h

theorem stop_le_lineEnd {d : Document} {line : Nat} {t : Token} (h : t ∈ d.lineTokens line) :
    t.stop ≤ d.lineEnd line := by
  have hline := List.getElem?_eq_getElem (lt_lineCount_of_mem h)
  have hstop := ((d.lineTokens_ordered line).mem h).2.2
  have hread := size_readLine_le hline
  rw [lineEnd_eq hline]
  omega

/-- Tokens of different lines come in the order of their lines. -/
theorem start_lt_start {d : Document} {i j : Nat} {t u : Token} (h : i < j)
    (ht : t ∈ d.lineTokens i) (hu : u ∈ d.lineTokens j) : t.start < u.start := by
  have hpos := ((d.lineTokens_ordered i).mem ht).2.1
  have hstop := stop_le_lineEnd ht
  have hbetween := Lines.lineEnd_lt_lineStart h (lt_lineCount_of_mem hu)
  have hstart := ((d.lineTokens_ordered j).mem hu).1
  rw [lineEnd] at hstop
  rw [lineStart] at hstart
  omega

section
variable (d : Document) (env : Surroundings) (k : Knowledge)

/-- The names that a line declares in a run over the whole document, each with the offset at which
the declaration starts. -/
def lineDeclarations (line : Nat) : List (String × Nat) :=
  declarationTokens env.words (.ofState (d.entered env 0 .default k line).1) [] (d.lineTokens line)

/-- The names that the first `count` lines declare, each with its line. -/
def declaredBefore (count : Nat) : List (String × Nat) :=
  (List.range count).flatMap fun line => (d.lineDeclarations env k line).map fun p => (p.1, line)

theorem mem_declaredBefore {count : Nat} {name : String} {line : Nat} :
    (name, line) ∈ d.declaredBefore env k count ↔
      line < count ∧ ∃ p ∈ d.lineDeclarations env k line, p.1 = name := by
  simp only [declaredBefore, List.mem_flatMap, List.mem_range, List.mem_map, Prod.mk.injEq]
  constructor
  · rintro ⟨_, hline, p, hp, hname, rfl⟩
    exact ⟨hline, p, hp, hname⟩
  · rintro ⟨hline, p, hp, hname⟩
    exact ⟨line, hline, p, hp, hname, rfl⟩

theorem declaredBefore_pairwise (count : Nat) :
    (d.declaredBefore env k count).Pairwise fun a b => a.2 ≤ b.2 := by
  refine List.pairwise_flatMap.2 ⟨fun line _ => ?_, ?_⟩
  · refine List.pairwise_map.2 (List.pairwise_of_forall fun p q => Nat.le_refl line)
  · refine List.pairwise_lt_range.imp fun hlt => ?_
    intro a ha b hb
    obtain ⟨p, -, rfl⟩ := List.mem_map.1 ha
    obtain ⟨q, -, rfl⟩ := List.mem_map.1 hb
    exact Nat.le_of_lt hlt

/-- When a run enters a line, it has registered what is declared on the lines before. -/
theorem properties_entered (count : Nat) :
    (d.entered env 0 .default k count).2.properties =
      k.properties.registerAll (d.declaredBefore env k count) := by
  induction count with
  | zero => rfl
  | succ count ih =>
    have hline : d.declaredBefore env k (count + 1) = d.declaredBefore env k count ++
        (d.lineDeclarations env k count).map fun p => (p.1, count) := by
      rw [declaredBefore, List.range_succ, List.flatMap_append]
      simp [declaredBefore]
    have hnames : (d.lineDeclarations env k count).map (fun p => (p.1, count)) =
        (declaredTokens env.words (.ofState (d.entered env 0 .default k count).1) []
          (d.lineTokens count)).map (·, count) := by
      rw [← map_fst_declarationTokens, List.map_map]
      rfl
    rw [hline, PropertyRegistry.registerAll_append, ← ih, hnames, ← properties_styleTokens,
      entered, Nat.zero_add]
    rfl

variable {e : Document} (he : e = d.withLines (d.writtenLines env 0 .default k d.lineCount))
include he

theorem lineTokens_written (line : Nat) : e.lineTokens line = d.lineTokens line := by
  have htext := d.map_text_writtenLines env 0 .default k d.lineCount
  rw [lineTokens, lineTokens, he, d.readLine_withLines htext, d.lineStart_withLines htext]

open StyledSpan (styleIn)

/-- What stands at the bytes of a token is what its line gives to them. -/
theorem styleAt_written {line : Nat} {t : Token} (ht : t ∈ d.lineTokens line) {offset : Nat}
    (hlo : t.start ≤ offset) (hhi : offset < t.stop) :
    e.styleAt offset = styleIn (d.lineStyles env 0 .default k line).spans offset := by
  have hline := lt_lineCount_of_mem ht
  have hbounds := (d.lineTokens_ordered line).mem ht
  have hend := stop_le_lineEnd ht
  rw [he, d.styleAt_writtenLines _ _ _ _ _ hline (by omega) (by omega), if_pos (by omega),
    if_pos (by omega)]

/-- The declarations that a run finds on a line are those that its styles show. -/
theorem mem_lineDeclarations {line : Nat} {p : String × Nat} :
    p ∈ d.lineDeclarations env k line ↔
      ∃ t next, e.Declares line t next ∧ next.content = p.1 ∧ t.start = p.2 := by
  have hstyle : ∀ u ∈ d.lineTokens line, e.styleAt u.start =
      styleIn (d.lineStyles env 0 .default k line).spans u.start := fun u hu =>
    d.styleAt_written env k he hu (Nat.le_refl _) ((d.lineTokens_ordered line).mem hu).2.1
  rw [lineDeclarations, mem_declarationTokens (d.lineTokens_ordered line) (gap _ _ _)]
  refine exists_congr fun t => exists_congr fun next => and_congr_left fun _ => ?_
  rw [Declares, d.lineTokens_written env k he]
  exact ⟨fun h => h.congr fun u hu => (hstyle u hu).symm, fun h => h.congr hstyle⟩

theorem mem_declaredBefore_iff {count : Nat} {name : String} {line : Nat} :
    (name, line) ∈ d.declaredBefore env k count ↔ line < count ∧ e.DeclaresName line name := by
  rw [mem_declaredBefore]
  refine and_congr_right fun _ => ?_
  simp only [d.mem_lineDeclarations env k he]
  constructor
  · rintro ⟨_, ⟨t, next, hdeclares, hname, -⟩, rfl⟩
    exact ⟨t, next, hdeclares, hname⟩
  · rintro ⟨t, next, hdeclares, rfl⟩
    exact ⟨(next.content, t.start), ⟨t, next, hdeclares, rfl, rfl⟩, rfl⟩

theorem mem_lineTokens_of_declares {line : Nat} {t next : Token} (h : e.Declares line t next) :
    t ∈ d.lineTokens line := by
  rw [← d.lineTokens_written env k he]
  exact h.adjacent.subset List.mem_cons_self

variable (hk : k.properties = {})
include hk

/-- A run that starts out with no property knows those that are declared on the lines before. -/
theorem isProperty_entered {line : Nat} {name : String} :
    (d.entered env 0 .default k line).2.properties.isProperty name = true ↔
      ∃ i < line, e.DeclaresName i name := by
  have hnone : ¬ PropertyTable.isProperty {} name = true := Bool.false_ne_true
  rw [properties_entered, PropertyRegistry.isProperty_registerAll, hk, or_iff_right hnone,
    List.mem_map]
  constructor
  · rintro ⟨⟨_, i⟩, hmem, rfl⟩
    exact ⟨i, (d.mem_declaredBefore_iff env k he).1 hmem⟩
  · rintro ⟨i, hi⟩
    exact ⟨(name, i), (d.mem_declaredBefore_iff env k he).2 hi, rfl⟩

/-- The records of such a run are the first declarations. -/
theorem mem_records_entered {r : PropertyRecord} :
    r ∈ (d.entered env 0 .default k d.lineCount).2.properties.records ↔ r.needsRecheck = false ∧
      e.DeclaresName r.line r.name ∧ ∀ line < r.line, ¬ e.DeclaresName line r.name := by
  have hmem : ∀ {line}, (r.name, line) ∈ d.declaredBefore env k d.lineCount ↔
      e.DeclaresName line r.name := by
    intro line
    rw [d.mem_declaredBefore_iff env k he, and_iff_right_iff_imp]
    rintro ⟨t, next, hdeclares, -⟩
    exact lt_lineCount_of_mem (d.mem_lineTokens_of_declares env k he hdeclares)
  rw [properties_entered, hk,
    PropertyRegistry.mem_registerAll_empty (d.declaredBefore_pairwise env k d.lineCount),
    PropertyRegistry.IsFirst, hmem]
  simp only [hmem]

/-- A use of a property stands behind a declaration of its name, or in it. -/
theorem styleAt_eq_property {line : Nat} {t : Token} (ht : t ∈ d.lineTokens line)
    (hkind : t.kind = .identifier) (hcode : (e.styleAt t.start).isInert = false)
    (hcall : e.styleAt t.start ≠ .function)
    (hwords : env.words.Unlisted t.content) :
    e.styleAt t.start = .property ↔
      ∃ i u next, e.Declares i u next ∧ next.content = t.content ∧ u.start < t.start := by
  have hstyle := d.styleAt_written env k he ht (Nat.le_refl _)
    ((d.lineTokens_ordered line).mem ht).2.1
  rw [styleIn_eq_property (d.lineTokens_ordered line) (gap _ _ _) ht hkind hwords hstyle.symm hcode
    hcall, d.isProperty_entered env k he hk]
  constructor
  · rintro (⟨i, hi, u, next, hdeclares, hname⟩ | ⟨p, hp, hname, hlt⟩)
    · have hu := d.mem_lineTokens_of_declares env k he hdeclares
      exact ⟨i, u, next, hdeclares, hname, start_lt_start hi hu ht⟩
    · obtain ⟨u, next, hdeclares, hnext, hstart⟩ := (d.mem_lineDeclarations env k he).1 hp
      exact ⟨line, u, next, hdeclares, hnext.trans hname, hstart ▸ hlt⟩
  · rintro ⟨i, u, next, hdeclares, hname, hlt⟩
    rcases Nat.lt_trichotomy i line with hi | rfl | hi
    · exact Or.inl ⟨i, hi, u, next, hdeclares, hname⟩
    · refine Or.inr ⟨(next.content, u.start), ?_, hname, hlt⟩
      exact (d.mem_lineDeclarations env k he).2 ⟨u, next, hdeclares, rfl, rfl⟩
    · have hu := d.mem_lineTokens_of_declares env k he hdeclares
      exact absurd (start_lt_start hi ht hu) (Nat.not_lt.2 (Nat.le_of_lt hlt))

end

end Document

namespace Lexer

theorem restyleAll_eq_written (x : Lexer) (files : FileTree) (d : Document) :
    x.restyleAll files d =
      (x.learn (d.entered (x.surroundings files) 0 .default x.knowledge d.lineCount).2,
        d.withLines (d.writtenLines (x.surroundings files) 0 .default x.knowledge
          d.lineCount)) := by
  have hspan : d.lineSpan 0 (d.lineCount - 1) = d.lineCount := by
    have := d.lineCount_pos
    rw [Document.lineSpan]
    omega
  rw [restyleAll, restyle_eq, hspan, Document.restyleRun_eq]

/-- A lexer that knows no property and styles a whole document registers each name that is declared
there once, unmarked and with the line of its first declaration. An identifier in code that no word
list has, and that is not the name in a call, is styled as a property exactly if a declaration of its
name starts before it. -/
theorem restyleAll_registers_first (x : Lexer) (files : FileTree) (d : Document)
    (hx : x.properties = {}) :
    let r := x.restyleAll files d
    (r.1.properties.records.map (·.name)).Nodup ∧
      (∀ record, record ∈ r.1.properties.records ↔ record.needsRecheck = false ∧
        r.2.DeclaresName record.line record.name ∧
        ∀ line < record.line, ¬ r.2.DeclaresName line record.name) ∧
      ∀ line, ∀ t ∈ r.2.lineTokens line, t.kind = .identifier →
        (r.2.styleAt t.start).isInert = false → r.2.styleAt t.start ≠ .function →
        x.words.Unlisted t.content →
        ∀ offset, t.start ≤ offset → offset < t.stop →
          (r.2.styleAt offset = .property ↔ ∃ i u next,
            r.2.Declares i u next ∧ next.content = t.content ∧ u.start < t.start) := by
  dsimp only
  rw [restyleAll_eq_written]
  generalize henv : x.surroundings files = env
  generalize hk : x.knowledge = k
  generalize he : d.withLines (d.writtenLines env 0 .default k d.lineCount) = e
  have hk : k.properties = {} := by
    rw [← hk]
    exact hx
  have hwords : x.words = env.words := by
    rw [← henv]
    rfl
  dsimp only [learn]
  refine ⟨?_, fun record => d.mem_records_entered env k he.symm hk, ?_⟩
  · exact (d.entered env 0 .default k d.lineCount).2.properties.agrees.nodup
  · intro line t ht hkind hcode hcall hlisted offset hlo hhi
    rw [d.lineTokens_written env k he.symm] at ht
    have hpos := ((d.lineTokens_ordered line).mem ht).2.1
    have hsame : e.styleAt offset = e.styleAt t.start := by
      rw [d.styleAt_written env k he.symm ht hlo hhi,
        d.styleAt_written env k he.symm ht (Nat.le_refl _) hpos]
      exact styleIn_token (d.lineTokens_ordered line) ht _ hlo hhi
    rw [hsame]
    exact d.styleAt_eq_property env k he.symm hk ht hkind hcode hcall (hwords ▸ hlisted)

/-- The declaration on the second line is the first of its name, and the third line uses it. -/
theorem restyleAll_registers_first_use :
    let d := Document.ofText "declared" "x\nproperty a\na".toList
    let r := (ofSettings propertyOnly).restyleAll {} d
    (ofSettings propertyOnly).properties = {} ∧ ⟨"a", 1, false⟩ ∈ r.1.properties.records ∧
      r.2.styleAt 13 = .property := by
  intro d r
  obtain ⟨-, hrecords, huses⟩ := restyleAll_registers_first (ofSettings propertyOnly) {} d rfl
  have hfirst : r.2.lineTokens 0 = [⟨"x", .identifier, 0, 1⟩] := by decide +kernel
  have hsecond : r.2.lineTokens 1 =
      [⟨"property", .identifier, 2, 10⟩, ⟨"a", .identifier, 11, 12⟩] := by decide +kernel
  have hthird : r.2.lineTokens 2 = [⟨"a", .identifier, 13, 14⟩] := by decide +kernel
  have hdeclares : r.2.Declares 1 ⟨"property", .identifier, 2, 10⟩ ⟨"a", .identifier, 11, 12⟩ :=
    ⟨hsecond ▸ List.infix_refl _, rfl, rfl, by decide +kernel, rfl⟩
  refine ⟨rfl, (hrecords _).2 ⟨rfl, ⟨_, _, hdeclares, rfl⟩, ?_⟩, ?_⟩
  · rintro line hline ⟨t, next, hdeclares, -⟩
    obtain rfl : line = 0 := Nat.lt_one_iff.1 hline
    have hlength := hdeclares.adjacent.length_le
    rw [hfirst] at hlength
    exact Nat.not_succ_le_self 1 hlength
  · exact (huses 2 ⟨"a", .identifier, 13, 14⟩ (hthird ▸ List.mem_singleton_self _) rfl
      (by decide +kernel) (by decide +kernel) (by decide +kernel) 13 (Nat.le_refl _)
      (by decide)).2 ⟨1, _, _, hdeclares, rfl, by decide⟩

end Lexer

end Papyrus

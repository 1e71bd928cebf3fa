import Papyrus.Proofs.Outline
/-!
# Declared names

Which names a line declares as properties depends on its text, its incoming state and the word
lists, not on what has been declared before. A run over lines therefore changes the registry in one
way: it registers the names that the lines declare, in order (`Lines.declared`).

Results:
* `properties_styled`: the registry after a run over lines.
* `isProperty_registerAll`: what is a property after registrations.
* `spells_of_mem_declared`: a declared name stands behind the word `property` on its line.
-/
namespace Papyrus

namespace PropertyRegistry

/-- Registers names, each with a line. -/
def registerAll (p : PropertyRegistry) (declared : List (String × Nat)) : PropertyRegistry :=
  declared.foldl (fun p d => p.register d.1 d.2) p

theorem registerAll_append (p : PropertyRegistry) (declared declared' : List (String × Nat)) :
    p.registerAll (declared ++ declared') = (p.registerAll declared).registerAll declared' :=
  List.foldl_append

theorem isProperty_registerAll {p : PropertyRegistry} {declared : List (String × Nat)}
    {name : String} :
    (p.registerAll declared).isProperty name = true ↔
      p.isProperty name = true ∨ name ∈ declared.map (·.1) := by
  induction declared generalizing p with
  | nil => simp [registerAll]
  | cons d declared ih =>
    rw [registerAll, List.foldl_cons, ← registerAll, ih, isProperty_register, List.map_cons,
      List.mem_cons]
    constructor
    · rintro ((h | h) | h)
      · exact Or.inr (Or.inl h)
      · exact Or.inl h
      · exact Or.inr (Or.inr h)
    · rintro (h | h | h)
      · exact Or.inl (Or.inr h)
      · exact Or.inl (Or.inl h)
      · exact Or.inr h

/-- A registration leaves records as they are or gives them the line of the declaration. -/
theorem mem_register {p : PropertyRegistry} {name : String} {line : Nat} {r : PropertyRecord}
    (h : r ∈ (p.register name line).records) : r ∈ p.records ∨ r = ⟨name, line, false⟩ := by
  rw [records_register] at h
  split at h
  · obtain ⟨q, hq, rfl⟩ := List.mem_map.1 h
    unfold PropertyRecord.redeclare
    grind
  · rcases List.mem_append.1 h with h | h
    · exact Or.inl h
    · exact Or.inr (List.mem_singleton.1 h)

theorem mem_registerAll {p : PropertyRegistry} {declared : List (String × Nat)}
    {r : PropertyRecord} (h : r ∈ (p.registerAll declared).records) :
    r ∈ p.records ∨ (r.name, r.line) ∈ declared := by
  induction declared generalizing p with
  | nil => exact Or.inl h
  | cons d declared ih =>
    rcases ih h with h | h
    · rcases mem_register h with h | rfl
      · exact Or.inl h
      · exact Or.inr List.mem_cons_self
    · exact Or.inr (List.mem_cons_of_mem _ h)

/-- The names that a line declares add nothing to those that are known, if they are among them. -/
theorem isProperty_registerAll_of_known {p : PropertyRegistry} {known : String → Bool}
    (hp : p.isProperty = known) {names : List String} (line : Nat)
    (h : ∀ name ∈ names, known name = true) :
    (p.registerAll (names.map (·, line))).isProperty = known := by
  subst hp
  funext name
  rw [Bool.eq_iff_iff, isProperty_registerAll, List.map_map]
  refine ⟨fun hor => hor.elim id fun hmem => h name ?_, Or.inl⟩
  simpa using hmem

end PropertyRegistry

/-! ## What an identifier can be -/

/-- The name that an identifier in code declares: the identifier behind the keyword `property`. -/
def declaredName? (words : WordLists) (word : String) (next : Option Token) : Option String :=
  if word == "property" && (words.get .keywords).contains word &&
      !(words.get .flowControl).contains word && !(words.get .types).contains word &&
      !isCallee word next then
    next.bind fun n => if n.kind = .identifier then some n.content else none
  else none

/-- The style of an identifier in code that is in a word list or is the name in a call. -/
def wordStyle? (words : WordLists) (word : String) (next : Option Token) : Option Style :=
  if !(words.get .flowControl).contains word && isCallee word next then some .function
  else if (words.get .types).contains word then some .type
  else if (words.get .flowControl).contains word then some .flowControl
  else if (words.get .keywords).contains word then some .keyword
  else if (words.get .keywordsAlt).contains word then some .keywordAlt
  else if (words.get .operators).contains word then some .operator
  else none

/-- The style of any other identifier in code. -/
def Surroundings.lookUp (env : Surroundings) (word : String) (k : Knowledge) : Style × Knowledge :=
  if k.properties.isProperty word then (.property, k)
  else
    match env.profile with
    | none => (.default, k)
    | some profile =>
      let (isClass, classes) := k.classes.isClass env.files word profile
      (if isClass then .scriptClass else .default, { k with classes := classes })

/-- What is known after names have been declared on a line. -/
def Knowledge.declare (k : Knowledge) (line : Nat) (names : List String) : Knowledge :=
  { k with properties := k.properties.registerAll (names.map (·, line)) }

theorem Knowledge.declare_nil (k : Knowledge) (line : Nat) : k.declare line [] = k := rfl

/-- An identifier has the style of its word list and may declare a name, or it is looked up among
the properties and classes. -/
theorem styleIdentifier_eq (env : Surroundings) (line : Nat) (word : String) (next : Option Token)
    (k : Knowledge) :
    styleIdentifier env line word next k =
      match wordStyle? env.words word next with
      | some s => (s, k.declare line (declaredName? env.words word next).toList)
      | none => env.lookUp word k := by
  unfold styleIdentifier wordStyle? declaredName?
  dsimp only
  by_cases hcall : (!(env.words.get .flowControl).contains word && isCallee word next) = true
  · have hcallee : isCallee word next = true := (Bool.and_eq_true_iff.1 hcall).2
    rw [if_pos hcall, if_pos hcall, hcallee]
    simp [Knowledge.declare_nil]
  rw [if_neg hcall, if_neg hcall]
  by_cases htype : (env.words.get .types).contains word = true
  · rw [if_pos htype, if_pos htype]
    simp [htype, Knowledge.declare_nil]
  rw [if_neg htype, if_neg htype]
  by_cases hflow : (env.words.get .flowControl).contains word = true
  · rw [if_pos hflow, if_pos hflow]
    simp [hflow, Knowledge.declare_nil]
  rw [if_neg hflow, if_neg hflow]
  have hcallee : isCallee word next = false := by
    simpa [hflow] using hcall
  by_cases hkeyword : (env.words.get .keywords).contains word = true
  · rw [if_pos hkeyword, if_pos hkeyword]
    simp only [hkeyword, hflow, htype, hcallee, Bool.not_false, Bool.and_true]
    rcases next with _ | ⟨name, kind, start, stop⟩
    · simp [Knowledge.declare_nil]
    · cases kind with
      | identifier =>
        by_cases hword : (word == "property") = true
        · simp [hword, Knowledge.declare, PropertyRegistry.registerAll]
        · simp [hword, Knowledge.declare_nil]
      | numeric => simp [Knowledge.declare_nil]
      | special => simp [Knowledge.declare_nil]
  rw [if_neg hkeyword, if_neg hkeyword]
  by_cases halt : (env.words.get .keywordsAlt).contains word = true
  · rw [if_pos halt, if_pos halt]
    simp [hkeyword, Knowledge.declare_nil]
  rw [if_neg halt, if_neg halt]
  by_cases hoperator : (env.words.get .operators).contains word = true
  · rw [if_pos hoperator, if_pos hoperator]
    simp [hkeyword, Knowledge.declare_nil]
  rw [if_neg hoperator, if_neg hoperator]
  rfl

theorem wordStyle?_ne {words : WordLists} {word : String} {next : Option Token} {s : Style}
    (h : wordStyle? words word next = some s) : s ≠ .default ∧ s ≠ .property := by
  unfold wordStyle? at h
  repeat' split at h
  all_goals cases h <;> decide

/-- An identifier that is looked up declares nothing. -/
theorem declaredName?_of_wordStyle? {words : WordLists} {word : String} {next : Option Token}
    (h : wordStyle? words word next = none) : declaredName? words word next = none := by
  have hkeyword : (words.get .keywords).contains word = false := by
    rw [Bool.eq_false_iff]
    intro hkeyword
    unfold wordStyle? at h
    rw [if_pos hkeyword] at h
    repeat' split at h
    all_goals cases h
  unfold declaredName?
  rw [hkeyword, Bool.and_false]
  rfl

/-! ## Tokens that declare a name -/

/-- The name that a token declares. -/
def declaredToken? (words : WordLists) (mode : Mode) (t : Token) (next : Option Token) :
    Option String :=
  match mode, t.kind with
  | .code, .identifier => declaredName? words t.content next
  | _, _ => none

/-- The names that the tokens of a line declare. -/
def declaredTokens (words : WordLists) (mode : Mode) (behind : List Token) :
    List Token → List String
  | [] => []
  | t :: rest =>
    (declaredToken? words mode t rest.head?).toList ++
      declaredTokens words (mode.after behind t rest.head?) (t :: behind) rest

/-- The names that a line declares. -/
def declaredLine (words : WordLists) (incoming : LineState) (text : Text) : List String :=
  declaredTokens words (.ofState incoming) [] (Token.scan text 0)

/-- The names that lines declare, each with the index of its line; the first line has index
`line`. -/
def Lines.declared (words : WordLists) (line : Nat) (incoming : LineState) :
    Lines → List (String × Nat)
  | [] => []
  | l :: ls =>
    (declaredLine words incoming l.text).map (·, line) ++
      declared words (line + 1) (outline incoming l.text).endState ls

/-! ## Styling registers what is declared -/

section
variable (env : Surroundings) (line : Nat)

theorem properties_lookUp (word : String) (k : Knowledge) :
    (env.lookUp word k).2.properties = k.properties := by
  unfold Surroundings.lookUp
  by_cases hproperty : k.properties.isProperty word = true
  · rw [if_pos hproperty]
  · rw [if_neg hproperty]
    cases env.profile <;> rfl

theorem properties_styleToken (mode : Mode) (behind : List Token) (t : Token)
    (next : Option Token) (k : Knowledge) :
    (styleToken env line mode behind t next k).2.2.properties =
      k.properties.registerAll
        ((declaredToken? env.words mode t next).toList.map (·, line)) := by
  cases mode with
  | code =>
    unfold styleToken styleCode declaredToken?
    cases t.kind with
    | identifier =>
      dsimp only
      rw [styleIdentifier_eq]
      cases hword : wordStyle? env.words t.content next with
      | some s => rfl
      | none =>
        rw [declaredName?_of_wordStyle? hword]
        exact properties_lookUp env t.content k
    | numeric => rfl
    | special =>
      dsimp only
      repeat' split
      all_goals rfl
  | _ => rfl

theorem properties_styleTokens (mode : Mode) (behind : List Token) (cursor : Nat) (k : Knowledge)
    (tokens : List Token) :
    (styleTokens env line mode behind cursor k tokens).2.2.2.properties =
      k.properties.registerAll ((declaredTokens env.words mode behind tokens).map (·, line)) := by
  induction tokens generalizing mode behind cursor k with
  | nil => rfl
  | cons t rest ih =>
    rw [styleTokens, declaredTokens, List.map_append, PropertyRegistry.registerAll_append,
      ← properties_styleToken env line mode behind, ← mode_styleToken env line mode behind t _ k]
    exact ih _ _ _ _

theorem properties_styleLine (text : Text) (incoming : LineState) (k : Knowledge) :
    (styleLine env text 0 line incoming k).2.properties =
      k.properties.registerAll ((declaredLine env.words incoming text).map (·, line)) :=
  properties_styleTokens env line _ _ _ _ _

/-- A run over lines that are read in full registers the names that they declare. -/
theorem properties_styled (incoming : LineState) (k : Knowledge) (count : Nat) (ls : Lines) :
    (Lines.styled id env line incoming k count ls).2.1.properties =
      k.properties.registerAll (Lines.declared env.words line incoming (ls.take count)) := by
  induction ls generalizing line incoming k count with
  | nil => cases count <;> rfl
  | cons l ls ih =>
    cases count with
    | zero => rfl
    | succ count =>
      have hstate := endState_eq_outline env l.text line incoming k
      have hline := properties_styleLine env line l.text incoming k
      rw [Lines.styled, Line.styled, List.take_succ_cons, Lines.declared,
        PropertyRegistry.registerAll_append, ← hline, ← hstate]
      exact ih _ _ _ _

end

/-! ## Where a declared name stands -/

/-- Two tokens side by side spell the declaration of a name. -/
def Token.Spells (tokens : List Token) (name : String) : Prop :=
  ∃ pre t next post, tokens = pre ++ t :: next :: post ∧ t.kind = .identifier ∧
    t.content = "property" ∧ next.kind = .identifier ∧ next.content = name

theorem Token.Spells.cons {tokens : List Token} {name : String} (t : Token)
    (h : Spells tokens name) : Spells (t :: tokens) name := by
  obtain ⟨pre, u, next, post, rfl, hspells⟩ := h
  exact ⟨t :: pre, u, next, post, rfl, hspells⟩

theorem spells_of_declaredToken? {words : WordLists} {mode : Mode} {t : Token}
    {rest : List Token} {name : String}
    (h : declaredToken? words mode t rest.head? = some name) : Token.Spells (t :: rest) name := by
  unfold declaredToken? at h
  split at h
  · next hkind =>
    unfold declaredName? at h
    split at h
    · next hword =>
      simp only [Bool.and_eq_true, beq_iff_eq] at hword
      cases rest with
      | nil => cases h
      | cons next post =>
        rw [List.head?_cons, Option.bind_some] at h
        split at h
        · next hident =>
          exact ⟨[], t, next, post, rfl, hkind, hword.1.1.1.1, hident, Option.some.inj h⟩
        · cases h
    · cases h
  · cases h

theorem spells_of_mem_declaredTokens {words : WordLists} {mode : Mode} {behind tokens : List Token}
    {name : String} (h : name ∈ declaredTokens words mode behind tokens) :
    Token.Spells tokens name := by
  induction tokens generalizing mode behind with
  | nil => cases h
  | cons t rest ih =>
    rcases List.mem_append.1 h with h | h
    · exact spells_of_declaredToken? (Option.mem_toList.1 h)
    · exact (ih h).cons t

/-- A declared name stands behind the word `property` on the line with which it is declared. -/
theorem spells_of_mem_declared {words : WordLists} {line : Nat} {incoming : LineState} {ls : Lines}
    {name : String} {i : Nat} (h : (name, i) ∈ Lines.declared words line incoming ls) :
    ∃ n l, i = line + n ∧ ls[n]? = some l ∧ Token.Spells (Token.scan l.text 0) name := by
  induction ls generalizing line incoming with
  | nil => cases h
  | cons l ls ih =>
    rcases List.mem_append.1 h with h | h
    · obtain ⟨_, hname, heq⟩ := List.mem_map.1 h
      obtain ⟨rfl, rfl⟩ := Prod.mk.inj heq
      exact ⟨0, l, rfl, rfl, spells_of_mem_declaredTokens hname⟩
    · obtain ⟨n, m, rfl, hm, hspells⟩ := ih h
      exact ⟨n + 1, m, by omega, hm, hspells⟩

end Papyrus

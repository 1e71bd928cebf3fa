import Papyrus.Proofs.ClassCache
/-!
# What styling finds out

Styling finds out things as it goes: a declaration registers a name, and a name that is in no word
list is looked up. What is asked (`Inquiry`) depends on the texts of the lines and on the word lists
alone, not on what is known. An inquiry that has been made is settled: to make it again changes
nothing, whatever else has been asked meanwhile.

Results:
* `settles_ask`, `Settles.ask`: what has been asked is settled, and stays so.
* `askAll_of_settles`: what is settled changes nothing.
* `knowledge_styled`: what a run over lines finds out are the answers to their inquiries.
-/
namespace Papyrus

/-! ## Names that are remembered -/

/-- A note adds its name to those that are known. -/
theorem KnownNames.mem_note {known : KnownNames} {name other : String} {isClass : Bool} :
    other ∈ (known.note name isClass).classes ∨ other ∈ (known.note name isClass).others ↔
      other = name ∨ other ∈ known.classes ∨ other ∈ known.others := by
  by_cases h : other = name
  · cases isClass <;> simp [note, h]
  · cases isClass <;> simp [note, h]

namespace ClassResolver
variable {r : ClassResolver} {tree : FileTree} {profile : Profile} {name identifier : String}

/-- Whether a name is known under a profile, if answers are remembered at all. -/
def Knows (r : ClassResolver) (profile name : String) : Prop :=
  r.caching = true → name ∈ (r.known profile).classes ∨ name ∈ (r.known profile).others

/-- A name that is known is not looked for. -/
theorem Knows.snd_isClass (h : r.Knows profile.name (foldName identifier)) :
    (r.isClass tree identifier profile).2 = r := by
  unfold isClass
  dsimp only
  cases hcaching : r.caching with
  | false => simp [resolve, remember, hcaching]
  | true =>
    rw [Bool.true_and, Bool.true_and]
    rcases h hcaching with h | h
    · rw [if_pos (List.contains_iff_mem.2 h)]
    · split
      · rfl
      · rw [if_pos (List.contains_iff_mem.2 h)]

theorem caching_remember (r : ClassResolver) (profile name : String) (isClass : Bool) :
    (r.remember profile name isClass).caching = r.caching := by
  unfold remember
  split <;> rfl

/-- What is known after a look-up are the name and what was known before. -/
theorem knows_resolve (identifier : String) :
    (r.resolve tree identifier profile).2.Knows profile.name name ↔
      name = foldName identifier ∨ r.Knows profile.name name := by
  rw [resolve, Knows, caching_remember, known_remember, Knows]
  cases r.caching with
  | false => simp
  | true => simp only [if_true, true_implies, KnownNames.mem_note]

/-- Whether a name is a class is known already, or it is looked for. -/
theorem snd_isClass_cases (r : ClassResolver) (tree : FileTree) (identifier : String)
    (profile : Profile) :
    (r.isClass tree identifier profile).2 = r ∧ r.Knows profile.name (foldName identifier) ∨
      (r.isClass tree identifier profile).2 = (r.resolve tree (foldName identifier) profile).2 := by
  unfold isClass
  dsimp only
  split
  · next h =>
    exact Or.inl ⟨rfl, fun _ => Or.inl (List.contains_iff_mem.1 (Bool.and_eq_true_iff.1 h).2)⟩
  · split
    · next h =>
      exact Or.inl ⟨rfl, fun _ => Or.inr (List.contains_iff_mem.1 (Bool.and_eq_true_iff.1 h).2)⟩
    · exact Or.inr rfl

theorem Knows.isClass (h : r.Knows profile.name name) (identifier : String) :
    (r.isClass tree identifier profile).2.Knows profile.name name := by
  rcases r.snd_isClass_cases tree identifier profile with ⟨hsame, -⟩ | hfound
  · rwa [hsame]
  · rw [hfound, knows_resolve]
    exact Or.inr h

theorem knows_isClass (r : ClassResolver) (tree : FileTree) (identifier : String)
    (profile : Profile) :
    (r.isClass tree identifier profile).2.Knows profile.name (foldName identifier) := by
  rcases r.snd_isClass_cases tree identifier profile with ⟨hsame, hknows⟩ | hfound
  · rwa [hsame]
  · rw [hfound, knows_resolve, foldName_foldName]
    exact Or.inl rfl

end ClassResolver

/-! ## Inquiries -/

/-- What an identifier in code asks. -/
inductive Inquiry where
  /-- A name is declared on a line. -/
  | declare (name : String) (line : Nat)
  /-- A word may be a property or a class. -/
  | lookUp (word : String)
  deriving DecidableEq, Repr

namespace PropertyRegistry
variable {p : PropertyRegistry} {name : String} {line : Nat}

/-- A declaration is settled if its name has a record that does not move to its line. -/
def Settles (p : PropertyRegistry) (name : String) (line : Nat) : Prop :=
  p.isProperty name = true ∧
    ∀ r ∈ p.records, r.name = name → r.line ≤ line → r.needsRecheck = false

theorem Settles.register_eq (h : p.Settles name line) : p.register name line = p := by
  have hsame : ∀ r ∈ p.records, (if r.name == name then r.redeclare line else r) = r := by
    intro r hr
    split
    · next hname => exact PropertyRecord.redeclare_eq_self (h.2 r hr (beq_iff_eq.1 hname))
    · rfl
  refine PropertyRegistry.ext ?_ ?_
  · rw [records_register, if_pos h.1, List.map_congr_left hsame, List.map_id']
  · rw [names_register, if_pos h.1]

theorem settles_register (p : PropertyRegistry) (name : String) (line : Nat) :
    (p.register name line).Settles name line := by
  refine ⟨isProperty_register.2 (Or.inl rfl), fun r hr hname hline => ?_⟩
  rw [records_register] at hr
  split at hr
  · obtain ⟨q, -, rfl⟩ := List.mem_map.1 hr
    unfold PropertyRecord.redeclare at hname hline ⊢
    grind
  · next hnew =>
    rcases List.mem_append.1 hr with hr | hr
    · exact absurd (p.agrees.isProperty_iff_mem.2 (hname ▸ List.mem_map_of_mem hr)) hnew
    · rw [List.mem_singleton.1 hr]

theorem Settles.register (h : p.Settles name line) (other : String) (line' : Nat) :
    (p.register other line').Settles name line := by
  refine ⟨isProperty_register.2 (Or.inr h.1), fun r hr hname hline => ?_⟩
  rcases mem_register hr with hr | rfl
  · exact h.2 r hr hname hline
  · rfl

end PropertyRegistry

namespace Knowledge
variable {env : Surroundings} {k k' : Knowledge} {q : Inquiry} {qs : List Inquiry}

/-- What is known after an inquiry. -/
def ask (env : Surroundings) (k : Knowledge) : Inquiry → Knowledge
  | .declare name line => { k with properties := k.properties.register name line }
  | .lookUp word => (env.lookUp word k).2

/-- What is known after some inquiries. -/
def askAll (env : Surroundings) (k : Knowledge) (qs : List Inquiry) : Knowledge :=
  qs.foldl (ask env) k

/-- Whether there is nothing left to find out by an inquiry. -/
def Settles (env : Surroundings) (k : Knowledge) : Inquiry → Prop
  | .declare name line => k.properties.Settles name line
  | .lookUp word =>
    k.properties.isProperty word = true ∨
      ∀ profile ∈ env.profile, k.classes.Knows profile.name (foldName word)

theorem askAll_append (k : Knowledge) (qs qs' : List Inquiry) :
    k.askAll env (qs ++ qs') = (k.askAll env qs).askAll env qs' := List.foldl_append

/-- A settled inquiry changes nothing. -/
theorem Settles.ask_eq (h : k.Settles env q) : k.ask env q = k := by
  cases q with
  | declare name line => rw [ask, PropertyRegistry.Settles.register_eq h]
  | lookUp word =>
    rw [ask, Surroundings.lookUp]
    by_cases hproperty : k.properties.isProperty word = true
    · rw [if_pos hproperty]
    · rw [if_neg hproperty]
      cases hprofile : env.profile with
      | none => rfl
      | some profile =>
        have hclasses := @ClassResolver.Knows.snd_isClass k.classes env.files profile word
          (h.resolve_left hproperty profile hprofile)
        dsimp only
        rw [hclasses]

/-- An inquiry that has been made is settled. -/
theorem settles_ask (k : Knowledge) (q : Inquiry) : (k.ask env q).Settles env q := by
  cases q with
  | declare name line => exact k.properties.settles_register name line
  | lookUp word =>
    rw [ask, Settles, properties_lookUp, Surroundings.lookUp]
    by_cases hproperty : k.properties.isProperty word = true
    · exact Or.inl hproperty
    · rw [if_neg hproperty]
      refine Or.inr fun profile hprofile => ?_
      rw [Option.mem_def.1 hprofile]
      exact ClassResolver.knows_isClass _ _ _ _

/-- A settled inquiry stays settled, whatever is asked. -/
theorem Settles.ask (h : k.Settles env q) (q' : Inquiry) : (k.ask env q').Settles env q := by
  cases q' with
  | declare name line =>
    cases q with
    | declare name' line' => exact PropertyRegistry.Settles.register h name line
    | lookUp word =>
      exact h.imp_left fun hword => PropertyRegistry.isProperty_register.2 (Or.inr hword)
  | lookUp word =>
    have hproperties := properties_lookUp env word k
    cases q with
    | declare name' line' => rwa [Settles, Knowledge.ask, hproperties]
    | lookUp word' =>
      rw [Settles, Knowledge.ask, hproperties]
      refine h.imp_right fun hknows profile hprofile => ?_
      have hknown := hknows profile hprofile
      rw [Surroundings.lookUp]
      by_cases hproperty : k.properties.isProperty word = true
      · rwa [if_pos hproperty]
      · rw [if_neg hproperty, Option.mem_def.1 hprofile]
        exact hknown.isClass word

theorem Settles.askAll (h : k.Settles env q) (qs : List Inquiry) :
    (k.askAll env qs).Settles env q := by
  induction qs generalizing k with
  | nil => exact h
  | cons q' qs ih => exact ih (h.ask q')

/-- Inquiries that have been made are settled. -/
theorem settles_askAll (k : Knowledge) (qs : List Inquiry) :
    ∀ q ∈ qs, (k.askAll env qs).Settles env q := by
  induction qs generalizing k with
  | nil => exact fun _ hq => absurd hq List.not_mem_nil
  | cons q' qs ih =>
    exact List.forall_mem_cons.2 ⟨(k.settles_ask q').askAll qs, ih (k.ask env q')⟩

/-- Settled inquiries change nothing. -/
theorem askAll_of_settles (h : ∀ q ∈ qs, k.Settles env q) : k.askAll env qs = k := by
  induction qs with
  | nil => rfl
  | cons q qs ih =>
    obtain ⟨hq, hqs⟩ := List.forall_mem_cons.1 h
    rw [askAll, List.foldl_cons, hq.ask_eq]
    exact ih hqs

end Knowledge

/-! ## What a run asks -/

/-- What a token asks. -/
def inquiry? (words : WordLists) (line : Nat) (mode : Mode) (t : Token) (next : Option Token) :
    Option Inquiry :=
  match mode, t.kind with
  | .code, .identifier =>
    match wordStyle? words t.content next with
    | some _ => (declaredName? words t.content next).map (.declare · line)
    | none => some (.lookUp t.content)
  | _, _ => none

/-- What the tokens of a line ask. -/
def inquiryTokens (words : WordLists) (line : Nat) (mode : Mode) (behind : List Token) :
    List Token → List Inquiry
  | [] => []
  | t :: rest =>
    (inquiry? words line mode t rest.head?).toList ++
      inquiryTokens words line (mode.after behind t rest.head?) (t :: behind) rest

/-- What a line asks. -/
def inquiryLine (words : WordLists) (line : Nat) (incoming : LineState) (text : Text) :
    List Inquiry :=
  inquiryTokens words line (.ofState incoming) [] (Token.scan text 0)

/-- What lines ask, the first of which has index `line`. -/
def Lines.inquiries (words : WordLists) (line : Nat) (incoming : LineState) :
    Lines → List Inquiry
  | [] => []
  | l :: ls =>
    inquiryLine words line incoming l.text ++
      inquiries words (line + 1) (outline incoming l.text).endState ls

theorem Lines.inquiries_congr {words : WordLists} {line : Nat} {incoming : LineState}
    {ls ls' : Lines} (h : ls.map Line.text = ls'.map Line.text) :
    inquiries words line incoming ls = inquiries words line incoming ls' := by
  induction ls generalizing line incoming ls' with
  | nil =>
    cases ls' with
    | nil => rfl
    | cons => cases h
  | cons l ls ih =>
    cases ls' with
    | nil => cases h
    | cons l' ls' =>
      obtain ⟨hl, hls⟩ := List.cons.inj h
      rw [inquiries, inquiries, ih hls, hl]

section
variable (env : Surroundings) (line : Nat)

theorem knowledge_styleToken (mode : Mode) (behind : List Token) (t : Token)
    (next : Option Token) (k : Knowledge) :
    (styleToken env line mode behind t next k).2.2 =
      k.askAll env (inquiry? env.words line mode t next).toList := by
  cases mode with
  | code =>
    unfold styleToken styleCode inquiry?
    cases t.kind with
    | identifier =>
      dsimp only
      rw [styleIdentifier_eq]
      cases wordStyle? env.words t.content next with
      | some s => cases declaredName? env.words t.content next <;> rfl
      | none => rfl
    | numeric => rfl
    | special =>
      dsimp only
      repeat' split
      all_goals rfl
  | _ => rfl

theorem knowledge_styleTokens (mode : Mode) (behind : List Token) (cursor : Nat) (k : Knowledge)
    (tokens : List Token) :
    (styleTokens env line mode behind cursor k tokens).2.2.2 =
      k.askAll env (inquiryTokens env.words line mode behind tokens) := by
  induction tokens generalizing mode behind cursor k with
  | nil => rfl
  | cons t rest ih =>
    rw [styleTokens, inquiryTokens, Knowledge.askAll_append,
      ← knowledge_styleToken env line mode behind, ← mode_styleToken env line mode behind t _ k]
    exact ih _ _ _ _

/-- What a run over lines finds out are the answers to their inquiries. -/
theorem knowledge_styled (incoming : LineState) (k : Knowledge) (ls : Lines) :
    (Lines.styled id env line incoming k ls.length ls).2.1 =
      k.askAll env (ls.inquiries env.words line incoming) := by
  induction ls generalizing line incoming k with
  | nil => rfl
  | cons l ls ih =>
    have hstate := endState_eq_outline env l.text line incoming k
    have hline : (styleLine env l.text 0 line incoming k).2 =
        k.askAll env (inquiryLine env.words line incoming l.text) :=
      knowledge_styleTokens env line _ _ _ _ _
    rw [List.length_cons, Lines.styled, Line.styled, Lines.inquiries, Knowledge.askAll_append,
      ← hline, ← hstate]
    exact ih _ _ _

end

end Papyrus

import Papyrus.Lexer.Link
import Papyrus.Lexer.Setting
import Papyrus.Proofs.LowerCase
import Papyrus.Proofs.Session
/-!
# What is remembered of classes

Answers about classes are remembered by the name of a profile, while they depend on the directories
of the profile. They stay true all the same: whatever changes the profiles, or the one that is
active, forgets them all. What a lexer remembers under its active profile is therefore always so
(`Lexer.Truthful`), and a lexer that remembers does what one does that never has.

Results:
* `fst_isClass`, `fst_locate`: a truthful resolver answers what a look at the files tells.
* `agree_styleTokens`: styling is the same under all truthful resolvers.
* `alike_serve`: a request keeps lexers alike that differ in caching only, and treats them alike.
* `serveAll_uncached`: caching has no say in what the requests of a session lead to.
-/
namespace Papyrus

/-! ## Resolvers that remember what is so -/

namespace KnownNames
variable {known : KnownNames} {name other : String} {isClass : Bool}

theorem mem_classes_note :
    other ∈ (known.note name isClass).classes ↔
      other = name ∧ isClass = true ∨ other ≠ name ∧ other ∈ known.classes := by
  by_cases h : other = name <;> cases isClass <;> simp [note, h]

theorem mem_others_note :
    other ∈ (known.note name isClass).others ↔
      other = name ∧ isClass = false ∨ other ≠ name ∧ other ∈ known.others := by
  by_cases h : other = name <;> cases isClass <;> simp [note, h]

end KnownNames

namespace ClassResolver
variable {r : ClassResolver} {tree : FileTree} {profile : Profile}

/-- What is remembered under the name of a profile is what its directories tell. -/
structure Truthful (r : ClassResolver) (tree : FileTree) (profile : Profile) : Prop where
  classes : ∀ name ∈ (r.known profile.name).classes,
    (profile.findScript tree name).isSome = true
  others : ∀ name ∈ (r.known profile.name).others,
    (profile.findScript tree name).isSome = false

/-- Nothing that is remembered is wrong if nothing is. -/
theorem truthful_of_caches (h : r.caches = []) : r.Truthful tree profile := by
  have hknown : r.known profile.name = {} := by rw [known, h]; rfl
  constructor <;> rw [hknown] <;> exact fun _ hname => absurd hname List.not_mem_nil

theorem truthful_setCaching (h : r.Truthful tree profile) (on : Bool) :
    (r.setCaching on).Truthful tree profile := by
  cases on with
  | true => exact ⟨h.classes, h.others⟩
  | false => exact truthful_of_caches rfl

theorem known_remember (r : ClassResolver) (profile name : String) (isClass : Bool) :
    (r.remember profile name isClass).known profile =
      if r.caching then (r.known profile).note name isClass else r.known profile := by
  unfold remember
  split
  · rw [known, List.lookup_cons_self, Option.getD_some]
  · rfl

theorem truthful_resolve (h : r.Truthful tree profile) (identifier : String) :
    (r.resolve tree identifier profile).2.Truthful tree profile := by
  have hknown := r.known_remember profile.name (foldName identifier)
    (profile.findScript tree (foldName identifier)).isSome
  by_cases hcaching : r.caching = true
  · rw [if_pos hcaching] at hknown
    constructor <;> intro name hname <;> rw [resolve, hknown] at hname
    · rcases KnownNames.mem_classes_note.1 hname with ⟨rfl, hfound⟩ | ⟨-, hname⟩
      · exact hfound
      · exact h.classes name hname
    · rcases KnownNames.mem_others_note.1 hname with ⟨rfl, hfound⟩ | ⟨-, hname⟩
      · exact hfound
      · exact h.others name hname
  · rw [if_neg hcaching] at hknown
    constructor <;> intro name hname <;> rw [resolve, hknown] at hname
    · exact h.classes name hname
    · exact h.others name hname

/-- A truthful resolver takes the names for classes that have a script. -/
theorem fst_isClass (h : r.Truthful tree profile) (identifier : String) :
    (r.isClass tree identifier profile).1 =
      (profile.findScript tree (foldName identifier)).isSome := by
  unfold isClass
  dsimp only
  split
  · next hclass =>
    rw [Bool.and_eq_true, List.contains_iff_mem] at hclass
    rw [h.classes _ hclass.2]
  · split
    · next hother =>
      rw [Bool.and_eq_true, List.contains_iff_mem] at hother
      rw [h.others _ hother.2]
    · -- the name is mapped to lower case once more
      rw [resolve, foldName_foldName]

theorem truthful_isClass (h : r.Truthful tree profile) (identifier : String) :
    (r.isClass tree identifier profile).2.Truthful tree profile := by
  unfold isClass
  dsimp only
  split
  · exact h
  · split
    · exact h
    · exact truthful_resolve h (foldName identifier)

/-- A truthful resolver finds the script of a name. -/
theorem fst_locate (h : r.Truthful tree profile) (identifier : String) :
    (r.locate tree identifier profile).1 = profile.findScript tree (foldName identifier) := by
  unfold locate
  split
  · next hother =>
    rw [Bool.and_eq_true, List.contains_iff_mem] at hother
    rw [Option.isNone_iff_eq_none.1 (Option.isSome_eq_false_iff.1 (h.others _ hother.2))]
  · rw [resolve]

theorem truthful_locate (h : r.Truthful tree profile) (identifier : String) :
    (r.locate tree identifier profile).2.Truthful tree profile := by
  unfold locate
  split
  · exact h
  · exact truthful_resolve h _

end ClassResolver

/-! ## Styling -/

/-- Two states of knowledge that differ in what is remembered of classes at most, all of which is
so under the active profile. -/
structure Surroundings.Agree (env : Surroundings) (k k' : Knowledge) : Prop where
  properties : k.properties = k'.properties
  left : ∀ profile ∈ env.profile, k.classes.Truthful env.files profile
  right : ∀ profile ∈ env.profile, k'.classes.Truthful env.files profile

section
variable {env : Surroundings} {k k' : Knowledge} (h : env.Agree k k') (line : Nat)
include h

theorem agree_lookUp (word : String) :
    (env.lookUp word k).1 = (env.lookUp word k').1 ∧
      env.Agree (env.lookUp word k).2 (env.lookUp word k').2 := by
  unfold Surroundings.lookUp
  rw [← h.properties]
  by_cases hproperty : k.properties.isProperty word = true
  · rw [if_pos hproperty, if_pos hproperty]
    exact ⟨rfl, h⟩
  rw [if_neg hproperty, if_neg hproperty]
  cases hprofile : env.profile with
  | none => exact ⟨rfl, h⟩
  | some profile =>
    have hleft := h.left profile hprofile
    have hright := h.right profile hprofile
    dsimp only
    refine ⟨?_, rfl, ?_, ?_⟩
    · rw [ClassResolver.fst_isClass hleft, ClassResolver.fst_isClass hright]
    · rintro other hother
      obtain rfl := Option.some.inj (hprofile.symm.trans hother)
      exact ClassResolver.truthful_isClass hleft word
    · rintro other hother
      obtain rfl := Option.some.inj (hprofile.symm.trans hother)
      exact ClassResolver.truthful_isClass hright word

theorem agree_styleIdentifier (word : String) (next : Option Token) :
    (styleIdentifier env line word next k).1 = (styleIdentifier env line word next k').1 ∧
      env.Agree (styleIdentifier env line word next k).2
        (styleIdentifier env line word next k').2 := by
  rw [styleIdentifier_eq, styleIdentifier_eq]
  cases wordStyle? env.words word next with
  | none => exact agree_lookUp h word
  | some s => exact ⟨rfl, congrArg (PropertyRegistry.registerAll · _) h.properties, h.left, h.right⟩

theorem agree_styleToken (mode : Mode) (behind : List Token) (t : Token) (next : Option Token) :
    let r := styleToken env line mode behind t next k
    let r' := styleToken env line mode behind t next k'
    r.1 = r'.1 ∧ r.2.1 = r'.2.1 ∧ env.Agree r.2.2 r'.2.2 := by
  cases mode with
  | code =>
    unfold styleToken styleCode
    cases t.kind with
    | identifier =>
      obtain ⟨hstyle, hagree⟩ := agree_styleIdentifier h line t.content next
      exact ⟨hstyle, rfl, hagree⟩
    | numeric => exact ⟨rfl, rfl, h⟩
    | special =>
      dsimp only
      repeat' split
      all_goals exact ⟨rfl, rfl, h⟩
  | _ => exact ⟨rfl, rfl, h⟩

theorem agree_styleTokens (mode : Mode) (behind : List Token) (cursor : Nat)
    (tokens : List Token) :
    let r := styleTokens env line mode behind cursor k tokens
    let r' := styleTokens env line mode behind cursor k' tokens
    r.1 = r'.1 ∧ r.2.1 = r'.2.1 ∧ r.2.2.1 = r'.2.2.1 ∧ env.Agree r.2.2.2 r'.2.2.2 := by
  induction tokens generalizing mode behind cursor k k' with
  | nil => exact ⟨rfl, rfl, rfl, h⟩
  | cons t rest ih =>
    obtain ⟨hstyle, hmode, hagree⟩ := agree_styleToken h line mode behind t rest.head?
    obtain ⟨hspans, hstop, hfinal, hrest⟩ := ih hagree
      (styleToken env line mode behind t rest.head? k).2.1 (t :: behind) t.stop
    simp only [styleTokens, ← hstyle, ← hmode]
    exact ⟨by rw [hspans], hstop, hfinal, hrest⟩

theorem agree_styleLine (text : Text) (base : Nat) (incoming : LineState) :
    (styleLine env text base line incoming k).1 = (styleLine env text base line incoming k').1 ∧
      env.Agree (styleLine env text base line incoming k).2
        (styleLine env text base line incoming k').2 := by
  obtain ⟨hspans, hstop, hmode, hagree⟩ := agree_styleTokens h line (.ofState incoming) [] base
    (Token.scan text base)
  simp only [styleLine, hspans, hstop, hmode]
  exact ⟨trivial, hagree⟩

theorem agree_restyleRun (d : Document) (incoming : LineState) (count : Nat) :
    let r := d.restyleRun env line incoming k count
    let r' := d.restyleRun env line incoming k' count
    r.1 = r'.1 ∧ env.Agree r.2.1 r'.2.1 ∧ r.2.2 = r'.2.2 := by
  induction count generalizing d line incoming k k' with
  | zero => exact ⟨rfl, h, rfl⟩
  | succ count ih =>
    obtain ⟨hline, hagree⟩ := agree_styleLine h line (d.read (d.lineStart line) (d.lineEnd line))
      (d.lineStart line) incoming
    simp only [Document.restyleRun, Document.restyleLine, ← hline]
    exact ih hagree (line + 1) _ _

end

/-! ## Links -/

/-- The name at an offset, colons included, if there is one. -/
def Document.linkName? (d : Document) (offset : Nat) : Option String :=
  let d := { d with wordChars := d.wordChars ++ [':'].filter (! d.wordChars.contains ·) }
  let word := d.wordAt offset
  if word.isEmpty then none else some (String.ofList (d.read word.start word.stop))

/-- A link leads to the script of the name at the offset, if the active profile has one. -/
theorem Lexer.followLink_eq (x : Lexer) (files : FileTree) (d : Document) (offset : Nat) :
    x.followLink files d offset =
      match x.settings.profile?, d.linkName? offset with
      | some profile, some name =>
        let r := x.classes.locate files name profile
        (r.1, { x with classes := r.2 }, r.1.elim d d.requestOpen)
      | _, _ => (none, x, d) := by
  unfold Lexer.followLink Document.linkName? Document.withWordChars
  cases x.settings.profile? with
  | none => rfl
  | some profile =>
    dsimp only
    generalize d.wordChars ++ List.filter _ _ = chars
    by_cases hempty : (Document.wordAt { d with wordChars := chars } offset).isEmpty = true
    · simp only [if_pos hempty]
    · simp only [if_neg hempty]
      cases (x.classes.locate files _ profile).1 <;> rfl

/-! ## Requests -/

/-- A change of a setting that leaves caching off. -/
def SettingChange.uncached : SettingChange → SettingChange
  | classCache _ => classCache false
  | change => change

/-- What is asked of a lexer. -/
inductive Request where
  /-- An edit that is to be followed, or lines that are to be styled. -/
  | step (t : Step)
  /-- The script to which the name at an offset leads. -/
  | link (offset : Nat)
  /-- A changed setting. -/
  | set (change : SettingChange)
  deriving DecidableEq, Repr

/-- A request that leaves caching off. -/
def Request.uncached : Request → Request
  | set change => set change.uncached
  | r => r

/-- What is said in answer to a request. -/
inductive Answer where
  | done
  | script (path? : Option Path)
  | refresh (outcome : Except Error Refresh)

namespace Lexer

/-- Answers a request. A setting that is not accepted changes nothing. -/
def serve (files : FileTree) (s : Lexer × Document) : Request → Answer × Lexer × Document
  | .step t => (.done, step files s t)
  | .link offset =>
    let (path?, s) := s.1.followLink files s.2 offset
    (.script path?, s)
  | .set change =>
    match s.1.apply change with
    | .ok (refresh, x) => (.refresh (.ok refresh), x, s.2)
    | .error e => (.refresh (.error e), s)

/-- The answers to requests, each with the document as it is then: its text, its styles and the
files that it was asked to open. -/
def serveAll (files : FileTree) (s : Lexer × Document) : List Request → List (Answer × Document)
  | [] => []
  | r :: rest =>
    let (answer, s) := serve files s r
    (answer, s.2) :: serveAll files s rest

/-! ## Lexers that differ in caching -/

/-- A lexer with caching switched off. -/
def uncached (x : Lexer) : Lexer :=
  { x with settings := { x.settings with classCache := false }, classes := { caching := false } }

/-- What the lexer remembers under its active profile is what the directories of the profile
tell. -/
def Truthful (x : Lexer) (files : FileTree) : Prop :=
  ∀ profile ∈ x.settings.profile?, x.classes.Truthful files profile

/-- Lexers that differ in caching only, and remember nothing that is not so. -/
structure Alike (files : FileTree) (x y : Lexer) : Prop where
  uncached : x.uncached = y.uncached
  left : x.Truthful files
  right : y.Truthful files

section
variable {files : FileTree} {x y : Lexer} (h : Alike files x y) (d : Document)
include h

theorem Alike.profile? : x.settings.profile? = y.settings.profile? := by
  have heq : x.uncached.settings.profile? = y.uncached.settings.profile? := by rw [h.uncached]
  exact heq

theorem Alike.properties : x.properties = y.properties := by
  have heq : x.uncached.properties = y.uncached.properties := by rw [h.uncached]
  exact heq

theorem Alike.surroundings : x.surroundings files = y.surroundings files := by
  have heq : x.uncached.surroundings files = y.uncached.surroundings files := by rw [h.uncached]
  exact heq

theorem Alike.agree : (x.surroundings files).Agree x.knowledge y.knowledge where
  properties := h.properties
  left := h.left
  right profile hprofile := by
    rw [h.surroundings] at hprofile
    exact h.right profile hprofile

theorem Alike.learn {k k' : Knowledge} (hk : (x.surroundings files).Agree k k') :
    Alike files (x.learn k) (y.learn k') where
  uncached := by
    have heq : (x.learn k).uncached = { x.uncached with properties := k.properties } := rfl
    rw [heq, hk.properties, h.uncached]
    rfl
  left := hk.left
  right profile hprofile := by
    have heq : (y.learn k').settings.profile? = (x.surroundings files).profile := h.profile?.symm
    rw [heq] at hprofile
    exact hk.right profile hprofile

theorem alike_restyle (first last : Nat) (incoming : LineState) :
    let r := x.restyle files d first last incoming
    let r' := y.restyle files d first last incoming
    r.1 = r'.1 ∧ Alike files r.2.1 r'.2.1 ∧ r.2.2 = r'.2.2 := by
  obtain ⟨hstate, hagree, hdocument⟩ := agree_restyleRun h.agree first d incoming
    (d.lineSpan first last)
  dsimp only
  rw [restyle_eq, restyle_eq, ← h.surroundings]
  exact ⟨hstate, h.learn hagree, hdocument⟩

theorem alike_follow (change : LineChange) : Alike files (x.follow change) (y.follow change) where
  uncached := by
    have heq : (x.follow change).uncached = x.uncached.follow change := rfl
    rw [heq, h.uncached]
    rfl
  left := h.left
  right := h.right

theorem Alike.locate {profile : Profile} (hprofile : profile ∈ x.settings.profile?)
    (name : String) :
    (x.classes.locate files name profile).1 = (y.classes.locate files name profile).1 ∧
      Alike files { x with classes := (x.classes.locate files name profile).2 }
        { y with classes := (y.classes.locate files name profile).2 } := by
  have hprofile' : profile ∈ y.settings.profile? := h.profile? ▸ hprofile
  have hleft := h.left profile hprofile
  have hright := h.right profile hprofile'
  refine ⟨?_, h.uncached, ?_, ?_⟩
  · rw [ClassResolver.fst_locate hleft, ClassResolver.fst_locate hright]
  · intro other hother
    obtain rfl := Option.some.inj (hprofile.symm.trans hother)
    exact ClassResolver.truthful_locate hleft name
  · intro other hother
    obtain rfl := Option.some.inj (hprofile'.symm.trans hother)
    exact ClassResolver.truthful_locate hright name

theorem alike_followLink (offset : Nat) :
    let r := x.followLink files d offset
    let r' := y.followLink files d offset
    r.1 = r'.1 ∧ Alike files r.2.1 r'.2.1 ∧ r.2.2 = r'.2.2 := by
  rw [followLink_eq, followLink_eq, ← h.profile?]
  cases hprofile : x.settings.profile? with
  | none => exact ⟨rfl, h, rfl⟩
  | some profile =>
    cases d.linkName? offset with
    | none => exact ⟨rfl, h, rfl⟩
    | some name =>
      obtain ⟨hpath, halike⟩ := h.locate hprofile name
      exact ⟨hpath, halike, congrArg (Option.elim · d d.requestOpen) hpath⟩

end

/-! ## Settings -/

theorem apply_uncached (x : Lexer) (change : SettingChange) :
    x.uncached.apply change.uncached = (x.apply change).map fun r => (r.1, r.2.uncached) := by
  cases change with
  | activeProfile name? =>
    cases name? with
    | none => rfl
    | some name =>
      dsimp only [SettingChange.uncached, apply, Settings.selectProfile, uncached]
      cases x.settings.profiles.any (·.name == name) <;> rfl
  | _ => rfl

theorem uncached_uncached (change : SettingChange) :
    change.uncached.uncached = change.uncached := by
  cases change <;> rfl

/-- Whatever changes what the answers depend on forgets them. -/
theorem truthful_apply {files : FileTree} {x y : Lexer} {change : SettingChange}
    {refresh : Refresh} (h : x.Truthful files) (happly : x.apply change = .ok (refresh, y)) :
    y.Truthful files := by
  cases change with
  | classCache on =>
    obtain ⟨-, rfl⟩ := Prod.mk.inj (Except.ok.inj happly)
    exact fun profile hprofile => ClassResolver.truthful_setCaching (h profile hprofile) on
  | profiles profiles =>
    obtain ⟨-, rfl⟩ := Prod.mk.inj (Except.ok.inj happly)
    exact fun _ _ => ClassResolver.truthful_of_caches rfl
  | activeProfile name? =>
    obtain ⟨-, rfl⟩ := apply_activeProfile happly
    exact fun _ _ => ClassResolver.truthful_of_caches rfl
  | _ =>
    obtain ⟨-, rfl⟩ := Prod.mk.inj (Except.ok.inj happly)
    exact h

/-! ## Sessions -/

/-- A request keeps lexers alike that differ in caching only. It is answered alike, and leads to the
same document. -/
theorem alike_serve {files : FileTree} {x y : Lexer} (h : Alike files x y) (d : Document)
    (r : Request) :
    let a := serve files (x, d) r
    let b := serve files (y, d) r.uncached
    a.1 = b.1 ∧ Alike files a.2.1 b.2.1 ∧ a.2.2 = b.2.2 := by
  cases r with
  | step t =>
    cases t with
    | edit e => exact ⟨rfl, alike_follow h (e.apply d).1, rfl⟩
    | styleAll => exact ⟨rfl, (alike_restyle h d 0 (d.lineCount - 1) .default).2⟩
    | style first last incoming => exact ⟨rfl, (alike_restyle h d first last incoming).2⟩
    | styleLines first last =>
      exact ⟨rfl, (alike_restyle h d first last (incomingState d first)).2⟩
  | link offset =>
    obtain ⟨hpath, hrest⟩ := alike_followLink h d offset
    exact ⟨congrArg Answer.script hpath, hrest⟩
  | set change =>
    have hsame : (x.apply change).map (fun r => (r.1, r.2.uncached)) =
        (y.apply change.uncached).map fun r => (r.1, r.2.uncached) := by
      rw [← apply_uncached, ← apply_uncached, h.uncached, uncached_uncached]
    dsimp only [serve, Request.uncached]
    cases hx : x.apply change with
    | error e =>
      cases hy : y.apply change.uncached with
      | error e' =>
        rw [hx, hy] at hsame
        obtain rfl := Except.error.inj hsame
        exact ⟨rfl, h, rfl⟩
      | ok r' =>
        rw [hx, hy] at hsame
        cases hsame
    | ok r =>
      cases hy : y.apply change.uncached with
      | error e' =>
        rw [hx, hy] at hsame
        cases hsame
      | ok r' =>
        rw [hx, hy] at hsame
        obtain ⟨hrefresh, huncached⟩ := Prod.mk.inj (Except.ok.inj hsame)
        refine ⟨?_, ⟨huncached, truthful_apply h.left hx, truthful_apply h.right hy⟩, rfl⟩
        exact congrArg (Answer.refresh ∘ Except.ok) hrefresh

theorem serveAll_of_alike {files : FileTree} {x y : Lexer} (h : Alike files x y) (d : Document)
    (requests : List Request) :
    serveAll files (x, d) requests = serveAll files (y, d) (requests.map Request.uncached) := by
  induction requests generalizing x y d with
  | nil => rfl
  | cons r rest ih =>
    obtain ⟨hanswer, halike, hdocument⟩ := alike_serve h d r
    have hrest := ih halike (serve files (x, d) r).2.2
    rw [List.map_cons, serveAll, serveAll, List.cons.injEq]
    refine ⟨Prod.ext hanswer hdocument, hrest.trans ?_⟩
    rw [hdocument]

/-- Whether answers about classes are remembered, throughout or at times, has no say in how requests
are answered, and in what they make of a document. -/
theorem serveAll_uncached (settings : Settings) (files : FileTree) (d : Document)
    (requests : List Request) :
    serveAll files (ofSettings settings, d) requests =
      serveAll files (ofSettings { settings with classCache := false }, d)
        (requests.map Request.uncached) := by
  have halike : Alike files (ofSettings settings)
      (ofSettings { settings with classCache := false }) :=
    ⟨rfl, fun _ _ => ClassResolver.truthful_of_caches rfl,
      fun _ _ => ClassResolver.truthful_of_caches rfl⟩
  exact serveAll_of_alike halike d requests

end Lexer

end Papyrus

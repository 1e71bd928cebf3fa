import Papyrus.Proofs.Highlight
import Papyrus.Proofs.Inquiry
/-!
# Settings and what is made of them

A lexer holds its settings, and what is made of them besides: the word lists that it reads, and
whether answers about classes are remembered. A change of a setting has to reach both. However a
lexer is used, with whatever files and documents, the two agree (`Lexer.Configured`), so that a
lexer that has been reconfigured reads as a new one with its settings would.

Results:
* `keeps_isClass`, `keeps_locate`: no look-up turns remembering on or off, and none remembers
  anything while it is off.
* `configured_call`: whatever a lexer is asked for leaves it configured.
* `apply_eq_error_iff`: only the name of a profile that is not there is refused.
* `configured_run`: in any use, a lexer has the words and the caching of its settings, remembers
  nothing that it should not, and is not changed by a setting that it refuses.
-/
namespace Papyrus

/-! ## Resolvers -/

namespace ClassResolver

/-- A resolver that remembers as before, which is nothing new if nothing is remembered. -/
structure Keeps (r r' : ClassResolver) : Prop where
  caching : r'.caching = r.caching
  uncached : r.caching = false → r' = r

theorem Keeps.refl (r : ClassResolver) : Keeps r r := ⟨rfl, fun _ => rfl⟩

theorem Keeps.trans {r r' r'' : ClassResolver} (h : Keeps r r') (h' : Keeps r' r'') :
    Keeps r r'' where
  caching := h'.caching.trans h.caching
  uncached hoff := (h'.uncached (h.caching.trans hoff)).trans (h.uncached hoff)

variable (r : ClassResolver) (tree : FileTree) (identifier : String) (profile : Profile)

theorem keeps_resolve : Keeps r (r.resolve tree identifier profile).2 where
  caching := r.caching_remember _ _ _
  uncached hoff := by simp [resolve, remember, hoff]

theorem keeps_locate : Keeps r (r.locate tree identifier profile).2 := by
  unfold locate
  split
  · exact Keeps.refl r
  · exact r.keeps_resolve tree identifier profile

theorem keeps_isClass : Keeps r (r.isClass tree identifier profile).2 := by
  rcases r.snd_isClass_cases tree identifier profile with ⟨hsame, -⟩ | hfound
  · rw [hsame]; exact Keeps.refl r
  · rw [hfound]; exact r.keeps_resolve tree _ profile

end ClassResolver

open ClassResolver (Keeps)

/-! ## Styling -/

theorem keeps_ask (env : Surroundings) (k : Knowledge) (q : Inquiry) :
    Keeps k.classes (k.ask env q).classes := by
  cases q with
  | declare name line => exact Keeps.refl _
  | lookUp word =>
    rw [Knowledge.ask, Surroundings.lookUp]
    by_cases hproperty : k.properties.isProperty word = true
    · rw [if_pos hproperty]; exact Keeps.refl _
    · rw [if_neg hproperty]
      cases env.profile with
      | none => exact Keeps.refl _
      | some profile => exact k.classes.keeps_isClass env.files word profile

theorem keeps_askAll (env : Surroundings) (k : Knowledge) (qs : List Inquiry) :
    Keeps k.classes (k.askAll env qs).classes := by
  induction qs generalizing k with
  | nil => exact Keeps.refl _
  | cons q qs ih => exact (keeps_ask env k q).trans (ih (k.ask env q))

theorem keeps_restyleRun (d : Document) (env : Surroundings) (line : Nat) (incoming : LineState)
    (k : Knowledge) (count : Nat) :
    Keeps k.classes (d.restyleRun env line incoming k count).2.1.classes := by
  induction count generalizing d line incoming k with
  | zero => exact Keeps.refl _
  | succ count ih =>
    have hline : (d.restyleLine env line incoming k).2.1 = k.askAll env _ :=
      knowledge_styleTokens env line _ [] (d.lineStart line) k _
    have hkeeps := keeps_askAll env k (inquiryTokens env.words line (.ofState incoming) []
      (Token.scan (d.read (d.lineStart line) (d.lineEnd line)) (d.lineStart line)))
    rw [← hline] at hkeeps
    exact hkeeps.trans (ih _ _ _ _)

/-! ## Lexers in use -/

namespace Lexer

/-- What a lexer is asked for, with the files and the document as they are at the time. -/
inductive Call where
  | restyle (files : FileTree) (d : Document) (first last : Nat) (incoming : LineState)
  | follow (change : LineChange)
  | matchAt (d : Document) (caret : Nat)
  | repaint (d : Document)
  | followLink (files : FileTree) (d : Document) (offset : Nat)
  | apply (change : SettingChange)

/-- The lexer after a call. A setting that is refused leaves no other lexer. -/
def call (x : Lexer) : Call → Lexer
  | .restyle files d first last incoming => (x.restyle files d first last incoming).2.1
  | .follow change => x.follow change
  | .matchAt d caret => (x.matchAt d caret).2.1
  | .repaint d => (x.repaint d).1
  | .followLink files d offset => (x.followLink files d offset).2.1
  | .apply change =>
    match x.apply change with
    | .ok (_, y) => y
    | .error _ => x

/-- The lexer after some calls. -/
def callAll (x : Lexer) (calls : List Call) : Lexer := calls.foldl call x

/-- What is made of the settings is what they say. -/
structure Configured (x : Lexer) : Prop where
  words : x.words = x.settings.wordLists
  caching : x.classes.caching = x.settings.classCache
  uncached : x.settings.classCache = false → x.classes.caches = []

theorem configured_ofSettings (settings : Settings) : (ofSettings settings).Configured :=
  ⟨rfl, rfl, fun _ => rfl⟩

/-- What is found out about classes leaves a lexer configured. -/
theorem Configured.of_keeps {x y : Lexer} (h : x.Configured) (hsettings : y.settings = x.settings)
    (hwords : y.words = x.words) (hclasses : Keeps x.classes y.classes) : y.Configured where
  words := by rw [hwords, hsettings, h.words]
  caching := by rw [hclasses.caching, hsettings, h.caching]
  uncached hoff := by
    rw [hsettings] at hoff
    rw [hclasses.uncached (h.caching.trans hoff)]
    exact h.uncached hoff

theorem Configured.repaint {x : Lexer} (h : x.Configured) (d : Document) :
    (x.repaint d).1.Configured := by
  obtain ⟨painted, hx, -⟩ := x.fst_repaint d
  rw [hx]
  exact ⟨h.words, h.caching, h.uncached⟩

theorem Configured.followLink {x : Lexer} (h : x.Configured) (files : FileTree) (d : Document)
    (offset : Nat) : (x.followLink files d offset).2.1.Configured := by
  rw [followLink_eq]
  split
  · exact h.of_keeps rfl rfl (x.classes.keeps_locate files _ _)
  · exact h

/-- A changed setting is taken over on both sides. -/
theorem Configured.apply {x y : Lexer} {change : SettingChange} {refresh : Refresh}
    (h : x.Configured) (happly : x.apply change = .ok (refresh, y)) : y.Configured := by
  have hwords := words_apply h.words happly
  cases change with
  | classCache on =>
    obtain ⟨-, rfl⟩ := Prod.mk.inj (Except.ok.inj happly)
    exact ⟨hwords, rfl, fun hoff => if_neg (by simp [show on = false from hoff])⟩
  | activeProfile name? =>
    obtain ⟨-, rfl⟩ := apply_activeProfile happly
    exact ⟨hwords, h.caching, fun _ => rfl⟩
  | profiles profiles =>
    obtain ⟨-, rfl⟩ := Prod.mk.inj (Except.ok.inj happly)
    exact ⟨hwords, h.caching, fun _ => rfl⟩
  | _ =>
    obtain ⟨-, rfl⟩ := Prod.mk.inj (Except.ok.inj happly)
    exact ⟨hwords, h.caching, h.uncached⟩

theorem configured_call {x : Lexer} (h : x.Configured) (c : Call) : (x.call c).Configured := by
  cases c with
  | restyle files d first last incoming =>
    exact h.of_keeps rfl rfl (keeps_restyleRun d _ _ _ x.knowledge _)
  | follow change => exact ⟨h.words, h.caching, h.uncached⟩
  | matchAt d caret =>
    have hask : (x.ask d caret).Configured := ⟨h.words, h.caching, h.uncached⟩
    have hmatch : x.call (.matchAt d caret) = ((x.ask d caret).repaint d).1 :=
      congrArg Prod.fst (x.matchAt_eq_repaint d caret)
    rw [hmatch]
    exact hask.repaint d
  | repaint d => exact h.repaint d
  | followLink files d offset => exact h.followLink files d offset
  | apply change =>
    cases happly : x.apply change with
    | error e => simpa only [call, happly] using h
    | ok r => simpa only [call, happly] using h.apply happly

theorem configured_callAll {x : Lexer} (h : x.Configured) (calls : List Call) :
    (x.callAll calls).Configured := by
  induction calls generalizing x with
  | nil => exact h
  | cons c calls ih => exact ih (configured_call h c)

/-! ## Changes of settings -/

/-- Only a profile that is to be active and is not there is refused. -/
theorem apply_eq_error_iff {x : Lexer} {change : SettingChange} {e : Error} :
    x.apply change = .error e ↔
      ∃ name, change = .activeProfile (some name) ∧ e = .unknownProfile name ∧
        ∀ p ∈ x.settings.profiles, p.name ≠ name := by
  constructor
  · intro h
    cases change with
    | activeProfile name? =>
      cases name? with
      | none => cases h
      | some name =>
        simp only [apply, Settings.selectProfile] at h
        split at h
        · cases h
        · next hnone =>
          obtain rfl := Except.error.inj h
          exact ⟨name, rfl, rfl, by simpa using hnone⟩
    | _ => cases h
  · intro h
    obtain ⟨name, hchange, he, hnone⟩ := h
    have hany : x.settings.profiles.any (·.name == name) = false := by simpa using hnone
    subst hchange he
    simp [apply, Settings.selectProfile, hany]

/-- Whatever changes the directories in which scripts are looked for forgets all answers. -/
theorem caches_apply {x y : Lexer} {change : SettingChange} {refresh : Refresh}
    (h : x.apply change = .ok (refresh, y))
    (hchange : (∃ name?, change = .activeProfile name?) ∨ ∃ ps, change = .profiles ps) :
    y.classes.caches = [] := by
  rcases hchange with ⟨name?, hname⟩ | ⟨ps, hps⟩
  · subst hname
    rw [(apply_activeProfile h).2]
    rfl
  · subst hps
    obtain ⟨-, rfl⟩ := Prod.mk.inj (Except.ok.inj h)
    rfl

/-- In whatever way a lexer is used and reconfigured, it has the word lists of its settings, it
remembers answers about classes if its settings say so, and has none while they do not. A setting
that it takes over and on which such answers depend leaves none of them; one that it refuses, which
can only be the name of a profile that is not there, leaves the lexer as it is. -/
theorem configured_run (settings : Settings) (calls : List Call) :
    let x := (ofSettings settings).callAll calls
    x.words = x.settings.wordLists ∧ x.classes.caching = x.settings.classCache ∧
      (x.classes.caching = false → x.classes.caches = []) ∧
      ∀ change,
        (∀ refresh y, x.apply change = .ok (refresh, y) → x.call (.apply change) = y ∧
          (((∃ name?, change = .activeProfile name?) ∨ ∃ ps, change = .profiles ps) →
            y.classes.caches = [])) ∧
        ∀ e, x.apply change = .error e → x.call (.apply change) = x ∧
          ∃ name, change = .activeProfile (some name) ∧ e = .unknownProfile name ∧
            ∀ p ∈ x.settings.profiles, p.name ≠ name := by
  intro x
  have h := configured_callAll (configured_ofSettings settings) calls
  refine ⟨h.words, h.caching, fun hoff => h.uncached (h.caching.symm.trans hoff), ?_⟩
  intro change
  constructor
  · intro refresh y happly
    exact ⟨by simp [call, happly], caches_apply happly⟩
  · intro e happly
    exact ⟨by simp [call, happly], apply_eq_error_iff.1 happly⟩

/-- A lexer that has come to know a class keeps it when it is to use a profile that is not there,
and forgets it when it is given other profiles. -/
theorem configured_run_known :
    let files : FileTree := { root := .directory [("foo.psc", .file .empty)] }
    let x := (ofSettings {
      activeProfile := some "scripts"
      words := PerRole.ofFn fun _ => some ""
      profiles := [⟨"scripts", ["/"]⟩] }).callAll
        [.restyle files (.ofText "foo" "Foo".toList) 0 0 .default]
    (x.classes.known "scripts").classes = ["foo"] ∧
      x.call (.apply (.activeProfile (some "games"))) = x ∧
      (x.call (.apply (.profiles []))).classes.caches = [] := by
  intro files x
  have hknown : (x.classes.known "scripts").classes = ["foo"] := by decide +kernel
  obtain ⟨-, -, -, happly⟩ := configured_run {
    activeProfile := some "scripts"
    words := PerRole.ofFn fun _ => some ""
    profiles := [⟨"scripts", ["/"]⟩] }
      [.restyle files (.ofText "foo" "Foo".toList) 0 0 .default]
  obtain ⟨hprofiles, hforgets⟩ := (happly (.profiles [])).1 .styles _ rfl
  refine ⟨hknown, ((happly (.activeProfile (some "games"))).2 _ rfl).1, ?_⟩
  rw [hprofiles]
  exact hforgets (Or.inr ⟨[], rfl⟩)

end Lexer

end Papyrus

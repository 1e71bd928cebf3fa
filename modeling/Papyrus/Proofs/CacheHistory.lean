import Papyrus.Document.Indicator
import Papyrus.Proofs.Inquiry
/-!
# What remembered answers stand for

Files come and go while a resolver is in use, so that what it remembers need not be so any more. It
is what was so when the files were last looked at: `History` keeps beside a resolver what the files
have told (`Probe`) since it last forgot all answers. A query looks at the files unless it is
answered from what is remembered (`Query.answered`), and the three queries rely on that to different
degrees.

Results:
* `ask_of_answered`: a query that is answered from memory does not depend on the files.
* `ask_of_not_answered`: any other query answers what the files tell, and that is remembered.
* `recorded_step`: what is remembered stays what the files told last.
* `recorded_run`: it is so in any history.
-/
namespace Papyrus

/-! ## What is remembered of one name -/

/-- Whether a name is remembered as a class, or as the name of none. -/
def KnownNames.Holds (known : KnownNames) (name : String) : Bool → Prop
  | true => name ∈ known.classes
  | false => name ∈ known.others

theorem KnownNames.holds_note {known : KnownNames} {name other : String} {found b : Bool} :
    (known.note name found).Holds other b ↔
      other = name ∧ found = b ∨ other ≠ name ∧ known.Holds other b := by
  cases b with
  | true => exact mem_classes_note
  | false => exact mem_others_note

theorem ClassResolver.known_remember_of_ne (r : ClassResolver) {profile other : String}
    (h : other ≠ profile) (name : String) (isClass : Bool) :
    (r.remember profile name isClass).known other = r.known other := by
  unfold remember
  split
  · rw [known, List.lookup_cons, beq_false_of_ne h]
    exact congrArg (·.getD {}) (lookup_filter_ne r.caches h)
  · rfl

/-! ## Queries -/

/-- The ways to ask a resolver for a name. -/
inductive Query where
  | isClass
  | locate
  | resolve
  deriving DecidableEq, Repr

namespace Query
variable {q : Query} {r : ClassResolver} {identifier : String} {profile : Profile}

/-- Asks for an identifier: whether it is found, and what is remembered then. -/
def ask (q : Query) (r : ClassResolver) (tree : FileTree) (identifier : String)
    (profile : Profile) : Bool × ClassResolver :=
  match q with
  | isClass => r.isClass tree identifier profile
  | locate => ((r.locate tree identifier profile).1.isSome, (r.locate tree identifier profile).2)
  | resolve => ((r.resolve tree identifier profile).1.isSome, (r.resolve tree identifier profile).2)

/-- Whether what is remembered of a name answers the query. -/
def answered (q : Query) (r : ClassResolver) (profile name : String) : Bool :=
  match q with
  | isClass =>
    r.caching &&
      ((r.known profile).classes.contains name || (r.known profile).others.contains name)
  | locate => r.caching && (r.known profile).others.contains name
  | resolve => false

/-- A query that is answered from memory has the same answer whatever the files are, and leaves all
as it was. -/
theorem ask_of_answered (h : q.answered r profile.name (foldName identifier) = true) :
    ∃ answer, ∀ tree, q.ask r tree identifier profile = (answer, r) := by
  cases q with
  | isClass =>
    obtain ⟨hcaching, hknown⟩ := Bool.and_eq_true_iff.1 h
    by_cases hclass : (r.known profile.name).classes.contains (foldName identifier) = true
    · refine ⟨true, fun tree => ?_⟩
      rw [ask, ClassResolver.isClass, hcaching, Bool.true_and, if_pos hclass]
    · have hother := (Bool.or_eq_true_iff.1 hknown).resolve_left hclass
      refine ⟨false, fun tree => ?_⟩
      rw [ask, ClassResolver.isClass, hcaching, Bool.true_and, Bool.true_and, if_neg hclass,
        if_pos hother]
  | locate =>
    refine ⟨false, fun tree => ?_⟩
    rw [answered] at h
    rw [ask, ClassResolver.locate, if_pos h]
    rfl
  | resolve => cases h

/-- Any other query answers whether the files have a script for the name, and that is remembered. -/
theorem ask_of_not_answered (h : q.answered r profile.name (foldName identifier) = false)
    (tree : FileTree) :
    let found := (profile.findScript tree (foldName identifier)).isSome
    q.ask r tree identifier profile =
      (found, r.remember profile.name (foldName identifier) found) := by
  cases q with
  | isClass =>
    have hclass : ¬ (r.caching &&
        (r.known profile.name).classes.contains (foldName identifier)) = true := by
      rw [answered] at h
      grind
    have hother : ¬ (r.caching &&
        (r.known profile.name).others.contains (foldName identifier)) = true := by
      rw [answered] at h
      grind
    -- the name is mapped to lower case once more
    rw [ask, ClassResolver.isClass, if_neg hclass, if_neg hother, ClassResolver.resolve,
      foldName_foldName]
  | locate =>
    rw [answered] at h
    rw [ask, ClassResolver.locate, if_neg (Bool.eq_false_iff.1 h), ClassResolver.resolve]
  | resolve => rw [ask, ClassResolver.resolve]

end Query

/-! ## Histories -/

/-- What the files have told: whether there was a script for a name under a profile. -/
structure Probe where
  profile : String
  name : String
  found : Bool
  deriving DecidableEq, Repr

/-- A resolver, and what the files have told since it last forgot all answers, the latest first. -/
structure History where
  resolver : ClassResolver
  probes : List Probe := []

namespace History

/-- What can be done with a resolver. -/
inductive Call where
  | ask (q : Query) (identifier : String) (profile : Profile)
  | setCaching (on : Bool)
  | clear

/-- What the files told last about a name under a profile. -/
def latest? (h : History) (profile name : String) : Option Bool :=
  (h.probes.find? fun p => p.profile == profile && p.name == name).map Probe.found

/-- A call, made while the files are as given. -/
def step (h : History) (tree : FileTree) : Call → History
  | .ask q identifier profile =>
    let name := foldName identifier
    { resolver := (q.ask h.resolver tree identifier profile).2
      probes :=
        if q.answered h.resolver profile.name name then h.probes
        else ⟨profile.name, name, (profile.findScript tree name).isSome⟩ :: h.probes }
  | .setCaching true => { h with resolver := h.resolver.setCaching true }
  | .setCaching false => { resolver := h.resolver.setCaching false }
  | .clear => { resolver := h.resolver.clear }

/-- Calls, each with the files as they are at the time. -/
def run (h : History) (calls : List (FileTree × Call)) : History :=
  calls.foldl (fun h c => h.step c.1 c.2) h

/-- What is remembered is what the files told last, and nothing is while caching is off. -/
structure Recorded (h : History) : Prop where
  uncached : h.resolver.caching = false → h.resolver.caches = []
  latest : ∀ profile name found, (h.resolver.known profile).Holds name found →
    h.latest? profile name = some found

variable {h : History}

/-- What has just been told of a name is the latest of it, and of no other. -/
theorem latest?_cons (probes : List Probe) (p : Probe) (r : ClassResolver) (profile name : String) :
    latest? ⟨r, p :: probes⟩ profile name =
      if p.profile = profile ∧ p.name = name then some p.found
      else latest? ⟨r, probes⟩ profile name := by
  rw [latest?, latest?, List.find?_cons]
  by_cases heq : p.profile = profile ∧ p.name = name
  · rw [if_pos heq, heq.1, heq.2, beq_self_eq_true, beq_self_eq_true]
    rfl
  · rw [if_neg heq]
    have hne : (p.profile == profile && p.name == name) = false := by
      simpa [Bool.eq_false_iff] using heq
    rw [hne]

theorem known_of_caches {r : ClassResolver} (hr : r.caches = []) (profile : String) :
    r.known profile = {} := by
  rw [ClassResolver.known, hr]
  rfl

/-- A resolver that remembers nothing remembers nothing wrong. -/
theorem recorded_of_caches {r : ClassResolver} (hr : r.caches = []) (probes : List Probe) :
    Recorded ⟨r, probes⟩ := by
  refine ⟨fun _ => hr, fun profile name found hholds => ?_⟩
  rw [known_of_caches hr] at hholds
  cases found <;> cases hholds

/-- An answer of the files that is remembered takes the place of an earlier one. -/
theorem Recorded.remember (hh : h.Recorded) (profile name : String) (found : Bool) :
    Recorded ⟨h.resolver.remember profile name found, ⟨profile, name, found⟩ :: h.probes⟩ := by
  obtain ⟨r, probes⟩ := h
  cases hcaching : r.caching with
  | false =>
    have hsame : r.remember profile name found = r := by simp [ClassResolver.remember, hcaching]
    dsimp only
    rw [hsame]
    exact recorded_of_caches (hh.uncached hcaching) _
  | true =>
    have hknown := r.known_remember profile name found
    rw [if_pos hcaching] at hknown
    refine ⟨fun hoff => ?_, fun other x b hholds => ?_⟩
    · rw [ClassResolver.caching_remember, hcaching] at hoff
      cases hoff
    · dsimp only at hholds
      rw [latest?_cons]
      dsimp only
      by_cases hprofile : profile = other
      · subst hprofile
        rw [hknown, KnownNames.holds_note] at hholds
        rcases hholds with ⟨rfl, rfl⟩ | ⟨hne, hholds⟩
        · exact if_pos ⟨rfl, rfl⟩
        · rw [if_neg fun heq => hne heq.2.symm]
          exact hh.latest profile x b hholds
      · rw [r.known_remember_of_ne (Ne.symm hprofile)] at hholds
        rw [if_neg fun heq => hprofile heq.1]
        exact hh.latest other x b hholds

/-- Whatever is done with a resolver, what it remembers stays what the files told last. -/
theorem recorded_step (hh : h.Recorded) (tree : FileTree) (c : Call) :
    (h.step tree c).Recorded := by
  cases c with
  | ask q identifier profile =>
    rw [step]
    by_cases hanswered : q.answered h.resolver profile.name (foldName identifier) = true
    · obtain ⟨answer, hask⟩ := Query.ask_of_answered hanswered
      rw [hask, if_pos hanswered]
      exact hh
    · rw [Query.ask_of_not_answered (Bool.eq_false_iff.2 hanswered), if_neg hanswered]
      exact hh.remember profile.name (foldName identifier) _
  | setCaching on =>
    cases on with
    | true => exact ⟨fun hoff => Bool.noConfusion hoff, hh.latest⟩
    | false => exact recorded_of_caches rfl []
  | clear => exact recorded_of_caches rfl []

theorem recorded_run (hh : h.Recorded) (calls : List (FileTree × Call)) :
    (h.run calls).Recorded := by
  induction calls generalizing h with
  | nil => exact hh
  | cons c calls ih => exact ih (recorded_step hh c.1 c.2)

/-- Whatever a new resolver is asked, and whatever files come and go meanwhile, no name is
remembered both as a class and as none, nothing is remembered while caching is off, and a name that
is remembered is so as the files told last, since all answers were forgotten. -/
theorem known_run (caching : Bool) (calls : List (FileTree × Call)) :
    let h := run ⟨{ caching := caching }, []⟩ calls
    (∀ profile name, ¬(name ∈ (h.resolver.known profile).classes ∧
        name ∈ (h.resolver.known profile).others)) ∧
      (h.resolver.caching = false → ∀ profile,
        (h.resolver.known profile).classes = [] ∧ (h.resolver.known profile).others = []) ∧
      (∀ profile, ∀ name ∈ (h.resolver.known profile).classes,
        h.latest? profile name = some true) ∧
      ∀ profile, ∀ name ∈ (h.resolver.known profile).others,
        h.latest? profile name = some false := by
  intro h
  have hh : h.Recorded := recorded_run (recorded_of_caches rfl []) calls
  refine ⟨fun profile name hboth => ?_, fun hoff profile => ?_,
    fun profile name hclass => hh.latest profile name true hclass,
    fun profile name hother => hh.latest profile name false hother⟩
  · have hclass := hh.latest profile name true hboth.1
    rw [hh.latest profile name false hboth.2] at hclass
    cases hclass
  · rw [known_of_caches (hh.uncached hoff)]
    exact ⟨rfl, rfl⟩

/-- The file of a class goes, which is remembered as a class until the files are looked at again,
and then as none. All is forgotten when caching is turned off. -/
theorem known_run_gone :
    let lib : Profile := ⟨"p", ["lib"]⟩
    let there : FileTree := ⟨.directory [("lib", .directory [("A.psc", .file .empty)])], []⟩
    let gone : FileTree := ⟨.directory [("lib", .directory [])], []⟩
    let calls : List (FileTree × Call) :=
      [(there, .ask .isClass "a" lib), (gone, .ask .isClass "A" lib)]
    let seen := run ⟨{ caching := true }, []⟩ calls
    let missed := run ⟨{ caching := true }, []⟩ (calls ++ [(gone, .ask .resolve "A" lib)])
    let off := run ⟨{ caching := true }, []⟩ (calls ++ [(gone, .setCaching false)])
    ("a" ∈ (seen.resolver.known "p").classes ∧ seen.latest? "p" "a" = some true) ∧
      ("a" ∈ (missed.resolver.known "p").others ∧ missed.latest? "p" "a" = some false) ∧
      off.resolver.caching = false ∧ (off.resolver.known "p").classes = [] := by
  intro lib there gone calls seen missed off
  have hseen : "a" ∈ (seen.resolver.known "p").classes := by decide +kernel
  have hmissed : "a" ∈ (missed.resolver.known "p").others := by decide +kernel
  have hoff : off.resolver.caching = false := by decide +kernel
  obtain ⟨-, -, hclasses, -⟩ := known_run true calls
  obtain ⟨-, -, -, hothers⟩ := known_run true (calls ++ [(gone, .ask .resolve "A" lib)])
  obtain ⟨-, hempty, -, -⟩ := known_run true (calls ++ [(gone, .setCaching false)])
  exact ⟨⟨hseen, hclasses "p" "a" hseen⟩, ⟨hmissed, hothers "p" "a" hmissed⟩, hoff,
    (hempty hoff "p").1⟩

end History

end Papyrus

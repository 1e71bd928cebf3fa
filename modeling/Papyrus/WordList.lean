import Papyrus.Text
import Papyrus.Unicode.LowerCase
/-!
# Word lists

Eight lists of words, each with a role, drive styling and folding. A list is written as words
between white space and compared in lower case. `WordLists.standard` holds the words of the
language.

Results:
* `PerRole.get_set`, `PerRole.ext_get`: a value per role is what `get` says of it.
-/
namespace Papyrus

/-- The role of a word list. -/
inductive WordRole where
  | operators
  | flowControl
  | types
  | keywords
  | keywordsAlt
  | foldOpen
  | foldMiddle
  | foldClose
  deriving DecidableEq, Repr

/-- All roles. -/
def WordRole.all : List WordRole :=
  [.operators, .flowControl, .types, .keywords, .keywordsAlt, .foldOpen, .foldMiddle, .foldClose]

/-- A set of words in lower case, each held once. -/
structure WordList where
  words : List String := []
  deriving DecidableEq, Repr, Inhabited

namespace WordList

/-- The set of the words of a text. -/
def ofString (s : String) : WordList :=
  ⟨((Text.words s.toList).map fun w => String.ofList (Unicode.lowerCase w)).eraseDups⟩

/-- Whether the word, already in lower case, is in the set. -/
def contains (l : WordList) (word : String) : Bool := l.words.contains word

def size (l : WordList) : Nat := l.words.length

def isEmpty (l : WordList) : Bool := l.words.isEmpty

end WordList

/-- One value for each role. -/
structure PerRole (α : Type) where
  operators : α
  flowControl : α
  types : α
  keywords : α
  keywordsAlt : α
  foldOpen : α
  foldMiddle : α
  foldClose : α
  deriving DecidableEq, Repr

namespace PerRole

variable {α : Type}

/-- The value of a role. -/
def get (m : PerRole α) : WordRole → α
  | .operators => m.operators
  | .flowControl => m.flowControl
  | .types => m.types
  | .keywords => m.keywords
  | .keywordsAlt => m.keywordsAlt
  | .foldOpen => m.foldOpen
  | .foldMiddle => m.foldMiddle
  | .foldClose => m.foldClose

/-- Replaces the value of a role. -/
def set (m : PerRole α) (role : WordRole) (a : α) : PerRole α :=
  match role with
  | .operators => { m with operators := a }
  | .flowControl => { m with flowControl := a }
  | .types => { m with types := a }
  | .keywords => { m with keywords := a }
  | .keywordsAlt => { m with keywordsAlt := a }
  | .foldOpen => { m with foldOpen := a }
  | .foldMiddle => { m with foldMiddle := a }
  | .foldClose => { m with foldClose := a }

/-- The values that a function of the role gives. -/
def ofFn (f : WordRole → α) : PerRole α where
  operators := f .operators
  flowControl := f .flowControl
  types := f .types
  keywords := f .keywords
  keywordsAlt := f .keywordsAlt
  foldOpen := f .foldOpen
  foldMiddle := f .foldMiddle
  foldClose := f .foldClose

@[simp] theorem get_ofFn (f : WordRole → α) (role : WordRole) : (ofFn f).get role = f role := by
  cases role <;> rfl

theorem get_set (m : PerRole α) (role other : WordRole) (a : α) :
    (m.set role a).get other = if other = role then a else m.get other := by
  cases role <;> cases other <;> rfl

@[ext] theorem ext_get {m n : PerRole α} (h : ∀ role, m.get role = n.get role) : m = n := by
  have h₁ := h .operators; have h₂ := h .flowControl; have h₃ := h .types
  have h₄ := h .keywords; have h₅ := h .keywordsAlt; have h₆ := h .foldOpen
  have h₇ := h .foldMiddle; have h₈ := h .foldClose
  cases m; cases n
  simp_all [get]

end PerRole

/-- One word list for each role. -/
abbrev WordLists := PerRole WordList

/-! ## The words of the language -/

/-- The words of a role, as they are written when nothing else is configured. A native function has
no body, so `native` closes the fold that its `Function` opens. -/
def WordRole.standardWords : WordRole → String
  | .operators => "+ - * / % = < > ! & | ^ ( ) [ ] , . as is new"
  | .flowControl => "if elseif else endif while endwhile return"
  | .types => "bool float int string var"
  | .keywords =>
    "auto autoreadonly betaonly collapsed collapsedonbase collapsedonref conditional const " ++
    "customevent debugonly default endevent endfunction endgroup endproperty endstate endstruct " ++
    "event extends false function global group hidden import mandatory native none parent " ++
    "property scriptevent scriptname self state struct true"
  | .keywordsAlt => "length getstate gotostate onbeginstate onendstate oninit"
  | .foldOpen => "if while function event state struct group"
  | .foldMiddle => "else elseif"
  | .foldClose => "endif endwhile endfunction endevent endstate endstruct endgroup native"

/-- The word lists used when nothing else is configured. -/
def WordLists.standard : WordLists := PerRole.ofFn fun role => WordList.ofString role.standardWords

end Papyrus

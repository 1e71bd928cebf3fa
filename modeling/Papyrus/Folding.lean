import Papyrus.Style
import Papyrus.Token
import Papyrus.WordList
/-!
# Fold levels

The fold level of a line counts the blocks that are open around it. Words of three roles move it: a
line goes up by its opening words and down by its closing words, and a lone middle word, if asked
for, makes its line a header one level further out. Words in comments and strings do not count.

Results:
* `next_foldLine`: the level left by a line is the level before it plus opens less closes.
-/
namespace Papyrus

/-- The fold level of one line. -/
structure FoldLevel where
  /-- The level of the line itself. -/
  level : Int
  /-- The level at which the next line starts. -/
  next : Int
  /-- Whether the line starts a block that can be folded. -/
  header : Bool
  deriving DecidableEq, Repr

namespace FoldLevel

/-- The level outside all blocks. -/
def base : Int := 0x400

instance : Inhabited FoldLevel := ⟨⟨base, base, false⟩⟩

end FoldLevel

/-- How many tokens that are code stand in the list of a role. -/
def WordLists.count (words : WordLists) (role : WordRole) (tokens : List (Token × Style)) : Nat :=
  tokens.countP fun (t, s) => !s.isInert && (words.get role).contains t.content

/-- The fold level of a line that starts at level `previous`. Each token comes with its style; with
`foldMiddle`, a line with one middle word and no other is a header. -/
def foldLine (words : WordLists) (foldMiddle : Bool) (previous : Int)
    (tokens : List (Token × Style)) : FoldLevel :=
  let opens := words.count .foldOpen tokens
  let closes := words.count .foldClose tokens
  let next := previous + opens - closes
  if foldMiddle && words.count .foldMiddle tokens == 1 && opens == 0 && closes == 0 then
    ⟨previous - 1, next, true⟩
  else ⟨previous, next, opens > closes⟩

theorem next_foldLine (words : WordLists) (foldMiddle : Bool) (previous : Int)
    (tokens : List (Token × Style)) :
    (foldLine words foldMiddle previous tokens).next =
      previous + words.count .foldOpen tokens - words.count .foldClose tokens := by
  unfold foldLine; dsimp only; split <;> rfl

end Papyrus

import Papyrus.Span
import Papyrus.Style
/-!
# Block keywords

Blocks open and close with keywords. Declarations do not nest, and some have several words for an
end. `If` and `While` blocks nest; between the ends of an `If` block stand its branch words.

Results:
* `Construct.ofWord?_far`: a flow block seen from one of its ends has the other one as counterpart.
-/
namespace Papyrus

/-- The words that open and close a declaration. -/
structure DeclarationBlock where
  openers : List String
  closers : List String
  deriving DecidableEq, Repr

/-- The declarations of the language. A native function and an automatic property end on the line on
which they start. -/
def DeclarationBlock.all : List DeclarationBlock := [
  ⟨["function"], ["endfunction", "native"]⟩,
  ⟨["struct"], ["endstruct"]⟩,
  ⟨["property"], ["endproperty", "auto", "autoreadonly"]⟩,
  ⟨["group"], ["endgroup"]⟩,
  ⟨["state"], ["endstate"]⟩,
  ⟨["event"], ["endevent"]⟩]

/-- The words of a block that nests. -/
structure FlowBlock where
  opener : String
  closer : String
  /-- The words between the ends that belong to the block. -/
  branches : List String
  deriving DecidableEq, Repr

namespace FlowBlock

def ifBlock : FlowBlock := ⟨"if", "endif", ["else", "elseif"]⟩

def whileBlock : FlowBlock := ⟨"while", "endwhile", []⟩

def all : List FlowBlock := [ifBlock, whileBlock]

/-- The word at the end where a search in the given direction starts. -/
def near (b : FlowBlock) : Direction → String
  | .forward => b.opener
  | .backward => b.closer

/-- The word at the other end. -/
def far (b : FlowBlock) : Direction → String
  | .forward => b.closer
  | .backward => b.opener

end FlowBlock

/-- What a block keyword asks for. -/
inductive Construct where
  /-- The nearest of the counterparts. -/
  | declaration (counterparts : List String) (direction : Direction)
  /-- The other end of a block that nests. -/
  | flow (block : FlowBlock) (direction : Direction)
  /-- Both ends of the `If` block around a branch word. -/
  | branch
  deriving DecidableEq, Repr

namespace Construct

/-- What a word in lower case asks for, if it is a block keyword. -/
def ofWord? (word : String) : Option Construct :=
  (DeclarationBlock.all.findSome? fun b =>
    if b.openers.contains word then some (declaration b.closers .forward)
    else if b.closers.contains word then some (declaration b.openers .backward)
    else none) <|>
  (FlowBlock.all.findSome? fun b =>
    if word == b.opener then some (flow b .forward)
    else if word == b.closer then some (flow b .backward)
    else none) <|>
  (if FlowBlock.ifBlock.branches.contains word then some branch else none)

/-- The style that a keyword of this kind has in code. -/
def style : Construct → Style
  | declaration _ _ => .keyword
  | flow _ _ | branch => .flowControl

theorem ofWord?_far (b : FlowBlock) (hb : b ∈ FlowBlock.all) (direction : Direction) :
    ofWord? (b.near direction) = some (flow b direction) := by
  simp only [FlowBlock.all, List.mem_cons, List.not_mem_nil, or_false] at hb
  rcases hb with rfl | rfl <;> cases direction <;> decide

end Construct

end Papyrus

import Papyrus.Block.Match
/-!
# Matching by search

An editor has no list of the places of a word. It meets the keywords of a block one by one: each
search sets up the search register, which then moves to what was found, and a keyword that has
another style than code is passed over by a search from behind it. `matchBySearch` matches a keyword
in this way and puts the register back at the end.

Results:
* `sameButSearch_findStyled`, `sameButSearch_collectStyled`: a search changes nothing but the
  register.
* `findStyled_room`: past a keyword that was found less of the document lies ahead.
-/
namespace Papyrus

/-- The end to which a document of the given size is searched. -/
def Direction.edge : Direction → Nat → Nat
  | forward, size => size
  | backward, _ => 0

namespace Document

/-- The second document differs from the first at most in its search register. -/
def SameButSearch (d d' : Document) : Prop := ∃ r, d' = { d with search := r }

theorem SameButSearch.trans {d₁ d₂ d₃ : Document} (h : d₁.SameButSearch d₂)
    (h' : d₂.SameButSearch d₃) : d₁.SameButSearch d₃ := by
  obtain ⟨_, rfl⟩ := h
  obtain ⟨r, rfl⟩ := h'
  exact ⟨r, rfl⟩

theorem SameButSearch.size {d d' : Document} (h : d.SameButSearch d') : d'.size = d.size := by
  obtain ⟨_, rfl⟩ := h
  rfl

theorem SameButSearch.styleAt {d d' : Document} (h : d.SameButSearch d') :
    d'.styleAt = d.styleAt := by
  obtain ⟨_, rfl⟩ := h
  rfl

/-- Searches from `start` to `stop` for a word as a whole, in any letter case. -/
def seek (d : Document) (word : String) (start stop : Nat) : Option Span × Document :=
  { d with search := ⟨start, stop, true, false⟩ }.searchTarget word.toList

section
variable {d d' : Document} {word : String} {start stop : Nat} {found : Option Span} {s : Span}

theorem sameButSearch_seek (h : d.seek word start stop = (found, d')) : d.SameButSearch d' := by
  rw [seek, searchTarget] at h
  split at h
  · exact ⟨_, (congrArg Prod.snd h).symm⟩
  · exact ⟨_, (congrArg Prod.snd h).symm⟩

/-- What is found is a hit of the search. -/
theorem mem_hits_of_seek (h : d.seek word start stop = (some s, d')) :
    s ∈ d.hits word.toList true false (min start stop) (max start stop) := by
  rw [seek, searchTarget] at h
  split at h
  · cases h
  · next hit =>
    obtain rfl := Option.some.inj (congrArg Prod.fst h)
    split at hit
    · exact List.mem_of_head? hit
    · exact List.mem_of_getLast? hit

/-- Past what a search to the end of the document has found, less of the document lies ahead. -/
theorem seek_room {direction : Direction} {offset : Nat}
    (h : d.seek word offset (direction.edge d.size) = (some s, d')) :
    direction.room d.size (direction.past s) < direction.room d.size offset := by
  obtain ⟨hlo, hlt, hhi, hsize⟩ := mem_hits (mem_hits_of_seek h)
  cases direction with
  | forward =>
    rw [Direction.edge] at hlo
    simp only [Direction.room, Direction.past]
    omega
  | backward =>
    rw [Direction.edge] at hhi
    simp only [Direction.room, Direction.past]
    omega

end

/-! ## Finding keywords -/

/-- The first occurrence of a word, on the way from an offset to the end of the document, that has
the given style. -/
def findStyled (d : Document) (word : String) (style : Style) (direction : Direction)
    (offset : Nat) : Option Span × Document :=
  match hseek : d.seek word offset (direction.edge d.size) with
  | (none, d) => (none, d)
  | (some hit, d') =>
    have hstep : direction.room d'.size (direction.past hit) < direction.room d.size offset := by
      rw [(sameButSearch_seek hseek).size]
      exact seek_room hseek
    if d'.styleAt hit.start == style then (some hit, d')
    else if direction.past hit == offset then (none, d')
    else d'.findStyled word style direction (direction.past hit)
termination_by direction.room d.size offset

/-- The occurrences of a word from `start` up to `stop` that have the style of flow control. -/
def collectWord (d : Document) (word : String) (start stop : Nat) : List Span × Document :=
  if start < stop then
    match d.seek word start stop with
    | (none, d) => ([], d)
    | (some hit, d) =>
      let (rest, d') := d.collectWord word (max hit.stop (start + 1)) stop
      (if d.styleAt hit.start == .flowControl then hit :: rest else rest, d')
  else ([], d)
termination_by stop - start

/-- The occurrences of some words, one word after the other. -/
def collectWords (d : Document) (words : List String) (range : Span) : List Span × Document :=
  match words with
  | [] => ([], d)
  | word :: words =>
    let (hits, d) := d.collectWord word range.start range.stop
    let (rest, d) := d.collectWords words range
    (hits ++ rest, d)

/-- The occurrences of some words in a range, in document order. -/
def collectStyled (d : Document) (words : List String) (range : Span) : List Span × Document :=
  let (hits, d) := d.collectWords words range
  (Span.sort hits, d)

theorem sameButSearch_findStyled {d d' : Document} {word : String} {style : Style}
    {direction : Direction} {offset : Nat} {found : Option Span}
    (h : d.findStyled word style direction offset = (found, d')) : d.SameButSearch d' := by
  induction hroom : direction.room d.size offset using Nat.strongRecOn generalizing d offset with
  | ind room ih =>
    subst hroom
    rw [findStyled] at h
    split at h
    · next hseek =>
      obtain ⟨-, rfl⟩ := Prod.mk.inj h
      exact sameButSearch_seek hseek
    · next hit e hseek =>
      have hsame := sameButSearch_seek hseek
      split at h
      · obtain ⟨-, rfl⟩ := Prod.mk.inj h
        exact hsame
      split at h
      · obtain ⟨-, rfl⟩ := Prod.mk.inj h
        exact hsame
      · have hstep := seek_room hseek
        rw [← hsame.size] at hstep
        exact hsame.trans (ih _ (hsame.size ▸ hstep) h rfl)

/-- Past a keyword that was found less of the document lies ahead. -/
theorem findStyled_room {d d' : Document} {word : String} {style : Style}
    {direction : Direction} {offset : Nat} {s : Span}
    (h : d.findStyled word style direction offset = (some s, d')) :
    direction.room d.size (direction.past s) < direction.room d.size offset := by
  induction hroom : direction.room d.size offset using Nat.strongRecOn generalizing d offset with
  | ind room ih =>
    subst hroom
    rw [findStyled] at h
    split at h
    · cases h
    · next hit e hseek =>
      have hstep := seek_room hseek
      split at h
      · obtain rfl := Option.some.inj (congrArg Prod.fst h)
        exact hstep
      split at h
      · cases h
      · have hsize := (sameButSearch_seek hseek).size
        have hless := ih _ (hsize ▸ hstep) h rfl
        rw [hsize] at hless
        exact Nat.lt_trans hless hstep

theorem sameButSearch_collectWord {d d' : Document} {word : String} {start stop : Nat}
    {hits : List Span} (h : d.collectWord word start stop = (hits, d')) : d.SameButSearch d' := by
  induction hroom : stop - start using Nat.strongRecOn generalizing d start hits with
  | ind room ih =>
    subst hroom
    rw [collectWord] at h
    split at h
    · next hlt =>
      split at h
      · next hseek =>
        obtain ⟨-, rfl⟩ := Prod.mk.inj h
        exact sameButSearch_seek hseek
      · next hit e hseek =>
        obtain ⟨-, rfl⟩ := Prod.mk.inj h
        exact (sameButSearch_seek hseek).trans (ih _ (by omega) rfl rfl)
    · obtain ⟨-, rfl⟩ := Prod.mk.inj h
      exact ⟨d.search, rfl⟩

theorem sameButSearch_collectWords {d d' : Document} {words : List String} {range : Span}
    {hits : List Span} (h : d.collectWords words range = (hits, d')) : d.SameButSearch d' := by
  induction words generalizing d hits with
  | nil =>
    obtain ⟨-, rfl⟩ := Prod.mk.inj h
    exact ⟨d.search, rfl⟩
  | cons word words ih =>
    obtain ⟨-, rfl⟩ := Prod.mk.inj h
    exact (sameButSearch_collectWord rfl).trans (ih rfl)

theorem sameButSearch_collectStyled {d d' : Document} {words : List String} {range : Span}
    {hits : List Span} (h : d.collectStyled words range = (hits, d')) : d.SameButSearch d' := by
  obtain ⟨-, rfl⟩ := Prod.mk.inj h
  exact sameButSearch_collectWords rfl

/-! ## The end of a block -/

/-- What a search from an offset for the end of a block answers. -/
structure BlockSearch (d : Document) (direction : Direction) (offset : Nat) where
  /-- The keyword at the end, and the branch words of the block. -/
  found : Option (Span × List Span)
  after : Document
  same : d.SameButSearch after
  /-- Past the end less of the document lies ahead. -/
  room : ∀ last branches, found = some (last, branches) →
    direction.room d.size (direction.past last) < direction.room d.size offset

/-- Searches from an offset in a block between two keywords for the end of the block. `branches` are
the words whose occurrences outside nested blocks are collected, and `collected` those that were met
before. -/
def resolveBlock (d : Document) (near far : String) (branches : List String)
    (direction : Direction) (offset : Nat) (collected : List Span) :
    d.BlockSearch direction offset :=
  match hlast : d.findStyled far .flowControl direction offset with
  | (none, d₁) => ⟨none, d₁, sameButSearch_findStyled hlast, fun _ _ h => nomatch h⟩
  | (some last, d₁) =>
    have h₁ := sameButSearch_findStyled hlast
    match hnested : d₁.findStyled near .flowControl direction offset with
    | (found, d₂) =>
      have h₂ := h₁.trans (sameButSearch_findStyled hnested)
      match hbefore : found.filter (direction.precedes · last) with
      | none =>
        match hgap : d₂.collectStyled branches (direction.between offset last) with
        | (words, d₃) =>
          ⟨some (last, Span.sort (collected ++ words)), d₃,
            h₂.trans (sameButSearch_collectStyled hgap), fun _ _ h => by
              obtain ⟨rfl, -⟩ := Prod.mk.inj (Option.some.inj h)
              exact findStyled_room hlast⟩
      | some nested =>
        match hgap : d₂.collectStyled branches (direction.between offset nested) with
        | (words, d₃) =>
          have h₃ := h₂.trans (sameButSearch_collectStyled hgap)
          have hstep : direction.room d.size (direction.past nested) <
              direction.room d.size offset := by
            obtain rfl := (Option.filter_eq_some_iff.1 hbefore).1
            rw [← h₁.size]
            exact findStyled_room hnested
          match d₃.resolveBlock near far [] direction (direction.past nested) [] with
          | ⟨none, d₄, h₄, _⟩ => ⟨none, d₄, h₃.trans h₄, fun _ _ h => nomatch h⟩
          | ⟨some (inner, _), d₄, h₄, hinner⟩ =>
            have hless : direction.room d₄.size (direction.past inner) <
                direction.room d.size offset := by
              have hroom := hinner inner _ rfl
              rw [h₃.size] at hroom
              rw [h₄.size, h₃.size]
              exact Nat.lt_trans hroom hstep
            match d₄.resolveBlock near far branches direction (direction.past inner)
                (collected ++ words) with
            | ⟨r, d₅, h₅, hrest⟩ => ⟨r, d₅, h₃.trans (h₄.trans h₅), fun last rest h => by
                have hroom := hrest last rest h
                rw [(h₃.trans h₄).size] at hroom hless
                exact Nat.lt_trans hroom hless⟩
termination_by direction.room d.size offset
decreasing_by
  · rw [h₃.size]
    exact hstep
  · exact hless

/-- Searches from an offset in a flow block for the end of the block. -/
def searchBlock (d : Document) (block : FlowBlock) (direction : Direction) (offset : Nat) :
    d.BlockSearch direction offset :=
  d.resolveBlock (block.near direction) (block.far direction) block.branches direction offset []

/-! ## Matching -/

/-- What is found first of each of some words. -/
def findEach (d : Document) (words : List String) (style : Style) (direction : Direction)
    (offset : Nat) : List Span × Document :=
  match words with
  | [] => ([], d)
  | word :: words =>
    let (found, d) := d.findStyled word style direction offset
    let (rest, d) := d.findEach words style direction offset
    (found.toList ++ rest, d)

/-- The match of a declaration keyword. -/
def searchDeclaration (d : Document) (word : Span) (counterparts : List String)
    (direction : Direction) : BlockMatch × Document :=
  let (ends, d) := d.findEach counterparts .keyword direction (direction.past word)
  match direction.first? ends with
  | none => ({ keyword := some word }, d)
  | some s => ({ found := true, keyword := some word, counterparts := [s] }, d)

/-- The match of a keyword at an end of a flow block. -/
def searchFlow (d : Document) (word : Span) (block : FlowBlock) (direction : Direction) :
    BlockMatch × Document :=
  let r := d.searchBlock block direction (direction.past word)
  match r.found with
  | none => ({ keyword := some word }, r.after)
  | some (last, branches) =>
    ({ found := true
       keyword := some word
       counterparts := [last]
       auxiliary := branches }, r.after)

/-- The match of a branch word. An end that is found is reported even if the other one is not. -/
def searchBranch (d : Document) (word : Span) : BlockMatch × Document :=
  let up := d.searchBlock .ifBlock .backward word.start
  let down := up.after.searchBlock .ifBlock .forward word.stop
  let ends := up.found.toList ++ down.found.toList
  ({ found := up.found.isSome && down.found.isSome
     keyword := some word
     counterparts := Span.sort (ends.map (·.1))
     auxiliary := Span.sort (ends.flatMap (·.2)) }, down.after)

/-- The match of the block keyword at an offset. -/
def searchKeyword (d : Document) (caret : Nat) : BlockMatch × Document :=
  let word := d.wordAt caret
  if word.isEmpty then ({}, d)
  else
    match Construct.ofWord? (foldName (String.ofList (d.read word.start word.stop))) with
    | none => ({}, d)
    | some construct =>
      if d.styleAt word.start != construct.style then ({}, d)
      else
        match construct with
        | .declaration counterparts direction => d.searchDeclaration word counterparts direction
        | .flow block direction => d.searchFlow word block direction
        | .branch => d.searchBranch word

/-- The match of the block keyword at an offset. The register is put back to what it was. -/
def matchBySearch (d : Document) (caret : Nat) : BlockMatch × Document :=
  d.keepingSearch (·.searchKeyword caret)

end Document

end Papyrus

import Papyrus.Proofs.Landmark
/-!
# Block matching as a count of depth

`BlockWay.find?` goes from the nearest keyword ahead to the next and starts anew at each block that
it meets. Here the same block is read in one pass over its landmarks (`Landmark.scan`): the depth
goes up at a near keyword and down at a far one, and the far keyword that is met at depth 0 ends the
block. Branch words belong to the block if they are met at depth 0.

Results:
* `way?_eq`: one step of the search for the end of a block.
* `scan_ahead`: a block that the search passes over takes the scan to the same depth behind it.
* `matchKeyword_eq_depthScan`: matching a keyword of an `If` or `While` block is that scan.
-/
namespace Papyrus

/-! ## The scan -/

/-- The keyword that ends a block and the branch words of the block, in the order in which they are
met; nothing if the landmarks run out. `depth` blocks are open that began on the way. -/
def Landmark.scan : Nat → List Landmark → Option (Span × List Span)
  | _, [] => none
  | depth, ⟨_, .near⟩ :: rest => scan (depth + 1) rest
  | 0, ⟨s, .far⟩ :: _ => some (s, [])
  | depth + 1, ⟨_, .far⟩ :: rest => scan depth rest
  | 0, ⟨s, .branch⟩ :: rest => (scan 0 rest).map fun (last, branches) => (last, s :: branches)
  | depth + 1, ⟨_, .branch⟩ :: rest => scan (depth + 1) rest

/-- The end of a block and its branch words, by one scan from an offset in the block. -/
def Document.depthScan (d : Document) (block : FlowBlock) (direction : Direction) (offset : Nat) :
    Option (Span × List Span) :=
  Landmark.scan 0 (direction.ahead offset (d.landmarks block direction))

/-! ## One step of the search -/

/-- The way that the search finds. -/
def BlockWay.way? {size : Nat} (near far : Marks size) (direction : Direction) (offset : Nat) :
    Option BlockWay :=
  (BlockWay.find? near far direction offset).map (·.val)

theorem BlockWay.way?_eq {size : Nat} (near far : Marks size) (direction : Direction)
    (offset : Nat) :
    way? near far direction offset =
      (far.nearest? direction offset).bind fun last =>
        match (near.nearest? direction offset).filter (direction.precedes · last) with
        | none => some ⟨last, [direction.between offset last]⟩
        | some nested =>
          (way? near far direction (direction.past nested)).bind fun inner =>
            (way? near far direction (direction.past inner.last)).map fun rest =>
              ⟨rest.last, direction.between offset nested :: rest.gaps⟩ := by
  rw [way?, find?]
  split
  · next hlast => rw [hlast]; rfl
  · next last hlast =>
    simp only [hlast, Option.bind_some]
    split
    · next hnested => simp [hnested]
    · next nested hnested =>
      simp only [hnested]
      split
      · next hinner => simp [way?, hinner]
      · next inner hin hinner =>
        simp only [way?, hinner, Option.map_some, Option.bind_some]
        split
        · next hrest => simp [hrest]
        · next rest hr hrest => simp [hrest]

theorem BlockWay.way?_room {size : Nat} {near far : Marks size} {direction : Direction}
    {offset : Nat} {way : BlockWay} (h : way? near far direction offset = some way) :
    direction.room size (direction.past way.last) < direction.room size offset := by
  obtain ⟨w, -, rfl⟩ := Option.map_eq_some_iff.1 h
  exact w.2

theorem Direction.precedes_asymm {direction : Direction} {a b : Span}
    (h : direction.precedes a b = true) : direction.precedes b a = false := by
  cases direction with
  | forward => exact decide_eq_false (Nat.lt_asymm (of_decide_eq_true h))
  | backward => exact decide_eq_false (Nat.lt_asymm (of_decide_eq_true h))

/-! ## The search is the scan -/

namespace Landmark

theorem scan_eq_none {l : List Landmark} (h : ∀ m ∈ l, m.role ≠ .far) (depth : Nat) :
    scan depth l = none := by
  induction l generalizing depth with
  | nil => cases depth <;> rfl
  | cons m l ih =>
    have ih := ih fun m hm => h m (List.mem_cons_of_mem _ hm)
    obtain ⟨s, role⟩ := m
    cases role with
    | near => exact ih (depth + 1)
    | far => exact absurd rfl (h _ List.mem_cons_self)
    | branch =>
      cases depth with
      | zero => rw [scan, ih]; rfl
      | succ depth => exact ih (depth + 1)

theorem scan_branches_zero {l : List Landmark} (h : ∀ m ∈ l, m.role = .branch)
    (rest : List Landmark) :
    scan 0 (l ++ rest) =
      (scan 0 rest).map fun (last, branches) => (last, l.map (·.toSpan) ++ branches) := by
  induction l with
  | nil => simp
  | cons m l ih =>
    obtain ⟨s, role⟩ := m
    obtain rfl : role = .branch := h _ List.mem_cons_self
    rw [List.cons_append, scan, ih fun m hm => h m (List.mem_cons_of_mem _ hm), Option.map_map]
    rfl

theorem scan_branches_succ {l : List Landmark} (h : ∀ m ∈ l, m.role = .branch) (depth : Nat)
    (rest : List Landmark) : scan (depth + 1) (l ++ rest) = scan (depth + 1) rest := by
  induction l with
  | nil => rfl
  | cons m l ih =>
    obtain ⟨s, role⟩ := m
    obtain rfl : role = .branch := h _ List.mem_cons_self
    rw [List.cons_append, scan, ih fun m hm => h m (List.mem_cons_of_mem _ hm)]

section
variable {m : Landmark}

theorem scan_near (h : m.role = .near) (depth : Nat) (rest : List Landmark) :
    scan depth (m :: rest) = scan (depth + 1) rest := by
  obtain ⟨s, role⟩ := m
  obtain rfl : role = .near := h
  rw [scan]

theorem scan_far_zero (h : m.role = .far) (rest : List Landmark) :
    scan 0 (m :: rest) = some (m.toSpan, []) := by
  obtain ⟨s, role⟩ := m
  obtain rfl : role = .far := h
  rw [scan]

theorem scan_far_succ (h : m.role = .far) (depth : Nat) (rest : List Landmark) :
    scan (depth + 1) (m :: rest) = scan depth rest := by
  obtain ⟨s, role⟩ := m
  obtain rfl : role = .far := h
  rw [scan]

end

/-- The marks of the two ends of a block are landmarks. -/
structure Marked {size : Nat} (near far : Marks size) (direction : Direction) (l : List Landmark) :
    Prop where
  apart : Apart l
  nearest_near : ∀ offset, near.nearest? direction offset = first? l direction .near offset
  nearest_far : ∀ offset, far.nearest? direction offset = first? l direction .far offset

section
variable {size : Nat} {near far : Marks size} {direction : Direction} {l : List Landmark}
  {offset : Nat} {pre post : List Landmark} {m : Landmark}

theorem way?_of_no_far (h : Marked near far direction l)
    (hall : ∀ m ∈ direction.ahead offset l, m.role ≠ .far) :
    BlockWay.way? near far direction offset = none := by
  have hnone : (direction.ahead offset l).find? (·.role == .far) = none := by
    rw [List.find?_eq_none]
    exact fun m hm => by simpa using hall m hm
  rw [BlockWay.way?_eq, h.nearest_far, first?, hnone]
  rfl

/-- The end of the block is met before what opens another one. -/
theorem way?_of_far_first (h : Marked near far direction l)
    (he : direction.ahead offset l = pre ++ m :: post) (hpre : ∀ x ∈ pre, x.role = .branch)
    (hrole : m.role = .far) :
    BlockWay.way? near far direction offset =
      some ⟨m.toSpan, [direction.between offset m.toSpan]⟩ := by
  have hfar : (m :: post).find? (·.role == .far) = some m :=
    List.find?_cons_of_pos (by simp [hrole])
  have hnear : (((m :: post).find? (·.role == .near)).map (·.toSpan)).filter
      (direction.precedes · m.toSpan) = none := by
    rw [List.find?_cons_of_neg (by simp [hrole]), Option.filter_eq_none_iff]
    intro s hs
    obtain ⟨x, hx, rfl⟩ := Option.map_eq_some_iff.1 hs
    rw [Direction.precedes_asymm (h.apart.precedes he (List.mem_of_find?_eq_some hx))]
    exact Bool.false_ne_true
  rw [BlockWay.way?_eq, h.nearest_far, h.nearest_near, first?, first?, he,
    find?_branches hpre (by decide), find?_branches hpre (by decide), hfar, Option.map_some,
    Option.bind_some, hnear]

/-- Another block is met first; the search goes through it and on behind it. -/
theorem way?_of_near_first (h : Marked near far direction l)
    (he : direction.ahead offset l = pre ++ m :: post) (hpre : ∀ x ∈ pre, x.role = .branch)
    (hrole : m.role = .near) :
    BlockWay.way? near far direction offset =
      (BlockWay.way? near far direction (direction.past m.toSpan)).bind fun inner =>
        (BlockWay.way? near far direction (direction.past inner.last)).map fun rest =>
          ⟨rest.last, direction.between offset m.toSpan :: rest.gaps⟩ := by
  obtain ⟨hpost, -⟩ := h.apart.ahead_split he
  have hnear : (m :: post).find? (·.role == .near) = some m :=
    List.find?_cons_of_pos (by simp [hrole])
  rw [BlockWay.way?_eq near far direction offset, h.nearest_far, h.nearest_near, first?, first?,
    he, find?_branches hpre (by decide), find?_branches hpre (by decide), hnear,
    List.find?_cons_of_neg (by simp [hrole])]
  cases hlast : post.find? (·.role == .far) with
  | none =>
    have hall : ∀ x ∈ direction.ahead (direction.past m.toSpan) l, x.role ≠ .far := by
      rw [hpost]
      exact fun x hx => by simpa using List.find?_eq_none.1 hlast x hx
    rw [way?_of_no_far h hall]
    rfl
  | some last =>
    have hbefore : (some m.toSpan).filter (direction.precedes · last.toSpan) = some m.toSpan :=
      if_pos (h.apart.precedes he (List.mem_of_find?_eq_some hlast))
    rw [Option.map_some, Option.map_some, Option.bind_some, hbefore]

theorem room_past_near (h : Marked near far direction l)
    (he : direction.ahead offset l = pre ++ m :: post) (hpre : ∀ x ∈ pre, x.role = .branch)
    (hrole : m.role = .near) :
    direction.room size (direction.past m.toSpan) < direction.room size offset := by
  refine Marks.nearest?_room (m := near) ?_
  rw [h.nearest_near, first?, he, find?_branches hpre (by decide),
    List.find?_cons_of_pos (by simp [hrole]), Option.map_some]

/-- A way from an offset takes a scan from any depth to one less, behind its end; at depth 0 the
scan ends there, with the branch words of the way. -/
def Follows (l : List Landmark) (direction : Direction) (offset : Nat) (way : BlockWay) : Prop :=
  (∀ depth, scan (depth + 1) (direction.ahead offset l) =
    scan depth (direction.ahead (direction.past way.last) l)) ∧
  scan 0 (direction.ahead offset l) =
    some (way.last, way.gaps.flatMap (branchesIn l direction))

/-- Where the search finds a way, the scan follows it; where it finds none, the scan runs out at
every depth. -/
theorem scan_ahead (h : Marked near far direction l) (offset : Nat) :
    match BlockWay.way? near far direction offset with
    | none => ∀ depth, scan depth (direction.ahead offset l) = none
    | some way => Follows l direction offset way := by
  induction hroom : direction.room size offset using Nat.strongRecOn generalizing offset with
  | ind room ih =>
    subst hroom
    rcases branches_or_split (direction.ahead offset l) with hall | ⟨pre, m, post, he, hpre, hm⟩
    · have hfar : ∀ m ∈ direction.ahead offset l, m.role ≠ .far := fun m hm => by
        rw [hall m hm]
        decide
      rw [way?_of_no_far h hfar]
      exact scan_eq_none hfar
    · obtain ⟨hpost, -⟩ := h.apart.ahead_split he
      have hgap := branchesIn_of_split h.apart he hpre
      cases hrole : m.role with
      | branch => exact absurd hrole hm
      | far =>
        rw [way?_of_far_first h he hpre hrole]
        constructor
        · intro depth
          rw [he, scan_branches_succ hpre, hpost, scan_far_succ hrole]
        · rw [he, scan_branches_zero hpre, List.flatMap_singleton, hgap, scan_far_zero hrole]
          simp
      | near =>
        have hzero : scan 0 (direction.ahead offset l) = (scan 1 post).map
            fun (last, branches) => (last, pre.map (·.toSpan) ++ branches) := by
          rw [he, scan_branches_zero hpre, scan_near hrole]
        have hsucc : ∀ depth, scan (depth + 1) (direction.ahead offset l) =
            scan (depth + 2) post := by
          intro depth
          rw [he, scan_branches_succ hpre, scan_near hrole]
        have hrunsOut : (∀ depth, scan (depth + 1) post = none) →
            ∀ depth, scan depth (direction.ahead offset l) = none := by
          intro hnone depth
          cases depth with
          | zero => rw [hzero, hnone]; rfl
          | succ depth => rw [hsucc, hnone]
        have hless := room_past_near h he hpre hrole
        have hin := ih _ hless (direction.past m.toSpan) rfl
        rw [way?_of_near_first h he hpre hrole]
        cases hinner : BlockWay.way? near far direction (direction.past m.toSpan) with
        | none =>
          rw [hinner] at hin
          rw [hpost] at hin
          exact hrunsOut fun depth => hin (depth + 1)
        | some inner =>
          rw [hinner] at hin
          obtain ⟨hskip, -⟩ := hin
          rw [hpost] at hskip
          have hgo := ih _ (Nat.lt_trans (BlockWay.way?_room hinner) hless)
            (direction.past inner.last) rfl
          rw [Option.bind_some]
          cases hrest : BlockWay.way? near far direction (direction.past inner.last) with
          | none =>
            rw [hrest] at hgo
            exact hrunsOut fun depth => by rw [hskip, hgo]
          | some rest =>
            rw [hrest] at hgo
            obtain ⟨hdeep, hend⟩ := hgo
            constructor
            · intro depth
              rw [hsucc, hskip, hdeep]
            · rw [hzero, hskip, hend, Option.map_some, List.flatMap_cons, hgap]

end

/-- The branch words of a scan are landmarks, in the order in which they are met. -/
theorem scan_sublist {depth : Nat} {l : List Landmark} {last : Span} {branches : List Span}
    (h : scan depth l = some (last, branches)) : branches.Sublist (l.map (·.toSpan)) := by
  induction l generalizing depth branches with
  | nil => cases depth <;> cases h
  | cons m l ih =>
    obtain ⟨s, role⟩ := m
    cases role with
    | near => exact (ih h).cons s
    | far =>
      cases depth with
      | zero =>
        obtain ⟨rfl, rfl⟩ := Prod.mk.inj (Option.some.inj h)
        exact List.nil_sublist _
      | succ depth => exact (ih h).cons s
    | branch =>
      cases depth with
      | zero =>
        obtain ⟨⟨last', rest⟩, hrest, heq⟩ := Option.map_eq_some_iff.1 h
        obtain ⟨rfl, rfl⟩ := Prod.mk.inj heq
        exact (ih hrest).cons_cons s
      | succ depth => exact (ih h).cons s

end Landmark

/-! ## Matching is the scan -/

theorem FlowBlock.near_ne_empty {b : FlowBlock} (hb : b ∈ all) (direction : Direction) :
    b.near direction ≠ foldName (String.ofList []) := by
  simp only [all, List.mem_cons, List.not_mem_nil, or_false] at hb
  rcases hb with rfl | rfl <;> cases direction <;> decide

namespace Document

theorem read_eq_nil {d : Document} {start stop : Nat} (h : stop ≤ start) :
    d.read start stop = [] := by
  have hslice : d.slice start stop = [] := if_neg (by omega)
  unfold read
  split
  · exact hslice
  · rw [hslice]; rfl

variable {d : Document} {block : FlowBlock} {direction : Direction}

theorem marked_landmarks (h : d.Legible block direction) :
    Landmark.Marked (d.marks (block.near direction) .flowControl)
      (d.marks (block.far direction) .flowControl) direction (d.landmarks block direction) where
  apart := apart_landmarks h
  nearest_near := nearest?_marks h (h.solid (.near, _) List.mem_cons_self) (block.words_near _)
  nearest_far := nearest?_marks h
    (h.solid (.far, _) (List.mem_cons_of_mem _ List.mem_cons_self)) (block.words_far _)

/-- The branch words of a scan, in document order, come apart from each other. -/
theorem depthScan_apart (h : d.Legible block direction) {offset : Nat} {last : Span}
    {branches : List Span} (hscan : d.depthScan block direction offset = some (last, branches)) :
    (direction.read branches).Pairwise fun a b => a.start < a.stop ∧ a.stop ≤ b.start := by
  have hsub := Landmark.scan_sublist hscan
  rw [Direction.ahead, Direction.map_read] at hsub
  have hapart := (apart_landmarks h).filter fun m => direction.isAhead offset m.toSpan
  refine List.Pairwise.sublist (Direction.read_sublist hsub) (List.pairwise_map.2 ?_)
  exact hapart.pairwise.imp_of_mem fun ha _ hab => ⟨hapart.nonempty _ ha, hab⟩

/-- The search for the end of a block, with the branch words on the way, is the scan. -/
theorem blockWay?_eq_depthScan (h : d.Legible block direction) (offset : Nat) :
    (d.blockWay? block direction offset).map (fun way => (way.last, d.branchWords block way)) =
      (d.depthScan block direction offset).map fun (last, branches) =>
        (last, direction.read branches) := by
  have hscan := Landmark.scan_ahead (marked_landmarks h) offset
  rw [show d.blockWay? block direction offset = BlockWay.way? _ _ direction offset from rfl]
  cases hway : BlockWay.way? (d.marks (block.near direction) .flowControl)
    (d.marks (block.far direction) .flowControl) direction offset with
  | none =>
    rw [hway] at hscan
    rw [depthScan, hscan 0]
    rfl
  | some way =>
    rw [hway] at hscan
    have hend : d.depthScan block direction offset = some (way.last,
        way.gaps.flatMap (Landmark.branchesIn (d.landmarks block direction) direction)) := hscan.2
    have hsorted : (d.branchWords block way).Pairwise fun a b => a.start ≤ b.start :=
      Span.sort_pairwise _
    have hperm := (branchWords_perm h way.gaps way.last).trans (direction.perm_read _).symm
    rw [hend, Option.map_some, Option.map_some, Span.eq_of_perm hperm hsorted
      ((depthScan_apart h hend).imp fun hab => Nat.lt_of_lt_of_le hab.1 hab.2)]

/-- Matching the keyword at one end of an `If` or `While` block is a scan that counts the depth from
the far edge of the keyword on. The match has the keyword at which the scan ends and, in document
order, the branch words that are met at depth 0; if the scan runs out, it has the keyword under the
caret alone. -/
theorem matchKeyword_eq_depthScan (hchars : d.wordChars = standardWordChars)
    (hblock : block ∈ FlowBlock.all) {caret : Nat}
    (hword : foldName (String.ofList (d.read (d.wordAt caret).start (d.wordAt caret).stop)) =
      block.near direction)
    (hstyle : d.styleAt (d.wordAt caret).start = .flowControl) :
    d.matchKeyword caret =
        (match d.depthScan block direction (direction.past (d.wordAt caret)) with
        | none => { keyword := some (d.wordAt caret) }
        | some (last, branches) =>
          { found := true
            keyword := some (d.wordAt caret)
            counterparts := [last]
            auxiliary := direction.read branches }) ∧
      (d.matchKeyword caret).auxiliary.Pairwise (fun a b => a.start < a.stop ∧ a.stop ≤ b.start) ∧
      (block.branches = [] → (d.matchKeyword caret).auxiliary = []) := by
  have hlegible := legible_of_standardWordChars hchars hblock direction
  have hne : (d.wordAt caret).isEmpty = false := by
    rw [Bool.eq_false_iff]
    intro hempty
    rw [read_eq_nil (of_decide_eq_true hempty)] at hword
    exact FlowBlock.near_ne_empty hblock direction hword.symm
  have hflow : d.matchKeyword caret = d.matchFlow (d.wordAt caret) block direction := by
    rw [matchKeyword]
    simp only [hne, hword, Construct.ofWord?_far block hblock direction, hstyle, Construct.style]
    rfl
  have hway := blockWay?_eq_depthScan hlegible (direction.past (d.wordAt caret))
  rw [hflow, matchFlow]
  cases hscan : d.depthScan block direction (direction.past (d.wordAt caret)) with
  | none =>
    rw [hscan, Option.map_none, Option.map_eq_none_iff] at hway
    rw [hway]
    exact ⟨rfl, .nil, fun _ => rfl⟩
  | some found =>
    obtain ⟨last, branches⟩ := found
    rw [hscan, Option.map_some] at hway
    obtain ⟨way, hsome, heq⟩ := Option.map_eq_some_iff.1 hway
    obtain ⟨hlast, hbranches⟩ := Prod.mk.inj heq
    rw [hsome]
    dsimp only
    rw [hlast, hbranches]
    refine ⟨rfl, depthScan_apart hlegible hscan, fun hnone => ?_⟩
    have hgaps : way.gaps.flatMap (fun _ => ([] : List Span)) = [] := by simp
    rw [← hbranches, branchWords, hnone, Span.sort]
    simp only [List.map_nil, List.flatMap_nil, hgaps, List.mergeSort_nil]

/-- From the first `If` of a nested pair, the scan passes over the inner block. -/
theorem matchKeyword_nested :
    let d := (ofText "nested" "If\nIf\nElse\nEndIf\nELSE\nEndIf".toList).paint 0 99 .flowControl
    d.matchKeyword 0 =
      { found := true, keyword := some ⟨0, 2⟩, counterparts := [⟨22, 27⟩],
        auxiliary := [⟨17, 21⟩] } := by
  intro d
  have hmatch := @matchKeyword_eq_depthScan d .ifBlock .forward rfl (by decide) 0
    (by decide +kernel) (by decide +kernel)
  have hlandmarks : d.landmarks .ifBlock .forward = [⟨⟨0, 2⟩, .near⟩, ⟨⟨3, 5⟩, .near⟩,
      ⟨⟨6, 10⟩, .branch⟩, ⟨⟨11, 16⟩, .far⟩, ⟨⟨17, 21⟩, .branch⟩, ⟨⟨22, 27⟩, .far⟩] := by
    have hwords : (FlowBlock.ifBlock.words .forward).flatMap d.landmarksOf = [⟨⟨0, 2⟩, .near⟩,
        ⟨⟨3, 5⟩, .near⟩, ⟨⟨11, 16⟩, .far⟩, ⟨⟨22, 27⟩, .far⟩, ⟨⟨6, 10⟩, .branch⟩,
        ⟨⟨17, 21⟩, .branch⟩] := by decide +kernel
    rw [landmarks, hwords]
    simp [List.mergeSort, List.MergeSort.Internal.splitInTwo]
  refine hmatch.1.trans ?_
  rw [depthScan, hlandmarks]
  decide +kernel

end Document

end Papyrus

import Papyrus.Proofs.CaretWord
/-!
# Nested blocks

What stands between the two ends of a block is the body of a block (`Landmark.Body`): branch words
and whole blocks, one after the other, whatever stands outside. A scan that starts at one end of a
block ends at the other one exactly if a body lies between them (`Landmark.Encloses`). Read from the
other end a body is a body, with the same branch words; so the scan from there comes back.

Results:
* `scan_eq_some_iff`: a scan ends behind a body.
* `Body.turn`: a body read backward.
* `Encloses.nested`: two blocks lie apart, or one of them lies in the other.
* `matchKeyword_involutive`: matching goes back and forth between the ends of a block, and blocks do
  not cross.
-/
namespace Papyrus

/-- The shortest span that covers two spans. -/
def Span.hull (a b : Span) : Span := ⟨min a.start b.start, max a.stop b.stop⟩

theorem Span.hull_comm (a b : Span) : a.hull b = b.hull a := by
  rw [hull, hull, Nat.min_comm, Nat.max_comm]

/-- Two spans do not overlap, or one of them contains the other. -/
def Span.Nested (a b : Span) : Prop :=
  a.stop ≤ b.start ∨ b.stop ≤ a.start ∨ (a.start ≤ b.start ∧ b.stop ≤ a.stop) ∨
    (b.start ≤ a.start ∧ a.stop ≤ b.stop)

namespace Landmark

/-! ## Bodies of blocks -/

/-- The landmarks between the ends of a block, and those of them that are its own branch words. -/
inductive Body : List Landmark → List Span → Prop where
  | nil : Body [] []
  | branch {s : Span} {l : List Landmark} {branches : List Span} (h : Body l branches) :
      Body (⟨s, .branch⟩ :: l) (s :: branches)
  | block {a b : Span} {inner l : List Landmark} {innerBranches branches : List Span}
      (hinner : Body inner innerBranches) (h : Body l branches) :
      Body (⟨a, .near⟩ :: (inner ++ ⟨b, .far⟩ :: l)) branches

theorem Body.append {l l' : List Landmark} {branches branches' : List Span} (h : Body l branches)
    (h' : Body l' branches') : Body (l ++ l') (branches ++ branches') := by
  induction h with
  | nil => exact h'
  | branch _ ih => exact .branch ih
  | block hinner _ _ ih =>
    rw [List.cons_append, List.append_assoc, List.cons_append]
    exact .block hinner ih

/-- A scan passes over a body; at depth 0 it takes up the branch words. -/
theorem Body.scan {l : List Landmark} {branches : List Span} (h : Body l branches)
    (rest : List Landmark) :
    scan 0 (l ++ rest) =
        (scan 0 rest).map (fun (last, others) => (last, branches ++ others)) ∧
      ∀ depth, Landmark.scan (depth + 1) (l ++ rest) = Landmark.scan (depth + 1) rest := by
  induction h generalizing rest with
  | nil => exact ⟨by simp, fun _ => rfl⟩
  | branch _ ih =>
    obtain ⟨hzero, hsucc⟩ := ih rest
    constructor
    · rw [List.cons_append, Landmark.scan, hzero, Option.map_map]
      rfl
    · intro depth
      rw [List.cons_append, Landmark.scan, hsucc]
  | @block a b inner l _ _ _ _ ihinner ih =>
    have hskip : ∀ depth, Landmark.scan depth (⟨a, .near⟩ :: (inner ++ ⟨b, .far⟩ :: l) ++ rest) =
        Landmark.scan depth (l ++ rest) := by
      intro depth
      rw [List.cons_append, Landmark.scan, List.append_assoc, (ihinner _).2, List.cons_append,
        Landmark.scan]
    exact ⟨by rw [hskip, (ih rest).1], fun depth => by rw [hskip, (ih rest).2]⟩

/-- A scan that ends has a body behind it, and the keyword that closes it. -/
theorem exists_body_of_scan_succ {depth : Nat} {l : List Landmark} {found : Span × List Span}
    (h : scan (depth + 1) l = some found) :
    ∃ body branches b post, l = body ++ ⟨b, .far⟩ :: post ∧ Body body branches ∧
      scan depth post = some found := by
  induction hlen : l.length using Nat.strongRecOn generalizing l depth with
  | ind n ih =>
    subst hlen
    cases l with
    | nil => cases h
    | cons m l =>
      obtain ⟨s, role⟩ := m
      cases role with
      | far => exact ⟨[], [], s, l, rfl, .nil, h⟩
      | branch =>
        rw [scan] at h
        obtain ⟨body, branches, b, post, rfl, hbody, hpost⟩ := ih _ (Nat.lt_succ_self _) h rfl
        exact ⟨_, _, b, post, rfl, .branch hbody, hpost⟩
      | near =>
        -- the scan goes through the block that starts here, and then through the rest of the body
        rw [scan] at h
        obtain ⟨inner, innerBranches, b, rest, rfl, hinner, hrest⟩ :=
          ih _ (Nat.lt_succ_self _) h rfl
        have hless : rest.length < (⟨s, .near⟩ :: (inner ++ ⟨b, .far⟩ :: rest)).length := by
          simp only [List.length_cons, List.length_append]
          omega
        obtain ⟨body, branches, b', post, rfl, hbody, hpost⟩ := ih _ hless hrest rfl
        refine ⟨⟨s, .near⟩ :: (inner ++ ⟨b, .far⟩ :: body), branches, b', post, ?_,
          .block hinner hbody, hpost⟩
        simp

/-- A scan ends at a keyword exactly if a body lies before it. -/
theorem scan_eq_some_iff {l : List Landmark} {last : Span} {branches : List Span} :
    scan 0 l = some (last, branches) ↔
      ∃ body post, l = body ++ ⟨last, .far⟩ :: post ∧ Body body branches := by
  constructor
  · intro h
    induction hlen : l.length using Nat.strongRecOn generalizing l branches with
    | ind n ih =>
      subst hlen
      cases l with
      | nil => cases h
      | cons m l =>
        obtain ⟨s, role⟩ := m
        cases role with
        | far =>
          obtain ⟨rfl, rfl⟩ := Prod.mk.inj (Option.some.inj h)
          exact ⟨[], l, rfl, .nil⟩
        | branch =>
          rw [scan] at h
          obtain ⟨⟨last', others⟩, hrest, heq⟩ := Option.map_eq_some_iff.1 h
          obtain ⟨rfl, rfl⟩ := Prod.mk.inj heq
          obtain ⟨body, post, rfl, hbody⟩ := ih _ (Nat.lt_succ_self _) hrest rfl
          exact ⟨_, post, rfl, .branch hbody⟩
        | near =>
          rw [scan] at h
          obtain ⟨inner, innerBranches, b, rest, rfl, hinner, hrest⟩ := exists_body_of_scan_succ h
          have hless : rest.length < (⟨s, .near⟩ :: (inner ++ ⟨b, .far⟩ :: rest)).length := by
            simp only [List.length_cons, List.length_append]
            omega
          obtain ⟨body, post, rfl, hbody⟩ := ih _ hless hrest rfl
          exact ⟨⟨s, .near⟩ :: (inner ++ ⟨b, .far⟩ :: body), post, by simp, .block hinner hbody⟩
  · rintro ⟨body, post, rfl, hbody⟩
    rw [(hbody.scan _).1, scan, Option.map_some]
    exact congrArg (fun l => some (last, l)) (List.append_nil _)

/-- A block that opens in a body also closes in it. -/
theorem Body.exists_far {l : List Landmark} {branches : List Span} (h : Body l branches)
    {pre rest : List Landmark} {a : Span} (hl : l = pre ++ ⟨a, .near⟩ :: rest) :
    ∃ body innerBranches b post, rest = body ++ ⟨b, .far⟩ :: post ∧ Body body innerBranches := by
  induction h generalizing pre rest with
  | nil => simp at hl
  | branch _ ih =>
    cases pre with
    | nil => cases hl
    | cons m pre => exact ih (List.cons.inj hl).2
  | @block a' b inner l innerBranches _ hinner _ ihinner ih =>
    cases pre with
    | nil =>
      obtain ⟨-, rfl⟩ := List.cons.inj hl
      exact ⟨inner, innerBranches, b, l, rfl, hinner⟩
    | cons m pre =>
      rcases List.append_eq_append_iff.1 (List.cons.inj hl).2 with ⟨m, rfl, hm⟩ | ⟨m, hm, hrest⟩
      · cases m with
        | nil => cases hm
        | cons x m => exact ih (List.cons.inj hm).2
      · cases m with
        | nil => cases hrest
        | cons x m =>
          obtain ⟨rfl, rfl⟩ := List.cons.inj hrest
          obtain ⟨body, others, b', post, rfl, hbody⟩ := ihinner hm
          exact ⟨body, others, b', post ++ ⟨b, .far⟩ :: l, by simp, hbody⟩

/-- A body is cut in two bodies by each of its branch words. -/
theorem Body.split {l : List Landmark} {branches : List Span} (h : Body l branches) {s : Span}
    (hs : s ∈ branches) :
    ∃ pre preBranches post postBranches, l = pre ++ ⟨s, .branch⟩ :: post ∧
      branches = preBranches ++ s :: postBranches ∧ Body pre preBranches ∧
      Body post postBranches := by
  induction h with
  | nil => cases hs
  | @branch t l branches h ih =>
    rcases List.mem_cons.1 hs with rfl | hs
    · exact ⟨[], [], l, branches, rfl, rfl, .nil, h⟩
    · obtain ⟨pre, preBranches, post, postBranches, rfl, rfl, hpre, hpost⟩ := ih hs
      exact ⟨_, _, post, postBranches, rfl, rfl, .branch hpre, hpost⟩
  | @block a b inner l _ _ hinner _ _ ih =>
    obtain ⟨pre, preBranches, post, postBranches, rfl, rfl, hpre, hpost⟩ := ih hs
    exact ⟨⟨a, .near⟩ :: (inner ++ ⟨b, .far⟩ :: pre), _, post, postBranches, by simp, rfl,
      .block hinner hpre, hpost⟩

end Landmark

/-! ## Read from the other end -/

/-- The role of a keyword when the block is looked at from its other end. -/
def Role.flip : Role → Role
  | near => far
  | far => near
  | branch => branch

def Direction.flip : Direction → Direction
  | forward => backward
  | backward => forward

@[simp] theorem Direction.flip_flip (direction : Direction) : direction.flip.flip = direction := by
  cases direction <;> rfl

namespace Landmark

/-- A landmark seen from the other end of the block. -/
def flip (m : Landmark) : Landmark := ⟨m.toSpan, m.role.flip⟩

@[simp] theorem flip_flip (m : Landmark) : m.flip.flip = m := by
  obtain ⟨s, role⟩ := m
  cases role <;> rfl

/-- Landmarks in the other direction. -/
def turn (l : List Landmark) : List Landmark := (l.map flip).reverse

@[simp] theorem turn_turn (l : List Landmark) : turn (turn l) = l := by
  simp [turn, Function.comp_def]

theorem turn_append (l l' : List Landmark) : turn (l ++ l') = turn l' ++ turn l := by
  simp [turn]

theorem turn_cons (m : Landmark) (l : List Landmark) : turn (m :: l) = turn l ++ [m.flip] := by
  simp [turn]

/-- A body read from the other end is a body. -/
theorem Body.turn {l : List Landmark} {branches : List Span} (h : Body l branches) :
    Body (Landmark.turn l) branches.reverse := by
  induction h with
  | nil => exact .nil
  | branch _ ih =>
    rw [turn_cons, List.reverse_cons]
    exact ih.append (.branch .nil)
  | @block a b inner l _ _ _ _ ihinner ih =>
    have hblock : Body (⟨b, .near⟩ :: (Landmark.turn inner ++ ⟨a, .far⟩ :: [])) [] :=
      .block ihinner .nil
    have hturn : Landmark.turn (⟨a, .near⟩ :: (inner ++ ⟨b, .far⟩ :: l)) =
        Landmark.turn l ++ ⟨b, .near⟩ :: (Landmark.turn inner ++ ⟨a, .far⟩ :: []) := by
      rw [turn_cons, turn_append, turn_cons]
      simp [flip, Role.flip]
    rw [hturn, ← List.append_nil (List.reverse _)]
    exact ih.append hblock

/-! ## Blocks among landmarks -/

/-- Among landmarks a block goes from `a` to `b` and has the given branch words. -/
def Encloses (l : List Landmark) (a b : Span) (branches : List Span) : Prop :=
  ∃ pre body post, l = pre ++ ⟨a, .near⟩ :: (body ++ ⟨b, .far⟩ :: post) ∧ Body body branches

theorem Encloses.turn {l : List Landmark} {a b : Span} {branches : List Span}
    (h : Encloses l a b branches) : Encloses (Landmark.turn l) b a branches.reverse := by
  obtain ⟨pre, body, post, rfl, hbody⟩ := h
  refine ⟨Landmark.turn post, Landmark.turn body, Landmark.turn pre, ?_, hbody.turn⟩
  rw [turn_append, turn_cons, turn_append, turn_cons]
  simp [flip, Role.flip]

theorem Encloses.mem {l : List Landmark} {a b : Span} {branches : List Span}
    (h : Encloses l a b branches) : ⟨a, .near⟩ ∈ l ∧ ⟨b, .far⟩ ∈ l := by
  obtain ⟨pre, body, post, rfl, -⟩ := h
  simp

/-- Behind a landmark lies what stands behind it in the list. -/
theorem Apart.ahead_past {l : List Landmark} (h : Apart l) (direction : Direction)
    {pre post : List Landmark} {m : Landmark} (hl : direction.read l = pre ++ m :: post) :
    direction.ahead (direction.past m.toSpan) l = post := by
  cases direction with
  | forward =>
    obtain rfl : l = pre ++ m :: post := hl
    exact h.filter_split.2
  | backward =>
    obtain rfl : l = post.reverse ++ m :: pre.reverse := by
      rw [← List.reverse_inj]
      simpa using (show l.reverse = _ from hl)
    rw [Direction.ahead, Direction.read, List.reverse_eq_iff]
    exact h.filter_split.1

/-- A block starts at a keyword exactly if a scan from there ends. -/
theorem Apart.encloses_iff {l : List Landmark} (h : Apart l) (direction : Direction) {a b : Span}
    {branches : List Span} :
    Encloses (direction.read l) a b branches ↔
      ⟨a, .near⟩ ∈ l ∧ scan 0 (direction.ahead (direction.past a) l) = some (b, branches) := by
  rw [scan_eq_some_iff]
  constructor
  · rintro ⟨pre, body, post, hl, hbody⟩
    have ha : ⟨a, .near⟩ ∈ direction.read l := by simp [hl]
    exact ⟨Direction.mem_read.1 ha, body, post, h.ahead_past direction hl, hbody⟩
  · rintro ⟨ha, body, post, hahead, hbody⟩
    have ha : ⟨a, .near⟩ ∈ direction.read l := Direction.mem_read.2 ha
    obtain ⟨pre, rest, hl⟩ := List.append_of_mem ha
    refine ⟨pre, body, post, ?_, hbody⟩
    rw [hl, ← hahead, ← h.ahead_past direction hl]

/-- What stands before a landmark ends before it, and what stands behind it starts behind it. -/
theorem Apart.around {pre post : List Landmark} {m : Landmark} (h : Apart (pre ++ m :: post)) :
    (∀ x ∈ pre, x.stop ≤ m.start) ∧ ∀ x ∈ post, m.stop ≤ x.start := by
  obtain ⟨-, hm, hcross⟩ := List.pairwise_append.1 h.pairwise
  exact ⟨fun x hx => hcross x hx m List.mem_cons_self, (List.pairwise_cons.1 hm).1⟩

section
variable {l : List Landmark} {a b a' b' : Span} {branches branches' : List Span}

/-- A block of which one end is known is known. -/
theorem Encloses.unique (hl : Apart l) (h : Encloses l a b branches)
    (h' : Encloses l a b' branches') : b = b' ∧ branches = branches' := by
  have hscan := ((hl.encloses_iff .forward).1 h).2
  have hscan' := ((hl.encloses_iff .forward).1 h').2
  exact Prod.mk.inj (Option.some.inj (hscan.symm.trans hscan'))

/-- A block that opens at or behind the start of another one lies behind that one or ends with it or
in it. -/
theorem Encloses.nested_of_le (hl : Apart l) (h : Encloses l a b branches)
    (h' : Encloses l a' b' branches') (hle : a.start ≤ a'.start) :
    b.stop ≤ a'.start ∨ b'.stop ≤ b.stop := by
  obtain ⟨pre, body, post, hsplit, hbody⟩ := id h
  have ha := (hsplit ▸ hl).around
  have hb : Apart ((pre ++ ⟨a, .near⟩ :: body) ++ ⟨b, .far⟩ :: post) := by
    rw [List.append_assoc, List.cons_append, ← hsplit]
    exact hl
  have hbsize := hb.nonempty ⟨b, .far⟩ (by simp)
  have ha'size := hl.nonempty _ h'.mem.1
  have hmem := h'.mem.1
  rw [hsplit, List.mem_append, List.mem_cons, List.mem_append, List.mem_cons] at hmem
  rcases hmem with hpre | heq | hin | heq | hpost
  · have := ha.1 _ hpre
    dsimp only at this ha'size
    omega
  · obtain rfl : a' = a := congrArg Landmark.toSpan heq
    exact Or.inr (Nat.le_of_eq (congrArg Span.stop (h'.unique hl h).1))
  · obtain ⟨first, rest, rfl⟩ := List.append_of_mem hin
    obtain ⟨inner, others, c, last, rfl, hinner⟩ := hbody.exists_far rfl
    have hc : Encloses l a' c others := by
      refine ⟨pre ++ ⟨a, .near⟩ :: first, inner, last ++ ⟨b, .far⟩ :: post, ?_, hinner⟩
      rw [hsplit]
      simp
    obtain rfl := (h'.unique hl hc).1
    have := hb.around.1 ⟨b', .far⟩ (by simp)
    dsimp only at this hbsize
    exact Or.inr (by omega)
  · cases heq
  · exact Or.inl (hb.around.2 _ hpost)

theorem Encloses.apart (hl : Apart l) (h : Encloses l a b branches) :
    a.start < a.stop ∧ a.stop ≤ b.start ∧ b.start < b.stop := by
  have ha := hl.nonempty _ h.mem.1
  have hb := hl.nonempty _ h.mem.2
  obtain ⟨pre, body, post, rfl, -⟩ := h
  exact ⟨ha, hl.around.2 ⟨b, .far⟩ (by simp), hb⟩

/-- A block covers what lies from its first keyword to its last one. -/
theorem Encloses.hull_eq (hl : Apart l) (h : Encloses l a b branches) :
    a.hull b = ⟨a.start, b.stop⟩ := by
  have := h.apart hl
  rw [Span.hull, Nat.min_eq_left (by omega), Nat.max_eq_right (by omega)]

/-- Of two blocks one lies behind the other or in it. -/
theorem Encloses.nested (hl : Apart l) (h : Encloses l a b branches)
    (h' : Encloses l a' b' branches') : (a.hull b).Nested (a'.hull b') := by
  rw [h.hull_eq hl, h'.hull_eq hl]
  rcases Nat.le_total a.start a'.start with hle | hle
  · rcases h.nested_of_le hl h' hle with hout | hin
    · exact Or.inl hout
    · exact Or.inr (Or.inr (Or.inl ⟨hle, hin⟩))
  · rcases h'.nested_of_le hl h hle with hout | hin
    · exact Or.inr (Or.inl hout)
    · exact Or.inr (Or.inr (Or.inr ⟨hle, hin⟩))

end

/-- Landmarks that come apart are known by what they are. -/
theorem Apart.eq_of_mem_iff {l l' : List Landmark} (h : Apart l) (h' : Apart l')
    (hmem : ∀ m, m ∈ l ↔ m ∈ l') : l = l' := by
  have hlt : ∀ {l : List Landmark}, Apart l → l.Pairwise fun a b => a.start < b.start := fun h =>
    h.pairwise.imp_of_mem fun ha _ hab => Nat.lt_of_lt_of_le (h.nonempty _ ha) hab
  exact eq_of_mem_iff_of_pairwise (hlt h) (hlt h') hmem

end Landmark

/-! ## The landmarks of a document from both ends -/

theorem FlowBlock.mem_words_flip {block : FlowBlock} {direction : Direction} {role : Role}
    {word : String} :
    (role, word) ∈ block.words direction.flip ↔ (role.flip, word) ∈ block.words direction := by
  cases direction <;> cases role <;> simp [words, Role.flip, Direction.flip, near, far]

/-- The words of the language's flow blocks are plain. -/
theorem FlowBlock.plain_words {block : FlowBlock} (hblock : block ∈ all) {direction : Direction}
    {w : Role × String} (hw : w ∈ block.words direction) :
    Plain w.2 ∧ (w.1 ≠ .branch → 's' ∉ w.2.toList) := by
  have hplain : ∀ b ∈ all, ∀ direction : Direction, ∀ w ∈ b.words direction,
      Plain w.2 ∧ (w.1 ≠ .branch → 's' ∉ w.2.toList) := by
    intro b hb direction
    simp only [all, List.mem_cons, List.not_mem_nil, or_false] at hb
    rcases hb with rfl | rfl <;> cases direction <;> decide +kernel
  exact hplain block hblock direction w hw

theorem FlowBlock.plain_of_mem_branches {block : FlowBlock} (hblock : block ∈ all) {word : String}
    (hword : word ∈ block.branches) : Plain word := by
  have hbranch : (Role.branch, word) ∈ block.words .forward :=
    List.mem_cons_of_mem _ (List.mem_cons_of_mem _ (List.mem_map_of_mem hword))
  exact (plain_words hblock hbranch).1

namespace Document

variable {d : Document} {block : FlowBlock} {direction : Direction}

/-- The landmarks of a block as they are met in a direction. -/
def course (d : Document) (block : FlowBlock) (direction : Direction) : List Landmark :=
  direction.read (d.landmarks block direction)

theorem mem_landmarks_flip {m : Landmark} :
    m ∈ d.landmarks block direction.flip ↔ m.flip ∈ d.landmarks block direction := by
  rw [mem_landmarks, mem_landmarks]
  constructor
  · rintro ⟨⟨role, word⟩, hw, hrole, hs⟩
    exact ⟨(role.flip, word), FlowBlock.mem_words_flip.1 hw, congrArg Role.flip hrole, hs⟩
  · rintro ⟨⟨role, word⟩, hw, hrole, hs⟩
    have hflip : m.role = role.flip := by
      rw [← show m.role.flip = role from hrole]
      cases m.role <;> rfl
    refine ⟨(role.flip, word), FlowBlock.mem_words_flip.2 ?_, hflip, hs⟩
    rwa [show role.flip.flip = role by cases role <;> rfl]

/-- In the other direction the landmarks are met the other way round. -/
theorem course_flip (h : d.Legible block direction) (h' : d.Legible block direction.flip) :
    d.course block direction.flip = Landmark.turn (d.course block direction) := by
  have hflip : d.landmarks block direction.flip = (d.landmarks block direction).map .flip := by
    have hapart := apart_landmarks h
    refine (apart_landmarks h').eq_of_mem_iff ⟨fun m hm => ?_, ?_⟩ fun m => ?_
    · obtain ⟨x, hx, rfl⟩ := List.mem_map.1 hm
      exact hapart.nonempty x hx
    · exact List.pairwise_map.2 hapart.pairwise
    · rw [mem_landmarks_flip, List.mem_map]
      constructor
      · intro hm
        exact ⟨m.flip, hm, m.flip_flip⟩
      · rintro ⟨x, hx, rfl⟩
        rwa [x.flip_flip]
  rw [course, course, hflip]
  cases direction <;> simp [Direction.read, Direction.flip, Landmark.turn]

theorem mem_landmarks_near {s : Span} :
    ⟨s, .near⟩ ∈ d.landmarks block direction ↔
      s ∈ d.keywords (block.near direction) .flowControl := by
  rw [mem_landmarks]
  constructor
  · rintro ⟨⟨role, word⟩, hw, hrole, hs⟩
    obtain rfl : Role.near = role := hrole
    have hnear : (Role.near, word) ∈ (block.words direction).filter (·.1 == .near) :=
      List.mem_filter.2 ⟨hw, rfl⟩
    rw [block.words_near] at hnear
    obtain ⟨-, rfl⟩ := Prod.mk.inj (List.mem_singleton.1 hnear)
    exact hs
  · exact fun hs => ⟨_, List.mem_cons_self, rfl, hs⟩

/-! ## Matching back and forth -/

/-- The match of a keyword at an end of a block whose style is that of code. -/
theorem matchKeyword_eq_matchFlow (hblock : block ∈ FlowBlock.all) {caret : Nat}
    (hname : d.wordName caret = block.near direction) :
    d.matchKeyword caret =
      if d.styleAt (d.wordAt caret).start = .flowControl then
        d.matchFlow (d.wordAt caret) block direction
      else {} :=
  matchKeyword_of_ofWord? (hname ▸ Construct.ofWord?_far block hblock direction)

/-- A match of a keyword at an end of a block is what a scan finds. -/
theorem matchFlow_eq (h : d.Legible block direction) (a : Span) :
    d.matchFlow a block direction =
      match d.depthScan block direction (direction.past a) with
      | none => { keyword := some a }
      | some (b, branches) =>
        { found := true, keyword := some a, counterparts := [b],
          auxiliary := direction.read branches } := by
  have hway := blockWay?_eq_depthScan h (direction.past a)
  rw [matchFlow]
  cases hscan : d.depthScan block direction (direction.past a) with
  | none =>
    rw [hscan, Option.map_none, Option.map_eq_none_iff] at hway
    rw [hway]
  | some found =>
    rw [hscan] at hway
    obtain ⟨way, hsome, heq⟩ := Option.map_eq_some_iff.1 hway
    obtain ⟨hlast, hbranches⟩ := Prod.mk.inj heq
    rw [hsome]
    dsimp only
    rw [hlast, hbranches]

/-- A block starts at a keyword exactly if the scan from there ends. -/
theorem encloses_course_iff (h : d.Legible block direction) {a b : Span} {branches : List Span} :
    Landmark.Encloses (d.course block direction) a b branches ↔
      ⟨a, .near⟩ ∈ d.landmarks block direction ∧
        d.depthScan block direction (direction.past a) = some (b, branches) :=
  (apart_landmarks h).encloses_iff direction

/-- The blocks of one direction are those of the other one. -/
theorem encloses_course_flip (h : d.Legible block direction) (h' : d.Legible block direction.flip)
    {a b : Span} {branches : List Span}
    (hab : Landmark.Encloses (d.course block direction) a b branches) :
    Landmark.Encloses (d.course block direction.flip) b a branches.reverse := by
  rw [course_flip h h']
  exact hab.turn

/-- Every caret on the keyword at one end of a block, or behind its last character, is on it. -/
theorem wordName_of_near (hread : d.readLimit = none) (hchars : d.wordChars = standardWordChars)
    (hblock : block ∈ FlowBlock.all) {a : Span} (ha : ⟨a, .near⟩ ∈ d.landmarks block direction)
    {caret : Nat} (hlo : a.start ≤ caret) (hhi : caret ≤ a.stop) :
    d.wordAt caret = a ∧ d.wordName caret = block.near direction ∧
      d.styleAt a.start = .flowControl := by
  have hkeyword := mem_landmarks_near.1 ha
  have hmem : (Role.near, block.near direction) ∈ block.words direction := List.mem_cons_self
  obtain ⟨hplain, hs⟩ := FlowBlock.plain_words hblock hmem
  obtain ⟨hword, hname⟩ := wordName_of_keyword hread hchars hplain hkeyword
    (isAscii_of_keyword hread hchars hplain (hs nofun) hkeyword) hlo hhi
  obtain ⟨-, -, -, hstyle, -⟩ := mem_keywords.1 hkeyword
  exact ⟨hword, hname, hstyle⟩

/-- From every caret on the keyword at one end of a block the other end is found. -/
theorem matchKeyword_of_encloses (hread : d.readLimit = none)
    (hchars : d.wordChars = standardWordChars) (hblock : block ∈ FlowBlock.all) {a b : Span}
    {branches : List Span} (h : Landmark.Encloses (d.course block direction) a b branches)
    {caret : Nat} (hlo : a.start ≤ caret) (hhi : caret ≤ a.stop) :
    d.matchKeyword caret =
      { found := true, keyword := some a, counterparts := [b],
        auxiliary := direction.read branches } := by
  have hlegible := legible_of_standardWordChars hchars hblock direction
  obtain ⟨ha, hscan⟩ := (encloses_course_iff hlegible).1 h
  obtain ⟨hword, hname, hstyle⟩ := wordName_of_near hread hchars hblock ha hlo hhi
  rw [matchKeyword_eq_matchFlow hblock hname, hword, if_pos hstyle, matchFlow_eq hlegible, hscan]

/-- A keyword at one end of a block that is found has the other end. -/
theorem encloses_of_found (hread : d.readLimit = none) (hchars : d.wordChars = standardWordChars)
    (hblock : block ∈ FlowBlock.all) {caret : Nat}
    (hname : d.wordName caret = block.near direction)
    (hfound : (d.matchKeyword caret).found = true) :
    ∃ b branches, Landmark.Encloses (d.course block direction) (d.wordAt caret) b branches ∧
      d.matchKeyword caret =
        { found := true, keyword := some (d.wordAt caret), counterparts := [b],
          auxiliary := direction.read branches } := by
  have hlegible := legible_of_standardWordChars hchars hblock direction
  have hmatch := matchKeyword_eq_matchFlow hblock hname
  rw [hmatch] at hfound
  by_cases hstyle : d.styleAt (d.wordAt caret).start = .flowControl
  · rw [if_pos hstyle] at hmatch hfound
    rw [hmatch]
    rw [matchFlow_eq hlegible] at hfound ⊢
    cases hscan : d.depthScan block direction (direction.past (d.wordAt caret)) with
    | none =>
      rw [hscan] at hfound
      cases hfound
    | some found =>
      obtain ⟨b, branches⟩ := found
      refine ⟨b, branches, (encloses_course_iff hlegible).2 ⟨?_, hscan⟩, rfl⟩
      exact mem_landmarks_near.2 (mem_keywords_of_wordName hread hchars
        (FlowBlock.plain_words hblock List.mem_cons_self).1 hname hstyle)
  · rw [if_neg hstyle] at hfound
    cases hfound

/-- If the keyword at one end of an `If` or `While` block is found, then from every caret on the
other end the match comes back to it, with the same branch words. No other keyword of its kind has
the same other end, and what two such blocks cover lies apart or one in the other. -/
theorem matchKeyword_involutive (hread : d.readLimit = none)
    (hchars : d.wordChars = standardWordChars) (hblock : block ∈ FlowBlock.all) {caret : Nat}
    (hname : d.wordName caret = block.near direction)
    (hfound : (d.matchKeyword caret).found = true) :
    ∃ a b branches,
      d.matchKeyword caret =
        { found := true, keyword := some a, counterparts := [b], auxiliary := branches } ∧
      b.start < b.stop ∧
      (∀ back, b.start ≤ back → back ≤ b.stop →
        d.matchKeyword back =
          { found := true, keyword := some b, counterparts := [a], auxiliary := branches }) ∧
      ∀ other, d.wordName other = block.near direction → (d.matchKeyword other).found = true →
        ∃ a' b', (d.matchKeyword other).keyword = some a' ∧
          (d.matchKeyword other).counterparts = [b'] ∧ (b' = b → a' = a) ∧
          (a.hull b).Nested (a'.hull b') := by
  have hlegible := legible_of_standardWordChars hchars hblock
  have hread_flip : ∀ branches : List Span,
      direction.flip.read branches.reverse = direction.read branches := by
    intro branches
    cases direction <;> simp [Direction.read, Direction.flip]
  obtain ⟨b, branches, hab, hmatch⟩ := encloses_of_found hread hchars hblock hname hfound
  have hba := encloses_course_flip (hlegible _) (hlegible _) hab
  have hb := (apart_landmarks (hlegible direction)).nonempty _ (Direction.mem_read.1 hab.mem.2)
  refine ⟨d.wordAt caret, b, direction.read branches, hmatch, hb, fun back hlo hhi => ?_,
    fun other hname' hfound' => ?_⟩
  · rw [matchKeyword_of_encloses hread hchars hblock hba hlo hhi, hread_flip]
  · obtain ⟨b', branches', hab', hmatch'⟩ :=
      encloses_of_found hread hchars hblock hname' hfound'
    rw [hmatch']
    refine ⟨_, b', rfl, rfl, ?_, ?_⟩
    · rintro rfl
      have hba' := encloses_course_flip (hlegible _) (hlegible _) hab'
      have hscan := ((encloses_course_iff (hlegible _)).1 hba).2
      have hscan' := ((encloses_course_iff (hlegible _)).1 hba').2
      exact (Prod.mk.inj (Option.some.inj (hscan'.symm.trans hscan))).1
    · cases direction with
      | forward => exact hab.nested (apart_landmarks (hlegible .forward)) hab'
      | backward =>
        have hba' := encloses_course_flip (hlegible _) (hlegible _) hab'
        rw [Span.hull_comm, Span.hull_comm (d.wordAt other)]
        exact hba.nested (apart_landmarks (hlegible .forward)) hba'

/-- Between a closer and an opener that have no other end, the outer one of two blocks is found from
both of its ends. -/
theorem matchKeyword_stray :
    let d := (ofText "stray" "EndIf\nIf\nIf\nElse\nEndIf\nELSE\nENDIF\nIf".toList).paint 0 99
      .flowControl
    d.matchKeyword 6 =
        { found := true, keyword := some ⟨6, 8⟩, counterparts := [⟨28, 33⟩],
          auxiliary := [⟨23, 27⟩] } ∧
      d.matchKeyword 31 =
        { found := true, keyword := some ⟨28, 33⟩, counterparts := [⟨6, 8⟩],
          auxiliary := [⟨23, 27⟩] } := by
  intro d
  have hlegible := @legible_of_standardWordChars d .ifBlock rfl (by decide) .forward
  have hlandmarks : d.landmarks .ifBlock .forward = [⟨⟨0, 5⟩, .far⟩, ⟨⟨6, 8⟩, .near⟩,
      ⟨⟨9, 11⟩, .near⟩, ⟨⟨12, 16⟩, .branch⟩, ⟨⟨17, 22⟩, .far⟩, ⟨⟨23, 27⟩, .branch⟩,
      ⟨⟨28, 33⟩, .far⟩, ⟨⟨34, 36⟩, .near⟩] := by
    have hwords : (FlowBlock.ifBlock.words .forward).flatMap d.landmarksOf = [⟨⟨6, 8⟩, .near⟩,
        ⟨⟨9, 11⟩, .near⟩, ⟨⟨34, 36⟩, .near⟩, ⟨⟨0, 5⟩, .far⟩, ⟨⟨17, 22⟩, .far⟩, ⟨⟨28, 33⟩, .far⟩,
        ⟨⟨12, 16⟩, .branch⟩, ⟨⟨23, 27⟩, .branch⟩] := by decide +kernel
    rw [landmarks, hwords]
    simp [List.mergeSort, List.MergeSort.Internal.splitInTwo]
  have hname : d.wordName 6 = FlowBlock.ifBlock.near .forward := by decide +kernel
  have hstyle : d.styleAt (d.wordAt 6).start = .flowControl := by decide +kernel
  have hscan : d.depthScan .ifBlock .forward (Direction.forward.past (d.wordAt 6)) =
      some (⟨28, 33⟩, [⟨23, 27⟩]) := by
    rw [depthScan, hlandmarks]
    decide +kernel
  have hword : d.wordAt 6 = ⟨6, 8⟩ := by decide +kernel
  have hmatch : d.matchKeyword 6 =
      { found := true, keyword := some ⟨6, 8⟩, counterparts := [⟨28, 33⟩],
        auxiliary := [⟨23, 27⟩] } := by
    rw [matchKeyword_eq_matchFlow (by decide) hname, if_pos hstyle, matchFlow_eq hlegible, hscan,
      hword]
    rfl
  obtain ⟨a, b, branches, heq, -, hback, -⟩ :=
    @matchKeyword_involutive d .ifBlock .forward rfl rfl (by decide) 6 hname (by rw [hmatch])
  rw [hmatch] at heq
  injection heq with _ ha hb hbranches
  obtain rfl := Option.some.inj ha
  obtain ⟨rfl, -⟩ := List.cons.inj hb
  subst hbranches
  exact ⟨hmatch, hback 31 (by decide) (by decide)⟩

end Document

end Papyrus

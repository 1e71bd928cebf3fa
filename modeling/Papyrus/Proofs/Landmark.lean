import Mathlib.Data.List.Perm.Basic
import Papyrus.Block.Match
import Papyrus.Proofs.WholeWord
/-!
# Landmarks of a block

The keywords of all blocks of one kind in a document, in document order, are its landmarks. Each has
a role: it may stand at the end where the search for the other end starts (`near`), at that other
end (`far`), or between them (`branch`). Landmarks do not overlap, so that what is met from an
offset on is cut in two by each landmark.

Results:
* `Apart.ahead_split`: what lies before and behind a landmark.
* `apart_landmarks`: the landmarks of a document do not overlap.
* `nearest?_marks`: the nearest mark of a word is the first landmark of its role.
* `branchWords_perm`: the branch words on a way are landmarks between its ends.
-/
namespace Papyrus

/-- What a keyword is to a block that is looked at from one of its ends. -/
inductive Role where
  | near
  | far
  | branch
  deriving DecidableEq, Repr

/-- A keyword of a block in a document. -/
structure Landmark extends Span where
  role : Role
  deriving DecidableEq, Repr

namespace Direction

/-- A list in document order as it is met in a direction, or the other way round. -/
def read {α : Type} : Direction → List α → List α
  | forward, l => l
  | backward, l => l.reverse

/-- Whether a span lies ahead of an offset. -/
def isAhead : Direction → Nat → Span → Bool
  | forward, offset, s => offset ≤ s.start
  | backward, offset, s => s.stop ≤ offset

/-- The landmarks ahead of an offset, as they are met. -/
def ahead (direction : Direction) (offset : Nat) (l : List Landmark) : List Landmark :=
  direction.read (l.filter fun m => direction.isAhead offset m.toSpan)

theorem mem_read {α : Type} {direction : Direction} {l : List α} {a : α} :
    a ∈ direction.read l ↔ a ∈ l := by
  cases direction with
  | forward => rfl
  | backward => exact List.mem_reverse

theorem map_read {α β : Type} (direction : Direction) (f : α → β) (l : List α) :
    (direction.read l).map f = direction.read (l.map f) := by
  cases direction with
  | forward => rfl
  | backward => exact List.map_reverse

theorem perm_read {α : Type} (direction : Direction) (l : List α) :
    (direction.read l).Perm l := by
  cases direction with
  | forward => exact .refl _
  | backward => exact List.reverse_perm l

theorem read_sublist {α : Type} {direction : Direction} {l l' : List α}
    (h : l.Sublist (direction.read l')) : (direction.read l).Sublist l' := by
  cases direction with
  | forward => exact h
  | backward => exact List.reverse_sublist.1 (by simpa [read] using h)

end Direction

/-- The words of a block, each with its role when the block is looked at in a direction. -/
def FlowBlock.words (b : FlowBlock) (direction : Direction) : List (Role × String) :=
  (.near, b.near direction) :: (.far, b.far direction) :: b.branches.map fun w => (.branch, w)

theorem FlowBlock.words_near (b : FlowBlock) (direction : Direction) :
    (b.words direction).filter (·.1 == .near) = [(.near, b.near direction)] := by
  simp [words]

theorem FlowBlock.words_far (b : FlowBlock) (direction : Direction) :
    (b.words direction).filter (·.1 == .far) = [(.far, b.far direction)] := by
  simp [words]

/-- The landmarks of one word. -/
def Document.landmarksOf (d : Document) (w : Role × String) : List Landmark :=
  (d.keywords w.2 .flowControl).map fun s => ⟨s, w.1⟩

/-- The keywords of all blocks of a kind in a document, in document order. -/
def Document.landmarks (d : Document) (block : FlowBlock) (direction : Direction) :
    List Landmark :=
  ((block.words direction).flatMap d.landmarksOf).mergeSort fun a b => a.start ≤ b.start

namespace Landmark

/-! ## Landmarks that come apart -/

/-- Landmarks in document order that do not overlap. -/
structure Apart (l : List Landmark) : Prop where
  nonempty : ∀ m ∈ l, m.start < m.stop
  pairwise : l.Pairwise fun a b => a.stop ≤ b.start

theorem Apart.filter {l : List Landmark} (h : Apart l) (p : Landmark → Bool) :
    Apart (l.filter p) where
  nonempty m hm := h.nonempty m (List.mem_filter.1 hm).1
  pairwise := h.pairwise.sublist List.filter_sublist

/-- What lies before a landmark is what stands before it in the list, and likewise behind it. -/
theorem Apart.filter_split {pre post : List Landmark} {m : Landmark}
    (h : Apart (pre ++ m :: post)) :
    (pre ++ m :: post).filter (fun x => decide (x.stop ≤ m.start)) = pre ∧
      (pre ++ m :: post).filter (fun x => decide (m.stop ≤ x.start)) = post := by
  obtain ⟨-, hm, hcross⟩ := List.pairwise_append.1 h.pairwise
  have hm := (List.pairwise_cons.1 hm).1
  have hself := h.nonempty m (by simp)
  have hpre : ∀ x ∈ pre, x.start < x.stop ∧ x.stop ≤ m.start := fun x hx =>
    ⟨h.nonempty x (by simp [hx]), hcross x hx m List.mem_cons_self⟩
  have hpost : ∀ x ∈ post, x.start < x.stop ∧ m.stop ≤ x.start := fun x hx =>
    ⟨h.nonempty x (by simp [hx]), hm x hx⟩
  constructor
  · have hrest : ∀ x ∈ m :: post, ¬ decide (x.stop ≤ m.start) = true := by
      intro x hx
      rw [decide_eq_true_eq]
      rcases List.mem_cons.1 hx with rfl | hx
      · omega
      · have := hpost x hx; omega
    rw [List.filter_append, List.filter_eq_nil_iff.2 hrest, List.append_nil, List.filter_eq_self]
    exact fun x hx => decide_eq_true (hpre x hx).2
  · have hfirst : ∀ x ∈ pre ++ [m], ¬ decide (m.stop ≤ x.start) = true := by
      intro x hx
      rw [decide_eq_true_eq]
      rcases List.mem_append.1 hx with hx | hx
      · have := hpre x hx; omega
      · obtain rfl := List.mem_singleton.1 hx; omega
    rw [List.append_cons, List.filter_append, List.filter_eq_nil_iff.2 hfirst, List.nil_append,
      List.filter_eq_self]
    exact fun x hx => decide_eq_true (hpost x hx).2

/-- The landmarks of a span. -/
def within (l : List Landmark) (gap : Span) : List Landmark :=
  l.filter fun m => decide (gap.start ≤ m.start) && decide (m.stop ≤ gap.stop)

/-- Behind a landmark that is met lie those that are met after it, and between the offset and the
landmark those that are met before it. -/
theorem Apart.ahead_split {l : List Landmark} (h : Apart l) {direction : Direction} {offset : Nat}
    {pre post : List Landmark} {m : Landmark} (he : direction.ahead offset l = pre ++ m :: post) :
    direction.ahead (direction.past m.toSpan) l = post ∧
      direction.read (within l (direction.between offset m.toSpan)) = pre := by
  cases direction with
  | forward =>
    have hl : l.filter (fun x => decide (offset ≤ x.start)) = pre ++ m :: post := he
    obtain ⟨hpre, hpost⟩ := (hl ▸ h.filter _).filter_split
    have hm : m ∈ l.filter (fun x => decide (offset ≤ x.start)) := by rw [hl]; simp
    have hoff : offset ≤ m.start := of_decide_eq_true (List.mem_filter.1 hm).2
    have hself := h.nonempty m (List.mem_filter.1 hm).1
    rw [← hl, List.filter_filter] at hpre hpost
    constructor
    · show l.filter (fun x => decide (m.stop ≤ x.start)) = post
      rw [← hpost]
      refine List.filter_congr fun x _ => ?_
      rw [← Bool.decide_and, decide_eq_decide]; omega
    · show l.filter (fun x => decide (offset ≤ x.start) && decide (x.stop ≤ max m.start offset)) =
        pre
      rw [← hpre]
      refine List.filter_congr fun x _ => ?_
      rw [← Bool.decide_and, ← Bool.decide_and, decide_eq_decide]; omega
  | backward =>
    have hl : l.filter (fun x => decide (x.stop ≤ offset)) =
        post.reverse ++ m :: pre.reverse := by
      rw [← List.reverse_inj]
      simpa using (show (l.filter fun x => decide (x.stop ≤ offset)).reverse = _ from he)
    obtain ⟨hpost, hpre⟩ := (hl ▸ h.filter _).filter_split
    have hm : m ∈ l.filter (fun x => decide (x.stop ≤ offset)) := by rw [hl]; simp
    have hoff : m.stop ≤ offset := of_decide_eq_true (List.mem_filter.1 hm).2
    have hself := h.nonempty m (List.mem_filter.1 hm).1
    rw [← hl, List.filter_filter] at hpre hpost
    constructor
    · show (l.filter (fun x => decide (x.stop ≤ m.start))).reverse = post
      rw [← List.reverse_reverse post, ← hpost]
      refine congrArg List.reverse (List.filter_congr fun x _ => ?_)
      rw [← Bool.decide_and, decide_eq_decide]; omega
    · show (l.filter (fun x =>
        decide (min m.stop offset ≤ x.start) && decide (x.stop ≤ offset))).reverse = pre
      rw [← List.reverse_reverse pre, ← hpre]
      refine congrArg List.reverse (List.filter_congr fun x _ => ?_)
      rw [← Bool.decide_and, ← Bool.decide_and, decide_eq_decide]; omega

/-- A landmark is met before those that stand behind it. -/
theorem Apart.precedes {l : List Landmark} (h : Apart l) {direction : Direction} {offset : Nat}
    {pre post : List Landmark} {m x : Landmark} (he : direction.ahead offset l = pre ++ m :: post)
    (hx : x ∈ post) : direction.precedes m.toSpan x.toSpan = true := by
  have hmem : ∀ y ∈ pre ++ m :: post, y ∈ l := fun y hy => by
    rw [← he, Direction.ahead, Direction.mem_read] at hy
    exact (List.mem_filter.1 hy).1
  have hm := h.nonempty m (hmem m (by simp))
  have hxpos := h.nonempty x (hmem x (by simp [hx]))
  obtain ⟨hpost, -⟩ := h.ahead_split he
  rw [← hpost, Direction.ahead, Direction.mem_read] at hx
  have hahead := (List.mem_filter.1 hx).2
  cases direction with
  | forward =>
    have : m.stop ≤ x.start := of_decide_eq_true hahead
    exact decide_eq_true (by omega)
  | backward =>
    have : x.stop ≤ m.start := of_decide_eq_true hahead
    exact decide_eq_true (by omega)

/-! ## What is met first -/

/-- The first landmark of a role that is met from an offset on. -/
def first? (l : List Landmark) (direction : Direction) (role : Role) (offset : Nat) :
    Option Span :=
  ((direction.ahead offset l).find? (·.role == role)).map (·.toSpan)

/-- The branch words of a span, as they are met. -/
def branchesIn (l : List Landmark) (direction : Direction) (gap : Span) : List Span :=
  ((direction.read (within l gap)).filter (·.role == .branch)).map (·.toSpan)

/-- Landmarks are branch words up to the first one that is none. -/
theorem branches_or_split (l : List Landmark) :
    (∀ m ∈ l, m.role = .branch) ∨
      ∃ pre m post, l = pre ++ m :: post ∧ (∀ x ∈ pre, x.role = .branch) ∧ m.role ≠ .branch := by
  cases h : l.find? (·.role != .branch) with
  | none => left; simpa using h
  | some m =>
    right
    obtain ⟨hm, pre, post, rfl, hpre⟩ := List.find?_eq_some_iff_append.1 h
    exact ⟨pre, m, post, rfl, by simpa using hpre, by simpa using hm⟩

theorem find?_branches {l : List Landmark} (h : ∀ m ∈ l, m.role = .branch) {role : Role}
    (hr : role ≠ .branch) (rest : List Landmark) :
    (l ++ rest).find? (·.role == role) = rest.find? (·.role == role) := by
  have hnone : l.find? (·.role == role) = none := by
    rw [List.find?_eq_none]
    intro m hm
    rw [h m hm, beq_iff_eq]
    exact hr.symm
  rw [List.find?_append, hnone, Option.none_or]

theorem branchesIn_of_split {l : List Landmark} (hl : Apart l) {direction : Direction}
    {offset : Nat} {pre post : List Landmark} {m : Landmark}
    (he : direction.ahead offset l = pre ++ m :: post) (h : ∀ x ∈ pre, x.role = .branch) :
    branchesIn l direction (direction.between offset m.toSpan) = pre.map (·.toSpan) := by
  rw [branchesIn, (hl.ahead_split he).2, List.filter_eq_self.2 fun x hx => beq_iff_eq.2 (h x hx)]

end Landmark

/-! ## The landmarks of a document -/

/-- Spans in document order that start at different offsets are known by what they are. -/
theorem Span.eq_of_perm {l l' : List Span} (hp : l.Perm l')
    (h : l.Pairwise fun a b => a.start ≤ b.start) (h' : l'.Pairwise fun a b => a.start < b.start) :
    l = l' := by
  refine List.Perm.eq_of_pairwise (fun a b ha hb hab hba => ?_) h (h'.imp Nat.le_of_lt) hp
  have hinj : l'.Pairwise fun a b => a.start = b.start → a = b :=
    h'.imp fun hlt heq => absurd heq (Nat.ne_of_lt hlt)
  have hflip : l'.Pairwise (flip fun a b => a.start = b.start → a = b) :=
    h'.imp fun hlt heq => absurd heq.symm (Nat.ne_of_lt hlt)
  exact List.Pairwise.forall_of_forall_of_flip (fun _ _ _ => rfl) hinj hflip (hp.subset ha) hb
    (Nat.le_antisymm hab hba)

/-- Lists that go up strictly by a number are known by their members. -/
theorem eq_of_mem_iff_of_pairwise {α : Type} {key : α → Nat} {l l' : List α}
    (h : l.Pairwise fun a b => key a < key b) (h' : l'.Pairwise fun a b => key a < key b)
    (hmem : ∀ a, a ∈ l ↔ a ∈ l') : l = l' := by
  have hnodup : ∀ {l : List α}, (l.Pairwise fun a b => key a < key b) → l.Nodup := fun h =>
    h.imp fun {a b} hab (heq : a = b) => Nat.ne_of_lt hab (congrArg key heq)
  refine List.Perm.eq_of_pairwise (fun a b _ _ hab hba => ?_) h h'
    ((List.perm_ext_iff_of_nodup (hnodup h) (hnodup h')).2 hmem)
  exact absurd (Nat.lt_trans hab hba) (Nat.lt_irrefl _)

namespace Document

variable {d : Document} {block : FlowBlock} {direction : Direction}

theorem mem_landmarks {m : Landmark} :
    m ∈ d.landmarks block direction ↔
      ∃ w ∈ block.words direction, m.role = w.1 ∧ m.toSpan ∈ d.keywords w.2 .flowControl := by
  rw [landmarks, List.mem_mergeSort, List.mem_flatMap]
  refine exists_congr fun w => and_congr_right fun _ => ?_
  rw [landmarksOf, List.mem_map]
  constructor
  · rintro ⟨s, hs, rfl⟩; exact ⟨rfl, hs⟩
  · rintro ⟨hr, hs⟩; exact ⟨m.toSpan, hs, by rw [← hr]⟩

/-- The landmarks of a role are the keywords of its words. -/
theorem filter_landmarks_perm (d : Document) (block : FlowBlock) (direction : Direction)
    (role : Role) :
    (((d.landmarks block direction).filter (·.role == role)).map (·.toSpan)).Perm
      (((block.words direction).filter (·.1 == role)).flatMap fun w =>
        d.keywords w.2 .flowControl) := by
  refine (((List.mergeSort_perm _ _).filter _).map _).trans (.of_eq ?_)
  induction block.words direction with
  | nil => rfl
  | cons w ws ih =>
    rw [List.flatMap_cons, List.filter_append, List.map_append, ih, List.filter_cons]
    by_cases hw : w.1 = role
    · have hall : (d.landmarksOf w).filter (·.role == role) = d.landmarksOf w :=
        List.filter_eq_self.2 fun m hm => by
          obtain ⟨s, -, rfl⟩ := List.mem_map.1 hm
          exact beq_iff_eq.2 hw
      rw [hall, if_pos (beq_iff_eq.2 hw), List.flatMap_cons, landmarksOf, List.map_map]
      exact congrArg (· ++ _) (List.map_id _)
    · have hnone : (d.landmarksOf w).filter (·.role == role) = [] :=
        List.filter_eq_nil_iff.2 fun m hm => by
          obtain ⟨s, -, rfl⟩ := List.mem_map.1 hm
          exact fun h => hw (beq_iff_eq.1 h)
      rw [hnone, if_neg fun h => hw (beq_iff_eq.1 h), List.map_nil, List.nil_append]

/-- The words of a block are solid and differ by more than case. -/
structure Legible (d : Document) (block : FlowBlock) (direction : Direction) : Prop where
  solid : ∀ w ∈ block.words direction, d.Solid w.2
  distinct : (block.words direction).Pairwise fun a b =>
    a.2.toList.map Unicode.foldCase ≠ b.2.toList.map Unicode.foldCase

/-- Under the standard word characters the words of the language's blocks are legible. -/
theorem legible_of_standardWordChars (hd : d.wordChars = standardWordChars)
    (hb : block ∈ FlowBlock.all) (direction : Direction) : d.Legible block direction := by
  have hlower : ∀ b ∈ FlowBlock.all, ∀ direction : Direction, ∀ w ∈ b.words direction,
      w.2.toList ≠ [] ∧ (w.2.toList.all fun c => 'a'.toNat ≤ (Unicode.foldCase c).toNat &&
        (Unicode.foldCase c).toNat ≤ 'z'.toNat) = true := by
    intro b hb direction
    simp only [FlowBlock.all, List.mem_cons, List.not_mem_nil, or_false] at hb
    rcases hb with rfl | rfl <;> cases direction <;> decide
  refine ⟨fun w hw => ?_, ?_⟩
  · obtain ⟨hne, hcase⟩ := hlower block hb direction w hw
    refine solid_of_letters (letters_subset hd) hne fun c hc => ?_
    simpa using List.all_eq_true.1 hcase c hc
  · simp only [FlowBlock.all, List.mem_cons, List.not_mem_nil, or_false] at hb
    rcases hb with rfl | rfl <;> cases direction <;> decide

/-- The landmarks of a document do not overlap. -/
theorem apart_landmarks (h : d.Legible block direction) :
    Landmark.Apart (d.landmarks block direction) := by
  have hkey : ∀ {m : Landmark}, m ∈ d.landmarks block direction →
      ∃ w, d.Solid w ∧ m.toSpan ∈ d.keywords w .flowControl := fun hm => by
    obtain ⟨w, hw, -, hs⟩ := mem_landmarks.1 hm
    exact ⟨w.2, h.solid w hw, hs⟩
  have hne : ((block.words direction).flatMap d.landmarksOf).Pairwise
      fun a b => a.start ≠ b.start := by
    rw [List.pairwise_flatMap]
    constructor
    · intro w _
      exact List.pairwise_map.2 ((keywords_pairwise d w.2 _).imp Nat.ne_of_lt)
    · refine h.distinct.imp_of_mem fun {v w} hv hw hvw a ha b hb heq => ?_
      obtain ⟨s, hs, rfl⟩ := List.mem_map.1 ha
      obtain ⟨t, ht, rfl⟩ := List.mem_map.1 hb
      exact hvw (keywords_inj (h.solid v hv) (h.solid w hw) hs ht heq).2
  have hsorted : (d.landmarks block direction).Pairwise fun a b => a.start ≤ b.start := by
    have := @List.pairwise_mergeSort _ (fun a b : Landmark => decide (a.start ≤ b.start))
      (fun a b c hab hbc => by simp only [decide_eq_true_eq] at *; omega)
      (fun a b => by simp only [Bool.or_eq_true, decide_eq_true_eq]; omega)
      ((block.words direction).flatMap d.landmarksOf)
    exact this.imp of_decide_eq_true
  have hne' : (d.landmarks block direction).Pairwise fun a b => a.start ≠ b.start :=
    ((List.mergeSort_perm _ _).pairwise_iff Ne.symm).2 hne
  refine ⟨fun m hm => ?_, (hsorted.and hne').imp_of_mem fun ha hb hab => ?_⟩
  · obtain ⟨w, hw, hs⟩ := hkey hm
    exact (keywords_nonempty hw hs).1
  · obtain ⟨v, hv, hs⟩ := hkey ha
    obtain ⟨w, hw, ht⟩ := hkey hb
    exact keywords_disjoint hv hw hs ht (Nat.lt_of_le_of_ne hab.1 hab.2)

/-- A keyword that is the only one of its role gives all landmarks of that role. -/
theorem keywords_eq_landmarks (h : d.Legible block direction) {role : Role} {word : String}
    (hw : (block.words direction).filter (·.1 == role) = [(role, word)]) :
    ((d.landmarks block direction).filter (·.role == role)).map (·.toSpan) =
      d.keywords word .flowControl := by
  have hp := filter_landmarks_perm d block direction role
  rw [hw, List.flatMap_singleton] at hp
  have hapart := (apart_landmarks h).filter (·.role == role)
  refine Span.eq_of_perm hp (List.pairwise_map.2 ?_) (keywords_pairwise d word _)
  refine hapart.pairwise.imp_of_mem fun ha _ hab => ?_
  exact Nat.le_of_lt (Nat.lt_of_lt_of_le (hapart.nonempty _ ha) hab)

/-- The nearest mark of a solid word is the first of its keywords that lies ahead. -/
theorem nearest?_marks_of_solid {word : String} (hsolid : d.Solid word) (style : Style)
    (direction : Direction) (offset : Nat) :
    (d.marks word style).nearest? direction offset =
      (direction.read ((d.keywords word style).filter (direction.isAhead offset))).head? := by
  have hbounds : ∀ s ∈ d.keywords word style, s.stop ≤ d.size := fun s hs =>
    (keywords_nonempty hsolid hs).2
  cases direction with
  | forward =>
    rw [Marks.nearest?, between_marks hsolid]
    refine congrArg List.head? (List.filter_congr fun s hs => ?_)
    show (decide (offset ≤ s.start) && decide (s.stop ≤ d.size)) = decide (offset ≤ s.start)
    rw [decide_eq_true (hbounds s hs), Bool.and_true]
  | backward =>
    rw [Marks.nearest?, between_marks hsolid, Direction.read, List.head?_reverse]
    refine congrArg List.getLast? (List.filter_congr fun s _ => ?_)
    show (decide (0 ≤ s.start) && decide (s.stop ≤ offset)) = decide (s.stop ≤ offset)
    rw [decide_eq_true (Nat.zero_le _), Bool.true_and]

/-- The nearest mark of a word is the first landmark of its role. -/
theorem nearest?_marks (h : d.Legible block direction) {role : Role} {word : String}
    (hsolid : d.Solid word)
    (hw : (block.words direction).filter (·.1 == role) = [(role, word)]) (offset : Nat) :
    (d.marks word .flowControl).nearest? direction offset =
      Landmark.first? (d.landmarks block direction) direction role offset := by
  rw [nearest?_marks_of_solid hsolid, ← keywords_eq_landmarks h hw, Landmark.first?,
    Direction.ahead, ← List.head?_filter, ← List.head?_map, List.filter_map]
  cases direction with
  | forward =>
    simp only [Direction.read, List.filter_filter, Function.comp_def, Bool.and_comm]
  | backward =>
    simp only [Direction.read, List.filter_filter, Function.comp_def, Bool.and_comm,
      List.filter_reverse, List.map_reverse]

/-- The branch words that are listed for a way are the landmarks between its ends. -/
theorem branchWords_perm (h : d.Legible block direction) (gaps : List Span) (last : Span) :
    (d.branchWords block ⟨last, gaps⟩).Perm
      (gaps.flatMap (Landmark.branchesIn (d.landmarks block direction) direction)) := by
  refine (List.mergeSort_perm _ _).trans (List.Perm.flatMap_left _ fun gap _ => ?_)
  have hbranches : (block.words direction).filter (·.1 == Role.branch) =
      block.branches.map fun w => (.branch, w) := by
    rw [FlowBlock.words, List.filter_cons_of_neg Bool.false_ne_true,
      List.filter_cons_of_neg Bool.false_ne_true, List.filter_eq_self]
    intro w hw
    obtain ⟨_, -, rfl⟩ := List.mem_map.1 hw
    rfl
  have hp := filter_landmarks_perm d block direction .branch
  rw [hbranches, List.flatMap_map] at hp
  have hin := hp.filter fun s => decide (gap.start ≤ s.start) && decide (s.stop ≤ gap.stop)
  refine .trans (.of_eq ?_) (hin.symm.trans ?_)
  · rw [List.flatMap_map, List.filter_flatMap]
    refine List.flatMap_congr fun w hw => ?_
    refine between_marks (h.solid (.branch, w) ?_) _ _ _
    rw [FlowBlock.words]
    simp [hw]
  · rw [Landmark.branchesIn, Landmark.within]
    refine .trans (.of_eq ?_) ((((direction.perm_read _).symm).filter _).map _)
    rw [List.filter_map, List.filter_filter, List.filter_filter]
    simp only [Function.comp_def, Bool.and_comm]

end Document

end Papyrus

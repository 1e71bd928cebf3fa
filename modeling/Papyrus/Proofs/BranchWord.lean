import Papyrus.Proofs.KeywordToken
import Papyrus.Proofs.Nesting
/-!
# The branch words of a block

A branch word cuts the body of its block in two bodies (`Landmark.Divides`), so that a scan from it
finds one end of the block in each direction. What the two scans find on their ways is, put
together, what a scan from one end finds. All keywords of an `If` block therefore highlight the same
spans.

Results:
* `divides_course_iff`: a branch word stands in a block if both scans from it end.
* `highlights_congr`: matches with the same spans highlight the same.
* `highlights_ifBlock`: the keywords of an `If` block highlight the same, and a branch word belongs
  to the block that it is matched with.
-/
namespace Papyrus

namespace Landmark

/-- Among landmarks `e` is a branch word of the block from `a` to `b`, with some of the block's
branch words before and the others behind it. -/
def Divides (l : List Landmark) (a e b : Span) (before behind : List Span) : Prop :=
  ∃ pre body body' post,
    l = pre ++ ⟨a, .near⟩ :: (body ++ ⟨e, .branch⟩ :: (body' ++ ⟨b, .far⟩ :: post)) ∧
      Body body before ∧ Body body' behind

variable {l : List Landmark} {a b e : Span} {before behind : List Span}

theorem Divides.encloses (h : Divides l a e b before behind) :
    Encloses l a b (before ++ e :: behind) := by
  obtain ⟨pre, body, body', post, rfl, hbody, hbody'⟩ := h
  exact ⟨pre, body ++ ⟨e, .branch⟩ :: body', post, by simp, hbody.append (.branch hbody')⟩

theorem Encloses.exists_divides {branches : List Span} (h : Encloses l a b branches)
    (he : e ∈ branches) :
    ∃ before behind, branches = before ++ e :: behind ∧ Divides l a e b before behind := by
  obtain ⟨pre, body, post, rfl, hbody⟩ := h
  obtain ⟨first, before, second, behind, rfl, rfl, hfirst, hsecond⟩ := hbody.split he
  exact ⟨before, behind, rfl, pre, first, second, post, by simp, hfirst, hsecond⟩

end Landmark

namespace Document

variable {d : Document} {block : FlowBlock}

/-- A branch word stands in a block if the scans from it in both directions end. -/
theorem divides_course_iff (h : ∀ direction, d.Legible block direction) {a e b : Span}
    {before behind : List Span} :
    Landmark.Divides (d.course block .forward) a e b before behind ↔
      ⟨e, .branch⟩ ∈ d.landmarks block .forward ∧
        d.depthScan block .forward e.stop = some (b, behind) ∧
        d.depthScan block .backward e.start = some (a, before.reverse) := by
  have hturn : d.course block .backward = Landmark.turn (d.course block .forward) :=
    course_flip (h .forward) (h .backward)
  have hforward {pre post : List Landmark}
      (hl : d.course block .forward = pre ++ ⟨e, .branch⟩ :: post) :
      Direction.forward.ahead e.stop (d.landmarks block .forward) = post :=
    (apart_landmarks (h .forward)).ahead_past .forward hl
  have hbackward {pre post : List Landmark}
      (hl : d.course block .forward = pre ++ ⟨e, .branch⟩ :: post) :
      Direction.backward.ahead e.start (d.landmarks block .backward) = Landmark.turn pre := by
    have hback : d.course block .backward =
        Landmark.turn post ++ ⟨e, .branch⟩ :: Landmark.turn pre := by
      rw [hturn, hl, Landmark.turn_append, Landmark.turn_cons]
      simp [Landmark.flip, Role.flip]
    exact (apart_landmarks (h .backward)).ahead_past .backward hback
  rw [depthScan, depthScan, Landmark.scan_eq_some_iff, Landmark.scan_eq_some_iff]
  constructor
  · rintro ⟨pre, body, body', post, hl, hbody, hbody'⟩
    have hl' : d.course block .forward =
        (pre ++ ⟨a, .near⟩ :: body) ++ ⟨e, .branch⟩ :: (body' ++ ⟨b, .far⟩ :: post) := by
      rw [hl]
      simp
    refine ⟨?_, ⟨body', post, hforward hl', hbody'⟩, Landmark.turn body, Landmark.turn pre, ?_,
      hbody.turn⟩
    · have hmem : ⟨e, .branch⟩ ∈ d.course block .forward := by simp [hl']
      exact hmem
    · rw [hbackward hl', Landmark.turn_append, Landmark.turn_cons]
      simp [Landmark.flip, Role.flip]
  · rintro ⟨he, ⟨body', post, hahead, hbody'⟩, body, rest, hback, hbody⟩
    obtain ⟨pre, post', hl⟩ := List.append_of_mem (show _ ∈ d.course block .forward from he)
    obtain rfl := (hforward hl).symm.trans hahead
    have hpre : pre = Landmark.turn rest ++ ⟨a, .near⟩ :: Landmark.turn body := by
      rw [← Landmark.turn_turn pre, ← hbackward hl, hback, Landmark.turn_append,
        Landmark.turn_cons]
      simp [Landmark.flip, Role.flip]
    refine ⟨Landmark.turn rest, Landmark.turn body, body', post, ?_, ?_, hbody'⟩
    · rw [hl, hpre]
      simp
    · have hturned := hbody.turn
      rwa [List.reverse_reverse] at hturned

end Document

/-! ## Highlights -/

theorem Span.le_antisymm {a b : Span} (h : a.le b = true) (h' : b.le a = true) : a = b := by
  obtain ⟨start, stop⟩ := a
  obtain ⟨start', stop'⟩ := b
  simp only [le, Bool.or_eq_true, Bool.and_eq_true, decide_eq_true_eq, beq_iff_eq] at h h'
  congr 1 <;> omega

/-- Matches with the same spans, in whatever order, highlight the same. -/
theorem BlockMatch.highlights_congr {m m' : BlockMatch} (hfound : m.found = true)
    (hfound' : m'.found = true)
    (h : (m.keyword.toList ++ m.auxiliary ++ m.counterparts).Perm
      (m'.keyword.toList ++ m'.auxiliary ++ m'.counterparts)) : m.highlights = m'.highlights := by
  have hsorted : ∀ l : List Span, (l.mergeSort Span.le).Pairwise (Span.le · ·) := fun l =>
    @List.pairwise_mergeSort _ Span.le (fun _ _ _ => Span.le_trans) Span.le_total l
  rw [highlights, highlights, hfound, hfound', if_pos rfl, if_pos rfl]
  congr 1
  refine List.Perm.eq_of_pairwise (fun _ _ _ _ => Span.le_antisymm) (hsorted _) (hsorted _) ?_
  exact (List.mergeSort_perm _ _).trans (h.trans (List.mergeSort_perm _ _).symm)

theorem Span.sort_eq_self {l : List Span} (h : l.Pairwise fun a b => a.start ≤ b.start) :
    Span.sort l = l :=
  List.mergeSort_of_pairwise (h.imp decide_eq_true)

/-! ## Matching branch words -/

namespace Document

section
variable {d : Document} (h : ∀ direction, d.Legible .ifBlock direction)
include h

/-- The match of a branch word that stands in a block. -/
theorem matchBranch_of_divides {a e b : Span} {before behind : List Span}
    (hab : Landmark.Divides (d.course .ifBlock .forward) a e b before behind) :
    d.matchBranch e =
      { found := true, keyword := some e, counterparts := [a, b],
        auxiliary := before ++ behind } := by
  have hencloses := hab.encloses
  obtain ⟨-, hdown, hup⟩ := (divides_course_iff h).1 hab
  have hwayDown := blockWay?_eq_depthScan (h .forward) e.stop
  have hwayUp := blockWay?_eq_depthScan (h .backward) e.start
  rw [hdown] at hwayDown
  rw [hup] at hwayUp
  obtain ⟨down, hdownWay, hdownEq⟩ := Option.map_eq_some_iff.1 hwayDown
  obtain ⟨up, hupWay, hupEq⟩ := Option.map_eq_some_iff.1 hwayUp
  obtain ⟨rfl, hdownWords⟩ := Prod.mk.inj hdownEq
  obtain ⟨rfl, hupWords⟩ := Prod.mk.inj hupEq
  have hbehind : d.branchWords .ifBlock down = behind := hdownWords
  have hbefore : d.branchWords .ifBlock up = before := by
    rw [hupWords]
    exact List.reverse_reverse before
  have hends := hencloses.apart (apart_landmarks (h .forward))
  have hcounterparts : [up.last, down.last].Pairwise fun a b => a.start ≤ b.start := by
    simp only [List.pairwise_pair]
    omega
  have hbranches : (before ++ behind).Pairwise fun a b => a.start ≤ b.start := by
    have hall := depthScan_apart (h .forward) ((encloses_course_iff (h .forward)).1 hencloses).2
    refine List.Pairwise.sublist ?_ (hall.imp fun hab => Nat.le_of_lt
      (Nat.lt_of_lt_of_le hab.1 hab.2))
    exact List.Sublist.append_left (List.sublist_cons_self e behind) before
  rw [matchBranch, hupWay, hdownWay]
  simp only [Option.isSome_some, Bool.and_self, Option.toList_some, List.singleton_append,
    List.map_cons, List.map_nil, List.flatMap_cons, List.flatMap_nil, List.append_nil, hbefore,
    hbehind, Span.sort_eq_self hcounterparts, Span.sort_eq_self hbranches]

/-- A branch word that is found stands in a block. -/
theorem divides_of_found {e : Span} (he : ⟨e, .branch⟩ ∈ d.landmarks .ifBlock .forward)
    (hfound : (d.matchBranch e).found = true) :
    ∃ a b before behind,
      Landmark.Divides (d.course .ifBlock .forward) a e b before behind := by
  obtain ⟨hup, hdown⟩ := Bool.and_eq_true_iff.1 (show (_ && _) = true from hfound)
  have hwayDown := congrArg Option.isSome (blockWay?_eq_depthScan (h .forward) e.stop)
  have hwayUp := congrArg Option.isSome (blockWay?_eq_depthScan (h .backward) e.start)
  rw [Option.isSome_map, Option.isSome_map, hdown] at hwayDown
  rw [Option.isSome_map, Option.isSome_map, hup] at hwayUp
  obtain ⟨⟨b, behind⟩, hb⟩ := Option.isSome_iff_exists.1 hwayDown.symm
  obtain ⟨⟨a, before⟩, ha⟩ := Option.isSome_iff_exists.1 hwayUp.symm
  refine ⟨a, b, before.reverse, behind, (divides_course_iff h).2 ⟨he, hb, ?_⟩⟩
  rw [ha, List.reverse_reverse]

end

theorem mem_landmarks_branch {d : Document} {block : FlowBlock} {direction : Direction}
    {s : Span} :
    ⟨s, .branch⟩ ∈ d.landmarks block direction ↔
      ∃ w ∈ block.branches, s ∈ d.keywords w .flowControl := by
  rw [mem_landmarks]
  simp [FlowBlock.words]

/-- The match of a branch word whose style is that of code. -/
theorem matchKeyword_eq_matchBranch {d : Document} {caret : Nat}
    (hname : d.wordName caret ∈ FlowBlock.ifBlock.branches) :
    d.matchKeyword caret =
      if d.styleAt (d.wordAt caret).start = .flowControl then d.matchBranch (d.wordAt caret)
      else {} := by
  have hconstruct : ∀ w ∈ FlowBlock.ifBlock.branches, Construct.ofWord? w = some .branch := by
    decide
  exact matchKeyword_of_ofWord? (hconstruct _ hname)

/-! ## The keywords of an `If` block -/

theorem wordChars_restyleAll (x : Lexer) (files : FileTree) {d : Document}
    (h : d.readLimit = none) : (x.restyleAll files d).2.wordChars = d.wordChars := by
  rw [x.restyleAll_eq files h]
  dsimp only
  rw [withLines_eq (Lines.styled_ne_nil.2 d.lines_ne_nil)]

/-- In a styled document, from every caret on a branch word of a block the block is found. -/
theorem matchKeyword_of_divides {d : Document} {env : Surroundings} (hd : d.Styled env)
    (hwords : env.words = .standard) (hread : d.readLimit = none)
    (hchars : d.wordChars = standardWordChars) {a e b : Span} {before behind : List Span}
    (h : Landmark.Divides (d.course .ifBlock .forward) a e b before behind) {caret : Nat}
    (hlo : e.start ≤ caret) (hhi : caret ≤ e.stop) :
    d.matchKeyword caret =
      { found := true, keyword := some e, counterparts := [a, b],
        auxiliary := before ++ behind } := by
  have hblock : FlowBlock.ifBlock ∈ FlowBlock.all := by decide
  have hlegible := legible_of_standardWordChars hchars hblock
  obtain ⟨he, -, -⟩ := (divides_course_iff hlegible).1 h
  obtain ⟨w, hw, hkeyword⟩ := mem_landmarks_branch.1 he
  have hplain := FlowBlock.plain_of_mem_branches hblock hw
  have hrole : Style.flowControl.listRole? = some .flowControl := rfl
  obtain ⟨-, -, -, -, -, -, -, -, -, hascii⟩ := keyword_eq_token hd hread hchars hplain hrole
    (fun v hv => plain_standard hrole (hwords ▸ hv)) hkeyword
  obtain ⟨hword, hname⟩ := wordName_of_keyword hread hchars hplain hkeyword hascii hlo hhi
  have hstyle : d.styleAt e.start = .flowControl := by
    obtain ⟨-, -, -, hstyle, -⟩ := mem_keywords.1 hkeyword
    exact hstyle
  rw [matchKeyword_eq_matchBranch (hname ▸ hw), hword, if_pos hstyle,
    matchBranch_of_divides hlegible h]

/-- From the closer of an `If` block the spans of the `If` are highlighted. -/
theorem highlights_of_closer {d : Document} (hread : d.readLimit = none)
    (hchars : d.wordChars = standardWordChars) {a b : Span} {branches : List Span}
    (hab : Landmark.Encloses (d.course .ifBlock .forward) a b branches) {c : Nat}
    (hlo : b.start ≤ c) (hhi : c ≤ b.stop) :
    (d.matchKeyword c).found = true ∧ (d.matchKeyword c).highlights = BlockMatch.highlights
      { found := true, keyword := some a, counterparts := [b], auxiliary := branches } := by
  have hblock : FlowBlock.ifBlock ∈ FlowBlock.all := by decide
  have hlegible := legible_of_standardWordChars hchars hblock
  have hba := encloses_course_flip (hlegible .forward) (hlegible .backward) hab
  have hback := matchKeyword_of_encloses hread hchars hblock hba hlo hhi
  refine ⟨by rw [hback], BlockMatch.highlights_congr (by rw [hback]) rfl ?_⟩
  rw [hback]
  have hbranches : Direction.backward.read branches.reverse = branches :=
    List.reverse_reverse branches
  calc b :: (Direction.backward.read branches.reverse) ++ [a]
    _ = b :: branches ++ [a] := by rw [hbranches]
    (b :: branches ++ [a]).Perm (a :: (b :: branches)) := List.perm_append_singleton _ _
    (a :: (b :: branches)).Perm (a :: (branches ++ [b])) :=
      (List.perm_append_singleton b branches).symm.cons a

/-- From a branch word of an `If` block the spans of the `If` are highlighted. -/
theorem highlights_of_branch {d : Document} {env : Surroundings} (hd : d.Styled env)
    (hwords : env.words = .standard) (hread : d.readLimit = none)
    (hchars : d.wordChars = standardWordChars) {a b : Span} {branches : List Span}
    (hab : Landmark.Encloses (d.course .ifBlock .forward) a b branches) {e : Span}
    (he : e ∈ branches) :
    e.start < e.stop ∧ ∀ c, e.start ≤ c → c ≤ e.stop →
      (d.matchKeyword c).found = true ∧ (d.matchKeyword c).keyword = some e ∧
        (d.matchKeyword c).counterparts = [a, b] ∧
        (d.matchKeyword c).highlights = BlockMatch.highlights
          { found := true, keyword := some a, counterparts := [b], auxiliary := branches } := by
  have hlegible := @legible_of_standardWordChars d .ifBlock hchars (by decide)
  obtain ⟨before, behind, heq, hdivides⟩ := hab.exists_divides he
  refine ⟨(apart_landmarks (hlegible .forward)).nonempty _
    ((divides_course_iff hlegible).1 hdivides).1, fun c hlo hhi => ?_⟩
  have hbranch := matchKeyword_of_divides hd hwords hread hchars hdivides hlo hhi
  refine ⟨by rw [hbranch], by rw [hbranch], by rw [hbranch],
    BlockMatch.highlights_congr (by rw [hbranch]) rfl ?_⟩
  rw [hbranch, heq]
  calc e :: (before ++ behind) ++ [a, b]
    (e :: (before ++ behind) ++ [a, b]).Perm (a :: (e :: (before ++ behind) ++ [b])) :=
      List.perm_middle
    (a :: (e :: (before ++ behind) ++ [b])).Perm (a :: (before ++ e :: behind ++ [b])) :=
      (List.perm_middle.symm.append_right [b]).cons a

/-- A branch word that is found is one of a block. -/
theorem encloses_of_branch {d : Document} (hread : d.readLimit = none)
    (hchars : d.wordChars = standardWordChars) {caret : Nat}
    (hname : d.wordName caret ∈ FlowBlock.ifBlock.branches)
    (hfound : (d.matchKeyword caret).found = true) :
    ∃ a b branches, Landmark.Encloses (d.course .ifBlock .forward) a b branches ∧
      (d.matchKeyword caret).counterparts = [a, b] ∧ d.wordAt caret ∈ branches := by
  have hblock : FlowBlock.ifBlock ∈ FlowBlock.all := by decide
  have hlegible := legible_of_standardWordChars hchars hblock
  have hmatch := matchKeyword_eq_matchBranch hname
  by_cases hstyle : d.styleAt (d.wordAt caret).start = .flowControl
  · rw [if_pos hstyle] at hmatch
    have hkeyword := mem_keywords_of_wordName hread hchars
      (FlowBlock.plain_of_mem_branches hblock hname) rfl hstyle
    obtain ⟨a, b, before, behind, hdivides⟩ := divides_of_found hlegible
      (mem_landmarks_branch.2 ⟨_, hname, hkeyword⟩) (hmatch ▸ hfound)
    refine ⟨a, b, _, hdivides.encloses, ?_, List.mem_append_right before List.mem_cons_self⟩
    rw [hmatch, matchBranch_of_divides hlegible hdivides]
  · rw [hmatch, if_neg hstyle] at hfound
    cases hfound

/-- In a document that has been styled with the words of the language, an `EndIf` and the branch
words of its block highlight what the `If` highlights, from every caret on them; a branch word has
the `If` and the `EndIf` as counterparts, in this order. A branch word that is found is one of those
that its `If` lists. -/
theorem highlights_ifBlock {x : Lexer} (files : FileTree) {d₀ : Document}
    (hwords : x.words = .standard) (hread : d₀.readLimit = none)
    (hchars : d₀.wordChars = standardWordChars) :
    let d := (x.restyleAll files d₀).2
    (∀ caret, d.wordName caret = "if" → (d.matchKeyword caret).found = true →
      ∃ a b, (d.matchKeyword caret).keyword = some a ∧
        (d.matchKeyword caret).counterparts = [b] ∧ a.stop ≤ b.start ∧ b.start < b.stop ∧
        (∀ c, b.start ≤ c → c ≤ b.stop → (d.matchKeyword c).found = true ∧
          (d.matchKeyword c).highlights = (d.matchKeyword caret).highlights) ∧
        ∀ e ∈ (d.matchKeyword caret).auxiliary, e.start < e.stop ∧
          ∀ c, e.start ≤ c → c ≤ e.stop →
            (d.matchKeyword c).found = true ∧ (d.matchKeyword c).keyword = some e ∧
              (d.matchKeyword c).counterparts = [a, b] ∧
              (d.matchKeyword c).highlights = (d.matchKeyword caret).highlights) ∧
    ∀ caret, d.wordName caret ∈ FlowBlock.ifBlock.branches →
      (d.matchKeyword caret).found = true →
      ∃ a b, (d.matchKeyword caret).counterparts = [a, b] ∧ a.start < a.stop ∧
        ∀ c, a.start ≤ c → c ≤ a.stop → d.wordName c = "if" ∧
          (d.matchKeyword c).found = true ∧ (d.matchKeyword c).counterparts = [b] ∧
          d.wordAt caret ∈ (d.matchKeyword c).auxiliary := by
  intro d
  have hstyled : d.Styled (x.surroundings files) := x.styled_restyleAll files hread
  have hchars : d.wordChars = standardWordChars := (wordChars_restyleAll x files hread).trans hchars
  have hread : d.readLimit = none := (x.readLimit_restyleAll files d₀).trans hread
  have hblock : FlowBlock.ifBlock ∈ FlowBlock.all := by decide
  have hlegible := legible_of_standardWordChars hchars hblock .forward
  constructor
  · intro caret hname hfound
    obtain ⟨b, branches, hab, hmatch⟩ :=
      @encloses_of_found d .ifBlock .forward hread hchars hblock caret hname hfound
    obtain ⟨-, hle, hlt⟩ := hab.apart (apart_landmarks hlegible)
    rw [hmatch]
    exact ⟨_, b, rfl, rfl, hle, hlt, fun c => highlights_of_closer hread hchars hab,
      fun e => highlights_of_branch hstyled hwords hread hchars hab⟩
  · intro caret hname hfound
    obtain ⟨a, b, branches, hab, hcounterparts, hmem⟩ :=
      encloses_of_branch hread hchars hname hfound
    refine ⟨a, b, hcounterparts, (hab.apart (apart_landmarks hlegible)).1, fun c hlo hhi => ?_⟩
    obtain ⟨ha, -⟩ := (encloses_course_iff hlegible).1 hab
    rw [matchKeyword_of_encloses hread hchars hblock hab hlo hhi]
    exact ⟨(wordName_of_near hread hchars hblock ha hlo hhi).2.1, rfl, rfl, hmem⟩

/-- The two ends of a block and the branch word between them. -/
theorem highlights_else :
    let d := ((Lexer.ofSettings {}).restyleAll {} (ofText "else" "If\nELSE\nEndIf".toList)).2
    (d.matchKeyword 0).counterparts = [⟨8, 13⟩] ∧
      (d.matchKeyword 10).highlights = (d.matchKeyword 0).highlights ∧
      ∃ a, (d.matchKeyword 5).range? = some a ∧
        ⟨3, 7⟩ ∈ (d.matchKeyword a.start).auxiliary := by
  intro d
  obtain ⟨hends, hbranches⟩ := @highlights_ifBlock (.ofSettings {}) {}
    (ofText "else" "If\nELSE\nEndIf".toList) rfl rfl rfl
  obtain ⟨hif, hfound, hcounterparts, helse, hfoundElse, hword⟩ : d.wordName 0 = "if" ∧
      (d.matchKeyword 0).found = true ∧ (d.matchKeyword 0).counterparts = [⟨8, 13⟩] ∧
      d.wordName 5 ∈ FlowBlock.ifBlock.branches ∧ (d.matchKeyword 5).found = true ∧
      d.wordAt 5 = ⟨3, 7⟩ := by decide +kernel
  refine ⟨hcounterparts, ?_, ?_⟩
  · obtain ⟨a, b, -, hb, -, -, hend, -⟩ := hends 0 hif hfound
    obtain ⟨rfl, -⟩ := List.cons.inj (hb.symm.trans hcounterparts)
    exact (hend 10 (by decide) (by decide)).2
  · obtain ⟨a, b, hab, ha, hif⟩ := hbranches 5 helse hfoundElse
    refine ⟨a, by rw [BlockMatch.range?, hab]; rfl, ?_⟩
    rw [← hword]
    exact (hif a.start (Nat.le_refl _) (Nat.le_of_lt ha)).2.2.2

end Document

end Papyrus

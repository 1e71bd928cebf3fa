import Mathlib.Data.List.Chain
import Mathlib.Data.List.Forall2
import Papyrus.Proofs.CaretWord
import Papyrus.Proofs.Terminal
import Papyrus.Proofs.WrittenLines
import Papyrus.Render
/-!
# Documents on a terminal

The runs of one style of a line are its characters in order, cut where the style changes
(`Render.Cut`). A terminal shows each of them in a colour run of its own, or in none if it is plain
text, so that neighbours share a run if and only if they have the same style. A line feed ends each
line outside all runs.

Results:
* `write_runs`, `write_lines`: what runs of one style, and lines of them, put on the screen.
* `cut_runs`: the runs of a line.
* `coloured_cellsOf`: the cells of such runs are in the colours of their styles.
* `shown_render`: what a terminal shows of a document.
-/
namespace Papyrus

namespace Terminal

/-! ## Runs in the colours of their styles -/

theorem colourOn_eq {colour : Colour} {n : Nat} (h : colour.code? = some n) :
    Render.colourOn colour =
      escape :: '[' :: (("38;5;".toList ++ Nat.toDigits 10 n) ++ ['m']) := by
  rw [Render.colourOn, h]
  simp [escape, Nat.toString_eq_repr]

/-- The colour run of text in a style, if `n` runs have been opened before. -/
def runOf (n : Nat) (s : Style) : Option ColourRun := s.colour.code?.map (⟨n, ·⟩)

/-- How many runs have been opened after text in a style, if `n` have been before. -/
def openedAfter (n : Nat) (r : Style × Text) : Nat :=
  if r.2 = [] ∨ r.1 = .default then n else n + 1

/-- The cells of runs of one style, each with the style. -/
def cellsOf (n : Nat) : List (Style × Text) → List (Cell × Style)
  | [] => []
  | r :: rs => r.2.map (fun c => (⟨c, runOf n r.1⟩, r.1)) ++ cellsOf (openedAfter n r) rs

theorem exists_code? {s : Style} (h : s ≠ .default) : ∃ n, s.colour.code? = some n := by
  cases s <;> first | contradiction | exact ⟨_, rfl⟩

section
variable (cells : List Cell) (n : Nat)

theorem write_run (s : Style) {text : Text} (h : escape ∉ text) :
    write ⟨.text, cells, none, n⟩ (Render.run s text) =
      some ⟨.text, cells ++ text.map (⟨·, runOf n s⟩), none, openedAfter n (s, text)⟩ := by
  rw [Render.run, openedAfter]
  by_cases htext : text = []
  · rw [if_pos htext, if_pos (Or.inl htext), htext, List.map_nil, List.append_nil]
    rfl
  rw [if_neg htext]
  by_cases hs : s = .default
  · subst hs
    rw [if_pos rfl, if_pos (Or.inr rfl), write_text h]
    rfl
  · obtain ⟨colour, hcolour⟩ := exists_code? hs
    have hon : write ⟨.text, cells, none, n⟩ (Render.colourOn s.colour) =
        some ⟨.text, cells, some ⟨n, colour⟩, n + 1⟩ := by
      rw [colourOn_eq hcolour, write_sequence (isParameter_palette colour)]
      exact congrArg (Option.map _) (palette?_toDigits colour)
    have hoff : ∀ cells, write ⟨.text, cells, some ⟨n, colour⟩, n + 1⟩ Render.colourOff =
        some ⟨.text, cells, none, n + 1⟩ := by
      intro cells
      exact write_sequence (List.all_eq_true.1 (show ['0'].all isParameter = true by decide))
    rw [if_neg hs, if_neg (not_or.2 ⟨htext, hs⟩), write_append, write_append, hon, Option.bind_some,
      write_text h, Option.bind_some, hoff, runOf, hcolour]
    rfl

theorem write_runs {rs : List (Style × Text)} (h : ∀ r ∈ rs, escape ∉ r.2) :
    write ⟨.text, cells, none, n⟩ (rs.flatMap fun (s, t) => Render.run s t) =
      some ⟨.text, cells ++ (cellsOf n rs).map (·.1), none, rs.foldl openedAfter n⟩ := by
  induction rs generalizing cells n with
  | nil => rw [cellsOf, List.map_nil, List.append_nil]; rfl
  | cons r rs ih =>
    obtain ⟨hr, hrs⟩ := List.forall_mem_cons.1 h
    rw [List.flatMap_cons, write_append, write_run cells n r.1 hr, Option.bind_some, ih _ _ hrs,
      cellsOf, List.map_append, List.map_map, List.append_assoc]
    rfl

/-- Lines are shown one behind the other, with their terminators outside all runs. -/
theorem write_lines {lines : List (List (Style × Text))}
    (h : ∀ rs ∈ lines, ∀ r ∈ rs, escape ∉ r.2) : ∃ rows m,
    write ⟨.text, cells, none, n⟩
        (lines.flatMap fun rs => rs.flatMap (fun (s, t) => Render.run s t) ++ ['\n']) =
      some ⟨.text, cells ++ rows.flatMap (· ++ [⟨'\n', none⟩]), none, m⟩ ∧
    List.Forall₂ (fun rs row => ∃ k, row = (cellsOf k rs).map (·.1)) lines rows := by
  induction lines generalizing cells n with
  | nil => exact ⟨[], n, by rw [List.flatMap_nil, List.flatMap_nil, List.append_nil]; rfl, .nil⟩
  | cons rs lines ih =>
    obtain ⟨hrs, hlines⟩ := List.forall_mem_cons.1 h
    have hend : ∀ cells n, write ⟨.text, cells, none, n⟩ ['\n'] =
        some ⟨.text, cells ++ [⟨'\n', none⟩], none, n⟩ := fun _ _ => rfl
    obtain ⟨rows, m, hrows, hall⟩ := ih _ _ hlines
    refine ⟨(cellsOf n rs).map (·.1) :: rows, m, ?_, .cons ⟨n, rfl⟩ hall⟩
    rw [List.flatMap_cons, write_append, write_append, write_runs cells n hrs, Option.bind_some,
      hend, Option.bind_some, hrows, List.flatMap_cons, List.append_assoc, List.append_assoc,
      List.append_assoc]

end

end Terminal

/-! ## The runs of a line -/

namespace Text

/-- The characters of a text that starts at an offset, each with the style of its first byte. -/
def styled (styleAt : Nat → Style) (offset : Nat) : Text → List (Char × Style)
  | [] => []
  | c :: t => (c, styleAt offset) :: styled styleAt (offset + c.utf8Size) t

theorem map_fst_styled (styleAt : Nat → Style) (offset : Nat) (t : Text) :
    (t.styled styleAt offset).map (·.1) = t := by
  induction t generalizing offset with
  | nil => rfl
  | cons c t ih => exact congrArg (c :: ·) (ih _)

theorem snd_of_getElem?_styled {styleAt : Nat → Style} {offset : Nat} {t : Text} {i : Nat}
    {p : Char × Style} (h : (t.styled styleAt offset)[i]? = some p) :
    p.2 = styleAt (offset + size (t.take i)) := by
  induction t generalizing offset i with
  | nil => cases h
  | cons c t ih =>
    cases i with
    | zero => exact Option.some.inj h ▸ rfl
    | succ i => rw [ih h, List.take_succ_cons, size_cons, Nat.add_assoc]

end Text

namespace Render

/-- Characters with styles are cut into runs, the first of which has the given style: no run is
empty, and neighbours differ in style. -/
structure Cut (first : Style) (chars : List (Char × Style)) (runs : List (Style × Text)) :
    Prop where
  chars_eq : runs.flatMap (fun r => r.2.map (·, r.1)) = chars
  ne_nil : ∀ r ∈ runs, r.2 ≠ []
  apart : runs.IsChain fun r r' => r.1 ≠ r'.1
  first_eq : ∀ r ∈ runs.head?, r.1 = first

/-- The loop over a text that is cut up to the run that is open, and is followed by the rest. -/
theorem cut_runsFrom {text before run rest : Text} {start pos : Nat} (styleAt : Nat → Style)
    (current : Style) (htext : text = before ++ run ++ rest) (hne : run ≠ [])
    (hstart : start = before.size) (hpos : pos = start + run.size) :
    Cut current (run.map (·, current) ++ Text.styled styleAt pos rest)
      (runsFrom text styleAt start current pos rest) := by
  induction rest generalizing before run start pos current with
  | nil =>
    have hslice : text.slice start text.size = run := by
      have hsize : text.size = before.size + run.size := by
        rw [htext, List.append_nil, Text.size_append]
      rw [hsize, hstart, htext, Text.slice_cut]
    rw [runsFrom, hslice, Text.styled, List.append_nil]
    exact ⟨List.flatMap_singleton .., by simpa using hne, .singleton _, by simp⟩
  | cons c rest ih =>
    rw [runsFrom, Text.styled]
    by_cases hstyle : styleAt pos = current
    · -- the run goes on
      have hopen := ih current (show text = before ++ (run ++ [c]) ++ rest by rw [htext]; simp)
        (by simp) hstart (show pos + c.utf8Size = start + (run ++ [c]).size by
          rw [hpos, Text.size_append, Nat.add_assoc]
          rfl)
      rw [List.map_append, List.append_assoc] at hopen
      rw [if_pos hstyle, hstyle]
      exact hopen
    · -- the run ends, and the character opens another one
      have hslice : text.slice start pos = run := by
        rw [hpos, hstart, htext, Text.slice_cut]
      have hbehind := ih (styleAt pos)
        (show text = (before ++ run) ++ [c] ++ rest by rw [htext]; simp) (by simp)
        (show pos = (before ++ run).size by rw [hpos, hstart, Text.size_append])
        (show pos + c.utf8Size = pos + Text.size [c] from rfl)
      rw [if_neg hstyle, hslice]
      exact {
        chars_eq := by rw [List.flatMap_cons, hbehind.chars_eq]; rfl
        ne_nil := List.forall_mem_cons.2 ⟨hne, hbehind.ne_nil⟩
        apart := List.isChain_cons.2
          ⟨fun r hr h => hstyle ((hbehind.first_eq r hr).symm.trans h.symm), hbehind.apart⟩
        first_eq := fun r hr => by cases hr; rfl }

end Render

/-- The runs of a line with some text. -/
theorem Document.cut_runs {d : Document} {line : Nat} {l : Line} (h : d.lines[line]? = some l)
    (hne : l.text ≠ []) :
    Render.Cut (l.styleAt 0) (l.text.styled (fun i => d.styleAt (d.lineStart line + i)) 0)
      (d.runs line l) := by
  obtain ⟨c, rest, htext⟩ := List.exists_cons_of_ne_nil hne
  have hfirst : d.styleAt (d.lineStart line + 0) = l.styleAt 0 := by
    have hstyle := styleAt_withLines rfl h (Nat.zero_le l.size)
    rwa [withLines_lines] at hstyle
  have hcut := Render.cut_runsFrom (fun i => d.styleAt (d.lineStart line + i)) (l.styleAt 0)
    (show c :: rest = [] ++ [c] ++ rest from rfl) (by simp) (show 0 = Text.size [] from rfl)
    (show 0 + c.utf8Size = 0 + Text.size [c] from rfl)
  have htake : Text.size (l.text.take 1) = 0 + c.utf8Size := by
    rw [htext, Nat.zero_add]
    rfl
  rw [runs, htake, htext, List.drop_one, List.tail_cons, Text.styled, hfirst]
  exact hcut

/-! ## Cells in their colours -/

/-- The characters of a line, by their styles, are in colour: one in plain text has none, any other
one stands in a run of the colour of its style, and neighbours that both have a colour share a run
if and only if they have the same style. -/
structure Coloured (style : Nat → Style) (row : List Cell) : Prop where
  plain : ∀ i cell, row[i]? = some cell → style i = .default → cell.run = none
  coloured : ∀ i cell, row[i]? = some cell → style i ≠ .default →
    ∃ run, cell.run = some run ∧ (style i).colour.code? = some run.colour
  shared : ∀ i cell next, row[i]? = some cell → row[i + 1]? = some next →
    style i ≠ .default → style (i + 1) ≠ .default →
      (cell.run = next.run ↔ style i = style (i + 1))

theorem Coloured.nil (style : Nat → Style) : Coloured style [] := ⟨by simp, by simp, by simp⟩

namespace Terminal

theorem map_cellsOf (n : Nat) (rs : List (Style × Text)) :
    (cellsOf n rs).map (fun p => (p.1.char, p.2)) = rs.flatMap fun r => r.2.map (·, r.1) := by
  induction rs generalizing n with
  | nil => rfl
  | cons r rs ih =>
    rw [cellsOf, List.map_append, List.map_map, ih, List.flatMap_cons]
    rfl

/-- A cell stands in a run of its style. -/
theorem exists_run_of_mem {n : Nat} {rs : List (Style × Text)} {p : Cell × Style}
    (h : p ∈ cellsOf n rs) : ∃ m, p.1.run = runOf m p.2 := by
  induction rs generalizing n with
  | nil => cases h
  | cons r rs ih =>
    rcases List.mem_append.1 h with hmem | hmem
    · obtain ⟨c, -, rfl⟩ := List.mem_map.1 hmem
      exact ⟨n, rfl⟩
    · exact ih hmem

/-- Neighbours that both have a colour share a run if they have the same style, and else not. -/
def Shares (p q : Cell × Style) : Prop :=
  p.2 ≠ .default → q.2 ≠ .default → (p.1.run = q.1.run ↔ p.2 = q.2)

/-- The first cell of runs. -/
theorem mem_head?_cellsOf {n : Nat} {r : Style × Text} {rs : List (Style × Text)} (h : r.2 ≠ [])
    {p : Cell × Style} (hp : p ∈ (cellsOf n (r :: rs)).head?) :
    p.1.run = runOf n r.1 ∧ p.2 = r.1 := by
  obtain ⟨c, t, ht⟩ := List.exists_cons_of_ne_nil h
  rw [cellsOf, ht, List.map_cons, List.cons_append, List.head?_cons] at hp
  cases hp
  exact ⟨rfl, rfl⟩

/-- A run that is opened behind a coloured one is another one. -/
theorem runOf_ne {n : Nat} {s s' : Style} (hs : s ≠ .default) (hs' : s' ≠ .default) :
    runOf n s ≠ runOf (n + 1) s' := by
  obtain ⟨colour, hcolour⟩ := exists_code? hs
  obtain ⟨colour', hcolour'⟩ := exists_code? hs'
  rw [runOf, runOf, hcolour, hcolour']
  simp

theorem isChain_cellsOf {rs : List (Style × Text)} (hne : ∀ r ∈ rs, r.2 ≠ [])
    (hapart : rs.IsChain fun r r' => r.1 ≠ r'.1) (n : Nat) : (cellsOf n rs).IsChain Shares := by
  induction rs generalizing n with
  | nil => exact .nil
  | cons r rs ih =>
    obtain ⟨hr, hne⟩ := List.forall_mem_cons.1 hne
    obtain ⟨hnext, hapart⟩ := List.isChain_cons.1 hapart
    refine List.isChain_append.2 ⟨?within, ih hne hapart _, ?between⟩
    case within =>
      refine (List.pairwise_map.2 (List.pairwise_of_forall fun c c' => ?_)).isChain
      exact fun _ _ => iff_of_true rfl rfl
    case between =>
      intro p hp q hq hpcolour hqcolour
      obtain ⟨c, -, rfl⟩ := List.mem_map.1 (List.mem_of_mem_getLast? hp)
      cases rs with
      | nil => cases hq
      | cons r' rs =>
        obtain ⟨hrun, hstyle⟩ := mem_head?_cellsOf (hne r' List.mem_cons_self) hq
        have hopened : openedAfter n r = n + 1 := if_neg (not_or.2 ⟨hr, hpcolour⟩)
        rw [hopened] at hrun
        rw [hstyle] at hqcolour
        refine iff_of_false ?_ (hstyle ▸ hnext r' rfl)
        rw [hrun]
        exact runOf_ne hpcolour hqcolour

/-- The cells of a line that is cut into runs are in the colours of its styles. -/
theorem coloured_cellsOf {first : Style} {styleAt : Nat → Style} {offset : Nat} {t : Text}
    {rs : List (Style × Text)} (h : Render.Cut first (t.styled styleAt offset) rs) (n : Nat) :
    ((cellsOf n rs).map (·.1)).map Cell.char = t ∧
      Coloured (fun i => styleAt (offset + Text.size (t.take i))) ((cellsOf n rs).map (·.1)) := by
  have hcells : (cellsOf n rs).map (fun p => (p.1.char, p.2)) = t.styled styleAt offset := by
    rw [map_cellsOf, h.chars_eq]
  have hstyle : ∀ {i : Nat} {p : Cell × Style}, (cellsOf n rs)[i]? = some p →
      p.2 = styleAt (offset + Text.size (t.take i)) := by
    intro i p hp
    refine Text.snd_of_getElem?_styled (p := (p.1.char, p.2)) ?_
    rw [← hcells, List.getElem?_map, hp, Option.map_some]
  have hcell : ∀ {i : Nat} {cell : Cell}, ((cellsOf n rs).map (·.1))[i]? = some cell →
      ∃ p : Cell × Style, (cellsOf n rs)[i]? = some p ∧ p.1 = cell := by
    intro i cell hi
    rwa [List.getElem?_map, Option.map_eq_some_iff] at hi
  refine ⟨?_, ?plain, ?coloured, ?shared⟩
  · rw [← t.map_fst_styled styleAt offset, ← hcells, List.map_map, List.map_map]
    rfl
  case plain =>
    intro i cell hi hdefault
    obtain ⟨p, hp, rfl⟩ := hcell hi
    obtain ⟨m, hrun⟩ := exists_run_of_mem (List.mem_of_getElem? hp)
    rw [hrun, hstyle hp, hdefault]
    rfl
  case coloured =>
    intro i cell hi hcolour
    obtain ⟨p, hp, rfl⟩ := hcell hi
    obtain ⟨m, hrun⟩ := exists_run_of_mem (List.mem_of_getElem? hp)
    obtain ⟨colour, hcode⟩ := exists_code? hcolour
    rw [hstyle hp, runOf, hcode] at hrun
    exact ⟨_, hrun, hcode⟩
  case shared =>
    intro i cell next hi hnext hcolour hcolour'
    obtain ⟨p, hp, rfl⟩ := hcell hi
    obtain ⟨q, hq, rfl⟩ := hcell hnext
    have hchain := List.isChain_iff_getElem.1 (isChain_cellsOf h.ne_nil h.apart n)
    have hshares : Shares p q := by
      obtain ⟨hlt, rfl⟩ := List.getElem?_eq_some_iff.1 hq
      obtain ⟨-, rfl⟩ := List.getElem?_eq_some_iff.1 hp
      exact hchain i hlt
    rw [Shares, hstyle hp, hstyle hq] at hshares
    exact hshares hcolour hcolour'

end Terminal

/-! ## Rendered documents -/

theorem Text.mem_joinLines {ts : List Text} {t : Text} (ht : t ∈ ts) {c : Char} (hc : c ∈ t) :
    c ∈ joinLines ts := by
  induction ts with
  | nil => cases ht
  | cons u ts ih =>
    by_cases hts : ts = []
    · subst hts
      rwa [List.mem_singleton.1 ht] at hc
    · rw [joinLines_cons hts]
      rcases List.mem_cons.1 ht with rfl | ht
      · exact List.mem_append_left _ hc
      · exact List.mem_append_right _ (List.mem_cons_of_mem _ (ih ht))

namespace Document
variable {d : Document}

theorem runs_of_nil (line : Nat) {l : Line} (h : l.text = []) :
    d.runs line l = [(l.styleAt 0, [])] := by
  rw [runs, h]
  rfl

section
variable {line : Nat} {l : Line} (h : d.lines[line]? = some l)
include h

/-- The characters of the runs of a line are those of the line. -/
theorem mem_text_of_mem_runs {r : Style × Text} (hr : r ∈ d.runs line l) {c : Char}
    (hc : c ∈ r.2) : c ∈ l.text := by
  by_cases hne : l.text = []
  · rw [runs_of_nil line hne, List.mem_singleton] at hr
    rw [hr] at hc
    cases hc
  · have hmem : (c, r.1) ∈ (d.runs line l).flatMap fun r => r.2.map (·, r.1) :=
      List.mem_flatMap.2 ⟨r, hr, List.mem_map.2 ⟨c, hc, rfl⟩⟩
    rw [(cut_runs h hne).chars_eq] at hmem
    rw [← l.text.map_fst_styled (fun i => d.styleAt (d.lineStart line + i)) 0]
    exact List.mem_map.2 ⟨_, hmem, rfl⟩

/-- The cells of a line show its characters in the colours of their styles. -/
theorem cellsOf_runs (n : Nat) :
    ((Terminal.cellsOf n (d.runs line l)).map (·.1)).map Cell.char = l.text ∧
      Coloured (fun i => d.styleAt (d.lineStart line + Text.size (l.text.take i)))
        ((Terminal.cellsOf n (d.runs line l)).map (·.1)) := by
  by_cases hne : l.text = []
  · rw [runs_of_nil line hne, hne]
    exact ⟨rfl, .nil _⟩
  · have hcells := Terminal.coloured_cellsOf (cut_runs h hne) n
    simpa only [Nat.zero_add] using hcells

end

/-- A terminal shows every line of a document on a row of its own. -/
theorem write_render (d : Document) (h : Terminal.escape ∉ d.text) :
    ∃ (rows : List (List Cell)) (m : Nat), Terminal.write {} (d.render false) =
        some ⟨.text, rows.flatMap (· ++ [⟨'\n', none⟩]), none, m⟩ ∧
      rows.length = d.lineCount ∧
      ∀ line l, d.lines[line]? = some l → ∃ row, rows[line]? = some row ∧
        row.map Cell.char = l.text ∧
        Coloured (fun i => d.styleAt (d.lineStart line + Text.size (l.text.take i))) row := by
  have hescape : ∀ rs ∈ d.lines.zipIdx.map fun p => d.runs p.2 p.1, ∀ r ∈ rs,
      Terminal.escape ∉ r.2 := by
    intro rs hrs r hr hmem
    obtain ⟨⟨l, line⟩, hline, rfl⟩ := List.mem_map.1 hrs
    have hl := List.mem_zipIdx_iff_getElem?.1 hline
    refine h (Text.mem_joinLines (List.mem_map.2 ⟨l, List.mem_of_getElem? hl, rfl⟩) ?_)
    exact mem_text_of_mem_runs hl hr hmem
  obtain ⟨rows, m, hrows, hall⟩ := Terminal.write_lines [] 0 hescape
  obtain ⟨hlength, hrow⟩ := List.forall₂_iff_get.1 hall
  rw [List.length_map, List.length_zipIdx] at hlength
  rw [List.flatMap_map] at hrows
  refine ⟨rows, m, hrows, hlength.symm, fun line l hl => ?_⟩
  obtain ⟨hlt, rfl⟩ := List.getElem?_eq_some_iff.1 hl
  obtain ⟨k, hk⟩ := hrow line (by simpa using hlt) (hlength ▸ hlt)
  simp only [List.get_eq_getElem, List.getElem_map, List.getElem_zipIdx, Nat.zero_add] at hk
  refine ⟨_, List.getElem?_eq_getElem (hlength ▸ hlt), ?_⟩
  rw [hk]
  exact cellsOf_runs hl k

/-- What a terminal shows of a document without escape characters, in whatever way it is styled.
Without the colour sequences the output is the texts of the lines, with a line feed behind each; and
the terminal shows each line on a row of its own, with the characters in the colours of their styles
and the line feeds outside all runs. -/
theorem shown_render (d : Document) (h : Terminal.escape ∉ d.text) :
    Terminal.strip .text (d.render false) = d.lines.flatMap (fun l => l.text ++ ['\n']) ∧
      ∃ rows : List (List Cell),
        Terminal.shown? (d.render false) = some (rows.flatMap (· ++ [⟨'\n', none⟩])) ∧
        rows.length = d.lineCount ∧
        ∀ line l, d.lines[line]? = some l → ∃ row, rows[line]? = some row ∧
          row.map Cell.char = l.text ∧
          Coloured (fun i => d.styleAt (d.lineStart line + Text.size (l.text.take i))) row := by
  obtain ⟨rows, m, hwrite, hlength, hrow⟩ := d.write_render h
  refine ⟨?_, rows, ?_, hlength, hrow⟩
  · have htexts : rows.map (·.map Cell.char) = d.lines.map Line.text := by
      refine List.ext_getElem? fun line => ?_
      rw [List.getElem?_map, List.getElem?_map]
      cases hl : d.lines[line]? with
      | none =>
        have hle := List.getElem?_eq_none_iff.1 hl
        rw [List.getElem?_eq_none (hlength ▸ hle)]
        rfl
      | some l =>
        obtain ⟨row, hsome, htext, -⟩ := hrow line l hl
        rw [hsome, Option.map_some, htext, Option.map_some]
    have hstrip := Terminal.map_char_write hwrite
    rw [List.map_nil, List.nil_append] at hstrip
    rw [← hstrip]
    calc (rows.flatMap (· ++ [⟨'\n', none⟩])).map Cell.char
        = (rows.map (·.map Cell.char)).flatMap (· ++ ['\n']) := by
          simp [List.map_flatMap, List.flatMap_map]
      _ = d.lines.flatMap (fun l => l.text ++ ['\n']) := by rw [htexts, List.flatMap_map]
  · rw [Terminal.shown?, hwrite]
    rfl

/-- A word in a colour, an empty line, and two comments of one colour, the second of which begins at
a character and ends inside it: the two do not share a run. -/
theorem shown_render_neighbours :
    let d := (((Document.ofText "t" "If ;\u00e9 x\n".toList).paint 0 2 .flowControl).paint 3 4
      .comment).paint 4 5 .commentMultiLine
    Terminal.strip .text (d.render false) = "If ;\u00e9 x\n\n".toList ∧
      ∃ rows : List (List Cell),
        Terminal.shown? (d.render false) = some (rows.flatMap (· ++ [⟨'\n', none⟩])) ∧
        rows.length = 2 ∧
        ∃ row, rows[0]? = some row ∧ row.map Cell.char = "If ;\u00e9 x".toList ∧
          ∀ cell next, row[3]? = some cell → row[4]? = some next → cell.run ≠ next.run := by
  intro d
  obtain ⟨hstrip, rows, hshown, hlength, hrows⟩ := shown_render d (by decide +kernel)
  obtain ⟨row, hrow, htext, hcoloured⟩ :=
    hrows 0 _ (List.getElem?_eq_getElem (show 0 < d.lines.length by decide +kernel))
  refine ⟨hstrip.trans (by decide +kernel), rows, hshown, hlength.trans (by decide +kernel), row,
    hrow, htext.trans (by decide +kernel), fun cell next hcell hnext hrun => ?_⟩
  have hstyle := (hcoloured.shared 3 cell next hcell hnext (by decide +kernel)
    (by decide +kernel)).1 hrun
  exact absurd hstyle (by decide +kernel)

end Document

end Papyrus

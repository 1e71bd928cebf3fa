import Papyrus.Proofs.LineWrite
/-!
# Styling line by line

How a line is styled depends on what is read of it, on the state and the knowledge with which it is
entered, and on whether a line follows; it does not depend on where in the document the line starts.
A run over a document is therefore a run over its list of lines (`Lines.styled`).

A run that starts further down takes up the state from a terminator. The terminator of a line that
was styled, and has a line behind it, tells the state that the line left, so that styling block by
block is styling at once.

Results:
* `styleLine_shift`: the styles of a line, wherever it starts.
* `restyleRun_split`: a run over a document is a run over its lines.
* `incomingState_restyleRun`: the state after a run can be read off the document.
* `restyleBlocks_eq`: styling block by block is styling at once.
-/
namespace Papyrus

/-! ## Where a line starts -/

/-- The token of a line that starts `n` bytes further on. -/
def Token.shift (n : Nat) (t : Token) : Token := { t with start := t.start + n, stop := t.stop + n }

/-- The span of a line that starts `n` bytes further on. -/
def StyledSpan.shift (n : Nat) (s : StyledSpan) : StyledSpan := ⟨⟨s.start + n, s.stop + n⟩, s.style⟩

namespace Token

@[simp] theorem content_shift (n : Nat) (t : Token) : (t.shift n).content = t.content := rfl

@[simp] theorem kind_shift (n : Nat) (t : Token) : (t.shift n).kind = t.kind := rfl

@[simp] theorem touches_shift (n : Nat) (t next : Token) :
    (t.shift n).touches (next.shift n) = t.touches next := by
  rw [touches, touches, Bool.eq_iff_iff, beq_iff_eq, beq_iff_eq]
  exact Nat.add_right_cancel_iff

theorem scan_shift (line : Text) (base n : Nat) :
    scan line (base + n) = (scan line base).map (shift n) := by
  fun_induction scan line base with
  | case1 base => rw [scan]; rfl
  | case2 base c t h ih => rw [scan, if_pos h, ← ih, Nat.add_right_comm]
  | case3 base c t h lex stop ih =>
    rw [scan, if_neg h, List.map_cons, ← ih]
    dsimp only
    rw [Nat.add_right_comm base n]
    rfl

end Token

section
variable (env : Surroundings) (line : Nat) (n : Nat)

theorem isCallee_shift (word : String) (next : Option Token) :
    isCallee word (next.map (Token.shift n)) = isCallee word next := by
  cases next <;> rfl

theorem styleIdentifier_shift (word : String) (next : Option Token) (k : Knowledge) :
    styleIdentifier env line word (next.map (Token.shift n)) k =
      styleIdentifier env line word next k := by
  unfold styleIdentifier
  rw [isCallee_shift]
  -- whether a declaration follows depends on the kind of the next token
  rcases next with _ | ⟨content, kind, start, stop⟩
  · rfl
  · cases kind <;> rfl

theorem styleCode_shift (t : Token) (next : Option Token) (k : Knowledge) :
    styleCode env line (t.shift n) (next.map (Token.shift n)) k = styleCode env line t next k := by
  unfold styleCode
  rw [Token.content_shift, Token.kind_shift, styleIdentifier_shift]
  cases next <;> simp

theorem closes_shift (mode : Mode) (behind : List Token) (t : Token) :
    closes mode (behind.map (Token.shift n)) (t.shift n) = closes mode behind t := by
  unfold closes
  cases mode with
  | commentMultiLine => cases behind <;> simp
  | string => simp [isEscaped, List.takeWhile_map, Function.comp_def]
  | _ => rfl

theorem styleToken_shift (mode : Mode) (behind : List Token) (t : Token) (next : Option Token)
    (k : Knowledge) :
    styleToken env line mode (behind.map (Token.shift n)) (t.shift n) (next.map (Token.shift n)) k =
      styleToken env line mode behind t next k := by
  cases mode with
  | code => exact styleCode_shift env line n t next k
  | _ => simp only [styleToken, closes_shift]

theorem gap_shift (start stop : Nat) (style : Style) :
    gap (start + n) (stop + n) style = (gap start stop style).map (StyledSpan.shift n) := by
  unfold gap
  by_cases h : start < stop
  · rw [if_pos h, if_pos (by omega)]; rfl
  · rw [if_neg h, if_neg (by omega)]; rfl

theorem styleTokens_shift (mode : Mode) (behind : List Token) (cursor : Nat) (k : Knowledge)
    (tokens : List Token) :
    styleTokens env line mode (behind.map (Token.shift n)) (cursor + n) k
        (tokens.map (Token.shift n)) =
      let r := styleTokens env line mode behind cursor k tokens
      (r.1.map (StyledSpan.shift n), r.2.1 + n, r.2.2) := by
  induction tokens generalizing mode behind cursor k with
  | nil => rfl
  | cons t rest ih =>
    have ih := ih (styleToken env line mode behind t rest.head? k).2.1 (t :: behind) t.stop
      (styleToken env line mode behind t rest.head? k).2.2
    rw [List.map_cons, styleTokens, List.head?_map, styleToken_shift]
    rw [List.map_cons] at ih
    simp only [styleTokens, List.map_append, List.map_cons, ← gap_shift]
    rw [show (t.shift n).stop = t.stop + n from rfl, ih]
    rfl

end

/-- The styles of a line that starts `n` bytes into a document. -/
def LineStyles.shift (n : Nat) (s : LineStyles) : LineStyles :=
  { s with spans := s.spans.map (StyledSpan.shift n) }

theorem styleLine_shift (env : Surroundings) (text : Text) (base line : Nat) (incoming : LineState)
    (k : Knowledge) :
    styleLine env text base line incoming k =
      let r := styleLine env text 0 line incoming k
      (r.1.shift base, r.2) := by
  have hscan : Token.scan text base = (Token.scan text 0).map (Token.shift base) := by
    rw [← Token.scan_shift, Nat.zero_add]
  have htokens := styleTokens_shift env line base (.ofState incoming) [] 0 k (Token.scan text 0)
  rw [List.map_nil, Nat.zero_add] at htokens
  simp only [styleLine, hscan, htokens, LineStyles.shift, List.map_append, ← gap_shift,
    Nat.zero_add, Nat.add_comm base]

theorem Line.restyle_shift (l : Line) (styles : LineStyles) (start read : Nat) (followed : Bool) :
    l.restyle (styles.shift start) start read followed = l.restyle styles 0 read followed := by
  have hspans : ∀ (spans : List StyledSpan) (l : Line), (spans.map (StyledSpan.shift start)).foldl
      (fun l s => l.paint (s.start - start) (s.stop - start) s.style) l =
        spans.foldl (fun l s => l.paint (s.start - 0) (s.stop - 0) s.style) l := by
    intro spans l
    rw [List.foldl_map]
    simp only [StyledSpan.shift, Nat.add_sub_cancel_right, Nat.sub_zero]
  unfold restyle LineStyles.shift
  simp only [hspans]

/-! ## Runs over a list of lines -/

theorem ofStyle_trailing (env : Surroundings) (text : Text) (base line : Nat)
    (incoming : LineState) (k : Knowledge) :
    LineState.ofStyle (styleLine env text base line incoming k).1.trailing =
      (styleLine env text base line incoming k).1.endState :=
  Mode.ofStyle_style _

/-- Styles a line of which `read` was read. -/
def Line.styled (l : Line) (env : Surroundings) (read : Text) (line : Nat) (incoming : LineState)
    (k : Knowledge) (followed : Bool) : LineState × Knowledge × Line :=
  let (styles, k) := styleLine env read 0 line incoming k
  (styles.endState, k, l.restyle styles 0 read.size followed)

/-- Styles the first `count` lines, which have the indices from `line` on; `cut` tells what is read
of a text. -/
def Lines.styled (cut : Text → Text) (env : Surroundings) (line : Nat) (incoming : LineState)
    (k : Knowledge) : Nat → Lines → LineState × Knowledge × Lines
  | 0, ls => (incoming, k, ls)
  | _ + 1, [] => (incoming, k, [])
  | count + 1, l :: ls =>
    let (state, k, l) := l.styled env (cut l.text) line incoming k (!ls.isEmpty)
    let (final, k, ls) := styled cut env (line + 1) state k count ls
    (final, k, l :: ls)

theorem Lines.styled_ne_nil {cut : Text → Text} {env : Surroundings} {line : Nat}
    {incoming : LineState} {k : Knowledge} {count : Nat} {ls : Lines} :
    (styled cut env line incoming k count ls).2.2 ≠ [] ↔ ls ≠ [] := by
  cases count <;> cases ls <;> simp [styled]

theorem Lines.map_text_styled (cut : Text → Text) (env : Surroundings) (line : Nat)
    (incoming : LineState) (k : Knowledge) (count : Nat) (ls : Lines) :
    (styled cut env line incoming k count ls).2.2.map Line.text = ls.map Line.text := by
  induction ls generalizing line incoming k count with
  | nil => cases count <;> rfl
  | cons l ls ih =>
    cases count with
    | zero => rfl
    | succ count =>
      rw [styled, List.map_cons, List.map_cons, ih]
      exact congrArg (· :: _) (Line.text_restyle _ _ _ _ _)

namespace Document

section
variable {d : Document} (env : Surroundings) {pre post : Lines} {l : Line}

theorem restyleLine_split (h : d.lines = pre ++ l :: post) (incoming : LineState) (k : Knowledge) :
    d.restyleLine env pre.length incoming k =
      let r := l.styled env (d.cut l.text) pre.length incoming k (!post.isEmpty)
      (r.1, r.2.1, d.withLines (pre ++ r.2.2 :: post)) := by
  have hfollowed : decide (pre.length + 1 < d.lineCount) = !post.isEmpty := by
    rw [lineCount_split h]
    cases post <;> simp
  rw [restyleLine_eq]
  unfold Line.styled
  simp only [read_line h, hfollowed]
  rw [styleLine_shift]
  simp only [Line.restyle_shift, modifyLine_split h]
  rfl

theorem restyleRun_split {ls : Lines} (h : d.lines = pre ++ ls) (incoming : LineState)
    (k : Knowledge) {count : Nat} (hcount : count ≤ ls.length) :
    d.restyleRun env pre.length incoming k count =
      let r := Lines.styled d.cut env pre.length incoming k count ls
      (r.1, r.2.1, d.withLines (pre ++ r.2.2)) := by
  induction count generalizing d pre ls incoming k with
  | zero =>
    dsimp only [restyleRun, Lines.styled]
    rw [← h, withLines_lines]
  | succ count ih =>
    cases ls with
    | nil => exact absurd hcount (Nat.not_succ_le_zero _)
    | cons l ls =>
      rw [restyleRun, restyleLine_split env h, Lines.styled]
      generalize l.styled env (d.cut l.text) pre.length incoming k (!ls.isEmpty) = r
      obtain ⟨state, k', l'⟩ := r
      have hlines : (d.withLines (pre ++ l' :: ls)).lines = (pre ++ [l']) ++ ls := by
        rw [lines_withLines (Lines.append_cons_ne_nil pre l' ls), List.append_cons]
      have ih := ih hlines state k' (Nat.le_of_succ_le_succ hcount)
      rw [List.length_append, List.length_singleton, cut_withLines] at ih
      dsimp only
      rw [ih]
      simp only [withLines_withLines, List.append_assoc, List.singleton_append]

end

theorem restyleRun_add (d : Document) (env : Surroundings) (line : Nat) (incoming : LineState)
    (k : Knowledge) (m n : Nat) :
    d.restyleRun env line incoming k (m + n) =
      let r := d.restyleRun env line incoming k m
      r.2.2.restyleRun env (line + m) r.1 r.2.1 n := by
  induction m generalizing d line incoming k with
  | zero => rw [Nat.zero_add]; rfl
  | succ m ih =>
    rw [Nat.succ_add, restyleRun, restyleRun]
    generalize d.restyleLine env line incoming k = r
    obtain ⟨state, k', d'⟩ := r
    dsimp only
    rw [ih, Nat.add_right_comm line]
    rfl

/-! ## Runs that take up the state from a terminator -/

theorem lineCount_restyleLine (d : Document) (env : Surroundings) (line : Nat)
    (incoming : LineState) (k : Knowledge) :
    (d.restyleLine env line incoming k).2.2.lineCount = d.lineCount := by
  rw [restyleLine_eq]
  simp [modifyLine, lineCount]

theorem lineCount_restyleRun (d : Document) (env : Surroundings) (line : Nat)
    (incoming : LineState) (k : Knowledge) (count : Nat) :
    (d.restyleRun env line incoming k count).2.2.lineCount = d.lineCount := by
  induction count generalizing d line incoming k with
  | zero => rfl
  | succ count ih => rw [restyleRun, ih, lineCount_restyleLine]

theorem incomingState_restyleLine {d : Document} (env : Surroundings) {line : Nat}
    (h : line + 1 < d.lineCount) (incoming : LineState) (k : Knowledge) :
    Lexer.incomingState (d.restyleLine env line incoming k).2.2 (line + 1) =
      (d.restyleLine env line incoming k).1 := by
  obtain ⟨pre, l, post, hsplit, rfl⟩ := Lines.exists_split_at (Nat.lt_of_succ_lt h)
  have hfollowed : (!post.isEmpty) = true := by
    rw [lineCount_split hsplit] at h
    cases post with
    | nil => simp at h
    | cons => rfl
  rw [restyleLine_split env hsplit, hfollowed]
  dsimp only [Line.styled]
  have hsize := l.size_restyle (styleLine env (d.cut l.text) 0 pre.length incoming k).1 0
    (d.cut l.text).size true
  rw [Lexer.incomingState, lineEnd, lines_withLines (Lines.append_cons_ne_nil _ _ _),
    Lines.lineEnd_split, styleAt_line (lines_withLines (Lines.append_cons_ne_nil _ _ _))
      (Nat.le_refl _), hsize, Line.styleAt_restyle_size, ofStyle_trailing]

/-- What a run leaves open is told by the terminator of its last line, if a line follows. -/
theorem incomingState_restyleRun {d : Document} (env : Surroundings) {line count : Nat}
    (hpos : 0 < count) (h : line + count < d.lineCount) (incoming : LineState) (k : Knowledge) :
    Lexer.incomingState (d.restyleRun env line incoming k count).2.2 (line + count) =
      (d.restyleRun env line incoming k count).1 := by
  obtain ⟨n, rfl⟩ : ∃ n, count = n + 1 := ⟨count - 1, by omega⟩
  have hcount := d.lineCount_restyleRun env line incoming k n
  rw [restyleRun_add, ← Nat.add_assoc]
  exact incomingState_restyleLine env (by omega) _ _

end Document

namespace Lexer

/-- What styling looks up and does not change. -/
def surroundings (x : Lexer) (files : FileTree) : Surroundings :=
  ⟨x.words, x.settings.profile?, files⟩

/-- What styling has found out so far. -/
def knowledge (x : Lexer) : Knowledge := ⟨x.properties, x.classes⟩

/-- A lexer that knows what styling has found out. -/
def learn (x : Lexer) (k : Knowledge) : Lexer :=
  { x with properties := k.properties, classes := k.classes }

theorem restyle_eq (x : Lexer) (files : FileTree) (d : Document) (first last : Nat)
    (incoming : LineState) :
    x.restyle files d first last incoming =
      let r := d.restyleRun (x.surroundings files) first incoming x.knowledge
        (d.lineSpan first last)
      (r.1, x.learn r.2.1, r.2.2) := rfl

/-- Styling some lines is a run over the lines from the first of them on. -/
theorem restyle_lines (x : Lexer) (files : FileTree) {d : Document} {first : Nat}
    (h : first < d.lineCount) (last : Nat) (incoming : LineState) :
    x.restyle files d first last incoming =
      let r := Lines.styled d.cut (x.surroundings files) first incoming x.knowledge
        (d.lineSpan first last) (d.lines.drop first)
      (r.1, x.learn r.2.1, d.withLines (d.lines.take first ++ r.2.2)) := by
  have hlen : d.lines.length = d.lineCount := rfl
  have hpre : (d.lines.take first).length = first := by
    rw [List.length_take]
    omega
  have hcount : d.lineSpan first last ≤ (d.lines.drop first).length := by
    rw [Document.lineSpan, List.length_drop]
    omega
  have hlines : d.lines = d.lines.take first ++ d.lines.drop first :=
    (List.take_append_drop _ _).symm
  have hrun := Document.restyleRun_split (x.surroundings files) hlines incoming x.knowledge hcount
  rw [hpre] at hrun
  rw [restyle_eq, hrun]

/-- Styling from a line on to the end of a document is a run over its last lines. -/
theorem restyle_split (x : Lexer) (files : FileTree) {d : Document} {pre ls : Lines}
    (h : d.lines = pre ++ ls) (incoming : LineState) :
    x.restyle files d pre.length (d.lineCount - 1) incoming =
      let r := Lines.styled d.cut (x.surroundings files) pre.length incoming x.knowledge
        ls.length ls
      (r.1, x.learn r.2.1, d.withLines (pre ++ r.2.2)) := by
  have hcount : d.lineSpan pre.length (d.lineCount - 1) = ls.length := by
    have hpos := d.lineCount_pos
    have hlen : d.lineCount = pre.length + ls.length := by
      rw [Document.lineCount, h, List.length_append]
    rw [Document.lineSpan]
    omega
  rw [restyle_eq, hcount, Document.restyleRun_split _ h _ _ (Nat.le_refl _)]

/-- Nothing is styled behind the last line. -/
theorem restyle_beyond (x : Lexer) (files : FileTree) {d : Document} {first : Nat}
    (h : d.lineCount ≤ first) (last : Nat) (incoming : LineState) :
    x.restyle files d first last incoming = (incoming, x, d) := by
  have hspan : d.lineSpan first last = 0 := by
    have := d.lineCount_pos
    rw [Document.lineSpan]
    omega
  rw [restyle, hspan]
  rfl

theorem map_text_restyle (x : Lexer) (files : FileTree) (d : Document) (first last : Nat)
    (incoming : LineState) :
    (x.restyle files d first last incoming).2.2.lines.map Line.text = d.lines.map Line.text := by
  by_cases h : first < d.lineCount
  · have htext := Lines.map_text_styled d.cut (x.surroundings files) first incoming x.knowledge
      (d.lineSpan first last) (d.lines.drop first)
    have hlines : d.lines.take first ++ d.lines.drop first = d.lines := List.take_append_drop _ _
    have hne : d.lines.drop first ≠ [] := by
      rw [Ne, List.drop_eq_nil_iff]
      exact Nat.not_le.2 h
    rw [restyle_lines x files h, Document.lines_withLines, List.map_append, htext,
      ← List.map_append, hlines]
    exact List.append_ne_nil_of_right_ne_nil _ (Lines.styled_ne_nil.2 hne)
  · rw [restyle_beyond x files (Nat.le_of_not_lt h)]

theorem readLimit_restyle (x : Lexer) (files : FileTree) (d : Document) (first last : Nat)
    (incoming : LineState) :
    (x.restyle files d first last incoming).2.2.readLimit = d.readLimit := by
  have hrun : ∀ (env : Surroundings) (count line : Nat) (incoming : LineState) (k : Knowledge)
      (d : Document), (d.restyleRun env line incoming k count).2.2.readLimit = d.readLimit := by
    intro env count
    induction count with
    | zero => intro line incoming k d; rfl
    | succ count ih =>
      intro line incoming k d
      rw [Document.restyleRun, Document.restyleLine_eq]
      exact ih _ _ _ _
  exact hrun _ _ _ _ _ _

/-! ## Whole documents -/

/-- Styles a whole document. -/
def restyleAll (x : Lexer) (files : FileTree) (d : Document) : Lexer × Document :=
  (x.restyle files d 0 (d.lineCount - 1) .default).2

/-- Styling a document that is read in full is a run over its lines. -/
theorem restyleAll_eq (x : Lexer) (files : FileTree) {d : Document} (h : d.readLimit = none) :
    x.restyleAll files d =
      let r := Lines.styled id (x.surroundings files) 0 .default x.knowledge d.lines.length d.lines
      (x.learn r.2.1, d.withLines r.2.2) := by
  have hcut : d.cut = id := funext (Document.cut_of_unlimited h)
  have hsplit := @restyle_split x files d [] d.lines rfl .default
  rw [hcut, List.length_nil] at hsplit
  rw [restyleAll, hsplit]
  rfl

theorem lines_restyleAll (x : Lexer) (files : FileTree) {d : Document} (h : d.readLimit = none) :
    (x.restyleAll files d).2.lines =
      (Lines.styled id (x.surroundings files) 0 .default x.knowledge d.lines.length
        d.lines).2.2 := by
  rw [restyleAll_eq x files h]
  exact Document.lines_withLines (Lines.styled_ne_nil.2 d.lines_ne_nil)

theorem map_text_restyleAll (x : Lexer) (files : FileTree) (d : Document) :
    (x.restyleAll files d).2.lines.map Line.text = d.lines.map Line.text :=
  x.map_text_restyle files d _ _ _

theorem readLimit_restyleAll (x : Lexer) (files : FileTree) (d : Document) :
    (x.restyleAll files d).2.readLimit = d.readLimit := x.readLimit_restyle files d _ _ _

/-! ## Blocks of lines -/

/-- A run of lines, and then the lines behind it, are one run. -/
theorem restyleLines_restyle (x : Lexer) (files : FileTree) (d : Document) {first m n : Nat}
    (hm : 0 < m) (hn : 0 < n) (h : first + m + n ≤ d.lineCount) (incoming : LineState) :
    let r := x.restyle files d first (first + m - 1) incoming
    r.2.1.restyleLines files r.2.2 (first + m) (first + m + n - 1) =
      x.restyle files d first (first + m + n - 1) incoming := by
  have hspan : ∀ (e : Document), e.lineCount = d.lineCount → ∀ {lo count : Nat}, 0 < count →
      lo + count ≤ d.lineCount → e.lineSpan lo (lo + count - 1) = count := by
    intro e he lo count hcount hle
    rw [Document.lineSpan, he]
    omega
  have hfirst := hspan d rfl hm (by omega : first + m ≤ d.lineCount)
  have hall := hspan d rfl (by omega : 0 < m + n) (by omega : first + (m + n) ≤ d.lineCount)
  rw [← Nat.add_assoc] at hall
  simp only [restyleLines, restyle, hfirst, hall, Document.restyleRun_add]
  generalize henv : (⟨x.words, x.settings.profile?, files⟩ : Surroundings) = env
  have hcount := d.lineCount_restyleRun env first incoming ⟨x.properties, x.classes⟩ m
  rw [Document.incomingState_restyleRun env hm (by omega), hspan _ hcount hn h]

/-- Styles blocks of lines of the given sizes, one after the other from line `first` on. The state
is what the line before has left. -/
def restyleBlocks (x : Lexer) (files : FileTree) (d : Document) (first : Nat)
    (state : LineState) : List Nat → LineState × Lexer × Document
  | [] => (state, x, d)
  | size :: sizes =>
    let (state, x, d) := x.restyleLines files d first (first + size - 1)
    x.restyleBlocks files d (first + size) state sizes

theorem le_foldl_add (n : Nat) (sizes : List Nat) : n ≤ sizes.foldl (· + ·) n := by
  induction sizes generalizing n with
  | nil => exact Nat.le_refl n
  | cons size sizes ih => exact Nat.le_trans (Nat.le_add_right n size) (ih (n + size))

theorem restyleBlocks_restyle (x : Lexer) (files : FileTree) (d : Document) {first m : Nat}
    {sizes : List Nat} (hm : 0 < m) (hpos : ∀ n ∈ sizes, 0 < n)
    (h : sizes.foldl (· + ·) (first + m) ≤ d.lineCount) (incoming : LineState) :
    let r := x.restyle files d first (first + m - 1) incoming
    r.2.1.restyleBlocks files r.2.2 (first + m) r.1 sizes =
      x.restyle files d first (sizes.foldl (· + ·) (first + m) - 1) incoming := by
  induction sizes generalizing m with
  | nil => rfl
  | cons n sizes ih =>
    obtain ⟨hn, hpos⟩ := List.forall_mem_cons.1 hpos
    rw [List.foldl_cons, Nat.add_assoc] at h
    have hle := Nat.le_trans (le_foldl_add _ _) h
    have ih := ih (by omega : 0 < m + n) hpos h
    rw [← Nat.add_assoc] at ih hle
    dsimp only [restyleBlocks] at ih ⊢
    rw [x.restyleLines_restyle files d hm hn hle, ih, List.foldl_cons]

/-- Styling a document block by block, each block but the first in the state that the terminator
before it tells, is styling it at once. -/
theorem restyleBlocks_eq (x : Lexer) (files : FileTree) (d : Document) {size : Nat}
    {sizes : List Nat} (hpos : ∀ n ∈ size :: sizes, 0 < n)
    (hsum : (size :: sizes).foldl (· + ·) 0 = d.lineCount) :
    let r := x.restyle files d 0 (size - 1) .default
    r.2.1.restyleBlocks files r.2.2 size r.1 sizes =
      x.restyle files d 0 (d.lineCount - 1) .default := by
  obtain ⟨hsize, hpos⟩ := List.forall_mem_cons.1 hpos
  rw [List.foldl_cons] at hsum
  have hblocks := @restyleBlocks_restyle x files d 0 size sizes hsize hpos (Nat.le_of_eq hsum)
    .default
  rw [hsum, Nat.zero_add] at hblocks
  exact hblocks

/-- The second of three blocks stands in the comment that the first one opens. -/
theorem restyleBlocks_open_comment :
    let d := Document.ofText "open" ";/\nIf\n/;\nIf".toList
    let x := ofSettings {}
    let r := x.restyle {} d 0 0 .default
    r.1 = .commentMultiLine ∧
      r.2.1.restyleBlocks {} r.2.2 1 r.1 [2, 1] = x.restyle {} d 0 3 .default := by
  refine ⟨by decide +kernel, ?_⟩
  exact @restyleBlocks_eq (ofSettings {}) {} (Document.ofText "open" ";/\nIf\n/;\nIf".toList) 1
    [2, 1] (by decide) (by decide +kernel)

end Lexer

end Papyrus

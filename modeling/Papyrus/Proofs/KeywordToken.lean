import Papyrus.Proofs.CharacterModes
import Papyrus.Proofs.CaretWord
/-!
# Keywords are tokens

A search finds keywords as whole words in the text of a document, and it takes a long s for an `s`;
styling finds them as identifiers of a line. In a document that has been styled, the two agree: a
byte has the style of a word list only inside an identifier of that list, and a whole word that
starts there is that identifier.

Results:
* `Token.exists_cut`, `Lines.exists_cut`: an identifier as a part of its line and of the text.
* `exists_styleToken_of_styleOf`: a byte in a style that no white space has is part of a token with
  this style.
* `exists_token_of_styleOf`: a byte in the style of a word list is part of a word of that list.
* `keyword_eq_token`: a keyword of a styled document is such a word.
-/
namespace Papyrus

/-! ## Identifiers as parts of a line -/

namespace Token

theorem isIdentifierRest_of_isIdentifierStart {c : Char} (h : isIdentifierStart c = true) :
    isIdentifierRest c = true := by
  rw [isIdentifierStart, Bool.or_eq_true] at h
  rw [isIdentifierRest, Unicode.isAlphanumeric, Bool.or_eq_true, Bool.or_eq_true, Bool.or_eq_true]
  rcases h with h | h
  · exact Or.inl (Or.inl (Or.inl h))
  · exact Or.inl (Or.inr h)

/-- An identifier is a longest run of characters with which an identifier may go on. -/
theorem exists_cut {text : Text} {base : Nat} {t : Token} (ht : t ∈ scan text base)
    (hkind : t.kind = .identifier) :
    ∃ pre mid post, text = pre ++ mid ++ post ∧ t.start = base + pre.size ∧
      t.stop = base + pre.size + mid.size ∧ t.content = String.ofList (Unicode.lowerCase mid) ∧
      (∀ c ∈ mid, isIdentifierRest c = true) ∧ post.head?.any isIdentifierRest = false := by
  induction text, base using scanInduction with
  | nil base =>
    rw [scan] at ht
    cases ht
  | blank c text base hc ih =>
    rw [scan_cons_isWhiteSpace hc] at ht
    obtain ⟨pre, mid, post, rfl, hstart, hstop, hrest⟩ := ih ht
    refine ⟨c :: pre, mid, post, rfl, ?_, ?_, hrest⟩
    · rw [hstart, Text.size_cons, Nat.add_assoc]
    · rw [hstop, Text.size_cons, Nat.add_assoc base]
  | token c text base hc ih =>
    rw [scan_cons hc] at ht
    rcases List.mem_cons.1 ht with rfl | ht
    · have happ := lexeme_append c text
      refine ⟨[], (lexeme c text).2.1, (lexeme c text).2.2, happ.symm, rfl, rfl, rfl, ?_⟩
      have hstart : isIdentifierStart c = true := by
        rw [first, lexeme] at hkind
        by_contra hstart
        rw [if_neg hstart] at hkind
        dsimp only at hkind
        repeat' split at hkind
        all_goals cases hkind
      rw [lexeme, if_pos hstart]
      constructor
      · intro x hx
        rcases List.mem_cons.1 hx with rfl | hx
        · exact isIdentifierRest_of_isIdentifierStart hstart
        · exact List.all_eq_true.1 List.all_takeWhile x hx
      · exact Text.any_head?_dropWhile isIdentifierRest text
    · obtain ⟨pre, mid, post, htext, hstart, hstop, hrest⟩ := ih ht
      have happ := lexeme_append c text
      refine ⟨(lexeme c text).2.1 ++ pre, mid, post, ?_, ?_, ?_, hrest⟩
      · rw [← happ, htext]
        simp only [List.append_assoc]
      · rw [hstart, Text.size_append, first, Nat.add_assoc]
      · rw [hstop, Text.size_append, first, Nat.add_assoc base]

end Token

/-! ## Styles of word lists -/

/-- The word list that a style is the style of, unless it has other sources too. -/
def Style.listRole? : Style → Option WordRole
  | .flowControl => some .flowControl
  | .keyword => some .keywords
  | _ => none

/-- Comments, strings and white space have no style of a word list. -/
theorem Mode.listRole?_style (mode : Mode) : mode.style.listRole? = none := by cases mode <;> rfl

section
variable {env : Surroundings} {line : Nat} {role : WordRole}

theorem contains_of_styleIdentifier {word : String} {next : Option Token} {k : Knowledge}
    (h : (styleIdentifier env line word next k).1.listRole? = some role) :
    (env.words.get role).contains word = true := by
  unfold styleIdentifier at h
  dsimp only at h
  repeat' split at h
  all_goals cases h
  all_goals assumption

/-- A token in the style of a word list is an identifier of the list. -/
theorem contains_of_styleToken {mode : Mode} {behind : List Token} {t : Token}
    {next : Option Token} {k : Knowledge}
    (h : (styleToken env line mode behind t next k).1.listRole? = some role) :
    t.kind = .identifier ∧ (env.words.get role).contains t.content = true := by
  cases mode with
  | code =>
    rw [styleToken] at h
    unfold styleCode at h
    cases hkind : t.kind with
    | identifier =>
      rw [hkind] at h
      exact ⟨rfl, contains_of_styleIdentifier h⟩
    | numeric =>
      rw [hkind] at h
      cases h
    | special =>
      rw [hkind] at h
      dsimp only at h
      repeat' split at h
      all_goals cases h
  | _ => cases h

theorem Mode.style_ne_of_listRole? {style : Style} (h : style.listRole? = some role) (mode : Mode) :
    mode.style ≠ style := by
  rintro rfl
  rw [mode.listRole?_style] at h
  cases h

end

/-! ## Styles that only tokens have -/

section
variable {env : Surroundings} {P : Knowledge → Prop}
  (hstep : ∀ line mode behind t next k, P k → P (styleToken env line mode behind t next k).2.2)
include hstep

/-- What each token keeps of what is known, all tokens keep. -/
theorem kept_styleTokens {line : Nat} {mode : Mode} {behind : List Token} {cursor : Nat}
    {k : Knowledge} (hk : P k) (tokens : List Token) :
    P (styleTokens env line mode behind cursor k tokens).2.2.2 := by
  induction tokens generalizing mode behind cursor k with
  | nil => exact hk
  | cons t tokens ih => exact ih (hstep line mode behind t tokens.head? k hk)

theorem kept_styleLine {line : Nat} {text : Text} {base : Nat} {incoming : LineState}
    {k : Knowledge} (hk : P k) : P (styleLine env text base line incoming k).2 :=
  kept_styleTokens hstep hk _

variable {style : Style} (hstyle : ∀ mode : Mode, mode.style ≠ style)
include hstyle

/-- A byte in a style that no white space has is part of a token to which this style was given. -/
theorem exists_styleToken_of_styleTokens {line : Nat} {mode : Mode} {behind : List Token}
    {cursor : Nat} {k : Knowledge} (hk : P k) {tokens : List Token} {i : Nat}
    {rest : List StyledSpan}
    (h : StyledSpan.styleIn ((styleTokens env line mode behind cursor k tokens).1 ++ rest) i =
      style) :
    (∃ t ∈ tokens, (∃ mode behind next k, P k ∧ (styleToken env line mode behind t next k).1 =
      style) ∧ t.start ≤ i ∧ i < t.stop) ∨ StyledSpan.styleIn rest i = style := by
  induction tokens generalizing mode behind cursor k with
  | nil => exact Or.inr h
  | cons t tokens ih =>
    rw [styleTokens] at h
    dsimp only at h
    rw [List.append_assoc, StyledSpan.styleIn_gap, List.cons_append,
      StyledSpan.styleIn_cons] at h
    by_cases hgap : cursor ≤ i ∧ i < t.start
    · rw [if_pos hgap] at h
      exact absurd h (hstyle mode)
    rw [if_neg hgap] at h
    by_cases hin : t.start ≤ i ∧ i < t.stop
    · rw [if_pos hin] at h
      exact Or.inl ⟨t, List.mem_cons_self, ⟨_, _, _, k, hk, h⟩, hin⟩
    · rw [if_neg hin] at h
      rcases ih (hstep line mode behind t tokens.head? k hk) h with ⟨u, hu, htoken⟩ | hrest
      · exact Or.inl ⟨u, List.mem_cons_of_mem t hu, htoken⟩
      · exact Or.inr hrest

theorem exists_styleToken_of_styleLine {line : Nat} {text : Text} {base : Nat}
    {incoming : LineState} {k : Knowledge} (hk : P k) {i : Nat}
    (h : StyledSpan.styleIn (styleLine env text base line incoming k).1.spans i = style) :
    ∃ t ∈ Token.scan text base, (∃ mode behind next k, P k ∧
      (styleToken env line mode behind t next k).1 = style) ∧ t.start ≤ i ∧ i < t.stop := by
  rcases exists_styleToken_of_styleTokens hstep hstyle hk h with htoken | hgap
  · exact htoken
  · rw [← List.append_nil (gap _ _ _), StyledSpan.styleIn_gap] at hgap
    split at hgap
    · exact absurd hgap (hstyle _)
    · exact absurd hgap (hstyle .code)

theorem Lines.exists_styleToken_of_styleOf {line : Nat} {incoming : LineState} {k : Knowledge}
    (hk : P k) {ls : Lines} {offset : Nat}
    (h : styleOf id env line incoming k ls offset = style) :
    ∃ pre l post, ls = pre ++ l :: post ∧ ∃ t ∈ Token.scan l.text 0,
      (∃ line mode behind next k, P k ∧ (styleToken env line mode behind t next k).1 = style) ∧
        width pre + t.start ≤ offset ∧ offset < width pre + t.stop := by
  induction ls generalizing line incoming k offset with
  | nil => exact absurd h (hstyle .code)
  | cons l ls ih =>
    rw [styleOf_cons] at h
    dsimp only at h
    by_cases hin : offset < l.size
    · rw [if_pos hin] at h
      obtain ⟨t, ht, htoken, hlo, hhi⟩ := exists_styleToken_of_styleLine hstep hstyle hk h
      exact ⟨[], l, ls, rfl, t, ht, ⟨line, htoken⟩, by simpa using hlo, by simpa using hhi⟩
    rw [if_neg hin] at h
    by_cases hend : offset = l.size
    · rw [if_pos hend, styleLine] at h
      exact absurd h (hstyle _)
    · rw [if_neg hend] at h
      obtain ⟨pre, m, post, rfl, t, ht, htoken, hlo, hhi⟩ := ih (kept_styleLine hstep hk) h
      refine ⟨l :: pre, m, post, rfl, t, ht, htoken, ?_, ?_⟩ <;> rw [width_cons] <;> omega

end

/-- A byte in the style of a word list is part of an identifier of the list. -/
theorem Lines.exists_token_of_styleOf {env : Surroundings} {line : Nat} {role : WordRole}
    {incoming : LineState} {k : Knowledge} {ls : Lines} {offset : Nat}
    (h : (styleOf id env line incoming k ls offset).listRole? = some role) :
    ∃ pre l post, ls = pre ++ l :: post ∧ ∃ t ∈ Token.scan l.text 0, t.kind = .identifier ∧
      (env.words.get role).contains t.content = true ∧ width pre + t.start ≤ offset ∧
      offset < width pre + t.stop := by
  have hstep : ∀ line mode behind t next k, True →
      (fun _ => True) (styleToken env line mode behind t next k).2.2 := fun _ _ _ _ _ _ => id
  obtain ⟨pre, l, post, hls, t, ht, ⟨_, _, _, _, _, -, hstyle⟩, hlo, hhi⟩ :=
    exists_styleToken_of_styleOf hstep (Mode.style_ne_of_listRole? h) trivial rfl
  obtain ⟨hkind, hlist⟩ := contains_of_styleToken (hstyle ▸ h)
  exact ⟨pre, l, post, hls, t, ht, hkind, hlist, hlo, hhi⟩

/-! ## Words of a list -/

/-- The words of a text are not empty and have no white space. -/
theorem Text.mem_words {t w : Text} (h : w ∈ words t) :
    w ≠ [] ∧ ∀ c ∈ w, c ∈ t ∧ Unicode.isWhiteSpace c = false := by
  suffices hgo : ∀ word : Text, (∀ c ∈ word, Unicode.isWhiteSpace c = false) →
      w ∈ words.go word t →
      w ≠ [] ∧ ∀ c ∈ w, (c ∈ word ∨ c ∈ t) ∧ Unicode.isWhiteSpace c = false by
    obtain ⟨hne, hchars⟩ := hgo [] (fun _ hc => absurd hc List.not_mem_nil) h
    exact ⟨hne, fun c hc => (hchars c hc).imp_left (Or.resolve_left · List.not_mem_nil)⟩
  clear h
  induction t with
  | nil =>
    intro word hword h
    rw [words.go] at h
    split at h
    · cases h
    · next hne =>
      obtain rfl := List.mem_singleton.1 h
      refine ⟨by simpa using hne, fun c hc => ?_⟩
      have hc := List.mem_reverse.1 hc
      exact ⟨Or.inl hc, hword c hc⟩
  | cons c t ih =>
    intro word hword h
    have hbehind : ∀ {word' : Text}, (∀ d ∈ word', d ∈ word ∨ d = c) →
        (w ≠ [] ∧ ∀ d ∈ w, (d ∈ word' ∨ d ∈ t) ∧ Unicode.isWhiteSpace d = false) →
        w ≠ [] ∧ ∀ d ∈ w, (d ∈ word ∨ d ∈ c :: t) ∧ Unicode.isWhiteSpace d = false := by
      rintro word' hsub ⟨hne, hchars⟩
      refine ⟨hne, fun d hd => ⟨?_, (hchars d hd).2⟩⟩
      rcases (hchars d hd).1 with hd | hd
      · rcases hsub d hd with hd | rfl
        · exact Or.inl hd
        · exact Or.inr List.mem_cons_self
      · exact Or.inr (List.mem_cons_of_mem c hd)
    have hnil : ∀ d ∈ ([] : Text), d ∈ word ∨ d = c := fun _ hd => absurd hd List.not_mem_nil
    rw [words.go] at h
    split at h
    · split at h
      · exact hbehind hnil (ih [] (fun _ hd => absurd hd List.not_mem_nil) h)
      · next hne =>
        rcases List.mem_cons.1 h with rfl | h
        · refine ⟨by simpa using hne, fun d hd => ?_⟩
          have hd := List.mem_reverse.1 hd
          exact ⟨Or.inl hd, hword d hd⟩
        · exact hbehind hnil (ih [] (fun _ hd => absurd hd List.not_mem_nil) h)
    · next hc =>
      refine hbehind (fun d hd => (List.mem_cons.1 hd).symm) (ih (c :: word) ?_ h)
      exact List.forall_mem_cons.2 ⟨Bool.eq_false_iff.2 hc, hword⟩

/-- A list that is written in plain letters has plain words. -/
theorem WordList.plain_of_contains {s : String}
    (hs : (s.toList.all fun c => c == ' ' || c.isLower && c != 'k') = true) {w : String}
    (hw : (ofString s).contains w = true) : Plain w := by
  rw [contains, List.contains_iff_mem, ofString, List.mem_eraseDups] at hw
  obtain ⟨u, hu, rfl⟩ := List.mem_map.1 hw
  obtain ⟨hne, hchars⟩ := Text.mem_words hu
  have hplain : Plain (String.ofList u) := by
    refine ⟨by rwa [String.toList_ofList], fun c hc => ?_⟩
    rw [String.toList_ofList] at hc
    obtain ⟨hmem, hspace⟩ := hchars c hc
    have hletter := List.all_eq_true.1 hs c hmem
    simp only [Bool.or_eq_true, Bool.and_eq_true, beq_iff_eq, bne_iff_ne] at hletter
    rcases hletter with rfl | hletter
    · cases hspace
    · exact hletter
  have hlower : Unicode.lowerCase u = u := by
    have hascii : ∀ c ∈ u, Unicode.isAscii c = true := fun c hc =>
      (hplain.isAscii (by rwa [String.toList_ofList])).1
    rw [hplain.lowerCase_eq hascii (by rw [String.toList_ofList]), String.toList_ofList]
  rwa [hlower]

/-- The words of the language that give code the style of their list are plain. -/
theorem plain_standard {style : Style} {role : WordRole} (hrole : style.listRole? = some role)
    {w : String} (hw : (WordLists.standard.get role).contains w = true) : Plain w := by
  rw [WordLists.standard, PerRole.get_ofFn] at hw
  refine WordList.plain_of_contains ?_ hw
  unfold Style.listRole? at hrole
  split at hrole
  · obtain rfl := Option.some.inj hrole
    decide +kernel
  · obtain rfl := Option.some.inj hrole
    unfold WordRole.standardWords
    simp only [String.toList_append, List.all_append, Bool.and_eq_true]
    refine ⟨⟨⟨?_, ?_⟩, ?_⟩, ?_⟩ <;> decide +kernel
  · cases hrole

/-! ## A line in the text of a document -/

/-- The line feed between a line and its neighbours on one side. -/
def Lines.feed : Lines → Option Char
  | [] => none
  | _ :: _ => some '\n'

/-- A line is a part of the text, between two line feeds or the ends of the text. -/
theorem Lines.text_split (pre : Lines) (l : Line) (post : Lines) :
    ∃ before after, text (pre ++ l :: post) = before ++ l.text ++ after ∧
      Text.size before = width pre ∧ before.getLast? = feed pre ∧ after.head? = feed post := by
  have hlast : (terminated pre).getLast? = feed pre := by
    cases pre with
    | nil => rfl
    | cons p pre => exact getLast?_terminated_cons p pre
  rw [text_append pre (List.cons_ne_nil l post)]
  cases post with
  | nil =>
    refine ⟨terminated pre, [], ?_, size_terminated pre, hlast, rfl⟩
    rw [List.append_nil]
    rfl
  | cons m post =>
    refine ⟨terminated pre, '\n' :: text (m :: post), ?_, size_terminated pre, hlast, rfl⟩
    rw [List.append_assoc]
    rfl

/-- An identifier of a line is a part of the text, and none goes on behind it. -/
theorem Lines.exists_cut {pre post : Lines} {l : Line} {t : Token}
    (ht : t ∈ Token.scan l.text 0) (hkind : t.kind = .identifier) :
    ∃ before mid after, text (pre ++ l :: post) = before ++ mid ++ after ∧
      Text.size before = width pre + t.start ∧ t.stop = t.start + Text.size mid ∧
      t.content = String.ofList (Unicode.lowerCase mid) ∧
      (∀ c ∈ mid, Token.isIdentifierRest c = true) ∧
      after.head?.any Token.isIdentifierRest = false := by
  obtain ⟨before, mid, after, hline, hstart, hstop, hcontent, hmid, hend⟩ :=
    Token.exists_cut ht hkind
  obtain ⟨front, back, htext, hwidth, -, hfeed⟩ := text_split pre l post
  rw [Nat.zero_add] at hstart hstop
  refine ⟨front ++ before, mid, after ++ back, ?_, ?_, ?_, hcontent, hmid, ?_⟩
  · rw [htext, hline]
    simp only [List.append_assoc]
  · rw [Text.size_append, hwidth, hstart]
  · rw [hstop, hstart]
  · rw [List.head?_append, hfeed]
    cases after with
    | cons c after => exact hend
    | nil =>
      cases post with
      | nil => rfl
      | cons => exact (by decide : Token.isIdentifierRest '\n' = false)

/-- Two parts of a text are the same if the second one starts in the first one, no character of the
first one stands around the second one, and none of the second one behind the first one. -/
theorem Text.eq_of_overlap {p q : Char → Bool} {pre mid post pre' mid' post' : Text}
    (h : pre ++ mid ++ post = pre' ++ mid' ++ post') (hlo : pre.size ≤ pre'.size)
    (hhi : pre'.size < pre.size + mid.size) (hmid : ∀ c ∈ mid, p c = true)
    (hbefore : pre'.getLast?.any p = false) (hafter : post'.head?.any p = false)
    (hmid' : ∀ c ∈ mid', q c = true) (hpost : post.head?.any q = false) :
    pre = pre' ∧ mid = mid' := by
  rw [List.append_assoc, List.append_assoc] at h
  obtain ⟨m, rfl, hm⟩ := exists_of_append_eq h hlo
  rw [size_append] at hhi
  obtain ⟨r, rfl, hr⟩ := exists_of_append_eq hm.symm (by omega)
  obtain rfl : m = [] := by
    by_contra hne
    have hlast := hmid _ (List.mem_append_left r (List.getLast_mem hne))
    rw [List.getLast?_append, List.getLast?_eq_some_getLast hne, Option.some_or, Option.any_some,
      hlast] at hbefore
    cases hbefore
  rw [List.append_nil]
  refine ⟨rfl, ?_⟩
  rcases Nat.le_total mid'.size r.size with hle | hle
  · obtain ⟨n, rfl, hn⟩ := exists_of_append_eq hr hle
    cases n with
    | nil => simp
    | cons c n =>
      rw [hn, List.cons_append, List.head?_cons, Option.any_some, hmid c (by simp)] at hafter
      cases hafter
  · obtain ⟨n, rfl, hn⟩ := exists_of_append_eq hr.symm hle
    cases n with
    | nil => simp
    | cons c n =>
      rw [hn, List.cons_append, List.head?_cons, Option.any_some, hmid' c (by simp)] at hpost
      cases hpost

/-! ## Keywords of a styled document -/

/-- The styles of a document are those of a run over its lines. -/
def Document.Styled (d : Document) (env : Surroundings) : Prop :=
  ∃ k, ∀ offset < d.size,
    d.styleAt offset = Lines.styleOf id env 0 .default k d.lines offset

/-- The style that restyling gives to a byte or a terminator. -/
theorem Lexer.styleAt_restyleAll (x : Lexer) (files : FileTree) {d : Document}
    (h : d.readLimit = none) {offset : Nat} (hoff : offset < (x.restyleAll files d).2.size) :
    (x.restyleAll files d).2.styleAt offset = Lines.styleOf id (x.surroundings files) 0 .default
      x.knowledge (x.restyleAll files d).2.lines offset := by
  have htext := x.map_text_restyleAll files d
  have hsize : offset < d.lines.size := by
    rw [← Lines.size_congr htext]
    exact hoff
  have hstyle := @Lines.styleAt_styled id (fun _ => Nat.le_refl _) (x.surroundings files) 0
    .default x.knowledge d.lines offset hsize
  rw [Document.styleAt, Lines.styleOf_congr id _ 0 .default x.knowledge htext, ← hstyle,
    x.lines_restyleAll files h]

theorem Lexer.styled_restyleAll (x : Lexer) (files : FileTree) {d : Document}
    (h : d.readLimit = none) : (x.restyleAll files d).2.Styled (x.surroundings files) :=
  ⟨x.knowledge, fun _ => x.styleAt_restyleAll files h⟩

/-- The characters of a plain word, but for case, are those with which identifiers go on. -/
theorem Plain.isIdentifierRest {word : String} (h : Plain word) {t : Text}
    (ht : t.map Unicode.foldCase = word.toList.map Unicode.foldCase) {c : Char} (hc : c ∈ t) :
    Token.isIdentifierRest c = true := by
  have hmem : Unicode.foldCase c ∈ word.toList := by
    rw [← h.map_foldCase, ← ht]
    exact List.mem_map_of_mem hc
  have hlower := (h.letters _ hmem).1
  rw [Token.isIdentifierRest, Bool.or_eq_true, Bool.or_eq_true]
  left; left
  cases hascii : Unicode.isAscii c with
  | true =>
    rw [Unicode.foldCase_of_isAscii hascii] at hlower
    rw [Unicode.isAlphanumeric_of_isAscii hascii]
    have hletter : c.toLower.isAlpha = true := Bool.or_eq_true_iff.2 (Or.inr hlower)
    rw [Unicode.isAlpha_toLower] at hletter
    exact Bool.or_eq_true_iff.2 (Or.inl hletter)
  | false =>
    obtain ⟨hlo, hhi⟩ := Unicode.toNat_of_isLower hlower
    exact Document.isAlphanumeric_of_foldCase hascii hlo hhi

/-- A keyword whose style is that of a word list is an identifier of the list. -/
theorem Document.keyword_eq_token {d : Document} {env : Surroundings} (hd : d.Styled env)
    (hread : d.readLimit = none) (hchars : d.wordChars = standardWordChars) {word : String}
    (hplain : Plain word) {style : Style} {role : WordRole} (hrole : style.listRole? = some role)
    (hlist : ∀ w, (env.words.get role).contains w = true → Plain w) {s : Span}
    (hs : s ∈ d.keywords word style) :
    ∃ pre l post t, d.lines = pre ++ l :: post ∧ t ∈ Token.scan l.text 0 ∧
      t.kind = .identifier ∧ t.content = word ∧
      s = ⟨Lines.width pre + t.start, Lines.width pre + t.stop⟩ ∧
      ∀ c ∈ d.read s.start s.stop, Unicode.isAscii c = true := by
  have hsolid := hplain.solid hchars
  obtain ⟨before, mid, after, hword, hkeys, rfl, hstyle⟩ := (mem_keywords_iff hsolid).1 hs
  obtain ⟨k, hk⟩ := hd
  have hstyled := hk before.size (Nat.lt_of_lt_of_le (keywords_nonempty hsolid hs).1
    (keywords_nonempty hsolid hs).2)
  rw [← hstyle, hstyled] at hrole
  obtain ⟨pre, l, post, hlines, t, ht, hkind, hcontains, hlo, hhi⟩ :=
    Lines.exists_token_of_styleOf hrole
  obtain ⟨front, lex, back, htext, hfront, hstop, hcontent, -, hend⟩ :=
    @Lines.exists_cut pre post l t ht hkind
  have hlist := hlist _ hcontains
  rw [hcontent] at hlist
  obtain ⟨hascii, hfold⟩ := hlist.isAscii_of_lowerCase (t := lex) (by rw [String.toList_ofList])
  have hoverlap : front ++ lex ++ back = before ++ mid ++ after := by
    rw [← htext, ← hlines, ← text, hword.text_eq]
  have hwordChar : ∀ c ∈ lex, d.isWordChar c = true := by
    intro c hc
    refine (hlist.solid hchars).2 c ?_
    rw [hlist.map_foldCase, ← hfold]
    exact List.mem_map_of_mem hc
  obtain ⟨rfl, rfl⟩ := Text.eq_of_overlap hoverlap (by omega) (by omega) hwordChar hword.before
    hword.after (fun c => hplain.isIdentifierRest hkeys) hend
  refine ⟨pre, l, post, t, hlines, ht, hkind, ?_, ?_, ?_⟩
  · rw [hcontent, hplain.lowerCase_eq hascii hkeys, String.ofList_toList]
  · congr 1
    omega
  · rw [read_cut hread hword.text_eq]
    exact hascii

end Papyrus

import Papyrus.Proofs.BranchWord
import Papyrus.Proofs.CodeMatch
import Papyrus.Proofs.DocumentToken
/-!
# Keywords that are searched for and keywords that are read

A matcher searches the text for whole words; styling reads identifiers. What is a whole word and
what is a token are different things: a digit is a word character, yet an identifier can follow a
numeral without a gap. Such an identifier is attached. In a styled document, the whole words that a
search finds in the style of a block keyword are the identifiers of that style which are not
attached, and these are what is under a caret on them; under a caret on an attached one there is no
keyword.

Results:
* `filter_hits`: the hits of a search that have a style are the keywords of this style.
* `exists_wordAt_identifier`: the word under a caret on an identifier, which ends with it.
* `mem_keywords_iff_identifier`: the keywords are the identifiers that are not attached.
* `keyword_identifier`: what a match takes for the keyword under a caret on an identifier.
* `hits_eq_identifiers`: searching, styling and matching have the same keywords, but for attached
  ones.
-/
namespace Papyrus

theorem Construct.exists_listRole? (construct : Construct) :
    ∃ role, construct.style.listRole? = some role := by
  cases construct <;> exact ⟨_, rfl⟩

namespace Document

variable {d : Document} {word : String} {style : Style}

/-- The identifiers of a document that read as a word and have a style. -/
def identifiers (d : Document) (word : String) (style : Style) : List Token :=
  d.tokens.filter fun t => t.kind == .identifier && t.content == word && d.styleAt t.start == style

/-- Whether a word character stands directly before an offset. -/
def isAttached (d : Document) (offset : Nat) : Bool :=
  (d.text.around? offset).any fun sides => sides.1.head?.any d.isWordChar

theorem isAttached_cut {before after : Text} (h : d.text = before ++ after) :
    d.isAttached before.size = before.getLast?.any d.isWordChar := by
  rw [isAttached, h, Text.around?_append, Option.any_some, List.head?_reverse]

/-! ## What a search finds -/

/-- The hits of a search of the whole document that have a style are the keywords of this style. -/
theorem filter_hits (hsolid : d.Solid word) (style : Style) :
    (d.hits word.toList true false 0 d.size).filter (fun s => d.styleAt s.start == style) =
      d.keywords word style := by
  have hstart : d.isBoundary 0 = true := @isBoundary_cut d [] d.text rfl
  have hstop : d.isBoundary (min d.size d.size) = true := by
    rw [Nat.min_self, ← size_text]
    exact isBoundary_cut (List.append_nil d.text).symm
  have hinside : (d.places word.toList false).filter (·.stop ≤ d.size) =
      d.places word.toList false :=
    List.filter_eq_self.2 fun o ho => decide_eq_true (mem_places hsolid.1 ho).2
  have hle : ∀ o ∈ d.places word.toList false, o.start ≤ o.stop := fun o ho =>
    Nat.le_of_lt (mem_places hsolid.1 ho).1
  rw [hits_of_isBoundary hsolid.1 hstart hstop, hinside]
  simp only [Bool.not_true, Bool.false_or]
  rw [Span.filter_disjoint hle (places_apart hsolid) 0, List.filter_map, List.filter_filter,
    keywords]
  congr 1
  exact List.filter_congr fun o _ => by simp [Bool.and_comm]

/-! ## Identifiers in the text -/

/-- An identifier of a document is a part of its text, and none goes on behind it. -/
theorem exists_cut_of_mem_tokens {t : Token} (ht : t ∈ d.tokens) (hkind : t.kind = .identifier) :
    ∃ before mid after, d.text = before ++ mid ++ after ∧ Text.size before = t.start ∧
      t.stop = t.start + Text.size mid ∧ t.content = String.ofList (Unicode.lowerCase mid) ∧
      (∀ c ∈ mid, Token.isIdentifierRest c = true) ∧
      after.head?.any Token.isIdentifierRest = false := by
  obtain ⟨pre, l, post, hlines, u, hu, rfl⟩ := mem_tokens.1 ht
  obtain ⟨before, mid, after, htext, hstart, hstop, hcontent, hrest⟩ :=
    @Lines.exists_cut pre post l u hu hkind
  refine ⟨before, mid, after, ?_, ?_, ?_, hcontent, hrest⟩
  · rw [text, hlines, htext]
  · rw [hstart, Nat.add_comm]
    rfl
  · dsimp only [Token.shift]
    omega

/-- Identifiers go on with all word characters. -/
theorem isIdentifierRest_of_isWordChar (hchars : d.wordChars = standardWordChars) {c : Char}
    (h : d.isWordChar c = true) : Token.isIdentifierRest c = true := by
  have hstandard : (standardWordChars.all Token.isIdentifierRest) = true := by decide +kernel
  rw [isWordChar, hchars, Bool.or_eq_true, Bool.and_eq_true, List.contains_iff_mem] at h
  rcases h with h | ⟨-, h⟩
  · exact List.all_eq_true.1 hstandard c h
  · rw [Token.isIdentifierRest, h, Bool.true_or, Bool.true_or]

/-- A part of the text that is made of word characters and has none behind it is the end of a whole
word, which begins there unless a word character stands directly before. -/
theorem exists_isWord {before mid after : Text} (htext : d.text = before ++ mid ++ after)
    (hmid : ∀ c ∈ mid, d.isWordChar c = true) (hafter : after.head?.any d.isWordChar = false) :
    ∃ front joined, before = front ++ joined ∧ d.IsWord front (joined ++ mid) after ∧
      (joined = [] ↔ d.isAttached before.size = false) := by
  have hcut := List.takeWhile_append_dropWhile (p := d.isWordChar) (l := before.reverse)
  have hjoined : ∀ c ∈ before.reverse.takeWhile d.isWordChar, d.isWordChar c = true :=
    List.all_eq_true.1 List.all_takeWhile
  have hbefore : before = (before.reverse.dropWhile d.isWordChar).reverse ++
      (before.reverse.takeWhile d.isWordChar).reverse := by
    rw [← List.reverse_append, hcut, List.reverse_reverse]
  refine ⟨_, _, hbefore, ⟨?_, fun c hc => ?_, ?_, hafter⟩, ?_⟩
  · rw [htext, ← List.append_assoc, ← hbefore]
  · rcases List.mem_append.1 hc with hc | hc
    · exact hjoined c (List.mem_reverse.1 hc)
    · exact hmid c hc
  · rw [List.getLast?_reverse]
    exact Text.any_head?_dropWhile d.isWordChar before.reverse
  · rw [List.append_assoc] at htext
    rw [isAttached_cut htext, List.reverse_eq_nil_iff, ← List.head?_reverse]
    cases before.reverse with
    | nil => simp
    | cons c rest => cases hc : d.isWordChar c <;> simp [hc]

/-- The word under a caret on an identifier in plain letters ends with it. It begins with it unless
the identifier is attached. -/
theorem exists_wordAt_identifier (hchars : d.wordChars = standardWordChars) {t : Token}
    (ht : t ∈ d.tokens) (hkind : t.kind = .identifier) (hplain : Plain t.content) :
    ∃ start, start ≤ t.start ∧ (start = t.start ↔ d.isAttached t.start = false) ∧
      ∀ caret, t.start ≤ caret → caret ≤ t.stop → d.wordAt caret = ⟨start, t.stop⟩ := by
  obtain ⟨before, mid, after, htext, hstart, hstop, hcontent, -, hend⟩ :=
    exists_cut_of_mem_tokens ht hkind
  obtain ⟨hascii, hfold⟩ := hplain.isAscii_of_lowerCase (t := mid) (by
    rw [hcontent, String.toList_ofList])
  have hmid : ∀ c ∈ mid, d.isWordChar c = true := fun c hc => by
    refine (hplain.solid hchars).2 c ?_
    rw [hplain.map_foldCase, ← hfold]
    exact List.mem_map_of_mem hc
  have hafter : after.head?.any d.isWordChar = false := by
    cases after with
    | nil => rfl
    | cons c after =>
      rw [List.head?_cons, Option.any_some] at hend ⊢
      rw [Bool.eq_false_iff] at hend ⊢
      exact fun hc => hend (isIdentifierRest_of_isWordChar hchars hc)
  obtain ⟨front, joined, rfl, hword, hattached⟩ := exists_isWord htext hmid hafter
  rw [Text.size_append] at hstart
  refine ⟨front.size, by omega, ?_, fun caret hlo hhi => ?_⟩
  · rw [← hstart, ← Text.size_append, ← hattached, Text.size_append]
    constructor
    · intro h
      exact Text.size_eq_zero (by omega)
    · rintro rfl
      rfl
  · obtain ⟨m, m', rfl, hm⟩ := Text.exists_split_of_isAscii hascii (n := caret - t.start)
      (by omega)
    rw [← List.append_assoc] at hword
    have hspan := hword.wordAt
    rw [List.append_assoc, Text.size_append joined, Text.size_append] at hspan
    rw [show caret = front.size + (joined.size + m.size) by omega, hspan]
    congr 1
    omega

/-! ## Keywords and identifiers -/

theorem mem_identifiers {t : Token} :
    t ∈ d.identifiers word style ↔ t ∈ d.tokens ∧ t.kind = .identifier ∧ t.content = word ∧
      d.styleAt t.start = style := by
  simp only [identifiers, List.mem_filter, Bool.and_eq_true, beq_iff_eq, and_assoc]

/-- The word under a caret on an identifier that is not attached is the identifier. -/
theorem wordAt_identifier (hread : d.readLimit = none) (hchars : d.wordChars = standardWordChars)
    (hplain : Plain word) {t : Token} (ht : t ∈ d.identifiers word style)
    (hattached : d.isAttached t.start = false) {caret : Nat} (hlo : t.start ≤ caret)
    (hhi : caret ≤ t.stop) : d.wordAt caret = t.span ∧ d.wordName caret = word := by
  obtain ⟨hmem, hkind, rfl, -⟩ := mem_identifiers.1 ht
  obtain ⟨start, -, hstart, hwordAt⟩ := exists_wordAt_identifier hchars hmem hkind hplain
  obtain ⟨before, mid, after, htext, hbefore, hstop, hcontent, -⟩ :=
    exists_cut_of_mem_tokens hmem hkind
  have hspan : d.wordAt caret = t.span := by
    rw [hwordAt caret hlo hhi, hstart.2 hattached]
    rfl
  have hmid : d.read t.start t.stop = mid := by
    rw [← hbefore] at hstop ⊢
    rw [hstop, read_cut hread htext]
  refine ⟨hspan, ?_⟩
  rw [wordName, hspan, Token.span, hmid, hcontent, foldName, String.toList_ofList]

section
variable {env : Surroundings} (hstyled : d.Styled env) (hwords : env.words = .standard)
  (hread : d.readLimit = none) (hchars : d.wordChars = standardWordChars) {role : WordRole}
  (hrole : style.listRole? = some role)
include hstyled hwords hread hchars hrole

/-- The keywords of a styled document are its identifiers that are not attached. -/
theorem mem_keywords_iff_identifier (hplain : Plain word) {s : Span} :
    s ∈ d.keywords word style ↔
      ∃ t ∈ d.identifiers word style, d.isAttached t.start = false ∧ t.span = s := by
  constructor
  · intro hs
    obtain ⟨-, -, -, hstyle, -⟩ := mem_keywords.1 hs
    obtain ⟨before, mid, after, hword, -, hspan, -⟩ :=
      (mem_keywords_iff (hplain.solid hchars)).1 hs
    have hattached : d.isAttached s.start = false := by
      rw [hspan, isAttached_cut (hword.text_eq.trans (List.append_assoc before mid after))]
      exact hword.before
    obtain ⟨pre, l, post, u, hlines, hu, hkind, hcontent, rfl, -⟩ :=
      keyword_eq_token hstyled hread hchars hplain hrole
        (fun w hw => plain_standard hrole (hwords ▸ hw)) hs
    have hshift : (u.shift (Lines.width pre)).span =
        ⟨Lines.width pre + u.start, Lines.width pre + u.stop⟩ := by
      rw [Token.span, Nat.add_comm _ u.start, Nat.add_comm _ u.stop]
      rfl
    rw [← hshift] at hattached hstyle
    exact ⟨_, mem_identifiers.2 ⟨mem_tokens.2 ⟨pre, l, post, hlines, u, hu, rfl⟩, hkind, hcontent,
      hstyle⟩, hattached, hshift⟩
  · rintro ⟨t, ht, hattached, rfl⟩
    obtain ⟨hmem, -, -, hstyle⟩ := mem_identifiers.1 ht
    have hlt := (d.tokens_ordered.mem hmem).2.1
    obtain ⟨hspan, hname⟩ := wordAt_identifier hread hchars hplain ht hattached
      (Nat.le_refl t.start) (Nat.le_of_lt hlt)
    rw [← hspan]
    exact mem_keywords_of_wordName hread hchars hplain hname (hspan ▸ hstyle)

theorem keywords_eq_identifiers (hplain : Plain word) :
    d.keywords word style =
      ((d.identifiers word style).filter fun t => !d.isAttached t.start).map Token.span := by
  have hordered : (((d.identifiers word style).filter fun t => !d.isAttached t.start).map
      Token.span).Pairwise fun a b => a.start < b.start :=
    List.pairwise_map.2 (d.tokens_ordered.pairwise.sublist
      (List.filter_sublist.trans List.filter_sublist))
  refine eq_of_mem_iff_of_pairwise (keywords_pairwise d word style) hordered fun s => ?_
  rw [mem_keywords_iff_identifier hstyled hwords hread hchars hrole hplain, List.mem_map]
  simp only [List.mem_filter, Bool.not_eq_true', and_assoc]

end

/-! ## What is under the caret -/

theorem keyword_matchConstruct (word : Span) (construct : Construct) :
    (d.matchConstruct word construct).keyword = some word := by
  cases construct with
  | declaration counterparts direction =>
    rw [matchConstruct, matchDeclaration]
    split <;> rfl
  | flow block direction =>
    rw [matchConstruct, matchFlow]
    split <;> rfl
  | branch => rfl

/-- A keyword under the caret is one of the document. -/
theorem mem_keywords_of_matchKeyword (hread : d.readLimit = none)
    (hchars : d.wordChars = standardWordChars) {caret : Nat} {s : Span}
    (h : (d.matchKeyword caret).keyword = some s) :
    s = d.wordAt caret ∧ ∃ word construct, Construct.ofWord? word = some construct ∧
      s ∈ d.keywords word construct.style := by
  cases hname : Construct.ofWord? (d.wordName caret) with
  | none =>
    rw [matchKeyword_of_ofWord?_eq_none hname] at h
    cases h
  | some construct =>
    rw [matchKeyword_of_ofWord? hname] at h
    by_cases hstyle : d.styleAt (d.wordAt caret).start = construct.style
    · rw [if_pos hstyle, keyword_matchConstruct] at h
      obtain rfl := Option.some.inj h
      exact ⟨rfl, _, construct, hname, mem_keywords_of_wordName hread hchars
        (Construct.known_of_ofWord? hname).1 rfl hstyle⟩
    · rw [if_neg hstyle] at h
      cases h

/-- Under a caret on an identifier that is a block keyword in code is the identifier, unless it is
attached. -/
theorem keyword_identifier {env : Surroundings} (hstyled : d.Styled env)
    (hwords : env.words = .standard) (hread : d.readLimit = none)
    (hchars : d.wordChars = standardWordChars) {construct : Construct}
    (hconstruct : Construct.ofWord? word = some construct) {t : Token}
    (ht : t ∈ d.identifiers word construct.style) {caret : Nat} (hlo : t.start ≤ caret)
    (hhi : caret ≤ t.stop) :
    (d.matchKeyword caret).keyword = if d.isAttached t.start then none else some t.span := by
  have hplain := (Construct.known_of_ofWord? hconstruct).1
  obtain ⟨hmem, hkind, hcontent, hstyle⟩ := mem_identifiers.1 ht
  cases hattached : d.isAttached t.start with
  | false =>
    obtain ⟨hspan, hname⟩ := wordAt_identifier hread hchars hplain ht hattached hlo hhi
    rw [matchKeyword_of_ofWord? (hname ▸ hconstruct), hspan, Token.span, if_pos hstyle,
      keyword_matchConstruct, if_neg Bool.false_ne_true]
  | true =>
    rw [if_pos rfl]
    obtain ⟨start, hle, hstart, hwordAt⟩ :=
      exists_wordAt_identifier hchars hmem hkind (hcontent ▸ hplain)
    -- a keyword under the caret would be a token that overlaps this one and starts before it
    rw [Option.eq_none_iff_forall_ne_some]
    intro s hs
    obtain ⟨rfl, other, construct', hother, hkeyword⟩ :=
      mem_keywords_of_matchKeyword hread hchars hs
    obtain ⟨role, hrole⟩ := Construct.exists_listRole? construct'
    obtain ⟨u, hu, hu', hspan⟩ := (mem_keywords_iff_identifier hstyled hwords hread hchars hrole
      (Construct.known_of_ofWord? hother).1).1 hkeyword
    rw [hwordAt caret hlo hhi] at hspan
    obtain ⟨hustart, hustop⟩ := Span.mk.inj hspan
    have hlt := (d.tokens_ordered.mem hmem).2.1
    obtain rfl := d.tokens_ordered.eq_of_overlap hmem (mem_identifiers.1 hu).1 (by omega) (by omega)
    rw [hattached] at hu'
    cases hu'

/-! ## Searching and matching -/

/-- In a document that has been styled with the words of the language, the whole words in the style
of code that a search for a block keyword finds are the identifiers of this style that read as the
keyword and are not attached. All bytes of such an identifier have the style, and under every caret
on it is the identifier; under a caret on an attached one there is no keyword. -/
theorem hits_eq_identifiers {x : Lexer} (files : FileTree) {d₀ : Document}
    (hwords : x.words = .standard) (hread : d₀.readLimit = none)
    (hchars : d₀.wordChars = standardWordChars) {construct : Construct}
    (hconstruct : Construct.ofWord? word = some construct) :
    let d := (x.restyleAll files d₀).2
    (d.hits word.toList true false 0 d.size).filter
        (fun s => d.styleAt s.start == construct.style) =
      ((d.identifiers word construct.style).filter fun t => !d.isAttached t.start).map
        Token.span ∧
    ∀ t ∈ d.identifiers word construct.style,
      (∀ offset, t.start ≤ offset → offset < t.stop → d.styleAt offset = construct.style) ∧
      ∀ caret, t.start ≤ caret → caret ≤ t.stop →
        (d.matchKeyword caret).keyword = if d.isAttached t.start then none else some t.span := by
  intro d
  have hstyled : d.Styled (x.surroundings files) := x.styled_restyleAll files hread
  have hchars : d.wordChars = standardWordChars := (wordChars_restyleAll x files hread).trans hchars
  have hread : d.readLimit = none := (x.readLimit_restyleAll files d₀).trans hread
  have hplain := (Construct.known_of_ofWord? hconstruct).1
  obtain ⟨role, hrole⟩ := construct.exists_listRole?
  constructor
  · rw [filter_hits (hplain.solid hchars),
      keywords_eq_identifiers hstyled hwords hread hchars hrole hplain]
  · intro t ht
    obtain ⟨hmem, -, -, hstyle⟩ := mem_identifiers.1 ht
    refine ⟨fun offset hlo hhi => ?_, fun caret => ?_⟩
    · rw [styleAt_token hstyled hmem hlo hhi, hstyle]
    · exact keyword_identifier hstyled hwords hread hchars hconstruct ht

/-- An `If` and its `EndIf`: the one is found, the other is under the caret at its end. -/
theorem hits_if_endIf :
    let d := ((Lexer.ofSettings {}).restyleAll {} (ofText "ends" "If\nEndIf".toList)).2
    (d.hits "if".toList true false 0 d.size).filter (fun s => d.styleAt s.start == .flowControl) =
        [⟨0, 2⟩] ∧
      (d.matchKeyword 8).keyword = some ⟨3, 8⟩ := by
  intro d
  have hits := fun word construct => @hits_eq_identifiers word (.ofSettings {}) {}
    (ofText "ends" "If\nEndIf".toList) rfl rfl rfl construct
  obtain ⟨hif, -⟩ := hits "if" (.flow .ifBlock .forward) (by decide)
  obtain ⟨-, hend⟩ := hits "endif" (.flow .ifBlock .backward) (by decide)
  obtain ⟨hspans, hmem, hattached⟩ :
      ((d.identifiers "if" .flowControl).filter fun t => !d.isAttached t.start).map Token.span =
          [⟨0, 2⟩] ∧
        ⟨"endif", .identifier, 3, 8⟩ ∈ d.identifiers "endif" .flowControl ∧
          d.isAttached 3 = false := by decide +kernel
  refine ⟨hif.trans hspans, ?_⟩
  rw [(hend _ hmem).2 8 (by decide) (by decide), hattached]
  rfl

/-- An `If` behind a numeral has the style of code, but a search does not find it, and there is no
keyword under a caret on it. -/
theorem hits_ne_identifiers_attached :
    let d := ((Lexer.ofSettings {}).restyleAll {} (ofText "numeral" "5If".toList)).2
    (d.hits "if".toList true false 0 d.size).filter (fun s => d.styleAt s.start == .flowControl) ≠
        (d.identifiers "if" .flowControl).map Token.span ∧
      ¬ ∀ t ∈ d.identifiers "if" .flowControl,
        (d.matchKeyword t.start).keyword = some t.span := by
  decide +kernel

end Document

end Papyrus

import Mathlib.Data.List.TakeWhile
import Papyrus.Proofs.KeywordSearch
import Papyrus.Proofs.Refresh
import Papyrus.Proofs.ScriptSearch
import Papyrus.Proofs.Settling
/-!
# Links from class names

Styling takes the name of a class from the tokens of a line, and a link takes it from the word
around an offset, colons included. The two end at the same place. They begin at the same place too,
but for what stands directly before the token: colons are read along and change nothing, and any
other word character, such as the end of a numeral, makes another name of it (`isNameAttached`).
Inside a character there is no word. Everywhere else, the name of a class leads to its script.

Results:
* `findScript_colons`: colons in front do not matter for the script of an identifier.
* `isSome_findScript_of_styleAt`: what is styled as a class has a script.
* `linkName?_identifier`: the name of a link from an identifier.
* `followLink_class`: every class name leads to its script.
-/
namespace Papyrus

/-! ## Colons in front of an identifier -/

theorem scriptPath?_congr {identifier identifier' : String}
    (h : segments identifier = segments identifier') :
    scriptPath? identifier = scriptPath? identifier' := by
  rw [scriptPath?, scriptPath?, ← segments, ← segments, h]

theorem segments_colons {colons : Text} (h : ∀ c ∈ colons, c = ':') (t : Text) :
    segments (String.ofList (colons ++ t)) = segments (String.ofList t) := by
  induction colons with
  | nil => rfl
  | cons c colons ih =>
    obtain ⟨rfl, hrest⟩ := List.forall_mem_cons.1 h
    have hempty : segments (String.ofList []) = [] := by decide
    rw [List.cons_append, ← List.nil_append (':' :: _), segments_append_colon, hempty, ih hrest,
      List.nil_append]

theorem lowerCase_colons {colons : Text} (h : ∀ c ∈ colons, c = ':') (t : Text) :
    Unicode.lowerCase (colons ++ t) = colons ++ Unicode.lowerCase t := by
  induction colons with
  | nil => rfl
  | cons c colons ih =>
    obtain ⟨rfl, hrest⟩ := List.forall_mem_cons.1 h
    rw [List.cons_append, Unicode.lowerCase_cons_of_isCaseIgnorable (by decide +kernel) (by decide),
      ih hrest]
    rfl

/-- The script of an identifier does not depend on colons in front of it. -/
theorem Profile.findScript_colons (profile : Profile) (tree : FileTree) {colons : Text}
    (h : ∀ c ∈ colons, c = ':') (t : Text) :
    profile.findScript tree (foldName (String.ofList (colons ++ t))) =
      profile.findScript tree (foldName (String.ofList t)) := by
  have hpath : scriptPath? (foldName (String.ofList (colons ++ t))) =
      scriptPath? (foldName (String.ofList t)) := by
    refine scriptPath?_congr ?_
    rw [foldName, foldName, String.toList_ofList, String.toList_ofList, lowerCase_colons h,
      segments_colons h]
  rw [findScript, findScript, hpath]

/-! ## What is styled as a class -/

section
variable {env : Surroundings} {line : Nat} {k : Knowledge}

theorem wordStyle?_ne_scriptClass (words : WordLists) (word : String) (next : Option Token) :
    wordStyle? words word next ≠ some .scriptClass := by
  unfold wordStyle?
  repeat' split
  all_goals exact fun h => nomatch h

/-- A token that is styled as a class names one under the active profile. -/
theorem isSome_findScript_of_styleToken (hk : k.Truthful env) {mode : Mode} {behind : List Token}
    {t : Token} {next : Option Token}
    (h : (styleToken env line mode behind t next k).1 = .scriptClass) {profile : Profile}
    (hprofile : env.profile = some profile) :
    (profile.findScript env.files (foldName t.content)).isSome = true := by
  cases mode with
  | code =>
    unfold styleToken styleCode at h
    cases hkind : t.kind with
    | identifier =>
      rw [hkind] at h
      dsimp only at h
      rw [styleIdentifier_eq] at h
      cases hword : wordStyle? env.words t.content next with
      | some s =>
        rw [hword] at h
        exact absurd (hword.trans (congrArg some h)) (wordStyle?_ne_scriptClass _ _ _)
      | none =>
        rw [hword] at h
        dsimp only at h
        rw [Surroundings.lookUp, hprofile] at h
        split at h
        · cases h
        · dsimp only at h
          rw [ClassResolver.fst_isClass (hk profile hprofile)] at h
          by_contra hnone
          rw [if_neg hnone] at h
          cases h
    | numeric =>
      rw [hkind] at h
      cases h
    | special =>
      rw [hkind] at h
      dsimp only at h
      repeat' split at h
      all_goals cases h
  | _ => cases h

end

/-! ## The name of a link -/

namespace Document

variable {d : Document}

/-- A document in which colons are part of words. -/
def withColons (d : Document) : Document :=
  { d with wordChars := d.wordChars ++ [':'].filter (! d.wordChars.contains ·) }

/-- Whether, colons set aside, a word character stands directly before an offset. -/
def isNameAttached (d : Document) (offset : Nat) : Bool :=
  (d.text.around? offset).any fun sides =>
    (sides.1.dropWhile (· == ':')).head?.any d.isWordChar

theorem wordChars_withColons (hchars : d.wordChars = standardWordChars) :
    d.withColons.wordChars = standardWordChars ++ [':'] := by
  have hcolon : [':'].filter (! standardWordChars.contains ·) = [':'] := by decide +kernel
  rw [withColons]
  dsimp only
  rw [hchars, hcolon]

/-- With colons, words are made of the characters with which identifiers go on. -/
theorem isWordChar_withColons (hchars : d.wordChars = standardWordChars) (c : Char) :
    d.withColons.isWordChar c = Token.isIdentifierRest c := by
  rw [isWordChar, wordChars_withColons hchars]
  cases hascii : Unicode.isAscii c with
  | true =>
    have hall : ∀ n < 128, (standardWordChars ++ [':']).contains (Char.ofNat n) =
        Token.isIdentifierRest (Char.ofNat n) := by decide +kernel
    have hc := hall c.toNat (of_decide_eq_true hascii)
    rw [Char.ofNat_toNat] at hc
    rw [hc, Bool.not_true, Bool.false_and, Bool.or_false]
  | false =>
    have hall : ((standardWordChars ++ [':']).all Unicode.isAscii) = true := by decide +kernel
    have hother {x : Char} (hx : Unicode.isAscii x = true) : (c == x) = false := by
      rw [beq_eq_false_iff_ne]
      rintro rfl
      rw [hascii] at hx
      cases hx
    have hcontains : (standardWordChars ++ [':']).contains c = false := by
      rw [List.contains_eq_any_beq, List.any_eq_false]
      exact fun x hx => Bool.eq_false_iff.1 (hother (List.all_eq_true.1 hall x hx))
    rw [hcontains, Token.isIdentifierRest, hother (by decide), hother (by decide), Bool.not_false,
      Bool.true_and, Bool.false_or, Bool.or_false, Bool.or_false]

/-- A word that goes on to the end of an identifier begins with it, but for colons, if no other word
character stands before the identifier. -/
theorem eq_colon_of_mem_joined (hchars : d.wordChars = standardWordChars)
    {front joined rest : Text} (htext : d.text = front ++ joined ++ rest)
    (hjoined : ∀ c ∈ joined, d.withColons.isWordChar c = true)
    (hfree : d.isNameAttached (Text.size (front ++ joined)) = false) : ∀ c ∈ joined, c = ':' := by
  rw [isNameAttached, htext, Text.around?_append, Option.any_some, List.reverse_append,
    List.dropWhile_append] at hfree
  cases hrest : joined.reverse.dropWhile (· == ':') with
  | nil =>
    rw [List.dropWhile_eq_nil_iff] at hrest
    exact fun c hc => beq_iff_eq.1 (hrest c (List.mem_reverse.2 hc))
  | cons c others =>
    rw [hrest, List.isEmpty_cons, if_neg Bool.false_ne_true, List.cons_append, List.head?_cons,
      Option.any_some] at hfree
    have hmem : c ∈ joined := by
      have hsub := List.dropWhile_sublist (fun x => x == ':') (l := joined.reverse)
      exact List.mem_reverse.1 (hsub.subset (hrest ▸ List.mem_cons_self))
    have hcolon : (c == ':') = false := by
      have hnot := List.head?_dropWhile_not (fun x => x == ':') joined.reverse
      rwa [hrest] at hnot
    have hword := hjoined c hmem
    rw [isWordChar, wordChars_withColons hchars, List.contains_append, List.contains_cons, hcolon,
      List.contains_nil, Bool.or_false, Bool.or_false, ← hchars, ← isWordChar, hfree] at hword
    cases hword

/-- The name of a link is the word around the offset, colons included. -/
theorem linkName?_of_isWord (hread : d.readLimit = none) {before word after : Text}
    (hword : d.withColons.IsWord before word after) {offset : Nat} (hlo : before.size ≤ offset)
    (hhi : offset < before.size + word.size) (hboundary : d.isBoundary offset = true) :
    d.linkName? offset = some (String.ofList word) := by
  have hspan := hword.wordAt_of_isBoundary hlo (Nat.le_of_lt hhi) hboundary
  have hname : d.linkName? offset = if (d.withColons.wordAt offset).isEmpty = true then none else
      some (String.ofList (d.withColons.read (d.withColons.wordAt offset).start
        (d.withColons.wordAt offset).stop)) := rfl
  have hempty : ¬(Span.isEmpty ⟨before.size, before.size + word.size⟩ = true) := by
    rw [Span.isEmpty, decide_eq_true_eq]
    dsimp only
    omega
  rw [hname, hspan, if_neg hempty, @read_cut d.withColons hread _ _ _ hword.text_eq]

/-- The name of a link from an identifier is spelled like the identifier, but for colons in front,
unless the identifier is attached or the offset lies inside a character. -/
theorem linkName?_identifier (hread : d.readLimit = none)
    (hchars : d.wordChars = standardWordChars) {t : Token} (ht : t ∈ d.tokens)
    (hkind : t.kind = .identifier) (hfree : d.isNameAttached t.start = false) {offset : Nat}
    (hlo : t.start ≤ offset) (hhi : offset < t.stop) (hboundary : d.isBoundary offset = true) :
    ∃ colons mid, (∀ c ∈ colons, c = ':') ∧ t.content = foldName (String.ofList mid) ∧
      d.linkName? offset = some (String.ofList (colons ++ mid)) := by
  obtain ⟨before, mid, after, htext, hstart, hstop, hcontent, hmid, hend⟩ :=
    exists_cut_of_mem_tokens ht hkind
  have hchar : d.withColons.isWordChar = Token.isIdentifierRest :=
    funext (isWordChar_withColons hchars)
  obtain ⟨front, joined, rfl, hword, -⟩ :=
    @exists_isWord d.withColons before mid after htext (hchar ▸ hmid) (hchar ▸ hend)
  have hjoined : ∀ c ∈ joined, d.withColons.isWordChar c = true := fun c hc =>
    hword.chars c (List.mem_append_left _ hc)
  refine ⟨joined, mid, eq_colon_of_mem_joined hchars (by rw [htext, List.append_assoc]) hjoined
    (hstart ▸ hfree), by rw [hcontent, foldName, String.toList_ofList], ?_⟩
  rw [Text.size_append] at hstart
  refine linkName?_of_isWord hread hword (by omega) ?_ hboundary
  rw [Text.size_append]
  omega

end Document

/-! ## Following a link -/

namespace Lexer

section
variable {files : FileTree} {x : Lexer} (hx : Reached files x) {profile : Profile}
  (hprofile : x.settings.profile? = some profile) {d₀ : Document} (hread : d₀.readLimit = none)
include hx hprofile hread

/-- What is styled as a class is an identifier that has a script. -/
theorem isSome_findScript_of_styleAt {t : Token} (ht : t ∈ (x.restyleAll files d₀).2.tokens)
    (hclass : (x.restyleAll files d₀).2.styleAt t.start = .scriptClass) :
    (profile.findScript files (foldName t.content)).isSome = true := by
  have htruthful : x.knowledge.Truthful (x.surroundings files) := truthful_of_reached hx
  have hordered := (x.restyleAll files d₀).2.tokens_ordered
  have hlt := (hordered.mem ht).2.1
  rw [x.styleAt_restyleAll files hread (Nat.lt_of_lt_of_le hlt (Document.stop_le_size ht))]
    at hclass
  obtain ⟨pre, l, post, hlines, u, hu, ⟨_, _, _, _, k, hk, hstyle⟩, hlo, hhi⟩ :=
    Lines.exists_styleToken_of_styleOf
      (fun line mode behind t next _ hk => hk.styleToken line mode behind t next)
      (fun mode => by cases mode <;> decide) htruthful hclass
  have hu' := Document.mem_tokens.2 ⟨pre, l, post, hlines, u, hu, rfl⟩
  obtain rfl : t = u.shift (Lines.width pre) := by
    refine hordered.eq_of_overlap ht hu' ?_ ?_ <;> dsimp only [Token.shift] <;> omega
  exact isSome_findScript_of_styleToken hk hstyle hprofile

end

/-- The name of a class leads to its script. -/
theorem followLink_class {files : FileTree} {x : Lexer} (hx : Reached files x) {profile : Profile}
    (hprofile : x.settings.profile? = some profile) {d₀ : Document} (hread : d₀.readLimit = none)
    (hchars : d₀.wordChars = Document.standardWordChars) :
    let s := x.restyleAll files d₀
    ∀ t ∈ s.2.tokens, t.kind = .identifier → s.2.styleAt t.start = .scriptClass →
      s.2.isNameAttached t.start = false →
      ∀ offset, t.start ≤ offset → offset < t.stop → s.2.isBoundary offset = true →
        ∃ path, (s.1.classes.resolve files t.content profile).1 = some path ∧
          (s.1.followLink files s.2 offset).1 = some path ∧
          (s.1.followLink files s.2 offset).2.2.opened = s.2.opened ++ [path] := by
  intro s t ht hkind hclass hfree offset hlo hhi hboundary
  have hsettings : s.1.settings.profile? = some profile := by
    rw [show s = x.restyleAll files d₀ from rfl, restyleAll_eq x files hread]
    exact hprofile
  have htruthful : s.1.classes.Truthful files profile :=
    truthful_of_reached (hx.restyle d₀ 0 (d₀.lineCount - 1) .default) profile hsettings
  obtain ⟨colons, mid, hcolons, hcontent, hname⟩ := Document.linkName?_identifier
    ((x.readLimit_restyleAll files d₀).trans hread)
    ((Document.wordChars_restyleAll x files hread).trans hchars) ht hkind hfree hlo hhi hboundary
  obtain ⟨path, hpath⟩ := Option.isSome_iff_exists.1
    (isSome_findScript_of_styleAt hx hprofile hread ht hclass)
  have hlocate : (s.1.classes.locate files (String.ofList (colons ++ mid)) profile).1 = some path := by
    rw [ClassResolver.fst_locate htruthful, Profile.findScript_colons profile files hcolons,
      ← foldName_foldName, ← hcontent, hpath]
  refine ⟨path, (ClassResolver.fst_resolve _ _ _ _).trans hpath, ?_⟩
  rw [followLink_eq, hsettings, hname]
  dsimp only
  rw [hlocate]
  exact ⟨rfl, rfl⟩

/-- A name with colons in front, from a byte of its last part. -/
theorem followLink_class_stage :
    let files : FileTree := ⟨.directory [("lib", .directory [("Quest", .directory
      [("Stage.psc", .file .empty)])])], []⟩
    let x := ofSettings
      { profiles := [⟨"p", ["lib"]⟩]
        activeProfile := some "p"
        words := PerRole.ofFn fun _ => some "" }
    let s := x.restyleAll files (.ofText "link" "::QUEST:Stage s".toList)
    ∃ path, (s.1.followLink files s.2 9).1 = some path ∧
      (s.1.followLink files s.2 9).2.2.opened = [path] := by
  intro files x s
  obtain ⟨hmem, hclass, hfree, hboundary, hopened⟩ :
      ⟨"quest:stage", .identifier, 2, 13⟩ ∈ s.2.tokens ∧ s.2.styleAt 2 = .scriptClass ∧
        s.2.isNameAttached 2 = false ∧ s.2.isBoundary 9 = true ∧ s.2.opened = [] := by
    decide +kernel
  obtain ⟨path, -, hpath, hopen⟩ := followLink_class (Reached.new _) rfl rfl rfl _ hmem rfl hclass
    hfree 9 (by decide) (by decide) hboundary
  rw [hopened] at hopen
  exact ⟨path, hpath, hopen⟩

/-- A name behind a numeral is read as another one, and inside a character there is none. -/
theorem not_followLink_class_attached :
    let files : FileTree := ⟨.directory [("lib", .directory [("foo.psc", .file .empty),
      ("é.psc", .file .empty)])], []⟩
    let x := ofSettings
      { profiles := [⟨"p", ["lib"]⟩]
        activeProfile := some "p"
        words := PerRole.ofFn fun _ => some "" }
    let s := x.restyleAll files (.ofText "link" "5Foo é".toList)
    let resolve (identifier : String) := (s.1.classes.resolve files identifier ⟨"p", ["lib"]⟩).1
    (⟨"foo", .identifier, 1, 4⟩ ∈ s.2.tokens ∧ s.2.styleAt 1 = .scriptClass ∧
      resolve "foo" = some "lib/foo.psc" ∧ (s.1.followLink files s.2 1).1 = none) ∧
    (⟨"é", .identifier, 5, 7⟩ ∈ s.2.tokens ∧ s.2.styleAt 5 = .scriptClass ∧
      resolve "é" = some "lib/é.psc" ∧ (s.1.followLink files s.2 6).1 = none) := by
  decide +kernel

end Lexer

end Papyrus

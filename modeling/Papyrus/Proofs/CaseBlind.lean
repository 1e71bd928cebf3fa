import Papyrus.Proofs.ClassCache
import Papyrus.Proofs.CodeMatch
import Papyrus.Proofs.LetterCase
/-!
# Documents in any letter case

Two documents with the same letters (`Document.SameLetters`), in whatever case these are, are the
same to a lexer. It learns the same from both, gives them the same styles and fold levels, finds the
same blocks in them and follows a name in them to the same script; and they have the same letters
still when it has styled them. Only ASCII letters may be in another case: beyond ASCII two cases of
a letter can differ in size.

Results:
* `sameLetters_restyle`: styling is the same in both cases.
* `SameLetters.foldRun`: so is folding.
* `SameLetters.matchKeyword`: blocks have the same ends.
* `sameLetters_followLink`: links lead to the same scripts.
* `restyleAll_map_toLower`: all of this for two texts and a lexer that has seen neither.
-/
namespace Papyrus

/-! ## Places of a word -/

namespace Text

/-- A place with its neighbours in lower case, as far as ASCII goes. -/
def Occurrence.lowered (o : Occurrence) : Occurrence :=
  { o with before := o.before.map Char.toLower, after := o.after.map Char.toLower }

section
variable {key : Char → Char} (hkey : ∀ c : Char, key c.toLower = key c)
include hkey

theorem needleEnd?_map_toLower (base : Nat) (needle t : Text) :
    needleEnd? key base needle (t.map Char.toLower) =
      (needleEnd? key base needle t).map fun (stop, after) => (stop, after.map Char.toLower) := by
  induction needle generalizing base t with
  | nil => cases t <;> rfl
  | cons n needle ih =>
    cases t with
    | nil => rfl
    | cons c t =>
      rw [List.map_cons, needleEnd?, needleEnd?, hkey, Unicode.utf8Size_toLower, ih]
      split <;> rfl

/-- A needle is met at the same places. -/
theorem places_map_toLower (needle t : Text) :
    places key needle (t.map Char.toLower) = (places key needle t).map Occurrence.lowered := by
  suffices ∀ base before, placesFrom key (needle.map key) base (before.map Char.toLower)
      (t.map Char.toLower) =
        (placesFrom key (needle.map key) base before t).map Occurrence.lowered from this 0 none
  induction t with
  | nil =>
    intro base before
    rw [List.map_nil, placesFrom, placesFrom]
    split <;> rfl
  | cons c t ih =>
    intro base before
    have hend := needleEnd?_map_toLower hkey base (needle.map key) (c :: t)
    have ih := ih (base + c.utf8Size) (some c)
    rw [List.map_cons] at hend
    rw [Option.map_some] at ih
    rw [List.map_cons, placesFrom, placesFrom, hend, Unicode.utf8Size_toLower, ih]
    cases needleEnd? key base (needle.map key) (c :: t) <;> rfl

end

end Text

/-! ## Lines -/

/-- A line with its text in lower case, as far as ASCII goes. -/
def Line.lowered (l : Line) : Line where
  text := l.text.map Char.toLower
  styles := l.styles
  fold := l.fold
  size_styles := by rw [Text.size_map_toLower, l.size_styles]

theorem Line.lowered_ofText (text : Text) :
    (ofText text).lowered = ofText (text.map Char.toLower) := by
  simp only [ofText, lowered, Text.size_map_toLower]

/-- Letter case has no say in where styles are painted. -/
theorem Line.lowered_restyle (l : Line) (styles : LineStyles) (start read : Nat)
    (followed : Bool) :
    (l.restyle styles start read followed).lowered =
      l.lowered.restyle styles start read followed := by
  have hspans : ∀ (spans : List StyledSpan) (l : Line),
      (spans.foldl (fun l s => l.paint (s.start - start) (s.stop - start) s.style) l).lowered =
        spans.foldl (fun l s => l.paint (s.start - start) (s.stop - start) s.style) l.lowered := by
    intro spans
    induction spans with
    | nil => exact fun _ => rfl
    | cons s spans ih => exact fun l => ih (l.paint _ _ s.style)
  have hplain := hspans styles.spans (l.paint read l.size .default)
  cases followed with
  | false => exact hplain
  | true => exact congrArg (·.paint l.size (l.size + 1) styles.trailing) hplain

namespace Lines

theorem text_lowered (ls : Lines) : text (ls.map Line.lowered) = (text ls).map Char.toLower := by
  rw [text, text, ← Text.joinLines_map_toLower, List.map_map, List.map_map]
  rfl

theorem size_lowered (ls : Lines) : size (ls.map Line.lowered) = size ls := by
  rw [← size_text, text_lowered, Text.size_map_toLower, size_text]

theorem map_size_lowered (ls : Lines) :
    (ls.map Line.lowered).map Line.size = ls.map Line.size := by
  rw [List.map_map]
  rfl

theorem lineStart_lowered (ls : Lines) (i : Nat) :
    lineStart (ls.map Line.lowered) i = lineStart ls i :=
  lineStart_congr (map_size_lowered ls) i

theorem lineEnd_lowered (ls : Lines) (i : Nat) :
    lineEnd (ls.map Line.lowered) i = lineEnd ls i :=
  lineEnd_congr (map_size_lowered ls) i

theorem styleAt_lowered (ls : Lines) (offset : Nat) :
    styleAt (ls.map Line.lowered) offset = styleAt ls offset := by
  induction ls generalizing offset with
  | nil => rfl
  | cons l ls ih =>
    rw [List.map_cons, styleAt, styleAt, ih]
    rfl

end Lines

namespace Document

/-! ## Documents with the same letters -/

/-- Two documents with the same lines, but for the case of ASCII letters. In both a letter is part
of words in either case or in none. -/
structure SameLetters (d d' : Document) : Prop where
  lines : d.lines.map Line.lowered = d'.lines.map Line.lowered
  wordChars : d.wordChars = d'.wordChars
  letters : ∀ c : Char, c.toLower ∈ d.wordChars ↔ c ∈ d.wordChars
  readLimit : d.readLimit = d'.readLimit

/-- The standard word characters have the letters in both cases. -/
theorem toLower_mem_standardWordChars (c : Char) :
    c.toLower ∈ standardWordChars ↔ c ∈ standardWordChars := by
  have hstandard : standardWordChars.contains c.toLower = standardWordChars.contains c :=
    Unicode.apply_toLower (f := standardWordChars.contains) (by decide +kernel) c
  rw [← List.contains_iff_mem, ← List.contains_iff_mem, hstandard]

theorem sameLetters_ofText (name name' : String) {text text' : Text}
    (h : text.map Char.toLower = text'.map Char.toLower) :
    (ofText name text).SameLetters (ofText name' text') where
  lines := by
    have hlines : ∀ name text, (ofText name text).lines.map Line.lowered =
        (Text.breakLines (text.map Char.toLower)).map Line.ofText := by
      intro name text
      rw [Text.breakLines_map_toLower, List.map_map, ofText, List.map_map]
      exact List.map_congr_left fun l _ => Line.lowered_ofText l
    rw [hlines, hlines, h]
  wordChars := rfl
  letters := toLower_mem_standardWordChars
  readLimit := rfl

namespace SameLetters

variable {d d' : Document} (h : d.SameLetters d')
include h

theorem text : d.text.map Char.toLower = d'.text.map Char.toLower := by
  rw [Document.text, ← Lines.text_lowered, h.lines, Lines.text_lowered, Document.text]

theorem size : d.size = d'.size := by
  rw [Document.size, ← Lines.size_lowered, h.lines, Lines.size_lowered, Document.size]

theorem lineCount : d.lineCount = d'.lineCount := by
  rw [Document.lineCount, ← List.length_map Line.lowered, h.lines, List.length_map,
    Document.lineCount]

theorem lineSpan (first last : Nat) : d.lineSpan first last = d'.lineSpan first last := by
  rw [Document.lineSpan, Document.lineSpan, h.lineCount]

theorem lineStart (line : Nat) : d.lineStart line = d'.lineStart line := by
  rw [Document.lineStart, ← Lines.lineStart_lowered, h.lines, Lines.lineStart_lowered,
    Document.lineStart]

theorem lineEnd (line : Nat) : d.lineEnd line = d'.lineEnd line := by
  rw [Document.lineEnd, ← Lines.lineEnd_lowered, h.lines, Lines.lineEnd_lowered, Document.lineEnd]

theorem styleAt (offset : Nat) : d.styleAt offset = d'.styleAt offset := by
  rw [Document.styleAt, ← Lines.styleAt_lowered, h.lines, Lines.styleAt_lowered, Document.styleAt]

theorem foldLevel? (line : Nat) : d.foldLevel? line = d'.foldLevel? line := by
  have hfold : ∀ d : Document,
      d.foldLevel? line = (d.lines.map Line.lowered)[line]?.bind Line.fold := by
    intro d
    rw [Document.foldLevel?, List.getElem?_map]
    cases d.lines[line]? <;> rfl
  rw [hfold, hfold, h.lines]

/-- The same is read of both, but for letter case. -/
theorem read (start stop : Nat) :
    (d.read start stop).map Char.toLower = (d'.read start stop).map Char.toLower := by
  have hslice : (d.slice start stop).map Char.toLower = (d'.slice start stop).map Char.toLower := by
    rw [slice, slice, ← h.size]
    split
    · rw [Lines.slice_eq, Lines.slice_eq, ← Text.map_toLower_slice, ← Text.map_toLower_slice]
      exact congrArg (Text.slice · start stop) h.text
    · rfl
  rw [Document.read, Document.read, ← h.readLimit]
  cases d.readLimit with
  | none => exact hslice
  | some n =>
    dsimp only
    rw [← Text.takeFloor_map_toLower, hslice, Text.takeFloor_map_toLower]

theorem size_read (start stop : Nat) :
    Text.size (d.read start stop) = Text.size (d'.read start stop) := by
  rw [← Text.size_map_toLower, h.read, Text.size_map_toLower]

theorem scan_read (start stop base : Nat) :
    Token.scan (d.read start stop) base = Token.scan (d'.read start stop) base := by
  rw [← Token.scan_map_toLower, h.read, Token.scan_map_toLower]

/-- The name of a word in lower case is the same. -/
theorem foldName_read (start stop : Nat) :
    foldName (String.ofList (d.read start stop)) =
      foldName (String.ofList (d'.read start stop)) := by
  rw [foldName, foldName, String.toList_ofList, String.toList_ofList,
    ← Unicode.lowerCase_map_toLower, h.read, Unicode.lowerCase_map_toLower]

theorem modifyLine (line : Nat) {f : Line → Line} (hf : ∀ l, (f l).lowered = f l.lowered) :
    (d.modifyLine line f).SameLetters (d'.modifyLine line f) where
  lines := by
    have hmodify : ∀ ls : Lines, (ls.modify line f).map Line.lowered =
        (ls.map Line.lowered).modify line f := by
      intro ls
      refine List.ext_getElem? fun i => ?_
      rw [List.getElem?_map, List.getElem?_modify, List.getElem?_modify, List.getElem?_map]
      cases ls[i]? with
      | none => rfl
      | some l =>
        by_cases hi : line = i
        · simp only [hi, if_true, Option.map_eq_map, Option.map_some, hf]
        · simp only [hi, if_false, Option.map_eq_map, Option.map_some]
    rw [Document.modifyLine, Document.modifyLine]
    dsimp only
    rw [hmodify, hmodify, h.lines]
  wordChars := h.wordChars
  letters := h.letters
  readLimit := h.readLimit

end SameLetters

/-! ## Styling and folding -/

section
variable {d d' : Document}

/-- A line is styled the same in any letter case. -/
theorem sameLetters_restyleLine (h : d.SameLetters d') (env : Surroundings) (line : Nat)
    (incoming : LineState) (k : Knowledge) :
    let r := d.restyleLine env line incoming k
    let r' := d'.restyleLine env line incoming k
    r.1 = r'.1 ∧ r.2.1 = r'.2.1 ∧ r.2.2.SameLetters r'.2.2 := by
  have hstyles : ∀ start stop, styleLine env (d.read start stop) start line incoming k =
      styleLine env (d'.read start stop) start line incoming k := by
    intro start stop
    rw [styleLine, styleLine, h.scan_read, h.size_read]
  simp only [restyleLine_eq, ← h.lineStart, ← h.lineEnd, ← h.lineCount, hstyles, h.size_read]
  exact ⟨trivial, trivial, h.modifyLine line fun l => l.lowered_restyle _ _ _ _⟩

theorem sameLetters_restyleRun (h : d.SameLetters d') (env : Surroundings) (line : Nat)
    (incoming : LineState) (k : Knowledge) (count : Nat) :
    let r := d.restyleRun env line incoming k count
    let r' := d'.restyleRun env line incoming k count
    r.1 = r'.1 ∧ r.2.1 = r'.2.1 ∧ r.2.2.SameLetters r'.2.2 := by
  induction count generalizing d d' line incoming k with
  | zero => exact ⟨rfl, rfl, h⟩
  | succ count ih =>
    obtain ⟨hstate, hknowledge, hline⟩ := sameLetters_restyleLine h env line incoming k
    simp only [restyleRun, ← hstate, ← hknowledge]
    exact ih hline (line + 1) _ _

/-- A line is folded the same in any letter case. -/
theorem SameLetters.foldLevelOf (h : d.SameLetters d') (words : WordLists) (foldMiddle : Bool)
    (line : Nat) (previous : Int) :
    d.foldLevelOf words foldMiddle line previous =
      d'.foldLevelOf words foldMiddle line previous := by
  simp only [Document.foldLevelOf, ← h.lineStart, ← h.lineEnd, h.scan_read, h.styleAt]

theorem SameLetters.foldRun (h : d.SameLetters d') (words : WordLists) (foldMiddle : Bool)
    (line : Nat) (previous : Int) (count : Nat) :
    (d.foldRun words foldMiddle line previous count).1 =
      (d'.foldRun words foldMiddle line previous count).1 := by
  induction count generalizing d d' line previous with
  | zero => rfl
  | succ count ih =>
    have hlevel := h.foldLevelOf words foldMiddle line previous
    have hline := h.modifyLine line
      (f := fun l => { l with fold := some (d.foldLevelOf words foldMiddle line previous) })
      fun _ => rfl
    have ih := ih hline (line + 1) (d.foldLevelOf words foldMiddle line previous).next
    rw [Document.foldRun, Document.foldRun, ← hlevel]
    exact congrArg (_ :: ·) ih

end

/-! ## Matching -/

namespace SameLetters

variable {d d' : Document} (h : d.SameLetters d')
include h

theorem isWordChar : d.isWordChar = d'.isWordChar := by
  funext c
  rw [Document.isWordChar, Document.isWordChar, h.wordChars]

theorem isWordChar_toLower (c : Char) : d.isWordChar c.toLower = d.isWordChar c := by
  rw [Document.isWordChar, Document.isWordChar, List.contains_eq_mem, List.contains_eq_mem,
    decide_eq_decide.2 (h.letters c), Unicode.isAscii_toLower, Unicode.isAlphanumeric_toLower]

/-- Words stand at the same places. -/
theorem wordAt (offset : Nat) : d.wordAt offset = d'.wordAt offset := by
  have haround := congrArg (Text.around? · (min offset d.size)) h.text
  have hrun : ∀ t : Text, Text.size ((t.map Char.toLower).takeWhile d.isWordChar) =
      Text.size (t.takeWhile d.isWordChar) := by
    intro t
    have hchars : d.isWordChar ∘ Char.toLower = d.isWordChar := funext h.isWordChar_toLower
    rw [List.takeWhile_map, hchars, Text.size_map_toLower]
  rw [Text.around?_map_toLower, Text.around?_map_toLower] at haround
  rw [Document.wordAt, Document.wordAt, ← h.size, ← h.isWordChar]
  cases ha : d.text.around? (min offset d.size) with
  | none =>
    cases ha' : d'.text.around? (min offset d.size) with
    | none => rfl
    | some => simp [ha, ha'] at haround
  | some sides =>
    cases ha' : d'.text.around? (min offset d.size) with
    | none => simp [ha, ha'] at haround
    | some sides' =>
      rw [ha, ha'] at haround
      obtain ⟨hbefore, hafter⟩ := Prod.mk.inj (Option.some.inj haround)
      dsimp only
      rw [← hrun sides.1, ← hrun sides.2, hbefore, hafter, hrun, hrun]

theorem wordName (caret : Nat) : d.wordName caret = d'.wordName caret := by
  rw [Document.wordName, Document.wordName, ← h.wordAt, h.foldName_read]

theorem isWholeWord (o : Text.Occurrence) : d.isWholeWord o = d'.isWholeWord o := by
  rw [Document.isWholeWord, Document.isWholeWord, h.isWordChar]

theorem isWholeWord_lowered (o : Text.Occurrence) : d.isWholeWord o.lowered = d.isWholeWord o := by
  have hany : ∀ c? : Option Char, (c?.map Char.toLower).any d.isWordChar = c?.any d.isWordChar := by
    intro c?
    cases c? with
    | none => rfl
    | some c => exact h.isWordChar_toLower c
  rw [Document.isWholeWord, Document.isWholeWord, Text.Occurrence.lowered, hany, hany]

/-- A word has the same marks. -/
theorem places_marks (word : String) (style : Style) :
    (d.marks word style).places = (d'.marks word style).places := by
  by_cases hword : word.toList = []
  · rw [show (d.marks word style).places = [] from if_pos hword,
      show (d'.marks word style).places = [] from if_pos hword]
  have hplaces : (d.places word.toList false).map Text.Occurrence.lowered =
      (d'.places word.toList false).map Text.Occurrence.lowered := by
    have hkey : ∀ d : Document, d.places word.toList false =
        Text.places Unicode.foldCase word.toList d.text := fun _ => rfl
    rw [hkey, hkey, ← Text.places_map_toLower Unicode.foldCase_toLower, h.text,
      Text.places_map_toLower Unicode.foldCase_toLower]
  have hmarks : ∀ os : List Text.Occurrence,
      os.map (fun o => Mark.mk o.toSpan (d.isWholeWord o && d.styleAt o.start == style)) =
        (os.map Text.Occurrence.lowered).map fun o =>
          Mark.mk o.toSpan (d.isWholeWord o && d.styleAt o.start == style) := by
    intro os
    rw [List.map_map]
    refine List.map_congr_left fun o _ => ?_
    rw [Function.comp_apply, h.isWholeWord_lowered]
    rfl
  rw [d.places_marks hword, d'.places_marks hword]
  simp only [← h.isWholeWord, ← h.styleAt]
  rw [hmarks, hplaces, ← hmarks]

theorem sameMarks : d.SameMarks d' where
  size := h.size
  between word _ style _ lo hi := by rw [Marks.between, Marks.between, h.places_marks]

/-- A block has the same ends in any letter case. -/
theorem matchKeyword (caret : Nat) : d.matchKeyword caret = d'.matchKeyword caret := by
  have hname := h.wordName caret
  cases hword : Construct.ofWord? (d.wordName caret) with
  | none =>
    rw [matchKeyword_of_ofWord?_eq_none hword, matchKeyword_of_ofWord?_eq_none (hname ▸ hword)]
  | some construct =>
    rw [matchKeyword_of_ofWord? hword, matchKeyword_of_ofWord? (hname ▸ hword), ← h.wordAt,
      ← h.styleAt, h.sameMarks.matchConstruct (Construct.known_of_ofWord? hword).2]

/-! ## Links -/

theorem withWordChars {extra : Text} (hextra : ∀ c : Char, c.toLower ∈ extra ↔ c ∈ extra) :
    SameLetters
      { d with wordChars := d.wordChars ++ extra.filter (! d.wordChars.contains ·) }
      { d' with wordChars := d'.wordChars ++ extra.filter (! d'.wordChars.contains ·) } where
  lines := h.lines
  wordChars := by rw [h.wordChars]
  letters c := by
    simp only [List.mem_append, List.mem_filter, List.contains_eq_mem, h.letters, hextra]
  readLimit := h.readLimit

/-- A link has the same name, but for letter case. -/
theorem linkName? (offset : Nat) :
    (d.linkName? offset).map foldName = (d'.linkName? offset).map foldName := by
  have hcolon : ∀ c : Char, c.toLower ∈ [':'] ↔ c ∈ [':'] := by
    intro c
    rw [List.mem_singleton, List.mem_singleton]
    exact Unicode.toLower_eq_iff (by decide)
  have h' := h.withWordChars hcolon
  rw [Document.linkName?, Document.linkName?]
  rw [← h'.wordAt]
  split
  · rfl
  · exact congrArg some (h'.foldName_read _ _)

end SameLetters

end Document

/-- A script is looked for in any letter case. -/
theorem ClassResolver.locate_of_foldName {name name' : String} (h : foldName name = foldName name')
    (r : ClassResolver) (tree : FileTree) (profile : Profile) :
    r.locate tree name profile = r.locate tree name' profile := by
  rw [locate, locate, resolve, resolve, h]

namespace Lexer

section
variable {d d' : Document} (h : d.SameLetters d') (x : Lexer) (files : FileTree)
include h

/-- Styling says the same in any letter case. -/
theorem sameLetters_restyle (first last : Nat) (incoming : LineState) :
    let r := x.restyle files d first last incoming
    let r' := x.restyle files d' first last incoming
    r.1 = r'.1 ∧ r.2.1 = r'.2.1 ∧ r.2.2.SameLetters r'.2.2 := by
  obtain ⟨hstate, hknowledge, hlines⟩ := Document.sameLetters_restyleRun h (x.surroundings files)
    first incoming x.knowledge (d.lineSpan first last)
  rw [restyle_eq, restyle_eq, ← h.lineSpan]
  exact ⟨hstate, congrArg x.learn hknowledge, hlines⟩

/-- Fold levels are the same in any letter case. -/
theorem fst_foldLines_of_sameLetters (first last : Nat) :
    (x.foldLines d first last).1 = (x.foldLines d' first last).1 := by
  have hlevel : incomingLevel d first = incomingLevel d' first := by
    cases first with
    | zero => rfl
    | succ line => rw [incomingLevel, incomingLevel, h.foldLevel?]
  rw [foldLines, foldLines, fold, fold, h.lineSpan, hlevel, h.foldRun]

/-- A link leads to the same script in any letter case, and the lexer remembers the same of it. -/
theorem sameLetters_followLink (offset : Nat) :
    let r := x.followLink files d offset
    let r' := x.followLink files d' offset
    r.1 = r'.1 ∧ r.2.1 = r'.2.1 ∧ r.2.2.SameLetters r'.2.2 := by
  have hname := h.linkName? offset
  rw [followLink_eq, followLink_eq]
  cases x.settings.profile? with
  | none => exact ⟨rfl, rfl, h⟩
  | some profile =>
    cases hn : d.linkName? offset with
    | none =>
      cases hn' : d'.linkName? offset with
      | none => exact ⟨rfl, rfl, h⟩
      | some => simp [hn, hn'] at hname
    | some name =>
      cases hn' : d'.linkName? offset with
      | none => simp [hn, hn'] at hname
      | some name' =>
        rw [hn, hn'] at hname
        have hlocate := ClassResolver.locate_of_foldName (Option.some.inj hname) x.classes files
          profile
        dsimp only
        rw [hlocate]
        refine ⟨rfl, rfl, ?_⟩
        cases (x.classes.locate files name' profile).1 with
        | none => exact h
        | some => exact ⟨h.lines, h.wordChars, h.letters, h.readLimit⟩

end

/-- Restyled documents with the same letters have the same letters still, and tell the same. -/
theorem sameLetters_restyleAll {d d' : Document} (h : d.SameLetters d') (x : Lexer)
    (files : FileTree) :
    (x.restyleAll files d).1 = (x.restyleAll files d').1 ∧
      (x.restyleAll files d).2.SameLetters (x.restyleAll files d').2 := by
  rw [restyleAll, restyleAll, ← h.lineCount]
  exact (sameLetters_restyle h x files 0 (d.lineCount - 1) .default).2

/-- Two texts that differ in the case of ASCII letters alone are the same to a lexer that has seen
neither: it gives them the same styles, learns the same from them, folds them alike, and finds the
same blocks and scripts in them. -/
theorem restyleAll_map_toLower (settings : Settings) (files : FileTree) (name name' : String)
    {text text' : Text} (h : text.map Char.toLower = text'.map Char.toLower) :
    let r := (ofSettings settings).restyleAll files (.ofText name text)
    let r' := (ofSettings settings).restyleAll files (.ofText name' text')
    r.2.size = r'.2.size ∧ (∀ offset, r.2.styleAt offset = r'.2.styleAt offset) ∧ r.1 = r'.1 ∧
      (∀ first last, (r.1.foldLines r.2 first last).1 = (r'.1.foldLines r'.2 first last).1) ∧
      (∀ caret, r.2.matchKeyword caret = r'.2.matchKeyword caret) ∧
      ∀ offset, (r.1.followLink files r.2 offset).1 = (r'.1.followLink files r'.2 offset).1 := by
  intro r r'
  obtain ⟨hlexer, hletters⟩ : r.1 = r'.1 ∧ r.2.SameLetters r'.2 :=
    sameLetters_restyleAll (Document.sameLetters_ofText name name' h) _ _
  refine ⟨hletters.size, hletters.styleAt, hlexer, fun first last => ?_, hletters.matchKeyword,
    fun offset => ?_⟩
  · rw [← hlexer, fst_foldLines_of_sameLetters hletters]
  · rw [← hlexer]
    exact (sameLetters_followLink hletters r.1 files offset).1

/-- The case of the letters next to a sigma has no say in the sigma's lower case. -/
theorem restyleAll_map_toLower_sigma :
    let text := "IF 0X1F == a\u03A3\nEndIf".toList
    let text' := "if 0x1f == A\u03A3\nENDIF".toList
    let r := (ofSettings {}).restyleAll {} (.ofText "capitals" text)
    let r' := (ofSettings {}).restyleAll {} (.ofText "small" text')
    text.map Char.toLower = text'.map Char.toLower ∧ r.1 = r'.1 ∧
      ∀ caret, r.2.matchKeyword caret = r'.2.matchKeyword caret := by
  have hletters : "IF 0X1F == a\u03A3\nEndIf".toList.map Char.toLower =
      "if 0x1f == A\u03A3\nENDIF".toList.map Char.toLower := by decide +kernel
  have h := restyleAll_map_toLower {} {} "capitals" "small" hletters
  exact ⟨hletters, h.2.2.1, h.2.2.2.2.1⟩

end Lexer

end Papyrus

import Papyrus.Settings.File
import Papyrus.Proofs.WrittenDocument
import Papyrus.Proofs.WrittenFile
/-!
# Settings are loaded as they were saved

The configuration file of settings is a document with pairs, the table of the word lists and an
array of the profiles. It is read as the table of the settings (`Settings.table`), in which every
value is under its key and what has no value has none; and the settings of that table are those that
were saved, whatever the texts in them are.

Results:
* `prints_toText`, `read?_toText`: the configuration file is read as the table of the settings.
* `ofTable_table`: the settings of this table.
* `load_save`: what is saved to a file is loaded from it.
-/
namespace Papyrus.Settings

open Toml

/-! ## The table of settings -/

/-- The word lists that are not the standard ones, under their keys. -/
def wordsTable (words : PerRole (Option String)) : Table :=
  WordRole.all.flatMap fun role => (words.get role).elim [] fun text => [(role.key, .string text)]

/-- A profile as a table. -/
def profileTable (p : Profile) : Table :=
  [("name", .string p.name), ("import_dirs", .array (p.importDirs.map .string))]

/-- The settings that are neither word lists nor profiles. An array of no profiles is among them,
since it has no header of its own. -/
def plainTable (s : Settings) : Table :=
  [("fold_middle", Value.boolean s.foldMiddle), ("class_cache", .boolean s.classCache),
    ("keyword_matching", .boolean s.keywordMatching),
    ("matched_indicator", .integer s.matchedIndicator.toNat),
    ("unmatched_indicator", .integer s.unmatchedIndicator.toNat)] ++
  s.activeProfile.elim [] (fun name => [("active_profile", Value.string name)]) ++
  (if s.profiles.isEmpty then [("profiles", Value.array [])] else [])

/-- The table of all settings. -/
def table (s : Settings) : Table :=
  s.plainTable ++
    ("words", .table (wordsTable s.words)) :: arrayOf "profiles" (s.profiles.map profileTable)

/-! ## Writing -/

theorem isKey_key (role : WordRole) : isKey role.key = true := by cases role <;> decide

theorem prints_words (words : PerRole (Option String)) :
    Prints (WordRole.all.flatMap fun role =>
        (words.get role).elim [] fun text => printPair role.key (printString text))
      (pairsOf (wordsTable words)) := by
  rw [pairsOf, wordsTable, List.map_flatMap]
  refine Prints.flatMap fun role _ => ?_
  cases words.get role with
  | none => exact prints_nil
  | some text => exact prints_pair _ (isKey_key role) (reads_printString text)

theorem prints_profile (p : Profile) :
    Prints ("\n[[profiles]]\n".toList ++ printPair "name" (printString p.name) ++
        printPair "import_dirs" (printStrings p.importDirs))
      (.openItem ["profiles"] :: pairsOf (profileTable p)) := by
  have hheader := prints_openItem "profiles" (by decide)
  have hname := prints_pair "name" (by decide) (reads_printString p.name)
  have hdirs := prints_pair "import_dirs" (by decide) (reads_printStrings p.importDirs)
  exact (hheader.append hname).append hdirs

/-- The settings that are neither word lists nor profiles, behind the heading. -/
theorem prints_plain (s : Settings) :
    Prints ("# papyrus-lex configuration\n".toList ++
      (printPair "fold_middle" (encodeBool s.foldMiddle) ++
      printPair "class_cache" (encodeBool s.classCache) ++
      printPair "keyword_matching" (encodeBool s.keywordMatching) ++
      printPair "matched_indicator" (encodeIndicator s.matchedIndicator) ++
      printPair "unmatched_indicator" (encodeIndicator s.unmatchedIndicator) ++
      s.activeProfile.elim [] (fun name => printPair "active_profile" (printString name)) ++
      (if s.profiles.isEmpty then printPair "profiles" (printStrings []) else [])))
      (pairsOf s.plainTable) := by
  have hfold := prints_comment_pair " papyrus-lex configuration".toList
    (List.all_eq_true.1 (by decide)) "fold_middle" (by decide) (reads_bool s.foldMiddle)
  have hcache := prints_pair "class_cache" (by decide) (reads_bool s.classCache)
  have hmatching :=
    prints_pair "keyword_matching" (by decide) (reads_bool s.keywordMatching)
  have hmatched := prints_pair "matched_indicator" (by decide)
    (reads_indicator s.matchedIndicator)
  have hunmatched := prints_pair "unmatched_indicator" (by decide)
    (reads_indicator s.unmatchedIndicator)
  have hactive : Prints
      (s.activeProfile.elim [] fun name => printPair "active_profile" (printString name))
      (s.activeProfile.elim [] fun name => [.pair ["active_profile"] (.string name)]) := by
    cases s.activeProfile with
    | none => exact prints_nil
    | some name => exact prints_pair _ (by decide) (reads_printString name)
  have hprofiles :
      Prints (if s.profiles.isEmpty then printPair "profiles" (printStrings []) else [])
        (if s.profiles.isEmpty then [.pair ["profiles"] (.array [])] else []) := by
    split
    · exact prints_pair _ (by decide) (reads_printStrings [])
    · exact prints_nil
  have hall := (((((hfold.append hcache).append hmatching).append hmatched).append
    hunmatched).append hactive).append hprofiles
  have hheading : "# papyrus-lex configuration\n".toList =
      '#' :: (" papyrus-lex configuration".toList ++ ['\n']) := by decide
  have hpairs : pairsOf s.plainTable =
      [Statement.pair ["fold_middle"] (.boolean s.foldMiddle)] ++
      [Statement.pair ["class_cache"] (.boolean s.classCache)] ++
      [Statement.pair ["keyword_matching"] (.boolean s.keywordMatching)] ++
      [Statement.pair ["matched_indicator"] (.integer s.matchedIndicator.toNat)] ++
      [Statement.pair ["unmatched_indicator"] (.integer s.unmatchedIndicator.toNat)] ++
      s.activeProfile.elim [] (fun name => [Statement.pair ["active_profile"] (.string name)]) ++
      (if s.profiles.isEmpty then [Statement.pair ["profiles"] (.array [])] else []) := by
    unfold plainTable
    cases s.activeProfile <;> cases s.profiles <;> rfl
  rw [hpairs, hheading]
  simpa only [List.append_assoc, List.cons_append, List.nil_append] using hall

/-- The file of the settings has the statements that make their table. -/
theorem prints_toText (s : Settings) :
    Prints s.toText (pairsOf s.plainTable ++ tableStatements "words" (wordsTable s.words) ++
      itemStatements "profiles" (s.profiles.map profileTable)) := by
  have hheader : Prints "\n[words]\n".toList [.openTable ["words"]] :=
    prints_openTable "words" (by decide)
  have hwords := prints_words s.words
  have hprofiles := Prints.flatMap (l := s.profiles) fun p _ => prints_profile p
  have hall := ((s.prints_plain.append hheader).append hwords).append hprofiles
  have hitems : itemStatements "profiles" (s.profiles.map profileTable) =
      s.profiles.flatMap fun p => .openItem ["profiles"] :: pairsOf (profileTable p) := by
    rw [itemStatements, List.flatMap_map]
  have hstatements : pairsOf s.plainTable ++ tableStatements "words" (wordsTable s.words) =
      pairsOf s.plainTable ++ [.openTable ["words"]] ++ pairsOf (wordsTable s.words) := by
    simp [tableStatements]
  rw [hitems, hstatements]
  unfold toText toToml
  simp only [List.append_assoc] at hall ⊢
  exact hall

theorem nodup_wordsTable (words : PerRole (Option String)) :
    ((wordsTable words).map (·.1)).Nodup := by
  have hsublist : ∀ roles : List WordRole, ((roles.flatMap fun role =>
      (words.get role).elim [] fun text => [(role.key, Value.string text)]).map (·.1)).Sublist
        (roles.map WordRole.key) := by
    intro roles
    induction roles with
    | nil => exact .refl _
    | cons role roles ih =>
      rw [List.flatMap_cons, List.map_append, List.map_cons]
      cases words.get role with
      | none => exact ih.cons _
      | some text => exact ih.cons_cons _
  exact (hsublist WordRole.all).nodup (by decide)

/-- The keys of these settings; two of them are not always there. -/
theorem keys_plainTable (s : Settings) : s.plainTable.map (·.1) =
    ["fold_middle", "class_cache", "keyword_matching", "matched_indicator",
      "unmatched_indicator"] ++ (if s.activeProfile.isSome then ["active_profile"] else []) ++
      (if s.profiles.isEmpty then ["profiles"] else []) := by
  unfold plainTable
  cases s.activeProfile <;> cases s.profiles <;> rfl

theorem read?_toText (s : Settings) : read? s.toText = some s.table := by
  refine read?_of_prints s.prints_toText ?_ ?_ ?_ (nodup_wordsTable s.words) ?_ ?_
  · exact fun h => absurd (Option.some.inj h) (by decide)
  · rw [keys_plainTable]
    cases s.activeProfile.isSome <;> cases s.profiles.isEmpty <;> decide
  · rw [keys_plainTable]
    cases s.activeProfile.isSome <;> cases s.profiles.isEmpty <;> decide
  · intro hne
    have hsome : s.profiles.isEmpty = false := by simpa using hne
    rw [keys_plainTable, hsome]
    cases s.activeProfile.isSome <;> decide
  · intro item hitem
    obtain ⟨p, -, rfl⟩ := List.mem_map.1 hitem
    simp [profileTable]

/-! ## Reading -/

theorem field_some {α : Type} {t : Table} {key : String} {v : Value} (h : t.lookup key = some v)
    (decode : Value → Except ConfigurationError α) (default : α) :
    field t key decode default = decode v := by
  simp [field, h]

theorem field_none {α : Type} {t : Table} {key : String} (h : t.lookup key = none)
    (decode : Value → Except ConfigurationError α) (default : α) :
    field t key decode default = .ok default := by
  simp [field, h]

theorem key_inj {role role' : WordRole} (h : role.key = role'.key) : role = role' := by
  cases role <;> cases role' <;> first | rfl | exact absurd h (by decide)

theorem lookup_wordsTable (words : PerRole (Option String)) (role : WordRole) :
    (wordsTable words).lookup role.key = (words.get role).map Value.string := by
  have hroles : ∀ roles : List WordRole, (roles.flatMap fun role =>
      (words.get role).elim [] fun text => [(role.key, Value.string text)]).lookup role.key =
        if role ∈ roles then (words.get role).map Value.string else none := by
    intro roles
    induction roles with
    | nil => rfl
    | cons r roles ih =>
      rw [List.flatMap_cons, List.lookup_append, ih]
      by_cases hr : role = r
      · subst hr
        cases words.get role <;> simp
      · have hkey : (role.key == r.key) = false := beq_eq_false_iff_ne.2 fun h => hr (key_inj h)
        cases words.get r <;> simp [hr, List.lookup_cons, hkey]
  have hall : role ∈ WordRole.all := by cases role <;> decide
  rw [wordsTable, hroles, if_pos hall]

theorem wordsOfTable_wordsTable (words : PerRole (Option String)) :
    wordsOfTable (wordsTable words) = .ok words := by
  have hread : ∀ role : WordRole, field (wordsTable words) role.key
      (fun v => (decodeString role.key v).map some) none = .ok (words.get role) := by
    intro role
    have hlookup := lookup_wordsTable words role
    cases hget : words.get role with
    | none =>
      rw [hget] at hlookup
      exact field_none hlookup _ _
    | some text =>
      rw [hget] at hlookup
      exact field_some hlookup _ _
  simp only [wordsOfTable, hread]
  rfl

theorem mapM_ok {α : Type} {f : α → Value} {decode : Value → Except ConfigurationError α}
    (h : ∀ a, decode (f a) = .ok a) (l : List α) : (l.map f).mapM decode = .ok l := by
  induction l with
  | nil => rfl
  | cons a l ih =>
    rw [List.map_cons, List.mapM_cons, h, ih]
    rfl

theorem decodeArray_strings (key : String) (texts : List String) :
    decodeArray key (decodeString key) (.array (texts.map .string)) = .ok texts :=
  mapM_ok (f := Value.string) (fun _ => rfl) texts

theorem profileOfTable_profileTable (p : Profile) : profileOfTable (profileTable p) = .ok p := by
  have hname : (profileTable p).lookup "name" = some (.string p.name) := rfl
  have hdirs : (profileTable p).lookup "import_dirs" =
      some (.array (p.importDirs.map .string)) := rfl
  simp only [profileOfTable, hname, field_some hdirs, decodeArray_strings]
  rfl

theorem decodeIndicator_toNat (key : String) (id : UInt32) :
    decodeIndicator key (.integer id.toNat) = .ok id := by
  have hlt : id.toNat < UInt32.size := id.toNat_lt
  simp [decodeIndicator, hlt]

/-- The settings of the table are those of which it is the table. -/
theorem ofTable_table (s : Settings) : ofTable s.table = .ok s := by
  have hfold : s.table.lookup "fold_middle" = some (.boolean s.foldMiddle) := rfl
  have hcache : s.table.lookup "class_cache" = some (.boolean s.classCache) := rfl
  have hmatching : s.table.lookup "keyword_matching" = some (.boolean s.keywordMatching) := rfl
  have hmatched : s.table.lookup "matched_indicator" =
      some (.integer s.matchedIndicator.toNat) := rfl
  have hunmatched : s.table.lookup "unmatched_indicator" =
      some (.integer s.unmatchedIndicator.toNat) := rfl
  have hactive : field s.table "active_profile"
      (fun v => (decodeString "active_profile" v).map some) none = .ok s.activeProfile := by
    cases hname : s.activeProfile with
    | none =>
      refine field_none ?_ _ _
      unfold table plainTable arrayOf
      rw [hname]
      cases s.profiles <;> rfl
    | some name =>
      refine field_some (v := .string name) ?_ _ _
      unfold table plainTable
      rw [hname]
      rfl
  have hwords : s.table.lookup "words" = some (.table (wordsTable s.words)) := by
    unfold table plainTable
    cases s.activeProfile <;> cases s.profiles <;> rfl
  have hprofiles : field s.table "profiles" (decodeArray "profiles" decodeProfile) [] =
      .ok s.profiles := by
    have hlookup : s.table.lookup "profiles" =
        some (.array ((s.profiles.map profileTable).map .table)) := by
      unfold table plainTable arrayOf
      cases s.activeProfile <;> cases s.profiles <;> rfl
    rw [field_some hlookup, List.map_map]
    exact mapM_ok (f := Value.table ∘ profileTable) profileOfTable_profileTable s.profiles
  have hdecode : decodeWords (.table (wordsTable s.words)) = .ok s.words :=
    wordsOfTable_wordsTable s.words
  simp only [ofTable, field_some hfold, field_some hcache, field_some hmatching,
    field_some hmatched, field_some hunmatched, decodeIndicator_toNat, hactive, field_some hwords,
    hdecode, hprofiles]
  rfl

/-! ## Saving and loading -/

/-- What is written of settings is read as these settings. -/
theorem ofText_toText (s : Settings) : ofText s.toText = .ok s := by
  rw [ofText, s.read?_toText]
  exact s.ofTable_table

theorem load_of_read {files : FileTree} {path : Path} {text : Text}
    (h : files.read path = .ok (String.ofList text)) :
    load files path = (ofText text).mapError Error.configuration := by
  have htext : (String.ofList text).toList = text := String.toList_ofList
  rw [load, h]
  exact congrArg (fun t => (ofText t).mapError Error.configuration) htext

theorem write_of_save {s : Settings} {files files' : FileTree} {path : Path}
    (h : s.save files path = .ok files') :
    files.write path (String.ofList s.toText) = .ok files' := by
  unfold save at h
  cases hwrite : files.write path (String.ofList s.toText) with
  | error e => rw [hwrite] at h; cases h
  | ok tree =>
    rw [hwrite] at h
    obtain rfl := Except.ok.inj h
    rfl

/-- Settings with marks, backslashes, line breaks and control characters in their texts. -/
def awkward : Settings where
  unmatchedIndicator := 4294967295
  activeProfile := some "\"\"\"'''\\\n"
  words := (PerRole.ofFn fun _ => none).set .foldOpen "a\r\n'b\t"
  profiles := [⟨"", []⟩, ⟨"\x00\x7f", ["/a\\b", "é"]⟩]

end Papyrus.Settings

import Papyrus.Proofs.ScriptSearch
/-!
# Scripts under their own names

A script stands in a file, and its identifier is spelled like the way to that file: the names of the
directories and of the file, without the extension, between colons. The identifier is put in lower
case as a whole and gets the extension afterwards, while the name of a file is put in lower case
together with its extension. Both lead to the same names but for one letter. A capital sigma is
mapped to one of two small letters, depending on whether it ends a word, and neither a colon nor a
dot ends a word for it: what comes behind them counts.

Results:
* `spellsScript_scriptNames_iff`: when the identifier of a script leads to the names of its file.
* `sigmasAgree_of_noSigma`: it does whenever there is no capital sigma.
* `foldl_join_inj`: names can be read off a path.
* `findScript_ownName`: a script is found under its own name exactly if each capital sigma is final
  both in the identifier and in its own name, or in neither.
-/
namespace Papyrus

/-! ## Names and identifiers -/

/-- The names of the directories and of the file of a script, which has the extension. -/
def scriptNames : List String → List String
  | [] => []
  | [stem] => [stem ++ ".psc"]
  | stem :: stems => stem :: scriptNames stems

theorem scriptNames_cons {stems : List String} (h : stems ≠ []) (stem : String) :
    scriptNames (stem :: stems) = stem :: scriptNames stems := by
  cases stems with
  | nil => contradiction
  | cons => rfl

theorem scriptNames_append_singleton (init : List String) (last : String) :
    scriptNames (init ++ [last]) = init ++ [last ++ ".psc"] := by
  induction init with
  | nil => rfl
  | cons stem init ih =>
    rw [List.cons_append, List.cons_append, scriptNames_cons (List.append_ne_nil_of_right_ne_nil _
      (List.cons_ne_nil _ _)), ih]

theorem mem_scriptNames {name : String} {stems : List String} (h : name ∈ scriptNames stems) :
    ∃ stem ∈ stems, name = stem ∨ name = stem ++ ".psc" := by
  rcases List.eq_nil_or_concat stems with rfl | ⟨init, last, rfl⟩
  · exact absurd h List.not_mem_nil
  · rw [List.concat_eq_append, scriptNames_append_singleton, List.mem_append,
      List.mem_singleton] at h
    rw [List.concat_eq_append]
    rcases h with h | h
    · exact ⟨name, List.mem_append_left _ h, .inl rfl⟩
    · exact ⟨last, List.mem_append_right _ List.mem_cons_self, .inr h⟩

theorem scriptPath?_of_segments {identifier : String} (h : segments identifier ≠ []) :
    scriptPath? identifier = some (scriptNames (segments identifier)) := by
  have hsegments := (List.dropLast_append_getLast h).symm
  refine scriptPath?_eq_some_iff.2 ⟨_, _, hsegments, ?_⟩
  conv_lhs => rw [hsegments]
  exact scriptNames_append_singleton _ _

/-- Whether a text can be the name of a directory, or of a script without the extension, in an
identifier: it is made of letters, digits and underscores. -/
structure IsStem (stem : String) : Prop where
  ne_empty : stem ≠ ""
  chars : ∀ c ∈ stem.toList, Token.isIdentifierRest c = true ∧ c ≠ ':'

namespace IsStem
variable {stem : String}

theorem noDot (h : IsStem stem) : '.' ∉ stem.toList := fun hdot => absurd (h.chars _ hdot).1 (by decide)

theorem noSlash (h : IsStem stem) : '/' ∉ stem.toList := fun hslash =>
  absurd (h.chars _ hslash).1 (by decide)

theorem noColon (h : IsStem stem) : ':' ∉ stem.toList := fun hcolon => (h.chars _ hcolon).2 rfl

theorem iff_all : IsStem stem ↔ stem ≠ "" ∧
    (stem.toList.all fun c => Token.isIdentifierRest c && c != ':') = true := by
  simp only [List.all_eq_true, Bool.and_eq_true, bne_iff_ne]
  exact ⟨fun h => ⟨h.ne_empty, h.chars⟩, fun h => ⟨h.1, h.2⟩⟩

instance : Decidable (IsStem stem) := decidable_of_iff' _ iff_all

end IsStem

/-- Whether each capital sigma of an identifier is final if it is in the name that it comes from,
and only then. -/
def SigmasAgree (stems : List String) : Prop :=
  Unicode.sigmas (":".intercalate stems).toList =
    (scriptNames stems).flatMap fun name => Unicode.sigmas name.toList

instance (stems : List String) : Decidable (SigmasAgree stems) :=
  inferInstanceAs (Decidable (_ = _))

open Unicode in
theorem length_sigmas_script (stem : String) :
    (sigmas (stem ++ ".psc").toList).length = stem.toList.count '\u03A3' := by
  rw [length_sigmas, String.toList_append, List.count_append,
    show ".psc".toList.count '\u03A3' = 0 by decide, Nat.add_zero]

open Unicode in
/-- The lower case of the name of a script, and its extension. -/
theorem foldName_script (stem : String) :
    foldName (stem ++ ".psc") =
      String.ofList (lowerWith (sigmas (stem ++ ".psc").toList) stem.toList) ++ ".psc" := by
  have happend := lowerWith_append (length_sigmas_script stem) [] ".psc".toList
  rw [List.append_nil, ← String.toList_append] at happend
  rw [foldName, lowerCase_eq_lowerWith, happend, String.ofList_append]
  rfl

theorem ofList_script_inj {s t : Text} :
    String.ofList s ++ ".psc" = String.ofList t ++ ".psc" ↔ s = t := by
  rw [← String.toList_inj, String.toList_append, String.toList_append, List.append_left_inj,
    String.toList_ofList, String.toList_ofList]

section
variable {stems : List String}

theorem toList_intercalate_singleton (stem : String) :
    (":".intercalate [stem]).toList = stem.toList := by
  rw [String.toList_intercalate, List.map_singleton, List.intercalate_singleton]

theorem toList_intercalate_cons (hne : stems ≠ []) (stem : String) :
    (":".intercalate (stem :: stems)).toList =
      stem.toList ++ ':' :: (":".intercalate stems).toList := by
  have hmap : stems.map String.toList ≠ [] := mt List.map_eq_nil_iff.1 hne
  rw [String.toList_intercalate, String.toList_intercalate, List.map_cons,
    List.intercalate_cons_of_ne_nil hmap, List.append_assoc]
  rfl

theorem not_mem_intercalate {c : Char} (hcolon : c ≠ ':')
    (h : ∀ stem ∈ stems, c ∉ stem.toList) : c ∉ (":".intercalate stems).toList := by
  induction stems with
  | nil => exact List.not_mem_nil
  | cons stem stems ih =>
    obtain ⟨hstem, hrest⟩ := List.forall_mem_cons.1 h
    by_cases hlast : stems = []
    · rwa [hlast, toList_intercalate_singleton]
    · rw [toList_intercalate_cons hlast, List.mem_append, List.mem_cons, not_or, not_or]
      exact ⟨hstem, hcolon, ih hrest⟩

open Unicode in
theorem segments_lowerWith_stem {stem : String} (h : IsStem stem) (finals : List Bool) :
    segments (String.ofList (lowerWith finals stem.toList)) =
      [String.ofList (lowerWith finals stem.toList)] := by
  refine segments_of_noColon (lowerWith_ne_nil (mt String.toList_eq_nil_iff.1 h.ne_empty) _) ?_
  rw [mem_lowerWith_iff finals (by decide) (by decide) (by decide)]
  exact h.noColon

open Unicode in
/-- What the lower case of an identifier leads to, whichever of its capital sigmas are final, and
when it has the names of the script. -/
theorem segments_lowerWith (hne : stems ≠ []) (hstems : ∀ stem ∈ stems, IsStem stem)
    {finals : List Bool} (hfinals : finals.length = (":".intercalate stems).toList.count '\u03A3') :
    let lower := segments (String.ofList (lowerWith finals (":".intercalate stems).toList))
    lower ≠ [] ∧ (scriptNames lower = (scriptNames stems).map foldName ↔
      finals = (scriptNames stems).flatMap fun name => sigmas name.toList) := by
  induction stems generalizing finals with
  | nil => contradiction
  | cons stem stems ih =>
    obtain ⟨hstem, hrest⟩ := List.forall_mem_cons.1 hstems
    by_cases hlast : stems = []
    · subst hlast
      rw [toList_intercalate_singleton] at hfinals ⊢
      rw [segments_lowerWith_stem hstem]
      refine ⟨List.cons_ne_nil _ _, ?_⟩
      rw [scriptNames, scriptNames, List.map_singleton, foldName_script, List.flatMap_singleton,
        List.cons.injEq, and_iff_left rfl, ofList_script_inj]
      exact lowerWith_inj hfinals (length_sigmas_script stem)
    · rw [toList_intercalate_cons hlast] at hfinals ⊢
      obtain ⟨first, finals, rfl, hfirst, hfinals⟩ := exists_append_of_length_eq hfinals
      rw [List.count_cons_of_ne (by decide)] at hfinals
      have hlower : lowerWith finals (':' :: (":".intercalate stems).toList) =
          ':' :: lowerWith finals (":".intercalate stems).toList := rfl
      obtain ⟨hsegments, hnames⟩ := ih hlast hrest hfinals
      rw [lowerWith_append hfirst, hlower, segments_append_colon, segments_lowerWith_stem hstem,
        List.singleton_append]
      refine ⟨List.cons_ne_nil _ _, ?_⟩
      rw [scriptNames_cons hsegments, scriptNames_cons hlast, List.map_cons, List.cons.injEq,
        hnames, List.flatMap_cons, foldName, lowerCase_eq_lowerWith, String.ofList_inj,
        lowerWith_inj hfirst (length_sigmas _)]
      refine ⟨fun h => by rw [h.1, h.2], fun h => ?_⟩
      exact List.append_inj h (hfirst.trans (length_sigmas _).symm)

/-- The identifier of a script leads to its file just if the capital sigmas agree. -/
theorem spellsScript_scriptNames_iff (hne : stems ≠ []) (hstems : ∀ stem ∈ stems, IsStem stem) :
    SpellsScript (":".intercalate stems) (scriptNames stems) ↔ SigmasAgree stems := by
  obtain ⟨hsegments, hnames⟩ :=
    segments_lowerWith hne hstems (Unicode.length_sigmas (":".intercalate stems).toList)
  rw [← Unicode.lowerCase_eq_lowerWith, ← foldName] at hsegments hnames
  rw [spellsScript_iff, scriptPath?_of_segments hsegments, Option.some.injEq, hnames, SigmasAgree]

end

/-! ## Names in a path -/

namespace Path

variable {dir : Path} {names names' : List String}

theorem isName_of_foldName {name : String} (h : IsName (foldName name)) : IsName name := by
  refine ⟨?_, ?_, ?_, fun hslash => h.noSlash ?_⟩
  · rintro rfl
    exact h.ne_empty rfl
  · rintro rfl
    exact h.ne_here (by decide)
  · rintro rfl
    exact h.ne_above (by decide)
  · rw [foldName, String.toList_ofList]
    exact (Unicode.mem_lowerCase_iff (by decide) (by decide) (by decide)).2 hslash

/-- The names that have been joined to a directory end the path. -/
theorem components_foldl_join {init : List String} (hdir : dir ≠ "")
    (hinit : ∀ name, IsName name → components (dir.join name) = init ++ [name])
    (hne : names ≠ []) (hnames : ∀ name ∈ names, IsName name) :
    components (names.foldl join dir) = init ++ names := by
  induction names generalizing dir init with
  | nil => contradiction
  | cons name names ih =>
    obtain ⟨hname, hrest⟩ := List.forall_mem_cons.1 hnames
    by_cases hlast : names = []
    · rw [hlast]
      exact hinit name hname
    · have hdir' := join_ne_empty hdir hname
      obtain ⟨init', hcases, hinit'⟩ := components_join hdir'
      rw [hinit name hname] at hcases
      rw [List.foldl_cons, ih hdir' hinit' hlast hrest]
      rcases hcases with heq | heq
      · rw [← heq, List.append_assoc, List.singleton_append]
      · exact absurd (List.cons.inj (List.append_inj' heq rfl).2).1 hname.ne_empty

/-- Names that lead from a directory to the same path are the same. -/
theorem foldl_join_inj (hdir : dir ≠ "") (hne : names ≠ []) (hne' : names' ≠ [])
    (hnames : ∀ name ∈ names, IsName name) (hnames' : ∀ name ∈ names', IsName name)
    (h : names.foldl join dir = names'.foldl join dir) : names = names' := by
  obtain ⟨init, -, hinit⟩ := components_join hdir
  have hcomponents := congrArg components h
  rw [components_foldl_join hdir hinit hne hnames, components_foldl_join hdir hinit hne' hnames']
    at hcomponents
  exact List.append_cancel_left hcomponents

end Path

/-! ## Finding a script under its own name -/

section
variable {stems : List String}

theorem scriptNames_ne_nil (hne : stems ≠ []) : scriptNames stems ≠ [] := by
  cases stems with
  | nil => contradiction
  | cons stem stems => cases stems <;> exact List.cons_ne_nil _ _

theorem isName_scriptNames (hstems : ∀ stem ∈ stems, IsStem stem) :
    ∀ name ∈ scriptNames stems, Path.IsName name := by
  intro name hname
  obtain ⟨stem, hmem, rfl | rfl⟩ := mem_scriptNames hname
  · have hstem := hstems name hmem
    exact Path.isName_of_noDot hstem.ne_empty hstem.noDot hstem.noSlash
  · exact Path.isName_script (hstems stem hmem).noSlash

/-- The names that lead to the script of an identifier are names of entries. -/
theorem SpellsScript.isName {identifier : String} {names : List String}
    (h : SpellsScript identifier names) (hdot : '.' ∉ identifier.toList)
    (hslash : '/' ∉ identifier.toList) : names ≠ [] ∧ ∀ name ∈ names, Path.IsName name := by
  constructor
  · rintro rfl
    obtain ⟨init, last, -, hnames⟩ := h
    exact List.append_ne_nil_of_right_ne_nil init (List.cons_ne_nil _ _) hnames.symm
  · intro name hname
    have hparts := scriptPath?_foldName hdot hslash (spellsScript_iff.1 h)
    exact Path.isName_of_foldName (hparts _ (List.mem_map_of_mem hname)).1

/-- Where there are no capital sigmas, there is nothing to agree on. -/
theorem sigmasAgree_of_noSigma (h : ∀ stem ∈ stems, '\u03A3' ∉ stem.toList) :
    SigmasAgree stems := by
  have hnames : ∀ name ∈ scriptNames stems, Unicode.sigmas name.toList = [] := by
    intro name hname
    obtain ⟨stem, hmem, rfl | rfl⟩ := mem_scriptNames hname
    · exact Unicode.sigmas_eq_nil (h name hmem)
    · refine Unicode.sigmas_eq_nil ?_
      rw [String.toList_append, List.mem_append, not_or]
      exact ⟨h stem hmem, by decide⟩
  rw [SigmasAgree, Unicode.sigmas_eq_nil (not_mem_intercalate (by decide) h),
    List.flatMap_eq_nil_iff.2 hnames]

variable {tree : FileTree} {dir : Path} (hne : stems ≠ []) (hstems : ∀ stem ∈ stems, IsStem stem)
  (hfile : tree.holds dir (scriptNames stems) = true)
include hne hstems hfile

omit hstems in
theorem ne_empty_of_holds : dir ≠ "" := by
  rintro rfl
  rw [FileTree.holds_empty (scriptNames_ne_nil hne)] at hfile
  cases hfile

/-- The file of a script is that of its identifier just if the capital sigmas agree. -/
theorem isScriptOf_ownName_iff :
    tree.IsScriptOf dir (":".intercalate stems) (scriptNames stems) ↔ SigmasAgree stems := by
  rw [FileTree.IsScriptOf, if_neg (ne_empty_of_holds hne hfile),
    spellsScript_scriptNames_iff hne hstems, and_iff_left hfile]

variable (hfolds : tree.root.FoldsApart)
include hfolds

/-- An identifier in the same lower case finds the script if the capital sigmas agree. Where nothing
else is looked through, it finds the very file of the script, and only then. -/
theorem ClassResolver.resolve_ownName (r : ClassResolver) {identifier : String}
    (hidentifier : foldName identifier = foldName (":".intercalate stems)) :
    (SigmasAgree stems → ∀ profile : Profile, dir ∈ profile.importDirs →
      (r.resolve tree identifier profile).1.isSome = true) ∧
    ∀ profile : Profile, profile.importDirs = [dir] →
      ((r.resolve tree identifier profile).1 = some ((scriptNames stems).foldl Path.join dir) ↔
        SigmasAgree stems) := by
  have hdir := ne_empty_of_holds hne hfile
  have hdot := not_mem_intercalate (by decide) fun stem hstem => (hstems stem hstem).noDot
  have hslash := not_mem_intercalate (by decide) fun stem hstem => (hstems stem hstem).noSlash
  have hown := isScriptOf_ownName_iff hne hstems hfile
  constructor
  · intro hagree profile hmem
    rw [fst_resolve, hidentifier]
    exact (Profile.isSome_findScript_iff hfolds hdot hslash profile).2
      ⟨dir, hmem, _, hown.2 hagree⟩
  · intro profile hdirs
    rw [fst_resolve, hidentifier, Profile.findScript_eq_findSome?, hdirs, List.findSome?_singleton,
      FileTree.findScript_iff_isScriptOf hfolds hdot hslash, ← hown]
    constructor
    · rintro ⟨names, hscript, hpath⟩
      obtain ⟨hnames, hname⟩ := hscript.1.isName hdot hslash
      rwa [Path.foldl_join_inj hdir (scriptNames_ne_nil hne) hnames (isName_scriptNames hstems)
        hname hpath]
    · exact fun hscript => ⟨_, hscript, rfl⟩

end

namespace ClassResolver

/-- A capital sigma at the start of a name is not final, and the other letters do not matter. -/
theorem resolve_ownName_sophia :
    let tree : FileTree := ⟨.directory [("lib", .directory [("ΣΟΦΙΑ", .directory
      [("Stage.psc", .file .empty)])])], []⟩
    let resolve (identifier : String) (dirs : List Path) :=
      (ClassResolver.resolve ⟨false, []⟩ tree identifier ⟨"p", dirs⟩).1
    (tree.root.FoldsApart ∧ (∀ stem ∈ ["ΣΟΦΙΑ", "Stage"], IsStem stem) ∧
      tree.holds "lib" (scriptNames ["ΣΟΦΙΑ", "Stage"]) = true ∧
      foldName "σοφια:STAGE" = foldName (":".intercalate ["ΣΟΦΙΑ", "Stage"]) ∧
      SigmasAgree ["ΣΟΦΙΑ", "Stage"]) ∧
    (resolve "σοφια:STAGE" ["none", "lib"]).isSome = true ∧
      resolve "σοφια:STAGE" ["lib"] = some "lib/ΣΟΦΙΑ/Stage.psc" := by
  intro tree resolve
  have hfolds : tree.root.FoldsApart := by
    refine FileNode.foldsApart_directory (by decide) (List.forall_mem_singleton.2 ?_)
    refine FileNode.foldsApart_directory (by decide +kernel) (List.forall_mem_singleton.2 ?_)
    refine FileNode.foldsApart_directory (by decide) (List.forall_mem_singleton.2 ?_)
    exact FileNode.foldsApart_file _
  have hstems : ∀ stem ∈ ["ΣΟΦΙΑ", "Stage"], IsStem stem := by decide +kernel
  obtain ⟨hfile, hidentifier, hagree⟩ : tree.holds "lib" (scriptNames ["ΣΟΦΙΑ", "Stage"]) = true ∧
      foldName "σοφια:STAGE" = foldName (":".intercalate ["ΣΟΦΙΑ", "Stage"]) ∧
      SigmasAgree ["ΣΟΦΙΑ", "Stage"] := by decide +kernel
  obtain ⟨hfound, hexact⟩ := resolve_ownName (List.cons_ne_nil _ _) hstems hfile hfolds ⟨false, []⟩
    hidentifier
  exact ⟨⟨hfolds, hstems, hfile, hidentifier, hagree⟩,
    hfound hagree ⟨"p", ["none", "lib"]⟩ (by decide), (hexact ⟨"p", ["lib"]⟩ rfl).2 hagree⟩

/-- A capital sigma at the end of a name, or of the name of a directory, hides the script. -/
theorem not_resolve_ownName_sigma :
    let tree : FileTree := ⟨.directory [("lib", .directory [("ΟΔΟΣ.psc", .file .empty),
      ("ΑΣ", .directory [("Β.psc", .file .empty)])])], []⟩
    let resolve (identifier : String) :=
      (ClassResolver.resolve ⟨false, []⟩ tree identifier ⟨"p", ["lib"]⟩).1
    tree.root.FoldsApart ∧ (∀ stem ∈ ["ΟΔΟΣ", "ΑΣ", "Β"], IsStem stem) ∧
      (tree.holds "lib" ["ΟΔΟΣ.psc"] = true ∧ resolve "ΟΔΟΣ" = none) ∧
      (tree.holds "lib" ["ΑΣ", "Β.psc"] = true ∧ resolve "ΑΣ:Β" = none) := by
  intro tree resolve
  refine ⟨?_, by decide +kernel⟩
  refine FileNode.foldsApart_directory (by decide) (List.forall_mem_singleton.2 ?_)
  refine FileNode.foldsApart_directory (by decide +kernel) ?_
  rw [List.forall_mem_cons, List.forall_mem_singleton]
  refine ⟨FileNode.foldsApart_file _, FileNode.foldsApart_directory (by decide +kernel) ?_⟩
  exact List.forall_mem_singleton.2 (FileNode.foldsApart_file _)

end ClassResolver

end Papyrus

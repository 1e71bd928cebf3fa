import Papyrus.Proofs.WrittenValue
/-!
# Documents are read as they were written

A document is written statement by statement. What each piece of the text adds to the statements
that are read (`Prints`) does not depend on what stands before or behind it, so that the pieces can
be put together. The statements then build the table up, in the order in which they come: pairs go
to the table that is open (`IsPlace`), and a header opens another one.

Results:
* `prints_pair`, `prints_openTable`, `prints_openItem`: a line is read as the statement for which it
  was written.
* `foldlM_add_pairs`: pairs with different keys are added to the open table.
* `read?_of_prints`: the table of a document with pairs, one table and an array of tables.
-/
namespace Papyrus.Toml

/-! ## Keys -/

/-- Whether a key needs no quotes. -/
def isKey (key : String) : Bool := !key.toList.isEmpty && key.toList.all isBareKey

/-- A character of such a key is no white space and has no other meaning. -/
theorem ne_of_isBareKey {c d : Char} (h : isBareKey c = true) (hd : isBareKey d = false) :
    c ≠ d := by
  rintro rfl
  rw [h] at hd
  cases hd

theorem isBlank_of_isBareKey {c : Char} (h : isBareKey c = true) : isBlank c = false := by
  simp [isBlank, ne_of_isBareKey h (d := ' ') (by decide),
    ne_of_isBareKey h (d := '\t') (by decide)]

theorem exists_cons_of_isKey {key : String} (h : isKey key = true) :
    ∃ c t, key.toList = c :: t ∧ isBareKey c = true ∧ ∀ d ∈ c :: t, isBareKey d = true := by
  simp only [isKey, Bool.and_eq_true, List.all_eq_true] at h
  cases hkey : key.toList with
  | nil => simp [hkey] at h
  | cons c t =>
    rw [hkey] at h
    exact ⟨c, t, rfl, h.2 c List.mem_cons_self, h.2⟩

theorem readSimpleKey_append {key : String} (hkey : isKey key = true) {rest : Text}
    (hrest : ∀ c ∈ rest.head?, isBareKey c = false) :
    readSimpleKey (key.toList ++ rest) = some (key, rest) := by
  obtain ⟨c, t, hcons, hc, hbare⟩ := exists_cons_of_isKey hkey
  have hstop : rest.takeWhile isBareKey = [] ∧ rest.dropWhile isBareKey = rest := by
    cases rest with
    | nil => exact ⟨rfl, rfl⟩
    | cons d rest => simp [hrest d rfl]
  have htake : ((c :: t) ++ rest).takeWhile isBareKey = c :: t := by
    rw [List.takeWhile_append_of_pos hbare, hstop.1, List.append_nil]
  have hdrop : ((c :: t) ++ rest).dropWhile isBareKey = rest := by
    rw [List.dropWhile_append_of_pos hbare, hstop.2]
  have hstring : String.ofList (c :: t) = key := by rw [← hcons, String.ofList_toList]
  rw [hcons, readSimpleKey]
  · simp only [htake, hdrop, hstring]
    rfl
  · exact fun u h => ne_of_isBareKey hc (d := '"') (by decide) (List.cons.inj h).1
  · exact fun u h => ne_of_isBareKey hc (d := '\'') (by decide) (List.cons.inj h).1

/-- A key is read up to what cannot be a part of it, and the blanks behind it too. -/
theorem readKey_append {key : String} (hkey : isKey key = true) (rest : Text)
    (hrest : ∀ c ∈ rest.head?, isBareKey c = false)
    (hdot : (rest.dropWhile isBlank).head? ≠ some '.') :
    readKey (key.toList ++ rest) = some ([key], rest.dropWhile isBlank) := by
  have hsimple := readSimpleKey_append hkey hrest
  obtain ⟨c, t, hcons, hc, -⟩ := exists_cons_of_isKey hkey
  have hparts : readKeyParts (key.toList ++ rest) = some ([key], rest.dropWhile isBlank) := by
    have hblank : (key.toList ++ rest).dropWhile isBlank = key.toList ++ rest := by
      simp [hcons, isBlank_of_isBareKey hc]
    rw [readKeyParts, hblank, hsimple]
    simp only [Option.bind_eq_bind, Option.bind_some]
    split
    · next heq => rw [heq] at hdot; exact absurd rfl hdot
    · rfl
  simp [readKey, hparts, nestingLimit]

/-! ## Statements -/

theorem endLine?_lineFeed (rest : Text) : endLine? ('\n' :: rest) = some rest := by
  simp [endLine?, isBlank]

theorem readPair_append {key : String} (hkey : isKey key = true) {text : Text} {v : Value}
    (h : Reads text v) (rest : Text) :
    readPair (readValue (nestingLimit - 1))
      (key.toList ++ ' ' :: '=' :: ' ' :: (text ++ '\n' :: rest)) =
      some (([key], v), '\n' :: rest) := by
  have hkeyread := readKey_append hkey (' ' :: '=' :: ' ' :: (text ++ '\n' :: rest))
    (fun c hc => by cases hc; decide) (by simp [isBlank])
  have hblank : (' ' :: '=' :: ' ' :: (text ++ '\n' :: rest)).dropWhile isBlank =
      '=' :: ' ' :: (text ++ '\n' :: rest) := by simp [isBlank]
  have hvalue : (' ' :: (text ++ '\n' :: rest)).dropWhile isBlank = text ++ '\n' :: rest := by
    cases text with
    | nil => simp [isBlank]
    | cons c text => simp [h.head c rfl, show isBlank ' ' = true by decide]
  rw [hblank] at hkeyread
  simp [readPair, hkeyread, hvalue, h.read]

theorem readStatement_pair {key : String} (hkey : isKey key = true) {text : Text} {v : Value}
    (h : Reads text v) (rest : Text) :
    readStatement (printPair key text ++ rest) = some (.pair [key] v, rest) := by
  have hpair := readPair_append hkey h rest
  have hform : printPair key text ++ rest =
      key.toList ++ ' ' :: '=' :: ' ' :: (text ++ '\n' :: rest) := by
    simp [printPair]
  obtain ⟨c, t, hcons, hc, -⟩ := exists_cons_of_isKey hkey
  have hne := ne_of_isBareKey hc (d := '[') (by decide)
  rw [hcons] at hpair hform
  rw [hform]
  rw [List.cons_append] at hpair ⊢
  rw [readStatement]
  · simp [hpair, endLine?_lineFeed]
  · exact fun u h => hne (List.cons.inj h).1
  · exact fun u h => hne (List.cons.inj h).1

theorem readStatement_openTable {key : String} (hkey : isKey key = true) (rest : Text) :
    readStatement ('[' :: key.toList ++ "]\n".toList ++ rest) = some (.openTable [key], rest) := by
  have hkeyread := readKey_append hkey (']' :: '\n' :: rest)
    (fun c hc => by cases hc; decide) (by simp [isBlank])
  have hblank : (']' :: '\n' :: rest).dropWhile isBlank = ']' :: '\n' :: rest := by simp [isBlank]
  obtain ⟨c, t, hcons, hc, -⟩ := exists_cons_of_isKey hkey
  have hne := ne_of_isBareKey hc (d := '[') (by decide)
  rw [hblank, hcons] at hkeyread
  have hform :
      '[' :: key.toList ++ "]\n".toList ++ rest = '[' :: (c :: t ++ ']' :: '\n' :: rest) := by
    simp [hcons]
  rw [hform, readStatement]
  · simp only [hkeyread, Option.bind_eq_bind, Option.bind_some, endLine?_lineFeed]
  · exact fun u h => hne (List.cons.inj h).1

theorem readStatement_openItem {key : String} (hkey : isKey key = true) (rest : Text) :
    readStatement ("[[".toList ++ key.toList ++ "]]\n".toList ++ rest) =
      some (.openItem [key], rest) := by
  have hkeyread := readKey_append hkey (']' :: ']' :: '\n' :: rest)
    (fun c hc => by cases hc; decide) (by simp [isBlank])
  have hblank : (']' :: ']' :: '\n' :: rest).dropWhile isBlank = ']' :: ']' :: '\n' :: rest := by
    simp [isBlank]
  rw [hblank] at hkeyread
  simp [readStatement, hkeyread, endLine?_lineFeed]

/-! ## Pieces of a document -/

/-- Whether a piece of a document adds the given statements to those that follow. -/
def Prints (text : Text) (statements : List Statement) : Prop :=
  ∀ rest, readStatements (text ++ rest) = (readStatements rest).map (statements ++ ·)

theorem prints_nil : Prints [] [] := fun rest => by simp

theorem Prints.append {text text' : Text} {statements statements' : List Statement}
    (h : Prints text statements) (h' : Prints text' statements') :
    Prints (text ++ text') (statements ++ statements') := by
  intro rest
  rw [List.append_assoc, h, h', Option.map_map]
  simp [Function.comp_def]

theorem Prints.flatMap {α : Type} {text : α → Text} {statements : α → List Statement} {l : List α}
    (h : ∀ a ∈ l, Prints (text a) (statements a)) :
    Prints (l.flatMap text) (l.flatMap statements) := by
  induction l with
  | nil => exact prints_nil
  | cons a l ih =>
    exact (h a List.mem_cons_self).append (ih fun b hb => h b (List.mem_cons_of_mem a hb))

/-- A line with a statement, behind lines that are skipped. -/
theorem prints_of_readStatement {text : Text} (form : Text) {statement : Statement}
    (hne : form ≠ []) (hskip : ∀ rest, skipLines false (text ++ rest) = form ++ rest)
    (hread : ∀ rest, readStatement (form ++ rest) = some (statement, rest)) :
    Prints text [statement] := by
  intro rest
  obtain ⟨c, u, rfl⟩ := List.exists_cons_of_ne_nil hne
  have hlen : rest.length < (text ++ rest).length := by
    cases text with
    | nil => exact absurd (hskip []) (by simp [skipLines])
    | cons d text =>
      rw [List.cons_append, List.length_cons, List.length_append]
      omega
  rw [readStatements, hskip]
  simp only [List.cons_append] at hread ⊢
  simp only [hread, Option.bind_eq_bind, Option.bind_some, if_pos hlen]
  cases readStatements rest <;> rfl

theorem skipLines_comment {t : Text} (h : ∀ c ∈ t, isPlain c = true) (rest : Text) :
    skipLines true (t ++ '\n' :: rest) = skipLines false rest := by
  induction t with
  | nil => simp [skipLines]
  | cons c t ih =>
    have hc := h c List.mem_cons_self
    simp [skipLines, hc, ne_lineBreak_of_isPlain hc, ih fun d hd => h d (List.mem_cons_of_mem c hd)]

/-- A statement starts where white space ends. -/
theorem skipLines_of_isKey {key : String} (hkey : isKey key = true) (rest : Text) :
    skipLines false (key.toList ++ rest) = key.toList ++ rest := by
  obtain ⟨c, t, hcons, hc, -⟩ := exists_cons_of_isKey hkey
  have hne : c ≠ '\n' ∧ c ≠ '\r' ∧ c ≠ '#' := ⟨ne_of_isBareKey hc (by decide),
    ne_of_isBareKey hc (by decide), ne_of_isBareKey hc (by decide)⟩
  simp [hcons, skipLines, hne, isBlank_of_isBareKey hc]

theorem printPair_ne_nil (key : String) (value : Text) : printPair key value ≠ [] := by
  simp [printPair]

theorem prints_pair (key : String) (hkey : isKey key = true) {text : Text} {v : Value}
    (h : Reads text v) : Prints (printPair key text) [.pair [key] v] := by
  refine prints_of_readStatement _ (printPair_ne_nil key text) (fun rest => ?_)
    (readStatement_pair hkey h)
  simpa [printPair] using skipLines_of_isKey hkey (" = ".toList ++ text ++ ['\n'] ++ rest)

/-- A pair behind a comment on a line of its own. -/
theorem prints_comment_pair (comment : Text) (hcomment : ∀ c ∈ comment, isPlain c = true)
    (key : String) (hkey : isKey key = true) {text : Text} {v : Value} (h : Reads text v) :
    Prints ('#' :: comment ++ '\n' :: printPair key text) [.pair [key] v] := by
  refine prints_of_readStatement _ (printPair_ne_nil key text) (fun rest => ?_)
    (readStatement_pair hkey h)
  have hskip := skipLines_of_isKey hkey (" = ".toList ++ text ++ ['\n'] ++ rest)
  have hstart : ∀ t, skipLines false ('#' :: t) = skipLines true t := fun t => by
    simp [skipLines, isBlank]
  simpa [printPair, hstart, skipLines_comment hcomment] using hskip

/-- A header behind an empty line. -/
theorem prints_openTable (key : String) (hkey : isKey key = true) :
    Prints ('\n' :: '[' :: key.toList ++ "]\n".toList) [.openTable [key]] := by
  refine prints_of_readStatement ('[' :: key.toList ++ "]\n".toList) (by simp)
    (fun rest => ?_) (readStatement_openTable hkey)
  simp [skipLines, isBlank]

/-- A header of an array of tables behind an empty line. -/
theorem prints_openItem (key : String) (hkey : isKey key = true) :
    Prints ('\n' :: ("[[".toList ++ key.toList ++ "]]\n".toList)) [.openItem [key]] := by
  refine prints_of_readStatement _ (by simp) (fun rest => ?_) (readStatement_openItem hkey)
  simp [skipLines, isBlank]

/-! ## Building tables up -/

/-- The statements that give a table its pairs. -/
def pairsOf (table : Table) : List Statement := table.map fun (key, v) => .pair [key] v

/-- The pairs of a table that is being built up. -/
def draftOf (table : Table) : Entries := table.map fun (key, v) => (key, .value v)

/-- Whether `place` puts the entries of the table that a path leads to where they belong. -/
def IsPlace (path : List String) (place : Entries → Entries) : Prop :=
  ∀ item change, (place item).update .header .implied path change =
    (change .header item).map place

/-- A key is missing just if it is not among the keys. -/
theorem lookup_eq_none_iff {α : Type} {entries : List (String × α)} {key : String} :
    entries.lookup key = none ↔ key ∉ entries.map (·.1) := by
  rw [List.lookup_eq_none_iff]
  simp only [bne_iff_ne, List.mem_map, not_exists, not_and]
  exact forall₂_congr fun _ _ => ne_comm

theorem map_fst_draftOf (table : Table) : (draftOf table).map (·.1) = table.map (·.1) := by
  simp [draftOf]

variable {es : Entries} {name : String}

theorem lookup_append_fresh (hname : es.lookup name = none) (d : Draft) :
    (es ++ [(name, d)]).lookup name = some d := by
  simp [List.lookup_append, hname]

theorem replace_append_fresh (hname : es.lookup name = none) (d d' : Draft) :
    Entries.replace (es ++ [(name, d)]) name d' = es ++ [(name, d')] := by
  have hsame : ∀ entry ∈ es, (entry.1, if entry.1 = name then d' else entry.2) = entry := by
    intro entry hentry
    have hne : entry.1 ≠ name := by
      rintro rfl
      exact lookup_eq_none_iff.1 hname (List.mem_map_of_mem hentry)
    rw [if_neg hne]
  have hmap := (List.map_congr_left hsame).trans (List.map_id' es)
  simp [Entries.replace, hmap]

theorem isPlace_top : IsPlace [] id := by
  intro item change
  cases h : change .header item <;> simp [Entries.update, h]

theorem isPlace_table (hname : es.lookup name = none) :
    IsPlace [name] fun item => es ++ [(name, Draft.table .header item)] := by
  intro item change
  simp only [Entries.update, lookup_append_fresh hname]
  cases change .header item <;> simp [replace_append_fresh hname]

theorem isPlace_tables (hname : es.lookup name = none) (items : List Entries) :
    IsPlace [name] fun item => es ++ [(name, Draft.tables (item :: items))] := by
  intro item change
  simp only [Entries.update, lookup_append_fresh hname]
  cases change .header item <;> simp [replace_append_fresh hname]

theorem setPair_fresh {item : Entries} {key : String} (hkey : item.lookup key = none) (v : Value) :
    item.setPair [key] v = some (item ++ [(key, Draft.value v)]) := by
  simp [Entries.setPair, Entries.update, hkey]

theorem add_pair {path : List String} {place : Entries → Entries} (hplace : IsPlace path place)
    {item : Entries} {key : String} (hkey : item.lookup key = none) (v : Value) :
    Statement.add (place item, path) (.pair [key] v) =
      some (place (item ++ [(key, Draft.value v)]), path) := by
  simp [Statement.add, hplace item, setPair_fresh hkey]

/-- Pairs with different keys are added to the table that is open. -/
theorem foldlM_add_pairs {path : List String} {place : Entries → Entries}
    (hplace : IsPlace path place) {table : Table} {item : Entries}
    (hkeys : (item.map (·.1) ++ table.map (·.1)).Nodup) :
    (pairsOf table).foldlM Statement.add (place item, path) =
      some (place (item ++ draftOf table), path) := by
  induction table generalizing item with
  | nil => simp [pairsOf, draftOf]
  | cons entry table ih =>
    obtain ⟨key, v⟩ := entry
    have hkey : item.lookup key = none := by
      rw [lookup_eq_none_iff]
      intro hmem
      exact (List.nodup_append.1 hkeys).2.2 key hmem key List.mem_cons_self rfl
    have ih := @ih (item ++ [(key, Draft.value v)]) (by simpa using hkeys)
    simp only [pairsOf, draftOf] at ih ⊢
    simp [add_pair hplace hkey, ih]

/-- Pairs with different keys are added to a table that has just been opened. -/
theorem foldlM_pairsOf {path : List String} {place : Entries → Entries}
    (hplace : IsPlace path place) {table : Table} (hkeys : (table.map (·.1)).Nodup) :
    (pairsOf table).foldlM Statement.add (place [], path) =
      some (place (draftOf table), path) :=
  foldlM_add_pairs hplace (by simpa using hkeys)

theorem add_openTable (hname : es.lookup name = none) (path : List String) :
    Statement.add (es, path) (.openTable [name]) =
      some (es ++ [(name, Draft.table .header [])], [name]) := by
  simp [Statement.add, Entries.openTable, Entries.update, hname]

theorem add_openItem_first (hname : es.lookup name = none) (path : List String) :
    Statement.add (es, path) (.openItem [name]) =
      some (es ++ [(name, Draft.tables [[]])], [name]) := by
  simp [Statement.add, Entries.openItem, Entries.update, hname]

theorem add_openItem (hname : es.lookup name = none) (items : List Entries) (path : List String) :
    Statement.add (es ++ [(name, Draft.tables items)], path) (.openItem [name]) =
      some (es ++ [(name, Draft.tables ([] :: items))], [name]) := by
  simp [Statement.add, Entries.openItem, Entries.update, lookup_append_fresh hname,
    replace_append_fresh hname]

/-- The statements that open a table and give it its pairs. -/
def tableStatements (name : String) (table : Table) : List Statement :=
  .openTable [name] :: pairsOf table

/-- The statements that give an array its tables. -/
def itemStatements (name : String) (items : List Table) : List Statement :=
  items.flatMap fun item => .openItem [name] :: pairsOf item

theorem foldlM_tableStatements (hname : es.lookup name = none) (path : List String) {table : Table}
    (hkeys : (table.map (·.1)).Nodup) :
    (tableStatements name table).foldlM Statement.add (es, path) =
      some (es ++ [(name, Draft.table .header (draftOf table))], [name]) := by
  have hpairs := foldlM_pairsOf (isPlace_table hname) hkeys
  simp [tableStatements, add_openTable hname, hpairs]

theorem foldlM_itemStatements (hname : es.lookup name = none) {items : List Table}
    (hkeys : ∀ item ∈ items, (item.map (·.1)).Nodup) (done : List Entries) :
    (itemStatements name items).foldlM Statement.add (es ++ [(name, Draft.tables done)], [name]) =
      some (es ++ [(name, Draft.tables ((items.map draftOf).reverse ++ done))], [name]) := by
  induction items generalizing done with
  | nil => simp [itemStatements]
  | cons item items ih =>
    have hpairs := foldlM_pairsOf (isPlace_tables hname done) (hkeys item List.mem_cons_self)
    have ih := ih (fun i hi => hkeys i (List.mem_cons_of_mem item hi)) (draftOf item :: done)
    simp only [itemStatements] at ih ⊢
    simp [List.foldlM_append, add_openItem hname, hpairs, ih]

/-- An array of tables that is being built up; there is no entry if there are none. -/
def arrayDraftOf (name : String) (items : List Table) : Entries :=
  if items.isEmpty then [] else [(name, .tables (items.map draftOf).reverse)]

theorem foldlM_arrayStatements {items : List Table} (hname : items ≠ [] → es.lookup name = none)
    (path : List String) (hkeys : ∀ item ∈ items, (item.map (·.1)).Nodup) :
    ∃ path', (itemStatements name items).foldlM Statement.add (es, path) =
      some (es ++ arrayDraftOf name items, path') := by
  cases items with
  | nil => exact ⟨path, by simp [itemStatements, arrayDraftOf]⟩
  | cons item items =>
    have hname := hname (List.cons_ne_nil _ _)
    have hfirst := foldlM_pairsOf (isPlace_tables hname []) (hkeys item List.mem_cons_self)
    have hothers := foldlM_itemStatements hname
      (fun i hi => hkeys i (List.mem_cons_of_mem item hi)) [draftOf item]
    refine ⟨[name], ?_⟩
    simp only [itemStatements] at hothers ⊢
    simp [add_openItem_first hname, hfirst, hothers, arrayDraftOf]

/-! ## The finished table -/

theorem finishEntries_append (es fs : Entries) :
    finishEntries (es ++ fs) = finishEntries es ++ finishEntries fs := by
  induction es with
  | nil => simp [finishEntries]
  | cons entry es ih => simp [finishEntries, ih]

theorem finishEntries_draftOf (table : Table) : finishEntries (draftOf table) = table := by
  induction table with
  | nil => rfl
  | cons entry table ih =>
    simp only [draftOf] at ih ⊢
    simp [finishEntries, Draft.finish, ih]

theorem finishItems_eq_map (items : List Entries) :
    finishItems items = items.map fun es => .table (finishEntries es) := by
  induction items with
  | nil => rfl
  | cons item items ih => simp [finishItems, ih]

/-- The entry of an array of tables; there is none if there are no tables. -/
def arrayOf (name : String) (items : List Table) : Table :=
  if items.isEmpty then [] else [(name, .array (items.map .table))]

theorem finishEntries_arrayDraftOf (name : String) (items : List Table) :
    finishEntries (arrayDraftOf name items) = arrayOf name items := by
  unfold arrayDraftOf arrayOf
  split
  · rfl
  · simp [finishEntries, Draft.finish, finishItems_eq_map, finishEntries_draftOf]

/-- The table of a document that has pairs, then a table, then an array of tables. -/
theorem read?_of_prints {text : Text} {top table : Table} {items : List Table}
    {name array : String}
    (hprints : Prints text
      (pairsOf top ++ tableStatements name table ++ itemStatements array items))
    (hmark : text.head? ≠ some '\uFEFF') (htop : (top.map (·.1)).Nodup)
    (hname : name ∉ top.map (·.1)) (htable : (table.map (·.1)).Nodup)
    (harray : items ≠ [] → array ∉ top.map (·.1) ++ [name])
    (hitems : ∀ item ∈ items, (item.map (·.1)).Nodup) :
    read? text = some (top ++ (name, .table table) :: arrayOf array items) := by
  have hread := hprints []
  have hnone : readStatements [] = some [] := by simp [readStatements, skipLines]
  simp only [hnone, Option.map_some, List.append_nil] at hread
  have hmark : (text.head? == some '\uFEFF') = false := beq_eq_false_iff_ne.2 hmark
  have hpairs := foldlM_pairsOf isPlace_top htop
  rw [← map_fst_draftOf, ← lookup_eq_none_iff] at hname
  have hopened := foldlM_tableStatements hname [] htable
  have hfresh : items ≠ [] →
      (draftOf top ++ [(name, Draft.table .header (draftOf table))]).lookup array = none := by
    intro hne
    rw [lookup_eq_none_iff, List.map_append, map_fst_draftOf]
    exact harray hne
  obtain ⟨path, harray⟩ := foldlM_arrayStatements hfresh [name] hitems
  simp only [id] at hpairs
  have hfinish : finishEntries (draftOf top ++ [(name, Draft.table .header (draftOf table))] ++
      arrayDraftOf array items) = top ++ (name, .table table) :: arrayOf array items := by
    simp [finishEntries_append, finishEntries_draftOf, finishEntries_arrayDraftOf, finishEntries,
      Draft.finish]
  simp only [read?, hmark, hread, List.foldlM_append, hpairs, hopened, harray, hfinish,
    Option.bind_eq_bind, Option.bind_some, Bool.false_eq_true, if_false]

end Papyrus.Toml

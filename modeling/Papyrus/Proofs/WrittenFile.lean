import Papyrus.FileTree
/-!
# Files are read as they were written

Writing a file changes one place of the tree. Every directory stays one and keeps its names, so that
a path that could be followed before leads to the same place afterwards.

Results:
* `get?_put_directory`: directories stay directories, and what was in them is in them still.
* `follow_cons_eq_ok`: all that one name of a path can do.
* `follow_of_keeps`: paths lead where they led before.
* `read_of_write`: a file that has been written is read as it was written.
-/
namespace Papyrus

namespace FileNode

theorem entries_directory (es : List (String × FileNode)) : (directory es).entries = es := rfl

theorem lookup_setEntry_of_ne {name other : String} (h : other ≠ name)
    (entries : List (String × FileNode)) (child : FileNode) :
    (setEntry entries name child).lookup other = entries.lookup other := by
  have hbeq : (other == name) = false := beq_eq_false_iff_ne.2 h
  induction entries with
  | nil => simp [setEntry, List.lookup_cons, hbeq]
  | cons entry entries ih =>
    obtain ⟨n, c⟩ := entry
    by_cases hn : name = n
    · subst hn
      simp [setEntry, List.lookup_cons, hbeq]
    · simp [setEntry, hn, List.lookup_cons, ih]

theorem isSome_lookup_setEntry {name other : String} {entries : List (String × FileNode)}
    (h : (entries.lookup other).isSome = true) (child : FileNode) :
    ((setEntry entries name child).lookup other).isSome = true := by
  by_cases hname : other = name
  · rw [hname, lookup_setEntry]
    rfl
  · rw [lookup_setEntry_of_ne hname]
    exact h

theorem get?_append (node : FileNode) (place place' : List String) :
    node.get? (place ++ place') = (node.get? place).bind fun n => n.get? place' := by
  induction place generalizing node with
  | nil => rfl
  | cons name place ih => simp [get?, ih, Option.bind_assoc]

/-- Where no directory is replaced, all directories stay, and so do the names in them. -/
theorem get?_put_directory {node new : FileNode} {target place : List String}
    (htarget : ∀ es, node.get? target ≠ some (.directory es)) {es : List (String × FileNode)}
    (h : node.get? place = some (.directory es)) :
    ∃ es', (node.put target new).get? place = some (.directory es') ∧
      ∀ name, (es.lookup name).isSome = true → (es'.lookup name).isSome = true := by
  induction target generalizing node place with
  | nil =>
    cases node with
    | directory entries => exact absurd rfl (htarget entries)
    | file contents => cases place <;> simp [get?, entries] at h
  | cons name target ih =>
    cases place with
    | nil =>
      obtain rfl : node = .directory es := Option.some.inj h
      exact ⟨_, rfl, fun n hn => isSome_lookup_setEntry hn _⟩
    | cons n place =>
      obtain ⟨child, hchild, h⟩ := Option.bind_eq_some_iff.1 h
      by_cases hn : n = name
      · subst hn
        have htarget : ∀ es, child.get? target ≠ some (.directory es) := by
          intro es hes
          exact htarget es (Option.bind_eq_some_iff.2 ⟨child, hchild, hes⟩)
        obtain ⟨es', hes', hkeep⟩ := ih htarget h
        refine ⟨es', ?_, hkeep⟩
        simpa [put, get?, entries_directory, lookup_setEntry, hchild] using hes'
      · refine ⟨es, ?_, fun _ h => h⟩
        have hlookup := lookup_setEntry_of_ne hn node.entries
          (((node.entries.lookup name).getD (directory [])).put target new)
        simpa [put, get?, entries_directory, hlookup, hchild] using h

end FileNode

namespace FileTree

/-- Whether the directories of a tree, and the names in them, are in another one too. -/
def Keeps (tree tree' : FileTree) : Prop :=
  ∀ place es, tree.root.get? place = some (.directory es) →
    ∃ es', tree'.root.get? place = some (.directory es') ∧
      ∀ name, (es.lookup name).isSome = true → (es'.lookup name).isSome = true

/-- A path is followed name by name: from a directory one stays in it, goes up, or goes to what has
the name. -/
theorem follow_cons_eq_ok {tree : FileTree} {place rest goal : List String} {name : String} :
    tree.follow place (name :: rest) = .ok goal ↔
      ∃ es, tree.root.get? place = some (.directory es) ∧
        ((name = "" ∨ name = ".") ∧ tree.follow place rest = .ok goal ∨
          name = ".." ∧ tree.follow place.dropLast rest = .ok goal ∨
          (name ≠ "" ∧ name ≠ "." ∧ name ≠ ".." ∧ name.utf8ByteSize ≤ nameLimit) ∧
            (es.lookup name).isSome = true ∧ tree.follow (place ++ [name]) rest = .ok goal) := by
  rw [follow]
  cases hget : tree.root.get? place with
  | none => simp
  | some node =>
    cases node with
    | file contents => simp
    | directory es =>
      simp only [Option.some.injEq, FileNode.directory.injEq, exists_eq_left']
      by_cases hstay : name = "" ∨ name = "."
      · rcases hstay with rfl | rfl <;> simp
      obtain ⟨hempty, hdot⟩ := not_or.1 hstay
      by_cases hup : name = ".."
      · simp [hup]
      by_cases hlong : nameLimit < name.utf8ByteSize
      · simp [hempty, hdot, hup, hlong, Nat.not_le.2 hlong]
      · cases es.lookup name <;> simp [hempty, hdot, hup, hlong, Nat.le_of_not_lt hlong]

/-- A path that can be followed leads to the same place as before. -/
theorem follow_of_keeps {tree tree' : FileTree} (hkeeps : tree.Keeps tree') {place : List String}
    {names goal : List String} (h : tree.follow place names = .ok goal) :
    tree'.follow place names = .ok goal := by
  induction names generalizing place with
  | nil => exact h
  | cons name names ih =>
    obtain ⟨es, hes, hstep⟩ := follow_cons_eq_ok.1 h
    obtain ⟨es', hes', hnames⟩ := hkeeps place es hes
    refine follow_cons_eq_ok.2 ⟨es', hes', ?_⟩
    rcases hstep with ⟨hstay, h⟩ | ⟨hup, h⟩ | ⟨hdown, hthere, h⟩
    · exact .inl ⟨hstay, ih h⟩
    · exact .inr (.inl ⟨hup, ih h⟩)
    · exact .inr (.inr ⟨hdown, hnames name hthere, ih h⟩)

theorem follow_append (tree : FileTree) (place names names' : List String) :
    tree.follow place (names ++ names') =
      (tree.follow place names).bind fun p => tree.follow p names' := by
  induction names generalizing place with
  | nil => rfl
  | cons name names ih =>
    rw [List.cons_append, follow, follow]
    repeat' split
    all_goals first | exact ih _ | rfl

theorem bind_eq_ok {ε α β : Type} {x : Except ε α} {f : α → Except ε β} {b : β}
    (h : x >>= f = .ok b) : ∃ a, x = .ok a ∧ f a = .ok b := by
  cases x with
  | error e => cases h
  | ok a => exact ⟨a, rfl, h⟩

/-- The name of a file is the last one of its path. -/
theorem eq_append_of_target {names init : List String} {name : String}
    (h : target names = (init, some name)) :
    names = init ++ [name] ∧ name ≠ "" ∧ name ≠ "." ∧ name ≠ ".." := by
  cases hrev : names.reverse with
  | nil => simp [target, hrev] at h
  | cons last others =>
    obtain rfl : names = others.reverse ++ [last] := by
      rw [← List.reverse_reverse names, hrev, List.reverse_cons]
    by_cases hempty : last = ""
    · simp [target, hempty] at h
    · simp only [target, List.reverse_append, List.reverse_reverse, List.reverse_singleton,
        List.singleton_append, beq_iff_eq, hempty, if_false, Prod.mk.injEq,
        Option.ite_none_left_eq_some, Option.some.injEq, Bool.or_eq_true, not_or] at h
      obtain ⟨rfl, hdots, rfl⟩ := h
      exact ⟨rfl, hempty, hdots⟩

/-- A file is written under the last name of a path, in the directory to which the others lead. -/
theorem write_eq_ok {tree tree' : FileTree} {path : Path} {text : String}
    (h : tree.write path text = .ok tree') :
    ∃ start init name place, tree.origin path = .ok start ∧ path.components = init ++ [name] ∧
      (name ≠ "" ∧ name ≠ "." ∧ name ≠ ".." ∧ name.utf8ByteSize ≤ nameLimit) ∧
      tree.follow start (init ++ ["."]) = .ok place ∧
      (∀ es, tree.root.get? (place ++ [name]) ≠ some (.directory es)) ∧
      tree' = { tree with root := tree.root.put (place ++ [name]) (.file text.toUTF8) } := by
  obtain ⟨start, horigin, h⟩ := bind_eq_ok h
  cases htarget : target path.components with
  | mk init name? =>
    rw [htarget] at h
    obtain ⟨place, hplace, h⟩ := bind_eq_ok h
    cases name? with
    | none => cases h
    | some name =>
      obtain ⟨hcomponents, hempty, hdot, hup⟩ := eq_append_of_target htarget
      dsimp only at h
      split at h
      · cases h
      · next hshort =>
        split at h
        · cases h
        · next hother =>
          exact ⟨start, init, name, place, horigin, hcomponents,
            ⟨hempty, hdot, hup, Nat.le_of_not_lt hshort⟩, hplace, hother, (Except.ok.inj h).symm⟩

/-- A path that ends in a dot leads to a directory. -/
theorem follow_dot {tree : FileTree} {place goal : List String}
    (h : tree.follow place ["."] = .ok goal) :
    place = goal ∧ ∃ es, tree.root.get? goal = some (.directory es) := by
  obtain ⟨es, hes, ⟨-, h⟩ | ⟨hup, -⟩ | ⟨⟨-, hdot, -⟩, -⟩⟩ := follow_cons_eq_ok.1 h
  · obtain rfl := Except.ok.inj h
    exact ⟨rfl, es, hes⟩
  · exact absurd hup (by decide)
  · exact absurd rfl hdot

theorem fromUTF8?_toUTF8 (text : String) : String.fromUTF8? text.toUTF8 = some text := by
  simp only [String.fromUTF8?, String.toUTF8_eq_toByteArray, dif_pos text.isValidUTF8]
  rfl

/-- A file that has been written is read as it was written. -/
theorem read_of_write {tree tree' : FileTree} {path : Path} {text : String}
    (h : tree.write path text = .ok tree') : tree'.read path = .ok text := by
  obtain ⟨start, init, name, place, horigin, hcomponents, ⟨hempty, hdot, hup, hshort⟩, hplace,
    htarget, htree⟩ := write_eq_ok h
  have hroot : tree'.root = tree.root.put (place ++ [name]) (.file text.toUTF8) := by rw [htree]
  have hkeeps : tree.Keeps tree' := by
    intro q es hes
    rw [hroot]
    exact FileNode.get?_put_directory htarget hes
  have hfile : tree'.root.get? (place ++ [name]) = some (.file text.toUTF8) := by
    rw [hroot]
    exact FileNode.get?_put _ _ _
  -- the directory is found as before, and the name is in it
  obtain ⟨dir, hdir, hlast⟩ := bind_eq_ok ((follow_append tree start init ["."]).symm.trans hplace)
  obtain ⟨rfl, es, hes⟩ := follow_dot hlast
  obtain ⟨es', hes', -⟩ := hkeeps dir es hes
  have hthere : (es'.lookup name).isSome = true := by
    rw [FileNode.get?_append, hes'] at hfile
    cases hlookup : es'.lookup name with
    | none => simp [FileNode.get?, FileNode.entries, hlookup] at hfile
    | some child => rfl
  have hstep : tree'.follow dir [name] = .ok (dir ++ [name]) :=
    follow_cons_eq_ok.2 ⟨es', hes', .inr (.inr ⟨⟨hempty, hdot, hup, hshort⟩, hthere, rfl⟩)⟩
  have hlocate : tree'.locate path = .ok (dir ++ [name]) := by
    have horigin' : tree'.origin path = .ok start := by
      rw [htree]
      exact horigin
    have hfollow := follow_append tree' start init [name]
    rw [follow_of_keeps hkeeps hdir] at hfollow
    simp only [locate, horigin', hcomponents]
    exact hfollow.trans hstep
  simp only [read, hlocate]
  simp only [bind, Except.bind, hfile, fromUTF8?_toUTF8]

end FileTree

end Papyrus

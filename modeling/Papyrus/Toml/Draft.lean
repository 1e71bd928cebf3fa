import Papyrus.Toml.Value
/-!
# Tables under construction

A TOML document defines its tables piece by piece: by headers, by dotted keys and by the keys that
lead to either. Which pieces may be added depends on how a table came to be (`Origin`): a table has
one header at most, and dotted keys go on only in tables that dotted keys have made.

Results:
* `setPair_twice`: a key cannot be given a value twice.
-/
namespace Papyrus.Toml

/-- How a table came to be. -/
inductive Origin where
  /-- By a header of its own. -/
  | header
  /-- As a part of the header of another table. -/
  | implied
  /-- As a part of a dotted key. -/
  | dotted
  deriving DecidableEq, Repr

/-- A value or a table of a document that is still being read. -/
inductive Draft where
  | value (v : Value)
  | table (origin : Origin) (entries : List (String × Draft))
  /-- An array of tables, the last one first. -/
  | tables (items : List (List (String × Draft)))
  deriving Inhabited

/-- The entries of a table under construction. -/
abbrev Entries := List (String × Draft)

namespace Entries

/-- Replaces the entry of a key. -/
def replace (es : Entries) (key : String) (new : Draft) : Entries :=
  es.map fun (k, old) => (k, if k == key then new else old)

/-- Changes the table to which a path leads. Tables on the way that are missing are made, as
`implied` or as `dotted` ones. An array of tables leads on to its last one; a value leads
nowhere. -/
def update (es : Entries) (origin made : Origin) (path : List String)
    (change : Origin → Entries → Option Entries) : Option Entries :=
  match path with
  | [] => change origin es
  | key :: path =>
    match es.lookup key with
    | none => do
      let inner ← update [] made made path change
      some (es ++ [(key, .table made inner)])
    | some (.value _) => none
    | some (.tables []) => none
    | some (.tables (item :: items)) => do
      let inner ← update item .header made path change
      some (replace es key (.tables (inner :: items)))
    | some (.table o item) =>
      if made == .dotted && o == .header then none
      else do
        let inner ← update item o made path change
        some (replace es key (.table o inner))

/-- Gives a key, reached through a dotted path, a value. -/
def setPair (es : Entries) (path : List String) (v : Value) : Option Entries :=
  match path.getLast? with
  | none => none
  | some key =>
    es.update .header .dotted path.dropLast fun origin es =>
      if (origin == .dotted) == path.dropLast.isEmpty || (es.lookup key).isSome then none
      else some (es ++ [(key, .value v)])

/-- Opens the table of a header. -/
def openTable (es : Entries) (path : List String) : Option Entries :=
  match path.getLast? with
  | none => none
  | some key =>
    es.update .header .implied path.dropLast fun _ es =>
      match es.lookup key with
      | none => some (es ++ [(key, .table .header [])])
      | some (.table .implied item) => some (replace es key (.table .header item))
      | some _ => none

/-- Opens a new table in the array of tables of a header. -/
def openItem (es : Entries) (path : List String) : Option Entries :=
  match path.getLast? with
  | none => none
  | some key =>
    es.update .header .implied path.dropLast fun _ es =>
      match es.lookup key with
      | none => some (es ++ [(key, .tables [[]])])
      | some (.tables items) => some (replace es key (.tables ([] :: items)))
      | some _ => none

/-- A key without dots cannot be given a value twice. -/
theorem setPair_twice {es fs : Entries} {key : String} {v w : Value}
    (h : es.setPair [key] v = some fs) : fs.setPair [key] w = none := by
  simp only [setPair, List.getLast?_singleton, List.dropLast_singleton, update] at h ⊢
  cases hl : es.lookup key with
  | some d => simp [hl] at h
  | none =>
    obtain rfl : es ++ [(key, .value v)] = fs := by simpa [hl] using h
    simp [List.lookup_append, hl]

end Entries

/-! ## Finishing -/

mutual

/-- The finished value. -/
def Draft.finish : Draft → Value
  | .value v => v
  | .table _ es => .table (finishEntries es)
  | .tables items => .array (finishItems items).reverse

/-- The finished table. -/
def finishEntries : List (String × Draft) → Table
  | [] => []
  | (key, draft) :: es => (key, draft.finish) :: finishEntries es

/-- The finished tables of an array. -/
def finishItems : List (List (String × Draft)) → List Value
  | [] => []
  | es :: items => .table (finishEntries es) :: finishItems items

end

/-- The table that keys with values make, keys with dots being paths. -/
def tableOfPairs? (pairs : List (List String × Value)) : Option Table :=
  (pairs.foldlM (fun es (path, v) => Entries.setPair es path v) []).map finishEntries

end Papyrus.Toml

/-!
# Declared properties

Styling a script registers the names that it declares as properties, each with the line of its first
declaration, so that later uses can be told from other names. An edit moves the lines: `edit` shifts
the records below it, drops those whose lines are gone and marks those that may have moved.

A `PropertyTable` keeps the records in the order of their registration and, beside them, the set of
their names, in which a name is looked up. Both are written by every operation. A `PropertyRegistry`
is a table in which they agree.

Results:
* `Agrees.register`, `Agrees.edit`: registrations and edits keep names and records in agreement.
* `Agrees.isProperty_iff`: a name is a property exactly if it has a record.
* `isProperty_register`: a registration adds its own name and no other.
* `records_register`: what a registration makes of the records.
-/
namespace Papyrus

/-- A declaration of a property. -/
structure PropertyRecord where
  /-- The name in lower case. -/
  name : String
  /-- The line of the declaration. -/
  line : Nat
  /-- Whether an edit touched that line, so that the declaration may have moved. -/
  needsRecheck : Bool := false
  deriving DecidableEq, Repr

namespace PropertyRecord

/-- What an edit leaves of a record. The edit puts `added` lines in at `line`, takes `-added` lines
out from there if `added` is negative, or changes the line in place if it is zero. -/
def edit (r : PropertyRecord) (line : Nat) (added : Int) : Option PropertyRecord :=
  if r.line < line then some r
  else if (added < 0 ∧ (r.line : Int) ≤ line - added) ∨ (added = 0 ∧ r.line = line) then none
  else if r.line = line then some { r with needsRecheck := true }
  else some { r with line := (r.line + added).toNat }

/-- What is left of the record of a name that is declared again: a marked record moves to the
declaration, if that stands on its own line or further down. -/
def redeclare (r : PropertyRecord) (line : Nat) : PropertyRecord :=
  if r.line ≤ line && r.needsRecheck then ⟨r.name, line, false⟩ else r

@[simp] theorem name_redeclare (r : PropertyRecord) (line : Nat) :
    (r.redeclare line).name = r.name := by
  unfold redeclare
  split <;> rfl

/-- A record that is not marked stays where it is, and so does one further down. -/
theorem redeclare_eq_self {r : PropertyRecord} {line : Nat}
    (h : r.line ≤ line → r.needsRecheck = false) : r.redeclare line = r := by
  unfold redeclare
  grind

theorem name_of_edit_eq_some {r r' : PropertyRecord} {line : Nat} {added : Int}
    (h : r.edit line added = some r') : r'.name = r.name := by
  grind [edit]

end PropertyRecord

/-! ## Records and their names -/

/-- The records of properties and, beside them, the set of their names. -/
@[ext] structure PropertyTable where
  records : List PropertyRecord := []
  names : List String := []
  deriving DecidableEq, Repr, Inhabited

namespace PropertyTable

/-- The record of a name. -/
def record? (t : PropertyTable) (name : String) : Option PropertyRecord :=
  t.records.find? (·.name == name)

/-- Whether the name is a declared property. -/
def isProperty (t : PropertyTable) (name : String) : Bool := t.names.contains name

def size (t : PropertyTable) : Nat := t.records.length

def isEmpty (t : PropertyTable) : Bool := t.records.isEmpty

/-- Declares a name again that has a record, the first one that is found. -/
def redeclare (name : String) (line : Nat) : List PropertyRecord → List PropertyRecord
  | [] => []
  | r :: rest =>
    if r.name == name then r.redeclare line :: rest else r :: redeclare name line rest

/-- Registers a declaration. The first one of a name stands, but a marked record moves to a
declaration on its own line or further down. -/
def register (t : PropertyTable) (name : String) (line : Nat) : PropertyTable :=
  match t.record? name with
  | none => ⟨t.records ++ [⟨name, line, false⟩], t.names.insert name⟩
  | some _ => { t with records := redeclare name line t.records }

/-- Follows an edit of the document: the records are gone through first, and then the names of
those that have been dropped are taken out. -/
def edit (t : PropertyTable) (line : Nat) (added : Int) : PropertyTable :=
  let dropped := t.records.filter fun r => (r.edit line added).isNone
  { records := t.records.filterMap (·.edit line added)
    names := dropped.foldl (fun names r => names.filter (· != r.name)) t.names }

/-- Forgets all declarations. -/
def clear (_ : PropertyTable) : PropertyTable := {}

/-- No name has two records, and the names are those of the records. -/
structure Agrees (t : PropertyTable) : Prop where
  nodup : (t.records.map PropertyRecord.name).Nodup
  mem_names : ∀ name, name ∈ t.names ↔ name ∈ t.records.map PropertyRecord.name

variable {t : PropertyTable} {name : String} {line : Nat}

theorem agrees_empty : Agrees {} := ⟨List.nodup_nil, fun _ => Iff.rfl⟩

/-- If no name has two records, records of the same name are the same. -/
theorem eq_of_name {records : List PropertyRecord} (h : (records.map PropertyRecord.name).Nodup)
    {r r' : PropertyRecord} (hr : r ∈ records) (hr' : r' ∈ records) (hname : r.name = r'.name) :
    r = r' := by
  induction records with
  | nil => cases hr
  | cons q rest ih =>
    obtain ⟨hq, hrest⟩ := List.nodup_cons.1 h
    rcases List.mem_cons.1 hr with rfl | hmem
    · rcases List.mem_cons.1 hr' with rfl | hmem'
      · rfl
      · exact absurd (hname ▸ List.mem_map_of_mem hmem') hq
    · rcases List.mem_cons.1 hr' with rfl | hmem'
      · exact absurd (hname ▸ List.mem_map_of_mem hmem) hq
      · exact ih hrest hmem hmem'

theorem map_name_redeclare (records : List PropertyRecord) :
    (redeclare name line records).map PropertyRecord.name = records.map PropertyRecord.name := by
  induction records with
  | nil => rfl
  | cons r rest ih =>
    rw [redeclare]
    split
    · rw [List.map_cons, r.name_redeclare, List.map_cons]
    · rw [List.map_cons, ih, List.map_cons]

theorem Agrees.isProperty_iff_mem (h : t.Agrees) :
    t.isProperty name = true ↔ name ∈ t.records.map PropertyRecord.name := by
  rw [isProperty, List.contains_iff_mem, h.mem_names]

theorem Agrees.record?_eq_none (h : t.Agrees) :
    t.record? name = none ↔ ¬ t.isProperty name = true := by
  rw [h.isProperty_iff_mem]
  simp [record?, List.find?_eq_none]

/-- A name is a property exactly if it has a record. -/
theorem Agrees.isProperty_iff (h : t.Agrees) :
    t.isProperty name = true ↔ ∃ r, t.record? name = some r := by
  rw [← Option.ne_none_iff_exists', Ne, h.record?_eq_none, Classical.not_not]

/-- If no name has two records, all those of a name are the first one. -/
theorem redeclare_eq_map {records : List PropertyRecord}
    (h : (records.map PropertyRecord.name).Nodup) :
    redeclare name line records =
      records.map fun r => if r.name == name then r.redeclare line else r := by
  induction records with
  | nil => rfl
  | cons r rest ih =>
    obtain ⟨hr, hrest⟩ := List.nodup_cons.1 h
    rw [redeclare, List.map_cons]
    by_cases hname : r.name = name
    · have hother : ∀ q ∈ rest, (if q.name == name then q.redeclare line else q) = q := by
        intro q hq
        refine if_neg fun heq => hr ?_
        exact List.mem_map.2 ⟨q, hq, (beq_iff_eq.1 heq).trans hname.symm⟩
      rw [if_pos (beq_iff_eq.2 hname), if_pos (beq_iff_eq.2 hname), List.map_congr_left hother,
        List.map_id']
    · rw [if_neg (by simpa using hname), if_neg (by simpa using hname), ih hrest]

theorem Agrees.register (h : t.Agrees) (name : String) (line : Nat) :
    (t.register name line).Agrees := by
  unfold PropertyTable.register
  split
  · next hnone =>
    rw [h.record?_eq_none, h.isProperty_iff_mem] at hnone
    constructor
    · rw [List.map_append, List.nodup_append]
      refine ⟨h.nodup, by simp, ?_⟩
      rintro other hother _ hlast rfl
      have hname : other = name := List.mem_singleton.1 hlast
      exact hnone (hname ▸ hother)
    · intro other
      rw [List.mem_insert_iff, h.mem_names, List.map_append, List.mem_append]
      simp [or_comm]
  · exact ⟨by rw [map_name_redeclare]; exact h.nodup,
      fun other => by rw [map_name_redeclare]; exact h.mem_names other⟩

theorem mem_foldl_filter {dropped : List PropertyRecord} {names : List String} :
    name ∈ dropped.foldl (fun names r => names.filter (· != r.name)) names ↔
      name ∈ names ∧ name ∉ dropped.map PropertyRecord.name := by
  induction dropped generalizing names with
  | nil => simp
  | cons r rest ih =>
    rw [List.foldl_cons, ih, List.mem_filter, List.map_cons, List.mem_cons, not_or, bne_iff_ne,
      and_assoc]

theorem map_name_edit (records : List PropertyRecord) (line : Nat) (added : Int) :
    (records.filterMap (·.edit line added)).map PropertyRecord.name =
      (records.filter fun r => (r.edit line added).isSome).map PropertyRecord.name := by
  induction records with
  | nil => rfl
  | cons r rest ih =>
    rw [List.filterMap_cons, List.filter_cons]
    cases hedit : r.edit line added with
    | none => exact ih
    | some r' =>
      rw [Option.isSome_some, if_pos rfl, List.map_cons, List.map_cons, ih,
        PropertyRecord.name_of_edit_eq_some hedit]

theorem Agrees.edit (h : t.Agrees) (line : Nat) (added : Int) : (t.edit line added).Agrees := by
  constructor
  · rw [PropertyTable.edit, map_name_edit]
    exact h.nodup.sublist (List.filter_sublist.map _)
  · intro name
    rw [PropertyTable.edit, mem_foldl_filter, map_name_edit, h.mem_names]
    constructor
    · rintro ⟨hmem, hkept⟩
      obtain ⟨r, hr, rfl⟩ := List.mem_map.1 hmem
      refine List.mem_map.2 ⟨r, List.mem_filter.2 ⟨hr, ?_⟩, rfl⟩
      rw [← Option.not_isNone, Bool.not_eq_true']
      refine Bool.eq_false_iff.2 fun hnone => hkept ?_
      exact List.mem_map.2 ⟨r, List.mem_filter.2 ⟨hr, hnone⟩, rfl⟩
    · intro hmem
      obtain ⟨r, hr, rfl⟩ := List.mem_map.1 hmem
      obtain ⟨hr, hsome⟩ := List.mem_filter.1 hr
      refine ⟨List.mem_map.2 ⟨r, hr, rfl⟩, fun hdropped => ?_⟩
      -- a record of the same name would be the same record, and that is kept
      obtain ⟨q, hq, hname⟩ := List.mem_map.1 hdropped
      obtain ⟨hq, hnone⟩ := List.mem_filter.1 hq
      rw [eq_of_name h.nodup hq hr hname, ← Option.not_isSome, hsome] at hnone
      cases hnone

end PropertyTable

/-! ## Registries -/

/-- The properties declared in a document: a table in which names and records agree. -/
@[ext] structure PropertyRegistry extends PropertyTable where
  agrees : toPropertyTable.Agrees := by exact PropertyTable.agrees_empty
  deriving DecidableEq, Repr

namespace PropertyRegistry

instance : Inhabited PropertyRegistry := ⟨{}⟩

/-- Registers a declaration. -/
def register (p : PropertyRegistry) (name : String) (line : Nat) : PropertyRegistry where
  toPropertyTable := p.toPropertyTable.register name line
  agrees := p.agrees.register name line

/-- Follows an edit of the document. -/
def edit (p : PropertyRegistry) (line : Nat) (added : Int) : PropertyRegistry where
  toPropertyTable := p.toPropertyTable.edit line added
  agrees := p.agrees.edit line added

variable {p : PropertyRegistry} {name other : String} {line : Nat}

/-- The records after a registration. -/
theorem records_register (p : PropertyRegistry) (name : String) (line : Nat) :
    (p.register name line).records =
      if p.isProperty name = true then
        p.records.map fun r => if r.name == name then r.redeclare line else r
      else p.records ++ [⟨name, line, false⟩] := by
  unfold register PropertyTable.register
  dsimp only
  split
  · next hnone => rw [if_neg (p.agrees.record?_eq_none.1 hnone)]
  · next r hr =>
    rw [if_pos (p.agrees.isProperty_iff.2 ⟨r, hr⟩)]
    exact PropertyTable.redeclare_eq_map p.agrees.nodup

/-- The names after a registration. -/
theorem names_register (p : PropertyRegistry) (name : String) (line : Nat) :
    (p.register name line).names =
      if p.isProperty name = true then p.names else p.names.insert name := by
  unfold register PropertyTable.register
  dsimp only
  split
  · next hnone => rw [if_neg (p.agrees.record?_eq_none.1 hnone)]
  · next r hr => rw [if_pos (p.agrees.isProperty_iff.2 ⟨r, hr⟩)]

/-- The records after an edit. -/
theorem edit_records (p : PropertyRegistry) (line : Nat) (added : Int) :
    (p.edit line added).records = p.records.filterMap (·.edit line added) := rfl

theorem isProperty_register :
    (p.register name line).isProperty other = true ↔ other = name ∨ p.isProperty other = true := by
  rw [PropertyTable.isProperty, List.contains_iff_mem, names_register]
  split
  · next h =>
    rw [PropertyTable.isProperty, List.contains_iff_mem] at h ⊢
    exact ⟨Or.inr, fun h' => h'.elim (fun e => e ▸ h) id⟩
  · rw [List.mem_insert_iff, PropertyTable.isProperty, List.contains_iff_mem]

end PropertyRegistry

end Papyrus

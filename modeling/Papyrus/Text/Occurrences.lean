import Papyrus.Span
import Papyrus.Text
/-!
# Occurrences of a needle

`places` lists every place of a text where a needle is met, overlapping or not; `occurrences` reads
them from left to right and passes over what overlaps a place that it has taken. Characters are
compared by a key, so that letter case may be set aside; what is met can then have another number of
bytes than the needle.

Results:
* `mem_places`: a place lies in the text that was read, and is not empty unless the needle is.
* `occurrences_pairwise`: occurrences come in order and do not overlap.
-/
namespace Papyrus.Text

/-- A place where a needle is met, and what stands directly before and after it. -/
structure Occurrence extends Span where
  before : Option Char
  after : Option Char
  deriving DecidableEq, Repr

/-- The end of a needle at the start of a text, and the character after it. The text starts at
offset `base`, and the needle consists of keys. -/
def needleEnd? (key : Char → Char) (base : Nat) : Text → Text → Option (Nat × Option Char)
  | [], t => some (base, t.head?)
  | _ :: _, [] => none
  | n :: needle, c :: t =>
    if n = key c then needleEnd? key (base + c.utf8Size) needle t else none

/-- The places of a needle of keys in a text that starts at offset `base`, after the character
`before`. -/
def placesFrom (key : Char → Char) (needle : Text) (base : Nat) (before : Option Char) :
    Text → List Occurrence
  | [] => if needle.isEmpty then [⟨⟨base, base⟩, before, none⟩] else []
  | c :: t =>
    match needleEnd? key base needle (c :: t) with
    | some (stop, after) =>
      ⟨⟨base, stop⟩, before, after⟩ :: placesFrom key needle (base + c.utf8Size) (some c) t
    | none => placesFrom key needle (base + c.utf8Size) (some c) t

/-- The places where a needle is met in a text, from left to right. -/
def places (key : Char → Char) (needle t : Text) : List Occurrence :=
  placesFrom key (needle.map key) 0 none t

/-- The occurrences of a needle in a text, from left to right, no two of which overlap. -/
def occurrences (key : Char → Char) (needle t : Text) : List Occurrence :=
  Span.disjoint Occurrence.toSpan 0 (places key needle t)

theorem le_of_needleEnd? {key : Char → Char} {base stop : Nat} {needle t : Text}
    {after : Option Char} (h : needleEnd? key base needle t = some (stop, after)) :
    base + needle.length ≤ stop ∧ stop ≤ base + size t := by
  induction needle generalizing base t with
  | nil => obtain ⟨rfl, -⟩ := Prod.mk.inj (Option.some.inj h); simp
  | cons n needle ih =>
    cases t with
    | nil => contradiction
    | cons c t =>
      simp only [needleEnd?] at h
      split at h
      · have := ih h
        have := c.utf8Size_pos
        simp only [List.length_cons, size_cons]; omega
      · contradiction

theorem mem_placesFrom {key : Char → Char} {needle t : Text} {base : Nat} {before : Option Char}
    {o : Occurrence} (h : o ∈ placesFrom key needle base before t) :
    base ≤ o.start ∧ o.start + needle.length ≤ o.stop ∧ o.stop ≤ base + size t := by
  induction t generalizing base before with
  | nil =>
    simp only [placesFrom] at h
    split at h <;> simp_all
  | cons c t ih =>
    simp only [placesFrom] at h
    split at h
    · next hend =>
      rcases List.mem_cons.1 h with rfl | h
      · have := le_of_needleEnd? hend
        dsimp only; omega
      · have := ih h
        simp only [size_cons]; omega
    · have := ih h
      simp only [size_cons]; omega

theorem mem_places {key : Char → Char} {needle t : Text} {o : Occurrence}
    (h : o ∈ places key needle t) : o.start + needle.length ≤ o.stop ∧ o.stop ≤ size t := by
  simpa using (mem_placesFrom h).2

theorem mem_occurrences {key : Char → Char} {needle t : Text} {o : Occurrence}
    (h : o ∈ occurrences key needle t) : o.start + needle.length ≤ o.stop ∧ o.stop ≤ size t :=
  mem_places ((Span.disjoint_sublist _ _ _).mem h)

theorem occurrences_pairwise (key : Char → Char) (needle t : Text) :
    (occurrences key needle t).Pairwise fun a b => a.stop ≤ b.start :=
  Span.disjoint_pairwise 0 fun _ h => by have := mem_places h; omega

end Papyrus.Text

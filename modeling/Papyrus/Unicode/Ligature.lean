import Papyrus.Unicode.ColumnWidth
import Papyrus.Unicode.EmojiSequence
/-!
# Ligatures

In some scripts letters that stand together share a column. A ligature is read from its last letter
to its first; a `Ligature` is what has been read of one. Marks that are not shown may stand between
the letters.

Results:
* `extend?_joiner`: a joiner is no end of a ligature, but for the Arabic ones.
-/
namespace Papyrus.Unicode

/-- The end of a ligature. -/
inductive Ligature where
  /-- An Arabic alef, which follows a lam. -/
  | alef
  /-- A Hebrew lamed, which is joined to an alef, and whether a joiner stands before it. -/
  | lamed (joined : Bool)
  /-- A Buginese ya, which is joined to an i, and whether a joiner stands before it. -/
  | ya (joined : Bool)
  /-- A Buginese i that is joined to a ya and follows an a. -/
  | joinedYa
  /-- A Tifinagh consonant, and whether a joiner stands before it. -/
  | consonant (joined : Bool)
  /-- A Tifinagh consonant with the consonant joiner before it. -/
  | joinedConsonant
  /-- A Lisu tone letter that follows another one. -/
  | tone
  /-- An Old Turkic i, which is joined to an ot, and whether a joiner stands before it. -/
  | orkhonI (joined : Bool)
  /-- A Khmer letter that is written below another one after a coeng. -/
  | subscript
  deriving DecidableEq, Repr

/-- Code points of the Arabic letters of the joining group Alef. -/
def alefRanges : Ranges := [
  (0x622, 0x623), (0x625, 0x625), (0x627, 0x627), (0x671, 0x673), (0x675, 0x675), (0x773, 0x774),
  (0x870, 0x882)]

/-- Code points of the Arabic letters of the joining group Lam. -/
def lamRanges : Ranges := [
  (0x644, 0x644), (0x6B5, 0x6B8), (0x76A, 0x76A), (0x8A6, 0x8A6), (0x8C7, 0x8C7)]

/-- Code points without a column that Arabic letters do not join across. -/
def breakingRanges : Ranges := [
  (0x605, 0x605), (0x890, 0x891), (0x8E2, 0x8E2), (0x9BE, 0x9BE), (0x9D7, 0x9D7), (0xB3E, 0xB3E),
  (0xB57, 0xB57), (0xBBE, 0xBBE), (0xBD7, 0xBD7), (0xCC0, 0xCC0), (0xCC2, 0xCC2), (0xCC7, 0xCC8),
  (0xCCA, 0xCCB), (0xCD5, 0xCD6), (0xD3E, 0xD3E), (0xD4E, 0xD4E), (0xD57, 0xD57), (0xDCF, 0xDCF),
  (0xDDF, 0xDDF), (0x1160, 0x11FF), (0x180E, 0x180E), (0x1B35, 0x1B35), (0x1B3B, 0x1B3B),
  (0x1B3D, 0x1B3D), (0x1B43, 0x1B43), (0x200C, 0x200D), (0x2065, 0x2069), (0x302E, 0x302F),
  (0x3164, 0x3164), (0xA8FA, 0xA8FA), (0xD7B0, 0xD7C6), (0xD7CB, 0xD7FB), (0xFF9E, 0xFFA0),
  (0xFFF0, 0xFFF8), (0x111C2, 0x111C3), (0x1133E, 0x1133E), (0x11357, 0x11357),
  (0x114B0, 0x114B0), (0x114BD, 0x114BD), (0x115AF, 0x115AF), (0x11930, 0x11930),
  (0x1193F, 0x1193F), (0x11941, 0x11941), (0x11A3A, 0x11A3A), (0x11A84, 0x11A89),
  (0x11D46, 0x11D46), (0x11F02, 0x11F02), (0x1D165, 0x1D165), (0x1D16E, 0x1D172),
  (0xE0000, 0xE0000), (0xE0002, 0xE001F), (0xE0080, 0xE00FF), (0xE01F0, 0xE0FFF)]

/-- Code points of combining marks that are not shown. -/
def hiddenMarkRanges : Ranges := [
  (0x34F, 0x34F), (0x17B4, 0x17B5), (0x180B, 0x180D), (0x180F, 0x180F), (0xFE00, 0xFE0F),
  (0xE0100, 0xE01EF)]

/-- Code points of the Khmer letters that can be written below another one. -/
def subscriptRanges : Ranges := [
  (0x1780, 0x1782), (0x1784, 0x1787), (0x1789, 0x178C), (0x178E, 0x1793), (0x1795, 0x1798),
  (0x179B, 0x179D), (0x17A0, 0x17A0), (0x17A2, 0x17A2), (0x17A7, 0x17A7), (0x17AB, 0x17AC),
  (0x17AF, 0x17AF)]

/-- Whether Arabic letters join across the character. -/
def isTransparent (c : Char) : Bool := charWidth c == 0 && !breakingRanges.contains c.toNat

/-- Whether the character is a Tifinagh consonant. -/
def isTifinaghConsonant (c : Char) : Bool :=
  (0x2D31 ≤ c.toNat && c.toNat ≤ 0x2D65) || c.toNat == 0x2D6F

namespace Ligature

/-- What a character is the end of. -/
def ofChar? (c : Char) : Option Ligature :=
  if alefRanges.contains c.toNat then some alef
  else if c = '\u05DC' then some (lamed false)
  else if c = '\u1A10' then some (ya false)
  else if isTifinaghConsonant c then some (consonant false)
  else if c = '\uA4FC' ∨ c = '\uA4FD' then some tone
  else if c.toNat = 0x10C03 then some (orkhonI false)
  else if subscriptRanges.contains c.toNat then some subscript
  else none

/-- The end of a ligature with a joiner before it. -/
def withJoiner : Ligature → Ligature
  | lamed _ => lamed true
  | ya _ => ya true
  | consonant _ => consonant true
  | orkhonI _ => orkhonI true
  | l => l

/-- What a character adds to the width of the ligature that it stands before and belongs to, and the
longer end; none, if the character is the first one of the ligature. -/
def extend? (l : Ligature) (c : Char) : Option (Int × Option Ligature) :=
  if l = alef then
    if lamRanges.contains c.toNat then some (0, none)
    else if isTransparent c then some (0, some alef)
    else none
  else if c = joiner then some (0, some l.withJoiner)
  else if hiddenMarkRanges.contains c.toNat then some (0, some l)
  else
    match l with
    | lamed true => if c = '\u05D0' then some (0, none) else none
    | ya true => if c = '\u1A17' then some (0, some joinedYa) else none
    | joinedYa => if c = '\u1A15' then some (0, none) else none
    | consonant joined =>
      if c = '\u2D7F' then some (1, some joinedConsonant)
      else if joined && isTifinaghConsonant c then some (0, none)
      else none
    | joinedConsonant => if isTifinaghConsonant c then some (-1, none) else none
    | tone => if 0xA4F8 ≤ c.toNat ∧ c.toNat ≤ 0xA4FB then some (0, none) else none
    | orkhonI true => if c.toNat = 0x10C32 then some (0, none) else none
    | subscript => if c = '\u17D2' then some (-1, none) else none
    | _ => none

theorem extend?_joiner {l : Ligature} (h : l ≠ alef) :
    l.extend? joiner = some (0, some l.withJoiner) := by
  simp [extend?, h]

end Ligature

end Papyrus.Unicode

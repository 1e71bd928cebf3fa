import Papyrus.Unicode.Emoji
/-!
# Emoji sequences

Several characters can make one emoji: a picture and its skin tone, a pair of letters that make a
flag, a flag and the tags that say whose it is, and emoji that are joined. A sequence is read from
its last character to its first; an `EmojiTail` is what has been read.

Results:
* `extend?_emoji`: nothing but a joiner goes with an emoji that stands after it.
-/
namespace Papyrus.Unicode

/-- U+200D, which joins what stands on its two sides. -/
def joiner : Char := '\u200D'

/-- How many letters of flags have been read: one, an even number, or an odd number above one. -/
inductive RegionCount where
  | one
  | even
  | odd
  deriving DecidableEq, Repr

/-- The end of an emoji sequence. -/
inductive EmojiTail where
  /-- An emoji with all that belongs to it. -/
  | emoji
  /-- A skin tone. -/
  | modifier
  /-- One letter of a flag, or several. -/
  | region (several : Bool)
  /-- A joiner and an emoji. -/
  | joined
  /-- The keycap mark, and what is joined to it. -/
  | joinedKeycap
  /-- Letters of flags, and what is joined to them. -/
  | joinedRegions (count : RegionCount)
  /-- So many letters as tags, and what is joined to the end of the tags. -/
  | tags (letters : Nat)
  /-- So many digits as tags, before any letters. -/
  | tagDigits (digits : Nat)
  deriving DecidableEq, Repr

namespace EmojiTail

/-- Whether a joiner can stand before the tail. -/
def isWhole : EmojiTail → Bool
  | emoji | modifier | region true | joinedRegions .even | joinedRegions .odd => true
  | _ => false

/-- Whether a selector between the tail and the character before it joins the two. -/
def isJoint : EmojiTail → Bool
  | joined | joinedKeycap => true
  | _ => false

/-- Whether the tags name a region: two letters or three digits, with up to four letters. -/
def namesRegion : EmojiTail → Bool
  | tags letters => 3 ≤ letters
  | tagDigits digits => digits == 3
  | _ => false

/-- The tail with one more tag, if the name of a region can end so. -/
def extendTags? (tail : EmojiTail) (c : Char) : Option EmojiTail :=
  let isLetter : Bool := 0xE0061 ≤ c.toNat && c.toNat ≤ 0xE007A
  let isDigit : Bool := 0xE0030 ≤ c.toNat && c.toNat ≤ 0xE0039
  match tail with
  | tags letters =>
    if isLetter && letters < 6 then some (tags (letters + 1))
    else if isDigit && letters ≤ 4 then some (tagDigits 1)
    else none
  | tagDigits digits => if isDigit && digits < 3 then some (tagDigits (digits + 1)) else none
  | _ => none

/-- The tail with one more letter of a flag, and the columns that it adds. Each letter has one until
two of them are joined to an emoji, which then has their columns too. -/
def extendRegion? : EmojiTail → Option (Int × EmojiTail)
  | region _ => some (1, region true)
  | joined => some (1, joinedRegions .one)
  | joinedRegions .one | joinedRegions .odd => some (-1, joinedRegions .even)
  | joinedRegions .even => some (3, joinedRegions .odd)
  | _ => none

/-- The tail with one more character, if they belong together. -/
def extendPicture? (tail : EmojiTail) (c : Char) : Option EmojiTail :=
  match tail with
  | modifier => if isEmojiModifierBase c then some emoji else none
  | joined =>
    if c = '\u20E3' then some joinedKeycap
    else if isEmojiModifier c then some modifier
    else if c.toNat = 0xE007F then some (tags 0)
    else if isEmojiPresentation c then some emoji
    else none
  | tail => if c.toNat = 0x1F3F4 && tail.namesRegion then some emoji else tail.extendTags? c

/-- What a character adds to the width of the sequence that it stands before and belongs to, and the
longer tail. -/
def extend? (tail : EmojiTail) (c : Char) : Option (Int × EmojiTail) :=
  if c = joiner then if tail.isWhole then some (0, joined) else none
  else if isRegionalIndicator c then tail.extendRegion?
  else (tail.extendPicture? c).map ((0, ·))

/-- Before an emoji, only a joiner belongs to the same sequence. -/
theorem extend?_emoji (c : Char) :
    emoji.extend? c = if c = joiner then some (0, joined) else none := by
  simp [extend?, isWhole, extendRegion?, extendPicture?, namesRegion, extendTags?]

end EmojiTail

end Papyrus.Unicode

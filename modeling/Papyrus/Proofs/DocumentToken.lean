import Papyrus.Proofs.CodeToken
import Papyrus.Proofs.KeywordToken
/-!
# The tokens of a document

The tokens of a document are those of its lines, each at its offset in the document. They come in
order and do not overlap, and styling gives all bytes of a token the same style.

Results:
* `mem_tokens`: a token of a document is a token of one of its lines.
* `Ordered.eq_of_overlap`: tokens that overlap are the same.
* `styleAt_token`: a token of a styled document has one style.
-/
namespace Papyrus

/-! ## Tokens in order -/

namespace Token

/-- The bytes of a token. -/
def span (t : Token) : Span := ⟨t.start, t.stop⟩

theorem Ordered.append {lo mid mid' hi : Nat} {tokens tokens' : List Token}
    (h : Ordered lo tokens mid) (h' : Ordered mid' tokens' hi) (hle : mid ≤ mid') :
    Ordered lo (tokens ++ tokens') hi := by
  induction tokens generalizing lo with
  | nil => exact h'.mono (Nat.le_trans h hle)
  | cons t rest ih => exact ⟨h.1, h.2.1, ih h.2.2⟩

theorem Ordered.pairwise {lo hi : Nat} {tokens : List Token} (h : Ordered lo tokens hi) :
    tokens.Pairwise fun a b => a.start < b.start := by
  induction tokens generalizing lo with
  | nil => exact .nil
  | cons t rest ih =>
    obtain ⟨-, hpos, hrest⟩ := h
    exact .cons (fun u hu => Nat.lt_of_lt_of_le hpos (hrest.mem hu).1) (ih hrest)

/-- Tokens that overlap are the same. -/
theorem Ordered.eq_of_overlap {lo hi : Nat} {tokens : List Token} (h : Ordered lo tokens hi)
    {t u : Token} (ht : t ∈ tokens) (hu : u ∈ tokens) (htu : t.start < u.stop)
    (hut : u.start < t.stop) : t = u := by
  induction tokens generalizing lo with
  | nil => cases ht
  | cons v rest ih =>
    obtain ⟨-, -, hrest⟩ := h
    rcases List.mem_cons.1 ht with hfirst | ht'
    · rcases List.mem_cons.1 hu with hfirst' | hu'
      · rw [hfirst, hfirst']
      · have := (hrest.mem hu').1
        rw [hfirst] at hut
        omega
    · rcases List.mem_cons.1 hu with hfirst' | hu'
      · have := (hrest.mem ht').1
        rw [hfirst'] at htu
        omega
      · exact ih hrest ht' hu'

end Token

/-! ## Tokens of lines -/

namespace Lines

/-- The tokens of lines, the first of which starts at offset `base`. -/
def tokens (base : Nat) : Lines → List Token
  | [] => []
  | l :: ls => Token.scan l.text base ++ tokens (base + l.size + 1) ls

theorem tokens_ordered (base : Nat) (ls : Lines) :
    Token.Ordered base (tokens base ls) (base + width ls) := by
  induction ls generalizing base with
  | nil => exact Nat.le_refl base
  | cons l ls ih =>
    have hwidth : base + width (l :: ls) = base + l.size + 1 + width ls := by
      rw [width_cons]
      omega
    rw [hwidth]
    refine (Token.scan_ordered l.text base).append (ih (base + l.size + 1)) ?_
    rw [l.size_eq]
    exact Nat.le_succ _

/-- A token of lines is a token of one of them, moved to where the line starts. -/
theorem mem_tokens {base : Nat} {ls : Lines} {t : Token} :
    t ∈ tokens base ls ↔ ∃ pre l post, ls = pre ++ l :: post ∧
      ∃ u ∈ Token.scan l.text 0, t = u.shift (base + width pre) := by
  induction ls generalizing base with
  | nil => simp [tokens]
  | cons l ls ih =>
    have hscan : Token.scan l.text base = (Token.scan l.text 0).map (Token.shift base) := by
      rw [← Token.scan_shift, Nat.zero_add]
    have hwidth : ∀ pre, base + l.size + 1 + width pre = base + width (l :: pre) := by
      intro pre
      rw [width_cons]
      omega
    rw [tokens, List.mem_append, ih, hscan, List.mem_map]
    constructor
    · rintro (⟨u, hu, rfl⟩ | ⟨pre, m, post, rfl, u, hu, rfl⟩)
      · exact ⟨[], l, ls, rfl, u, hu, rfl⟩
      · exact ⟨l :: pre, m, post, rfl, u, hu, by rw [hwidth]⟩
    · rintro ⟨pre, m, post, heq, u, hu, rfl⟩
      cases pre with
      | nil =>
        obtain ⟨rfl, rfl⟩ := List.cons.inj heq
        exact Or.inl ⟨u, hu, rfl⟩
      | cons p pre =>
        obtain ⟨rfl, rfl⟩ := List.cons.inj heq
        exact Or.inr ⟨pre, m, post, rfl, u, hu, by rw [hwidth]⟩

end Lines

/-! ## Styles of tokens -/

section
variable {env : Surroundings} {line : Nat}

open StyledSpan (styleIn)

/-- All bytes of a token are in the span that it was given. -/
theorem styleIn_token {mode : Mode} {behind tokens : List Token} {cursor hi : Nat} {k : Knowledge}
    (h : Token.Ordered cursor tokens hi) {t : Token} (ht : t ∈ tokens) (tail : List StyledSpan)
    {i : Nat} (hlo : t.start ≤ i) (hhi : i < t.stop) :
    styleIn ((styleTokens env line mode behind cursor k tokens).1 ++ tail) i =
      styleIn ((styleTokens env line mode behind cursor k tokens).1 ++ tail) t.start := by
  induction tokens generalizing mode behind cursor k with
  | nil => cases ht
  | cons u rest ih =>
    obtain ⟨hcursor, hpos, hrest⟩ := h
    have hsplit := styleIn_styleTokens_cons env line mode behind cursor k u rest tail
    dsimp only at hsplit
    rw [hsplit, hsplit]
    rcases List.mem_cons.1 ht with rfl | ht
    · rw [if_neg (by omega), if_pos ⟨hlo, hhi⟩, if_neg (by omega),
        if_pos ⟨Nat.le_refl _, by omega⟩]
    · have hbehind := (hrest.mem ht).1
      rw [if_neg (by omega), if_neg (by omega), if_neg (by omega), if_neg (by omega)]
      exact ih hrest ht

theorem Lines.styleOf_token {pre post : Lines} {l : Line} {t : Token}
    (ht : t ∈ Token.scan l.text 0) {incoming : LineState} {k : Knowledge} {i : Nat}
    (hlo : t.start ≤ i) (hhi : i < t.stop) :
    styleOf id env line incoming k (pre ++ l :: post) (width pre + i) =
      styleOf id env line incoming k (pre ++ l :: post) (width pre + t.start) := by
  induction pre generalizing line incoming k with
  | nil =>
    have hordered := Token.scan_ordered l.text 0
    have hbound := (hordered.mem ht).2.2
    rw [Nat.zero_add, ← l.size_eq] at hbound
    rw [List.nil_append, styleOf_cons, styleOf_cons]
    dsimp only
    rw [width_nil, Nat.zero_add, Nat.zero_add, if_pos (by omega), if_pos (by omega)]
    exact styleIn_token hordered ht _ hlo hhi
  | cons p pre ih =>
    rw [List.cons_append, styleOf_cons, styleOf_cons, width_cons]
    dsimp only
    have hbehind : ∀ n, p.size + 1 + width pre + n - (p.size + 1) = width pre + n := by
      intro n
      omega
    rw [if_neg (by omega), if_neg (by omega), if_neg (by omega), if_neg (by omega), hbehind,
      hbehind]
    exact ih

end

/-! ## Tokens of a document -/

namespace Document
variable {d : Document}

/-- The tokens of a document. -/
def tokens (d : Document) : List Token := d.lines.tokens 0

theorem tokens_ordered (d : Document) : Token.Ordered 0 d.tokens (0 + d.lines.width) :=
  d.lines.tokens_ordered 0

/-- A token of a document is a token of one of its lines, moved to where the line starts. -/
theorem mem_tokens {t : Token} :
    t ∈ d.tokens ↔ ∃ pre l post, d.lines = pre ++ l :: post ∧
      ∃ u ∈ Token.scan l.text 0, t = u.shift (Lines.width pre) := by
  rw [tokens, Lines.mem_tokens]
  simp only [Nat.zero_add]

/-- A token lies in its document. -/
theorem stop_le_size {t : Token} (ht : t ∈ d.tokens) : t.stop ≤ d.size := by
  obtain ⟨pre, l, post, hlines, u, hu, rfl⟩ := mem_tokens.1 ht
  have hbound := ((Token.scan_ordered l.text 0).mem hu).2.2
  rw [Nat.zero_add, ← l.size_eq] at hbound
  have hline := @Lines.size_le_size_cons l post
  rw [size, hlines, Lines.size_split]
  dsimp only [Token.shift]
  omega

/-- All bytes of a token have the style of the first one, once the document has been styled. -/
theorem styleAt_token {env : Surroundings} (hd : d.Styled env) {t : Token} (ht : t ∈ d.tokens)
    {offset : Nat} (hlo : t.start ≤ offset) (hhi : offset < t.stop) :
    d.styleAt offset = d.styleAt t.start := by
  have hsize := stop_le_size ht
  obtain ⟨pre, l, post, hlines, u, hu, rfl⟩ := mem_tokens.1 ht
  obtain ⟨k, hk⟩ := hd
  obtain ⟨i, rfl⟩ : ∃ i, offset = Lines.width pre + i := ⟨offset - Lines.width pre, by
    dsimp only [Token.shift] at hlo
    omega⟩
  rw [hk _ (by omega), hk _ (by omega), hlines]
  dsimp only [Token.shift] at hlo hhi ⊢
  rw [Nat.add_comm u.start]
  exact Lines.styleOf_token hu (by omega) (by omega)

end Document

end Papyrus

import Papyrus.Settings.Encode
import Papyrus.Proofs.QuotedText
/-!
# Values are read as they were written

A configuration file has truth values, numbers, texts and arrays of texts. Each of them is read back
from the text that was written for it, if what follows cannot be taken for a part of it.

Results:
* `readInteger?_toDigits`: the decimal digits of a number are read as the number, and as nothing
  else (`scalar?_toDigits`).
* `reads_bool`, `reads_indicator`, `reads_printString`, `reads_printStrings`: the values of a
  configuration file.
-/
namespace Papyrus.Toml

/-! ## Digits -/

section
variable {t : Text}

theorem hexValue?_of_isDigit {c : Char} (h : c.isDigit = true) :
    hexValue? c = some (c.toNat - '0'.toNat) := if_pos h

theorem digitRun?_of_digits {p : Char → Bool} (hne : t ≠ []) (hp : ∀ c ∈ t, p c = true)
    (hunder : '_' ∉ t) : digitRun? p t = some t := by
  induction t with
  | nil => exact absurd rfl hne
  | cons c t ih =>
    have hc := hp c List.mem_cons_self
    cases t with
    | nil => simp [digitRun?, hc]
    | cons d t =>
      have hd : d ≠ '_' := fun h => hunder (h ▸ by simp)
      have ih := ih (by simp) (fun e he => hp e (List.mem_cons_of_mem c he))
        (fun h => hunder (List.mem_cons_of_mem c h))
      simp [digitRun?, hc, hd, ih]

theorem eq_drop_of_fixed? {count n : Nat} {u : Text} (h : fixed? count t = some (n, u)) :
    u = t.drop count := by
  simp only [fixed?, Option.bind_eq_bind] at h
  split at h
  · cases hn : natOf? 10 (t.take count) with
    | none => simp [hn] at h
    | some m => simp [hn] at h; exact h.2.symm
  · cases h

variable (hdigits : ∀ c ∈ t, c.isDigit = true)
include hdigits

theorem not_mem_of_digits {c : Char} (hc : c.isDigit = false) : c ∉ t := by
  intro hmem
  rw [hdigits c hmem] at hc
  cases hc

theorem beq_false_of_digits {u : Text} {c : Char} (hc : c.isDigit = false) (hu : c ∈ u) :
    (t == u) = false := by
  rw [beq_eq_false_iff_ne]
  rintro rfl
  exact not_mem_of_digits hdigits hc hu

theorem mapM_hexValue? : t.mapM hexValue? = some (t.map fun c => c.toNat - '0'.toNat) := by
  induction t with
  | nil => rfl
  | cons c t ih =>
    have ih := ih fun d hd => hdigits d (List.mem_cons_of_mem c hd)
    simp [List.mapM_cons, hexValue?_of_isDigit (hdigits c List.mem_cons_self), ih]

theorem natOf?_of_digits (hne : t ≠ []) : natOf? 10 t = some (Nat.ofDigitChars 10 t 0) := by
  have hp : ∀ c ∈ t, (hexValue? c).any (· < 10) = true := fun c hc =>
    Unicode.of_isDigit (p := fun c => (hexValue? c).any (· < 10) = true) (by decide) (hdigits c hc)
  simp only [natOf?, digitRun?_of_digits hne hp (not_mem_of_digits hdigits (by decide)),
    mapM_hexValue? hdigits, Option.bind_eq_bind, Option.bind_some, ofDigits, Nat.ofDigitChars,
    List.foldl_map, Nat.mul_comm]

theorem expect?_of_digits {c : Char} (hc : c.isDigit = false) : expect? c t = none := by
  cases t with
  | nil => rfl
  | cons d t =>
    have hne : c ≠ d := fun h => not_mem_of_digits hdigits hc (h ▸ List.mem_cons_self)
    simp [expect?, hne]

theorem date?_of_digits : date? t = none := by
  cases hyear : fixed? 4 t with
  | none => simp [date?, hyear]
  | some r =>
    obtain ⟨year, u⟩ := r
    obtain rfl := eq_drop_of_fixed? hyear
    simp [date?, hyear, expect?_of_digits fun d hd => hdigits d (List.mem_of_mem_drop hd)]

theorem time?_of_digits : time? t = none := by
  cases hhour : fixed? 2 t with
  | none => simp [time?, hhour]
  | some r =>
    obtain ⟨hour, u⟩ := r
    obtain rfl := eq_drop_of_fixed? hhour
    simp [time?, hhour, expect?_of_digits fun d hd => hdigits d (List.mem_of_mem_drop hd)]

theorem splitSign_of_digits : splitSign t = (false, t) := by
  unfold splitSign
  split
  · exact absurd (by simp) (not_mem_of_digits hdigits (c := '+') (by decide))
  · exact absurd (by simp) (not_mem_of_digits hdigits (c := '-') (by decide))
  · rfl

end

/-- Only `0` starts with a zero. -/
theorem head?_toDigits {n : Nat} (h : (Nat.toDigits 10 n).head? = some '0') : n = 0 := by
  induction n using Nat.strongRecOn with
  | ind n ih =>
    by_cases hn : n < 10
    · rw [Nat.toDigits_of_lt_base hn] at h
      have hall : ∀ n < 10, some n.digitChar = some '0' → n = 0 := by decide
      exact hall n hn h
    · obtain ⟨c, t, hcons⟩ :=
        List.exists_cons_of_ne_nil (Nat.toDigits_ne_nil (n := n / 10) (b := 10))
      rw [Nat.toDigits_of_base_le (by omega) (by omega), hcons] at h
      have hzero := ih (n / 10) (by omega) (by rw [hcons]; exact h)
      omega

variable (n : Nat)

theorem isDigit_of_mem_toDigits : ∀ c ∈ Nat.toDigits 10 n, c.isDigit = true := fun _ hc =>
  Nat.isDigit_of_mem_toDigits (by omega) (by omega) hc

theorem wholeDigits?_toDigits : wholeDigits? (Nat.toDigits 10 n) = some (Nat.toDigits 10 n) := by
  have hrun := digitRun?_of_digits Nat.toDigits_ne_nil (isDigit_of_mem_toDigits n)
    (not_mem_of_digits (isDigit_of_mem_toDigits n) (by decide))
  have hzero : ¬ ((Nat.toDigits 10 n).head? = some '0' ∧ (Nat.toDigits 10 n).length ≠ 1) := by
    rintro ⟨hhead, hlen⟩
    obtain rfl := head?_toDigits hhead
    exact hlen rfl
  simpa [wholeDigits?, hrun] using hzero

theorem readInteger?_toDigits (hn : (n : Int) ≤ Int64.maxValue.toInt) :
    readInteger? (Nat.toDigits 10 n) = some (n : Int) := by
  have hdigits := isDigit_of_mem_toDigits n
  have hbound : Int64.minValue.toInt ≤ (n : Int) ∧ (n : Int) ≤ Int64.maxValue.toInt := by
    have hmin : Int64.minValue.toInt ≤ 0 := by decide
    omega
  unfold readInteger?
  split
  · next heq => exact absurd (by simp [heq]) (not_mem_of_digits hdigits (c := 'x') (by decide))
  · next heq => exact absurd (by simp [heq]) (not_mem_of_digits hdigits (c := 'o') (by decide))
  · next heq => exact absurd (by simp [heq]) (not_mem_of_digits hdigits (c := 'b') (by decide))
  · simp [splitSign_of_digits hdigits, wholeDigits?_toDigits,
      natOf?_of_digits hdigits Nat.toDigits_ne_nil, Nat.ofDigitChars_toDigits, integer?, hbound]

theorem isFloat_toDigits : isFloat (Nat.toDigits 10 n) = false := by
  have hdigits := isDigit_of_mem_toDigits n
  have hpart : ∀ c ∈ Nat.toDigits 10 n, (c.isDigit || c == '_') = true := fun c hc => by
    rw [hdigits c hc, Bool.true_or]
  have hinf : (Nat.toDigits 10 n == ['i', 'n', 'f']) = false :=
    beq_false_of_digits hdigits (c := 'i') (by decide) (by decide)
  have hnan : (Nat.toDigits 10 n == ['n', 'a', 'n']) = false :=
    beq_false_of_digits hdigits (c := 'n') (by decide) (by decide)
  have htake := @List.takeWhile_append_of_pos _ _ _ [] hpart
  have hdrop := @List.dropWhile_append_of_pos _ _ _ [] hpart
  simp only [List.append_nil, List.takeWhile_nil, List.dropWhile_nil] at htake hdrop
  simp [isFloat, splitSign_of_digits hdigits, hinf, hnan, htake, hdrop, exponent?]

/-- Decimal digits mean a number and nothing else. -/
theorem scalar?_toDigits (hn : (n : Int) ≤ Int64.maxValue.toInt) :
    scalar? (Nat.toDigits 10 n) = some (.integer n) := by
  have hdigits := isDigit_of_mem_toDigits n
  have htrue : (Nat.toDigits 10 n == ['t', 'r', 'u', 'e']) = false :=
    beq_false_of_digits hdigits (c := 't') (by decide) (by decide)
  have hfalse : (Nat.toDigits 10 n == ['f', 'a', 'l', 's', 'e']) = false :=
    beq_false_of_digits hdigits (c := 'f') (by decide) (by decide)
  simp [scalar?, htrue, hfalse, isDateTime, date?_of_digits hdigits, time?_of_digits hdigits,
    isFloat_toDigits, readInteger?_toDigits n hn]

/-! ## Single values -/

/-- A run of characters that is no date is read alone. -/
theorem readScalar_append {word rest : Text} (hword : ∀ c ∈ word, isScalar c = true)
    (hdate : date? word = none) (hrest : ∀ c ∈ rest.head?, isScalar c = false) :
    readScalar (word ++ rest) = (scalar? word).map (·, rest) := by
  have hstop : rest.takeWhile isScalar = [] ∧ rest.dropWhile isScalar = rest := by
    cases rest with
    | nil => exact ⟨rfl, rfl⟩
    | cons c rest => simp [hrest c rfl]
  simp [readScalar, List.takeWhile_append_of_pos hword, List.dropWhile_append_of_pos hword, hstop,
    hdate]

/-- Whether a character is the first one of a text, an array or a table. -/
def opensValue (c : Char) : Bool := isMark c || c == '[' || c == '\x7b'

theorem readValue_scalar {depth : Nat} {c : Char} (hc : opensValue c = false) (t : Text) :
    readValue depth (c :: t) = readScalar (c :: t) := by
  simp only [opensValue, isMark, Bool.or_eq_false_iff, beq_eq_false_iff_ne] at hc
  rw [readValue] <;> simp_all

/-- Whether a text is that of a value if a line break follows. -/
structure Reads (text : Text) (v : Value) : Prop where
  head : ∀ c ∈ text.head?, isBlank c = false
  read : ∀ rest, readValue (nestingLimit - 1) (text ++ '\n' :: rest) = some (v, '\n' :: rest)

theorem reads_word (word : Text) {v : Value} (hne : word ≠ [])
    (hword : ∀ c ∈ word, isScalar c = true) (hdate : date? word = none)
    (hv : scalar? word = some v) : Reads word v := by
  obtain ⟨c, t, rfl⟩ := List.exists_cons_of_ne_nil hne
  have hc := hword c List.mem_cons_self
  have hne : ∀ d, isScalar d = false → c ≠ d := by
    rintro d hd rfl
    rw [hc] at hd
    cases hd
  refine ⟨fun d hd => ?_, fun rest => ?_⟩
  · obtain rfl := Option.some.inj hd
    simp [isBlank, hne ' ' (by decide), hne '\t' (by decide)]
  · have hopens : opensValue c = false := by
      simp [opensValue, isMark, hne '"' (by decide), hne '\'' (by decide), hne '[' (by decide),
        hne '\x7b' (by decide)]
    rw [List.cons_append, readValue_scalar hopens, ← List.cons_append,
      readScalar_append hword hdate fun d hd => by cases hd; decide, hv]
    rfl

theorem reads_bool (b : Bool) : Reads (Settings.encodeBool b) (.boolean b) := by
  cases b with
  | true => exact reads_word ['t', 'r', 'u', 'e'] (by decide) (List.all_eq_true.1 rfl) rfl rfl
  | false =>
    exact reads_word ['f', 'a', 'l', 's', 'e'] (by decide) (List.all_eq_true.1 rfl) rfl rfl

theorem reads_indicator (id : UInt32) :
    Reads (Settings.encodeIndicator id) (.integer id.toNat) := by
  have hdigits := isDigit_of_mem_toDigits id.toNat
  have hbound : (id.toNat : Int) ≤ Int64.maxValue.toInt := by
    have hmax : (UInt32.size : Int) ≤ Int64.maxValue.toInt := by decide
    have hlt : id.toNat < UInt32.size := id.toNat_lt
    omega
  have hword : Settings.encodeIndicator id = Nat.toDigits 10 id.toNat := by
    simp [Settings.encodeIndicator]
  rw [hword]
  refine reads_word _ Nat.toDigits_ne_nil (fun c hc => ?_) (date?_of_digits hdigits)
    (scalar?_toDigits id.toNat hbound)
  simp [isScalar, Char.isAlphanum, hdigits c hc]

/-! ## Texts and arrays of texts -/

theorem quote_eq_cons (t : Text) : ∃ c u, quote t = c :: u ∧ isMark c = true := by
  unfold quote
  split <;> exact ⟨_, _, rfl, by decide⟩

theorem readValue_printString (depth : Nat) (s : String) {rest : Text}
    (h : ∀ c ∈ rest.head?, isMark c = false) :
    readValue depth (printString s ++ rest) = some (.string s, rest) := by
  have hread := readQuoted_quote s.toList h
  obtain ⟨c, u, hquote, hmark⟩ := quote_eq_cons s.toList
  rw [printString]
  rw [hquote] at hread ⊢
  simp only [isMark, Bool.or_eq_true, beq_iff_eq] at hmark
  rcases hmark with rfl | rfl <;> simp_all [readValue]

theorem isBlank_of_isMark {c : Char} (h : isMark c = true) : isBlank c = false := by
  simp only [isMark, Bool.or_eq_true, beq_iff_eq] at h
  rcases h with rfl | rfl <;> decide

theorem reads_printString (s : String) : Reads (printString s) (.string s) where
  head c hc := by
    obtain ⟨d, u, hquote, hmark⟩ := quote_eq_cons s.toList
    rw [printString, hquote] at hc
    obtain rfl := Option.some.inj hc
    exact isBlank_of_isMark hmark
  read rest := readValue_printString _ s fun c hc => by cases hc; decide

/-- White space ends where a text starts or an array goes on or ends. -/
theorem skipLines_of_head {c : Char} (hc : isMark c = true ∨ c = ']' ∨ c = ',') (t : Text) :
    skipLines false (c :: t) = c :: t := by
  simp only [isMark, Bool.or_eq_true, beq_iff_eq] at hc
  rcases hc with (rfl | rfl) | rfl | rfl <;> simp [skipLines, isBlank]

theorem skipLines_printString (s : String) (rest : Text) :
    skipLines false (printString s ++ rest) = printString s ++ rest := by
  obtain ⟨c, u, hquote, hmark⟩ := quote_eq_cons s.toList
  rw [printString, hquote]
  exact skipLines_of_head (.inl hmark) _

section
variable {item : Text → Option (Value × Text)}

theorem readItems_nil (item : Text → Option (Value × Text)) {t rest : Text}
    (h : skipLines false t = ']' :: rest) :
    readItems item t = some ([], rest) := by
  rw [readItems, h]
  rfl

/-- An array with one more item in front, whether or not others follow. -/
theorem readItems_step {t rest : Text} (more : Text) {s : String} {vs : List Value}
    (hitem : item (printString s ++ more) = some (.string s, more))
    (hskip : skipLines false t = printString s ++ more)
    (hmore : (∃ u, more = ']' :: u ∧ vs = [] ∧ rest = u) ∨
      ∃ u, more = ',' :: u ∧ u.length < t.length ∧ readItems item u = some (vs, rest)) :
    readItems item t = some (.string s :: vs, rest) := by
  obtain ⟨c, u, hquote, hmark⟩ := quote_eq_cons s.toList
  have hne : c ≠ ']' := by rintro rfl; cases hmark
  rw [readItems, hskip]
  rw [printString, hquote, List.cons_append] at hitem ⊢
  rcases hmore with ⟨u, rfl, rfl, rfl⟩ | ⟨u, rfl, hlen, hread⟩
  · simp [hne, hitem, skipLines_of_head (c := ']') (.inr (.inl rfl))]
  · simp [hne, hitem, skipLines_of_head (c := ',') (.inr (.inr rfl)), hlen, hread]

end

/-- The items of an array, one to a line. -/
def itemLines (items : List String) : Text :=
  items.flatMap fun s => "    ".toList ++ printString s ++ ",\n".toList

theorem readItems_lines (depth : Nat) (items : List String) (rest : Text) :
    readItems (readValue depth) ('\n' :: (itemLines items ++ ']' :: rest)) =
      some (items.map Value.string, rest) := by
  induction items with
  | nil => exact readItems_nil _ (by simp [itemLines, skipLines, isBlank])
  | cons s items ih =>
    refine readItems_step (',' :: '\n' :: (itemLines items ++ ']' :: rest)) ?_ ?_
      (.inr ⟨_, rfl, ?_, ih⟩)
    · exact readValue_printString depth s fun c hc => by cases hc; decide
    · have hskip := skipLines_printString s (',' :: '\n' :: (itemLines items ++ ']' :: rest))
      simpa [itemLines, skipLines, isBlank] using hskip
    · simp [itemLines]; omega

theorem readValue_printStrings (depth : Nat) (items : List String) (rest : Text) :
    readValue (depth + 1) (printStrings items ++ rest) =
      some (.array (items.map Value.string), rest) := by
  have hopen : ∀ t, readValue (depth + 1) ('[' :: t) =
      (readItems (readValue depth) t).map fun r => (.array r.1, r.2) := by
    intro t
    rw [readValue]
  rcases items with _ | ⟨s, _ | ⟨s', items⟩⟩
  · have hread := readItems_nil (readValue depth)
      (skipLines_of_head (c := ']') (.inr (.inl rfl)) rest)
    simp [printStrings, hopen, hread]
  · have hitem : readValue depth (printString s ++ ']' :: rest) = some (.string s, ']' :: rest) :=
      readValue_printString depth s fun c hc => by cases hc; decide
    have hread : readItems (readValue depth) (printString s ++ ']' :: rest) =
        some ([.string s], rest) :=
      readItems_step (']' :: rest) hitem (skipLines_printString s _) (.inl ⟨_, rfl, rfl, rfl⟩)
    simp [printStrings, hopen, hread]
  · have hread := readItems_lines depth (s :: s' :: items) rest
    simpa [printStrings, hopen, itemLines] using hread

theorem reads_printStrings (items : List String) :
    Reads (printStrings items) (.array (items.map .string)) where
  head c hc := by
    obtain rfl : c = '[' := by
      unfold printStrings at hc
      split at hc <;> exact (Option.some.inj hc).symm
    decide
  read rest := readValue_printStrings (nestingLimit - 2) items _

end Papyrus.Toml

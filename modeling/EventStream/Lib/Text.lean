import Mathlib.Data.List.Basic
import Mathlib.Data.List.DropRight
import Mathlib.Tactic.IntervalCases

/-!
# Text: strings as lists of characters, their bytes, and decimal numbers

A string is the list of its Unicode scalar values and a byte string a list of bytes.

* `utf8` and `ofUtf8` are the two directions between them, and the second inverts the first (`ofUtf8_utf8`).
* `mem_utf8_ascii`: the byte of an ASCII character occurs in the bytes of a string exactly where the character does.
* `stripText` and `splitOnce` take a string apart at a text in front and at the first occurrence of a character; `trim`
  takes the white space off both ends.
* `showNat` and `showInt` print decimals; `parseUnsigned` and `parseSigned` read them the way the standard integer
  parsers do (an optional sign, then at least one digit, then a range check), and reading what was printed gives the
  number back (`parseUnsigned_showNat`, `parseSigned_showInt`).
-/

namespace Text

/-- A string: its Unicode scalar values. -/
abbrev Str := List Char

/-- A byte string. -/
abbrev Bytes := List UInt8

/-! ## UTF-8 -/

/-- The UTF-8 bytes of a string. -/
def utf8 (s : Str) : Bytes := s.flatMap String.utf8EncodeChar

/-- The string whose UTF-8 bytes these are, if there is one. -/
def ofUtf8 (b : Bytes) : Option Str := b.toByteArray.utf8Decode?.map Array.toList

/-- Decoding the bytes of a string gives the string. -/
theorem ofUtf8_utf8 (s : Str) : ofUtf8 (utf8 s) = some s := by
  have h : (utf8 s).toByteArray = s.utf8Encode := rfl
  rw [ofUtf8, h, List.utf8Decode?_utf8Encode]
  rfl

/-- Only the bytes of a string decode to it. -/
theorem ofUtf8_eq_some {b : Bytes} {s : Str} : ofUtf8 b = some s ↔ b = utf8 s := by
  constructor
  · intro h
    obtain ⟨chars, hdec, -⟩ := Option.map_eq_some_iff.1 h
    obtain ⟨t, ht⟩ := ByteArray.isSome_utf8Decode?_iff.1 (Option.isSome_of_eq_some hdec)
    have hbytes : b.toByteArray = (utf8 t).toByteArray := ht
    have hb : b = utf8 t := by simpa using congrArg (fun a : ByteArray => a.data.toList) hbytes
    rw [hb, ofUtf8_utf8] at h
    rw [hb, Option.some.inj h]
  · rintro rfl
    exact ofUtf8_utf8 s

theorem utf8_injective {s t : Str} (h : utf8 s = utf8 t) : s = t := by
  have := congrArg ofUtf8 h
  simpa only [ofUtf8_utf8, Option.some.injEq] using this

theorem utf8_append (s t : Str) : utf8 (s ++ t) = utf8 s ++ utf8 t := List.flatMap_append

theorem utf8_cons (c : Char) (s : Str) : utf8 (c :: s) = String.utf8EncodeChar c ++ utf8 s := List.flatMap_cons

/-- The bytes of a character tell where it ends. -/
theorem utf8EncodeChar_append_inj {c d : Char} {a b : Bytes}
    (h : String.utf8EncodeChar c ++ a = String.utf8EncodeChar d ++ b) : c = d ∧ a = b := by
  have hdec : ∀ (c : Char) (a : Bytes), (String.utf8EncodeChar c ++ a).toByteArray.utf8DecodeChar? 0 = some c := by
    intro c a
    rw [List.toByteArray_append]
    exact ByteArray.utf8DecodeChar?_utf8EncodeChar_append
  have hcd : some c = some d := by rw [← hdec c a, h, hdec]
  cases hcd
  exact ⟨rfl, List.append_cancel_left h⟩

/-- The bytes of one string begin with those of another exactly if the strings do. -/
theorem utf8_isPrefix_iff {s t : Str} : utf8 s <+: utf8 t ↔ s <+: t := by
  constructor
  · intro h
    induction s generalizing t with
    | nil => exact List.nil_prefix
    | cons c s ih =>
      obtain ⟨rest, hrest⟩ := h
      rw [utf8_cons, List.append_assoc] at hrest
      cases t with
      | nil => exact absurd (List.append_eq_nil_iff.1 hrest).1 String.utf8EncodeChar_ne_nil
      | cons d t =>
        rw [utf8_cons] at hrest
        obtain ⟨rfl, htail⟩ := utf8EncodeChar_append_inj hrest
        exact (List.prefix_cons_inj c).2 (ih ⟨rest, htail⟩)
  · rintro ⟨rest, rfl⟩
    rw [utf8_append]
    exact List.prefix_append _ _

/-! ## ASCII -/

/-- An ASCII character is one byte. -/
theorem utf8_cons_ascii {c : Char} (h : c.toNat ≤ 127) (s : Str) : utf8 (c :: s) = UInt8.ofNat c.toNat :: utf8 s := by
  have hc : String.utf8EncodeChar c = [UInt8.ofNat c.toNat] := if_pos h
  rw [utf8, List.flatMap_cons, hc]
  rfl

/-- The byte of an ASCII character occurs in the encoding of no other character. -/
theorem mem_utf8EncodeChar_ascii {c d : Char} (h : c.toNat ≤ 127) :
    UInt8.ofNat c.toNat ∈ String.utf8EncodeChar d ↔ d = c := by
  constructor
  · intro hm
    -- every byte of a longer encoding has its highest bit set
    have hhigh : ∀ n, 128 ≤ n → n < 256 → UInt8.ofNat c.toNat ≠ UInt8.ofNat n := by
      intro n h₁ h₂ he
      have hn := congrArg UInt8.toNat he
      rw [UInt8.toNat_ofNat', UInt8.toNat_ofNat'] at hn
      omega
    simp only [String.utf8EncodeChar] at hm
    split_ifs at hm with h₁ h₂ h₃
    · have hn := congrArg UInt8.toNat (List.mem_singleton.1 hm)
      rw [UInt8.toNat_ofNat', UInt8.toNat_ofNat'] at hn
      apply Char.ext
      apply UInt32.toNat_inj.1
      change c.val.toNat ≤ 127 at h
      change c.val.toNat % 256 = _ at hn
      omega
    all_goals
      simp only [List.mem_cons, List.not_mem_nil, or_false] at hm
      exfalso
    · rcases hm with hm | hm <;> exact hhigh _ (by omega) (by omega) hm
    · rcases hm with hm | hm | hm <;> exact hhigh _ (by omega) (by omega) hm
    · rcases hm with hm | hm | hm | hm <;> exact hhigh _ (by omega) (by omega) hm
  · rintro rfl
    have hd : String.utf8EncodeChar d = [UInt8.ofNat d.toNat] := if_pos h
    simp [hd]

/-- The byte of an ASCII character occurs exactly where the character does. -/
theorem mem_utf8_ascii {c : Char} (h : c.toNat ≤ 127) (s : Str) : UInt8.ofNat c.toNat ∈ utf8 s ↔ c ∈ s := by
  simp only [utf8, List.mem_flatMap, mem_utf8EncodeChar_ascii h, exists_eq_right]

/-! ## Taking a string apart -/

/-- What follows a text at the start of a string. -/
def stripText (text s : Str) : Option Str := if text.isPrefixOf s then some (s.drop text.length) else none

/-- What stands before and after the first occurrence of a character. -/
def splitOnce (c : Char) (s : Str) : Option (Str × Str) :=
  if c ∈ s then some (s.takeWhile (· ≠ c), (s.dropWhile (· ≠ c)).tail) else none

/-- The characters of the Unicode property `White_Space`. -/
def isWhitespace (c : Char) : Bool :=
  let n := c.toNat
  (9 ≤ n && n ≤ 13) || n == 32 || n == 0x85 || n == 0xA0 || n == 0x1680 || (0x2000 ≤ n && n ≤ 0x200A) ||
    n == 0x2028 || n == 0x2029 || n == 0x202F || n == 0x205F || n == 0x3000

/-- A string without the white space at its ends. -/
def trim (s : Str) : Str := (s.dropWhile isWhitespace).rdropWhile isWhitespace

theorem stripText_append (text s : Str) : stripText text (text ++ s) = some s := by
  have hp : text.isPrefixOf (text ++ s) = true := List.isPrefixOf_iff_prefix.2 (List.prefix_append text s)
  rw [stripText, if_pos hp, List.drop_left]

theorem splitOnce_append {c : Char} {a : Str} (b : Str) (h : c ∉ a) : splitOnce c (a ++ c :: b) = some (a, b) := by
  have hall : ∀ x ∈ a, (decide (x ≠ c)) = true := by
    intro x hx
    simp only [decide_eq_true_eq]
    rintro rfl
    exact h hx
  rw [splitOnce, if_pos (by simp), List.takeWhile_append_of_pos hall, List.dropWhile_append_of_pos hall]
  simp

/-! ## Decimal digits -/

/-- The decimal digits of a number, without leading zeros. -/
def showNat (n : Nat) : Str := Nat.toDigits 10 n

/-- A signed decimal: a minus sign on the negative numbers only. -/
def showInt : Int → Str
  | .ofNat n => showNat n
  | .negSucc n => '-' :: showNat (n + 1)

/-- The value of a run of decimal digits, when it is a non-empty one. -/
def digits (s : Str) : Option Nat :=
  if s ≠ [] ∧ s.all Char.isDigit then some (Nat.ofDigitChars 10 s 0) else none

/-- Unsigned integer parsing: an optional plus sign, at least one digit, and a value up to the maximum. -/
def parseUnsigned (max : Nat) (s : Str) : Option Nat :=
  match s with
  | '+' :: rest => (digits rest).filter (· ≤ max)
  | _ => (digits s).filter (· ≤ max)

/-- Signed integer parsing: an optional sign, at least one digit, and a value between the bounds. -/
def parseSigned (min max : Int) (s : Str) : Option Int :=
  match s with
  | '+' :: rest => ((digits rest).map Int.ofNat).filter (· ≤ max)
  | '-' :: rest => ((digits rest).map (fun n : Nat => -(n : Int))).filter (min ≤ ·)
  | _ => ((digits s).map Int.ofNat).filter (· ≤ max)

theorem showNat_ne_nil (n : Nat) : showNat n ≠ [] := Nat.toDigits_ne_nil

theorem isDigit_of_mem_showNat {n : Nat} {c : Char} (h : c ∈ showNat n) : c.isDigit = true :=
  Nat.isDigit_of_mem_toDigits (by decide) (by decide) h

theorem all_isDigit_showNat (n : Nat) : (showNat n).all Char.isDigit = true :=
  List.all_eq_true.2 fun _ h => isDigit_of_mem_showNat h

/-- The digits of a number have that number as their value. -/
theorem digits_showNat (n : Nat) : digits (showNat n) = some n := by
  have hv : Nat.ofDigitChars 10 (showNat n) 0 = n := Nat.ofDigitChars_ten_toDigits
  simp [digits, showNat_ne_nil, all_isDigit_showNat, hv]

/-- A printed number starts with a digit. -/
theorem showNat_cons (n : Nat) : ∃ c cs, showNat n = c :: cs ∧ c.isDigit = true := by
  cases h : showNat n with
  | nil => exact absurd h (showNat_ne_nil n)
  | cons c cs => exact ⟨c, cs, rfl, isDigit_of_mem_showNat (n := n) (by simp [h])⟩

/-- Only zero prints with a leading zero. -/
theorem showNat_head_ne_zero {n : Nat} (h : n ≠ 0) : ∃ c cs, showNat n = c :: cs ∧ c.isDigit = true ∧ c ≠ '0' := by
  induction n using Nat.strong_induction_on with
  | h n ih =>
    rcases Nat.lt_or_ge n 10 with hn | hn
    · refine ⟨n.digitChar, [], Nat.toDigits_of_lt_base hn, ?_, ?_⟩
      · interval_cases n <;> decide
      · interval_cases n
        · exact absurd rfl h
        all_goals decide
    · obtain ⟨c, cs, hc, hd, hz⟩ := ih (n / 10) (by omega) (by omega)
      refine ⟨c, cs ++ [(n % 10).digitChar], ?_, hd, hz⟩
      rw [showNat, Nat.toDigits_of_base_le (by decide) hn]
      rw [showNat] at hc
      rw [hc, List.cons_append]

/-! ## The texts that are read as numbers -/

theorem digits_eq_none {c : Char} (h : c.isDigit = false) (s : Str) : digits (c :: s) = none := by
  rw [digits, if_neg]
  rintro ⟨-, hall⟩
  rw [List.all_cons, h] at hall
  cases hall

/-- A text without the sign in front of it. -/
def unsigned : Str → Str
  | '+' :: rest => rest
  | '-' :: rest => rest
  | s => s

theorem unsigned_of_head {s : Str} (hp : s.head? ≠ some '+') (hm : s.head? ≠ some '-') : unsigned s = s := by
  unfold unsigned
  split
  · exact absurd rfl hp
  · exact absurd rfl hm
  · rfl

/-- A run of digits has no sign. -/
theorem head_of_digits {s : Str} {n : Nat} (h : digits s = some n) : s.head? ≠ some '+' ∧ s.head? ≠ some '-' := by
  cases s with
  | nil => exact ⟨by simp, by simp⟩
  | cons c rest =>
    simp only [List.head?_cons, ne_eq, Option.some.injEq]
    constructor
    · rintro rfl
      rw [digits_eq_none (by decide)] at h
      cases h
    · rintro rfl
      rw [digits_eq_none (by decide)] at h
      cases h

/-- The texts that are read as an unsigned number. -/
theorem parseUnsigned_eq_some {max n : Nat} {s : Str} :
    parseUnsigned max s = some n ↔ n ≤ max ∧ (digits s = some n ∨ ∃ rest, s = '+' :: rest ∧ digits rest = some n) := by
  unfold parseUnsigned
  split
  · rename_i rest
    have hnone : digits ('+' :: rest) = none := digits_eq_none (by decide) rest
    simp [Option.filter_eq_some_iff, hnone, and_comm]
  · rename_i hplus
    have hno : ¬ ∃ rest, s = '+' :: rest ∧ digits rest = some n := by
      rintro ⟨rest, rfl, -⟩
      exact hplus rest rfl
    simp [Option.filter_eq_some_iff, hno, and_comm]

/-- The texts that are read as a number that is not negative: a minus sign stands only before a zero. -/
theorem parseSigned_eq_natCast {min max : Int} (hmin : min ≤ 0) {n : Nat} {s : Str} :
    parseSigned min max s = some (n : Int) ↔
      digits (unsigned s) = some n ∧ if s.head? = some '-' then n = 0 else (n : Int) ≤ max := by
  unfold parseSigned unsigned
  split
  · simp [Option.filter_eq_some_iff]
  · rename_i rest
    simp only [Option.filter_eq_some_iff, Option.map_eq_some_iff, decide_eq_true_eq, List.head?_cons, if_true]
    constructor
    · rintro ⟨⟨k, hk, hv⟩, -⟩
      have hn : n = 0 := by omega
      have hk0 : k = 0 := by omega
      rw [hk, hk0, hn]
      exact ⟨rfl, rfl⟩
    · rintro ⟨hd, rfl⟩
      exact ⟨⟨0, hd, rfl⟩, hmin⟩
  · rename_i hplus hminus
    have hhead : s.head? ≠ some '-' := by
      cases s with
      | nil => simp
      | cons c rest =>
        rw [List.head?_cons, ne_eq, Option.some.injEq]
        rintro rfl
        exact hminus rest rfl
    simp [Option.filter_eq_some_iff, hhead]

/-! ## Reading back -/

theorem isDigit_ne {c d : Char} (h : c.isDigit = true) (hd : d.isDigit = false) : c ≠ d := by
  rintro rfl
  rw [h] at hd
  cases hd

/-- A number up to the maximum is read back from its decimals. -/
theorem parseUnsigned_showNat {max n : Nat} (h : n ≤ max) : parseUnsigned max (showNat n) = some n := by
  obtain ⟨c, cs, hs, hd⟩ := showNat_cons n
  have hp : c ≠ '+' := isDigit_ne hd (by decide)
  have hv := digits_showNat n
  rw [hs] at hv ⊢
  unfold parseUnsigned
  split
  · rename_i heq
    injection heq with h1 _
    exact absurd h1 hp
  · rw [hv]; simp [h]

/-- A number between the bounds is read back from its signed decimals. -/
theorem parseSigned_showInt {min max i : Int} (hmin : min ≤ i) (hmax : i ≤ max) :
    parseSigned min max (showInt i) = some i := by
  cases i with
  | ofNat n =>
    obtain ⟨c, cs, hs, hd⟩ := showNat_cons n
    have hp : c ≠ '+' := isDigit_ne hd (by decide)
    have hm : c ≠ '-' := isDigit_ne hd (by decide)
    have hv := digits_showNat n
    rw [showInt, hs]
    rw [hs] at hv
    unfold parseSigned
    split
    · rename_i heq
      injection heq with h1 _
      exact absurd h1 hp
    · rename_i heq
      injection heq with h1 _
      exact absurd h1 hm
    · rw [hv]
      simpa using hmax
  | negSucc n =>
    have hv : -((n + 1 : Nat) : Int) = Int.negSucc n := rfl
    have hp : parseSigned min max ('-' :: showNat (n + 1)) =
        ((digits (showNat (n + 1))).map (fun k : Nat => -(k : Int))).filter (min ≤ ·) := by
      simp [parseSigned]
    rw [showInt, hp, digits_showNat, Option.map_some, hv]
    simpa using hmin

end Text

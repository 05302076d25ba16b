import EventStream.Lib.Text

/-!
# Base64: the padded standard alphabet of RFC 4648

`decode` reads four characters at a time. It is strict: padding is required, stands only in the last group, and the
bits that padding cuts off are zero.

* `decode_group`, `decode_two`, `decode_one`: what a full group, a group of two bytes and a group of one byte give.
-/

namespace Rfc4648

open Text (Str Bytes)

/-- The sextet of a character of the alphabet. -/
def sextet (c : Char) : Option Nat :=
  if 'A' ≤ c ∧ c ≤ 'Z' then some (c.toNat - 65)
  else if 'a' ≤ c ∧ c ≤ 'z' then some (c.toNat - 71)
  else if '0' ≤ c ∧ c ≤ '9' then some (c.toNat + 4)
  else if c = '+' then some 62
  else if c = '/' then some 63
  else none

/-- A last group that ends in padding. -/
def decodeLast (a b c : Char) : Option Bytes :=
  match sextet a, sextet b, sextet c with
  | some a, some b, none =>
    if c = '=' ∧ b % 16 = 0 then some [UInt8.ofNat (a * 4 + b / 16)] else none
  | some a, some b, some c =>
    if c % 4 = 0 then some [UInt8.ofNat (a * 4 + b / 16), UInt8.ofNat (b % 16 * 16 + c / 4)] else none
  | _, _, _ => none

/-- The bytes of a padded text. -/
def decode : Str → Option Bytes
  | [] => some []
  | a :: b :: c :: d :: rest =>
    if d = '=' then
      if rest = [] then decodeLast a b c else none
    else
      match sextet a, sextet b, sextet c, sextet d, decode rest with
      | some a, some b, some c, some d, some bytes =>
        some (UInt8.ofNat (a * 4 + b / 16) :: UInt8.ofNat (b % 16 * 16 + c / 4) :: UInt8.ofNat (c % 4 * 64 + d) ::
          bytes)
      | _, _, _, _, _ => none
  | _ => none

theorem sextet_ne_pad {c : Char} {n : Nat} (h : sextet c = some n) : c ≠ '=' := by
  rintro rfl
  have hp : sextet '=' = none := by decide
  rw [hp] at h
  cases h

/-- A full group gives three bytes. -/
theorem decode_group {a b c d : Char} {i j k l : Nat} {rest : Str} {bytes : Bytes} (ha : sextet a = some i)
    (hb : sextet b = some j) (hc : sextet c = some k) (hd : sextet d = some l) (hr : decode rest = some bytes) :
    decode (a :: b :: c :: d :: rest) = some (UInt8.ofNat (i * 4 + j / 16) :: UInt8.ofNat (j % 16 * 16 + k / 4) ::
      UInt8.ofNat (k % 4 * 64 + l) :: bytes) := by
  simp only [decode, if_neg (sextet_ne_pad hd), ha, hb, hc, hd, hr]

/-- A group with one padding character gives two bytes. -/
theorem decode_two {a b c : Char} {i j k : Nat} (ha : sextet a = some i) (hb : sextet b = some j)
    (hc : sextet c = some k) (hz : k % 4 = 0) :
    decode [a, b, c, '='] = some [UInt8.ofNat (i * 4 + j / 16), UInt8.ofNat (j % 16 * 16 + k / 4)] := by
  simp only [decode, decodeLast, ha, hb, hc, hz, if_true]

/-- A group with two padding characters gives one byte. -/
theorem decode_one {a b : Char} {i j : Nat} (ha : sextet a = some i) (hb : sextet b = some j) (hz : j % 16 = 0) :
    decode [a, b, '=', '='] = some [UInt8.ofNat (i * 4 + j / 16)] := by
  have hp : sextet '=' = none := by decide
  simp [decode, decodeLast, ha, hb, hp, hz]

end Rfc4648

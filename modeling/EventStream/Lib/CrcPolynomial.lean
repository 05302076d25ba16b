import EventStream.Lib.Crc
import Mathlib.Algebra.Field.ZMod
import Mathlib.RingTheory.AdjoinRoot

/-!
# Cyclic redundancy checks as remainders of polynomials

The bits of a register are the coefficients of a polynomial over the field of two elements. Modulo the generator of the
check, a shift by one bit is a multiplication by `X`, so a register that was fed a message holds a remainder.

* `toPoly`: the polynomial of a register; exclusive or is its sum (`toPoly_xor`), and a shift within the register is its
  product with a power of `X` (`toPoly_shifted`).
* `generator`: the polynomial a check divides by, with its leading term.
* `residue_shiftBit` and `residue_iterate`: what shifts do modulo the generator.
* `toPoly_feed`: the register at the end is the remainder of the message, moved up by the width of the register.
* `iterate_shiftBit_split`: several shifts at once, from what they make of the bits that fall out. A table of these
  drives a check word by word.
-/

namespace Crc

open Polynomial

variable {w k : Nat}

/-! ## Registers as polynomials -/

/-- The polynomial of a register: bit `i` is the coefficient of `X ^ i`. -/
noncomputable def toPoly (c : BitVec w) : (ZMod 2)[X] := ∑ i ∈ Finset.range w, if c.getLsbD i then X ^ i else 0

theorem coeff_toPoly (c : BitVec w) (i : Nat) : (toPoly c).coeff i = if c.getLsbD i then 1 else 0 := by
  have hterm : ∀ j, (if c.getLsbD j then (X : (ZMod 2)[X]) ^ j else 0).coeff i =
      if j = i then (if c.getLsbD i then 1 else 0) else 0 := by
    intro j
    by_cases hj : j = i
    · subst hj
      cases c.getLsbD j <;> simp
    · cases c.getLsbD j <;> simp [coeff_X_pow, hj, Ne.symm hj]
  simp only [toPoly, finsetSum_coeff, hterm, Finset.sum_ite_eq', Finset.mem_range]
  split
  · rfl
  · rename_i hi
    rw [BitVec.getLsbD_of_ge c i (by omega), if_neg Bool.false_ne_true]

theorem toPoly_zero : toPoly (0#w) = 0 := by
  ext i
  simp [coeff_toPoly]

theorem toPoly_xor (a b : BitVec w) : toPoly (a ^^^ b) = toPoly a + toPoly b := by
  ext i
  rw [coeff_add, coeff_toPoly, coeff_toPoly, coeff_toPoly, BitVec.getLsbD_xor]
  cases a.getLsbD i <;> cases b.getLsbD i <;> decide

theorem degree_toPoly_lt (c : BitVec w) : (toPoly c).degree < w := by
  rw [degree_lt_iff_coeff_zero]
  intro i hi
  rw [coeff_toPoly, BitVec.getLsbD_of_ge c i hi, if_neg Bool.false_ne_true]

/-- A word that is moved up within a register that has room for it. -/
theorem toPoly_shifted (x : BitVec k) {n : Nat} (h : k + n ≤ w) : toPoly (x.setWidth w <<< n) = X ^ n * toPoly x := by
  ext i
  rw [coeff_X_pow_mul', coeff_toPoly, coeff_toPoly, BitVec.getLsbD_shiftLeft, BitVec.getLsbD_setWidth]
  by_cases hn : n ≤ i
  · rw [if_pos hn]
    by_cases hx : i - n < k
    · simp [show i < w by omega, show ¬ i < n by omega, show i - n < w by omega]
    · simp [BitVec.getLsbD_of_ge x (i - n) (by omega)]
  · simp [hn, show i < n by omega]

/-! ## The generator -/

/-- The polynomial a check divides by: its terms below the leading one are the bits of `poly`. -/
noncomputable def generator (poly : BitVec w) : (ZMod 2)[X] := X ^ w + toPoly poly

theorem generator_monic (poly : BitVec w) : (generator poly).Monic := monic_X_pow_add (degree_toPoly_lt poly)

theorem degree_generator (poly : BitVec w) : (generator poly).degree = w := by
  have hlt : (toPoly poly).degree < ((X : (ZMod 2)[X]) ^ w).degree := by
    rw [degree_X_pow]
    exact degree_toPoly_lt poly
  rw [generator, degree_add_eq_left_of_degree_lt hlt, degree_X_pow]

/-- Polynomials up to multiples of the generator. -/
noncomputable def residue (poly : BitVec w) : (ZMod 2)[X] →+* AdjoinRoot (generator poly) :=
  AdjoinRoot.mk (generator poly)

/-- The leading term stands for the others. -/
theorem residue_X_pow (poly : BitVec w) : residue poly (X ^ w) = residue poly (toPoly poly) := by
  refine AdjoinRoot.mk_eq_mk.2 ⟨1, ?_⟩
  rw [generator, mul_one, sub_eq_add_neg, CharTwo.neg_eq]

/-- A register holds a remainder as soon as it holds its residue. -/
theorem toPoly_eq_modByMonic {poly c : BitVec w} {p : (ZMod 2)[X]} (h : residue poly (toPoly c) = residue poly p) :
    toPoly c = p %ₘ generator poly := by
  have hself : toPoly c %ₘ generator poly = toPoly c := by
    rw [modByMonic_eq_self_iff (generator_monic poly), degree_generator]
    exact degree_toPoly_lt c
  rw [← hself]
  exact modByMonic_eq_of_dvd_sub (generator_monic poly) (AdjoinRoot.mk_eq_mk.1 h)

/-! ## Shifts -/

/-- What a shift within the register loses is the highest term. -/
theorem toPoly_shiftLeft_one (c : BitVec w) (hw : 0 < w) :
    X * toPoly c = toPoly (c <<< 1) + if c.msb then X ^ w else 0 := by
  ext i
  cases i with
  | zero =>
    rw [coeff_X_mul_zero, coeff_add, coeff_toPoly]
    cases c.msb <;> simp [coeff_X_pow, show 0 ≠ w by omega]
  | succ i =>
    rw [coeff_X_mul, coeff_add, coeff_toPoly, coeff_toPoly, BitVec.getLsbD_shiftLeft, BitVec.msb_eq_getLsbD_last]
    rcases Nat.lt_trichotomy (i + 1) w with hi | hi | hi
    · cases c.getLsbD (w - 1) <;> simp [hi, coeff_X_pow, show i + 1 ≠ w by omega]
    · have hlast : w - 1 = i := by omega
      rw [hlast]
      cases c.getLsbD i <;> simp [hi]
    · have hout : c.getLsbD i = false := BitVec.getLsbD_of_ge c i (by omega)
      cases c.getLsbD (w - 1) <;> simp [hout, show ¬ i + 1 < w by omega, coeff_X_pow, show i + 1 ≠ w by omega]

theorem residue_shiftBit (poly c : BitVec w) (hw : 0 < w) :
    residue poly (toPoly (shiftBit poly c)) = residue poly X * residue poly (toPoly c) := by
  rw [← map_mul, toPoly_shiftLeft_one c hw, shiftBit_eq, toPoly_xor, map_add, map_add]
  congr 1
  cases c.msb with
  | false => simp [toPoly_zero]
  | true => simpa using (residue_X_pow poly).symm

theorem residue_iterate (poly c : BitVec w) (hw : 0 < w) (n : Nat) :
    residue poly (toPoly ((shiftBit poly)^[n] c)) = residue poly (X ^ n) * residue poly (toPoly c) := by
  induction n generalizing c with
  | zero => rw [pow_zero, map_one, one_mul, Function.iterate_zero_apply]
  | succ n ih =>
    rw [Function.iterate_succ_apply, ih, residue_shiftBit poly c hw, pow_succ, map_mul, mul_assoc]

/-! ## Messages -/

/-- The words of a message as one polynomial; its first bit is the highest coefficient. -/
noncomputable def message (words : List (BitVec k)) : (ZMod 2)[X] := words.foldl (fun p x => p * X ^ k + toPoly x) 0

/-- A word as it is added to a register: in its highest bits. -/
def aligned (w : Nat) (x : BitVec k) : BitVec w := x.setWidth w <<< (w - k)

/-- One word: it joins the message, and the register holds the residue of the longer one. -/
theorem residue_word {poly c : BitVec w} (hw : 0 < w) (hk : k ≤ w) (x : BitVec k) {p : (ZMod 2)[X]}
    (h : residue poly (toPoly c) = residue poly (p * X ^ w)) :
    residue poly (toPoly ((shiftBit poly)^[k] (c ^^^ aligned w x))) =
      residue poly ((p * X ^ k + toPoly x) * X ^ w) := by
  have hpow : (X : (ZMod 2)[X]) ^ w = X ^ k * X ^ (w - k) := by rw [← pow_add, Nat.add_sub_cancel' hk]
  rw [residue_iterate poly _ hw, toPoly_xor, map_add, h, aligned, toPoly_shifted x (by omega), ← map_add, ← map_mul]
  congr 1
  rw [hpow]
  ring

theorem residue_feed {poly : BitVec w} (hw : 0 < w) (hk : k ≤ w) (words : List (BitVec k)) {c : BitVec w}
    {p : (ZMod 2)[X]} (h : residue poly (toPoly c) = residue poly (p * X ^ w)) :
    residue poly (toPoly (feed (shiftBit poly)^[k] c (words.map (aligned w)))) =
      residue poly (words.foldl (fun p x => p * X ^ k + toPoly x) p * X ^ w) := by
  induction words generalizing c p with
  | nil => exact h
  | cons x words ih => exact ih (residue_word hw hk x h)

/-- **A check is a remainder**: that of the message, moved up by the width of the register. -/
theorem toPoly_feed (poly : BitVec w) (hw : 0 < w) (hk : k ≤ w) (words : List (BitVec k)) :
    toPoly (feed (shiftBit poly)^[k] 0#w (words.map (aligned w))) = (message words * X ^ w) %ₘ generator poly := by
  refine toPoly_eq_modByMonic (residue_feed hw hk words ?_)
  rw [toPoly_zero, zero_mul]

/-! ## Several shifts at once -/

/-- Without a bit that falls out, shifts only move. -/
theorem iterate_shiftBit_of_clear (poly : BitVec w) {n : Nat} :
    ∀ {c : BitVec w}, (∀ i, w - n ≤ i → i < w → c.getLsbD i = false) → (shiftBit poly)^[n] c = c <<< n := by
  induction n with
  | zero => intro c _; simp
  | succ n ih =>
    intro c h
    have hmsb : c.msb = false := by
      rw [BitVec.msb_eq_getLsbD_last]
      by_cases hw : 0 < w
      · exact h (w - 1) (by omega) (by omega)
      · exact BitVec.getLsbD_of_ge c _ (by omega)
    have hstep : shiftBit poly c = c <<< 1 := by rw [shiftBit, hmsb, if_neg Bool.false_ne_true]
    rw [Function.iterate_succ_apply, hstep, ih, ← BitVec.shiftLeft_add, Nat.add_comm]
    intro i hi hiw
    rw [BitVec.getLsbD_shiftLeft]
    by_cases h0 : i < 1
    · simp [h0]
    · rw [h (i - 1) (by omega) (by omega), Bool.and_false]

/-- The highest bits of a register, at their places. -/
def highest (n : Nat) (c : BitVec w) : BitVec w := (c >>> (w - n)) <<< (w - n)

theorem getLsbD_highest (n : Nat) (c : BitVec w) (i : Nat) :
    (highest n c).getLsbD i = (decide (w - n ≤ i) && c.getLsbD i) := by
  rw [highest, BitVec.getLsbD_shiftLeft, BitVec.getLsbD_ushiftRight]
  by_cases hi : w - n ≤ i
  · by_cases hw : i < w
    · simp [hi, hw, show ¬ i < w - n by omega, show w - n + (i - (w - n)) = i by omega]
    · simp [hw, BitVec.getLsbD_of_ge c i (by omega)]
  · simp [hi, show i < w - n by omega]

/-- Several shifts: the register moves, and the bits that fall out add what the shifts make of them alone. -/
theorem iterate_shiftBit_split (poly c : BitVec w) (n : Nat) :
    (shiftBit poly)^[n] c = c <<< n ^^^ (shiftBit poly)^[n] (highest n c) := by
  have hrest : ∀ i, w - n ≤ i → i < w → (c ^^^ highest n c).getLsbD i = false := by
    intro i hi _
    simp [getLsbD_highest, hi]
  have hmoved : (c ^^^ highest n c) <<< n = c <<< n := by
    apply BitVec.eq_of_getLsbD_eq
    intro i hi
    simp only [BitVec.getLsbD_shiftLeft, BitVec.getLsbD_xor, getLsbD_highest]
    by_cases hn : i < n
    · simp [hn]
    · simp [hi, hn, show ¬ w - n ≤ i - n by omega]
  have hsum : c = (c ^^^ highest n c) ^^^ highest n c := by
    rw [BitVec.xor_assoc, BitVec.xor_self, BitVec.xor_zero]
  calc (shiftBit poly)^[n] c
      = (shiftBit poly)^[n] (c ^^^ highest n c) ^^^ (shiftBit poly)^[n] (highest n c) := by
        rw [← (shiftBit_linear poly).iterate n, ← hsum]
    _ = c <<< n ^^^ (shiftBit poly)^[n] (highest n c) := by rw [iterate_shiftBit_of_clear poly hrest, hmoved]

end Crc

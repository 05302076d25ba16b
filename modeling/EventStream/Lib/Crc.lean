import Mathlib.Data.BitVec
import Mathlib.Logic.Function.Iterate

/-!
# Cyclic redundancy checks: shift registers over exclusive or

A register is fed a list of words: each is added to it by exclusive or, and the result goes through a map.

* `Linear f`: the map `f` distributes over exclusive or; so do its iterates (`Linear.iterate`).
* `feed_xor`: for a linear map, what a register holds at the start contributes to the end by itself, through as many
  iterates as there are words.
* `shiftBit`: the one-bit step of a check with a generator polynomial. It is linear, and injective when the polynomial
  has a constant term.
-/

namespace Crc

variable {w : Nat}

/-! ## Linear maps -/

/-- A map that distributes over exclusive or. -/
def Linear (f : BitVec w → BitVec w) : Prop := ∀ a b, f (a ^^^ b) = f a ^^^ f b

namespace Linear

variable {f : BitVec w → BitVec w}

theorem iterate (h : Linear f) (n : Nat) : Linear f^[n] := by
  induction n with
  | zero =>
    intro a b
    rfl
  | succ n ih =>
    intro a b
    rw [Function.iterate_succ_apply, h, ih, ← Function.iterate_succ_apply, ← Function.iterate_succ_apply]

theorem map_zero (h : Linear f) : f 0#w = 0#w := by
  have h₀ := h 0#w 0#w
  rwa [BitVec.xor_self, BitVec.xor_self] at h₀

end Linear

/-! ## Feeding a register -/

/-- What a register holds after a list of words. -/
def feed (f : BitVec w → BitVec w) (c : BitVec w) (words : List (BitVec w)) : BitVec w :=
  words.foldl (fun c x => f (c ^^^ x)) c

theorem feed_append (f : BitVec w → BitVec w) (c : BitVec w) (xs ys : List (BitVec w)) :
    feed f c (xs ++ ys) = feed f (feed f c xs) ys :=
  List.foldl_append

/-- The content at the start and the words contribute by themselves. -/
theorem feed_xor {f : BitVec w → BitVec w} (h : Linear f) (c d : BitVec w) (words : List (BitVec w)) :
    feed f (c ^^^ d) words = feed f c words ^^^ f^[words.length] d := by
  induction words generalizing c d with
  | nil => rfl
  | cons x words ih =>
    have hx : f (c ^^^ d ^^^ x) = f (c ^^^ x) ^^^ f d := by
      rw [BitVec.xor_assoc, BitVec.xor_comm d x, ← BitVec.xor_assoc, h]
    show feed f (f (c ^^^ d ^^^ x)) words = feed f (f (c ^^^ x)) words ^^^ f^[words.length + 1] d
    rw [hx, ih, Function.iterate_succ_apply]

/-! ## The one-bit step -/

/-- Shift by one bit, and reduce by the polynomial if a bit falls out. -/
def shiftBit (poly c : BitVec w) : BitVec w := if c.msb then c <<< 1 ^^^ poly else c <<< 1

/-- The reduction of a bit that falls out. -/
theorem shiftBit_eq (poly c : BitVec w) : shiftBit poly c = c <<< 1 ^^^ (if c.msb then poly else 0#w) := by
  unfold shiftBit
  split
  · rfl
  · rw [BitVec.xor_zero]

theorem shiftBit_linear (poly : BitVec w) : Linear (shiftBit poly) := by
  intro a b
  have hbit : (if (a ^^^ b).msb then poly else 0#w) =
      (if a.msb then poly else 0#w) ^^^ (if b.msb then poly else 0#w) := by
    rw [BitVec.msb_xor]
    cases a.msb <;> cases b.msb <;> simp
  rw [shiftBit_eq, shiftBit_eq, shiftBit_eq, hbit, BitVec.shiftLeft_xor_distrib]
  ac_rfl

/-- With a constant term in the polynomial, only zero is sent to zero. -/
theorem shiftBit_eq_zero {poly c : BitVec w} (hpoly : poly.getLsbD 0 = true) (h : shiftBit poly c = 0#w) : c = 0#w := by
  -- the lowest bit of the result tells whether the polynomial was added
  have hmsb : c.msb = false := by
    cases hm : c.msb with
    | false => rfl
    | true =>
      have hbit := congrArg (fun x => x.getLsbD 0) h
      simp [shiftBit, hm, hpoly] at hbit
  rw [shiftBit, hmsb, if_neg Bool.false_ne_true] at h
  apply BitVec.eq_of_getLsbD_eq
  intro i hi
  rw [BitVec.getLsbD_zero]
  by_cases hlast : i + 1 = w
  · rw [BitVec.msb_eq_getLsbD_last] at hmsb
    rwa [show i = w - 1 by omega]
  · have hbit := congrArg (fun x => x.getLsbD (i + 1)) h
    rw [BitVec.getLsbD_eq_getElem hi]
    simpa [show i + 1 < w by omega] using hbit

theorem shiftBit_injective {poly : BitVec w} (hpoly : poly.getLsbD 0 = true) : Function.Injective (shiftBit poly) := by
  intro a b h
  have hz : shiftBit poly (a ^^^ b) = 0#w := by rw [shiftBit_linear poly, h, BitVec.xor_self]
  exact BitVec.xor_eq_zero_iff.1 (shiftBit_eq_zero hpoly hz)

end Crc

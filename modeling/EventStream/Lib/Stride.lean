import Mathlib.Data.List.Iterate
import Mathlib.Data.List.Nodup
import Mathlib.Data.List.Perm.Subperm
import Mathlib.Data.List.Range
import Mathlib.Data.Nat.GCD.Basic
import Mathlib.Data.Nat.ModEq

/-!
# Walks with a fixed stride

Adding the same number again and again modulo `n`. If the stride has no divisor in common with `n`, the walk comes to
every residue once before it repeats.

- `walk_eq_map`: the positions of a walk;
- `nodup_walk` and `mem_walk`: a walk of `n` steps visits every residue exactly once.
-/

namespace Stride

variable {n a : Nat}

/-- One step of the walk. -/
def next (n a s : Nat) : Nat := (s + a) % n

/-- The first positions of the walk from a start. -/
def walk (n a s k : Nat) : List Nat := List.iterate (next n a) s k

theorem walk_succ (n a s k : Nat) : walk n a s (k + 1) = s :: walk n a (next n a s) k := rfl

theorem iterate_next (s k : Nat) (hs : s < n) : (next n a)^[k] s = (s + k * a) % n := by
  induction k with
  | zero => rw [Function.iterate_zero, id, Nat.zero_mul, Nat.add_zero, Nat.mod_eq_of_lt hs]
  | succ k ih =>
    rw [Function.iterate_succ_apply', ih, next, Nat.mod_add_mod]
    rw [Nat.succ_mul, Nat.add_assoc]

theorem walk_eq_map (s k : Nat) (hs : s < n) : walk n a s k = (List.range k).map fun i => (s + i * a) % n := by
  rw [walk, ← List.range_map_iterate]
  apply List.map_congr_left
  intro i _
  exact iterate_next s i hs

/-- Two steps of the first `n` do not lead to the same place. -/
theorem nodup_walk (ha : Nat.Coprime n a) {s : Nat} (hs : s < n) : (walk n a s n).Nodup := by
  rw [walk_eq_map s n hs]
  refine List.Nodup.map_on ?_ List.nodup_range
  intro i hi j hj heq
  rw [List.mem_range] at hi hj
  have hmul : i * a ≡ j * a [MOD n] := Nat.ModEq.add_left_cancel' s heq
  have hij : i ≡ j [MOD n] := hmul.cancel_right_of_coprime ha
  rwa [Nat.ModEq, Nat.mod_eq_of_lt hi, Nat.mod_eq_of_lt hj] at hij

theorem mem_walk (ha : Nat.Coprime n a) {s : Nat} (hs : s < n) (x : Nat) : x ∈ walk n a s n ↔ x < n := by
  have hsub : walk n a s n ⊆ List.range n := by
    intro y hy
    rw [walk_eq_map s n hs] at hy
    obtain ⟨i, -, rfl⟩ := List.mem_map.1 hy
    exact List.mem_range.2 (Nat.mod_lt _ (by omega))
  have hlength : (walk n a s n).length = (List.range n).length := by rw [walk, List.length_iterate, List.length_range]
  have hperm : (walk n a s n).Perm (List.range n) :=
    (List.subperm_of_subset (nodup_walk ha hs) hsub).perm_of_length_le hlength.ge
  rw [hperm.mem_iff, List.mem_range]

end Stride

import Mathlib.Data.List.Perm.Basic
import Mathlib.Data.List.Sort
import Mathlib.Data.List.TakeWhile

/-!
# Lists in ascending order of a key

Queues whose entries carry strictly increasing numbers.

- `Ascending.split`: if such a list is a permutation of `a ++ b`, and `a` is ascending and below `b`, it starts with
  `a`;
- `Ascending.takeWhile_lt`, `Ascending.dropWhile_le`: the part below a bound, and the part that is not;
- `Ascending.sublist_of_subset`: of two such lists, one whose entries the other has is a part of it;
- `Ascending.of_range`: a list numbered from zero on is ascending.
-/

/-- The keys strictly increase along the list. -/
def Ascending {α : Type*} (key : α → Nat) (l : List α) : Prop := l.Pairwise fun a b => key a < key b

namespace Ascending

variable {α : Type*} {key : α → Nat} {l a b : List α}

theorem nil : Ascending key [] := List.Pairwise.nil

theorem sublist (h : Ascending key l) (hs : List.Sublist a l) : Ascending key a := List.Pairwise.sublist hs h

theorem nodup (h : Ascending key l) : l.Nodup := List.Pairwise.imp (fun hlt e => by rw [e] at hlt; omega) h

/-- A key determines its entry. -/
theorem eq_of_key (h : Ascending key l) {x y : α} (hx : x ∈ l) (hy : y ∈ l) (hk : key x = key y) : x = y := by
  by_contra hne
  have := List.Pairwise.forall_of_forall_of_flip (R := fun a b => a ≠ b → key a ≠ key b) (fun _ _ e => absurd rfl e)
    (List.Pairwise.imp (fun hlt _ => by omega) h) (List.Pairwise.imp (fun hlt _ => by omega) h) hx hy
  exact this hne hk

/-- Of two such lists, one whose entries the other has is a part of it. -/
theorem sublist_of_subset (ha : Ascending key a) (hl : Ascending key l) (hs : a ⊆ l) : List.Sublist a l := by
  have : Std.Antisymm fun x y : α => key x < key y := ⟨fun x y hxy hyx => absurd hxy (Nat.lt_asymm hyx)⟩
  exact List.sublist_of_subperm_of_pairwise (List.subperm_of_subset ha.nodup hs) ha hl

theorem append_iff : Ascending key (a ++ b) ↔
    Ascending key a ∧ Ascending key b ∧ ∀ x ∈ a, ∀ y ∈ b, key x < key y :=
  List.pairwise_append

/-- Appending an entry whose key is new and larger. -/
theorem concat (h : Ascending key l) {x : α} (hx : ∀ y ∈ l, key y < key x) : Ascending key (l ++ [x]) :=
  append_iff.2 ⟨h, List.pairwise_singleton _ _, fun y hy z hz => by
    obtain rfl := List.mem_singleton.1 hz
    exact hx y hy⟩

theorem split (hl : Ascending key l) (hp : l.Perm (a ++ b)) (ha : Ascending key a)
    (hab : ∀ x ∈ a, ∀ y ∈ b, key x < key y) : ∃ b', l = a ++ b' ∧ b'.Perm b := by
  induction a generalizing l with
  | nil => exact ⟨l, rfl, hp⟩
  | cons x a ih =>
    obtain ⟨hxa, ha'⟩ := List.pairwise_cons.1 ha
    -- the entry that comes first in `l` has the least key, and so has `x`
    cases l with
    | nil => exact absurd hp.symm.eq_nil (by simp)
    | cons y l =>
      obtain ⟨hy, hl'⟩ := List.pairwise_cons.1 hl
      have hyx : y = x := by
        by_contra hne
        have hx : x ∈ l := (List.mem_cons.1 (hp.symm.subset (List.mem_cons_self ..))).resolve_left (Ne.symm hne)
        have hya : y ∈ a ++ b := (List.mem_cons.1 (hp.subset (List.mem_cons_self ..))).resolve_left hne
        have hlt := hy x hx
        rcases List.mem_append.1 hya with h | h
        · exact absurd (hxa y h) (by omega)
        · exact absurd (hab x (List.mem_cons_self ..) y h) (by omega)
      subst hyx
      obtain ⟨b', e, hb'⟩ := ih hl' hp.cons_inv ha' fun z hz => hab z (List.mem_cons_of_mem _ hz)
      exact ⟨b', by rw [e]; rfl, hb'⟩

/-- Entries whose keys count up from zero. -/
theorem of_range (h : l.map key = List.range l.length) : Ascending key l := by
  have hp : (l.map key).Pairwise (· < ·) := h ▸ List.pairwise_lt_range
  exact List.pairwise_map.1 hp

theorem dropWhile_le (h : Ascending key l) {i : Nat} {x : α} (hx : x ∈ l.dropWhile fun y => key y < i) : i ≤ key x := by
  induction l with
  | nil => simp at hx
  | cons y l ih =>
    obtain ⟨hy, hl⟩ := List.pairwise_cons.1 h
    by_cases hlt : key y < i
    · rw [List.dropWhile_cons_of_pos (by simpa using hlt)] at hx
      exact ih hl hx
    · rw [List.dropWhile_cons_of_neg (by simpa using hlt)] at hx
      rcases List.mem_cons.1 hx with rfl | hx
      · omega
      · have := hy x hx
        omega

theorem takeWhile_lt {i : Nat} {x : α} (hx : x ∈ l.takeWhile fun y => key y < i) : key x < i := by
  simpa using List.mem_takeWhile_imp hx

end Ascending

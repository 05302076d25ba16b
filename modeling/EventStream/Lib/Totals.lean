import Mathlib.Data.List.AList
import Mathlib.Algebra.Order.BigOperators.Group.List
import Mathlib.Algebra.Order.Ring.Nat

/-!
# Totals over a keyed table

A table is a Mathlib association list (its keys are distinct). `total f s` adds up `f` over the records of `s`; counting
the records with a property is the case of a zero-one `f`.

* `total_insert`: writing one record changes a total by that record's own share, and by nothing else.
* `total_le_one`: at most one record has a share when only one key may have one.
-/

namespace Totals

variable {κ ν : Type}

/-- The sum of `f` over the records of a table. -/
def total (f : κ → ν → Nat) (s : AList fun _ : κ => ν) : Nat := (s.entries.map fun p => f p.1 p.2).sum

@[simp] theorem total_empty (f : κ → ν → Nat) : total f (∅ : AList fun _ : κ => ν) = 0 := rfl

/-- Writing a record takes away the share of the record that stood there and adds the share of the new one. -/
theorem total_insert [DecidableEq κ] (f : κ → ν → Nat) (a : κ) (b : ν) (s : AList fun _ : κ => ν) :
    total f (s.insert a b) + (s.lookup a).elim 0 (f a) = total f s + f a b := by
  by_cases h : a ∈ s
  · obtain ⟨b₀, l₁, l₂, hn, hs, hk⟩ := List.exists_of_kerase (AList.mem_keys.1 h)
    have hl : s.lookup a = some b₀ := by
      rw [AList.lookup, hs, List.dlookup_append, List.dlookup_eq_none.2 hn]
      simp
    rw [hl, total, AList.entries_insert, hk, total, hs]
    simp only [List.map_cons, List.map_append, List.sum_cons, List.sum_append, Option.elim_some]
    omega
  · rw [AList.lookup_eq_none.2 h, total, AList.entries_insert_of_notMem h, total]
    simp only [List.map_cons, List.sum_cons, Option.elim_none]
    omega

/-- Smaller shares, smaller total. -/
theorem total_le_total {f g : κ → ν → Nat} (h : ∀ k v, f k v ≤ g k v) (s : AList fun _ : κ => ν) :
    total f s ≤ total g s :=
  List.sum_le_sum fun p _ => h p.1 p.2

theorem total_add (f g : κ → ν → Nat) (s : AList fun _ : κ => ν) :
    total (fun k v => f k v + g k v) s = total f s + total g s :=
  List.sum_map_add

/-- A list without the one key that has a share. -/
theorem sum_eq_zero {f : κ → ν → Nat} {a : κ} {l : List (Sigma fun _ : κ => ν)}
    (ha : ∀ p ∈ l, f p.1 p.2 ≠ 0 → p.1 = a) (h : a ∉ l.keys) : (l.map fun p => f p.1 p.2).sum = 0 := by
  refine List.sum_eq_zero fun n hn => ?_
  obtain ⟨p, hp, rfl⟩ := List.mem_map.1 hn
  by_contra hf
  exact h (ha p hp hf ▸ List.mem_keys_of_mem hp)

/-- If only the record at one key has a share, and that share is at most one, so is the total. -/
theorem total_le_one [DecidableEq κ] {f : κ → ν → Nat} {a : κ} (h : ∀ k v, f k v ≤ 1) {s : AList fun _ : κ => ν}
    (ha : ∀ p ∈ s.entries, f p.1 p.2 ≠ 0 → p.1 = a) : total f s ≤ 1 := by
  by_cases hm : a ∈ s
  · obtain ⟨b, l₁, l₂, hn, hs, _⟩ := List.exists_of_kerase (AList.mem_keys.1 hm)
    have hnd := s.nodupKeys
    have hn₂ : a ∉ l₂.keys := by
      rw [hs, List.NodupKeys, List.keys, List.map_append, List.map_cons] at hnd
      exact (List.nodup_cons.1 (List.nodup_append.1 hnd).2.1).1
    rw [hs] at ha
    have h₁ := sum_eq_zero (fun p hp => ha p (List.mem_append_left _ hp)) hn
    have h₂ := sum_eq_zero (fun p hp => ha p (List.mem_append_right _ (List.mem_cons_of_mem _ hp))) hn₂
    rw [total, hs, List.map_append, List.map_cons, List.sum_append, List.sum_cons, h₁, h₂]
    have hb : f a b ≤ 1 := h a b
    simpa using hb
  · rw [total, sum_eq_zero ha (fun hk => hm (AList.mem_keys.2 hk))]
    exact Nat.zero_le 1

/-- Counting with a zero-one share. -/
theorem total_eq_length (p : κ → ν → Bool) (s : AList fun _ : κ => ν) :
    total (fun k v => if p k v then 1 else 0) s = (s.entries.filter fun r => p r.1 r.2).length := by
  unfold total
  induction s.entries with
  | nil => rfl
  | cons r l ih =>
    rw [List.map_cons, List.sum_cons, ih, List.filter_cons]
    by_cases h : p r.1 r.2 = true
    · simp only [h, if_true, List.length_cons]
      omega
    · simp [h]

end Totals

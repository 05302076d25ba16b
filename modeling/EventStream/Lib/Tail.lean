import Mathlib.Data.List.Sort

/-!
# Reading append-only logs

A log is a list whose keys strictly increase; it grows at its end. A reader keeps a cursor, the key of the last entry it
has seen, and reads the first entries after it. Batches from several logs are merged by a stable sort.

- `between`: the entries after one key, up to another; `next`: the first entries after a key; `advance`: where a reader
  stands after reading them;
- `between_append_next`: reading on extends what was read to the new cursor, with no gap and no repetition;
- `exists_eq_append_between`: such a stretch is a contiguous part of the log;
- `between_concat`: an entry appended behind the cursor changes nothing of what was read;
- `Increasing.eq_of_key`: an entry is known by its key; `le_of_next_eq_nil`: a reader that reads nothing is at the end;
- `filter_insertionSort`: a stable sort keeps the order of a part that is sorted already.
-/

namespace Tail

variable {α κ : Type*} [LinearOrder κ] (key : α → κ)

/-- The keys strictly increase along the log. -/
def Increasing (log : List α) : Prop := log.Pairwise fun a b => key a < key b

/-- The entries after one key, up to another. -/
def between (log : List α) (a c : κ) : List α := log.filter fun e => a < key e ∧ key e ≤ c

/-- The first entries after a key. -/
def next (log : List α) (c : κ) (n : Nat) : List α := (log.filter fun e => c < key e).take n

/-- Where a reader stands after some entries. -/
def advance (c : κ) (items : List α) : κ := (items.getLast?.map key).getD c

variable {key} {log : List α} {a c : κ}

theorem increasing_between (h : Increasing key log) : Increasing key (between key log a c) := h.filter _

/-- A log falls into what is up to a key and what is after it. -/
theorem split (h : Increasing key log) (c : κ) :
    log = (log.filter fun e => key e ≤ c) ++ log.filter fun e => c < key e := by
  induction log with
  | nil => rfl
  | cons e log ih =>
    obtain ⟨he, hl⟩ := List.pairwise_cons.1 h
    by_cases hc : key e ≤ c
    · rw [List.filter_cons_of_pos (by simpa using hc), List.filter_cons_of_neg (by simpa using hc), List.cons_append,
        ← ih hl]
    · -- nothing after `e` is up to the key either
      have hnone : (log.filter fun e => key e ≤ c) = [] := by
        rw [List.filter_eq_nil_iff]
        intro x hx
        have hlt := he x hx
        simp only [decide_eq_true_eq]
        exact fun hxc => hc (hlt.le.trans hxc)
      have hall : (log.filter fun e => c < key e) = log := by
        have hi := ih hl
        rw [hnone, List.nil_append] at hi
        exact hi.symm
      rw [List.filter_cons_of_neg (by simpa using hc), List.filter_cons_of_pos (by simpa using hc), hnone, hall,
        List.nil_append]

theorem le_advance {items : List α} (h : ∀ e ∈ items, c < key e) : c ≤ advance key c items := by
  unfold advance
  cases hl : items.getLast? with
  | none => simp
  | some e =>
    have he := h e (List.mem_of_getLast? hl)
    simpa using he.le

theorem mem_next {n : Nat} {e : α} (h : e ∈ next key log c n) : e ∈ log ∧ c < key e := by
  have hf := List.mem_of_mem_take h
  rw [List.mem_filter] at hf
  exact ⟨hf.1, by simpa using hf.2⟩

/-- The entries read are up to the new cursor. -/
theorem le_advance_of_mem {items : List α} (h : Increasing key items) {e : α} (he : e ∈ items) :
    key e ≤ advance key c items := by
  rcases List.eq_nil_or_concat items with rfl | ⟨front, x, rfl⟩
  · simp at he
  · rw [List.concat_eq_append] at he h ⊢
    have hadv : advance key c (front ++ [x]) = key x := by simp [advance]
    rw [hadv]
    rcases List.mem_append.1 he with he | he
    · exact ((List.pairwise_append.1 h).2.2 e he x (by simp)).le
    · rw [List.mem_singleton.1 he]

/-- The cursor stands at an entry of the log, unless nothing was read. -/
theorem advance_mem (n : Nat) :
    advance key c (next key log c n) = c ∨ ∃ e ∈ log, key e = advance key c (next key log c n) := by
  cases hl : (next key log c n).getLast? with
  | none => exact Or.inl (by simp [advance, hl])
  | some e => exact Or.inr ⟨e, (mem_next (List.mem_of_getLast? hl)).1, by simp [advance, hl]⟩

theorem between_append (l l' : List α) : between key (l ++ l') a c = between key l a c ++ between key l' a c :=
  List.filter_append l l'

theorem between_eq_nil {d : κ} (h : ∀ e ∈ log, a < key e → d < key e) : between key log a d = [] := by
  rw [between, List.filter_eq_nil_iff]
  intro e he
  simp only [decide_eq_true_eq, not_and, not_le]
  exact h e he

/-- Two stretches that meet are one. -/
theorem between_append_between (h : Increasing key log) {d : κ} (hac : a ≤ c) (hcd : c ≤ d) :
    between key log a c ++ between key log c d = between key log a d := by
  have hcut : ∀ x y, between key log x y = between key (log.filter fun e => key e ≤ c) x y ++
      between key (log.filter fun e => c < key e) x y := fun x y => by
    conv_lhs => rw [split h c]
    exact between_append _ _
  have hlow : ∀ e ∈ log.filter fun e => key e ≤ c, key e ≤ c := fun e he => by simpa using (List.mem_filter.1 he).2
  have hhigh : ∀ e ∈ log.filter fun e => c < key e, c < key e := fun e he => by simpa using (List.mem_filter.1 he).2
  generalize (log.filter fun e => key e ≤ c) = low at hcut hlow
  generalize (log.filter fun e => c < key e) = high at hcut hhigh
  have h₁ : between key high a c = [] := between_eq_nil fun e he _ => hhigh e he
  have h₂ : between key low c d = [] := between_eq_nil fun e he hc => absurd (hlow e he) (not_le.2 hc)
  have h₃ : between key low a c = between key low a d := List.filter_congr fun e he => by
    simp [hlow e he, (hlow e he).trans hcd]
  have h₄ : between key high c d = between key high a d := List.filter_congr fun e he => by
    simp [hhigh e he, hac.trans_lt (hhigh e he)]
  rw [hcut a c, hcut c d, hcut a d, h₁, h₂, h₃, h₄, List.append_nil, List.nil_append]

/-- A stretch is a contiguous part of the log. -/
theorem exists_eq_append_between (h : Increasing key log) (hac : a ≤ c) :
    ∃ old new, log = old ++ between key log a c ++ new ∧ (∀ e ∈ old, key e ≤ a) ∧ ∀ e ∈ new, c < key e := by
  refine ⟨log.filter fun e => key e ≤ a, log.filter fun e => c < key e, ?_, ?_, ?_⟩
  · have hlow : (log.filter fun e => key e ≤ c) = (log.filter fun e => key e ≤ a) ++ between key log a c := by
      have hparts := split (h.filter fun e => key e ≤ c) a
      rw [List.filter_filter, List.filter_filter] at hparts
      rw [hparts, between]
      congr 1
      · refine List.filter_congr fun e _ => ?_
        by_cases he : key e ≤ a
        · simp [he, he.trans hac]
        · simp [he]
      · exact List.filter_congr fun e _ => by simp
    rw [← hlow]
    exact split h c
  · intro e he
    simpa using (List.mem_filter.1 he).2
  · intro e he
    simpa using (List.mem_filter.1 he).2

/-- What is read next is what stands up to the new cursor. -/
theorem next_eq_between (h : Increasing key log) (n : Nat) :
    next key log c n = between key log c (advance key c (next key log c n)) := by
  have hafter : ∀ d, between key log c d = between key (log.filter fun e => c < key e) c d := fun d => by
    rw [between, between, List.filter_filter]
    refine List.filter_congr fun e _ => ?_
    by_cases hc : c < key e <;> simp [hc]
  have hhigh : ∀ e ∈ log.filter fun e => c < key e, c < key e := fun e he => by simpa using (List.mem_filter.1 he).2
  have hinc : Increasing key (log.filter fun e => c < key e) := h.filter _
  rw [hafter, next]
  generalize (log.filter fun e => c < key e) = high at hhigh hinc
  rw [← List.take_append_drop n high] at hinc hhigh
  obtain ⟨hread, _, hleft⟩ := List.pairwise_append.1 hinc
  have hnew : ∀ e ∈ high.take n, c < key e := fun e he => hhigh e (List.mem_append_left _ he)
  conv_rhs => rw [← List.take_append_drop n high]
  rw [between_append, List.take_append_drop]
  have hgone : between key (high.drop n) c (advance key c (high.take n)) = [] := by
    refine between_eq_nil fun e he hc => ?_
    cases hl : (high.take n).getLast? with
    | none => simpa [advance, hl] using hc
    | some x => simpa [advance, hl] using hleft x (List.mem_of_getLast? hl) e he
  have hall : between key (high.take n) c (advance key c (high.take n)) = high.take n := by
    rw [between, List.filter_eq_self]
    intro e he
    simpa using ⟨hnew e he, le_advance_of_mem hread he⟩
  rw [hgone, hall, List.append_nil]

/-- Reading on extends what was read up to the new cursor. -/
theorem between_append_next (h : Increasing key log) (hac : a ≤ c) (n : Nat) :
    between key log a c ++ next key log c n = between key log a (advance key c (next key log c n)) := by
  have hle : c ≤ advance key c (next key log c n) := le_advance fun e he => (mem_next he).2
  calc between key log a c ++ next key log c n
      = between key log a c ++ between key log c (advance key c (next key log c n)) := by rw [← next_eq_between h]
    _ = between key log a (advance key c (next key log c n)) := between_append_between h hac hle

/-- An entry appended behind the cursor changes nothing of what was read. -/
theorem between_concat {e : α} (hc : c < key e) : between key (log ++ [e]) a c = between key log a c := by
  have he : between key [e] a c = [] := between_eq_nil fun x hx _ => by rwa [List.mem_singleton.1 hx]
  rw [between_append, he, List.append_nil]

/-- Nothing stands between a key and itself. -/
theorem between_self : between key log a a = [] := between_eq_nil fun _ _ h => h

theorem increasing_concat (h : Increasing key log) {e : α} (he : ∀ x ∈ log, key x < key e) :
    Increasing key (log ++ [e]) :=
  List.pairwise_append.2 ⟨h, List.pairwise_singleton _ _, fun x hx y hy => by
    rw [List.mem_singleton.1 hy]
    exact he x hx⟩

/-- An entry is known by its key. -/
theorem Increasing.eq_of_key (h : Increasing key log) {x y : α} (hx : x ∈ log) (hy : y ∈ log) (heq : key x = key y) :
    x = y := by
  induction log with
  | nil => cases hx
  | cons e log ih =>
    obtain ⟨hfirst, hrest⟩ := List.pairwise_cons.1 h
    rcases List.mem_cons.1 hx with hx | hx <;> rcases List.mem_cons.1 hy with hy | hy
    · rw [hx, hy]
    · rw [hx] at heq
      exact absurd heq (hfirst y hy).ne
    · rw [hy] at heq
      exact absurd heq (hfirst x hx).ne'
    · exact ih hrest hx hy

/-- A read that may return entries and returns none is at the end of the log. -/
theorem le_of_next_eq_nil {n : Nat} (hn : n ≠ 0) (h : next key log c n = []) {e : α} (he : e ∈ log) : key e ≤ c := by
  rw [next, List.take_eq_nil_iff] at h
  have hnone := List.filter_eq_nil_iff.1 (h.resolve_left hn) e he
  rwa [decide_eq_true_eq, not_lt] at hnone

/-- A stable sort keeps the order of a part that is sorted already. -/
theorem filter_insertionSort {r : α → α → Prop} [DecidableRel r] (p : α → Bool) {l : List α}
    (h : (l.filter p).Pairwise r) : (l.insertionSort r).filter p = l.filter p := by
  have hsub : (l.filter p).Sublist (l.insertionSort r) := List.sublist_insertionSort h List.filter_sublist
  have hpart : (l.filter p).Sublist ((l.insertionSort r).filter p) := by
    have := hsub.filter p
    rwa [List.filter_filter, show (fun a => p a && p a) = p by simp] at this
  have hlen : ((l.insertionSort r).filter p).length = (l.filter p).length :=
    ((List.perm_insertionSort r l).filter p).length_eq
  exact (hpart.eq_of_length hlen.symm).symm

end Tail

import Mathlib.Data.List.Infix

/-!
# Wildcard patterns

A pattern is a list of tokens: a star stands for any run of symbols, and every other token for one symbol of a set.

- `accepts`: the plain matcher, which tries every suffix after a star;
- `accepts_star`: a star accepts what has a suffix that the rest accepts;
- `accepts_literal_star`: a text with a star behind it accepts what begins with the text;
- `accepts_replicate_star` and `starDepth_replicate_star`: a run of stars is one star;
- `Hopeless`: no suffix is accepted, which passes from the tokens after a star to those before it (`Hopeless.one`,
  `Hopeless.star`), since every other token takes one symbol. A search that has failed in this way may give up.
-/

namespace Glob

inductive Token (α : Type*)
  | star
  | one (has : α → Bool)

variable {α : Type*} {ts : List (Token α)} {s t : List α} {c : α} {has : α → Bool}

/-- The plain matcher. -/
def accepts : List (Token α) → List α → Bool
  | [], s => s.isEmpty
  | .star :: ts, s => s.tails.any (accepts ts)
  | .one _ :: _, [] => false
  | .one has :: ts, c :: s => has c && accepts ts s

/-- The number of maximal runs of stars. -/
def starRuns : List (Token α) → Nat
  | [] => 0
  | .one _ :: ts => starRuns ts
  | .star :: .star :: ts => starRuns (.star :: ts)
  | .star :: ts => starRuns ts + 1

/-- The number of maximal runs of stars that another token follows: the searches that a match may need within each
other. -/
def starDepth : List (Token α) → Nat
  | [] => 0
  | .star :: .one _ :: ts => starDepth ts + 1
  | _ :: ts => starDepth ts

@[simp] theorem accepts_nil : accepts ([] : List (Token α)) s = s.isEmpty := rfl

@[simp] theorem accepts_one_nil : accepts (.one has :: ts) [] = false := rfl

@[simp] theorem accepts_one_cons : accepts (.one has :: ts) (c :: s) = (has c && accepts ts s) := rfl

theorem accepts_star : accepts (.star :: ts) s = true ↔ ∃ t, t <:+ s ∧ accepts ts t = true := by
  simp only [accepts, List.any_eq_true, List.mem_tails]

theorem accepts_star_nil : accepts (.star :: ts) [] = accepts ts [] := by
  simp [accepts]

theorem accepts_star_cons : accepts (.star :: ts) (c :: s) = (accepts ts (c :: s) || accepts (.star :: ts) s) := by
  simp [accepts]

/-- Symbols that stand for themselves, and a star: the strings that begin with the symbols. -/
theorem accepts_literal_star [DecidableEq α] (p : List α) :
    accepts (p.map (fun a => .one fun c => a = c) ++ [.star]) s = true ↔ p <+: s := by
  induction p generalizing s with
  | nil => exact ⟨fun _ => List.nil_prefix, fun _ => accepts_star.2 ⟨[], List.nil_suffix, rfl⟩⟩
  | cons a p ih =>
    cases s with
    | nil => simp
    | cons c s =>
      rw [List.map_cons, List.cons_append, accepts_one_cons, Bool.and_eq_true, decide_eq_true_eq, ih,
        List.cons_prefix_cons]

/-! ## Runs of stars -/

theorem accepts_star_star : accepts (.star :: .star :: ts) s = accepts (.star :: ts) s := by
  rw [Bool.eq_iff_iff, accepts_star]
  constructor
  · rintro ⟨t, hts, ht⟩
    obtain ⟨u, hut, hu⟩ := accepts_star.1 ht
    exact accepts_star.2 ⟨u, hut.trans hts, hu⟩
  · intro h
    exact ⟨s, List.suffix_rfl, h⟩

theorem accepts_replicate_star (k : Nat) :
    accepts (List.replicate (k + 1) .star ++ ts) s = accepts (.star :: ts) s := by
  induction k with
  | zero => rfl
  | succ k ih =>
    rw [← ih]
    simp only [List.replicate_succ, List.cons_append, accepts_star_star]

/-- At the end of the string only stars may be left. -/
theorem accepts_replicate_star_nil (k : Nat) : accepts (List.replicate k .star ++ ts) [] = accepts ts [] := by
  induction k with
  | zero => rfl
  | succ k ih => rw [List.replicate_succ, List.cons_append, accepts_star_nil, ih]

theorem starDepth_one : starDepth (.one has :: ts) = starDepth ts := rfl

theorem starDepth_replicate_star (k : Nat) :
    starDepth (List.replicate (k + 1) .star ++ .one has :: ts) = starDepth ts + 1 := by
  induction k with
  | zero => rfl
  | succ k ih => exact ih

/-- Stars alone need no search. -/
theorem starDepth_stars (k : Nat) : starDepth (List.replicate k (.star : Token α)) = 0 := by
  induction k with
  | zero => rfl
  | succ k ih =>
    cases k with
    | zero => rfl
    | succ k => exact ih

theorem starDepth_le_starRuns (ts : List (Token α)) : starDepth ts ≤ starRuns ts := by
  fun_induction starRuns ts with
  | case1 => exact le_rfl
  | case2 has ts ih => exact ih
  | case3 ts ih => exact ih
  | case4 ts hts ih =>
    cases ts with
    | nil => exact Nat.zero_le _
    | cons t ts =>
      cases t with
      | star => exact absurd rfl (hts ts)
      | one has => exact Nat.succ_le_succ ih

/-! ## Failures that a later start cannot mend -/

/-- No suffix is accepted. -/
def Hopeless (ts : List (Token α)) (s : List α) : Prop := ∀ t, t <:+ s → accepts ts t = false

theorem accepts_star_eq_false : accepts (.star :: ts) s = false ↔ Hopeless ts s := by
  rw [← Bool.not_eq_true, accepts_star]
  simp only [Hopeless, not_exists, not_and, Bool.not_eq_true]

theorem Hopeless.star (h : Hopeless ts s) : Hopeless (.star :: ts) s := by
  intro t hts
  rw [accepts_star_eq_false]
  intro u hut
  exact h u (hut.trans hts)

theorem Hopeless.replicate_star (h : Hopeless ts s) (k : Nat) : Hopeless (List.replicate k .star ++ ts) s := by
  induction k with
  | zero => exact h
  | succ k ih => exact ih.star

/-- What a token of one symbol leaves of a suffix is a suffix of what it leaves of the string. -/
theorem Hopeless.one (h : Hopeless ts s) : Hopeless (.one has :: ts) (c :: s) := by
  intro t hts
  cases t with
  | nil => rfl
  | cons d u =>
    have hus : u <:+ s := by
      rcases List.suffix_cons_iff.1 hts with heq | hsuf
      · rw [List.cons.injEq] at heq
        rw [heq.2]
      · exact (List.suffix_cons d u).trans hsuf
    simp [h u hus]

end Glob

import Mathlib.Algebra.GroupWithZero.Nat
import Mathlib.Logic.Relation

/-!
# Labelled transition systems

A system is a relation `step s a s'`; its runs take the steps whose label is allowed in the state they start from.

- `Reach`: the states that runs from the initial states pass through;
- `Reach.invariant`: what holds initially and is kept by every allowed step holds in every reachable state;
- `Reach.strengthen`: a condition on labels may be replaced by one that the steps from reachable states meet;
- `Reach.simulate`: a map that turns steps into paths maps reachable states to reachable states;
- `Path`: a path with its list of labels, closed under `Path.append`; `Path.invariant` is its induction rule,
  `Path.countP_le` bounds the steps of a path by a measure, and `Path.sum_le` bounds a measure by what the labels of a
  path may add to it;
- `run`: the execution of a list of labels by a step function, for concrete runs (`reach_of_run`);
- `Counted`: runs with the number of their steps that meet a condition, and `tally`, which counts them along a concrete
  run (`counted_of_run`).
-/

namespace Machine

variable {σ τ α β : Type*}

/-- One allowed step, its label forgotten. -/
def Next (step : σ → α → σ → Prop) (allowed : σ → α → Prop) (s s' : σ) : Prop := ∃ a, allowed s a ∧ step s a s'

/-- The states of the runs that take allowed steps only. -/
def Reach (step : σ → α → σ → Prop) (allowed : σ → α → Prop) (init : σ → Prop) (s : σ) : Prop :=
  ∃ s₀, init s₀ ∧ Relation.ReflTransGen (Next step allowed) s₀ s

namespace Reach

variable {step : σ → α → σ → Prop} {allowed : σ → α → Prop} {init : σ → Prop} {s s' : σ}

theorem start (h : init s) : Reach step allowed init s := ⟨s, h, .refl⟩

theorem next {a : α} (h : Reach step allowed init s) (ha : allowed s a) (hs : step s a s') :
    Reach step allowed init s' := by
  obtain ⟨s₀, h₀, hp⟩ := h
  exact ⟨s₀, h₀, hp.tail ⟨a, ha, hs⟩⟩

theorem path (h : Reach step allowed init s) (hp : Relation.ReflTransGen (Next step allowed) s s') :
    Reach step allowed init s' := by
  obtain ⟨s₀, h₀, hp₀⟩ := h
  exact ⟨s₀, h₀, hp₀.trans hp⟩

/-- The induction rule of runs. The invariant of a step may use that its states are reachable. -/
theorem invariant {I : σ → Prop} (hinit : ∀ s, init s → I s)
    (hstep : ∀ s a s', Reach step allowed init s → allowed s a → step s a s' → I s → I s')
    (h : Reach step allowed init s) : I s := by
  obtain ⟨s₀, h₀, hp⟩ := h
  induction hp with
  | refl => exact hinit s₀ h₀
  | tail hp hn ih =>
    obtain ⟨a, ha, hs⟩ := hn
    exact hstep _ a _ ⟨s₀, h₀, hp⟩ ha hs ih

theorem strengthen {allowed' : σ → α → Prop} (h : Reach step allowed init s)
    (hall : ∀ s a s', Reach step allowed init s → allowed s a → step s a s' → allowed' s a) :
    Reach step allowed' init s :=
  h.invariant (fun _ hi => start hi) fun s a s' hr ha hs ih => ih.next (hall s a s' hr ha hs) hs

/-- A simulation: every allowed step of the one system is a path of allowed steps of the other. -/
theorem simulate {step' : τ → β → τ → Prop} {allowed' : τ → β → Prop} {init' : τ → Prop} (f : σ → τ)
    (hinit : ∀ s, init s → Reach step' allowed' init' (f s))
    (hstep : ∀ s a s', Reach step allowed init s → allowed s a → step s a s' →
      Relation.ReflTransGen (Next step' allowed') (f s) (f s'))
    (h : Reach step allowed init s) : Reach step' allowed' init' (f s) :=
  h.invariant (I := fun s => Reach step' allowed' init' (f s)) hinit
    fun s a s' hr ha hs ih => ih.path (hstep s a s' hr ha hs)

end Reach

/-- A path with the labels of its steps. -/
inductive Path (step : σ → α → σ → Prop) : σ → List α → σ → Prop
  | nil (s : σ) : Path step s [] s
  | cons {s s' s'' : σ} {a : α} {as : List α} (h : step s a s') (hp : Path step s' as s'') : Path step s (a :: as) s''

namespace Path

variable {step : σ → α → σ → Prop} {s s' s'' : σ} {as as' : List α}

theorem single {a : α} (h : step s a s') : Path step s [a] s' := .cons h (.nil s')

theorem append (h : Path step s as s') (h' : Path step s' as' s'') : Path step s (as ++ as') s'' := by
  induction h with
  | nil => exact h'
  | cons hs _ ih => exact .cons hs (ih h')

/-- What the steps with the labels of a path keep, the path keeps. -/
theorem invariant {I : σ → Prop} (hstep : ∀ s a s', a ∈ as → step s a s' → I s → I s') (h : Path step s as s')
    (hI : I s) : I s' := by
  induction h with
  | nil => exact hI
  | cons hs _ ih =>
    exact ih (fun s a s' ha => hstep s a s' (List.mem_cons_of_mem _ ha)) (hstep _ _ _ List.mem_cons_self hs hI)

/-- Where every step keeps an invariant and the counted ones bring a measure down, a path counts at most the measure. -/
theorem countP_le {I : σ → Prop} {m : σ → Nat} {p : α → Bool}
    (hstep : ∀ s a s', step s a s' → I s → I s' ∧ m s' + (if p a then 1 else 0) ≤ m s) (h : Path step s as s')
    (hI : I s) : I s' ∧ m s' + as.countP p ≤ m s := by
  induction h with
  | nil => exact ⟨hI, Nat.le_refl _⟩
  | cons hs _ ih =>
    obtain ⟨hI', hle⟩ := hstep _ _ _ hs hI
    obtain ⟨hend, hcount⟩ := ih hI'
    rw [List.countP_cons]
    exact ⟨hend, by omega⟩

/-- Where every step keeps an invariant and raises a measure by the credit of its label at most, a path raises it by the
sum of the credits at most. -/
theorem sum_le {I : σ → Prop} {m : σ → Nat} {credit : α → Nat}
    (hstep : ∀ s a s', step s a s' → I s → I s' ∧ m s' ≤ m s + credit a) (h : Path step s as s') (hI : I s) :
    I s' ∧ m s' ≤ m s + (as.map credit).sum := by
  induction h with
  | nil => exact ⟨hI, Nat.le_refl _⟩
  | cons hs _ ih =>
    obtain ⟨hI', hle⟩ := hstep _ _ _ hs hI
    obtain ⟨hend, hsum⟩ := ih hI'
    rw [List.map_cons, List.sum_cons]
    exact ⟨hend, by omega⟩

end Path

/-- The execution of a list of labels; it fails at a label that is not allowed or cannot be taken. -/
def run (step : σ → α → Option σ) (allowed : σ → α → Prop) [∀ s a, Decidable (allowed s a)] : σ → List α → Option σ
  | s, [] => some s
  | s, a :: as => if allowed s a then (step s a).bind fun s' => run step allowed s' as else none

theorem reach_of_run {step : σ → α → Option σ} {allowed : σ → α → Prop} [∀ s a, Decidable (allowed s a)]
    {init : σ → Prop} {as : List α} {s s' : σ} (hs : Reach (fun s a s' => step s a = some s') allowed init s)
    (h : run step allowed s as = some s') : Reach (fun s a s' => step s a = some s') allowed init s' := by
  induction as generalizing s with
  | nil =>
    cases h
    exact hs
  | cons a as ih =>
    unfold run at h
    split at h
    · rename_i ha
      obtain ⟨s₁, h₁, h₂⟩ := Option.bind_eq_some_iff.1 h
      exact ih (hs.next ha h₁) h₂
    · cases h

/-- The states of the runs, with the number of steps so far that meet a condition. -/
inductive Counted (step : σ → α → σ → Prop) (allowed : σ → α → Prop) (init : σ → Prop) (p : σ → α → Bool) :
    Nat → σ → Prop
  | start {s : σ} (h : init s) : Counted step allowed init p 0 s
  | next {k : Nat} {s s' : σ} {a : α} (h : Counted step allowed init p k s) (ha : allowed s a) (hs : step s a s') :
      Counted step allowed init p (k + if p s a then 1 else 0) s'

namespace Counted

variable {step : σ → α → σ → Prop} {allowed : σ → α → Prop} {init : σ → Prop} {p : σ → α → Bool} {k : Nat} {s : σ}

theorem reach (h : Counted step allowed init p k s) : Reach step allowed init s := by
  induction h with
  | start h => exact .start h
  | next _ ha hs ih => exact ih.next ha hs

/-- The induction rule, where a step may use that its states are reachable. -/
theorem invariant {I : Nat → σ → Prop} (hinit : ∀ s, init s → I 0 s)
    (hstep : ∀ k s a s', Reach step allowed init s → allowed s a → step s a s' → I k s →
      I (k + if p s a then 1 else 0) s')
    (h : Counted step allowed init p k s) : I k s := by
  induction h with
  | start h => exact hinit _ h
  | next h ha hs ih => exact hstep _ _ _ _ h.reach ha hs ih

end Counted

/-- The number of labels of a concrete run that meet a condition. -/
def tally (step : σ → α → Option σ) (p : σ → α → Bool) : σ → List α → Nat
  | _, [] => 0
  | s, a :: as => (if p s a then 1 else 0) + (step s a).elim 0 fun s' => tally step p s' as

theorem counted_of_run {step : σ → α → Option σ} {allowed : σ → α → Prop} [∀ s a, Decidable (allowed s a)]
    {init : σ → Prop} {p : σ → α → Bool} {as : List α} {k : Nat} {s s' : σ}
    (hs : Counted (fun s a s' => step s a = some s') allowed init p k s) (h : run step allowed s as = some s') :
    Counted (fun s a s' => step s a = some s') allowed init p (k + tally step p s as) s' := by
  induction as generalizing k s with
  | nil =>
    cases h
    exact hs
  | cons a as ih =>
    unfold run at h
    split at h
    · rename_i ha
      obtain ⟨s₁, h₁, h₂⟩ := Option.bind_eq_some_iff.1 h
      have hrec := ih (hs.next ha h₁) h₂
      rw [Nat.add_assoc] at hrec
      simpa only [tally, h₁, Option.elim_some] using hrec
    · cases h

end Machine

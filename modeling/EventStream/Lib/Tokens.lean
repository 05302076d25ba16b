import Mathlib.Tactic.TypeStar

/-!
# Lists of tokens

A text that is a list of tokens is read by a loop: each token is checked and changes an accumulator, and the first one
that is not accepted ends the loop. These are the rules by which such a loop is understood from what it does with one
token.

* `accepted_iff`: if a token is accepted whatever was read before it, then a list is accepted exactly if all its tokens
  are.
* `collects`: what an accumulator holds is what the tokens say, if each adds what it says.
* `kept`: what no token of a list touches stays.
-/

namespace Tokens

variable {ε τ σ ν : Type*} {step : σ → τ → Except ε σ} {ts us : List τ} {t : τ} {a b : σ}

/-- A sequence succeeds exactly if its steps succeed in turn. -/
theorem bind_ok {x : Except ε σ} {f : σ → Except ε σ} : x >>= f = .ok b ↔ ∃ c, x = .ok c ∧ f c = .ok b := by
  cases x with
  | error e =>
    constructor
    · intro h
      cases h
    · rintro ⟨c, hc, -⟩
      cases hc
  | ok c =>
    constructor
    · intro h
      exact ⟨c, rfl, h⟩
    · rintro ⟨c', hc, h⟩
      cases hc
      exact h

theorem foldlM_cons_ok : (t :: ts).foldlM step a = .ok b ↔ ∃ c, step a t = .ok c ∧ ts.foldlM step c = .ok b := by
  rw [List.foldlM_cons, bind_ok]

theorem foldlM_append_ok :
    (ts ++ us).foldlM step a = .ok b ↔ ∃ c, ts.foldlM step a = .ok c ∧ us.foldlM step c = .ok b := by
  rw [List.foldlM_append, bind_ok]

theorem accepted_iff {good : τ → Prop} (hstep : ∀ a t, (∃ b, step a t = .ok b) ↔ good t) (ts : List τ) (a : σ) :
    (∃ b, ts.foldlM step a = .ok b) ↔ ∀ t ∈ ts, good t := by
  induction ts generalizing a with
  | nil => exact iff_of_true ⟨a, rfl⟩ (List.forall_mem_nil good)
  | cons t ts ih =>
    rw [List.forall_mem_cons]
    constructor
    · rintro ⟨b, hb⟩
      obtain ⟨c, hc, hrest⟩ := foldlM_cons_ok.1 hb
      exact ⟨(hstep a t).1 ⟨c, hc⟩, (ih c).1 ⟨b, hrest⟩⟩
    · rintro ⟨ht, hts⟩
      obtain ⟨c, hc⟩ := (hstep a t).2 ht
      obtain ⟨b, hb⟩ := (ih c).2 hts
      exact ⟨b, foldlM_cons_ok.2 ⟨c, hc, hb⟩⟩

theorem collects {has : σ → Prop} {tells : τ → Prop} (hstep : ∀ a b t, step a t = .ok b → (has b ↔ has a ∨ tells t))
    (h : ts.foldlM step a = .ok b) : has b ↔ has a ∨ ∃ t ∈ ts, tells t := by
  induction ts generalizing a with
  | nil =>
    cases h
    simp
  | cons t ts ih =>
    obtain ⟨c, hc, hrest⟩ := foldlM_cons_ok.1 h
    rw [ih hrest, hstep a c t hc, or_assoc]
    simp only [List.mem_cons, exists_eq_or_imp]

theorem kept (val : σ → ν) (hstep : ∀ t ∈ ts, ∀ a b, step a t = .ok b → val b = val a) (h : ts.foldlM step a = .ok b) :
    val b = val a := by
  induction ts generalizing a with
  | nil =>
    cases h
    rfl
  | cons t ts ih =>
    obtain ⟨c, hc, hrest⟩ := foldlM_cons_ok.1 h
    rw [ih (fun t' ht' => hstep t' (List.mem_cons_of_mem t ht')) hrest, hstep t List.mem_cons_self a c hc]

end Tokens

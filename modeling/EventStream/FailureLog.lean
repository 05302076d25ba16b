import EventStream.Stats
import Mathlib.Data.List.DropRight
import Mathlib.Data.List.Chain

/-!
# The failure log of a stream

Every stream has a small state machine that decides which of its failures are logged. Here it runs on any sequence of
failures and successes, with any clock.

- `StreamStats.Call` and `recordAll`: a sequence of calls, and what each returned;
- `streak` and `warnings`: the failures since the last success, and those of them that were logged;
- `Exact` and `Exact.call`: what the record says of the calls made so far, and that one more call keeps it true;
- `recordAll_exact`: no failure is lost from the count, and warnings keep their distance.
-/

namespace EventStream

namespace StreamStats

inductive Call
  | failure (now : Nat)
  | success
  deriving DecidableEq

/-- A call with what it returned. -/
structure Outcome where
  call : Call
  result : Option Nat

def call (s : StreamStats) : Call → StreamStats × Option Nat
  | .failure now => s.recordFailure now
  | .success => s.recordSuccess

/-- One call after those of a log. -/
def recordCall (acc : StreamStats × List Outcome) (c : Call) : StreamStats × List Outcome :=
  ((acc.1.call c).1, acc.2 ++ [⟨c, (acc.1.call c).2⟩])

/-- A sequence of calls on a new record. -/
def recordAll (calls : List Call) : StreamStats × List Outcome := calls.foldl recordCall ({}, [])

def Outcome.isFailure (o : Outcome) : Bool := o.call ≠ .success

/-- A failure that was logged: its time, and the number of failures its warning reports as suppressed. -/
def Outcome.warning (o : Outcome) : Option (Nat × Nat) :=
  match o.call, o.result with
  | .failure now, some n => some (now, n)
  | _, _ => none

/-- The failures since the last success. -/
def streak (log : List Outcome) : List Outcome := log.rtakeWhile Outcome.isFailure

def warnings (log : List Outcome) : List (Nat × Nat) := (streak log).filterMap Outcome.warning

theorem streak_failure (log : List Outcome) (now : Nat) (r : Option Nat) :
    streak (log ++ [⟨.failure now, r⟩]) = streak log ++ [⟨.failure now, r⟩] :=
  List.rtakeWhile_concat_pos _ _ _ rfl

theorem streak_success (log : List Outcome) (r : Option Nat) : streak (log ++ [⟨.success, r⟩]) = [] :=
  List.rtakeWhile_concat_neg _ _ _ (by simp [Outcome.isFailure])

theorem warnings_failure (log : List Outcome) (now : Nat) (r : Option Nat) :
    warnings (log ++ [⟨.failure now, r⟩]) = warnings log ++ (r.map fun n => (now, n)).toList := by
  rw [warnings, streak_failure, List.filterMap_append]
  cases r <;> rfl

theorem warnings_success (log : List Outcome) (r : Option Nat) : warnings (log ++ [⟨.success, r⟩]) = [] := by
  rw [warnings, streak_success]
  rfl

/-- What the record says of the calls made so far. -/
structure Exact (log : List Outcome) (s : StreamStats) : Prop where
  dropped : s.dropped = log.countP Outcome.isFailure
  failingDrops : s.failingDrops = (streak log).length
  suppressed : (streak log).length = (warnings log).length + ((warnings log).map Prod.snd).sum + s.suppressed
  first : ∀ o, (streak log).head? = some o → o.result = some 0
  apart : (warnings log).IsChain fun a b => a.1 + logWindowSecs ≤ b.1
  lastWarned : s.lastWarned = ((warnings log).getLast?.map Prod.fst).getD 0
  clock : ∀ w ∈ warnings log, 0 < w.1

namespace Exact

variable {log : List Outcome} {s : StreamStats} {now : Nat}

theorem nil : Exact [] {} := by
  constructor <;> simp [streak, warnings]

theorem of_streak_eq_nil (h : Exact log s) (hs : streak log = []) : warnings log = [] ∧ s.suppressed = 0 := by
  have hsup := h.suppressed
  have hwarn : warnings log = [] := by rw [warnings, hs]; rfl
  rw [hs, List.length_nil] at hsup
  exact ⟨hwarn, by omega⟩

/-- A failure of a streak that goes on leaves its first one as it was. -/
theorem first_append (h : Exact log s) (hne : streak log ≠ []) (o' : Outcome) :
    ∀ o, (streak log ++ [o']).head? = some o → o.result = some 0 := by
  intro o ho
  rw [List.head?_append_of_ne_nil _ hne] at ho
  exact h.first o ho

/-- A failure that is logged: the first of its streak, or one after the window. -/
theorem logged (h : Exact log s) (hnow : 0 < now) (hw : s.lastWarned = 0 ∨ logWindowSecs ≤ now - s.lastWarned) :
    Exact (log ++ [⟨.failure now, some s.suppressed⟩])
      { s with dropped := s.dropped + 1, failingDrops := s.failingDrops + 1, lastWarned := now, suppressed := 0 } := by
  have hs := streak_failure log now (some s.suppressed)
  have hwarn : warnings (log ++ [⟨.failure now, some s.suppressed⟩]) = warnings log ++ [(now, s.suppressed)] :=
    warnings_failure log now (some s.suppressed)
  constructor
  case dropped => simp [List.countP_append, h.dropped, Outcome.isFailure]
  case failingDrops => simp [hs, h.failingDrops]
  case suppressed =>
    have := h.suppressed
    simp only [hs, hwarn, List.length_append, List.map_append, List.sum_append, List.map_singleton, List.sum_singleton,
      List.length_singleton]
    omega
  case first =>
    rw [hs]
    by_cases hst : streak log = []
    · intro o ho
      rw [hst, List.nil_append, List.head?_cons, Option.some.injEq] at ho
      rw [← ho, (h.of_streak_eq_nil hst).2]
    · exact h.first_append hst _
  case apart =>
    rw [hwarn, List.isChain_append]
    refine ⟨h.apart, List.isChain_singleton _, ?_⟩
    intro w hlast w' hw'
    rw [List.head?_cons, Option.mem_some_iff] at hw'
    subst hw'
    have hpos := h.clock w (List.mem_of_getLast? hlast)
    have hlw : s.lastWarned = w.1 := by rw [h.lastWarned, hlast]; rfl
    simp only [logWindowSecs] at hw ⊢
    omega
  case lastWarned => simp [hwarn]
  case clock =>
    intro w hw'
    rw [hwarn, List.mem_append, List.mem_singleton] at hw'
    rcases hw' with hold | rfl
    · exact h.clock w hold
    · exact hnow

/-- A failure that is counted in silence. -/
theorem silent (h : Exact log s) (h0 : s.lastWarned ≠ 0) :
    Exact (log ++ [⟨.failure now, none⟩])
      { s with dropped := s.dropped + 1, failingDrops := s.failingDrops + 1, suppressed := s.suppressed + 1 } := by
  have hs := streak_failure log now none
  have hwarn : warnings (log ++ [⟨.failure now, none⟩]) = warnings log := by
    rw [warnings_failure]
    exact List.append_nil _
  have hne : streak log ≠ [] := by
    intro hnil
    apply h0
    rw [h.lastWarned, (h.of_streak_eq_nil hnil).1]
    rfl
  constructor
  case dropped => simp [List.countP_append, h.dropped, Outcome.isFailure]
  case failingDrops => simp [hs, h.failingDrops]
  case suppressed =>
    have := h.suppressed
    simp only [hs, hwarn, List.length_append, List.length_singleton]
    omega
  case first => rw [hs]; exact h.first_append hne _
  case apart => rw [hwarn]; exact h.apart
  case lastWarned => rw [hwarn]; exact h.lastWarned
  case clock => rw [hwarn]; exact h.clock

theorem success (h : Exact log s) : Exact (log ++ [⟨.success, s.recordSuccess.2⟩]) s.recordSuccess.1 := by
  have hs := streak_success log s.recordSuccess.2
  have hwarn := warnings_success log s.recordSuccess.2
  have hend : s.recordSuccess.1.dropped = s.dropped ∧ s.recordSuccess.1.failingDrops = 0 ∧
      s.recordSuccess.1.lastWarned = 0 ∧ s.recordSuccess.1.suppressed = 0 := by
    rw [recordSuccess]
    split
    · rename_i h0
      have hnil : streak log = [] := List.length_eq_zero_iff.1 (h.failingDrops ▸ h0)
      obtain ⟨hw, hsup⟩ := h.of_streak_eq_nil hnil
      have hlw := h.lastWarned
      rw [hw] at hlw
      exact ⟨rfl, h0, hlw, hsup⟩
    · exact ⟨rfl, rfl, rfl, rfl⟩
  obtain ⟨hdropped, hfailing, hlw, hsup⟩ := hend
  constructor
  case dropped => simp [List.countP_append, hdropped, h.dropped, Outcome.isFailure]
  case failingDrops => rw [hfailing, hs]; rfl
  case suppressed => rw [hs, hwarn, hsup]; rfl
  case first => rw [hs]; simp
  case apart => rw [hwarn]; exact .nil
  case lastWarned => rw [hlw, hwarn]; rfl
  case clock => rw [hwarn]; simp

/-- One more call. -/
theorem call (h : Exact log s) (c : Call) (hnow : ∀ now, c = .failure now → 0 < now) :
    Exact (log ++ [⟨c, (s.call c).2⟩]) (s.call c).1 := by
  cases c with
  | failure now =>
    simp only [StreamStats.call, recordFailure]
    split
    · rename_i hw
      exact h.logged (hnow now rfl) hw
    · rename_i hw
      exact h.silent fun h0 => hw (.inl h0)
  | success => exact h.success

end Exact

theorem recordAll_concat (calls : List Call) (c : Call) :
    recordAll (calls ++ [c]) = recordCall (recordAll calls) c := by
  rw [recordAll, List.foldl_append]
  rfl

theorem exact_recordAll (calls : List Call) (hnow : ∀ now, .failure now ∈ calls → 0 < now) :
    Exact (recordAll calls).2 (recordAll calls).1 := by
  induction calls using List.reverseRecOn with
  | nil => exact Exact.nil
  | append_singleton calls c ih =>
    rw [recordAll_concat]
    apply (ih fun now h => hnow now (List.mem_append_left _ h)).call
    rintro now rfl
    exact hnow now (List.mem_append_right _ (List.mem_singleton.2 rfl))

/-- What a success returns: the length of the streak it ends, if there is one. -/
theorem Exact.recordSuccess_eq_some {log : List Outcome} {s : StreamStats} (h : Exact log s) (n : Nat) :
    s.recordSuccess.2 = some n ↔ 0 < n ∧ (streak log).length = n := by
  rw [← h.failingDrops, recordSuccess]
  split
  · rename_i h0
    constructor
    · intro hn; cases hn
    · rintro ⟨hpos, hn⟩; omega
  · rename_i h0
    simp only [Option.some.injEq]
    constructor
    · rintro rfl; omega
    · rintro ⟨-, hn⟩; exact hn

/-- The log has the calls in their order. -/
theorem recordAll_calls (calls : List Call) : (recordAll calls).2.map Outcome.call = calls := by
  induction calls using List.reverseRecOn with
  | nil => rfl
  | append_singleton calls c ih =>
    rw [recordAll_concat, recordCall, List.map_append, ih]
    rfl

/-- The log loses no count, opens every streak with a warning, and keeps warnings a window apart. -/
theorem recordAll_exact (calls : List Call) (hnow : ∀ now, .failure now ∈ calls → 0 < now) :
    let s := (recordAll calls).1
    let log := (recordAll calls).2
    log.map Outcome.call = calls ∧
      s.dropped = calls.countP (· ≠ .success) ∧
      s.failingDrops = (streak log).length ∧
      (streak log).length = (warnings log).length + ((warnings log).map Prod.snd).sum + s.suppressed ∧
      (∀ o, (streak log).head? = some o → o.result = some 0) ∧
      (warnings log).IsChain (fun a b => a.1 + 60 ≤ b.1) ∧
      ∀ n, s.recordSuccess.2 = some n ↔ 0 < n ∧ (streak log).length = n := by
  have h := exact_recordAll calls hnow
  have hcalls := recordAll_calls calls
  have hdropped : (recordAll calls).1.dropped = calls.countP (· ≠ .success) := by
    rw [h.dropped]
    conv_rhs => rw [← hcalls, List.countP_map]
    rfl
  exact ⟨hcalls, hdropped, h.failingDrops, h.suppressed, h.first, h.apart, h.recordSuccess_eq_some⟩

/-- A streak with two warnings and three failures in silence, one of them while the clock stood back, then a recovery
and a new streak. -/
def unevenCalls : List Call :=
  [.failure 100, .failure 130, .failure 90, .failure 165, .failure 170, .success, .failure 171]

theorem recordAll_exact_uneven :
    (recordAll unevenCalls).2.map Outcome.result = [some 0, none, none, some 2, none, some 5, some 0] ∧
      (recordAll unevenCalls).1.dropped = 6 ∧
      (warnings (recordAll unevenCalls).2).IsChain (fun a b => a.1 + 60 ≤ b.1) := by
  obtain ⟨-, hdropped, -, -, -, hchain, -⟩ := recordAll_exact unevenCalls (by
    intro now h
    simp only [unevenCalls, List.mem_cons, List.not_mem_nil, Call.failure.injEq, reduceCtorEq, false_or, or_false] at h
    omega)
  exact ⟨by decide, by rw [hdropped]; decide, hchain⟩

end StreamStats

end EventStream

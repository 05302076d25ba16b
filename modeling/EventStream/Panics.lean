import EventStream.Gauges
import EventStream.Order

/-!
# Caught panics

The worker, the ordered fallback and the unload take events off the queue and then process them, each under a guard that
catches panics. What a panic costs depends on how much one guard covers.

- `Faults`: the events whose processing panics, and what has been done by then;
- `guardJob_spec`, `guardJobs_spec`: what guarded bodies process, and how many panics they count;
- `spares_iff`: a body loses nothing but its panicking event if that is the last one in it;
- `Drain`: the drains with their guarded bodies; without a panic these are the steps of a node (`Drains.calm`);
- `panics_contained_iff`: the drains in which a panic costs no other event.
-/

namespace EventStream

open Text (Str Bytes utf8)

/-! ## Guards -/

/-- The events whose processing panics, and what a task that panics has done by then. That is anything, but for the
gauges of the dispatch, which no processor touches. -/
structure Faults where
  bad : Queued → Bool
  torn : Task → State → State
  apart : ∀ task st, Apart st (torn task st)

/-- A task panics with any of its events: the events of an envelope are processed as one. -/
def Task.panics (f : Faults) (task : Task) : Bool := task.queued.any f.bad

/-- Count a caught panic; the first one is logged. -/
def countPanic (st : State) : State :=
  { st.charge .dispatch .handlerPanics 1 with
    latched := Function.update st.latched .panic true
    log := if st.latched .panic then st.log
      else st.log ++ [.warning (eventstream ++ "post-notification job panicked (caught); event dropped".toList)] }

namespace Node

variable (env : Env) (f : Faults)

/-- One task of a guarded body. An error is a panic on its way to the guard. -/
def attempt (n : Node) (task : Task) : Except Node Node :=
  if task.panics f then .error (n.note none (f.torn task n.st)) else .ok (n.note (some task) (task.run env n.st))

/-- `guard_job` around a body that does several tasks. -/
def guardJob (n : Node) (body : List Task) : Node :=
  match body.foldlM (attempt env f) n with
  | .ok n => n
  | .error n => n.note none (countPanic n.st)

def guardJobs (n : Node) (bodies : List (List Task)) : Node := bodies.foldl (guardJob env f) n

/-- The tasks of a body before its first panic. -/
def kept (body : List Task) : List Task := body.takeWhile fun task => !task.panics f

/-- The tasks of a body from its first panic on. -/
def cut (body : List Task) : List Task := body.dropWhile fun task => !task.panics f

theorem note_handed (n : Node) (task : Option Task) (st : State) :
    (n.note task st).handed = n.handed ++ task.elim [] Task.queued := by
  simp [handed, note]

theorem guardJob_nil (n : Node) : guardJob env f n [] = n := rfl

theorem guardJob_panic (n : Node) {task : Task} (rest : List Task) (h : task.panics f = true) :
    guardJob env f n (task :: rest) =
      (n.note none (f.torn task n.st)).note none (countPanic (f.torn task n.st)) := by
  simp only [guardJob, List.foldlM_cons, attempt, h, if_true]
  rfl

theorem guardJob_go (n : Node) {task : Task} (rest : List Task) (h : task.panics f = false) :
    guardJob env f n (task :: rest) = guardJob env f (n.note (some task) (task.run env n.st)) rest := by
  simp only [guardJob, List.foldlM_cons, attempt, h]
  rfl

/-- A guarded body processes the tasks before the first panic, and counts that one. -/
theorem guardJob_spec (n : Node) (body : List Task) :
    (guardJob env f n body).handed = n.handed ++ (kept f body).flatMap Task.queued ∧
      (guardJob env f n body).st.value .handlerPanics =
        n.st.value .handlerPanics + if body.any (Task.panics f) then 1 else 0 := by
  induction body generalizing n with
  | nil => exact ⟨by simp [guardJob_nil, kept], rfl⟩
  | cons task rest ih =>
    cases hp : task.panics f with
    | true =>
      have hcount : (countPanic (f.torn task n.st)).value .handlerPanics = n.st.value .handlerPanics + 1 := by
        rw [← (f.apart task n.st).value .handlerPanics rfl]
        rfl
      rw [guardJob_panic env f n rest hp]
      refine ⟨?_, ?_⟩
      · simp [note_handed, kept, hp]
      · simp only [List.any_cons, hp, Bool.true_or, if_true]
        exact hcount
    | false =>
      have hcount : (task.run env n.st).value .handlerPanics = n.st.value .handlerPanics :=
        (task.run_apart env n.st).value .handlerPanics rfl
      obtain ⟨hhanded, hpanics⟩ := ih (n.note (some task) (task.run env n.st))
      rw [guardJob_go env f n rest hp, hhanded, hpanics, note_handed]
      refine ⟨?_, ?_⟩
      · simp [kept, hp]
      · simp only [List.any_cons, hp, Bool.false_or]
        exact congrArg (· + _) hcount

theorem guardJobs_spec (n : Node) (bodies : List (List Task)) :
    (guardJobs env f n bodies).handed = n.handed ++ bodies.flatMap (fun body => (kept f body).flatMap Task.queued) ∧
      (guardJobs env f n bodies).st.value .handlerPanics =
        n.st.value .handlerPanics + (bodies.map fun body => if body.any (Task.panics f) then 1 else 0).sum := by
  induction bodies generalizing n with
  | nil => exact ⟨by simp [guardJobs], rfl⟩
  | cons body rest ih =>
    obtain ⟨hhanded, hpanics⟩ := guardJob_spec env f n body
    obtain ⟨hhanded', hpanics'⟩ := ih (guardJob env f n body)
    have hgo : guardJobs env f n (body :: rest) = guardJobs env f (guardJob env f n body) rest := rfl
    rw [hgo, hhanded', hpanics', hhanded, hpanics]
    refine ⟨by simp, ?_⟩
    rw [List.map_cons, List.sum_cons]
    omega

/-! ## What a panic costs -/

/-- The events of a body that its panic takes along, itself included. -/
def lostWith (body : List Task) : List Queued := (cut f body).flatMap Task.queued

/-- A body processes every event but those that panic, and counts these. -/
def Spares (body : List Task) : Prop :=
  (∀ q, f.bad q = false → ((kept f body).flatMap Task.queued).count q = (body.flatMap Task.queued).count q) ∧
    (if body.any (Task.panics f) then 1 else 0) = (body.flatMap Task.queued).countP f.bad

theorem queued_split (body : List Task) :
    body.flatMap Task.queued = (kept f body).flatMap Task.queued ++ lostWith f body := by
  rw [lostWith, ← List.flatMap_append, kept, cut, List.takeWhile_append_dropWhile]

theorem kept_calm (body : List Task) : ∀ q ∈ (kept f body).flatMap Task.queued, f.bad q = false := by
  intro q hq
  obtain ⟨task, htask, hq⟩ := List.mem_flatMap.1 hq
  have hcalm : task.panics f = false := by simpa using List.mem_takeWhile_imp htask
  rw [Task.panics, List.any_eq_false] at hcalm
  exact Bool.eq_false_iff.2 (hcalm q hq)

theorem lostWith_nil : lostWith f [] = [] := rfl

theorem lostWith_cons (task : Task) (rest : List Task) :
    lostWith f (task :: rest) =
      if task.panics f then (task :: rest).flatMap Task.queued else lostWith f rest := by
  cases hp : task.panics f <;> simp [lostWith, cut, hp]

/-- A body panics if it loses an event that does. -/
theorem any_panics (body : List Task) : body.any (Task.panics f) = (lostWith f body).any f.bad := by
  induction body with
  | nil => rfl
  | cons task rest ih =>
    cases hp : task.panics f with
    | true =>
      rw [lostWith_cons, if_pos hp, List.any_cons, hp, Bool.true_or, List.flatMap_cons, List.any_append,
        ← Task.panics, hp, Bool.true_or]
    | false =>
      rw [lostWith_cons, if_neg (Bool.eq_false_iff.1 hp), List.any_cons, hp, Bool.false_or, ih]

theorem lostWith_eq_nil {body : List Task} (h : body.any (Task.panics f) = false) : lostWith f body = [] := by
  have hcut : cut f body = [] := by
    rw [cut, List.dropWhile_eq_nil_iff]
    intro task htask
    rw [List.any_eq_false] at h
    simpa using h task htask
  rw [lostWith, hcut]
  rfl

/-- A body spares all others exactly if its panic takes no event along. -/
theorem spares_iff (body : List Task) : Spares f body ↔ (lostWith f body).length ≤ 1 := by
  have hsplit := queued_split f body
  have hkept : ((kept f body).flatMap Task.queued).countP f.bad = 0 := by
    rw [List.countP_eq_zero]
    intro q hq
    simp [kept_calm f body q hq]
  unfold Spares
  rw [hsplit]
  simp only [List.count_append, List.countP_append, hkept, any_panics, Nat.zero_add]
  constructor
  · rintro ⟨hcount, hpanics⟩
    -- what is lost is bad, and so it is the one that was counted
    have hbad : ∀ q ∈ lostWith f body, f.bad q = true := by
      intro q hq
      by_contra hgood
      have hnone := hcount q (Bool.eq_false_iff.2 hgood)
      have hsome : 0 < (lostWith f body).count q := List.count_pos_iff.2 hq
      omega
    rw [List.countP_eq_length.2 hbad] at hpanics
    rw [← hpanics]
    split <;> omega
  · intro hone
    rcases hlost : lostWith f body with _ | ⟨q, _ | ⟨q', rest⟩⟩
    · simp
    · -- the event that is lost is the one that panicked
      have hbad : f.bad q = true := by
        by_contra hgood
        have hcalm : body.any (Task.panics f) = false := by
          rw [any_panics, hlost]
          simpa using hgood
        rw [lostWith_eq_nil f hcalm] at hlost
        cases hlost
      refine ⟨fun q' hq' => ?_, by simp [hbad]⟩
      have hne : q ≠ q' := fun e => by
        rw [← e, hbad] at hq'
        cases hq'
      simp [hne]
    · rw [hlost] at hone
      simp at hone

/-- Sums that agree, of which the one is pointwise at most the other, agree pointwise. -/
theorem eq_of_sum_eq {α : Type*} {g h : α → Nat} {l : List α} (hle : ∀ a ∈ l, g a ≤ h a)
    (hsum : (l.map g).sum = (l.map h).sum) : ∀ a ∈ l, g a = h a := by
  induction l with
  | nil => simp
  | cons a l ih =>
    have ha := hle a (List.mem_cons_self ..)
    have hrest : (l.map g).sum ≤ (l.map h).sum := List.sum_le_sum fun b hb => hle b (List.mem_cons_of_mem _ hb)
    simp only [List.map_cons, List.sum_cons] at hsum
    intro b hb
    rcases List.mem_cons.1 hb with rfl | hb
    · omega
    · exact ih (fun b hb => hle b (List.mem_cons_of_mem _ hb)) (by omega) b hb

/-- Guarded bodies process every event but those that panic, and count these, exactly if each of them does. -/
theorem guardJobs_spare_iff (n : Node) (bodies : List (List Task)) {events : List Queued}
    (hevents : events = bodies.flatMap fun body => body.flatMap Task.queued) :
    ((∀ q, f.bad q = false → (guardJobs env f n bodies).handed.count q = n.handed.count q + events.count q) ∧
      (guardJobs env f n bodies).st.value .handlerPanics = n.st.value .handlerPanics + events.countP f.bad) ↔
    ∀ body ∈ bodies, (lostWith f body).length ≤ 1 := by
  obtain ⟨hhanded, hpanics⟩ := guardJobs_spec env f n bodies
  have hcount : ∀ q, events.count q = (bodies.map fun body => (body.flatMap Task.queued).count q).sum := fun q => by
    rw [hevents]
    exact List.count_flatMap ..
  have hkept : ∀ q, (bodies.flatMap fun body => (kept f body).flatMap Task.queued).count q =
      (bodies.map fun body => ((kept f body).flatMap Task.queued).count q).sum := fun q => List.count_flatMap ..
  have hbad : events.countP f.bad = (bodies.map fun body => (body.flatMap Task.queued).countP f.bad).sum := by
    rw [hevents]
    exact List.countP_flatMap ..
  rw [hhanded, hpanics]
  simp only [List.count_append, hcount, hkept, hbad, Nat.add_left_cancel_iff, ← spares_iff]
  constructor
  · rintro ⟨hspared, hcounted⟩ body hbody
    refine ⟨fun q hq => ?_, ?_⟩
    · refine eq_of_sum_eq (fun body _ => ?_) (hspared q hq) body hbody
      rw [queued_split f body, List.count_append]
      exact Nat.le_add_right _ _
    · refine eq_of_sum_eq (fun body _ => ?_) hcounted body hbody
      rw [queued_split f body, List.countP_append, any_panics]
      split
      · rename_i hany
        obtain ⟨q, hq, hq'⟩ := List.any_eq_true.1 hany
        have hpos : 0 < (lostWith f body).countP f.bad := List.countP_pos_iff.2 ⟨q, hq, hq'⟩
        omega
      · exact Nat.zero_le _
  · intro hall
    refine ⟨fun q hq => ?_, ?_⟩
    · congr 1
      exact List.map_congr_left fun body hbody => (hall body hbody).1 q hq
    · congr 1
      exact List.map_congr_left fun body hbody => (hall body hbody).2

end Node

/-! ## The drains -/

/-- The drains that take events off the queue before they process them. -/
inductive Drain
  /-- The worker, event by event. -/
  | batch (events : List Queued)
  /-- The worker, with the groups of a snapshot. -/
  | envelopes (groups : List (List Queued × List Bytes))
  /-- The job of an ordered fallback: what was accepted before its event, and the event. -/
  | fallback (accepted : List Queued) (own : Queued)
  /-- What the worker hands back to `stop_dispatch_worker`. -/
  | unload (pending : List Queued)

namespace Drain

/-- The events a drain has taken off the queue, with the one that triggered it. -/
def events : Drain → List Queued
  | batch events => events
  | envelopes groups => groups.flatMap Prod.fst
  | fallback accepted own => accepted ++ [own]
  | unload pending => pending

/-- The bodies under a guard each: an event, an envelope, or the whole job. -/
def bodies : Drain → List (List Task)
  | batch events => events.map fun q => [.event q]
  | envelopes groups => groups.map fun g => [.envelope g.1 g.2]
  | fallback accepted own => [accepted.map Task.event ++ [.event own]]
  | unload pending => pending.map fun q => [.event q]

/-- No accepted event panics in the job of a fallback, and an envelope with an event that panics has no other. -/
def Contained (bad : Queued → Bool) : Drain → Prop
  | batch _ | unload _ => True
  | envelopes groups => ∀ g ∈ groups, (∃ q ∈ g.1, bad q = true) → g.1.length = 1
  | fallback accepted _ => ∀ q ∈ accepted, bad q = false

theorem events_eq (d : Drain) : d.events = d.bodies.flatMap fun body => body.flatMap Task.queued := by
  cases d with
  | batch qs | unload qs => simp [events, bodies, List.flatMap_map, Task.queued]
  | envelopes groups => simp [events, bodies, List.flatMap_map, Task.queued]
  | fallback accepted own => simp [events, bodies, List.flatMap_map, Task.queued]

theorem lostWith_event_le (f : Faults) (q : Queued) : (Node.lostWith f [.event q]).length ≤ 1 := by
  rw [Node.lostWith_cons]
  split <;> simp [Task.queued, Node.lostWith_nil]

theorem lostWith_envelope_le (f : Faults) (qs : List Queued) (fields : List Bytes) :
    (Node.lostWith f [.envelope qs fields]).length ≤ 1 ↔ ((∃ q ∈ qs, f.bad q = true) → qs.length = 1) := by
  have hpanics : (Task.envelope qs fields).panics f = true ↔ ∃ q ∈ qs, f.bad q = true := List.any_eq_true
  rw [Node.lostWith_cons, ← hpanics]
  split
  · rename_i hp
    obtain ⟨q, hq, -⟩ := hpanics.1 hp
    have hpos : 0 < qs.length := List.length_pos_of_mem hq
    simp only [hp, forall_const, List.flatMap_cons, List.flatMap_nil, List.append_nil, Task.queued]
    omega
  · rename_i hp
    simp [hp, Node.lostWith_nil]

/-- The job of a fallback: whatever comes after a panic goes with it, and at least its own event comes after. -/
theorem lostWith_fallback_le (f : Faults) (accepted : List Queued) (own : Queued) :
    (Node.lostWith f (accepted.map Task.event ++ [.event own])).length ≤ 1 ↔ ∀ q ∈ accepted, f.bad q = false := by
  induction accepted with
  | nil => simpa using lostWith_event_le f own
  | cons q rest ih =>
    rw [List.map_cons, List.cons_append, Node.lostWith_cons, List.forall_mem_cons, ← ih]
    cases hq : f.bad q with
    | true =>
      have hp : (Task.event q).panics f = true := by simp [Task.panics, Task.queued, hq]
      simp [hp, Task.queued]
    | false =>
      have hp : (Task.event q).panics f = false := by simp [Task.panics, Task.queued, hq]
      simp [hp]

theorem contained_iff (f : Faults) (d : Drain) :
    (∀ body ∈ d.bodies, (Node.lostWith f body).length ≤ 1) ↔ d.Contained f.bad := by
  cases d with
  | batch qs | unload qs =>
    simp only [bodies, Contained, List.forall_mem_map, iff_true]
    exact fun q _ => lostWith_event_le f q
  | envelopes groups =>
    simp only [bodies, Contained, List.forall_mem_map]
    exact forall₂_congr fun g _ => lostWith_envelope_le f g.1 g.2
  | fallback accepted own =>
    simp only [bodies, Contained, List.forall_mem_singleton]
    exact lostWith_fallback_le f accepted own

end Drain

/-! ## The steps of a node -/

/-- The tasks of a drain without their guards. -/
def Drain.tasks : Drain → List Task
  | batch qs | unload qs => qs.map Task.event
  | envelopes groups => groups.map fun g => .envelope g.1 g.2
  | fallback accepted own => accepted.map Task.event ++ [.event own]

theorem Drain.bodies_flatten (d : Drain) : d.bodies.flatten = d.tasks := by
  cases d with
  | batch qs | unload qs =>
    rw [bodies, tasks, ← List.flatMap_def]
    exact List.map_eq_flatMap.symm
  | envelopes groups =>
    rw [bodies, tasks, ← List.flatMap_def]
    exact List.map_eq_flatMap.symm
  | fallback accepted own => exact List.append_nil _

theorem Drain.queued_tasks (d : Drain) : d.tasks.flatMap Task.queued = d.events := by
  rw [← d.bodies_flatten, d.events_eq, List.flatMap_def, List.flatMap_def, List.map_flatten, List.flatten_flatten,
    List.map_map]
  rfl

namespace Node

variable {setup : Setup} {env : Env} {f : Faults} {n n' : Node}

/-- The steps of a node that begin a drain. -/
inductive Drains (setup : Setup) (env : Env) (n n' : Node) : Drain → Prop
  | batch (hw : n.worker = .spinning none) (h : step setup env n .workerLock = some n') :
      Drains setup env n n' (.batch (drain n.queue setup.batch).1)
  | envelopes {snapshot : EnvelopeSnapshot} {queue : List Queued} (hw : n.worker = .spinning (some snapshot))
      (hd : drainSnapshot n.queue snapshot = some queue) (h : step setup env n .workerLock = some n') :
      Drains setup env n n' (.envelopes (sliceGroups snapshot.groups snapshot.events))
  | fallback {q : Queued} {jobs : List Job} (hj : n.jobs = .fallback q :: jobs)
      (h : step setup env n .runJob = some n') : Drains setup env n n' (.fallback (drainBefore n.queue q.id).1 q)
  | unload (h : step setup env n .join = some n') : Drains setup env n n' (.unload n.worker.pending)

theorem Drains.todo {d : Drain} (h : Drains setup env n n' d) : n'.todo = d.tasks := by
  cases h with
  | batch hw h =>
    simp only [step, hw, Option.ite_none_right_eq_some, Option.some.injEq] at h
    rw [← h.2]
    rfl
  | envelopes hw hd h =>
    simp only [step, hw, Option.ite_none_right_eq_some, Option.some.injEq] at h
    rw [← h.2]
    simp only [lockWorker, hd]
    rfl
  | fallback hj h =>
    simp only [step, hj, Option.ite_none_right_eq_some, Option.some.injEq] at h
    rw [← h.2]
    rfl
  | unload h =>
    cases step_fires h with
    | join _ hwk =>
      rw [hwk]
      rfl

/-- Do tasks one after the other. -/
def settleAll (env : Env) (n : Node) (tasks : List Task) : Node :=
  tasks.foldl (fun n task => n.note (some task) (task.run env n.st)) n

theorem settleAll_todo (n : Node) (todo tasks : List Task) :
    settleAll env { n with todo := todo } tasks = { settleAll env n tasks with todo := todo } := by
  induction tasks generalizing n with
  | nil => rfl
  | cons task rest ih => exact ih (n.note (some task) (task.run env n.st))

theorem guardJob_calm {body : List Task} (h : ∀ task ∈ body, task.panics f = false) :
    guardJob env f n body = settleAll env n body := by
  induction body generalizing n with
  | nil => rfl
  | cons task rest ih =>
    rw [guardJob_go env f n rest (h task (List.mem_cons_self ..))]
    exact ih fun t ht => h t (List.mem_cons_of_mem _ ht)

theorem guardJobs_calm {bodies : List (List Task)} (h : ∀ task ∈ bodies.flatten, task.panics f = false) :
    guardJobs env f n bodies = settleAll env n bodies.flatten := by
  induction bodies generalizing n with
  | nil => rfl
  | cons body rest ih =>
    rw [List.flatten_cons] at h ⊢
    have hfirst : guardJob env f n body = settleAll env n body :=
      guardJob_calm fun task ht => h task (List.mem_append_left _ ht)
    have hrest := ih (n := settleAll env n body) fun task ht => h task (List.mem_append_right _ ht)
    rw [settleAll, List.foldl_append]
    exact (congrArg (fun n => guardJobs env f n rest) hfirst).trans hrest

/-- The lock holder does what it has taken. -/
theorem process_all (tasks : List Task) (htodo : n.todo = tasks) :
    Machine.run (step setup env) (fun _ _ => True) n (List.replicate tasks.length .process) =
      some { settleAll env n tasks with todo := [] } := by
  induction tasks generalizing n with
  | nil =>
    change some n = some { n with todo := [] }
    rw [← htodo]
  | cons task rest ih =>
    have hstep : step setup env n .process = some { n.note (some task) (task.run env n.st) with todo := rest } := by
      simp only [step, htodo]
    rw [List.length_cons, List.replicate_succ, Machine.run, if_pos trivial, hstep, Option.bind_some, ih rfl,
      settleAll_todo]
    rfl

/-- Without a panic, the guarded bodies of a drain are the steps of the node that has begun it. -/
theorem Drains.calm {d : Drain} (h : Drains setup env n n' d) (hcalm : ∀ q ∈ d.events, f.bad q = false) :
    Machine.run (step setup env) (fun _ _ => True) n' (List.replicate d.tasks.length .process) =
      some { guardJobs env f n' d.bodies with todo := [] } := by
  have htasks : ∀ task ∈ d.bodies.flatten, task.panics f = false := by
    intro task htask
    rw [Task.panics, List.any_eq_false]
    intro q hq
    rw [d.bodies_flatten] at htask
    have hmem : q ∈ d.events := d.queued_tasks ▸ List.mem_flatMap.2 ⟨task, htask, hq⟩
    rw [hcalm q hmem]
    exact Bool.false_ne_true
  rw [process_all d.tasks h.todo, guardJobs_calm htasks, d.bodies_flatten]

/-! ## The cost of a panic -/

/-- **A caught panic costs at most its own event, as long as the guard covers nothing after it.** Whichever events of a
drain panic: every other one is processed once, and every panic is counted, exactly if no event accepted before an
ordered fallback panics and no envelope with an event that does has another one. The worker's single events and the
unload have a guard for each event, and so they always meet the condition; the event of the fallback itself may panic.
-/
theorem panics_contained_iff (env : Env) (f : Faults) (n : Node) (d : Drain) :
    ((∀ q, f.bad q = false → (guardJobs env f n d.bodies).handed.count q = n.handed.count q + d.events.count q) ∧
      (guardJobs env f n d.bodies).st.value .handlerPanics = n.st.value .handlerPanics + d.events.countP f.bad) ↔
    d.Contained f.bad :=
  (guardJobs_spare_iff env f n d.bodies d.events_eq).trans (d.contained_iff f)

/-- The event with number 0 panics before it has done anything. -/
def firstPanics : Faults := ⟨fun q => q.id = 0, fun _ st => st, fun _ st => .refl st⟩

def acceptedEvent : Queued := ⟨0, snapshot narrowLoad.st {.expired} "expired".toList [97] 0⟩

def ownEvent : Queued := ⟨1, snapshot narrowLoad.st {.expired} "expired".toList [98] 0⟩

/-- Two events of one command, the second of which finds the queue full; its job has drained the first. -/
def crowded : List Act := [.workerStart true, expire [97], expire [98], .runJob, .process, .runJob]

/-- The first of the two panics, and the job ends there: the event that triggered it is not processed, it is in no queue
any more, and no counter of losses shows it. -/
theorem fallback_panic_loses :
    firstPanics.bad acceptedEvent = true ∧ firstPanics.bad ownEvent = false ∧
    ∃ n, Machine.run (step narrow .calm) (fun _ _ => True) narrowLoad crowded = some n ∧
      n.taken = (Drain.fallback [acceptedEvent] ownEvent).events ∧
      let n' := guardJobs .calm firstPanics n (Drain.fallback [acceptedEvent] ownEvent).bodies
      n'.handed = [] ∧ n'.queue = [] ∧ n'.st.value .handlerPanics = 1 ∧ n'.st.value .eventsLost = 0 := by
  have hrun : (Machine.run (step narrow .calm) (fun _ _ => True) narrowLoad crowded).map (fun n =>
      let n' := guardJobs .calm firstPanics n (Drain.fallback [acceptedEvent] ownEvent).bodies
      (n.taken, n'.handed, n'.queue, n'.st.value .handlerPanics, n'.st.value .eventsLost)) =
        some ([acceptedEvent, ownEvent], [], [], 1, 0) := by decide +kernel
  obtain ⟨n, hn, hvalues⟩ := Option.map_eq_some_iff.1 hrun
  simp only [Prod.mk.injEq] at hvalues
  exact ⟨by decide, by decide, n, hn, hvalues⟩

end Node

end EventStream

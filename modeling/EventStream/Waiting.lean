import EventStream.Order
import Mathlib.Data.List.GetD

/-!
# The wait of the worker

`wait_until_ready` step by step. A node says that a worker waits until an event is queued or the stop is stored; here
the wait has the mutex of the queue, the condition variable and the clock. The main thread pushes under the mutex and
notifies after it has released it, and it stores the stop and notifies without the mutex.

- `Waiting`: a node with the place of its worker inside the wait, the times of its events and the notification the main
  thread still owes; `step` takes one step, and `Reach.node` says that the node takes steps of its own or none;
- `Timely`: what is known while the clock has been read or the worker sleeps, in every run (`Reach.timely`);
- `drained_on_time`: a full batch or an event of the age `max_wait + lag` ends the wait, in runs whose worker falls
  asleep within `lag` of reading the clock, and no wake-up of a push is lost;
- `join_returns`: the join of a stop returns, unless the worker had looked at the stop before it was stored and found
  the queue empty; then it sleeps for good.
-/

namespace EventStream

/-! ## The wait -/

/-- Where the worker is inside `wait_until_ready`. -/
inductive Wait
  /-- Before the mutex of the queue. -/
  | entering
  /-- The mutex is held, at the top of the loop. -/
  | looking
  /-- The mutex is held, and the stop was not stored when it was loaded. -/
  | unstopped
  /-- The mutex is held, and the oldest event has some time left, as of a reading of the clock. -/
  | measured (remaining readAt : Nat)
  /-- Asleep without the mutex, with or without a deadline. -/
  | parked (deadline : Option Nat)
  /-- Woken, before the mutex is taken again. -/
  | woken (timedOut : Bool)
  /-- The stop was seen, or will be at the next look at it: what is left to do is to drain everything and exit. -/
  | leaving
  deriving DecidableEq

/-- The worker holds the mutex. -/
def Wait.locked : Wait → Bool
  | looking | unstopped | measured _ _ => true
  | _ => false

/-- A notification wakes a worker that sleeps, and is lost on any other. -/
def Wait.notified : Wait → Wait
  | parked _ => woken false
  | wait => wait

theorem Wait.notified_of_awake {wait : Wait} (h : ∀ deadline, wait ≠ .parked deadline) : wait.notified = wait := by
  cases wait with
  | parked deadline => exact absurd rfl (h deadline)
  | _ => rfl

/-- A node, and what the wait of its worker depends on. -/
structure Waiting where
  node : Node
  /-- Where the worker is while the node says that it waits. -/
  wait : Wait
  now : Nat
  /-- The time of each dispatch. -/
  stamps : List Nat
  /-- The main thread has pushed an event or stored the stop, and has not notified the worker yet. -/
  owed : Bool

namespace Waiting

/-- `enqueued_at` of a queued event. -/
def enqueuedAt (w : Waiting) (q : Queued) : Nat := w.stamps.getD q.id 0

/-- The wait returns true. The worker goes on to the loop that tries the lock; there it leaves if the stop is stored. -/
def ready (setup : Setup) (env : Env) (w : Waiting) : Option Waiting :=
  if w.node.stop then some { w with wait := .leaving }
  else (Node.step setup env w.node .workerWake).map fun n => { w with node := n, wait := .entering }

/-- The next step of the worker inside the wait. -/
def waitUntilReady (setup : Setup) (maxWait : Nat) (env : Env) (w : Waiting) : Option Waiting :=
  match w.wait with
  | .entering => some { w with wait := .looking }
  | .looking => some { w with wait := if w.node.stop then .leaving else .unstopped }
  | .unstopped =>
    if setup.batch ≤ w.node.queue.length then w.ready setup env
    else
      match w.node.queue with
      | [] => some { w with wait := .parked none }
      | oldest :: _ =>
        let remaining := maxWait - (w.now - w.enqueuedAt oldest)
        if remaining = 0 then w.ready setup env else some { w with wait := .measured remaining w.now }
  | .measured remaining _ => some { w with wait := .parked (some (w.now + remaining)) }
  | .parked _ => none
  | .woken timedOut =>
    if timedOut = true ∧ w.node.queue ≠ [] then w.ready setup env else some { w with wait := .looking }
  | .leaving => (Node.step setup env w.node .workerStop).map fun n => { w with node := n, wait := .entering }

/-- Go on with another node. A dispatch is stamped, and a push or a stored stop owes a notification. -/
def pass (w : Waiting) (n : Node) : Waiting :=
  { w with
    node := n
    stamps := if n.dispatched.length = w.node.dispatched.length then w.stamps else w.stamps ++ [w.now]
    owed := w.owed || decide (w.node.queue.length < n.queue.length) || n.stop != w.node.stop }

inductive Act
  /-- A step of the node outside the wait. -/
  | node (act : Node.Act)
  /-- The next step of the worker inside the wait. -/
  | wait
  /-- The deadline of a sleeping worker is over. -/
  | timeout
  /-- A sleeping worker wakes for no reason. -/
  | spurious
  /-- The main thread notifies. -/
  | notify
  | tick (time : Nat)

/-- The steps of the worker outside the wait. -/
def isWorkers : Node.Act → Bool
  | .workerStart _ | .workerPrepare | .workerLock | .workerUnlock | .workerStop => true
  | _ => false

/-- The steps that take the worker out of the wait. -/
def endsWait : Node.Act → Bool
  | .workerWake | .workerStop => true
  | _ => false

/-- One step. While the worker holds the mutex, the main thread neither pushes nor drains. -/
def step (setup : Setup) (maxWait : Nat) (env : Env) (w : Waiting) : Act → Option Waiting
  | .node act =>
    if (w.owed = true → isWorkers act = true) ∧ (w.node.worker = .waiting → endsWait act = false) then
      (Node.step setup env w.node act).bind fun n =>
        if w.wait.locked = true → n.queue = w.node.queue then some (w.pass n) else none
    else none
  | .wait => if w.node.worker = .waiting then w.waitUntilReady setup maxWait env else none
  | .timeout =>
    match w.wait with
    | .parked (some deadline) => if deadline ≤ w.now then some { w with wait := .woken true } else none
    | _ => none
  | .spurious =>
    match w.wait with
    | .parked _ => some { w with wait := .woken false }
    | _ => none
  | .notify => if w.owed then some { w with owed := false, wait := w.wait.notified } else none
  | .tick time => some { w with now := w.now + time }

/-- The worker goes to sleep promptly: at most the given time after it has read the clock. -/
def prompt (lag : Nat) (w : Waiting) : Act → Bool
  | .tick time =>
    match w.wait with
    | .measured _ readAt => w.now + time ≤ readAt + lag
    | _ => true
  | _ => true

/-- A module that has just been loaded, at any time. -/
def Started (setup : Setup) (env : Env) (w : Waiting) : Prop :=
  Node.Loaded setup env w.node ∧ w.wait = .entering ∧ w.stamps = [] ∧ w.owed = false

def Reach (setup : Setup) (maxWait lag : Nat) (env : Env) : Waiting → Prop :=
  Machine.Reach (fun w act w' => step setup maxWait env w act = some w') (fun w act => prompt lag w act = true)
    (Started setup env)

end Waiting

/-! ## What a step of the node does to the queue -/

namespace Node

variable {setup : Setup} {env : Env} {n n' : Node}

/-- What the wait depends on: what is dispatched and queued, whether the worker still waits, and whether it is to stop.
-/
structure Flows (act : Act) (n n' : Node) : Prop where
  queue : (n'.dispatched = n.dispatched ∧ n'.queue <:+ n.queue) ∨
    ∃ q, n'.dispatched = n.dispatched ++ [q] ∧ (n'.queue = n.queue ∨ n'.queue = n.queue ++ [q])
  worker : n.worker = .waiting → Waiting.endsWait act = false → n'.worker = .waiting
  stop : n.stop = true → n'.stop = true

/-- A step that leaves the dispatch alone. -/
theorem Flows.of_same {act : Act}
    (h : (n'.dispatched, n'.queue, n'.worker, n'.stop) = (n.dispatched, n.queue, n.worker, n.stop)) :
    Flows act n n' := by
  simp only [Prod.mk.injEq] at h
  obtain ⟨hd, hq, hwk, hstop⟩ := h
  exact ⟨Or.inl ⟨hd, hq ▸ List.suffix_refl _⟩, fun hwait _ => hwk.trans hwait, fun hs => hstop.trans hs⟩

/-- A step of a worker that does not wait. -/
theorem Flows.of_worker {act : Act} (hd : n'.dispatched = n.dispatched) (hq : n'.queue <:+ n.queue)
    (hwk : n.worker ≠ .waiting ∨ Waiting.endsWait act = true) (hstop : n'.stop = n.stop) : Flows act n n' := by
  refine ⟨Or.inl ⟨hd, hq⟩, fun hwait hact => ?_, fun hs => hstop.trans hs⟩
  rcases hwk with hwk | hwk
  · exact absurd hwait hwk
  · rw [hwk] at hact
    cases hact

theorem lockWorker_queue (setup : Setup) (n : Node) (snapshot : Option EnvelopeSnapshot) :
    (n.lockWorker setup snapshot).dispatched = n.dispatched ∧ (n.lockWorker setup snapshot).queue <:+ n.queue := by
  unfold lockWorker
  split
  · split
    · rename_i hdrain
      refine ⟨rfl, ?_⟩
      unfold drainSnapshot at hdrain
      split at hdrain
      · injection hdrain with hdrain
        exact hdrain ▸ List.drop_suffix _ _
      · cases hdrain
    · exact ⟨rfl, List.suffix_refl _⟩
  · exact ⟨rfl, List.drop_suffix _ _⟩

theorem step_flows {act : Act} (hw : Wf setup n) (h : step setup env n act = some n') : Flows act n n' := by
  cases step_fires h with
  | acquire | release | command | setEnabled | configure | process | stopSync => exact .of_same rfl
  | finish => exact .of_same rfl
  | notify hmay =>
    rename_i cls event key db contended registered markersRegistered
    rcases onKeyspaceEvent_cases env hw cls event db contended registered markersRegistered hmay with
      ⟨st, -, hn'⟩ | ⟨-, -, e, lane, hr⟩
    · rw [hn']
      exact .of_same rfl
    · obtain ⟨-, -, -, -, -, hwk, hstop, -⟩ := hr.control
      refine ⟨Or.inr ⟨_, hr.dispatched, ?_⟩, fun hwait _ => hwk.trans hwait, fun hs => hstop.trans hs⟩
      have hq := hr.queue
      cases lane with
      | queue => exact Or.inr hq
      | fallback | job | nowhere => exact Or.inl hq
  | cron =>
    rcases cron_ticked env n with hn' | ⟨st, -, hn'⟩ | ⟨-, st, control, retention, -, -, -, -, hn'⟩ <;>
    · rw [hn']
      exact .of_same rfl
  | runJob hheld hrun htodo hj =>
    rename_i job jobs
    cases job with
    | event q => exact .of_same rfl
    | fallback q => exact ⟨Or.inl ⟨rfl, List.dropWhile_suffix _⟩, fun hwait _ => hwait, id⟩
    | markers job => exact .of_same rfl
  | started hstart => exact .of_worker rfl (List.suffix_refl _) (Or.inl (by rw [hstart]; decide)) rfl
  | notStarted hstart => exact .of_worker rfl List.nil_suffix (Or.inl (by rw [hstart]; decide)) rfl
  | wake => exact .of_worker rfl (List.suffix_refl _) (Or.inr rfl) rfl
  | prepare hready => exact .of_worker rfl (List.suffix_refl _) (Or.inl (by rw [hready]; decide)) rfl
  | lock hwk hfree =>
    rename_i snapshot
    obtain ⟨hd, hq⟩ := lockWorker_queue setup n snapshot
    exact .of_worker hd hq (Or.inl (by rw [hwk]; simp)) (lockWorker_control setup n snapshot).2.2.1
  | unlock hhold => exact .of_worker rfl (List.suffix_refl _) (Or.inl (by rw [hw.lock.1 hhold]; decide)) rfl
  | stopWaiting | stopSpinning => exact .of_worker rfl List.nil_suffix (Or.inr rfl) rfl
  | requestStop => exact ⟨Or.inl ⟨rfl, List.suffix_refl _⟩, fun hwait _ => hwait, fun _ => rfl⟩
  | join hjoin hwk => exact .of_worker rfl (List.suffix_refl _) (Or.inl (by rw [hwk]; simp)) rfl

end Node

/-! ## The steps -/

namespace Waiting

variable {setup : Setup} {maxWait lag : Nat} {env : Env} {w w' : Waiting}

/-- The steps of the machine, one rule for each way a step can go. -/
inductive Moves (setup : Setup) (maxWait : Nat) (env : Env) (w : Waiting) : Act → Waiting → Prop
  | node {act : Node.Act} {n : Node} (hstep : Node.step setup env w.node act = some n)
      (howed : w.owed = true → isWorkers act = true) (hkeep : w.node.worker = .waiting → endsWait act = false)
      (hlock : w.wait.locked = true → n.queue = w.node.queue) : Moves setup maxWait env w (.node act) (w.pass n)
  | enter (hwait : w.node.worker = .waiting) (hat : w.wait = .entering) :
      Moves setup maxWait env w .wait { w with wait := .looking }
  | again (hwait : w.node.worker = .waiting) {timedOut : Bool} (hat : w.wait = .woken timedOut) :
      Moves setup maxWait env w .wait { w with wait := .looking }
  | seen (hwait : w.node.worker = .waiting) (hat : w.wait = .looking) (hstop : w.node.stop = true) :
      Moves setup maxWait env w .wait { w with wait := .leaving }
  | unseen (hwait : w.node.worker = .waiting) (hat : w.wait = .looking) (hstop : w.node.stop = false) :
      Moves setup maxWait env w .wait { w with wait := .unstopped }
  /-- The wait returns true. -/
  | wake {n : Node} (hwait : w.node.worker = .waiting) (hat : w.wait = .unstopped ∨ w.wait = .woken true)
      (hstep : Node.step setup env w.node .workerWake = some n) :
      Moves setup maxWait env w .wait { w with node := n, wait := .entering }
  /-- The wait returns true, and the stop was stored since it was last looked at. -/
  | late (hwait : w.node.worker = .waiting) (hat : w.wait = .unstopped ∨ w.wait = .woken true)
      (hstop : w.node.stop = true) (hqueue : w.node.queue ≠ []) :
      Moves setup maxWait env w .wait { w with wait := .leaving }
  | park (hwait : w.node.worker = .waiting) (hat : w.wait = .unstopped) (hbatch : w.node.queue.length < setup.batch)
      (hqueue : w.node.queue = []) : Moves setup maxWait env w .wait { w with wait := .parked none }
  | measure {oldest : Queued} {rest : List Queued} (hwait : w.node.worker = .waiting) (hat : w.wait = .unstopped)
      (hbatch : w.node.queue.length < setup.batch) (hqueue : w.node.queue = oldest :: rest)
      (hleft : maxWait - (w.now - w.enqueuedAt oldest) ≠ 0) :
      Moves setup maxWait env w .wait { w with wait := .measured (maxWait - (w.now - w.enqueuedAt oldest)) w.now }
  | sleep {remaining readAt : Nat} (hwait : w.node.worker = .waiting) (hat : w.wait = .measured remaining readAt) :
      Moves setup maxWait env w .wait { w with wait := .parked (some (w.now + remaining)) }
  | exit {n : Node} (hwait : w.node.worker = .waiting) (hat : w.wait = .leaving)
      (hstep : Node.step setup env w.node .workerStop = some n) :
      Moves setup maxWait env w .wait { w with node := n, wait := .entering }
  | timeout {deadline : Nat} (hat : w.wait = .parked (some deadline)) (hdue : deadline ≤ w.now) :
      Moves setup maxWait env w .timeout { w with wait := .woken true }
  | spurious {deadline : Option Nat} (hat : w.wait = .parked deadline) :
      Moves setup maxWait env w .spurious { w with wait := .woken false }
  | notified {deadline : Option Nat} (howed : w.owed = true) (hat : w.wait = .parked deadline) :
      Moves setup maxWait env w .notify { w with owed := false, wait := .woken false }
  | unheard (howed : w.owed = true) (hat : ∀ deadline, w.wait ≠ .parked deadline) :
      Moves setup maxWait env w .notify { w with owed := false }
  | tick {time : Nat} : Moves setup maxWait env w (.tick time) { w with now := w.now + time }

/-- A wait that returns true goes one of two ways. -/
theorem ready_moves (hwait : w.node.worker = .waiting) (hat : w.wait = .unstopped ∨ w.wait = .woken true)
    (hqueue : w.node.queue ≠ []) (h : w.ready setup env = some w') : Moves setup maxWait env w .wait w' := by
  unfold ready at h
  split at h
  · rename_i hstop
    cases h
    exact .late hwait hat hstop hqueue
  · obtain ⟨n, hstep, rfl⟩ := Option.map_eq_some_iff.1 h
    exact .wake hwait hat hstep

theorem waitUntilReady_moves (hwait : w.node.worker = .waiting) (h : w.waitUntilReady setup maxWait env = some w') :
    Moves setup maxWait env w .wait w' := by
  unfold waitUntilReady at h
  split at h <;> rename_i hat
  · cases h
    exact .enter hwait hat
  · cases h
    cases hstop : w.node.stop with
    | true => exact .seen hwait hat hstop
    | false => exact .unseen hwait hat hstop
  · split at h
    · rename_i hbatch
      have hne : w.node.queue ≠ [] := List.ne_nil_of_length_pos (Nat.lt_of_lt_of_le setup.batch_pos hbatch)
      exact ready_moves hwait (Or.inl hat) hne h
    · rename_i hbatch
      cases hqueue : w.node.queue with
      | nil =>
        rw [hqueue] at h
        cases h
        exact .park hwait hat (Nat.lt_of_not_le hbatch) hqueue
      | cons oldest rest =>
        rw [hqueue] at h
        simp only at h
        split at h
        · exact ready_moves hwait (Or.inl hat) (by rw [hqueue]; exact List.cons_ne_nil _ _) h
        · rename_i hleft
          cases h
          exact .measure hwait hat (Nat.lt_of_not_le hbatch) hqueue hleft
  · cases h
    exact .sleep hwait hat
  · cases h
  · split at h
    · rename_i hboth
      exact ready_moves hwait (Or.inr (hboth.1 ▸ hat)) hboth.2 h
    · cases h
      exact .again hwait hat
  · obtain ⟨n, hstep, rfl⟩ := Option.map_eq_some_iff.1 h
    exact .exit hwait hat hstep

theorem step_moves {act : Act} (h : step setup maxWait env w act = some w') : Moves setup maxWait env w act w' := by
  cases act with
  | node act =>
    simp only [step, Option.ite_none_right_eq_some] at h
    obtain ⟨⟨howed, hkeep⟩, h⟩ := h
    obtain ⟨n, hstep, h⟩ := Option.bind_eq_some_iff.1 h
    simp only [Option.ite_none_right_eq_some, Option.some.injEq] at h
    obtain ⟨hlock, rfl⟩ := h
    exact .node hstep howed hkeep hlock
  | wait =>
    simp only [step, Option.ite_none_right_eq_some] at h
    exact waitUntilReady_moves h.1 h.2
  | timeout =>
    simp only [step] at h
    split at h
    · rename_i deadline hat
      simp only [Option.ite_none_right_eq_some, Option.some.injEq] at h
      obtain ⟨hdue, rfl⟩ := h
      exact .timeout hat hdue
    · cases h
  | spurious =>
    simp only [step] at h
    split at h
    · rename_i deadline hat
      cases h
      exact .spurious hat
    · cases h
  | notify =>
    simp only [step, Option.ite_none_right_eq_some, Option.some.injEq] at h
    obtain ⟨howed, rfl⟩ := h
    by_cases hat : ∃ deadline, w.wait = .parked deadline
    · obtain ⟨deadline, hat⟩ := hat
      rw [hat]
      exact .notified howed hat
    · have hawake : ∀ deadline, w.wait ≠ .parked deadline := fun deadline h => hat ⟨deadline, h⟩
      rw [Wait.notified_of_awake hawake]
      exact .unheard howed hawake
  | tick time =>
    cases h
    exact .tick

/-- The node of a reachable state is reachable: the wait refines the step of a node that wakes its worker. -/
theorem Reach.node (h : Reach setup maxWait lag env w) : Node.Reach setup env (fun _ _ => True) w.node := by
  refine h.invariant (I := fun w => Node.Reach setup env (fun _ _ => True) w.node) (fun w hs => .start hs.1)
    fun w act w' _ _ hs ih => ?_
  cases step_moves hs with
  | node hstep => exact ih.next trivial hstep
  | wake _ _ hstep => exact ih.next trivial hstep
  | exit _ _ hstep => exact ih.next trivial hstep
  | _ => exact ih

/-! ## Stamps -/

/-- The stamps of the dispatches, in order and in the past. -/
structure Stamped (w : Waiting) : Prop where
  length : w.stamps.length = w.node.dispatched.length
  sorted : w.stamps.Pairwise (· ≤ ·)
  past : ∀ t ∈ w.stamps, t ≤ w.now

theorem Stamped.enqueuedAt_le (hs : Stamped w) {q : Queued} (hq : q.id < w.node.dispatched.length) :
    w.enqueuedAt q ≤ w.now := by
  rw [← hs.length] at hq
  rw [enqueuedAt, List.getD_eq_getElem _ _ hq]
  exact hs.past _ (List.getElem_mem hq)

theorem Stamped.enqueuedAt_mono (hs : Stamped w) {q q' : Queued} (hle : q.id ≤ q'.id)
    (hq : q'.id < w.node.dispatched.length) : w.enqueuedAt q ≤ w.enqueuedAt q' := by
  rw [← hs.length] at hq
  rw [enqueuedAt, enqueuedAt, List.getD_eq_getElem _ _ hq, List.getD_eq_getElem _ _ (Nat.lt_of_le_of_lt hle hq)]
  rcases Nat.lt_or_eq_of_le hle with hlt | heq
  · exact List.pairwise_iff_getElem.1 hs.sorted _ _ _ _ hlt
  · simp only [heq, Nat.le_refl]

/-- The stamp of an event does not change. -/
theorem Stamped.enqueuedAt_pass (hs : Stamped w) (n : Node) {q : Queued} (hq : q.id < w.node.dispatched.length) :
    (w.pass n).enqueuedAt q = w.enqueuedAt q := by
  rw [← hs.length] at hq
  simp only [enqueuedAt, pass]
  split
  · rfl
  · rw [List.getD_append _ _ _ _ hq]

theorem Stamped.pass (hs : Stamped w) {act : Node.Act} {n : Node} (hf : Node.Flows act w.node n) :
    Stamped (w.pass n) := by
  rcases hf.queue with ⟨hd, -⟩ | ⟨q, hd, -⟩
  · have heq : (w.pass n).stamps = w.stamps := if_pos (by rw [hd])
    refine ⟨?_, ?_, ?_⟩
    · rw [heq]
      exact hs.length.trans (by rw [← hd]; rfl)
    · rw [heq]
      exact hs.sorted
    · rw [heq]
      exact hs.past
  · have hlen : n.dispatched.length = w.node.dispatched.length + 1 := by
      rw [hd, List.length_append, List.length_singleton]
    have heq : (w.pass n).stamps = w.stamps ++ [w.now] := if_neg (by omega)
    refine ⟨?_, ?_, ?_⟩
    · rw [heq, List.length_append, List.length_singleton, hs.length]
      exact hlen.symm
    · rw [heq]
      refine List.pairwise_append.2 ⟨hs.sorted, List.pairwise_singleton _ _, fun t ht t' ht' => ?_⟩
      rw [List.mem_singleton.1 ht']
      exact hs.past t ht
    · intro t ht
      rw [heq] at ht
      rcases List.mem_append.1 ht with ht | ht
      · exact hs.past t ht
      · exact Nat.le_of_eq (List.mem_singleton.1 ht)

theorem Stamped.of_wait (hs : Stamped w) (hst : w'.stamps = w.stamps) (hd : w'.node.dispatched = w.node.dispatched)
    (hnow : w.now ≤ w'.now) : Stamped w' :=
  ⟨by rw [hst, hd, hs.length], hst ▸ hs.sorted, fun t ht => (hs.past t (hst ▸ ht)).trans hnow⟩

/-! ## What the worker knows -/

/-- What is known at each place of the wait. -/
structure Timely (setup : Setup) (maxWait lag : Nat) (w : Waiting) : Prop where
  stamped : Stamped w
  outside : w.node.worker ≠ .waiting → w.wait = .entering
  leaving : w.wait = .leaving → w.node.stop = true
  /-- The reading of the clock is recent, and the queue is as it was: it ends where the oldest event is due. -/
  measured : ∀ remaining readAt, w.wait = .measured remaining readAt → readAt ≤ w.now ∧ w.now ≤ readAt + lag ∧
    0 < remaining ∧ remaining ≤ maxWait ∧ w.node.queue.length < setup.batch ∧
      ∃ oldest rest, w.node.queue = oldest :: rest ∧ readAt + remaining = w.enqueuedAt oldest + maxWait
  /-- No full batch is slept on, and no event without a deadline or beyond its own. -/
  parked : ∀ deadline, w.wait = .parked deadline → w.owed = false → w.node.queue.length < setup.batch ∧
    (deadline = none → w.node.queue = []) ∧
      ∀ t, deadline = some t → ∀ oldest ∈ w.node.queue.head?, t ≤ w.enqueuedAt oldest + maxWait + lag
  soon : ∀ t, w.wait = .parked (some t) → t ≤ w.now + maxWait

/-- Where the worker neither reads the clock nor sleeps nor leaves, there is nothing to know. -/
theorem Timely.of_plain (hst : Stamped w')
    (hout : w'.node.worker ≠ .waiting → w'.wait = .entering)
    (hplain : w'.wait = .entering ∨ w'.wait = .looking ∨ w'.wait = .unstopped ∨ ∃ timedOut, w'.wait = .woken timedOut) :
    Timely setup maxWait lag w' := by
  have hno : w'.wait ≠ .leaving ∧ (∀ r t, w'.wait ≠ .measured r t) ∧ ∀ d, w'.wait ≠ .parked d := by
    rcases hplain with h | h | h | ⟨timedOut, h⟩ <;> simp [h]
  exact ⟨hst, hout, fun h => absurd h hno.1, fun r t h => absurd h (hno.2.1 r t), fun d h => absurd h (hno.2.2 d),
    fun t h => absurd h (hno.2.2 _)⟩

/-- A step of the node: while the worker sleeps the queue can only be drained, or the worker will be notified. -/
theorem Timely.pass (ht : Timely setup maxWait lag w) (hw : Node.Wf setup w.node) {act : Node.Act} {n : Node}
    (hf : Node.Flows act w.node n) (hkeep : w.node.worker = .waiting → endsWait act = false)
    (hlock : w.wait.locked = true → n.queue = w.node.queue) : Timely setup maxWait lag (w.pass n) := by
  have hout : n.worker ≠ .waiting → w.wait = .entering := by
    intro hn
    by_contra hne
    have hwait : w.node.worker = .waiting := by
      by_contra hwait
      exact hne (ht.outside hwait)
    exact hn (hf.worker hwait (hkeep hwait))
  refine ⟨ht.stamped.pass hf, hout, fun h => hf.stop (ht.leaving h), fun remaining readAt h => ?_,
    fun deadline h hold => ?_, ht.soon⟩
  · obtain ⟨hread, hlag, hpos, hle, hbatch, oldest, rest, hqueue, hsum⟩ := ht.measured remaining readAt h
    have hsame : n.queue = w.node.queue := hlock (by rw [show w.wait = _ from h]; rfl)
    refine ⟨hread, hlag, hpos, hle, ?_, oldest, rest, hsame.trans hqueue, ?_⟩
    · change n.queue.length < _
      rw [hsame]
      exact hbatch
    · rw [ht.stamped.enqueuedAt_pass n (hw.below oldest (by rw [hqueue]; exact List.mem_cons_self))]
      exact hsum
  · have hold' : (w.owed || decide (w.node.queue.length < n.queue.length) || n.stop != w.node.stop) = false := hold
    simp only [Bool.or_eq_false_iff, decide_eq_false_iff_not] at hold'
    obtain ⟨⟨howed, hshort⟩, -⟩ := hold'
    obtain ⟨hbatch, hnone, hsome⟩ := ht.parked deadline h howed
    have hsuffix : n.queue <:+ w.node.queue := by
      rcases hf.queue with ⟨-, hs⟩ | ⟨q, -, hs | hs⟩
      · exact hs
      · exact hs ▸ List.suffix_refl _
      · rw [hs, List.length_append, List.length_singleton] at hshort
        omega
    refine ⟨Nat.lt_of_le_of_lt hsuffix.length_le hbatch, fun hd => List.eq_nil_of_suffix_nil (hnone hd ▸ hsuffix),
      fun t hd oldest hhead => ?_⟩
    have hmem : oldest ∈ w.node.queue := hsuffix.subset (List.mem_of_mem_head? hhead)
    have hbelow := hw.below oldest hmem
    rw [ht.stamped.enqueuedAt_pass n hbelow]
    -- the deadline was set for an event that was as old as this one, or older
    cases hqueue : w.node.queue with
    | nil => rw [hqueue] at hmem; cases hmem
    | cons first rest =>
      have hfirst := hsome t hd first (by rw [hqueue]; rfl)
      have hle : first.id ≤ oldest.id := by
        rw [hqueue] at hmem
        rcases List.mem_cons.1 hmem with heq | hrest
        · rw [heq]
        · have hasc := hw.ascending
          rw [hqueue] at hasc
          exact Nat.le_of_lt ((List.pairwise_cons.1 hasc).1 oldest hrest)
      have hmono := ht.stamped.enqueuedAt_mono hle hbelow
      omega

theorem step_timely {act : Act} (hw : Node.Wf setup w.node) (ht : Timely setup maxWait lag w)
    (hp : prompt lag w act = true) (h : step setup maxWait env w act = some w') : Timely setup maxWait lag w' := by
  have hst := ht.stamped
  cases step_moves h with
  | node hstep howed hkeep hlock => exact ht.pass hw (Node.step_flows hw hstep) hkeep hlock
  | enter hwait hat =>
    exact .of_plain (hst.of_wait rfl rfl (Nat.le_refl _)) (fun hn => absurd hwait hn) (Or.inr (Or.inl rfl))
  | again hwait hat =>
    exact .of_plain (hst.of_wait rfl rfl (Nat.le_refl _)) (fun hn => absurd hwait hn) (Or.inr (Or.inl rfl))
  | seen hwait hat hstop =>
    exact ⟨hst.of_wait rfl rfl (Nat.le_refl _), fun hn => absurd hwait hn, fun _ => hstop, nofun,
      nofun, nofun⟩
  | late hwait hat hstop hqueue =>
    exact ⟨hst.of_wait rfl rfl (Nat.le_refl _), fun hn => absurd hwait hn, fun _ => hstop, nofun,
      nofun, nofun⟩
  | unseen hwait hat hstop =>
    exact .of_plain (hst.of_wait rfl rfl (Nat.le_refl _)) (fun hn => absurd hwait hn) (Or.inr (Or.inr (Or.inl rfl)))
  | wake hwait hat hstep =>
    cases Node.step_fires hstep
    exact .of_plain (hst.of_wait rfl rfl (Nat.le_refl _)) (fun _ => rfl) (Or.inl rfl)
  | exit hwait hat hstep =>
    have hd : ∀ n, Node.step setup env w.node .workerStop = some n → n.dispatched = w.node.dispatched := by
      intro n hn
      cases Node.step_fires hn <;> rfl
    exact .of_plain (hst.of_wait rfl (hd _ hstep) (Nat.le_refl _)) (fun _ => rfl) (Or.inl rfl)
  | park hwait hat hbatch hqueue =>
    refine ⟨hst.of_wait rfl rfl (Nat.le_refl _), fun hn => absurd hwait hn, nofun, nofun,
      fun deadline h _ => ?_, nofun⟩
    cases h
    exact ⟨hbatch, fun _ => hqueue, nofun⟩
  | measure hwait hat hbatch hqueue hleft =>
    rename_i oldest rest
    refine ⟨hst.of_wait rfl rfl (Nat.le_refl _), fun hn => absurd hwait hn, nofun, fun remaining readAt h => ?_,
      nofun, nofun⟩
    cases h
    have hpast := hst.enqueuedAt_le (hw.below oldest (by rw [hqueue]; exact List.mem_cons_self))
    refine ⟨Nat.le_refl _, Nat.le_add_right _ _, Nat.pos_of_ne_zero hleft, Nat.sub_le _ _, hbatch, oldest,
      rest, hqueue, ?_⟩
    change w.now + _ = w.enqueuedAt oldest + maxWait
    omega
  | sleep hwait hat =>
    rename_i remaining readAt
    obtain ⟨hread, hlag, hpos, hle, hbatch, oldest, rest, hqueue, hsum⟩ := ht.measured remaining readAt hat
    refine ⟨hst.of_wait rfl rfl (Nat.le_refl _), fun hn => absurd hwait hn, nofun, nofun,
      fun deadline h _ => ?_, fun t h => ?_⟩
    · cases h
      refine ⟨hbatch, nofun, fun t h q hq => ?_⟩
      cases h
      have hq' : q ∈ w.node.queue.head? := hq
      rw [hqueue] at hq'
      cases hq'
      change _ ≤ w.enqueuedAt oldest + maxWait + lag
      omega
    · cases h
      exact Nat.add_le_add_left hle _
  | timeout hat hdue =>
    exact .of_plain (hst.of_wait rfl rfl (Nat.le_refl _)) (fun hn => by
      have := ht.outside hn
      rw [hat] at this
      cases this) (Or.inr (Or.inr (Or.inr ⟨true, rfl⟩)))
  | spurious hat =>
    exact .of_plain (hst.of_wait rfl rfl (Nat.le_refl _)) (fun hn => by
      have := ht.outside hn
      rw [hat] at this
      cases this) (Or.inr (Or.inr (Or.inr ⟨false, rfl⟩)))
  | notified howed hat =>
    exact .of_plain (hst.of_wait rfl rfl (Nat.le_refl _)) (fun hn => by
      have := ht.outside hn
      rw [hat] at this
      cases this) (Or.inr (Or.inr (Or.inr ⟨false, rfl⟩)))
  | unheard howed hat =>
    exact ⟨hst.of_wait rfl rfl (Nat.le_refl _), ht.outside, ht.leaving, ht.measured,
      fun d h => absurd h (hat d), ht.soon⟩
  | tick =>
    rename_i time
    refine ⟨hst.of_wait rfl rfl (Nat.le_add_right _ _), ht.outside, ht.leaving, fun remaining readAt h => ?_, ht.parked,
      fun t h => (ht.soon t h).trans ?_⟩
    · obtain ⟨hread, -, hrest⟩ := ht.measured remaining readAt h
      have hlag : w.now + time ≤ readAt + lag := by
        simp only [prompt, show w.wait = _ from h, decide_eq_true_eq] at hp
        exact hp
      exact ⟨hread.trans (Nat.le_add_right _ _), hlag, hrest⟩
    · change _ ≤ w.now + time + maxWait
      omega

theorem Reach.timely (h : Reach setup maxWait lag env w) : Timely setup maxWait lag w := by
  refine h.invariant (fun w hs => ?_) fun w act w' hr hp hs ih => step_timely (Reach.node hr).wf ih hp hs
  obtain ⟨hl, hat, hstamps, -⟩ := hs
  refine .of_plain ⟨?_, by rw [hstamps]; exact .nil, fun t ht => by rw [hstamps] at ht; cases ht⟩
    (fun _ => hat) (Or.inl hat)
  obtain ⟨config, host, ks, generation, master, loading, mode, -, hn⟩ := hl
  rw [hstamps, hn]
  rfl

/-! ## The latency bound -/

/-- The steps that a waiting worker takes by itself. -/
def isOwn : Act → Bool
  | .wait | .timeout => true
  | _ => false

/-- The worker leaves the wait within some steps of its own. -/
def WakesWithin (setup : Setup) (maxWait : Nat) (env : Env) (k : Nat) (w : Waiting) : Prop :=
  ∃ acts w', acts.length ≤ k ∧ (∀ act ∈ acts, isOwn act = true) ∧
    Machine.Path (fun w act w' => step setup maxWait env w act = some w') w acts w' ∧
      w'.node = { w.node with worker := .ready }

theorem WakesWithin.cons {k : Nat} {act : Act} (hown : isOwn act = true) (h : step setup maxWait env w act = some w')
    (hn : w'.node = w.node) (hw : WakesWithin setup maxWait env k w') : WakesWithin setup maxWait env (k + 1) w := by
  obtain ⟨acts, w'', hlen, hall, hpath, hready⟩ := hw
  refine ⟨act :: acts, w'', Nat.succ_le_succ hlen, fun a ha => ?_, .cons h hpath, hn ▸ hready⟩
  rcases List.mem_cons.1 ha with rfl | ha
  · exact hown
  · exact hall a ha

theorem WakesWithin.mono {k k' : Nat} (hw : WakesWithin setup maxWait env k w) (hle : k ≤ k') :
    WakesWithin setup maxWait env k' w := by
  obtain ⟨acts, w', hlen, hrest⟩ := hw
  exact ⟨acts, w', hlen.trans hle, hrest⟩

/-- The wait returns true in its next step. -/
theorem wakes_of_ready (hwait : w.node.worker = .waiting) (hstop : w.node.stop = false) (hqueue : w.node.queue ≠ [])
    (h : w.waitUntilReady setup maxWait env = w.ready setup env) : WakesWithin setup maxWait env 1 w := by
  refine ⟨[.wait], { w with node := { w.node with worker := .ready }, wait := .entering }, Nat.le_refl _,
    fun a ha => by rw [List.mem_singleton.1 ha]; rfl, .single ?_, rfl⟩
  have hwake : Node.step setup env w.node .workerWake = some { w.node with worker := .ready } :=
    if_pos ⟨hwait, hstop, hqueue⟩
  simp only [step, if_pos hwait, h, ready, hstop, hwake]
  rfl

/-- A batch is complete, or the oldest event has been queued for `max_wait`. -/
def Due (setup : Setup) (maxWait : Nat) (w : Waiting) : Prop :=
  ∃ oldest rest, w.node.queue = oldest :: rest ∧
    (setup.batch ≤ w.node.queue.length ∨ w.enqueuedAt oldest + maxWait ≤ w.now)

theorem Due.queue_ne_nil (h : Due setup maxWait w) : w.node.queue ≠ [] := by
  obtain ⟨oldest, rest, hqueue, -⟩ := h
  rw [hqueue]
  exact List.cons_ne_nil _ _

theorem wakes_of_unstopped (hwait : w.node.worker = .waiting) (hstop : w.node.stop = false) (hdue : Due setup maxWait w)
    (hat : w.wait = .unstopped) : WakesWithin setup maxWait env 1 w := by
  refine wakes_of_ready hwait hstop hdue.queue_ne_nil ?_
  obtain ⟨oldest, rest, hqueue, hdue⟩ := hdue
  simp only [waitUntilReady, hat]
  split
  · rfl
  · rename_i hbatch
    have hold := hdue.resolve_left hbatch
    simp only [hqueue]
    exact if_pos (by omega)

theorem wakes_of_looking (hwait : w.node.worker = .waiting) (hstop : w.node.stop = false) (hdue : Due setup maxWait w)
    (hat : w.wait = .looking) : WakesWithin setup maxWait env 2 w := by
  have hnext : step setup maxWait env w .wait = some { w with wait := .unstopped } := by
    simp only [step, if_pos hwait, waitUntilReady, hat, hstop]
    rfl
  exact .cons rfl hnext rfl (wakes_of_unstopped hwait hstop hdue rfl)

/-- **A full batch, or an event that has waited long enough, ends the wait.** In a run whose worker falls asleep within
`lag` of reading the clock: whenever the worker waits, no stop is stored, no notification is under way, and a batch is
complete or the oldest event has been queued for `max_wait + lag`, the worker goes on within three steps of its own, and
with the queue as it is. So the wake-up of a push is never lost, and a sleeping worker has a deadline that is at most
`lag` later than the oldest event allows. -/
theorem drained_on_time (setup : Setup) (maxWait lag : Nat) (env : Env) (w : Waiting)
    (h : Reach setup maxWait lag env w) (hwait : w.node.worker = .waiting) (hstop : w.node.stop = false)
    (howed : w.owed = false) (oldest : Queued) (rest : List Queued) (hqueue : w.node.queue = oldest :: rest)
    (hold : setup.batch ≤ w.node.queue.length ∨ w.enqueuedAt oldest + maxWait + lag ≤ w.now) :
    WakesWithin setup maxWait env 3 w := by
  have ht := h.timely
  have hdue : Due setup maxWait w := ⟨oldest, rest, hqueue, hold.imp_right fun h => (Nat.le_add_right _ _).trans h⟩
  have hne := hdue.queue_ne_nil
  cases hat : w.wait with
  | entering =>
    have hnext : step setup maxWait env w .wait = some { w with wait := .looking } := by
      simp only [step, if_pos hwait, waitUntilReady, hat]
    exact .cons rfl hnext rfl (wakes_of_looking hwait hstop hdue rfl)
  | looking => exact (wakes_of_looking hwait hstop hdue hat).mono (by omega)
  | unstopped => exact (wakes_of_unstopped hwait hstop hdue hat).mono (by omega)
  | measured remaining readAt =>
    -- the mutex has been held since the clock was read, so neither case can have come up since
    obtain ⟨-, hlag, hpos, -, hbatch, first, _, hfirst, hsum⟩ := ht.measured remaining readAt hat
    rw [hqueue] at hfirst
    cases hfirst
    omega
  | parked deadline =>
    obtain ⟨hbatch, hnone, hsome⟩ := ht.parked deadline hat howed
    cases deadline with
    | none => exact absurd (hnone rfl) hne
    | some t =>
      have hle := hsome t rfl oldest (by rw [hqueue]; rfl)
      have hnow : t ≤ w.now := by omega
      have hnext : step setup maxWait env w .timeout = some { w with wait := .woken true } := by
        simp only [step, hat, if_pos hnow]
      exact (WakesWithin.cons rfl hnext rfl (wakes_of_ready hwait hstop hne (if_pos ⟨rfl, hne⟩))).mono (by omega)
  | woken timedOut =>
    cases timedOut with
    | true =>
      have hready : w.waitUntilReady setup maxWait env = w.ready setup env := by
        simp only [waitUntilReady, hat]
        exact if_pos ⟨trivial, hne⟩
      exact (wakes_of_ready hwait hstop hne hready).mono (by omega)
    | false =>
      have hnext : step setup maxWait env w .wait = some { w with wait := .looking } := by
        simp only [step, if_pos hwait, waitUntilReady, hat]
        exact if_neg fun hf => absurd hf.1 (by decide)
      exact .cons rfl hnext rfl (wakes_of_looking hwait hstop hdue rfl)
  | leaving =>
    rw [ht.leaving hat] at hstop
    cases hstop

/-- Batches of two. -/
def pairs : Setup := ⟨.individual, 2, 2, Nat.two_pos, Nat.two_pos⟩

theorem narrowLoad_pairs : Node.Loaded pairs .calm Node.narrowLoad :=
  ⟨.defaults, ⟨false, true, false, .ok ()⟩, .empty, "0".toList, true, false, .individual, rfl, rfl⟩

/-- A load at time zero. -/
def pairsLoad : Waiting := ⟨Node.narrowLoad, .entering, 0, [], false⟩

/-- The worker sleeps without a deadline, is notified of one event, sleeps until that event is five units old, and these
pass. -/
def oneEvent : List Act :=
  [.node (.workerStart true), .wait, .wait, .wait, .node (Node.expire [97]), .notify, .wait, .wait, .wait,
    .wait, .tick 5]

theorem drained_on_time_one :
    ∃ w oldest, Machine.run (step pairs 5 .calm) (fun w act => prompt 0 w act = true) pairsLoad
    oneEvent = some w ∧ w.wait = .parked (some 5) ∧ w.node.queue = [oldest] ∧ w.enqueuedAt oldest = 0 ∧
    WakesWithin pairs 5 .calm 3 w := by
  have hrun : (Machine.run (step pairs 5 .calm) (fun w act => prompt 0 w act = true) pairsLoad oneEvent).map (fun w =>
      (w.wait, w.node.worker, [w.node.stop, w.owed], [w.node.queue.map Queued.id, w.stamps, [w.now]])) =
      some (.parked (some 5), .waiting, [false, false], [[0], [0], [5]]) := by decide +kernel
  obtain ⟨w, hw, hall⟩ := Option.map_eq_some_iff.1 hrun
  simp only [Prod.mk.injEq, List.cons.injEq, and_true] at hall
  obtain ⟨hat, hwait, ⟨hstop, howed⟩, hids, hstamps, hnow⟩ := hall
  obtain ⟨oldest, hqueue, hid⟩ := List.map_eq_singleton_iff.1 hids
  have hzero : w.enqueuedAt oldest = 0 := by rw [enqueuedAt, hstamps, hid]; rfl
  refine ⟨w, oldest, hw, hat, hqueue, hzero, ?_⟩
  have hreach : Reach pairs 5 0 .calm w := Machine.reach_of_run (.start ⟨narrowLoad_pairs, rfl, rfl, rfl⟩) hw
  exact drained_on_time pairs 5 0 .calm w hreach hwait hstop howed oldest [] hqueue (Or.inr (by rw [hzero, hnow]))

end Waiting

/-! ## The join of a stop -/

namespace Node

variable {setup : Setup} {env : Env} {n n' : Node}

theorem exitWorker_worker (n : Node) : n.exitWorker.worker = .exited n.queue := rfl

/-- While the main thread is at work or waits for the worker, it has the handle of the worker. -/
structure Attached (setup : Setup) (n : Node) : Prop where
  handle : n.phase = .running ∨ n.phase = .joining → setup.mode ≠ .sync → n.worker ≠ .absent ∧ n.worker ≠ .joined
  joining : n.phase = .joining → setup.mode ≠ .sync ∧ n.stop = true

/-- A step of the worker. -/
theorem Attached.of_worker (ha : Attached setup n) (hphase : n'.phase = n.phase) (hstop : n'.stop = n.stop)
    (hwk : n'.worker ≠ .absent ∧ n'.worker ≠ .joined) : Attached setup n' :=
  ⟨fun _ _ => hwk, fun hj => by rw [hstop]; exact ha.joining (hphase ▸ hj)⟩

theorem step_attached {act : Act} (hw : Wf setup n) (ha : Attached setup n) (h : step setup env n act = some n') :
    Attached setup n' := by
  cases hst : isSteady act with
  | true =>
    obtain ⟨hstop, hphase, hwk⟩ := (step_steady hw h hst).control
    refine ⟨fun hp => ?_, fun hj => ?_⟩
    · rw [hwk]
      exact ha.handle (hphase ▸ hp)
    · rw [hstop]
      exact ha.joining (hphase ▸ hj)
  | false =>
    cases step_fires h with
    | started | notStarted | wake | prepare | unlock | stopWaiting | stopSpinning =>
      exact ha.of_worker rfl rfl (by constructor <;> exact Worker.noConfusion)
    | lock hwk hfree =>
      obtain ⟨hhold, hphase, hstop, -⟩ := lockWorker_control setup n _
      exact ha.of_worker hphase hstop (by rw [hhold]; decide)
    | stopSync hcmd hjobs hsync =>
      refine ⟨fun hp => ?_, fun hj => by cases hj⟩
      rcases hp with hp | hp <;> cases hp
    | requestStop hcmd hjobs hasync =>
      have hmode : setup.mode ≠ .sync := (hw.mode hcmd.2.1) ▸ hasync
      exact ⟨fun _ => ha.handle (Or.inl hcmd.2.1), fun _ => ⟨hmode, rfl⟩⟩
    | join hjoin hwk | finish hfin htodo =>
      refine ⟨fun hp => ?_, fun hj => by cases hj⟩
      rcases hp with hp | hp <;> cases hp
    | acquire | release | notify | command | setEnabled | configure | cron | runJob | process => cases hst

theorem Reach.attached {allowed : Node → Act → Prop} (h : Reach setup env allowed n) : Attached setup n := by
  refine Machine.Reach.invariant (fun n hl => ?_) (fun _ _ _ hr _ hs ha => step_attached (Reach.wf hr) ha hs) h
  obtain ⟨config, host, ks, generation, master, loading, mode, hmode, rfl⟩ := hl
  refine ⟨fun _ hne => ?_, fun hj => by cases hj⟩
  have hstarting : (initial mode (loadedState env config host.cluster ks generation master loading)).worker =
      .starting := if_neg fun hs => hne ((startDispatchWorker_ok hmode).1.symm.trans hs)
  rw [hstarting]
  decide

end Node

namespace Waiting

variable {setup : Setup} {maxWait lag : Nat} {env : Env} {w w' : Waiting}

/-- The main thread waits in the join of the stop. -/
def Joining (w : Waiting) : Prop := w.node.phase = .joining ∧ ∀ pending, w.node.worker ≠ .exited pending

/-- The worker looked at the stop before it was stored, found the queue empty, and sleeps or is about to. -/
def Doomed (w : Waiting) : Prop := w.node.queue = [] ∧ (w.wait = .unstopped ∨ w.wait = .parked none)

/-- How many steps a worker that is to stop takes at most until it exits. -/
def remainingSteps (w : Waiting) : Nat :=
  match w.node.worker with
  | .starting => 4
  | .ready => 2
  | .spinning _ => 1
  | .waiting =>
    match w.wait with
    | .entering => 3
    | .looking => 2
    | .unstopped => 6
    | .measured _ _ => 5
    | .parked _ => 4
    | .woken _ => 3
    | .leaving => 1
  | _ => 0

/-- The steps that are not the passing of time. -/
def isStep : Act → Bool
  | .tick _ => false
  | _ => true

/-- A stop that has notified the worker and will be heard. -/
structure Stopping (setup : Setup) (maxWait lag : Nat) (env : Env) (w : Waiting) : Prop where
  reach : Reach setup maxWait lag env w
  phase : w.node.phase = .joining
  owed : w.owed = false
  heard : ¬ w.Doomed

/-- A step while the main thread joins. -/
def JoinStep (setup : Setup) (maxWait lag : Nat) (env : Env) (w : Waiting) (act : Act) (w' : Waiting) : Prop :=
  w.Joining ∧ prompt lag w act = true ∧ step setup maxWait env w act = some w'

/-- While the main thread joins, a node takes no steps but those of its worker outside the wait. -/
theorem node_joining {n : Node} {act : Node.Act} (hr : Reach setup maxWait lag env w) (hj : w.Joining)
    (hstep : Node.step setup env w.node act = some n) (hkeep : w.node.worker = .waiting → endsWait act = false) :
    n.phase = .joining ∧ n.queue.length ≤ w.node.queue.length ∧ n.stop = w.node.stop ∧ w.wait = .entering ∧
      (w.pass n).remainingSteps < w.remainingSteps := by
  have hw := (Reach.node hr).wf
  have hout := hr.timely.outside
  obtain ⟨hphase, hexit⟩ := hj
  have hheld : w.node.holder = .main := hw.stopping (by rw [hphase]; decide)
  have hrun : w.node.phase ≠ .running := by rw [hphase]; decide
  have htodo := (hw.joining hphase).2
  cases Node.step_fires hstep with
  | acquire _ h => exact absurd h hrun
  | release h _ | command h _ | setEnabled h | configure h _ | cron h _ | stopSync h _ _ | requestStop h _ _ =>
    exact absurd h.2.1 hrun
  | notify hmay =>
    rcases hmay with h | h
    · exact absurd h.2.1 hrun
    · exact absurd hphase h.2.1
  | runJob _ h _ _ => exact absurd h hrun
  | process h => rw [htodo] at h; cases h
  | started hwk =>
    have hat := hout (by rw [hwk]; decide)
    refine ⟨hphase, Nat.le_refl _, rfl, hat, ?_⟩
    simp only [remainingSteps, pass, hwk, hat]
    decide
  | notStarted hwk =>
    have hat := hout (by rw [hwk]; decide)
    refine ⟨hphase, Nat.zero_le _, rfl, hat, ?_⟩
    simp only [remainingSteps, pass, hwk, Node.exitWorker_worker]
    decide
  | wake hwk _ _ => cases hkeep hwk
  | prepare hwk =>
    have hat := hout (by rw [hwk]; decide)
    refine ⟨hphase, Nat.le_refl _, rfl, hat, ?_⟩
    simp only [remainingSteps, pass, hwk]
    decide
  | lock _ hfree => rw [hheld] at hfree; cases hfree
  | unlock hhold _ _ => rw [hheld] at hhold; cases hhold
  | stopWaiting _ hwk => cases hkeep hwk
  | stopSpinning _ hwk =>
    have hat := hout (by rw [hwk]; simp)
    refine ⟨hphase, Nat.zero_le _, rfl, hat, ?_⟩
    simp only [remainingSteps, pass, hwk, Node.exitWorker_worker]
    decide
  | join _ hwk => exact absurd hwk (hexit _)
  | finish hfin _ => rw [hphase] at hfin; cases hfin

/-- A step of the join: a stop that will be heard is not missed after all, and it is heard after at most six steps. -/
theorem joinStep_stopping {act : Act} (h : JoinStep setup maxWait lag env w act w')
    (hs : Stopping setup maxWait lag env w) :
    Stopping setup maxWait lag env w' ∧ w'.remainingSteps + (if isStep act then 1 else 0) ≤ w.remainingSteps := by
  obtain ⟨hj, hp, hstep⟩ := h
  have hr' : Reach setup maxWait lag env w' := hs.reach.next hp hstep
  have hstop : w.node.stop = true := ((Reach.node hs.reach).attached.joining hs.phase).2
  cases step_moves hstep with
  | node hn howed hkeep hlock =>
    obtain ⟨hphase, hlen, hsame, hat, hlt⟩ := node_joining hs.reach hj hn hkeep
    refine ⟨⟨hr', hphase, ?_, fun hd => ?_⟩, hlt⟩
    · simp only [pass, hs.owed, hsame, bne_self_eq_false, Bool.or_false, Bool.false_or, decide_eq_false_iff_not]
      omega
    · rcases hd.2 with h | h <;> rw [show (w.pass _).wait = .entering from hat] at h <;> cases h
  | enter hwait hat | again hwait hat =>
    refine ⟨⟨hr', hs.phase, hs.owed, fun hd => by rcases hd.2 with h | h <;> cases h⟩, ?_⟩
    simp only [remainingSteps, hwait, hat]
    decide
  | seen hwait hat _ =>
    refine ⟨⟨hr', hs.phase, hs.owed, fun hd => by rcases hd.2 with h | h <;> cases h⟩, ?_⟩
    simp only [remainingSteps, hwait, hat]
    decide
  | unseen _ _ hunset => rw [hstop] at hunset; cases hunset
  | wake _ _ hwake =>
    cases Node.step_fires hwake with
    | wake _ hunset _ => rw [hstop] at hunset; cases hunset
  | late hwait hat _ _ =>
    refine ⟨⟨hr', hs.phase, hs.owed, fun hd => by rcases hd.2 with h | h <;> cases h⟩, ?_⟩
    rcases hat with hat | hat <;>
    · simp only [remainingSteps, hwait, hat]
      decide
  | park hwait hat _ hqueue => exact absurd ⟨hqueue, Or.inl hat⟩ hs.heard
  | measure hwait hat | sleep hwait hat =>
    refine ⟨⟨hr', hs.phase, hs.owed, fun hd => by rcases hd.2 with h | h <;> cases h⟩, ?_⟩
    simp only [remainingSteps, hwait, hat]
    decide
  | exit hwait hat hexit =>
    cases Node.step_fires hexit with
    | stopWaiting _ _ =>
      refine ⟨⟨hr', hs.phase, hs.owed, fun hd => by rcases hd.2 with h | h <;> cases h⟩, ?_⟩
      simp only [remainingSteps, hwait, hat, Node.exitWorker_worker]
      decide
    | stopSpinning _ hwk => rw [hwait] at hwk; cases hwk
  | timeout hat _ | spurious hat =>
    have hwait : w.node.worker = .waiting := by
      by_contra hne
      rw [hs.reach.timely.outside hne] at hat
      cases hat
    refine ⟨⟨hr', hs.phase, hs.owed, fun hd => by rcases hd.2 with h | h <;> cases h⟩, ?_⟩
    simp only [remainingSteps, hwait, hat]
    decide
  | notified howed _ | unheard howed _ => rw [hs.owed] at howed; cases howed
  | tick => exact ⟨⟨hr', hs.phase, hs.owed, hs.heard⟩, Nat.le_refl _⟩

/-- The wait returns in some way if the stop is stored. -/
theorem ready_of_stop (hstop : w.node.stop = true) : w.ready setup env = some { w with wait := .leaving } := by
  simp only [ready, hstop, if_true]

/-- A worker that is inside the wait and does not sleep has a next step. -/
theorem waitUntilReady_isSome (setup : Setup) (maxWait : Nat) (env : Env) (hwait : w.node.worker = .waiting)
    (hstop : w.node.stop = true) (hawake : ∀ deadline, w.wait ≠ .parked deadline) :
    ∃ w', w.waitUntilReady setup maxWait env = some w' := by
  cases hat : w.wait with
  | entering | looking | measured remaining readAt => simp only [waitUntilReady, hat, Option.some.injEq, exists_eq']
  | unstopped =>
    simp only [waitUntilReady, hat, ready_of_stop hstop]
    split
    · exact ⟨_, rfl⟩
    · split
      · exact ⟨_, rfl⟩
      · split <;> exact ⟨_, rfl⟩
  | parked deadline => exact absurd hat (hawake deadline)
  | woken timedOut =>
    simp only [waitUntilReady, hat, ready_of_stop hstop]
    split <;> exact ⟨_, rfl⟩
  | leaving =>
    have hexit : Node.step setup env w.node .workerStop = some w.node.exitWorker := by
      simp only [Node.step, hstop, hwait, if_true]
    simp only [waitUntilReady, hat, hexit, Option.map_some, Option.some.injEq, exists_eq']

/-- A step of the worker outside the wait is a step of the machine. -/
theorem step_node {act : Node.Act} {n : Node} (hw : isWorkers act = true) (hkeep : w.node.worker ≠ .waiting)
    (hat : w.wait = .entering) (h : Node.step setup env w.node act = some n) :
    step setup maxWait env w (.node act) = some (w.pass n) := by
  simp only [step, h, hat, Option.bind_some]
  rw [if_pos ⟨fun _ => hw, fun hwait => absurd hwait hkeep⟩]
  exact if_pos fun hl => by cases hl

/-- While the main thread joins, the worker can go on at once or after at most `max_wait`. -/
theorem Stopping.progress (hs : Stopping setup maxWait lag env w) (hj : w.Joining) : ∃ time ≤ maxWait, ∃ act w',
    isStep act = true ∧ step setup maxWait env { w with now := w.now + time } act = some w' := by
  have hreach := Reach.node hs.reach
  have ha := hreach.attached
  have ht := hs.reach.timely
  obtain ⟨hmode, hstop⟩ := ha.joining hs.phase
  obtain ⟨habsent, hjoined⟩ := ha.handle (Or.inr hs.phase) hmode
  cases hwk : w.node.worker with
  | absent => exact absurd hwk habsent
  | joined => exact absurd hwk hjoined
  | exited pending => exact absurd hwk (hj.2 pending)
  | holding =>
    have hheld := hreach.wf.lock.2 hwk
    rw [hreach.wf.stopping (by rw [hs.phase]; decide)] at hheld
    cases hheld
  | starting =>
    have hne : w.node.worker ≠ .waiting := by rw [hwk]; decide
    exact ⟨0, Nat.zero_le _, .node (.workerStart true), _, rfl, step_node rfl hne (ht.outside hne) (if_pos hwk)⟩
  | ready =>
    have hne : w.node.worker ≠ .waiting := by rw [hwk]; decide
    exact ⟨0, Nat.zero_le _, .node .workerPrepare, _, rfl, step_node rfl hne (ht.outside hne) (if_pos hwk)⟩
  | spinning snapshot =>
    have hne : w.node.worker ≠ .waiting := by rw [hwk]; simp
    have hexit : Node.step setup env w.node .workerStop = some w.node.exitWorker := by
      simp only [Node.step, hstop, hwk, if_true]
    exact ⟨0, Nat.zero_le _, .node .workerStop, _, rfl, step_node rfl hne (ht.outside hne) hexit⟩
  | waiting =>
    by_cases hat : ∃ deadline, w.wait = .parked deadline
    · obtain ⟨deadline, hat⟩ := hat
      cases deadline with
      | none => exact absurd ⟨(ht.parked none hat hs.owed).2.1 rfl, Or.inr hat⟩ hs.heard
      | some t =>
        have hsoon := ht.soon t hat
        refine ⟨t - w.now, by omega, .timeout, { w with now := w.now + (t - w.now), wait := .woken true }, rfl, ?_⟩
        simp only [step, hat]
        exact if_pos (by omega)
    · have hawake : ∀ deadline, w.wait ≠ .parked deadline := fun deadline h => hat ⟨deadline, h⟩
      obtain ⟨w', hw'⟩ := waitUntilReady_isSome setup maxWait env (w := { w with now := w.now + 0 }) hwk hstop hawake
      exact ⟨0, Nat.zero_le _, .wait, w', rfl, (if_pos hwk).trans hw'⟩

/-- A worker that has missed the stop stays where it is. -/
theorem step_doomed {act : Act} (hr : Reach setup maxWait lag env w) (hj : w.Joining) (howed : w.owed = false)
    (hd : w.Doomed) (hact : act ≠ .spurious)
    (h : step setup maxWait env w act = some w') : w'.node = w.node ∧ w'.owed = false ∧ w'.Doomed := by
  obtain ⟨hqueue, hat⟩ := hd
  have hother : ∀ wait, w.wait = wait → wait = .unstopped ∨ wait = .parked none := fun wait h => h ▸ hat
  cases step_moves h with
  | node hn _ hkeep _ =>
    have hentering := (node_joining hr hj hn hkeep).2.2.2.1
    rcases hother _ hentering with h | h <;> cases h
  | enter _ hp | again _ hp | seen _ hp _ | unseen _ hp _ | sleep _ hp | exit _ hp _ | timeout hp _ =>
    rcases hother _ hp with hp | hp <;> cases hp
  | wake _ _ hn =>
    cases Node.step_fires hn with
    | wake _ _ hne => exact absurd hqueue hne
  | late _ _ _ hne => exact absurd hqueue hne
  | park _ _ _ _ => exact ⟨rfl, howed, hqueue, Or.inr rfl⟩
  | measure _ _ _ hcons _ => rw [hqueue] at hcons; cases hcons
  | spurious => exact absurd rfl hact
  | notified ho _ | unheard ho _ => rw [howed] at ho; cases ho
  | tick => exact ⟨rfl, howed, hqueue, hat⟩

/-- **When the join of a stop returns.** Once the stop is stored and the worker notified, the worker exits after at most
six steps, each of which it can take at once or after `max_wait`, unless it had looked at the stop before that and found
the queue empty. The stop is stored and notified without the mutex of the queue, so such a worker goes to sleep after
the notification; nothing but a spurious wake-up ends this sleep, and the main thread waits in the join. -/
theorem join_returns (setup : Setup) (maxWait lag : Nat) (env : Env) (w : Waiting) (h : Reach setup maxWait lag env w)
    (hj : w.Joining) (howed : w.owed = false) :
    (¬ w.Doomed → ∀ acts w', Machine.Path (JoinStep setup maxWait lag env) w acts w' → acts.countP isStep ≤ 6 ∧
      ((∃ pending, w'.node.worker = .exited pending) ∨ ∃ time ≤ maxWait, ∃ act w'', isStep act = true ∧
        step setup maxWait env { w' with now := w'.now + time } act = some w'')) ∧
    (w.Doomed → ∀ acts w', Machine.Path (JoinStep setup maxWait lag env) w acts w' → Act.spurious ∉ acts →
      w'.Joining ∧ w'.Doomed) := by
  refine ⟨fun hheard acts w' hpath => ?_, fun hd acts w' hpath hcalm => ?_⟩
  · have hs : Stopping setup maxWait lag env w := ⟨h, hj.1, howed, hheard⟩
    obtain ⟨hs', hle⟩ := hpath.countP_le (p := isStep) (fun _ _ _ hstep hv => joinStep_stopping hstep hv) hs
    have hsix : w.remainingSteps ≤ 6 := by
      unfold remainingSteps
      split
      · decide
      · decide
      · decide
      · split <;> decide
      · decide
    refine ⟨by omega, ?_⟩
    by_cases hexit : ∃ pending, w'.node.worker = .exited pending
    · exact Or.inl hexit
    · exact Or.inr (hs'.progress ⟨hs'.phase, fun pending he => hexit ⟨pending, he⟩⟩)
  · have hend := hpath.invariant
      (I := fun v => Reach setup maxWait lag env v ∧ v.node = w.node ∧ v.owed = false ∧ v.Doomed)
      (fun v act v' hact hs hv => ?_) ⟨h, rfl, howed, hd⟩
    · obtain ⟨-, hn, -, hd'⟩ := hend
      exact ⟨by rw [Joining, hn]; exact hj, hd'⟩
    · obtain ⟨hr, hn, ho, hdv⟩ := hv
      obtain ⟨hjv, hp, hstep⟩ := hs
      have hact' : act ≠ .spurious := fun e => hcalm (e ▸ hact)
      obtain ⟨hn', ho', hd'⟩ := step_doomed hr hjv ho hdv hact' hstep
      exact ⟨hr.next hp hstep, hn'.trans hn, ho', hd'⟩

/-- The worker looks at the stop; the main thread stores it and notifies; and only then the worker goes to sleep. -/
def missedStop : List Act := [.node (.workerStart true), .wait, .wait, .node .requestStop, .notify, .wait]

/-- The worker goes to sleep before the stop is stored. -/
def heardStop : List Act := [.node (.workerStart true), .wait, .wait, .wait, .node .requestStop, .notify]

/-- Both happen: a stop that the worker never notices, and one that ends its wait. -/
theorem join_returns_missed :
    (∃ w, Machine.run (step pairs 5 .calm) (fun w act => prompt 0 w act = true) pairsLoad missedStop =
      some w ∧ w.Doomed ∧
      ∀ acts w', Machine.Path (JoinStep pairs 5 0 .calm) w acts w' → Act.spurious ∉ acts → w'.Joining ∧ w'.Doomed) ∧
    ∃ w, Machine.run (step pairs 5 .calm) (fun w act => prompt 0 w act = true) pairsLoad heardStop =
      some w ∧ ¬ w.Doomed ∧ ∀ acts w', Machine.Path (JoinStep pairs 5 0 .calm) w acts w' → acts.countP isStep ≤ 6 := by
  have hrun : ∀ acts wait,
      (Machine.run (step pairs 5 .calm) (fun w act => prompt 0 w act = true) pairsLoad acts).map (fun w =>
      (w.wait, w.node.worker, w.node.phase, w.owed, w.node.queue)) = some (wait, .waiting, .joining, false, []) →
      ∃ w, Machine.run (step pairs 5 .calm) (fun w act => prompt 0 w act = true) pairsLoad acts = some w ∧
        Reach pairs 5 0 .calm w ∧ w.Joining ∧ w.owed = false ∧ w.wait = wait ∧ w.node.queue = [] := by
    intro acts wait h
    obtain ⟨w, hw, hall⟩ := Option.map_eq_some_iff.1 h
    simp only [Prod.mk.injEq] at hall
    obtain ⟨hat, hwait, hphase, howed, hqueue⟩ := hall
    have hreach : Reach pairs 5 0 .calm w := Machine.reach_of_run (.start ⟨narrowLoad_pairs, rfl, rfl, rfl⟩) hw
    refine ⟨w, hw, hreach, ⟨hphase, fun p hp => ?_⟩, howed, hat, hqueue⟩
    rw [hwait] at hp
    cases hp
  obtain ⟨w, hw, hr, hj, howed, hat, hqueue⟩ := hrun missedStop (.parked none) (by decide +kernel)
  obtain ⟨v, hv, hr', hj', howed', hat', hqueue'⟩ := hrun heardStop (.woken false) (by decide +kernel)
  have hdoomed : w.Doomed := ⟨hqueue, Or.inr hat⟩
  have hheard : ¬ v.Doomed := by
    rintro ⟨-, h | h⟩ <;> rw [hat'] at h <;> cases h
  exact ⟨⟨w, hw, hdoomed, (join_returns pairs 5 0 .calm w hr hj howed).2 hdoomed⟩,
    v, hv, hheard, fun acts w' hp => ((join_returns pairs 5 0 .calm v hr' hj' howed').1 hheard acts w' hp).1⟩

end Waiting

end EventStream

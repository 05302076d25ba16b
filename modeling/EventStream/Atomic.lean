import EventStream.Threads
import EventStream.Gauges

/-!
# The operations of a node, step by step

A node dispatches an event, starts the job of a fallback, prepares envelopes and drains in one step each. Each of them
is a run of the two threads in which the other one does not come in between.

- `Node.threads`: the queue of a node with its gauge, its counters and its jobs;
- `runs_push`, `runs_refused`, `runs_take`, `runs_stale`: pushes and drains without interruption;
- `dispatch_runs`, `fallback_runs`, `prepare_runs`, `lock_runs`: the operations of a node as such runs;
- `Aloof`: the other steps, which leave the queue and its gauges alone;
- `Reach.threads`: the queue of a node in any run before the unload is one the two threads can reach (`gauge_exact`).
-/

namespace EventStream

open Text (Str Bytes utf8)

namespace Threads

variable {capacity : Nat} {w : Threads}

/-- The two threads take the steps of a list. -/
def runs (capacity : Nat) (w : Threads) (acts : List Act) : Option Threads :=
  Machine.run (step capacity) (fun _ _ => True) w acts

theorem runs_nil (w : Threads) : runs capacity w [] = some w := rfl

theorem runs_cons (w : Threads) (act : Act) (acts : List Act) :
    runs capacity w (act :: acts) = (step capacity w act).bind fun w' => runs capacity w' acts := rfl

theorem Reach.runs {w' : Threads} {acts : List Act} (hw : Reach capacity w) (h : runs capacity w acts = some w') :
    Reach capacity w' := Machine.reach_of_run hw h

theorem update_idle {pc : Thread → Pc} {t : Thread} (h : pc t = .idle) : Function.update pc t .idle = pc := by
  rw [← h, Function.update_eq_self]

theorem runs_acquire {t : Thread} (hfree : w.holder = none) (hidle : w.pc t = .idle) :
    runs capacity w [.acquire t] = some { w with holder := some t } := by
  simp only [runs_cons, runs_nil, step, hfree, hidle, Pc.isIdle, and_self, if_true, Option.bind_some]

theorem runs_release {t : Thread} (hheld : w.holder = some t) (hidle : w.pc t = .idle) (hjobs : w.jobs = []) :
    runs capacity w [.release t] = some { w with holder := none } := by
  simp only [runs_cons, runs_nil, step, hheld, hidle, hjobs, Pc.isIdle, and_self, if_true, Option.bind_some]

/-! ## Pushes -/

/-- An event finds room in the queue. -/
theorem runs_push (hheld : w.holder = some .main) (hfree : w.mutex = none) (hidle : w.pc .main = .idle)
    (hroom : w.queue.length < capacity) (event : PendingEvent) :
    runs capacity w (.dispatch event :: List.replicate 6 (.advance .main)) = some { w with
      nextId := w.nextId + 1
      dispatched := w.dispatched ++ [⟨w.nextId, event⟩]
      queue := w.queue ++ [⟨w.nextId, event⟩]
      depth := w.depth + 1
      enqueued := w.enqueued + 1
      highWater := max w.highWater (w.queue.length + 1) } := by
  have hpush : ∀ q, tryPush capacity w.queue false q = some (w.queue ++ [q]) := fun q => by
    rw [tryPush, if_neg (by decide), if_neg (by omega)]
  simp only [List.replicate, runs_cons, runs_nil, step, advance, goto, hheld, hidle, hfree, hpush, update_idle hidle,
    Pc.isIdle, Function.update_self, Function.update_idem, Option.bind_some, and_self, if_true, List.length_append,
    List.length_singleton]

/-- An event finds no room, or the mutex stays contended; it becomes a fallback. -/
theorem runs_refused (hheld : w.holder = some .main) (hfree : w.mutex = none) (hidle : w.pc .main = .idle)
    {contended : Bool} {event : PendingEvent} (hpush : tryPush capacity w.queue contended ⟨w.nextId, event⟩ = none)
    (registered : Bool) :
    ∃ acts, runs capacity w acts = some { w with
      nextId := w.nextId + 1
      dispatched := w.dispatched ++ [⟨w.nextId, event⟩]
      fallbacks := w.fallbacks + 1
      jobs := if registered then w.jobs ++ [⟨w.nextId, event⟩] else w.jobs } := by
  cases contended with
  | true =>
    refine ⟨[.dispatch event, .giveUp, .advance .main, .defer registered], ?_⟩
    simp only [runs_cons, runs_nil, step, advance, goto, hheld, hidle, update_idle hidle, Pc.isIdle,
      Function.update_self, Function.update_idem, Option.bind_some, and_self, if_true]
  | false =>
    refine ⟨.dispatch event :: List.replicate 4 (.advance .main) ++ [.defer registered], ?_⟩
    simp only [List.replicate, List.cons_append, List.nil_append, runs_cons, runs_nil, step, advance,
      goto, hheld, hidle, hfree, hpush, update_idle hidle, Pc.isIdle, Function.update_self, Function.update_idem,
      Option.bind_some, and_self, if_true]

/-! ## Drains -/

/-- The queue after a drain, with its gauge and its counters; an empty drain is not counted. -/
def drainedTo (w : Threads) (count : Nat) (queue : List Queued) : Threads :=
  { w with
    queue := queue
    depth := w.depth - count
    drains := if count = 0 then w.drains else w.drains + 1
    drainEvents := if count = 0 then w.drainEvents else w.drainEvents + count }

/-- A thread between two operations drains what there is, and counts it. -/
theorem runs_take {t : Thread} {what : Take} {count : Nat} {queue : List Queued} (hidle : w.pc t = .idle)
    (hfree : w.mutex = none) (hcut : what.cut w.queue = some (count, queue)) :
    ∃ acts, runs capacity (w.goto t (.taking what)) acts = some (w.drainedTo count queue) := by
  by_cases hzero : count = 0
  · refine ⟨List.replicate 4 (.advance t), ?_⟩
    simp only [List.replicate, runs_cons, runs_nil, step, advance, goto, hfree, hcut, hzero,
      update_idle hidle, drainedTo, Function.update_self, Function.update_idem, Option.bind_some, if_true]
  · refine ⟨List.replicate 6 (.advance t), ?_⟩
    simp only [List.replicate, runs_cons, runs_nil, step, advance, goto, hfree, hcut, hzero,
      update_idle hidle, drainedTo, Function.update_self, Function.update_idem, Option.bind_some, if_true, if_false]

/-- A stale snapshot is not drained. -/
theorem runs_stale {t : Thread} {what : Take} (hidle : w.pc t = .idle) (hfree : w.mutex = none)
    (hcut : what.cut w.queue = none) :
    runs capacity (w.goto t (.taking what)) (List.replicate 3 (.advance t)) = some w := by
  have hmutex : { w with mutex := none } = w := by rw [← hfree]
  simp only [List.replicate, runs_cons, runs_nil, step, advance, goto, hfree, hcut, update_idle hidle,
    Function.update_self, Function.update_idem, Option.bind_some, if_true, hmutex]

/-- The main thread begins the job of a fallback. -/
theorem runs_job {q : Queued} {jobs : List Queued} (hjobs : w.jobs = q :: jobs) (hheld : w.holder = some .main)
    (hidle : w.pc .main = .idle) (hfree : w.mutex = none) :
    ∃ acts, runs capacity w acts =
      some ({ w with jobs := jobs }.drainedTo (drainBefore w.queue q.id).1.length (drainBefore w.queue q.id).2) := by
  have hcut : (Take.before q.id).cut w.queue =
      some ((drainBefore w.queue q.id).1.length, (drainBefore w.queue q.id).2) := rfl
  obtain ⟨acts, hacts⟩ := runs_take (w := { w with jobs := jobs }) hidle hfree hcut
  refine ⟨.runJob :: acts, ?_⟩
  rw [runs_cons, step, hjobs]
  simp only
  rw [if_pos ⟨hheld, by rw [hidle]; rfl⟩, Option.bind_some]
  exact hacts

/-- The worker takes the server's lock and drains a batch. -/
theorem runs_batch (hheld : w.holder = none) (hidle : w.pc .worker = .idle) (hfree : w.mutex = none) (limit : Nat) :
    ∃ acts, runs capacity w acts =
      some ({ w with holder := some .worker }.drainedTo (drain w.queue limit).1.length (drain w.queue limit).2) := by
  have hcut : (Take.batch limit).cut w.queue = some ((drain w.queue limit).1.length, (drain w.queue limit).2) := rfl
  obtain ⟨acts, hacts⟩ := runs_take (w := { w with holder := some .worker }) hidle hfree hcut
  refine ⟨.acquire .worker :: .drainBatch limit :: acts, ?_⟩
  simp only [runs_cons, step, hheld, hidle, Pc.isIdle, and_self, if_true, Option.bind_some]
  exact hacts

/-- The worker takes the server's lock and drains what it has prepared, unless that is stale. -/
theorem runs_prepared (hheld : w.holder = none) (hidle : w.pc .worker = .idle) (hfree : w.mutex = none)
    {s : EnvelopeSnapshot} (hs : s ∈ w.taken) :
    ∃ acts, runs capacity w acts = some ((drainSnapshot w.queue s).elim { w with holder := some .worker }
      ({ w with holder := some .worker }.drainedTo s.count)) := by
  have hbegin : ∀ acts, runs capacity w (.acquire .worker :: .drainPrepared s :: acts) =
      runs capacity ({ w with holder := some .worker }.goto .worker (.taking (.snapshot s))) acts := fun acts => by
    simp only [runs_cons, step, hheld, hidle, hs, Pc.isIdle, and_self, if_true, Option.bind_some]
  cases hd : drainSnapshot w.queue s with
  | none =>
    have hcut : (Take.snapshot s).cut w.queue = none := by rw [Take.cut, hd, Option.map_none]
    exact ⟨_, (hbegin _).trans (runs_stale (w := { w with holder := some .worker }) hidle hfree hcut)⟩
  | some queue =>
    have hcut : (Take.snapshot s).cut w.queue = some (s.count, queue) := by rw [Take.cut, hd, Option.map_some]
    obtain ⟨acts, hacts⟩ := runs_take (w := { w with holder := some .worker }) hidle hfree hcut
    exact ⟨_, (hbegin acts).trans hacts⟩

/-- The worker prepares envelopes. -/
theorem runs_prepare (hidle : w.pc .worker = .idle) (hfree : w.mutex = none) (limit : Nat) :
    runs capacity w [.ask (some limit), .advance .worker, .advance .worker] =
      some { w with taken := w.taken ++ (prepareEnvelopes w.queue limit).toList } := by
  simp only [runs_cons, runs_nil, step, advance, goto, hidle, hfree, Pc.isIdle, Function.update_self,
    Function.update_idem, update_idle hidle, Option.bind_some, if_true]

end Threads

/-! ## The operations of a node -/

/-- The fallback of a job. -/
def Job.fallen : Job → Option Queued
  | fallback q => some q
  | _ => none

def Holder.thread : Holder → Option Thread
  | free => none
  | main => some .main
  | worker => some .worker

namespace Node

/-- The queue of a node, while no thread is at work on it. -/
def threads (n : Node) (taken : List EnvelopeSnapshot) : Threads where
  mutex := none
  holder := n.holder.thread
  queue := n.queue
  nextId := n.nextId
  depth := n.st.asyncQueueDepth
  highWater := n.st.asyncQueueHighWater
  enqueued := n.st.value .asyncEnqueued
  fallbacks := n.st.value .asyncFallbacks
  drains := n.st.value .asyncDrains
  drainEvents := n.st.value .asyncDrainEvents
  jobs := n.jobs.filterMap Job.fallen
  pc := fun _ => .idle
  dispatched := n.dispatched
  taken := taken

variable {setup : Setup} {env : Env} {n n' : Node} {taken : List EnvelopeSnapshot}

/-- The dispatch of an event in a mode with a worker. -/
theorem dispatch_runs (hheld : n.holder = .main) (hmode : n.activeMode ≠ .sync) (hslot : n.slot = true)
    (hid : n.nextId = n.dispatched.length) (event : PendingEvent) (contended registered : Bool) :
    ∃ acts, Threads.runs setup.capacity (n.threads taken) acts =
      some ((dispatchPendingEvent setup env n event contended registered).threads taken) := by
  have hholder : (n.threads taken).holder = some .main := by simp only [threads, hheld, Holder.thread]
  unfold dispatchPendingEvent
  simp only
  rw [if_neg hmode, if_neg (by simpa using hslot)]
  cases hpush : tryPush setup.capacity n.queue contended ⟨n.nextId, event⟩ with
  | some queue =>
    have hroom : n.queue.length < setup.capacity := tryPush_room hpush
    rw [tryPush_some hpush]
    refine ⟨_, (Threads.runs_push hholder rfl rfl hroom event).trans ?_⟩
    rw [← hid]
    simp only [threads, note, countEnqueued, List.length_append, List.length_singleton]
    rfl
  | none =>
    obtain ⟨acts, hacts⟩ := Threads.runs_refused hholder rfl rfl hpush registered
    refine ⟨acts, hacts.trans ?_⟩
    rw [← hid]
    cases registered with
    | true => simp [threads, note, deferOrderedFallback, Job.fallen, State.charge, State.value]
    | false => rfl

/-- The counters of a drain. -/
theorem countDrain_threads (n : Node) (taken : List EnvelopeSnapshot) (count : Nat) (queue : List Queued) :
    threads { n.note none (countDrain n.st count) with queue := queue } taken =
      (n.threads taken).drainedTo count queue := by
  by_cases hzero : count = 0
  · simp only [threads, note, countDrain, Threads.drainedTo, hzero, if_true]
    rfl
  · simp only [threads, note, countDrain, Threads.drainedTo, hzero, if_false]
    rfl

/-- The beginning of the job of a fallback. -/
theorem fallback_runs (hheld : n.holder = .main) (q : Queued) {jobs : List Job} (hjobs : n.jobs = .fallback q :: jobs) :
    ∃ acts, Threads.runs setup.capacity (n.threads taken) acts =
      some ((startJob env { n with jobs := jobs } (.fallback q)).threads taken) := by
  have hholder : (n.threads taken).holder = some .main := by simp only [threads, hheld, Holder.thread]
  have hfirst : (n.threads taken).jobs = q :: jobs.filterMap Job.fallen := by
    simp only [threads, hjobs, List.filterMap_cons, Job.fallen]
  obtain ⟨acts, hacts⟩ := Threads.runs_job hfirst hholder rfl rfl
  refine ⟨acts, hacts.trans ?_⟩
  have hdrain := countDrain_threads { n with jobs := jobs } taken (drainBefore n.queue q.id).1.length
    (drainBefore n.queue q.id).2
  exact congrArg some hdrain.symm

/-- The preparation of envelopes adds to the snapshots. -/
theorem prepare_runs (limit : Nat) :
    ∃ acts, Threads.runs setup.capacity (n.threads taken) acts =
      some (n.threads (taken ++ (prepareEnvelopes n.queue limit).toList)) :=
  ⟨_, Threads.runs_prepare rfl rfl limit⟩

/-- The worker takes the server's lock, and drains. -/
theorem lock_runs (hfree : n.holder = .free) {snapshot : Option EnvelopeSnapshot}
    (hs : ∀ s, snapshot = some s → s ∈ taken) :
    ∃ acts, Threads.runs setup.capacity (n.threads taken) acts =
      some ((n.lockWorker setup snapshot).threads taken) := by
  have hholder : (n.threads taken).holder = none := by simp only [threads, hfree, Holder.thread]
  cases snapshot with
  | none =>
    obtain ⟨acts, hacts⟩ := Threads.runs_batch hholder rfl rfl setup.batch
    refine ⟨acts, hacts.trans ?_⟩
    have hdrain := countDrain_threads { n with holder := .worker } taken (drain n.queue setup.batch).1.length
      (drain n.queue setup.batch).2
    exact congrArg some hdrain.symm
  | some s =>
    obtain ⟨acts, hacts⟩ := Threads.runs_prepared (w := n.threads taken) hholder rfl rfl (hs s rfl)
    refine ⟨acts, hacts.trans ?_⟩
    have hqueue : (n.threads taken).queue = n.queue := rfl
    rw [hqueue, lockWorker]
    cases hd : drainSnapshot n.queue s with
    | none => rfl
    | some queue =>
      have hdrain := countDrain_threads { n with holder := .worker } taken s.count queue
      exact congrArg some hdrain.symm

/-! ## Whole runs -/

/-- A step that has nothing to do with the queue. -/
structure Aloof (n n' : Node) : Prop where
  holder : n'.holder = n.holder
  phase : n'.phase = n.phase
  stop : n'.stop = n.stop
  worker : n'.worker = n.worker
  queue : n'.queue = n.queue
  nextId : n'.nextId = n.nextId
  dispatched : n'.dispatched = n.dispatched
  jobs : n'.jobs.filterMap Job.fallen = n.jobs.filterMap Job.fallen
  gauges : Apart n.st n'.st

namespace Aloof

variable {n n' n'' : Node}

theorem refl (n : Node) : Aloof n n := ⟨rfl, rfl, rfl, rfl, rfl, rfl, rfl, rfl, .refl _⟩

theorem trans (h : Aloof n n') (h' : Aloof n' n'') : Aloof n n'' where
  holder := h'.holder.trans h.holder
  phase := h'.phase.trans h.phase
  stop := h'.stop.trans h.stop
  worker := h'.worker.trans h.worker
  queue := h'.queue.trans h.queue
  nextId := h'.nextId.trans h.nextId
  dispatched := h'.dispatched.trans h.dispatched
  jobs := h'.jobs.trans h.jobs
  gauges := h.gauges.trans h'.gauges

theorem note (task : Option Task) {st : State} (h : Apart n.st st) : Aloof n (n.note task st) :=
  ⟨rfl, rfl, rfl, rfl, rfl, rfl, rfl, rfl, h⟩

theorem todo (n : Node) (todo : List Task) : Aloof n { n with todo := todo } :=
  ⟨rfl, rfl, rfl, rfl, rfl, rfl, rfl, rfl, .refl _⟩

theorem threads (h : Aloof n n') (taken : List EnvelopeSnapshot) : n'.threads taken = n.threads taken := by
  simp only [Node.threads, h.holder, h.queue, h.nextId, h.dispatched, h.jobs, h.gauges.depth, h.gauges.highWater,
    h.gauges.value .asyncEnqueued rfl, h.gauges.value .asyncFallbacks rfl, h.gauges.value .asyncDrains rfl,
    h.gauges.value .asyncDrainEvents rfl]

end Aloof

/-- The steps before the unload, of a worker that obtains its context. -/
def beforeStop : Act → Bool
  | .requestStop => false
  | .workerStart ok => ok
  | _ => true

/-- A node before the unload whose queue is where a run of the two threads leads. -/
structure Simulated (setup : Setup) (n : Node) (taken : List EnvelopeSnapshot) : Prop where
  reach : Threads.Reach setup.capacity (n.threads taken)
  prepared : ∀ s, n.worker = .spinning (some s) → s ∈ taken
  running : n.phase = .running
  going : n.stop = false
  /-- The jobs of fallbacks run before the main thread gives the lock away. -/
  fallbacks : n.holder ≠ .main → n.jobs.filterMap Job.fallen = []

section Simulation

theorem Simulated.aloof (h : Simulated setup n taken) (ha : Aloof n n') : Simulated setup n' taken where
  reach := by
    rw [ha.threads]
    exact h.reach
  prepared s hs := h.prepared s (ha.worker ▸ hs)
  running := ha.phase.trans h.running
  going := ha.stop.trans h.going
  fallbacks hm := ha.jobs.trans (h.fallbacks (ha.holder ▸ hm))

theorem takeMarkers_aloof (n : Node) (registered : Bool) : Aloof n (n.takeMarkers env registered) := by
  refine ⟨rfl, rfl, rfl, rfl, rfl, rfl, rfl, ?_, flushMarkers_apart env n.st registered⟩
  change (n.jobs ++ _).filterMap Job.fallen = _
  rw [List.filterMap_append]
  cases (flushMarkers env n.st registered).2 with
  | none => exact List.append_nil _
  | some job => exact List.append_nil _

theorem cron_aloof (n : Node) : Aloof n (n.cron env) := by
  have htick : ∀ st, Apart n.st st → Aloof n (n.checkpointTick env st) := by
    intro st hst
    unfold checkpointTick
    split
    · exact .note none hst
    · have ht := hst.trans (.of_probed (tagSegment_probed env st))
      cases hseg : tagSegment env st with
      | mk seg st₁ =>
        rw [hseg] at ht
        cases seg with
        | none => exact .note none ht
        | some seg =>
          have htaken := ht.trans
            (.of_counters rfl rfl rfl : Apart st₁ { st₁ with pendingMarkers := [], markersDirty := false })
          exact (Aloof.note none htaken).trans (.todo _ _)
  unfold cron
  simp only
  split
  · exact .refl n
  · split
    · exact .refl n
    · exact htick _ (.of_counters rfl rfl rfl)

/-- The operations of the worker and the fallbacks, as the threads take them. -/
theorem Simulated.runs {taken' : List EnvelopeSnapshot} (h : Simulated setup n taken)
    (hr : ∃ acts, Threads.runs setup.capacity (n.threads taken) acts = some (n'.threads taken'))
    (hs : ∀ s, n'.worker = .spinning (some s) → s ∈ taken') (hp : n'.phase = n.phase) (hst : n'.stop = n.stop)
    (hf : n'.holder ≠ .main → n'.jobs.filterMap Job.fallen = []) : Simulated setup n' taken' := by
  obtain ⟨acts, hacts⟩ := hr
  exact ⟨h.reach.runs hacts, hs, hp.trans h.running, hst.trans h.going, hf⟩

theorem dispatch_simulated (hmode : setup.mode ≠ .sync) (h : Simulated setup n taken) (hmain : n.holder = .main)
    (hactive : n.activeMode = setup.mode) (hslot : n.slot = true) (hid : n.nextId = n.dispatched.length)
    (event : PendingEvent) (contended registered : Bool) :
    Simulated setup (dispatchPendingEvent setup env n event contended registered) taken := by
  obtain ⟨lane, hrouted⟩ := dispatchPendingEvent_routed setup env n event contended registered hactive
    fun _ => ⟨hslot, hid⟩
  obtain ⟨hh, hp, -, -, -, hworker, hst, -⟩ := hrouted.control
  refine h.runs (dispatch_runs hmain (hactive ▸ hmode) hslot hid event contended registered) (fun s hs => ?_) hp hst
    fun hne => absurd (hh.trans hmain) hne
  exact h.prepared s (hworker ▸ hs)

theorem notify_simulated (hmode : setup.mode ≠ .sync) (hw : Wf setup n) (h : Simulated setup n taken)
    (cls : NotifyEvent) (event : Str) {key : Bytes} (db : Int32) (contended registered markersRegistered : Bool)
    (hmay : n.mayNotify key) :
    Simulated setup (n.onKeyspaceEvent setup env cls event key db contended registered markersRegistered) taken := by
  have hmarkers : Aloof n (n.takeMarkers env markersRegistered) := takeMarkers_aloof n markersRegistered
  have hconf : (n.takeMarkers env markersRegistered).st.config = n.st.config :=
    (flushMarkers_cases env n.st markersRegistered hw.dirty).2.2.2.1
  have hgates := selectEvent_apart (n.takeMarkers env markersRegistered).st cls event key db
  have hbefore := h.aloof (hmarkers.trans (.note none hgates))
  unfold onKeyspaceEvent
  simp only
  rcases selectEvent_cases (n.takeMarkers env markersRegistered).st cls event key db with
    ⟨hnone, -⟩ | ⟨hsome, -, -, hforeign⟩
  · rw [hnone]
    exact hbefore
  · rw [hsome]
    -- the module's own keys are not selected, and so the event is that of a command
    have hmain : n.holder = .main := by
      rcases hmay with hcmd | ⟨-, -, -, hown⟩
      · exact hcmd.1
      · rw [hconf, hown] at hforeign
        cases hforeign
    obtain ⟨hslot, hid⟩ := hw.slot hmode h.running
    exact dispatch_simulated hmode hbefore hmain (hw.mode h.running) hslot hid _ contended registered

theorem runJob_simulated {job : Job} {jobs : List Job} (hjobs : n.jobs = job :: jobs) (h : Simulated setup n taken) :
    Simulated setup (startJob env { n with jobs := jobs } job) taken := by
  have hsame : job.fallen = none → jobs.filterMap Job.fallen = n.jobs.filterMap Job.fallen := fun hnone => by
    rw [hjobs, List.filterMap_cons, hnone]
  cases job with
  | event q => exact h.aloof ⟨rfl, rfl, rfl, rfl, rfl, rfl, rfl, hsame rfl, .refl _⟩
  | markers job =>
    exact h.aloof ⟨rfl, rfl, rfl, rfl, rfl, rfl, rfl, hsame rfl, .of_probed (tagSegment_probed env n.st)⟩
  | fallback q =>
    have hmain : n.holder = .main := by
      by_contra hne
      have hnone := h.fallbacks hne
      simp [hjobs, Job.fallen] at hnone
    exact h.runs (fallback_runs hmain q hjobs) h.prepared rfl rfl fun hne => absurd hmain hne

/-- Every step before the unload is a run of the two threads. -/
theorem step_simulated {act : Act} (hmode : setup.mode ≠ .sync) (hw : Wf setup n) (hact : beforeStop act = true)
    (hs : step setup env n act = some n') (h : Simulated setup n taken) : ∃ taken', Simulated setup n' taken' := by
  cases step_fires hs with
  | acquire hfree _ =>
    have hnone : (n.threads taken).holder = none := by simp only [threads, hfree, Holder.thread]
    exact ⟨taken, h.runs ⟨_, Threads.runs_acquire hnone (t := .main) rfl⟩ h.prepared rfl rfl fun hne => absurd rfl hne⟩
  | release hcmd hjobs =>
    have hheld : (n.threads taken).holder = some .main := by simp only [threads, hcmd.1, Holder.thread]
    have hempty : (n.threads taken).jobs = [] := by simp only [threads, hjobs, List.filterMap_nil]
    refine ⟨taken, h.runs ⟨_, Threads.runs_release hheld rfl hempty⟩ h.prepared rfl rfl fun _ => ?_⟩
    simp [hjobs]
  | notify hmay => exact ⟨taken, notify_simulated hmode hw h _ _ _ _ _ _ hmay⟩
  | command _ hop => exact ⟨taken, h.aloof (.note none (command_apart env n.st hop))⟩
  | setEnabled _ => exact ⟨taken, h.aloof (.note none (enabledChanged_apart n.st _))⟩
  | configure _ _ => exact ⟨taken, h.aloof (.note none (.of_counters rfl rfl rfl))⟩
  | cron _ _ => exact ⟨taken, h.aloof (cron_aloof n)⟩
  | runJob _ _ _ hj => exact ⟨taken, runJob_simulated hj h⟩
  | @process task todo _ =>
    exact ⟨taken, h.aloof ((Aloof.note (some task) (task.run_apart env n.st)).trans (.todo _ _))⟩
  | started _ | wake _ _ _ =>
    refine ⟨taken, h.reach, fun s hs => ?_, h.running, h.going, h.fallbacks⟩
    cases hs
  | notStarted _ => cases hact
  | prepare _ =>
    refine ⟨_, h.runs (prepare_runs setup.batch) (fun s hs => ?_) rfl rfl h.fallbacks⟩
    injection hs with hs
    split at hs
    · rw [hs]
      simp
    · cases hs
  | @lock snapshot hwk hfree =>
    obtain ⟨hwk', hphase, hstop, hjobs⟩ := lockWorker_control setup n snapshot
    refine ⟨taken, h.runs (lock_runs hfree fun s e => h.prepared s (e ▸ hwk)) (fun s hs => ?_) hphase hstop fun _ => ?_⟩
    · rw [hwk'] at hs
      cases hs
    · rw [hjobs, (hw.free hfree).1]
      rfl
  | unlock hhold _ hjobs =>
    have hthread : (n.threads taken).holder = some .worker := by simp only [threads, hhold, Holder.thread]
    have hempty : (n.threads taken).jobs = [] := by simp only [threads, hjobs, List.filterMap_nil]
    refine ⟨taken, h.runs ⟨_, Threads.runs_release hthread rfl hempty⟩ (fun s hs => by cases hs) rfl rfl fun _ => ?_⟩
    simp [hjobs]
  | stopWaiting hstop _ | stopSpinning hstop _ =>
    rw [h.going] at hstop
    cases hstop
  | stopSync _ _ _ | requestStop _ _ _ => cases hact
  | join hphase _ | finish hphase _ =>
    rw [h.running] at hphase
    cases hphase

theorem loaded_simulated (h : Loaded setup env n) : Simulated setup n [] := by
  obtain ⟨config, host, ks, generation, master, loading, mode, -, rfl⟩ := h
  obtain ⟨_, _, _, hst⟩ := loadedState_eq env config host.cluster ks generation master loading
  refine ⟨?_, fun s hs => ?_, rfl, rfl, fun hne => absurd rfl hne⟩
  · rw [hst]
    exact Machine.Reach.start rfl
  · simp only [initial] at hs
    split at hs <;> cases hs

/-- **The queue of a node is one of the two threads' queues.** In every run before the unload whose worker obtains its
context, the statics of the dispatch are where a run of the two threads leads. So what holds throughout those runs holds
of a node: its gauge is the length of its queue, which stays within the capacity, and the counters account for every
event. -/
theorem Reach.threads (hmode : setup.mode ≠ .sync) (h : Reach setup env (fun _ act => beforeStop act = true) n) :
    ∃ taken, Threads.Reach setup.capacity (n.threads taken) := by
  have hsim : ∃ taken, Simulated setup n taken := by
    refine Machine.Reach.invariant (I := fun n => ∃ taken, Simulated setup n taken) ?_ ?_ h
    · exact fun n hl => ⟨[], loaded_simulated hl⟩
    · rintro n act n' hr hact hs ⟨taken, hn⟩
      exact step_simulated hmode (Reach.wf hr) hact hs hn
  obtain ⟨taken, hn⟩ := hsim
  exact ⟨taken, hn.reach⟩

/-- The gauge and the counters of a node before the unload. -/
theorem Reach.gauge_exact (hmode : setup.mode ≠ .sync) (h : Reach setup env (fun _ act => beforeStop act = true) n) :
    n.st.asyncQueueDepth = n.queue.length ∧ n.queue.length ≤ setup.capacity ∧
    n.st.asyncQueueHighWater ≤ setup.capacity ∧
      n.st.value .asyncEnqueued + n.st.value .asyncFallbacks = n.dispatched.length ∧
      n.st.value .asyncEnqueued = n.st.value .asyncDrainEvents + n.queue.length := by
  obtain ⟨taken, hreach⟩ := Reach.threads hmode h
  obtain ⟨-, hshape, hbal⟩ := hreach.sound
  -- both threads are between two operations, and so they have nothing to add
  have hgauge : n.st.asyncQueueDepth + (0 + 0) = n.queue.length := hbal.gauge
  have hcounted : n.st.value .asyncEnqueued + n.st.value .asyncFallbacks + (0 + 0) = n.dispatched.length := hbal.counted
  have hmoved : n.st.value .asyncEnqueued + (0 + 0) = n.st.value .asyncDrainEvents + (0 + 0) + n.queue.length :=
    hbal.moved
  exact ⟨by omega, hshape.bounded, hshape.high, by omega, by omega⟩

end Simulation

end Node

end EventStream

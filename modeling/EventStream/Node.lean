import EventStream.Lib.Boundaries
import EventStream.Lifecycle
import EventStream.Queue

/-!
# The dispatch of events

One server process with the module loaded: the main thread, the worker of the asynchronous write modes, and the server's
lock, which one of them holds at a time. `step` takes one of their steps:

- the main thread takes and gives back the lock, runs commands, notifies the module of keyspace events, runs the
  post-notification jobs in the order they were registered, ticks the cron, and stops the module;
- the worker obtains its context, waits, prepares an envelope, takes the lock with what it drains, and exits.

Whoever holds the lock processes the tasks it has taken one by one. While it does, the writes of the module notify the
module of its own keys. Ghost fields record what was dispatched, given up, and done. `Fires` has one rule for each way a
step can go, and what holds of every step is proved by cases on its rules.
-/

namespace EventStream

open Text (Str Bytes utf8)

/-! ## Loading -/

/-- The load-time settings of the dispatch. -/
structure Setup where
  mode : WriteMode
  capacity : Nat
  batch : Nat
  capacity_pos : 0 < capacity
  batch_pos : 0 < batch

/-- What the start of the worker asks of the server and the process. -/
structure Host where
  cluster : Bool
  /-- The server offers the try-lock. -/
  tryLock : Bool
  /-- A queue or a worker of an earlier generation is still there. -/
  previous : Bool
  spawn : Except Str Unit

/-- The checks before the worker is spawned; the result is the mode in force. -/
def startDispatchWorker (setup : Setup) (config : Config) (host : Host) : Except Str WriteMode :=
  if setup.mode = .sync then .ok .sync
  else if host.cluster then .error "experimental async write modes do not support cluster mode".toList
  else if config.firehose then .error "experimental async write modes require firehose no".toList
  else if config.entrySeq then .error "experimental async write modes require entry-seq no".toList
  else if config.entryFormat ≠ .fixed then
    .error "experimental async write modes require entry-format fixed".toList
  else if config.retentionMs ≠ 0 then .error "experimental async write modes require retention-ms 0".toList
  else if config.maxlenOverrides ≠ [] then
    .error "experimental async write modes require empty maxlen-overrides".toList
  else if ¬ host.tryLock then .error "RedisModule_ThreadSafeContextTryLock is unavailable".toList
  else if host.previous then .error "async writer from a previous generation is still active".toList
  else
    match host.spawn with
    | .error e => .error ("failed to spawn async writer: ".toList ++ e)
    | .ok _ => .ok setup.mode

/-! ## Tasks, jobs and threads -/

/-- One unit of work of the lock holder. -/
inductive Task
  | event (q : Queued)
  | envelope (qs : List Queued) (fields : List Bytes)
  | marker (control : Str) (retention : Retention) (m : Recorded)
  /-- A marker that has no slot to go to. -/
  | noSlot (m : Recorded)
  | checkpoint (control : Str) (retention : Retention)

namespace Task

/-- The events and markers a task settles. -/
def items : Task → List (Lanes.Item Queued Recorded)
  | event q => [.event q]
  | envelope qs _ => qs.map .event
  | marker _ _ m => [.mark m]
  | noSlot m => [.mark m]
  | checkpoint _ _ => []

def run (env : Env) (st : State) : Task → State
  | event q => (Handoff.event q.event).process env st
  | envelope qs fields => (Handoff.envelope (qs.map Queued.event) fields).process env st
  | marker control retention m => writeMarker env st control m.marker.action m.marker.db retention
  | noSlot _ => countNoSlotDrop env st .marker false
  | checkpoint control retention => writeCheckpoint env st control retention

end Task

/-- A registered post-notification job. -/
inductive Job
  | event (q : Queued)
  | fallback (q : Queued)
  | markers (job : MarkerJob)

/-- Where the worker is. -/
inductive Worker
  | absent
  | starting
  | waiting
  | ready
  | spinning (snapshot : Option EnvelopeSnapshot)
  | holding
  | exited (pending : List Queued)
  | joined
  deriving DecidableEq

/-- What an exited worker hands back. -/
def Worker.pending : Worker → List Queued
  | exited pending => pending
  | _ => []

inductive Holder
  | free | main | worker
  deriving DecidableEq

/-- The main thread: at work, or inside the three parts of `stop_dispatch_worker`. -/
inductive Phase
  | running | joining | finishing | stopped
  deriving DecidableEq

/-- One thing done: the task it settled, if it was one, the calls it made and what it counted. -/
structure Done where
  task : Option Task
  calls : List Occurrence
  charges : List Charge

def Done.items (d : Done) : List (Lanes.Item Queued Recorded) := d.task.elim [] Task.items

structure Node where
  st : State
  holder : Holder
  phase : Phase
  jobs : List Job
  /-- What the lock holder has taken and not processed yet. -/
  todo : List Task
  activeMode : WriteMode
  /-- Whether `EVENT_QUEUE` holds the queue. -/
  slot : Bool
  queue : List Queued
  nextId : Nat
  worker : Worker
  stop : Bool
  /-- Ghosts: the events dispatched, those given up at once, the markers given up, and all that was done. -/
  dispatched : List Queued
  lost : List Queued
  unregistered : List Recorded
  history : List Done

namespace Node

/-- Go on with another state, and note what was done. -/
def note (n : Node) (task : Option Task) (st : State) : Node :=
  { n with
    st := st
    history := n.history ++
      [⟨task, st.trace.drop n.st.trace.length, st.counters.ledger.drop n.st.counters.ledger.length⟩] }

/-- The state the load leaves, with the markers it records. On a cluster node the module loads in per-node mode only. -/
def loadedState (env : Env) (config : Config) (cluster : Bool) (ks : Keyspace) (generation : Str)
    (master loading : Bool) : State :=
  let st := { State.fresh { config with perNode := cluster } ks with
    generationId := generation, master := master, loading := loading }
  let st := recordPendingMarker st (.simple .loaded)
  let st := if config.enabled then st else recordPendingMarker st (.simple .disabled)
  if config.controlCheckpointMs = 0 then st else { st with lastCheckpointMs := env.nowMs st.clock }

/-- The module after its load. -/
def initial (mode : WriteMode) (st : State) : Node where
  st := st
  holder := .main
  phase := .running
  jobs := []
  todo := []
  activeMode := mode
  slot := mode ≠ .sync
  queue := []
  nextId := 0
  worker := if mode = .sync then .absent else .starting
  stop := false
  dispatched := []
  lost := []
  unregistered := []
  history := []

/-- A module that has just been loaded. -/
def Loaded (setup : Setup) (env : Env) (n : Node) : Prop :=
  ∃ config host ks generation master loading mode, startDispatchWorker setup config host = .ok mode ∧
    n = initial mode (loadedState env config host.cluster ks generation master loading)

/-! ## The notification callback -/

/-- Register the processor of an event as a job. -/
def deferPendingEvent (env : Env) (n : Node) (q : Queued) (registered : Bool) : Node :=
  if registered then { n with jobs := n.jobs ++ [.event q] }
  else { n.note none (countDeferFailure env n.st) with lost := n.lost ++ [q] }

/-- Register the job that drains what was queued before an event, and then processes it. -/
def deferOrderedFallback (env : Env) (n : Node) (q : Queued) (registered : Bool) : Node :=
  if registered then { n with jobs := n.jobs ++ [.fallback q] }
  else { n.note none (countDeferFailure env n.st) with lost := n.lost ++ [q] }

/-- The counters of an accepted event. -/
def countEnqueued (st : State) (depth : Nat) : State :=
  { st.charge .dispatch .asyncEnqueued 1 with
    asyncQueueDepth := st.asyncQueueDepth + 1
    asyncQueueHighWater := max st.asyncQueueHighWater depth }

/-- Route one event through the mode in force. -/
def dispatchPendingEvent (setup : Setup) (env : Env) (n : Node) (event : PendingEvent) (contended registered : Bool) :
    Node :=
  let numbered : Queued := ⟨n.dispatched.length, event⟩
  let n := { n with dispatched := n.dispatched ++ [numbered] }
  if n.activeMode = .sync then deferPendingEvent env n numbered registered
  else if ¬ n.slot then
    deferPendingEvent env (n.note none (n.st.charge .dispatch .asyncFallbacks 1)) numbered registered
  else
    let q : Queued := ⟨n.nextId, event⟩
    let n := { n with nextId := n.nextId + 1 }
    match tryPush setup.capacity n.queue contended q with
    | some queue => { n.note none (countEnqueued n.st queue.length) with queue := queue }
    | none => deferOrderedFallback env (n.note none (n.st.charge .dispatch .asyncFallbacks 1)) q registered

/-- Step 0 of the callback: take the pending markers. -/
def takeMarkers (env : Env) (n : Node) (registered : Bool) : Node :=
  let r := flushMarkers env n.st registered
  { n.note none r.1 with
    jobs := n.jobs ++ (r.2.map Job.markers).toList
    unregistered := n.unregistered ++ if r.2.isNone ∧ r.1.pendingMarkers = [] then n.st.pendingMarkers else [] }

/-- The callback, with what the environment decides: whether the queue's lock stays contended, and whether a job for the
event and one for the markers can be registered. -/
def onKeyspaceEvent (setup : Setup) (env : Env) (n : Node) (cls : NotifyEvent) (event : Str) (key : Bytes) (db : Int32)
    (contended registered markersRegistered : Bool) : Node :=
  let n := n.takeMarkers env markersRegistered
  let r := selectEvent n.st cls event key db
  match r.2 with
  | none => n.note none r.1
  | some e => dispatchPendingEvent setup env (n.note none r.1) e contended registered

/-! ## Jobs and the cron -/

/-- The counters of a drain; an empty one is not counted. -/
def countDrain (st : State) (count : Nat) : State :=
  let st := { st with asyncQueueDepth := st.asyncQueueDepth - count }
  if count = 0 then st else (st.charge .dispatch .asyncDrains 1).charge .dispatch .asyncDrainEvents count

def markerTasks (control : Str) (retention : Retention) (markers : List Recorded) : List Task :=
  markers.map (Task.marker control retention)

/-- The tasks of a marker job, once it knows its slot. -/
def markerJobTasks (job : MarkerJob) : Option Str → List Task
  | none => job.markers.map Task.noSlot
  | some seg => markerTasks (controlStreamOf job.pfx seg) job.retention job.markers

/-- Begin a job: what it will do becomes the tasks of the lock holder. -/
def startJob (env : Env) (n : Node) : Job → Node
  | .event q => { n with todo := [.event q] }
  | .fallback q =>
    let accepted := drainBefore n.queue q.id
    { n.note none (countDrain n.st accepted.1.length) with
      queue := accepted.2
      todo := accepted.1.map Task.event ++ [.event q] }
  | .markers job =>
    let r := tagSegment env n.st
    { n.note none r.2 with todo := markerJobTasks job r.1 }

/-- One due checkpoint: it takes the pending markers, and then writes the status. -/
def checkpointTick (env : Env) (n : Node) (st : State) : Node :=
  if ¬ st.capturing then n.note none st
  else
    match tagSegment env st with
    | (none, st) => n.note none st
    | (some seg, st) =>
      let control := controlStreamOf st.config.pfx seg
      let retention := controlRetention st
      { n.note none { st with pendingMarkers := [], markersDirty := false } with
        todo := markerTasks control retention st.pendingMarkers ++ [.checkpoint control retention] }

/-- The time of a checkpoint has come. -/
def checkpointDue (env : Env) (n : Node) : Bool :=
  n.st.config.controlCheckpointMs ≠ 0 && ¬ env.nowMs n.st.clock - n.st.lastCheckpointMs <
    n.st.config.controlCheckpointMs

/-- The cron callback: nothing until the configured time has passed. -/
def cron (env : Env) (n : Node) : Node :=
  let now := env.nowMs n.st.clock
  if n.st.config.controlCheckpointMs = 0 then n
  else if now - n.st.lastCheckpointMs < n.st.config.controlCheckpointMs then n
  else n.checkpointTick env { n.st with lastCheckpointMs := now }

/-! ## Commands -/

/-- The on-changed callback of `enabled`, which records a marker if the value changed. -/
def enabledChanged (st : State) (now : Bool) : State :=
  if st.config.enabled = now then st
  else
    let st := { st with
      config := { st.config with enabled := now }
      log := st.log ++ [LogLine.notice ("eventstream: enabled set to ".toList ++
        if now then "yes".toList else "no".toList)] }
    recordPendingMarker st (.simple (if now then .enabled else .disabled))

/-- The operations of a run that are commands of a client. -/
def isCommand : Op → Bool
  | .flush _ | .swapdb _ _ | .prune | .setAutoGroup _ | .setFirehose _ | .role _ _ | .client _ _ _ => true
  | _ => false

/-- A configuration that `CONFIG SET` can lead to: what is fixed at load stays, and `enabled` has its own callback. -/
def mutable (old new : Config) : Bool :=
  old.pfx = new.pfx && old.perNode = new.perNode && old.entrySeq = new.entrySeq &&
    old.controlCheckpointMs = new.controlCheckpointMs && old.enabled = new.enabled

/-! ## The worker -/

/-- Leave the loop with everything that is queued. -/
def exitWorker (n : Node) : Node :=
  let all := drainAll n.queue
  { n.note none { n.st with asyncQueueDepth := n.st.asyncQueueDepth - all.1.length } with
    queue := all.2
    worker := .exited all.1 }

/-- The lock is taken: drain the prepared envelope if it is still the front of the queue, or a batch of single events.
-/
def lockWorker (setup : Setup) (n : Node) : Option EnvelopeSnapshot → Node
  | some snapshot =>
    match drainSnapshot n.queue snapshot with
    | some queue =>
      { n.note none (countDrain n.st snapshot.count) with
        holder := .worker
        worker := .holding
        queue := queue
        todo := (sliceGroups snapshot.groups snapshot.events).map fun g => .envelope g.1 g.2 }
    | none => { n with holder := .worker, worker := .holding }
  | none =>
    let batch := drain n.queue setup.batch
    { n.note none (countDrain n.st batch.1.length) with
      holder := .worker
      worker := .holding
      queue := batch.2
      todo := batch.1.map Task.event }

/-- What a worker that takes the lock leaves alone. -/
theorem lockWorker_control (setup : Setup) (n : Node) (snapshot : Option EnvelopeSnapshot) :
    (n.lockWorker setup snapshot).worker = .holding ∧ (n.lockWorker setup snapshot).phase = n.phase ∧
      (n.lockWorker setup snapshot).stop = n.stop ∧ (n.lockWorker setup snapshot).jobs = n.jobs := by
  unfold lockWorker
  split
  · split <;> exact ⟨rfl, rfl, rfl, rfl⟩
  · exact ⟨rfl, rfl, rfl, rfl⟩

/-! ## Steps -/

inductive Act
  | acquire
  | release
  | notify (cls : NotifyEvent) (event : Str) (key : Bytes) (db : Int32) (contended registered markersRegistered : Bool)
  | command (op : Op)
  | setEnabled (on : Bool)
  | configure (config : Config)
  | cron
  | runJob
  | process
  | workerStart (ok : Bool)
  | workerWake
  | workerPrepare
  | workerLock
  | workerUnlock
  | workerStop
  | requestStop
  | join
  | finish

/-- The main thread runs a command: it has the lock and is not inside a job. -/
def atCommand (n : Node) : Prop := n.holder = .main ∧ n.phase = .running ∧ n.todo = []

/-- A notification is due to a command, or to a write of the lock holder to one of the module's own keys. -/
def mayNotify (n : Node) (key : Bytes) : Prop :=
  n.atCommand ∨ (n.holder ≠ .free ∧ n.phase ≠ .joining ∧ n.phase ≠ .stopped ∧ (utf8 n.st.config.pfx).isPrefixOf key)

instance (todo : List Task) : Decidable (todo = []) := decidable_of_iff _ List.isEmpty_iff

instance (jobs : List Job) : Decidable (jobs = []) := decidable_of_iff _ List.isEmpty_iff

instance (n : Node) : Decidable n.atCommand := inferInstanceAs (Decidable (_ ∧ _ ∧ _))

instance (n : Node) (key : Bytes) : Decidable (n.mayNotify key) := inferInstanceAs (Decidable (_ ∨ _))

def step (setup : Setup) (env : Env) (n : Node) : Act → Option Node
  | .acquire => if n.holder = .free ∧ n.phase = .running then some { n with holder := .main } else none
  | .release => if n.atCommand ∧ n.jobs = [] then some { n with holder := .free } else none
  | .notify cls event key db contended registered markersRegistered =>
    if n.mayNotify key then some (n.onKeyspaceEvent setup env cls event key db contended registered markersRegistered)
    else none
  | .command op => if n.atCommand ∧ isCommand op then some (n.note none (op.apply env n.st)) else none
  | .setEnabled on => if n.atCommand then some (n.note none (enabledChanged n.st on)) else none
  | .configure config =>
    if n.atCommand ∧ mutable n.st.config config then some (n.note none { n.st with config := config }) else none
  | .cron => if n.atCommand ∧ n.jobs = [] then some (n.cron env) else none
  | .runJob =>
    if n.holder ≠ .free ∧ n.phase = .running ∧ n.todo = [] then
      match n.jobs with
      | [] => none
      | job :: jobs => some (startJob env { n with jobs := jobs } job)
    else none
  | .process =>
    match n.todo with
    | [] => none
    | task :: todo => some { n.note (some task) (task.run env n.st) with todo := todo }
  | .workerStart ok =>
    if n.worker = .starting then
      if ok then some { n with worker := .waiting }
      else some (n.note none (n.st.charge .dispatch .asyncWorkerErrors 1)).exitWorker
    else none
  | .workerWake =>
    if n.worker = .waiting ∧ n.stop = false ∧ n.queue ≠ [] then some { n with worker := .ready } else none
  | .workerPrepare =>
    if n.worker = .ready then
      some { n with
        worker := .spinning (if setup.mode = .envelope then prepareEnvelopes n.queue setup.batch else none) }
    else none
  | .workerLock =>
    match n.worker with
    | .spinning snapshot => if n.holder = .free then some (n.lockWorker setup snapshot) else none
    | _ => none
  | .workerUnlock =>
    if n.holder = .worker ∧ n.todo = [] ∧ n.jobs = [] then some { n with holder := .free, worker := .waiting } else none
  | .workerStop =>
    if n.stop = true then
      match n.worker with
      | .waiting => some n.exitWorker
      | .spinning _ => some n.exitWorker
      | _ => none
    else none
  | .requestStop =>
    if n.atCommand ∧ n.jobs = [] then
      if n.activeMode = .sync then some { n with phase := .stopped }
      else some { n with stop := true, activeMode := .sync, phase := .joining }
    else none
  | .join =>
    if n.phase = .joining then
      match n.worker with
      | .exited pending =>
        some { n.note none { n.st with asyncQueueDepth := 0 } with
          worker := .joined
          todo := pending.map Task.event
          phase := .finishing }
      | _ => none
    else none
  | .finish => if n.phase = .finishing ∧ n.todo = [] then some { n with slot := false, phase := .stopped } else none

/-- The steps as a relation, one rule for each way a step can go: its guard, and what it leaves. -/
inductive Fires (setup : Setup) (env : Env) (n : Node) : Act → Node → Prop
  | acquire (hfree : n.holder = .free) (hrun : n.phase = .running) :
      Fires setup env n .acquire { n with holder := .main }
  | release (hcmd : n.atCommand) (hjobs : n.jobs = []) : Fires setup env n .release { n with holder := .free }
  | notify {cls : NotifyEvent} {event : Str} {key : Bytes} {db : Int32} {contended registered markersRegistered : Bool}
      (hmay : n.mayNotify key) :
      Fires setup env n (.notify cls event key db contended registered markersRegistered)
        (n.onKeyspaceEvent setup env cls event key db contended registered markersRegistered)
  | command {op : Op} (hcmd : n.atCommand) (hop : isCommand op = true) :
      Fires setup env n (.command op) (n.note none (op.apply env n.st))
  | setEnabled {on : Bool} (hcmd : n.atCommand) :
      Fires setup env n (.setEnabled on) (n.note none (enabledChanged n.st on))
  | configure {config : Config} (hcmd : n.atCommand) (hmut : mutable n.st.config config = true) :
      Fires setup env n (.configure config) (n.note none { n.st with config := config })
  | cron (hcmd : n.atCommand) (hjobs : n.jobs = []) : Fires setup env n .cron (n.cron env)
  | runJob {job : Job} {jobs : List Job} (hheld : n.holder ≠ .free) (hrun : n.phase = .running) (htodo : n.todo = [])
      (hj : n.jobs = job :: jobs) : Fires setup env n .runJob (startJob env { n with jobs := jobs } job)
  | process {task : Task} {todo : List Task} (ht : n.todo = task :: todo) :
      Fires setup env n .process { n.note (some task) (task.run env n.st) with todo := todo }
  | started (hstart : n.worker = .starting) : Fires setup env n (.workerStart true) { n with worker := .waiting }
  | notStarted (hstart : n.worker = .starting) :
      Fires setup env n (.workerStart false) (n.note none (n.st.charge .dispatch .asyncWorkerErrors 1)).exitWorker
  | wake (hwait : n.worker = .waiting) (hstop : n.stop = false) (hqueue : n.queue ≠ []) :
      Fires setup env n .workerWake { n with worker := .ready }
  | prepare (hready : n.worker = .ready) :
      Fires setup env n .workerPrepare
        { n with worker := .spinning (if setup.mode = .envelope then prepareEnvelopes n.queue setup.batch else none) }
  | lock {snapshot : Option EnvelopeSnapshot} (hwk : n.worker = .spinning snapshot) (hfree : n.holder = .free) :
      Fires setup env n .workerLock (n.lockWorker setup snapshot)
  | unlock (hhold : n.holder = .worker) (htodo : n.todo = []) (hjobs : n.jobs = []) :
      Fires setup env n .workerUnlock { n with holder := .free, worker := .waiting }
  | stopWaiting (hstop : n.stop = true) (hwk : n.worker = .waiting) : Fires setup env n .workerStop n.exitWorker
  | stopSpinning {snapshot : Option EnvelopeSnapshot} (hstop : n.stop = true) (hwk : n.worker = .spinning snapshot) :
      Fires setup env n .workerStop n.exitWorker
  | stopSync (hcmd : n.atCommand) (hjobs : n.jobs = []) (hsync : n.activeMode = .sync) :
      Fires setup env n .requestStop { n with phase := .stopped }
  | requestStop (hcmd : n.atCommand) (hjobs : n.jobs = []) (hasync : n.activeMode ≠ .sync) :
      Fires setup env n .requestStop { n with stop := true, activeMode := .sync, phase := .joining }
  | join {pending : List Queued} (hjoin : n.phase = .joining) (hwk : n.worker = .exited pending) :
      Fires setup env n .join
        { n.note none { n.st with asyncQueueDepth := 0 } with
          worker := .joined
          todo := pending.map Task.event
          phase := .finishing }
  | finish (hfin : n.phase = .finishing) (htodo : n.todo = []) :
      Fires setup env n .finish { n with slot := false, phase := .stopped }

/-- A step that is taken goes one of these ways. Invariants of the steps are read off the rules, not off `step`. -/
theorem step_fires {setup : Setup} {env : Env} {n n' : Node} {act : Act} (h : step setup env n act = some n') :
    Fires setup env n act n' := by
  cases act with
  | acquire =>
    simp only [step, Option.ite_none_right_eq_some, Option.some.injEq] at h
    obtain ⟨⟨hfree, hrun⟩, rfl⟩ := h
    exact .acquire hfree hrun
  | release =>
    simp only [step, Option.ite_none_right_eq_some, Option.some.injEq] at h
    obtain ⟨⟨hcmd, hjobs⟩, rfl⟩ := h
    exact .release hcmd hjobs
  | notify cls event key db contended registered markersRegistered =>
    simp only [step, Option.ite_none_right_eq_some, Option.some.injEq] at h
    obtain ⟨hmay, rfl⟩ := h
    exact .notify hmay
  | command op =>
    simp only [step, Option.ite_none_right_eq_some, Option.some.injEq] at h
    obtain ⟨⟨hcmd, hop⟩, rfl⟩ := h
    exact .command hcmd hop
  | setEnabled on =>
    simp only [step, Option.ite_none_right_eq_some, Option.some.injEq] at h
    obtain ⟨hcmd, rfl⟩ := h
    exact .setEnabled hcmd
  | configure config =>
    simp only [step, Option.ite_none_right_eq_some, Option.some.injEq] at h
    obtain ⟨⟨hcmd, hmut⟩, rfl⟩ := h
    exact .configure hcmd hmut
  | cron =>
    simp only [step, Option.ite_none_right_eq_some, Option.some.injEq] at h
    obtain ⟨⟨hcmd, hjobs⟩, rfl⟩ := h
    exact .cron hcmd hjobs
  | runJob =>
    simp only [step, Option.ite_none_right_eq_some] at h
    obtain ⟨⟨hheld, hrun, htodo⟩, h⟩ := h
    cases hj : n.jobs with
    | nil => rw [hj] at h; cases h
    | cons job jobs =>
      rw [hj] at h
      cases h
      exact .runJob hheld hrun htodo hj
  | process =>
    simp only [step] at h
    cases ht : n.todo with
    | nil => rw [ht] at h; cases h
    | cons task todo =>
      rw [ht] at h
      cases h
      exact .process ht
  | workerStart ok =>
    simp only [step, Option.ite_none_right_eq_some] at h
    obtain ⟨hstart, h⟩ := h
    cases ok <;> cases h
    · exact .notStarted hstart
    · exact .started hstart
  | workerWake =>
    simp only [step, Option.ite_none_right_eq_some, Option.some.injEq] at h
    obtain ⟨⟨hwait, hstop, hqueue⟩, rfl⟩ := h
    exact .wake hwait hstop hqueue
  | workerPrepare =>
    simp only [step, Option.ite_none_right_eq_some, Option.some.injEq] at h
    obtain ⟨hready, rfl⟩ := h
    exact .prepare hready
  | workerLock =>
    simp only [step] at h
    cases hwk : n.worker with
    | spinning snapshot =>
      rw [hwk] at h
      simp only [Option.ite_none_right_eq_some, Option.some.injEq] at h
      obtain ⟨hfree, rfl⟩ := h
      exact .lock hwk hfree
    | absent | starting | waiting | ready | holding | exited _ | joined => rw [hwk] at h; cases h
  | workerUnlock =>
    simp only [step, Option.ite_none_right_eq_some, Option.some.injEq] at h
    obtain ⟨⟨hhold, htodo, hjobs⟩, rfl⟩ := h
    exact .unlock hhold htodo hjobs
  | workerStop =>
    simp only [step, Option.ite_none_right_eq_some] at h
    obtain ⟨hstop, h⟩ := h
    cases hwk : n.worker with
    | waiting =>
      rw [hwk] at h
      cases h
      exact .stopWaiting hstop hwk
    | spinning snapshot =>
      rw [hwk] at h
      cases h
      exact .stopSpinning hstop hwk
    | absent | starting | ready | holding | exited _ | joined => rw [hwk] at h; cases h
  | requestStop =>
    simp only [step, Option.ite_none_right_eq_some] at h
    obtain ⟨⟨hcmd, hjobs⟩, h⟩ := h
    by_cases hsync : n.activeMode = .sync
    · rw [if_pos hsync] at h
      cases h
      exact .stopSync hcmd hjobs hsync
    · rw [if_neg hsync] at h
      cases h
      exact .requestStop hcmd hjobs hsync
  | join =>
    simp only [step, Option.ite_none_right_eq_some] at h
    obtain ⟨hjoin, h⟩ := h
    cases hwk : n.worker with
    | exited pending =>
      rw [hwk] at h
      cases h
      exact .join hjoin hwk
    | absent | starting | waiting | ready | spinning _ | holding | joined => rw [hwk] at h; cases h
  | finish =>
    simp only [step, Option.ite_none_right_eq_some, Option.some.injEq] at h
    obtain ⟨⟨hfin, htodo⟩, rfl⟩ := h
    exact .finish hfin htodo

/-! ## The view as two lanes -/

end Node

def Job.view : Job → Lanes.Job Queued Recorded
  | event q => .event q
  | fallback q => .ordered q
  | markers job => .marks job.markers

/-- Events are numbered by their dispatch, markers by their recording. -/
def keys : Lanes.Keys Queued Recorded := ⟨Queued.id, Recorded.ordinal, Recorded.point⟩

namespace Node

/-- What of a node the order of events and markers depends on. -/
def view (setup : Setup) (n : Node) : Lanes.Traffic Queued Recorded where
  queued := setup.mode ≠ .sync
  dispatched := n.dispatched
  recorded := n.st.recorded
  pending := n.st.pendingMarkers
  queue := n.queue
  jobs := n.jobs.map Job.view
  taken := n.todo.flatMap Task.items
  returned := n.worker.pending
  done := n.history.flatMap Done.items
  lost := n.lost
  dropped := n.unregistered

/-- The states of the runs from a load that take allowed steps only. -/
def Reach (setup : Setup) (env : Env) (allowed : Node → Act → Prop) : Node → Prop :=
  Machine.Reach (fun n act n' => step setup env n act = some n') allowed (Loaded setup env)

end Node

end EventStream

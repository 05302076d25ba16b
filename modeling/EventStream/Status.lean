import EventStream.Conservation
import EventStream.Atomic
import EventStream.Client.ControlEntries

/-!
# What a checkpoint says

A checkpoint gives the counters of a moment in the middle of a run, while other events may be queued. It is a consistent
cut all the same: nothing is half done when the cron writes it.

* `Gauged`: the depth that a running node reports is that of its queue, in every mode.
* `Tick`: while a checkpoint is to be written no event is taken, no job is registered and no marker is pending.
* `checkpoint_consistent`: what a client reads in a checkpoint accounts for every event selected before it.
-/

namespace EventStream

open Text (Str Bytes utf8)

def Task.isCheckpoint : Task → Bool
  | checkpoint _ _ => true
  | _ => false

namespace Node

section Status

variable {setup : Setup} {env : Env} {n n' : Node}

/-! ## The depth of the queue -/

/-- The gauge of a running node is the length of its queue. -/
def Gauged (n : Node) : Prop := n.phase = .running → n.st.asyncQueueDepth = n.queue.length

theorem Gauged.aloof (hg : Gauged n) (ha : Aloof n n') : Gauged n' := by
  intro hrun
  rw [ha.gauges.depth, ha.queue]
  exact hg (ha.phase ▸ hrun)

theorem countDrain_depth (st : State) (count : Nat) :
    (countDrain st count).asyncQueueDepth = st.asyncQueueDepth - count := by
  unfold countDrain
  simp only
  split <;> rfl

theorem dispatchPendingEvent_gauged (hg : Gauged n) (event : PendingEvent) (contended registered : Bool) :
    Gauged (dispatchPendingEvent setup env n event contended registered) := by
  unfold dispatchPendingEvent deferPendingEvent deferOrderedFallback
  simp only
  split
  · split <;> exact hg
  split
  · split <;> exact hg
  split
  · rename_i queue hpush
    intro hrun
    have hlength : queue.length = n.queue.length + 1 := by
      rw [tryPush_some hpush, List.length_append]
      rfl
    change n.st.asyncQueueDepth + 1 = (queue.length : Int)
    rw [hg hrun, hlength]
    rfl
  · split <;> exact hg

theorem onKeyspaceEvent_gauged (hg : Gauged n) (cls : NotifyEvent) (event : Str) (key : Bytes) (db : Int32)
    (contended registered markersRegistered : Bool) :
    Gauged (n.onKeyspaceEvent setup env cls event key db contended registered markersRegistered) := by
  have htaken : Gauged (n.takeMarkers env markersRegistered) := hg.aloof (takeMarkers_aloof n markersRegistered)
  unfold onKeyspaceEvent
  simp only
  have hselect := htaken.aloof
    (.note none (selectEvent_apart (n.takeMarkers env markersRegistered).st cls event key db))
  split
  · exact hselect
  · exact dispatchPendingEvent_gauged hselect _ _ _

theorem startJob_gauged (hg : Gauged n) (job : Job) : Gauged (startJob env n job) := by
  cases job with
  | event q => exact hg
  | fallback q =>
    intro hrun
    have hsplit : (drainBefore n.queue q.id).1.length + (drainBefore n.queue q.id).2.length = n.queue.length := by
      rw [← List.length_append]
      exact congrArg List.length (List.takeWhile_append_dropWhile)
    change (countDrain n.st (drainBefore n.queue q.id).1.length).asyncQueueDepth =
      ((drainBefore n.queue q.id).2.length : Int)
    rw [countDrain_depth, hg hrun]
    omega
  | markers job =>
    have hprobed : Gauged (n.note none (tagSegment env n.st).2) :=
      hg.aloof (.note none (.of_probed (tagSegment_probed env n.st)))
    exact hprobed.aloof (.todo _ _)

theorem lockWorker_gauged (hg : Gauged n) (snapshot : Option EnvelopeSnapshot) :
    Gauged (n.lockWorker setup snapshot) := by
  cases snapshot with
  | none =>
    intro hrun
    change (countDrain n.st (drain n.queue setup.batch).1.length).asyncQueueDepth =
      ((drain n.queue setup.batch).2.length : Int)
    rw [countDrain_depth, hg hrun]
    simp only [drain, List.length_take, List.length_drop]
    omega
  | some s =>
    unfold lockWorker
    simp only
    split
    · rename_i queue hd
      intro hrun
      unfold drainSnapshot at hd
      split at hd
      · rename_i hids
        injection hd with hd
        have hcount : s.count - 1 < n.queue.length := by
          by_contra hlt
          rw [List.getElem?_eq_none (by omega)] at hids
          cases hids.2
        change (countDrain n.st s.count).asyncQueueDepth = (queue.length : Int)
        rw [countDrain_depth, hg hrun, ← hd, List.length_drop]
        omega
      · cases hd
    · exact hg

theorem exitWorker_gauged (hg : Gauged n) : Gauged n.exitWorker := by
  intro hrun
  change n.st.asyncQueueDepth - n.queue.length = 0
  rw [hg hrun, Int.sub_self]

theorem step_gauged {act : Act} (h : step setup env n act = some n') (hg : Gauged n) : Gauged n' := by
  cases step_fires h with
  | acquire | release | configure | started | wake | prepare | unlock => exact hg
  | notify _ => exact onKeyspaceEvent_gauged hg _ _ _ _ _ _ _
  | command _ hop => exact hg.aloof (.note none (command_apart env n.st hop))
  | setEnabled _ => exact hg.aloof (.note none (enabledChanged_apart n.st _))
  | cron _ _ => exact hg.aloof (cron_aloof n)
  | @runJob job jobs _ _ _ _ => exact startJob_gauged (n := { n with jobs := jobs }) hg job
  | @process task todo _ =>
    have hrun : Gauged (n.note (some task) (task.run env n.st)) := hg.aloof (.note _ (task.run_apart env n.st))
    exact hrun.aloof (.todo _ todo)
  | notStarted _ => exact exitWorker_gauged (n := n.note none (n.st.charge .dispatch .asyncWorkerErrors 1)) hg
  | lock _ _ => exact lockWorker_gauged hg _
  | stopWaiting _ _ | stopSpinning _ _ => exact exitWorker_gauged hg
  | stopSync | requestStop | join | finish =>
    intro hrun
    cases hrun

theorem Reach.gauged {allowed : Node → Act → Prop} (h : Reach setup env allowed n) : Gauged n := by
  refine Machine.Reach.invariant (fun n hl _ => ?_) (fun _ _ _ _ _ hs hg => step_gauged hs hg) h
  obtain ⟨config, host, ks, generation, master, loading, mode, -, rfl⟩ := hl
  obtain ⟨_, _, _, hst⟩ := loadedState_eq env config host.cluster ks generation master loading
  rw [hst]
  rfl

/-! ## The moment of a checkpoint -/

/-- The cron is at its checkpoint, or at a marker before it: the node is running, no event is taken, no job is
registered and no marker is pending. -/
structure Tick (n : Node) : Prop where
  running : n.phase = .running
  taken : n.taken = []
  jobs : n.jobs = []
  pending : n.st.pendingMarkers = []
  last : ∃ tasks task, n.todo = tasks ++ [task] ∧ tasks.any Task.isCheckpoint = false

def Ticking (n : Node) : Prop := n.todo.any Task.isCheckpoint = true → Tick n

theorem Ticking.of_none (h : n.todo.any Task.isCheckpoint = false) : Ticking n := by
  intro hany
  rw [h] at hany
  cases hany

theorem Ticking.of_same (ht : Ticking n) (hphase : n'.phase = n.phase) (htodo : n'.todo = n.todo)
    (hjobs : n'.jobs = n.jobs) (hpending : n'.st.pendingMarkers = n.st.pendingMarkers) : Ticking n' := by
  intro hany
  rw [htodo] at hany
  have htick := ht hany
  refine ⟨hphase.trans htick.running, ?_, hjobs.trans htick.jobs, hpending.trans htick.pending, ?_⟩
  · rw [Node.taken, htodo]
    exact htick.taken
  · rw [htodo]
    exact htick.last

theorem markerTasks_quiet (control : Str) (retention : Retention) (markers : List Recorded) :
    (markerTasks control retention markers).any Task.isCheckpoint = false ∧
      (markerTasks control retention markers).flatMap Task.queued = [] := by
  induction markers with
  | nil => exact ⟨rfl, rfl⟩
  | cons m markers ih => exact ih

theorem markerJobTasks_quiet (job : MarkerJob) (seg : Option Str) :
    (markerJobTasks job seg).any Task.isCheckpoint = false := by
  cases seg with
  | none =>
    simp only [markerJobTasks, List.any_map, List.any_eq_false]
    exact fun _ _ => Bool.false_ne_true
  | some seg => exact (markerTasks_quiet _ _ _).1

theorem events_quiet (qs : List Queued) : (qs.map Task.event).any Task.isCheckpoint = false := by
  simp only [List.any_map, List.any_eq_false]
  exact fun _ _ => Bool.false_ne_true

theorem startJob_quiet (n : Node) (job : Job) : (startJob env n job).todo.any Task.isCheckpoint = false := by
  cases job with
  | event q => rfl
  | fallback q =>
    simp only [startJob, List.any_append, events_quiet]
    rfl
  | markers job => exact markerJobTasks_quiet job _

theorem lockWorker_ticking (ht : Ticking n) (snapshot : Option EnvelopeSnapshot) :
    Ticking (n.lockWorker setup snapshot) := by
  cases snapshot with
  | none => exact .of_none (events_quiet _)
  | some s =>
    unfold lockWorker
    simp only
    split
    · refine .of_none ?_
      simp only [List.any_map, List.any_eq_false]
      exact fun _ _ => Bool.false_ne_true
    · exact ht.of_same rfl rfl rfl rfl

/-- A notification that finds no marker pending registers no job for markers. -/
theorem takeMarkers_nothing (env : Env) (n : Node) (registered : Bool) (hw : Wf setup n)
    (h : n.st.pendingMarkers = []) :
    (n.takeMarkers env registered).jobs = n.jobs ∧ (n.takeMarkers env registered).st.pendingMarkers = [] := by
  obtain ⟨-, -, -, -, hcases⟩ := flushMarkers_cases env n.st registered hw.dirty
  rcases hcases with ⟨hnone, hkeep, -⟩ | ⟨⟨hne, -⟩, -⟩ | ⟨⟨hne, -⟩, -⟩
  · refine ⟨?_, hkeep.trans h⟩
    simp only [takeMarkers, hnone, Option.map_none, Option.toList_none, List.append_nil]
  · exact absurd h hne
  · exact absurd h hne

theorem step_ticking {act : Act} (hw : Wf setup n) (h : step setup env n act = some n') (ht : Ticking n) :
    Ticking n' := by
  cases step_fires h with
  | acquire | release | started | notStarted | wake | prepare | unlock | stopWaiting | stopSpinning =>
    exact ht.of_same rfl rfl rfl rfl
  | command hcmd _ | setEnabled hcmd | configure hcmd _ =>
    refine .of_none ?_
    change n.todo.any Task.isCheckpoint = false
    rw [hcmd.2.2]
    rfl
  | @notify cls event key db contended registered markersRegistered hmay =>
    rcases onKeyspaceEvent_cases env hw cls event db contended registered markersRegistered hmay with
      ⟨st, hframe, e⟩ | ⟨⟨-, -, htodo⟩, -, event, lane, hroute⟩
    · rw [e]
      intro hany
      have htick := ht hany
      obtain ⟨hjobs, hpending⟩ := takeMarkers_nothing env n markersRegistered hw htick.pending
      exact ⟨htick.running, htick.taken, hjobs.trans htick.jobs, hframe.unmarked.pending.trans hpending, htick.last⟩
    · refine .of_none ?_
      rw [hroute.control.2.2.1]
      change n.todo.any Task.isCheckpoint = false
      rw [htodo]
      rfl
  | cron hcmd hjobs =>
    have hnone : n.todo.any Task.isCheckpoint = false := by
      rw [hcmd.2.2]
      rfl
    rcases cron_ticked env n with e | ⟨st, -, e⟩ | ⟨-, st, control, retention, hpending, -, -, -, e⟩
    · rw [e]
      exact ht
    · rw [e]
      exact .of_none hnone
    · rw [e]
      have hquiet := markerTasks_quiet control retention n.st.pendingMarkers
      refine fun _ => ⟨hcmd.2.1, ?_, hjobs, hpending, _, _, rfl, hquiet.1⟩
      change (markerTasks control retention n.st.pendingMarkers ++ [Task.checkpoint control retention]).flatMap _ = []
      rw [List.flatMap_append, hquiet.2]
      rfl
  | @runJob job jobs _ _ _ _ => exact .of_none (startJob_quiet _ job)
  | @process task todo htodo =>
    intro hany
    have hbefore : n.todo.any Task.isCheckpoint = true := by
      rw [htodo, List.any_cons, show todo.any Task.isCheckpoint = true from hany, Bool.or_true]
    have htick := ht hbefore
    have htaken := htick.taken
    rw [taken, htodo, List.flatMap_cons] at htaken
    refine ⟨htick.running, (List.append_eq_nil_iff.1 htaken).2, htick.jobs, ?_, ?_⟩
    · exact (task.run_frame env n.st).unmarked.pending.trans htick.pending
    · obtain ⟨tasks, last, hsplit, hquiet⟩ := htick.last
      rw [htodo] at hsplit
      cases tasks with
      | nil =>
        obtain ⟨-, rfl⟩ := List.cons.inj hsplit
        cases hany
      | cons t tasks =>
        obtain ⟨-, hrest⟩ := List.cons.inj hsplit
        rw [List.any_cons, Bool.or_eq_false_iff] at hquiet
        exact ⟨tasks, last, hrest, hquiet.2⟩
  | lock _ _ => exact lockWorker_ticking ht _
  | stopSync hcmd _ _ | requestStop hcmd _ _ =>
    refine .of_none ?_
    change n.todo.any Task.isCheckpoint = false
    rw [hcmd.2.2]
    rfl
  | join _ _ => exact .of_none (events_quiet _)
  | finish _ htodo =>
    refine .of_none ?_
    change n.todo.any Task.isCheckpoint = false
    rw [htodo]
    rfl

theorem Reach.ticking {allowed : Node → Act → Prop} (h : Reach setup env allowed n) : Ticking n := by
  refine Machine.Reach.invariant (fun n hl => ?_) (fun _ _ _ hr _ hs ht => step_ticking (Reach.wf hr) hs ht) h
  obtain ⟨config, host, ks, generation, master, loading, mode, -, rfl⟩ := hl
  exact .of_none rfl

end Status

/-! ## Checkpoints -/

/-- **A checkpoint is a consistent cut.** Wherever a run comes to write a checkpoint, whatever the mode and whatever
came before, the step makes one call at most, which adds an entry to the control stream. A client that reads the entry
finds the generation and the counters of that moment: the events resolved are those handed over or given up, the depth
is that of the queue, and with what an exited worker holds these are all the events dispatched so far. -/
theorem checkpoint_consistent (setup : Setup) (env : Env) (texts : Client.Texts) (htexts : texts.Faithful) (n n' : Node)
    (h : Reach setup env (fun _ _ => True) n) (control : Str) (retention : Retention) (todo : List Task)
    (htodo : n.todo = .checkpoint control retention :: todo) (hrange : Client.InRange n.st)
    (hs : step setup env n .process = some n') :
    (∃ calls, n'.st.trace = n.st.trace ++ calls ∧ calls.length ≤ 1 ∧ ∀ o ∈ calls, ∃ trim fields ok,
      o = .call .checkpoint (.xadd (utf8 control) false trim fields) ok ∧ ∀ stream id, ∃ m,
        Client.GapMarker.ofFields texts stream id fields = some m ∧ m.action = Action.checkpoint.text ∧
        m.generation = some n.st.generationId ∧ m.resolvedEvents = some (n.handed.length + n.lost.length) ∧
        m.forwarded = some (n.st.value .forwarded) ∧ m.eventsLost = some (n.st.value .eventsLost) ∧
        m.asyncQueueDepth = some (n.queue.length : Int)) ∧
      n.handed.length + n.lost.length + n.queue.length + n.worker.pending.length = n.dispatched.length := by
  have hn' : n'.st = writeCheckpoint env n.st control retention := by
    cases step_fires hs with
    | process ht =>
      rw [htodo] at ht
      cases ht
      rfl
  have hany : n.todo.any Task.isCheckpoint = true := by
    rw [htodo]
    rfl
  have htick := h.ticking hany
  have hawait : n.awaiting = [] := by
    rw [awaiting, htick.jobs]
    rfl
  have hsettled := h.settledEvents
  have hdepth := h.gauged htick.running
  refine ⟨?_, ?_⟩
  · obtain ⟨-, calls, htrace, hone, hcalls⟩ :=
      writeControlEntry_calls env n.st .checkpoint control .checkpoint retention
      (Client.checkpointPairs n.st) .controlCheckpoints "control checkpoint".toList
    rw [hn', Client.writeCheckpoint_pairs]
    refine ⟨calls, htrace, hone, fun o ho => ?_⟩
    obtain ⟨trim, ok, rfl⟩ := hcalls o ho
    refine ⟨trim, _, ok, rfl,
      fun stream id => ⟨_, Client.ofFields_checkpoint htexts stream id hrange, rfl, rfl, ?_, rfl, rfl, ?_⟩⟩
    · exact congrArg some hsettled
    · exact congrArg some hdepth
  · have hplaced := h.placed.length_eq
    rw [inFlight, htick.taken, hawait] at hplaced
    simp only [List.length_append, List.length_nil] at hplaced
    omega

/-- A load that writes checkpoints. -/
def tickedLoad : Node :=
  initial .individual (loadedState .calm { Config.defaults with controlCheckpointMs := 1 } false
    .empty "0".toList true false)

theorem tickedLoad_loaded : Loaded narrow .calm tickedLoad :=
  ⟨{ Config.defaults with controlCheckpointMs := 1 }, ⟨false, true, false, .ok ()⟩, .empty, "0".toList, true, false,
    .individual, rfl, rfl⟩

/-- One event is forwarded and another is queued when the cron runs. -/
def tick : List Act :=
  [.workerStart true, expire [97], .runJob, .process, .release, .workerWake, .workerPrepare, .workerLock, .process,
    .workerUnlock, .acquire, expire [98], .cron]

theorem checkpoint_consistent_tick :
    ∃ n n', Machine.run (step narrow .calm) (fun _ _ => True) tickedLoad tick = some n ∧
    step narrow .calm n .process = some n' ∧ n.handed.length = 1 ∧ n.queue.length = 1 ∧
    n.handed.length + n.lost.length + n.queue.length + n.worker.pending.length = n.dispatched.length := by
  have hrun : (Machine.run (step narrow .calm) (fun _ _ => True) tickedLoad tick).map
      (fun n => (n.todo.head?.any Task.isCheckpoint, decide (Client.InRange n.st), n.handed.length, n.queue.length)) =
        some (true, true, 1, 1) := by decide +kernel
  obtain ⟨n, hn, hfacts⟩ := Option.map_eq_some_iff.1 hrun
  obtain ⟨hhead, hfacts⟩ := Prod.mk.inj hfacts
  obtain ⟨hrange, hfacts⟩ := Prod.mk.inj hfacts
  obtain ⟨hhanded, hqueue⟩ := Prod.mk.inj hfacts
  cases htodo : n.todo with
  | nil =>
    rw [htodo] at hhead
    cases hhead
  | cons task todo =>
    rw [htodo] at hhead
    cases task with
    | checkpoint control retention =>
      have hs : ∃ n', step narrow .calm n .process = some n' := by
        simp only [step, htodo]
        exact ⟨_, rfl⟩
      obtain ⟨n', hs⟩ := hs
      exact ⟨n, n', hn, hs, hhanded, hqueue,
        (checkpoint_consistent narrow .calm .strict Client.Texts.strict_faithful n n'
          (Machine.reach_of_run (.start tickedLoad_loaded) hn) control retention todo htodo
          (of_decide_eq_true hrange) hs).2⟩
    | event | envelope | marker | noSlot => cases hhead

end Node

end EventStream

import EventStream.WellFormed

/-!
# The dispatch as two lanes

Every step of a node is a path of moves of its view (`step_simulates`), so that a run of the node is a run of the
two-lane machine (`Reach.view_runs`), and what holds of that machine holds of the node.
-/

namespace EventStream.Node

open Text (Str Bytes utf8)
open Lanes (Move Traffic)

/-- The moves a step may begin with, arrivals apart. -/
def causes (env : Env) (n : Node) : Act → Lanes.Action → Bool
  | .notify .., .take | .notify .., .drop => n.st.capturing && !n.st.pendingMarkers.isEmpty
  | .cron, .tick => n.st.capturing && n.checkpointDue env
  | .runJob, .run => true
  | .process, .finish => true
  | .workerStart _, .quit | .workerStop, .quit => true
  | .workerLock, .grab => true
  | .join, .rejoin => true
  | _, _ => false

section Simulation

variable {setup : Setup} {env : Env} {n n' : Node} {Q : Traffic Queued Recorded → Lanes.Action → Prop}

/-- The paths of the view. -/
abbrev Path (Q : Traffic Queued Recorded → Lanes.Action → Prop) :
    Traffic Queued Recorded → Traffic Queued Recorded → Prop :=
  Relation.ReflTransGen (Machine.Next (Move keys) Q)

theorem path_single {s t u : Traffic Queued Recorded} {a : Lanes.Action} (hm : Move keys s a t) (ha : Q s a)
    (e : u = t) : Path Q s u := by
  rw [e]
  exact .single ⟨a, ha, hm⟩

theorem path_of_eq {s u : Traffic Queued Recorded} (e : u = s) : Path Q s u := by
  rw [e]

/-- A step that only goes on with another state. -/
theorem view_note (n : Node) (st : State) :
    (n.note none st).view setup = { n.view setup with recorded := st.recorded, pending := st.pendingMarkers } := by
  simp [view, note, Done.items]

theorem view_note_unmarked {st : State} (hu : Unmarked n.st st) : (n.note none st).view setup = n.view setup := by
  rw [view_note, hu.pending, hu.recorded]
  rfl

theorem marks_path {st : State} (hw : Wf setup n) (h : Unmarked n.st st ∨ Marks n.st st)
    (hQ : ∀ s a, a.isArrival = true → Q s a) : Path Q (n.view setup) ((n.note none st).view setup) := by
  rcases h with hu | hm
  · exact path_of_eq (view_note_unmarked hu)
  · obtain ⟨marker, hp⟩ := hm.pending
    refine path_single (Move.record (n.view setup) ⟨marker, n.st.recorded, n.st.selected⟩ rfl hw.selected)
      (hQ _ _ rfl) ?_
    rw [view_note, hp, hm.recorded]
    rfl

theorem takeMarkers_path (env : Env) (hw : Wf setup n) (registered : Bool)
    (htake : n.st.capturing = true → n.st.pendingMarkers ≠ [] → Q (n.view setup) .take)
    (hdrop : n.st.capturing = true → n.st.pendingMarkers ≠ [] → Q (n.view setup) .drop) :
    Path Q (n.view setup) ((n.takeMarkers env registered).view setup) := by
  obtain ⟨hrec, -, -, -, hcases⟩ := flushMarkers_cases env n.st registered hw.dirty
  rcases hcases with ⟨hnone, hp, -⟩ | ⟨⟨hne, hcap⟩, hp, hnone, -⟩ | ⟨⟨hne, hcap⟩, hp, -, hsome⟩
  · refine path_of_eq ?_
    simp only [takeMarkers, view, hnone, note, hrec, hp]
    simp [Done.items]
  · refine path_single (Move.drop (n.view setup)) (hdrop hcap hne) ?_
    simp only [takeMarkers, view, hnone, note, hrec, hp]
    simp [Done.items]
  · refine path_single (Move.take (n.view setup)) (htake hcap hne) ?_
    simp only [takeMarkers, view, hsome, note, hrec, hp]
    simp [Done.items, Job.view]

theorem routed_path {q : Queued} {lane : Lane} (hr : Routed setup q lane n n') (hp : n.st.pendingMarkers = [])
    (hq : q.id = n.dispatched.length) (hQ : ∀ s a, a.isArrival = true → Q s a) :
    Path Q (n.view setup) (n'.view setup) := by
  obtain ⟨-, -, htodo, -, -, hwk, -, hun⟩ := hr.control
  obtain ⟨hpend, -, hrec, -⟩ := hr.markers
  have hqueue := hr.queue
  have hjobs := hr.jobs
  have hlost := hr.lost
  have hmode := hr.mode
  cases lane with
  | queue =>
    refine path_single (Move.push (n.view setup) q (by simpa [view] using hmode) hp hq) (hQ _ _ rfl) ?_
    simp only [view, hr.dispatched, hrec, hpend, hqueue, hjobs, htodo, hwk, hr.items, hlost, hun]
  | fallback =>
    refine path_single (Move.order (n.view setup) q (by simpa [view] using hmode) hp hq) (hQ _ _ rfl) ?_
    simp only [view, hr.dispatched, hrec, hpend, hqueue, hjobs, htodo, hwk, hr.items, hlost, hun, List.map_append]
    rfl
  | job =>
    refine path_single (Move.defer (n.view setup) q (by simpa [view] using hmode) hp hq) (hQ _ _ rfl) ?_
    simp only [view, hr.dispatched, hrec, hpend, hqueue, hjobs, htodo, hwk, hr.items, hlost, hun, List.map_append]
    rfl
  | nowhere =>
    refine path_single (Move.lose (n.view setup) q hp hq) (hQ _ _ rfl) ?_
    simp only [view, hr.dispatched, hrec, hpend, hqueue, hjobs, htodo, hwk, hr.items, hlost, hun]

theorem items_map_event (qs : List Queued) : (qs.map Task.event).flatMap Task.items = qs.map .event := by
  induction qs with
  | nil => rfl
  | cons q qs ih => rw [List.map_cons, List.flatMap_cons, ih]; rfl

theorem items_markerTasks (control : Str) (retention : Retention) (markers : List Recorded) :
    (markerTasks control retention markers).flatMap Task.items = markers.map .mark := by
  induction markers with
  | nil => rfl
  | cons m ms ih =>
    rw [markerTasks, List.map_cons, List.flatMap_cons, ← markerTasks, ih]
    rfl

/-- A marker job settles its markers in their order, with a slot or without. -/
theorem items_markerJobTasks (job : MarkerJob) (seg : Option Str) :
    (markerJobTasks job seg).flatMap Task.items = job.markers.map .mark := by
  cases seg with
  | none =>
    simp only [markerJobTasks]
    induction job.markers with
    | nil => rfl
    | cons m ms ih => rw [List.map_cons, List.flatMap_cons, ih]; rfl
  | some seg => exact items_markerTasks _ _ _

/-- The tasks of a prepared envelope settle its events in their order. -/
theorem items_envelopes (groups : List (List Queued)) :
    ((groups.map fun g => (g, encodeBatchFields (g.map Queued.event))).map fun g => Task.envelope g.1 g.2).flatMap
      Task.items = groups.flatten.map .event := by
  induction groups with
  | nil => rfl
  | cons g gs ih =>
    simp only [List.map_cons, List.flatMap_cons, List.flatten_cons, List.map_append] at ih ⊢
    rw [ih]
    rfl

theorem startJob_path {job : Job} {jobs : List Job} (hj : n.jobs = job :: jobs) (ht : n.todo = [])
    (hQ : Q (n.view setup) .run) : Path Q (n.view setup) ((startJob env { n with jobs := jobs } job).view setup) := by
  have htaken : (n.view setup).taken = [] := by simp [view, ht]
  cases job with
  | event q =>
    refine path_single (Move.runEvent (n.view setup) q (jobs.map Job.view) (by simp [view, hj, Job.view]) htaken) hQ ?_
    simp [startJob, view, Task.items]
  | fallback q =>
    refine path_single (Move.runOrdered (n.view setup) q (jobs.map Job.view) (by simp [view, hj, Job.view]) htaken)
      hQ ?_
    have hu := countDrain_unmarked n.st (drainBefore n.queue q.id).1.length
    simp only [startJob, view, note, hu.pending, hu.recorded, List.flatMap_append, items_map_event]
    simp only [drainBefore, Done.items, Task.items, keys, List.flatMap_cons, List.flatMap_nil,
      List.append_nil, Option.elim_none, List.map_append, List.map_cons, List.map_nil]
    rfl
  | markers job =>
    have hu := tagSegment_unmarked env n.st
    refine path_single (Move.runMarks (n.view setup) job.markers (jobs.map Job.view) (by simp [view, hj, Job.view])
      htaken) hQ ?_
    simp only [startJob, view, note, hu.pending, hu.recorded, items_markerJobTasks]
    simp [Done.items]

theorem exitWorker_path (hmode : setup.mode ≠ .sync) (hw : n.worker.pending = []) (hQ : Q (n.view setup) .quit) :
    Path Q (n.view setup) (n.exitWorker.view setup) := by
  refine path_single (Move.quit (n.view setup) (by simpa [view] using hmode) hw) hQ ?_
  simp [exitWorker, view, note, drainAll, Worker.pending, Done.items]

/-- A snapshot that matches the front of the queue is the front of the queue. -/
theorem drainSnapshot_take (hw : Wf setup n) {s : EnvelopeSnapshot} {queue : List Queued}
    (hwk : n.worker = .spinning (some s)) (hd : drainSnapshot n.queue s = some queue) :
    queue = n.queue.drop s.count ∧ ∃ groups : List (List Queued), n.queue.take s.count = groups.flatten ∧
      sliceGroups s.groups s.events = groups.map fun g => (g, encodeBatchFields (g.map Queued.event)) := by
  unfold drainSnapshot at hd
  split at hd
  · rename_i hmatch
    injection hd with hd
    refine ⟨hd.symm, ?_⟩
    obtain ⟨events, hof, -, hfront⟩ := hw.snapshot s hwk
    obtain ⟨first, rest, e, hfirst, hcount, hevents, hgroups⟩ := hof
    have hpre : events <+: n.queue := by
      rcases hfront with h | h
      · exact h
      · obtain ⟨q, hq, hid⟩ := Option.map_eq_some_iff.1 hmatch.1
        have := h q (List.mem_of_mem_head? hq)
        omega
    refine ⟨envelopeGroups events, ?_, ?_⟩
    · rw [envelopeGroups_flatten, hcount]
      exact (List.prefix_iff_eq_take.1 hpre).symm
    · have hflat : s.events = (envelopeGroups events).flatten := by rw [hevents, envelopeGroups_flatten]
      rw [hgroups, hflat, sliceGroups_prepared]
  · cases hd

theorem lockWorker_path (hw : Wf setup n) (hmode : setup.mode ≠ .sync) {s : Option EnvelopeSnapshot}
    (hwk : n.worker = .spinning s) (hfree : n.holder = .free) (hQ : Q (n.view setup) .grab) :
    Path Q (n.view setup) ((n.lockWorker setup s).view setup) := by
  obtain ⟨hjobs, htodo⟩ := hw.free hfree
  have hgrab : ∀ k, Move keys (n.view setup) .grab { n.view setup with
      queue := n.queue.drop k, taken := (n.queue.take k).map .event } := fun k =>
    Move.grab _ k (by simpa [view] using hmode) (by simp [view, hjobs]) (by simp [view, htodo])
      (by simp [view, hwk, Worker.pending])
  cases s with
  | none =>
    have hu := countDrain_unmarked n.st (drain n.queue setup.batch).1.length
    refine path_single (hgrab (min n.queue.length setup.batch)) hQ ?_
    simp only [lockWorker, view, note, hu.pending, hu.recorded, items_map_event]
    simp [drain, Done.items, hwk, Worker.pending]
  | some s =>
    simp only [lockWorker]
    cases hd : drainSnapshot n.queue s with
    | none =>
      refine path_of_eq ?_
      simp [view, hwk, Worker.pending]
    | some queue =>
      obtain ⟨rfl, groups, htake, hslice⟩ := drainSnapshot_take hw hwk hd
      have hu := countDrain_unmarked n.st s.count
      refine path_single (hgrab s.count) hQ ?_
      simp only [view, note, hu.pending, hu.recorded, hslice, items_envelopes, htake, hwk]
      simp [Done.items, Worker.pending]

/-- Every step is a path of moves of the view: one that the step causes, and arrivals. -/
theorem step_simulates {act : Act} (hw : Wf setup n) (h : step setup env n act = some n')
    (hQ : ∀ a, n.causes env act a = true → Q (n.view setup) a) (harrival : ∀ s a, a.isArrival = true → Q s a) :
    Path Q (n.view setup) (n'.view setup) := by
  have hasync : ∀ {w : Worker}, n.worker = w → w ≠ .absent → setup.mode ≠ .sync :=
    fun e hne hs => hne (e ▸ hw.absent hs)
  cases step_fires h with
  | acquire _ _ | release _ _ | stopSync _ _ _ | requestStop _ _ _ | finish _ _ => exact .refl
  | @notify cls event key db contended registered markersRegistered hmay =>
    have htake : Path Q (n.view setup) ((n.takeMarkers env markersRegistered).view setup) := by
      refine takeMarkers_path env hw markersRegistered (fun hcap hne => hQ _ ?_) (fun hcap hne => hQ _ ?_)
      all_goals simp [causes, hcap, hne]
    rcases onKeyspaceEvent_cases env hw cls event db contended registered markersRegistered hmay with
      ⟨st, hf, e⟩ | ⟨-, hp, e, lane, hr⟩
    · rw [e]
      exact htake.trans (path_of_eq (view_note_unmarked hf.unmarked))
    · refine htake.trans (Relation.ReflTransGen.trans (path_of_eq ?_) (routed_path hr hp rfl harrival))
      rw [view_note]
      rfl
  | command _ hop => exact marks_path hw (command_marks env n.st hop) harrival
  | setEnabled _ => exact marks_path hw (enabledChanged_marks n.st _) harrival
  | configure _ _ => exact path_of_eq (view_note_unmarked (.of_rfl rfl))
  | cron hcmd hjobs =>
    rcases cron_ticked env n with e | ⟨st, hu, e⟩ | ⟨⟨hcap, hdue⟩, st, control, retention, hp, hr, -, -, e⟩
    · exact path_of_eq (by rw [e])
    · rw [e]
      exact path_of_eq (view_note_unmarked hu)
    · rw [e]
      refine path_single (Move.tick (n.view setup) (by simp [view, hjobs]) (by simp [view, hcmd.2.2]))
        (hQ _ (by simp [causes, hcap, hdue])) ?_
      simp only [view, note, hp, hr, List.flatMap_append, items_markerTasks]
      simp [Done.items, Task.items]
  | runJob _ _ htodo hj => exact startJob_path hj htodo (hQ _ rfl)
  | @process task todo ht =>
    have hu := (task.run_frame env n.st).unmarked
    refine path_single (Move.finish (n.view setup) task.items (todo.flatMap Task.items) (by simp [view, ht]))
      (hQ _ rfl) ?_
    simp only [view, items_note_some]
    simp [note, hu.pending, hu.recorded]
  | started hstart => exact path_of_eq (by simp [view, hstart, Worker.pending])
  | notStarted hstart =>
    have hv : (n.note none (n.st.charge .dispatch .asyncWorkerErrors 1)).view setup = n.view setup :=
      view_note_unmarked (charge_unmarked _ _ _ rfl)
    have hp : (n.note none (n.st.charge .dispatch .asyncWorkerErrors 1)).worker.pending = [] := by
      change n.worker.pending = []
      rw [hstart]
      rfl
    have hx := exitWorker_path (Q := Q) (hasync hstart (by decide)) hp (hv ▸ hQ _ rfl)
    rwa [hv] at hx
  | wake hwait _ _ => exact path_of_eq (by simp [view, hwait, Worker.pending])
  | prepare hready => exact path_of_eq (by simp [view, hready, Worker.pending])
  | lock hwk hfree => exact lockWorker_path hw (hasync hwk (by simp)) hwk hfree (hQ _ rfl)
  | unlock hhold _ _ => exact path_of_eq (by simp [view, hw.lock.1 hhold, Worker.pending])
  | stopWaiting _ hwk | stopSpinning _ hwk =>
    exact exitWorker_path (hasync hwk (by simp)) (by rw [hwk]; rfl) (hQ _ rfl)
  | join hjoin hwk =>
    obtain ⟨hjobs, htodo⟩ := hw.joining hjoin
    refine path_single (Move.rejoin (n.view setup) (by simpa [view] using hasync hwk (by simp)) (by simp [view, hjobs])
      (by simp [view, htodo])) (hQ _ rfl) ?_
    simp only [view, note, items_map_event, hwk]
    simp [Done.items, Worker.pending]

theorem view_initial (mode : WriteMode) (st : State) : (initial mode st).view setup =
    { queued := setup.mode ≠ .sync, recorded := st.recorded, pending := st.pendingMarkers } := by
  have hpend : (initial mode st).worker.pending = [] := by
    unfold initial
    dsimp only
    split <;> rfl
  simp only [view, hpend]
  rfl

/-- The markers that a load records. -/
theorem loaded_runs (harrival : ∀ s a, a.isArrival = true → Q s a) (h : Loaded setup env n) :
    Lanes.Runs keys Q (setup.mode ≠ .sync) (n.view setup) := by
  obtain ⟨config, host, ks, generation, master, loading, mode, -, rfl⟩ := h
  have hrecord : ∀ (st : State) marker, st.selected = 0 →
      Lanes.Runs keys Q (setup.mode ≠ .sync) ((initial mode st).view setup) →
      Lanes.Runs keys Q (setup.mode ≠ .sync) ((initial mode (recordPendingMarker st marker)).view setup) := by
    intro st marker hsel hr
    refine hr.path (path_single (Move.record _ ⟨marker, st.recorded, st.selected⟩ ?_ ?_) (harrival _ .record rfl) ?_)
    · rw [view_initial]
      rfl
    · rw [view_initial]
      exact hsel
    · rw [view_initial, view_initial]
      rfl
  have hfresh : ∀ st : State, st.recorded = 0 → st.pendingMarkers = [] →
      Lanes.Runs keys Q (setup.mode ≠ .sync) ((initial mode st).view setup) := by
    intro st hr hp
    refine Machine.Reach.start ?_
    rw [view_initial, hr, hp]
  have hfirst := hrecord { State.fresh { config with perNode := host.cluster } ks with
    generationId := generation, master := master, loading := loading } (.simple .loaded) rfl (hfresh _ rfl rfl)
  unfold loadedState
  cases config.enabled <;> simp only [if_true, Bool.false_eq_true, if_false]
  · have hsecond := hrecord _ (.simple .disabled) rfl hfirst
    split
    · exact hsecond
    · rw [view_initial] at hsecond ⊢
      exact hsecond
  · split
    · exact hfirst
    · rw [view_initial] at hfirst ⊢
      exact hfirst

/-- The view of a run is a run of the two lanes. -/
theorem Reach.view_runs {allowed : Node → Act → Prop} (harrival : ∀ s a, a.isArrival = true → Q s a)
    (hQ : ∀ n act a, Reach setup env allowed n → allowed n act → n.causes env act a = true → Q (n.view setup) a)
    (h : Reach setup env allowed n) : Lanes.Runs keys Q (setup.mode ≠ .sync) (n.view setup) := by
  refine Machine.Reach.simulate (fun n => n.view setup) (fun n hl => loaded_runs harrival hl) ?_ h
  intro n act n' hr ha hs
  exact step_simulates (Reach.wf hr) hs (fun a hc => hQ n act a hr ha hc) harrival

end Simulation

end EventStream.Node

import EventStream.Order
import EventStream.Turns

/-!
# Where the work of a node comes from

A node holds events in its tasks, its jobs, its queue and its worker, and control streams in its tasks.

- `Config.Captures`: what passes the gates of the callback, and what such events have in common (`Stems`);
- `step_sourced`: what holds of every event captured holds of every event held, an envelope holds the encoding of its
  events, and markers and checkpoints go to control streams of the configured prefix;
- `step_fixed`: no step changes the prefix, the mode of the tags, or whether events are numbered;
- `Reach.stemmed`: in every run all events held stem from the configuration of the node.
-/

namespace EventStream

open Text (Str Bytes utf8)

/-! ## Captured events -/

/-- An event that passes the gates of the callback under a configuration. -/
def Config.Captures (config : Config) (e : PendingEvent) : Prop :=
  ∃ (st : State) (cls : NotifyEvent) (event : Str) (key : Bytes) (db : Int32),
    st.config = config ∧ (selectEvent st cls event key db).2 = some e

/-- What the events captured under a configuration have in common as long as its fixed settings stay. -/
structure Stems (config : Config) (e : PendingEvent) : Prop where
  pfx : e.pfx = config.pfx
  entrySeq : e.entrySeq = config.entrySeq
  suffix : e.suffix = sanitize e.event
  foreign : (utf8 config.pfx).isPrefixOf e.key = false

theorem Config.Captures.snapshot {config : Config} {e : PendingEvent} (h : config.Captures e) :
    ∃ (st : State) (cls : NotifyEvent) (event : Str) (key : Bytes) (db : Int32), st.config = config ∧
      e = EventStream.snapshot st cls event key db ∧ (utf8 config.pfx).isPrefixOf key = false := by
  obtain ⟨st, cls, event, key, db, rfl, hs⟩ := h
  rcases selectEvent_cases st cls event key db with ⟨hnone, -⟩ | ⟨hsome, -, -, hkey⟩
  · rw [hnone] at hs
    cases hs
  · rw [hsome] at hs
    injection hs with hs
    exact ⟨st, cls, event, key, db, rfl, hs.symm, hkey⟩

theorem Config.Captures.stems {config : Config} {e : PendingEvent} (h : config.Captures e) : Stems config e := by
  obtain ⟨st, cls, event, key, db, rfl, rfl, hkey⟩ := h.snapshot
  exact ⟨rfl, rfl, rfl, hkey⟩

theorem Stems.outside {config : Config} {e : PendingEvent} (h : Stems config e) : ¬ utf8 config.pfx <+: e.key := by
  intro hown
  have hforeign := h.foreign
  rw [List.isPrefixOf_iff_prefix.2 hown] at hforeign
  cases hforeign

theorem Stems.of_fixed {config config' : Config} {e : PendingEvent} (h : Stems config e)
    (hp : config'.pfx = config.pfx) (hs : config'.entrySeq = config.entrySeq) : Stems config' e :=
  ⟨h.pfx.trans hp.symm, h.entrySeq.trans hs.symm, h.suffix, by rw [hp]; exact h.foreign⟩

/-! ## What a node holds -/

/-- A control stream under a prefix. -/
def IsControl (pfx control : Str) : Prop := ∃ seg, IsSegment seg ∧ control = controlStreamOf pfx seg

/-- A task for events with a property, or for a control stream of the prefix. Only a worker makes envelopes. -/
def Task.From (setup : Setup) (pfx : Str) (P : PendingEvent → Prop) : Task → Prop
  | event q => P q.event
  | envelope qs fields => setup.mode ≠ .sync ∧ Compatible qs ∧ fields = encodeBatchFields (qs.map Queued.event) ∧
      ∀ q ∈ qs, P q.event
  | marker control _ _ | checkpoint control _ => IsControl pfx control
  | noSlot _ => True

def Job.From (pfx : Str) (P : PendingEvent → Prop) : Job → Prop
  | event q | fallback q => P q.event
  | markers job => job.pfx = pfx

/-- The events a worker holds: those of its snapshot, or those it hands back. -/
def Worker.queued : Worker → List Queued
  | spinning (some snapshot) => snapshot.events
  | exited pending => pending
  | _ => []

namespace Node

/-- All that a node holds comes from events with a property and from the prefix. -/
structure Sourced (setup : Setup) (pfx : Str) (P : PendingEvent → Prop) (n : Node) : Prop where
  todo : ∀ t ∈ n.todo, t.From setup pfx P
  jobs : ∀ job ∈ n.jobs, job.From pfx P
  queue : ∀ q ∈ n.queue, P q.event
  worker : ∀ q ∈ n.worker.queued, P q.event

section Sourced

variable {setup : Setup} {env : Env} {n n' : Node} {pfx : Str} {P : PendingEvent → Prop}

theorem takeMarkers_config (env : Env) (n : Node) (registered : Bool) :
    (n.takeMarkers env registered).st.config = n.st.config :=
  (flushMarkers_trail (P := fun _ _ => True) (b := Budget.none) n.st registered).config

theorem flushMarkers_pfx {env : Env} {st : State} {registered : Bool} {job : MarkerJob}
    (h : (flushMarkers env st registered).2 = some job) : job.pfx = st.config.pfx := by
  have hflush := flushMarkers_flushed env st registered
  generalize flushMarkers env st registered = r at h hflush
  cases hflush with
  | kept _ | empty _ | dropped _ _ => cases h
  | deferred _ _ =>
    cases h
    rfl

theorem takeMarkers_sourced (registered : Bool) (hp : n.st.config.pfx = pfx) (h : Sourced setup pfx P n) :
    Sourced setup pfx P (n.takeMarkers env registered) := by
  refine ⟨h.todo, fun job hj => ?_, h.queue, h.worker⟩
  rcases List.mem_append.1 hj with hj | hj
  · exact h.jobs job hj
  · rw [Option.mem_toList, Option.map_eq_some_iff] at hj
    obtain ⟨m, hm, rfl⟩ := hj
    exact (flushMarkers_pfx hm).trans hp

theorem dispatchPendingEvent_sourced {event : PendingEvent} (contended registered : Bool) (he : P event)
    (h : Sourced setup pfx P n) :
    Sourced setup pfx P (dispatchPendingEvent setup env n event contended registered) := by
  have hjobs : ∀ (job : Job), job.From pfx P → ∀ j ∈ n.jobs ++ [job], j.From pfx P := by
    intro job hjob j hj
    rcases List.mem_append.1 hj with hj | hj
    · exact h.jobs j hj
    · rwa [List.mem_singleton.1 hj]
  have hqueue : ∀ (q : Queued), q.event = event → ∀ x ∈ n.queue ++ [q], P x.event := by
    intro q hq x hx
    rcases List.mem_append.1 hx with hx | hx
    · exact h.queue x hx
    · rwa [List.mem_singleton.1 hx, hq]
  unfold dispatchPendingEvent deferPendingEvent deferOrderedFallback
  simp only
  split
  · split
    · exact ⟨h.todo, hjobs (.event _) he, h.queue, h.worker⟩
    · exact ⟨h.todo, h.jobs, h.queue, h.worker⟩
  split
  · split
    · exact ⟨h.todo, hjobs (.event _) he, h.queue, h.worker⟩
    · exact ⟨h.todo, h.jobs, h.queue, h.worker⟩
  split
  · rename_i queue hpush
    refine ⟨h.todo, h.jobs, ?_, h.worker⟩
    rw [tryPush_some hpush]
    exact hqueue ⟨n.nextId, event⟩ rfl
  · split
    · exact ⟨h.todo, hjobs (.fallback _) he, h.queue, h.worker⟩
    · exact ⟨h.todo, h.jobs, h.queue, h.worker⟩

theorem onKeyspaceEvent_sourced (cls : NotifyEvent) (event : Str) (key : Bytes) (db : Int32)
    (contended registered markersRegistered : Bool) (hp : n.st.config.pfx = pfx)
    (hc : ∀ e, n.st.config.Captures e → P e) (h : Sourced setup pfx P n) :
    Sourced setup pfx P (n.onKeyspaceEvent setup env cls event key db contended registered markersRegistered) := by
  have h₁ : Sourced setup pfx P (n.takeMarkers env markersRegistered) := takeMarkers_sourced markersRegistered hp h
  have hconf := takeMarkers_config env n markersRegistered
  unfold onKeyspaceEvent
  simp only
  generalize n.takeMarkers env markersRegistered = n₁ at h₁ hconf
  split
  · exact ⟨h₁.todo, h₁.jobs, h₁.queue, h₁.worker⟩
  · rename_i e hs
    refine dispatchPendingEvent_sourced contended registered (hc e ⟨n₁.st, cls, event, key, db, hconf, hs⟩) ?_
    exact ⟨h₁.todo, h₁.jobs, h₁.queue, h₁.worker⟩

theorem events_sourced {qs : List Queued} (h : ∀ q ∈ qs, P q.event) : ∀ t ∈ qs.map Task.event, t.From setup pfx P := by
  intro t ht
  obtain ⟨q, hq, rfl⟩ := List.mem_map.1 ht
  exact h q hq

theorem markers_sourced {control : Str} (retention : Retention) (markers : List Recorded) (hc : IsControl pfx control) :
    ∀ t ∈ markerTasks control retention markers, t.From setup pfx P := by
  intro t ht
  obtain ⟨m, -, rfl⟩ := List.mem_map.1 ht
  exact hc

theorem startJob_sourced {job : Job} (hj : job.From pfx P) (h : Sourced setup pfx P n) :
    Sourced setup pfx P (startJob env n job) := by
  cases job with
  | event q =>
    refine ⟨fun t ht => ?_, h.jobs, h.queue, h.worker⟩
    rwa [List.mem_singleton.1 ht]
  | fallback q =>
    refine ⟨fun t ht => ?_, h.jobs, fun x hx => h.queue x ((List.dropWhile_sublist _).subset hx), h.worker⟩
    rcases List.mem_append.1 ht with ht | ht
    · exact events_sourced (fun x hx => h.queue x ((List.takeWhile_sublist _).subset hx)) t ht
    · rwa [List.mem_singleton.1 ht]
  | markers job =>
    refine ⟨fun t ht => ?_, h.jobs, h.queue, h.worker⟩
    change t ∈ markerJobTasks job (tagSegment env n.st).1 at ht
    cases hs : (tagSegment env n.st).1 with
    | none =>
      rw [hs] at ht
      obtain ⟨m, -, rfl⟩ := List.mem_map.1 ht
      trivial
    | some seg =>
      rw [hs] at ht
      refine markers_sourced job.retention job.markers ⟨seg, tagSegment_isSegment env n.st (Prod.ext hs rfl), ?_⟩ t ht
      rw [show job.pfx = pfx from hj]

theorem cron_sourced (hp : n.st.config.pfx = pfx) (h : Sourced setup pfx P n) : Sourced setup pfx P (n.cron env) := by
  unfold cron
  simp only
  split
  · exact h
  split
  · exact h
  · have hst : ({ n.st with lastCheckpointMs := env.nowMs n.st.clock } : State).config.pfx = pfx := hp
    generalize { n.st with lastCheckpointMs := env.nowMs n.st.clock } = st at hst
    unfold checkpointTick
    split
    · exact ⟨h.todo, h.jobs, h.queue, h.worker⟩
    · have ht := (tagSegment_trail env st probeCall_allowsProbes).config
      cases hs : tagSegment env st with
      | mk seg st₁ =>
        rw [hs] at ht
        cases seg with
        | none => exact ⟨h.todo, h.jobs, h.queue, h.worker⟩
        | some seg =>
          have hcontrol : IsControl pfx (controlStreamOf st₁.config.pfx seg) :=
            ⟨seg, tagSegment_isSegment env st hs, by rw [show st₁.config = st.config from ht, hst]⟩
          refine ⟨fun t ht => ?_, h.jobs, h.queue, h.worker⟩
          rcases List.mem_append.1 ht with ht | ht
          · exact markers_sourced _ _ hcontrol t ht
          · rwa [List.mem_singleton.1 ht]

theorem exitWorker_sourced (h : Sourced setup pfx P n) : Sourced setup pfx P n.exitWorker :=
  ⟨h.todo, h.jobs, by simp [exitWorker, drainAll], h.queue⟩

/-- The tasks the worker takes are single events, or the envelopes it prepared. -/
theorem lockWorker_sourced {snapshot : Option EnvelopeSnapshot} (hw : Wf setup n) (hs : n.worker = .spinning snapshot)
    (h : Sourced setup pfx P n) : Sourced setup pfx P (n.lockWorker setup snapshot) := by
  cases snapshot with
  | none =>
    refine ⟨events_sourced fun q hq => h.queue q (List.mem_of_mem_take hq), h.jobs, fun q hq => ?_,
      by simp [Worker.queued, lockWorker]⟩
    exact h.queue q (List.mem_of_mem_drop hq)
  | some s =>
    obtain ⟨events, ⟨first, rest, hev, hfirst, hcount, hsame, hgroups⟩, -, -⟩ := hw.snapshot s hs
    have hasync : setup.mode ≠ .sync := fun hsync => by
      rw [hw.absent hsync] at hs
      cases hs
    have hheld : ∀ q ∈ events, P q.event := by
      rw [← hsame]
      exact fun q hq => h.worker q (by rw [hs]; exact hq)
    unfold lockWorker
    simp only
    split
    · rename_i queue hdrain
      refine ⟨fun t ht => ?_, h.jobs, fun q hq => h.queue q ?_, by simp [Worker.queued]⟩
      · rw [hgroups, hsame] at ht
        nth_rewrite 2 [← envelopeGroups_flatten events] at ht
        rw [sliceGroups_prepared, List.map_map, List.mem_map] at ht
        obtain ⟨g, hg, rfl⟩ := ht
        refine ⟨hasync, envelopeGroups_compatible events g hg, rfl, fun q hq => hheld q ?_⟩
        rw [← envelopeGroups_flatten events]
        exact List.mem_flatten_of_mem hg hq
      · unfold drainSnapshot at hdrain
        split at hdrain
        · injection hdrain with hdrain
          rw [← hdrain] at hq
          exact List.mem_of_mem_drop hq
        · cases hdrain
    · exact ⟨h.todo, h.jobs, h.queue, by simp [Worker.queued]⟩

/-- The events held after a step were held before it, or are captured by it. -/
theorem step_sourced {act : Act} (hw : Wf setup n) (hs : step setup env n act = some n') (hp : n.st.config.pfx = pfx)
    (hc : ∀ e, n.st.config.Captures e → P e) (h : Sourced setup pfx P n) : Sourced setup pfx P n' := by
  have hkeep : ∀ {m : Node}, m.todo = n.todo → m.jobs = n.jobs → m.queue = n.queue →
      m.worker.queued = n.worker.queued → Sourced setup pfx P m := by
    intro m ht hj hq hwk
    exact ⟨ht ▸ h.todo, hj ▸ h.jobs, hq ▸ h.queue, hwk ▸ h.worker⟩
  cases step_fires hs with
  | acquire | release | command | setEnabled | configure | stopSync | requestStop | finish =>
    exact hkeep rfl rfl rfl rfl
  | notify _ => exact onKeyspaceEvent_sourced _ _ _ _ _ _ _ hp hc h
  | cron _ _ => exact cron_sourced hp h
  | @runJob job jobs _ _ _ hj =>
    refine startJob_sourced (h.jobs job (hj ▸ List.mem_cons_self)) ?_
    exact ⟨h.todo, fun j hj' => h.jobs j (hj ▸ List.mem_cons_of_mem _ hj'), h.queue, h.worker⟩
  | process ht => exact ⟨fun t hm => h.todo t (ht ▸ List.mem_cons_of_mem _ hm), h.jobs, h.queue, h.worker⟩
  | started _ | wake _ _ _ | unlock _ _ _ => exact ⟨h.todo, h.jobs, h.queue, by simp [Worker.queued]⟩
  | notStarted _ => exact exitWorker_sourced ⟨h.todo, h.jobs, h.queue, h.worker⟩
  | prepare _ =>
    refine ⟨h.todo, h.jobs, h.queue, fun q hq => ?_⟩
    simp only at hq
    generalize hprep : (if setup.mode = .envelope then prepareEnvelopes n.queue setup.batch else none) = prepared at hq
    cases prepared with
    | none => cases hq
    | some s =>
      rw [ite_eq_iff] at hprep
      rcases hprep with ⟨-, hprep⟩ | ⟨-, hprep⟩
      · obtain ⟨_, _, _, _, _, hsame, _⟩ := prepareEnvelopes_of hprep
        refine h.queue q (List.mem_of_mem_take (i := setup.batch) ?_)
        rw [← hsame]
        exact hq
      · cases hprep
  | lock hwk _ => exact lockWorker_sourced hw hwk h
  | stopWaiting _ _ | stopSpinning _ _ => exact exitWorker_sourced h
  | join _ hwk =>
    exact ⟨events_sourced fun q hq => h.worker q (by rw [hwk]; exact hq), h.jobs, h.queue, by simp [Worker.queued]⟩

/-! ## What is fixed at load -/

/-- The settings that stay as they were loaded. -/
def fixed (config : Config) : Str × Bool × Bool := (config.pfx, config.perNode, config.entrySeq)

theorem step_fixed {act : Act} (hs : step setup env n act = some n') : fixed n'.st.config = fixed n.st.config := by
  have hturn := step_turn hs
  generalize n'.st = st' at hturn
  cases hturn with
  | command op hop => exact congrArg (fun f => f.2.2.2) (command_fixtures env n.st hop)
  | process task todo ht => rw [(task.run_trail env n.st).config]
  | setting _ h => rw [fixed, fixed, h.fixed.1, h.fixed.2.1, h.fixed.2.2]
  | idle h => rw [h.config]

theorem stems_eq {act : Act} (hs : step setup env n act = some n') : Stems n'.st.config = Stems n.st.config := by
  obtain ⟨hp, hrest⟩ := Prod.mk.inj (step_fixed hs)
  have hseq : n'.st.config.entrySeq = n.st.config.entrySeq := (Prod.mk.inj hrest).2
  funext e
  exact propext ⟨fun h => h.of_fixed hp.symm hseq.symm, fun h => h.of_fixed hp hseq⟩

theorem step_stemmed {act : Act} (hw : Wf setup n) (hs : step setup env n act = some n')
    (h : Sourced setup n.st.config.pfx (Stems n.st.config) n) :
    Sourced setup n'.st.config.pfx (Stems n'.st.config) n' := by
  rw [(Prod.mk.inj (step_fixed hs)).1, stems_eq hs]
  exact step_sourced hw hs rfl (fun e he => he.stems) h

theorem loaded_sourced (h : Loaded setup env n) : Sourced setup pfx P n := by
  obtain ⟨config, host, ks, generation, master, loading, mode, -, rfl⟩ := h
  refine ⟨by simp [initial], by simp [initial], by simp [initial], ?_⟩
  simp only [initial]
  split <;> simp [Worker.queued]

theorem Reach.stemmed {allowed : Node → Act → Prop} (h : Reach setup env allowed n) :
    Sourced setup n.st.config.pfx (Stems n.st.config) n :=
  Machine.Reach.invariant (I := fun n => Sourced setup n.st.config.pfx (Stems n.st.config) n)
    (fun _ hl => loaded_sourced hl) (fun _ _ _ hr _ hs ih => step_stemmed (Reach.wf hr) hs ih) h

end Sourced

end Node

end EventStream

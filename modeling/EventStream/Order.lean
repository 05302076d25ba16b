import EventStream.Books
import EventStream.Refine

/-!
# The order of events in the worker modes

The dispatch order of the events, the order in which they are handed to a processor, and where the others are.

- `settles`: the steps that keep the order, no matter how the worker ended;
- `events_in_order`: the split of the dispatched events at any point of a run of such steps;
- `processed_in_order`: with a worker that obtained its context, what was handed over is a prefix of what was
  dispatched;
- `unload_finishes`: when `stop_dispatch_worker` has returned, everything that was accepted was handed over; so it is in
  every run whose worker obtained its context (`attended_unload_complete`).
-/

namespace EventStream

open Text (Str Bytes utf8)

/-! ## Where an event is -/

/-- The events a task hands to a processor. -/
def Task.queued : Task → List Queued
  | event q => [q]
  | envelope qs _ => qs
  | marker .. | noSlot _ | checkpoint .. => []

def Job.fallback? : Job → Option Queued
  | fallback q => some q
  | _ => none

theorem Task.events_items (t : Task) : Lanes.events t.items = t.queued := by
  cases t with
  | envelope qs fields => exact Lanes.events_map_event qs
  | event | marker | noSlot | checkpoint => rfl

namespace Node

/-- The events already handed to `process_pending_event` or `process_pending_envelope`, in that order. -/
def handed (n : Node) : List Queued := n.history.flatMap fun d => d.task.elim [] Task.queued

/-- The events that the lock holder has taken and not handed over yet. -/
def taken (n : Node) : List Queued := n.todo.flatMap Task.queued

/-- The events of the registered fallback jobs. -/
def fallbacks (n : Node) : List Queued := n.jobs.filterMap Job.fallback?

/-- The dispatched events, without those whose job could not be registered. -/
def survivors (n : Node) : List Queued := n.dispatched.filter fun q => q.id ∉ n.lost.map Queued.id

section View

variable (setup : Setup) (n : Node)

theorem events_done : Lanes.events (n.view setup).done = n.handed := by
  simp only [view, handed, Lanes.events, List.filterMap_flatMap]
  congr 1
  funext d
  cases hd : d.task with
  | none => simp [Done.items, hd]
  | some t =>
    simp only [Done.items, hd, Option.elim_some]
    exact t.events_items

theorem events_taken : Lanes.events (n.view setup).taken = n.taken := by
  simp only [view, taken, Lanes.events, List.filterMap_flatMap]
  congr 1
  funext t
  exact t.events_items

theorem ordered_jobs : Lanes.ordered (n.view setup).jobs = n.fallbacks := by
  simp only [view, fallbacks, Lanes.ordered, List.filterMap_map]
  congr 1
  funext job
  cases job <;> rfl

end View

/-! ## Steps that keep the order -/

/-- No fallback job runs while events that an exited worker handed back wait for the stop, and the queue is empty when
the worker is joined. -/
def settles (n : Node) : Act → Bool
  | .runJob =>
    match n.jobs with
    | .fallback _ :: _ => n.worker.pending.isEmpty
    | _ => true
  | .join => n.queue.isEmpty
  | _ => true

/-- The start of the worker obtains its thread context. -/
def obtainsContext : Act → Bool
  | .workerStart ok => ok
  | _ => true

section Order

variable {setup : Setup} {env : Env} {n n' : Node}

theorem settles_orderly {act : Act} {a : Lanes.Action} (h : n.settles act = true) (hc : n.causes env act a = true) :
    Lanes.Orderly (n.view setup) a := by
  cases a with
  | run =>
    intro e rest hj
    cases act with
    | runJob =>
      cases hjobs : n.jobs with
      | nil => simp [view, hjobs] at hj
      | cons job jobs =>
        cases job with
        | fallback q => simpa [settles, hjobs, view] using h
        | event q => simp [view, hjobs, Job.view] at hj
        | markers job => simp [view, hjobs, Job.view] at hj
    | _ => cases hc
  | rejoin =>
    cases act with
    | join => simpa [settles, view, Lanes.Orderly] using h
    | _ => cases hc
  | _ => trivial

theorem arrival_orderly (s : Lanes.Traffic Queued Recorded) (a : Lanes.Action) (h : a.isArrival = true) :
    Lanes.Orderly s a := by
  cases a with
  | run | rejoin => cases h
  | _ => trivial

/-- Where the dispatched events are. -/
structure Placed (n : Node) : Prop where
  /-- What was handed over comes first in the dispatch order, then what is taken, then the rest. -/
  split : ∃ rest, n.survivors = n.handed ++ n.taken ++ rest ∧ rest.Perm (n.worker.pending ++ n.queue ++ n.fallbacks)
  pending : Ascending Queued.id n.worker.pending
  queue : Ascending Queued.id n.queue
  fallbacks : Ascending Queued.id n.fallbacks
  /-- Events are numbered by their dispatch. -/
  numbered : n.dispatched.map Queued.id = List.range n.dispatched.length
  /-- The others are those whose job could not be registered, and they are counted. -/
  lost : (n.survivors ++ n.lost).Perm n.dispatched
  counted : ∀ c ∈ [Counter.eventsLost, .droppedDeferError], chargedFor n.st.counters.ledger .dispatch c = n.lost.length

theorem events_in_order (hmode : setup.mode ≠ .sync) (h : Reach setup env (fun n act => n.settles act = true) n) :
    Placed n := by
  have hruns := h.view_runs arrival_orderly fun n act a _ hs hc => settles_orderly hs hc
  rw [decide_eq_true hmode] at hruns
  have hn := hruns.numbered
  have ho := hruns.inOrder fun _ _ h => h
  obtain ⟨rest, hs, hp⟩ := ho.split
  rw [events_done, events_taken] at hs
  rw [Lanes.waiting, ordered_jobs] at hp
  refine ⟨⟨rest, hs, hp⟩, ho.returned, ho.queue, ordered_jobs setup n ▸ ho.jobs, hn.keys, Lanes.survivors_perm hn, ?_⟩
  intro c hc
  have hdef : ∀ k, isDeferral ⟨.dispatch, c, k⟩ = true := by
    simp only [List.mem_cons, List.not_mem_nil, or_false] at hc
    rcases hc with rfl | rfl <;> exact fun _ => rfl
  exact (chargedFor_deferrals n.st.counters.ledger hdef).symm.trans (h.books.lost c hc)

/-! ## The end of a run -/

/-- The steps that leave the worker and the stop alone. -/
def isSteady : Act → Bool
  | .workerStart _ | .workerWake | .workerPrepare | .workerLock | .workerUnlock | .workerStop | .requestStop | .join
  | .finish => false
  | _ => true

/-- Outside `stop_dispatch_worker` nothing of the worker changes; inside it nothing new is queued or taken. -/
structure Steady (n n' : Node) : Prop where
  control : n'.stop = n.stop ∧ n'.phase = n.phase ∧ n'.worker = n.worker
  quiet : n.phase ≠ .running → n'.queue = n.queue ∧ n'.fallbacks = n.fallbacks ∧ (n.taken = [] → n'.taken = [])

theorem Steady.of_running (hrun : n.phase = .running)
    (hc : n'.stop = n.stop ∧ n'.phase = n.phase ∧ n'.worker = n.worker) : Steady n n' :=
  ⟨hc, fun h => absurd hrun h⟩

theorem takeMarkers_steady (env : Env) (n : Node) (registered : Bool) : Steady n (n.takeMarkers env registered) := by
  refine ⟨⟨rfl, rfl, rfl⟩, fun _ => ⟨rfl, ?_, fun h => h⟩⟩
  simp only [takeMarkers, fallbacks, List.filterMap_append]
  cases (flushMarkers env n.st registered).2 with
  | none => exact List.append_nil _
  | some job => exact List.append_nil _

theorem step_steady {act : Act} (hw : Wf setup n) (h : step setup env n act = some n') (hs : isSteady act = true) :
    Steady n n' := by
  cases step_fires h with
  | acquire _ hrun => exact .of_running hrun ⟨rfl, rfl, rfl⟩
  | release hcmd _ | command hcmd _ | setEnabled hcmd | configure hcmd _ => exact .of_running hcmd.2.1 ⟨rfl, rfl, rfl⟩
  | @notify cls event key db contended registered markersRegistered hmay =>
    have ht := takeMarkers_steady env n markersRegistered
    rcases onKeyspaceEvent_cases env hw cls event db contended registered markersRegistered hmay with
      ⟨st, -, e⟩ | ⟨⟨-, hrun, -⟩, -, e, lane, hr⟩
    · rw [e]
      exact ⟨ht.control, ht.quiet⟩
    · obtain ⟨-, hphase, -, -, -, hwk, hstop, -⟩ := hr.control
      exact .of_running hrun ⟨hstop, hphase, hwk⟩
  | cron hcmd _ =>
    rcases cron_ticked env n with e | ⟨st, -, e⟩ | ⟨-, st, control, retention, -, -, -, -, e⟩
    all_goals
      rw [e]
      exact .of_running hcmd.2.1 ⟨rfl, rfl, rfl⟩
  | @runJob job jobs _ hrun _ _ =>
    cases job with
    | event q => exact .of_running hrun ⟨rfl, rfl, rfl⟩
    | fallback q => exact .of_running hrun ⟨rfl, rfl, rfl⟩
    | markers job => exact .of_running hrun ⟨rfl, rfl, rfl⟩
  | process ht =>
    refine ⟨⟨rfl, rfl, rfl⟩, fun _ => ⟨rfl, rfl, fun hn => ?_⟩⟩
    rw [taken, ht, List.flatMap_cons] at hn
    exact (List.append_eq_nil_iff.1 hn).2
  | started | notStarted | wake | prepare | lock | unlock | stopWaiting | stopSpinning | stopSync | requestStop | join
  | finish => cases hs

/-- A worker that obtained its context leaves its loop only when it is told to, and leaves nothing queued. -/
structure Attended (n : Node) : Prop where
  stop : n.stop = true → n.phase ≠ .running
  exited : ∀ pending, n.worker = .exited pending → n.stop = true ∧ n.queue = []

theorem Attended.pending (ha : Attended n) (hrun : n.phase = .running) : n.worker.pending = [] := by
  cases hwk : n.worker with
  | exited pending => exact absurd hrun (ha.stop (ha.exited pending hwk).1)
  | absent | starting | waiting | ready | spinning | holding | joined => rfl

theorem step_attended {act : Act} (hw : Wf setup n) (hok : obtainsContext act = true)
    (h : step setup env n act = some n') (ha : Attended n) : Attended n' := by
  cases hst : isSteady act with
  | true =>
    have hsteady := step_steady hw h hst
    obtain ⟨hstop, hphase, hwk⟩ := hsteady.control
    refine ⟨fun hs => ?_, fun pending hp => ?_⟩
    · rw [hphase]
      exact ha.stop (hstop ▸ hs)
    · obtain ⟨hs, hq⟩ := ha.exited pending (hwk ▸ hp)
      rw [hstop, (hsteady.quiet (ha.stop hs)).1]
      exact ⟨hs, hq⟩
  | false =>
    cases step_fires h with
    | started _ | wake _ _ _ | prepare _ | unlock _ _ _ => exact ⟨ha.stop, fun _ hp => by cases hp⟩
    | notStarted _ => cases hok
    | @lock snapshot _ _ =>
      obtain ⟨hwk, hphase, hstop, -⟩ := lockWorker_control setup n snapshot
      refine ⟨fun hs => ?_, fun pending hp => ?_⟩
      · rw [hphase]
        exact ha.stop (hstop ▸ hs)
      · rw [hwk] at hp
        cases hp
    | stopWaiting hstop _ | stopSpinning hstop _ => exact ⟨ha.stop, fun _ _ => ⟨hstop, rfl⟩⟩
    | stopSync hcmd _ _ | requestStop hcmd _ _ =>
      have hex : ∀ pending, n.worker ≠ .exited pending := fun pending hp => ha.stop (ha.exited pending hp).1 hcmd.2.1
      exact ⟨fun _ => by simp, fun pending hp => absurd hp (hex pending)⟩
    | join _ _ => exact ⟨fun _ => by simp, fun _ hp => by cases hp⟩
    | finish _ _ => exact ⟨fun _ => by simp, ha.exited⟩
    | acquire | release | notify | command | setEnabled | configure | cron | runJob | process => cases hst

theorem loaded_attended (h : Loaded setup env n) : Attended n := by
  obtain ⟨config, host, ks, generation, master, loading, mode, -, rfl⟩ := h
  refine ⟨fun hs => (by cases hs), fun pending hp => ?_⟩
  unfold initial at hp
  dsimp only at hp
  split at hp <;> cases hp

theorem Reach.attended (h : Reach setup env (fun _ act => obtainsContext act = true) n) : Attended n :=
  Machine.Reach.invariant (fun _ hl => loaded_attended hl)
    (fun _ _ _ hr hok hs ha => step_attended (Reach.wf hr) hok hs ha) h

/-- With its context obtained, a worker does not disturb the order. -/
theorem Reach.settled (h : Reach setup env (fun _ act => obtainsContext act = true) n) :
    Reach setup env (fun n act => n.settles act = true) n := by
  refine Machine.Reach.strengthen h fun m act m' hr _ hs => ?_
  have ha := Reach.attended hr
  cases step_fires hs with
  | runJob _ hrun _ _ =>
    simp only [settles]
    split
    · rw [ha.pending hrun]
      rfl
    · rfl
  | join _ hwk => simp only [settles, (ha.exited _ hwk).2, List.isEmpty_nil]
  | _ => rfl

/-- Once the worker is joined nothing waits but what the main thread has taken over, and in the end that is done too. -/
structure Ended (n : Node) : Prop where
  joined : n.phase = .finishing ∨ n.phase = .stopped → n.queue = [] ∧ n.fallbacks = [] ∧ n.worker = .joined
  finished : n.phase = .stopped → n.taken = []

theorem Ended.of_running (hrun : n.phase = .running ∨ n.phase = .joining) : Ended n := by
  refine ⟨fun h => ?_, fun h => ?_⟩
  · rcases hrun with hr | hr <;> rcases h with h | h <;> rw [hr] at h <;> cases h
  · rcases hrun with hr | hr <;> rw [hr] at h <;> cases h

/-- A step of the worker itself: it is not joined, so the main thread is still at work or waits for it. -/
theorem Ended.of_worker (he : Ended n) (hwk : n.worker ≠ .joined) (hphase : n'.phase = n.phase) : Ended n' := by
  have hnot : ¬ (n.phase = .finishing ∨ n.phase = .stopped) := fun h => hwk (he.joined h).2.2
  refine ⟨fun h => absurd (hphase ▸ h) hnot, fun h => absurd (Or.inr (hphase ▸ h)) hnot⟩

theorem step_ended {act : Act} (hmode : setup.mode ≠ .sync) (hw : Wf setup n) (hs : n.settles act = true)
    (h : step setup env n act = some n') (he : Ended n) : Ended n' := by
  cases hst : isSteady act with
  | true =>
    have hsteady := step_steady hw h hst
    obtain ⟨-, hphase, hwk⟩ := hsteady.control
    refine ⟨fun hp => ?_, fun hp => ?_⟩
    · rw [hphase] at hp
      obtain ⟨hq, hf, hj⟩ := he.joined hp
      have hrun : n.phase ≠ .running := by rcases hp with hp | hp <;> rw [hp] <;> decide
      obtain ⟨hq', hf', -⟩ := hsteady.quiet hrun
      exact ⟨hq'.trans hq, hf'.trans hf, hwk.trans hj⟩
    · rw [hphase] at hp
      have hrun : n.phase ≠ .running := by rw [hp]; decide
      exact (hsteady.quiet hrun).2.2 (he.finished hp)
  | false =>
    cases step_fires h with
    | started hwk | notStarted hwk => exact he.of_worker (by rw [hwk]; decide) rfl
    | wake hwk _ _ | prepare hwk => exact he.of_worker (by rw [hwk]; decide) rfl
    | lock hwk _ => exact he.of_worker (by rw [hwk]; simp) (lockWorker_control setup n _).2.1
    | unlock hhold _ _ => exact he.of_worker (by rw [hw.lock.1 hhold]; decide) rfl
    | stopWaiting _ hwk | stopSpinning _ hwk => exact he.of_worker (by rw [hwk]; simp) rfl
    | stopSync hcmd _ hsync => exact absurd ((hw.mode hcmd.2.1).symm.trans hsync) hmode
    | requestStop _ _ _ => exact .of_running (Or.inr rfl)
    | join hjoin _ =>
      have hq : n.queue = [] := by simpa [settles] using hs
      refine ⟨fun _ => ⟨hq, ?_, rfl⟩, fun hp => by cases hp⟩
      change n.jobs.filterMap Job.fallback? = []
      rw [(hw.joining hjoin).1]
      rfl
    | finish hfin htodo =>
      refine ⟨fun _ => he.joined (Or.inl hfin), fun _ => ?_⟩
      change n.todo.flatMap Task.queued = []
      rw [htodo]
      rfl
    | acquire | release | notify | command | setEnabled | configure | cron | runJob | process => cases hst

theorem Reach.ended (hmode : setup.mode ≠ .sync) (h : Reach setup env (fun n act => n.settles act = true) n) :
    Ended n := by
  refine Machine.Reach.invariant (fun _ hl => ?_)
    (fun _ _ _ hr hs hst he => step_ended hmode (Reach.wf hr) hs hst he) h
  obtain ⟨config, host, ks, generation, master, loading, mode, -, rfl⟩ := hl
  exact .of_running (Or.inl rfl)

theorem Placed.survivors_ascending (h : Placed n) : Ascending Queued.id n.survivors := by
  have hasc : Ascending Queued.id n.dispatched := .of_range h.numbered
  exact hasc.sublist List.filter_sublist

/-- In a stopped module nothing is left to hand over. -/
theorem Placed.complete (hp : Placed n) (he : Ended n) (hstop : n.phase = .stopped) :
    n.handed = n.survivors ∧ Ascending Queued.id n.handed ∧ n.queue = [] ∧ Placed n := by
  obtain ⟨hq, hf, hwk⟩ := he.joined (Or.inr hstop)
  obtain ⟨rest, hs, hrest⟩ := hp.split
  have hnil : rest = [] := by
    refine List.Perm.eq_nil (hrest.trans ?_)
    rw [hq, hf, hwk]
    exact List.Perm.refl _
  rw [hnil, he.finished hstop, List.append_nil, List.append_nil] at hs
  exact ⟨hs.symm, hs ▸ hp.survivors_ascending, hq, hp⟩

end Order

/-! ## The results -/

/-- Worker modes hand every event over once and in dispatch order, as long as the worker got its context. -/
theorem processed_in_order (setup : Setup) (env : Env) (n : Node) (hmode : setup.mode ≠ .sync)
    (h : Reach setup env (fun _ act => obtainsContext act = true) n) :
    n.handed <+: n.survivors ∧ Ascending Queued.id n.handed ∧ Placed n := by
  have hp := events_in_order hmode h.settled
  obtain ⟨rest, hs, -⟩ := hp.split
  have hpre : n.handed <+: n.survivors := by
    rw [hs, List.append_assoc]
    exact List.prefix_append _ _
  exact ⟨hpre, hp.survivors_ascending.sublist hpre.sublist, hp⟩

/-- A queue of one event. -/
def narrow : Setup := ⟨.individual, 1, 1, Nat.one_pos, Nat.one_pos⟩

/-- A load of the defaults in a worker mode. -/
def narrowLoad : Node :=
  initial .individual (loadedState .calm .defaults false .empty "0".toList true false)

theorem narrowLoad_loaded : Loaded narrow .calm narrowLoad :=
  ⟨.defaults, ⟨false, true, false, .ok ()⟩, .empty, "0".toList, true, false, .individual, rfl, rfl⟩

/-- An `expired` event of one key. -/
def expire (key : Bytes) : Act := .notify {.expired} "expired".toList key 0 false true true

/-- Two events of one command: the second finds the queue full. -/
def overflow : List Act :=
  [.workerStart true, expire [97], expire [98], .workerWake, .runJob, .process, .runJob, .process]

theorem processed_in_order_overflow : ∃ n, Machine.run (step narrow .calm) (fun _ act => obtainsContext act = true)
    narrowLoad overflow = some n ∧ n.handed.map Queued.id = [0] ∧ n.taken.map Queued.id = [1] ∧
    n.handed <+: n.survivors ∧ Placed n := by
  have hrun : (Machine.run (step narrow .calm) (fun _ act => obtainsContext act = true) narrowLoad overflow).map
      (fun n => (n.handed.map Queued.id, n.taken.map Queued.id)) = some ([0], [1]) := by decide +kernel
  obtain ⟨n, hn, hids⟩ := Option.map_eq_some_iff.1 hrun
  obtain ⟨hh, ht⟩ := Prod.mk.inj hids
  have hall := processed_in_order narrow .calm n (by decide) (Machine.reach_of_run (.start narrowLoad_loaded) hn)
  exact ⟨n, hn, hh, ht, hall.1, hall.2.2⟩

/-- A stop finishes every accepted event, in runs whose steps all settle. -/
theorem unload_finishes (setup : Setup) (env : Env) (n : Node) (hmode : setup.mode ≠ .sync)
    (h : Reach setup env (fun n act => n.settles act = true) n) (hstop : n.phase = .stopped) :
    n.handed = n.survivors ∧ Ascending Queued.id n.handed ∧ n.queue = [] ∧ Placed n :=
  (events_in_order hmode h).complete (h.ended hmode) hstop

/-- The worker obtains its context, one event is accepted, and the module is unloaded. -/
def cleanStop : List Act :=
  [.workerStart true, expire [97], .runJob, .process, .requestStop, .workerStop, .join, .process, .finish]

theorem unload_finishes_one :
    ∃ n, Machine.run (step narrow .calm) (fun n act => n.settles act = true) narrowLoad cleanStop =
    some n ∧ n.handed.map Queued.id = [0] ∧ n.handed = n.survivors := by
  have hrun : (Machine.run (step narrow .calm) (fun n act => n.settles act = true) narrowLoad cleanStop).map
      (fun n => (n.handed.map Queued.id, n.phase)) = some ([0], .stopped) := by decide +kernel
  obtain ⟨n, hn, hids⟩ := Option.map_eq_some_iff.1 hrun
  obtain ⟨hh, hp⟩ := Prod.mk.inj hids
  exact ⟨n, hn, hh, (unload_finishes narrow .calm n (by decide)
    (Machine.reach_of_run (.start narrowLoad_loaded) hn) hp).1⟩

/-- The start of the worker is the only input that decides: with its context obtained, every run finishes what it
accepted. -/
theorem attended_unload_complete (setup : Setup) (env : Env) (n : Node) (hmode : setup.mode ≠ .sync)
    (h : Reach setup env (fun _ act => obtainsContext act = true) n) (hstop : n.phase = .stopped) :
    n.handed = n.survivors ∧ Ascending Queued.id n.handed ∧ n.queue = [] ∧ Placed n :=
  (events_in_order hmode h.settled).complete (h.settled.ended hmode) hstop

/-- The worker exits at once for want of a context, and only then an event is accepted. -/
def earlyExit : List Act :=
  [.workerStart false, expire [97], .runJob, .process, .requestStop, .join, .finish]

/-- The event accepted after the early exit stays in the queue that the stop drops: it is not handed over and not
counted. -/
theorem early_exit_drops_accepted : ∃ n, Reach narrow .calm (fun _ _ => True) n ∧ n.phase = .stopped ∧
    n.queue.map Queued.id = [0] ∧ n.dispatched.map Queued.id = [0] ∧ n.handed = [] ∧ n.lost = [] ∧
    n.st.value .asyncEnqueued = 1 ∧ n.st.value .eventsLost = 0 := by
  have hrun : (Machine.run (step narrow .calm) (fun _ _ => True) narrowLoad earlyExit).map (fun n =>
      (n.phase, [n.queue, n.dispatched, n.handed, n.lost].map (List.map Queued.id),
        [Counter.asyncEnqueued, .eventsLost].map n.st.value)) = some (.stopped, [[0], [0], [], []], [1, 0]) := by
    decide +kernel
  obtain ⟨n, hn, hids⟩ := Option.map_eq_some_iff.1 hrun
  simp only [Prod.mk.injEq, List.map_cons, List.map_nil, List.cons.injEq, List.map_eq_nil_iff, and_true] at hids
  obtain ⟨hphase, ⟨hq, hd, hh, hl⟩, hacc, hlost⟩ := hids
  exact ⟨n, Machine.reach_of_run (.start narrowLoad_loaded) hn, hphase, hq, hd, hh, hl, hacc, hlost⟩

end Node

end EventStream

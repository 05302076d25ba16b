import EventStream.Lib.Boundaries
import EventStream.Order

/-!
# Markers as boundaries

A marker belongs to a lifecycle point: the events dispatched before that point are those with a number below `point`.

- `Fenced`: what was done respects the points of the markers, and no event below the point of an attempted marker is
  left;
- `sync_markers`: without a worker markers are kept, attempted once and in order, and fence off the events around them;
- `worker_markers`: in the worker modes they do so in runs that take markers up only while nothing waits in the queue
  (`covers`);
- `markers_on_time`: in every mode and every run a marker is attempted before the events that are selected after it.
-/

namespace EventStream

open Text (Str Bytes utf8)

/-! ## Where a marker is -/

/-- The marker a task attempts. -/
def Task.markers : Task → List Recorded
  | marker _ _ m | noSlot m => [m]
  | event _ | envelope .. | checkpoint .. => []

def Job.markersOf : Job → List Recorded
  | markers job => job.markers
  | event _ | fallback _ => []

theorem Task.marks_items (t : Task) : Lanes.marks t.items = t.markers := by
  cases t with
  | envelope qs fields => exact Lanes.marks_map_event qs
  | event | marker | noSlot | checkpoint => rfl

theorem Job.marks_items (job : Job) : Lanes.marks job.view.items = job.markersOf := by
  cases job with
  | markers job => exact Lanes.marks_map_mark job.markers
  | event | fallback => rfl

namespace Node

/-- The markers that were attempted, in that order. -/
def attempted (n : Node) : List Recorded := n.history.flatMap fun d => d.task.elim [] Task.markers

/-- The markers that a running or a registered job holds. -/
def held (n : Node) : List Recorded := n.todo.flatMap Task.markers ++ n.jobs.flatMap Job.markersOf

section View

variable (setup : Setup) (n : Node)

theorem marks_done : Lanes.marks (n.view setup).done = n.attempted := by
  simp only [view, attempted, Lanes.marks, List.filterMap_flatMap]
  congr 1
  funext d
  cases hd : d.task with
  | none => simp [Done.items, hd]
  | some t =>
    simp only [Done.items, hd, Option.elim_some]
    exact t.marks_items

theorem marks_held : Lanes.marks (n.view setup).taken ++ Lanes.marks (Lanes.jobItems (n.view setup).jobs) = n.held := by
  simp only [view, held, Lanes.marks, Lanes.jobItems, List.filterMap_flatMap, List.flatMap_map]
  congr 2
  · funext t
    exact t.marks_items
  · funext job
    exact job.marks_items

theorem mem_attempted {m : Recorded} : m ∈ n.attempted ↔ Lanes.Item.mark m ∈ (n.view setup).done := by
  rw [← marks_done setup n]
  exact Lanes.mem_marks _

theorem mem_handed {q : Queued} : q ∈ n.handed ↔ Lanes.Item.event q ∈ (n.view setup).done := by
  rw [← events_done setup n]
  exact Lanes.mem_events _

end View

/-- What was done keeps to the points of the markers: an attempted marker comes after every event below its point and
before the others. The calls of the module are the calls of what was done, in that order. -/
structure Fenced (n : Node) : Prop where
  order : (n.history.flatMap Done.items).Pairwise (Lanes.Before keys)
  before : ∀ m ∈ n.attempted, ∀ q ∈ n.dispatched, q.id < m.point → q ∈ n.handed ∨ q ∈ n.lost
  trace : n.st.trace = n.history.flatMap Done.calls

section Fences

variable {setup : Setup} {env : Env} {n : Node} {allowed : Node → Act → Prop}

/-- An event that is neither handed over nor given up has to be past the points of the markers attempted so far. -/
theorem fenced_of_left (h : Reach setup env allowed n) (hdone : (n.view setup).done.Pairwise (Lanes.Before keys))
    (hleft : ∀ q ∈ n.dispatched, q ∈ n.handed ∨ q ∈ n.lost ∨
      ∀ m, Lanes.Item.mark m ∈ (n.view setup).done → m.point ≤ q.id) : Fenced n := by
  refine ⟨hdone, fun m hm q hq hlt => ?_, h.books.trace⟩
  rcases hleft q hq with hh | hl | hpast
  · exact Or.inl hh
  · exact Or.inr hl
  · have hle := hpast m ((n.mem_attempted setup).1 hm)
    omega

/-! ## Without a worker -/

theorem sync_fenced (hmode : setup.mode = .sync) (h : Reach setup env allowed n) : Fenced n := by
  have hruns := h.view_runs (Q := fun _ _ => True) (fun _ _ _ => trivial) fun _ _ _ _ _ _ => trivial
  rw [show decide (setup.mode ≠ .sync) = false by simp [hmode]] at hruns
  have ha := hruns.aligned
  have hline := ha.ordered
  rw [Lanes.line, List.append_assoc, List.append_assoc] at hline
  obtain ⟨hdone, -, hcross⟩ := List.pairwise_append.1 hline
  refine fenced_of_left h hdone fun q hq => ?_
  rcases List.mem_append.1 (ha.complete.symm.subset hq) with hl | hl
  · rw [Lanes.mem_events, Lanes.line, List.append_assoc, List.append_assoc] at hl
    rcases List.mem_append.1 hl with hd | hr
    · exact Or.inl ((n.mem_handed setup).2 hd)
    · exact Or.inr (Or.inr fun m hm => hcross _ hm _ hr)
  · exact Or.inr (Or.inl hl)

theorem marker_once (h : Reach setup env allowed n) :
    ((n.attempted ++ n.held ++ n.st.pendingMarkers ++ n.unregistered).map Recorded.ordinal).Perm
      (List.range n.st.recorded) ∧ Ascending Recorded.ordinal n.attempted := by
  have hruns := h.view_runs (Q := fun _ _ => True) (fun _ _ _ => trivial) fun _ _ _ _ _ _ => trivial
  have hn := hruns.numbered
  have hline : Lanes.markLine (n.view setup) = n.attempted ++ n.held ++ n.st.pendingMarkers := by
    rw [Lanes.markLine, marks_done, List.append_assoc n.attempted, marks_held]
    rfl
  refine ⟨?_, ?_⟩
  · have honce := hn.once
    rw [hline] at honce
    exact honce
  · have hpair := hn.line
    rw [hline, List.append_assoc] at hpair
    exact (List.pairwise_append.1 hpair).1.imp fun hlt => hlt.1

end Fences

/-- Markers of the sync mode. Each recorded marker is attempted, held, pending or given up, exactly one of these; an
attempt writes its entry and counts it, or writes nothing and counts one drop, and each marker given up is counted; they
are attempted in the order of recording, between the events before and after their points; and the flag is up while any
is pending. -/
theorem sync_markers (setup : Setup) (env : Env) (n : Node) (hmode : setup.mode = .sync)
    (h : Reach setup env (fun _ _ => True) n) :
    ((n.attempted ++ n.held ++ n.st.pendingMarkers ++ n.unregistered).map Recorded.ordinal).Perm
        (List.range n.st.recorded) ∧
      (∀ d ∈ n.history, ∀ m, Lanes.Item.mark m ∈ d.items → Attempted m.marker.action d.calls d.charges) ∧
      chargedFor n.st.counters.ledger .marker .droppedDeferError = n.unregistered.length ∧
      Ascending Recorded.ordinal n.attempted ∧ Fenced n ∧
      (n.st.pendingMarkers ≠ [] → n.st.markersDirty = true) := by
  obtain ⟨honce, hasc⟩ := marker_once h
  refine ⟨honce, h.books.settled, ?_, hasc, sync_fenced hmode h, fun hne => ?_⟩
  · exact (chargedFor_deferrals n.st.counters.ledger fun _ => rfl).symm.trans h.books.dropped
  · cases hd : n.st.markersDirty with
    | true => rfl
    | false => exact absurd (h.wf.dirty hd) hne

/-- The sync mode, where no queue is made. -/
def plain : Setup := ⟨.sync, 1, 1, Nat.one_pos, Nat.one_pos⟩

def plainLoad : Node := initial .sync (loadedState .calm .defaults false .empty "0".toList true false)

theorem plainLoad_loaded : Loaded plain .calm plainLoad :=
  ⟨.defaults, ⟨false, true, false, .ok ()⟩, .empty, "0".toList, true, false, .sync, rfl, rfl⟩

/-- An event that finds the marker of the load, both written, and a flush. -/
def plainFlush : List Act := [expire [97], .runJob, .process, .runJob, .process, .command (.flush 0)]

theorem sync_markers_flush : ∃ n, Machine.run (step plain .calm) (fun _ _ => True) plainLoad plainFlush = some n ∧
    n.attempted.map Recorded.ordinal = [0] ∧ n.st.pendingMarkers.map Recorded.point = [1] ∧ Fenced n := by
  have hrun : (Machine.run (step plain .calm) (fun _ _ => True) plainLoad plainFlush).map
      (fun n => (n.attempted.map Recorded.ordinal, n.st.pendingMarkers.map Recorded.point)) = some ([0], [1]) := by
    decide +kernel
  obtain ⟨n, hn, hids⟩ := Option.map_eq_some_iff.1 hrun
  obtain ⟨ha, hp⟩ := Prod.mk.inj hids
  have hall := sync_markers plain .calm n rfl (Machine.reach_of_run (.start plainLoad_loaded) hn)
  exact ⟨n, hn, ha, hp, hall.2.2.2.2.1⟩

/-! ## With a worker -/

/-- Pending markers are taken up only while no event waits for the worker, those before a registered fallback apart. -/
def covers (env : Env) (n : Node) : Act → Bool
  | .notify .. => !(n.st.capturing && !n.st.pendingMarkers.isEmpty) ||
      (n.worker.pending.isEmpty && n.queue.all fun q => n.fallbacks.any fun q' => q.id < q'.id)
  | .cron => !(n.st.capturing && n.checkpointDue env && !n.st.pendingMarkers.isEmpty) ||
      (n.worker.pending.isEmpty && n.queue.isEmpty)
  | _ => true

theorem covers_covering {setup : Setup} {env : Env} {n : Node} {act : Act} {a : Lanes.Action}
    (h : n.covers env act = true) (hc : n.causes env act a = true) : Lanes.Covering keys (n.view setup) a := by
  cases a with
  | take =>
    cases act with
    | notify cls event key db contended registered markersRegistered =>
      simp only [causes] at hc
      simp only [covers, hc, Bool.not_true, Bool.false_or, Bool.and_eq_true, List.isEmpty_iff, List.all_eq_true,
        List.any_eq_true, decide_eq_true_eq] at h
      refine ⟨h.1, fun q hq => ?_⟩
      rw [ordered_jobs]
      exact h.2 q hq
    | _ => cases hc
  | tick =>
    cases act with
    | cron =>
      simp only [causes] at hc
      simp only [covers, hc, Bool.true_and, Bool.or_eq_true, Bool.not_not, Bool.and_eq_true, List.isEmpty_iff] at h
      exact h
    | _ => cases hc
  | _ => trivial

/-- Markers of the worker modes, in runs whose steps settle and cover. -/
theorem worker_markers (setup : Setup) (env : Env) (n : Node) (hmode : setup.mode ≠ .sync)
    (h : Reach setup env (fun n act => n.settles act = true ∧ n.covers env act = true) n) : Fenced n := by
  have harrival : ∀ (s : Lanes.Traffic Queued Recorded) (a : Lanes.Action), a.isArrival = true →
      Lanes.Orderly s a ∧ Lanes.Covering keys s a := by
    intro s a ha
    refine ⟨arrival_orderly s a ha, ?_⟩
    cases a with
    | take | tick => cases ha
    | _ => trivial
  have hruns := h.view_runs harrival fun n act a _ hs hc => ⟨settles_orderly hs.1 hc, covers_covering hs.2 hc⟩
  rw [decide_eq_true hmode] at hruns
  have hb := hruns.bounded fun _ _ h => h
  have ho := hruns.inOrder fun _ _ h => h.1
  have hn := hruns.numbered
  obtain ⟨hdone, -, hcross⟩ := List.pairwise_append.1 hb.split
  -- what is not done yet is taken, waits, or was given up
  refine fenced_of_left h hdone fun q hq => ?_
  rcases List.mem_append.1 ((Lanes.survivors_perm hn).symm.subset hq) with hs | hl
  · obtain ⟨rest, hsplit, hperm⟩ := ho.split
    rw [hsplit] at hs
    rcases List.mem_append.1 hs with hs | hs
    · rcases List.mem_append.1 hs with hs | hs
      · exact Or.inl (events_done setup n ▸ hs)
      · exact Or.inr (Or.inr fun m hm => hcross _ hm _ ((Lanes.mem_events _).1 hs))
    · exact Or.inr (Or.inr fun m hm => hb.ahead m (List.mem_append_left _ hm) q (hperm.subset hs))
  · exact Or.inr (Or.inl hl)

/-- The worker writes an event, the database is flushed, and the marker of the flush goes out with the next event. -/
def drainedFlush : List Act :=
  [.workerStart true, expire [97], .runJob, .process, .release, .workerWake, .workerPrepare, .workerLock, .process,
    .workerUnlock, .acquire, .command (.flush 0), expire [98], .runJob, .process]

theorem worker_markers_drained : ∃ n, Machine.run (step narrow .calm)
    (fun n act => n.settles act = true ∧ n.covers .calm act = true) narrowLoad drainedFlush = some n ∧
    n.attempted.map Recorded.point = [0, 1] ∧ n.handed.map Queued.id = [0] ∧ Fenced n := by
  have hrun : (Machine.run (step narrow .calm) (fun n act => n.settles act = true ∧ n.covers .calm act = true)
      narrowLoad drainedFlush).map (fun n => (n.attempted.map Recorded.point, n.handed.map Queued.id)) =
      some ([0, 1], [0]) := by
    decide +kernel
  obtain ⟨n, hn, hids⟩ := Option.map_eq_some_iff.1 hrun
  obtain ⟨ha, hh⟩ := Prod.mk.inj hids
  exact ⟨n, hn, ha, hh, worker_markers narrow .calm n (by decide) (Machine.reach_of_run (.start narrowLoad_loaded) hn)⟩

/-- An event waits in the queue while the database is flushed; the next event of the command takes the marker up. -/
def queuedFlush : List Act :=
  [.workerStart true, expire [97], .runJob, .process, .command (.flush 0), expire [98], .runJob, .process,
    .runJob, .process]

/-- The number of an event and the point of a marker. -/
def position : Lanes.Item Queued Recorded → Nat ⊕ Nat
  | .event q => .inl q.id
  | .mark m => .inr m.point

/-- The event notified before the flush is written after the marker of the flush. -/
theorem flush_overtakes_queue : ∃ n, Reach narrow .calm (fun _ act => obtainsContext act = true) n ∧
    (n.history.flatMap Done.items).map position = [.inr 0, .inr 1, .inl 0] ∧
    n.attempted.map (fun m => m.marker.action) = [.loaded, .flushed] ∧ n.st.value .controlMarkers = 2 ∧
    n.st.value .forwarded = 1 ∧ ¬ Fenced n := by
  have hrun : (Machine.run (step narrow .calm) (fun _ act => obtainsContext act = true) narrowLoad queuedFlush).map
      (fun n => ((n.history.flatMap Done.items).map position, n.attempted.map fun m => m.marker.action,
        [Counter.controlMarkers, .forwarded].map n.st.value)) =
      some ([.inr 0, .inr 1, .inl 0], [.loaded, .flushed], [2, 1]) := by
    decide +kernel
  obtain ⟨n, hn, hids⟩ := Option.map_eq_some_iff.1 hrun
  simp only [Prod.mk.injEq, List.map_cons, List.map_nil, List.cons.injEq, and_true] at hids
  obtain ⟨hitems, hactions, hcontrol, hforwarded⟩ := hids
  refine ⟨n, Machine.reach_of_run (.start narrowLoad_loaded) hn, hitems, hactions, hcontrol, hforwarded, fun hf => ?_⟩
  -- the order of the fence says that the point of the last marker is at most the number of the event after it
  have horder : (n.history.flatMap Done.items).Pairwise fun x y => ∀ p i, position x = .inr p → position y = .inl i →
      p ≤ i := by
    refine hf.order.imp fun {x y} hxy p i hx hy => ?_
    cases x with
    | event q => cases hx
    | mark m =>
      cases y with
      | mark m' => cases hy
      | event q =>
        cases hx
        cases hy
        exact hxy
  have hmap : ((n.history.flatMap Done.items).map position).Pairwise fun x y => ∀ p i, x = .inr p →
      y = .inl i → p ≤ i := List.pairwise_map.2 horder
  rw [hitems] at hmap
  simp at hmap

/-! ## No marker is late -/

/-- What was done, and what the lock holder and the jobs have, keeps markers ahead of the events after them. -/
theorem Reach.served_onTime {setup : Setup} {env : Env} {n : Node} {allowed : Node → Act → Prop}
    (h : Reach setup env allowed n) : (Lanes.served (n.view setup)).Pairwise (Lanes.OnTime keys) :=
  (h.view_runs (Q := fun _ _ => True) (fun _ _ _ => trivial) fun _ _ _ _ _ _ => trivial).onTime

/-- An event that was handed over was selected before every marker that is left. -/
theorem Reach.handed_before {setup : Setup} {env : Env} {n : Node} {allowed : Node → Act → Prop}
    (h : Reach setup env allowed n) {q : Queued} (hq : q ∈ n.handed) {m : Recorded}
    (hm : m ∈ n.held ++ n.st.pendingMarkers) : q.id < m.point := by
  have hruns := h.view_runs (Q := fun _ _ => True) (fun _ _ _ => trivial) fun _ _ _ _ _ _ => trivial
  have hdone := (n.mem_handed setup).1 hq
  rcases List.mem_append.1 hm with hm | hm
  · have hserved := hruns.onTime
    rw [Lanes.served, List.append_assoc] at hserved
    rw [← marks_held setup n, ← Lanes.marks_append, Lanes.mem_marks] at hm
    exact (List.pairwise_append.1 hserved).2.2 _ hdone _ hm
  · have hpoint : m.point = n.dispatched.length := hruns.numbered.pending m hm
    rw [hpoint]
    refine hruns.numbered.key_lt (hruns.pooled.subset ?_)
    rw [Lanes.pool]
    exact List.mem_append_left _ ((Lanes.mem_events _).2 hdone)

/-- **A marker is never late.** In every mode and every run, whatever the worker does, no event is handed to the writers
before the attempt of a marker that was recorded ahead of it; and the calls of the module are made in that order. So a
client that reads events after a marker's entry may take them for later than the lifecycle point, while events of before
the point may still follow (`flush_overtakes_queue`). -/
theorem markers_on_time (setup : Setup) (env : Env) (n : Node) (h : Reach setup env (fun _ _ => True) n) :
    (n.history.flatMap Done.items).Pairwise (Lanes.OnTime keys) ∧
      (∀ q ∈ n.handed, ∀ m ∈ n.held ++ n.st.pendingMarkers, q.id < m.point) ∧
      n.st.trace = n.history.flatMap Done.calls := by
  refine ⟨?_, fun q hq m hm => h.handed_before hq hm, h.books.trace⟩
  have hserved := h.served_onTime
  rw [Lanes.served, List.append_assoc] at hserved
  exact (List.pairwise_append.1 hserved).1

/-- The worker writes an event while the marker of a flush is pending. -/
def pendingFlush : List Act :=
  [.workerStart true, expire [97], .runJob, .process, .command (.flush 0), .release, .workerWake, .workerPrepare,
    .workerLock, .process]

theorem markers_on_time_pending :
    ∃ n, Machine.run (step narrow .calm) (fun _ _ => True) narrowLoad pendingFlush = some n ∧
    n.handed.map Queued.id = [0] ∧ n.st.pendingMarkers.map Recorded.point = [1] ∧
    ∀ q ∈ n.handed, ∀ m ∈ n.held ++ n.st.pendingMarkers, q.id < m.point := by
  have hrun : (Machine.run (step narrow .calm) (fun _ _ => True) narrowLoad pendingFlush).map
      (fun n => (n.handed.map Queued.id, n.st.pendingMarkers.map Recorded.point)) = some ([0], [1]) := by decide +kernel
  obtain ⟨n, hn, hids⟩ := Option.map_eq_some_iff.1 hrun
  obtain ⟨hh, hp⟩ := Prod.mk.inj hids
  exact ⟨n, hn, hh, hp, (markers_on_time narrow .calm n (Machine.reach_of_run (.start narrowLoad_loaded) hn)).2.1⟩

end Node

end EventStream

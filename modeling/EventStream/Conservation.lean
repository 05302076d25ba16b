import EventStream.Writers
import EventStream.Accounting
import EventStream.Numbers

/-!
# Every notification is accounted for

While capture is enabled the callback answers for every notification of one of its own keys and, on the capturing
master, of every key. Each of them is skipped and counted, forwarded, counted as lost, or still in flight.

* `selectEvent_answers`: the gates answer for a notification once.
* `step_answers`: what a step adds to the skipped and dispatched events.
* `step_settles`: what a step adds to the forwarded and lost events is what it hands over or gives up.
* `Halted`: after a stop nothing is in flight but what is left in the queue.
* `notifications_accounted`: the balance of whole runs, in every mode.
-/

namespace EventStream

open Text (Str Bytes utf8)

/-- The notifications that were skipped and counted. -/
def State.skipped (st : State) : Nat := (gateCounters.map st.value).sum

theorem State.skipped_congr {st st' : State} (h : ∀ c ∈ gateCounters, st'.value c = st.value c) :
    st'.skipped = st.skipped := by
  rw [State.skipped, State.skipped, List.map_congr_left h]

/-- The events that a job settles when it runs, but for what it drains. -/
def Job.queued : Job → List Queued
  | event q => [q]
  | fallback q => [q]
  | markers _ => []

/-- The callback answers for a notification: capture is on, and the key is its own or the node captures. -/
def State.answersFor (st : State) (key : Bytes) : Bool :=
  st.config.enabled && ((utf8 st.config.pfx).isPrefixOf key || st.capturing)

/-- The gates skip and count a notification they answer for, or select it; the others they pass over. -/
theorem selectEvent_answers (st : State) (cls : NotifyEvent) (event : Str) (key : Bytes) (db : Int32) :
    (st.answersFor key = false ∧ selectEvent st cls event key db = (st, none)) ∨
      (st.answersFor key = true ∧ ∃ c ∈ gateCounters, selectEvent st cls event key db =
        (st.charge .dispatch c 1, none)) ∨
      (st.answersFor key = true ∧
        ∃ e, selectEvent st cls event key db = ({ st with selected := st.selected + 1 }, some e)) := by
  unfold selectEvent State.answersFor
  cases st.config.enabled with
  | false => exact Or.inl ⟨rfl, rfl⟩
  | true =>
    simp only [not_true_eq_false, if_false, Bool.true_and]
    cases (utf8 st.config.pfx).isPrefixOf key with
    | true => exact Or.inr (Or.inl ⟨rfl, .skippedSelf, by decide, rfl⟩)
    | false =>
      simp only [Bool.false_eq_true, if_false, Bool.false_or]
      cases st.capturing with
      | false => exact Or.inl ⟨rfl, rfl⟩
      | true =>
        simp only [not_true_eq_false, if_false, true_and]
        refine Or.inr ?_
        split
        · exact Or.inl ⟨_, by decide, rfl⟩
        split
        · exact Or.inl ⟨_, by decide, rfl⟩
        split
        · exact Or.inl ⟨_, by decide, rfl⟩
        split
        · exact Or.inl ⟨_, by decide, rfl⟩
        · exact Or.inr ⟨_, rfl⟩

theorem skipped_charge (st : State) {c : Counter} (hc : c ∈ gateCounters) :
    (st.charge .dispatch c 1).skipped = st.skipped + 1 := by
  simp only [gateCounters, List.mem_cons, List.not_mem_nil, or_false] at hc
  rcases hc with rfl | rfl | rfl | rfl | rfl <;>
    simp [State.skipped, gateCounters, State.charge, State.value] <;> omega

theorem gateCounters_spared : ∀ c ∈ gateCounters, c.ofWrites = false := by decide

/-! ## Counters of the steps -/

/-- The counters of the worker and of the drains. -/
def drainCounters : List Counter := [.asyncDrains, .asyncDrainEvents, .asyncWorkerErrors]

theorem tagSegment_counters (env : Env) (st : State) : (tagSegment env st).2.counters = st.counters := by
  obtain ⟨_, _, _, _, _, e, -, -⟩ := tagSegment_probed env st
  rw [e]

theorem command_counters (env : Env) (st : State) {op : Op} (h : Node.isCommand op = true) :
    (op.apply env st).counters = st.counters := by
  cases op with
  | flush dbnum =>
    simp only [Op.apply, flushCommand, onFlushStarted]
    split <;> rfl
  | swapdb first second =>
    simp only [Op.apply, swapCommand, onSwapdb]
    split
    · rfl
    · split <;> rfl
  | prune =>
    refine cmdPrune_parts (I := fun s => s.counters = st.counters) (fun _ h => h) ?_ ?_ rfl
    · intro a b registry name r hcall h
      obtain ⟨_, _, _, rfl⟩ := call_rest hcall
      exact h
    · intro a name h
      unfold forgetStream
      simp only
      split <;> exact h
  | setAutoGroup name =>
    simp only [Op.apply, EventStream.setAutoGroup]
    split <;> rfl
  | setFirehose on | role master loading | client db key obj => rfl
  | process h' | marker control action db retention | checkpoint control retention | reset perNode => cases h

theorem flushMarkers_value (env : Env) (st : State) (registered : Bool) {c : Counter} (hc : c ≠ .droppedDeferError) :
    (flushMarkers env st registered).1.value c = st.value c := by
  have h := flushMarkers_flushed env st registered
  generalize flushMarkers env st registered = r at h
  cases h with
  | kept | empty | deferred => rfl
  | dropped _ _ =>
    unfold dropMarkers
    simp only
    split
    · exact (if_neg hc).trans (if_neg hc)
    · exact if_neg hc

/-! ## Tasks -/

theorem Task.run_skipped (env : Env) (st : State) (t : Task) : (t.run env st).skipped = st.skipped := by
  refine State.skipped_congr fun c hc => ?_
  have hspared := gateCounters_spared c hc
  cases t with
  | event q => exact (process_writes env st _).value c hspared
  | envelope qs fields => exact (process_writes env st _).value c hspared
  | marker control retention m =>
    exact writeControlEntry_value env st control _ retention _ _ (not_mem_of_spared hspared (by decide))
  | noSlot m => exact (countNoSlotDrop_writes env st _ _).value c hspared
  | checkpoint control retention =>
    refine writeControlEntry_value env st control _ retention _ _ ?_
    simp only [gateCounters, List.mem_cons, List.not_mem_nil, or_false] at hc
    rcases hc with rfl | rfl | rfl | rfl | rfl <;> decide

/-- A task settles its events: each is forwarded or lost. -/
theorem Task.run_settles (env : Env) (st : State) (t : Task) :
    (t.run env st).value .forwarded + (t.run env st).value .eventsLost =
      st.value .forwarded + st.value .eventsLost + t.queued.length := by
  have hboth : ∀ (h : Handoff), (h.process env st).value .forwarded + (h.process env st).value .eventsLost =
      st.value .forwarded + st.value .eventsLost + h.events.length := by
    intro h
    rcases process_oneSide env st h with ⟨hf, hl⟩ | ⟨hf, hl⟩ <;> omega
  cases t with
  | event q => exact hboth _
  | envelope qs fields =>
    have h := hboth (.envelope (qs.map Queued.event) fields)
    rw [Handoff.events, List.length_map] at h
    exact h
  | marker control retention m =>
    have hc : ∀ c, c ∉ [Counter.controlMarkers, .droppedXaddError, .droppedOom] →
        (Task.run env st (.marker control retention m)).value c = st.value c :=
      fun c hc => writeControlEntry_value env st control _ retention _ _ hc
    rw [hc .forwarded (by decide), hc .eventsLost (by decide)]
    rfl
  | noSlot m => rfl
  | checkpoint control retention =>
    have hc : ∀ c, c ∉ [Counter.controlCheckpoints, .droppedXaddError, .droppedOom] →
        (Task.run env st (.checkpoint control retention)).value c = st.value c :=
      fun c hc => writeControlEntry_value env st control _ retention _ _ hc
    rw [hc .forwarded (by decide), hc .eventsLost (by decide)]
    rfl

namespace Node

/-- The events of the registered jobs. -/
def awaiting (n : Node) : List Queued := n.jobs.flatMap Job.queued

/-- A job for markers has no event. -/
theorem takeMarkers_awaiting (env : Env) (n : Node) (registered : Bool) :
    (n.takeMarkers env registered).awaiting = n.awaiting := by
  change (n.jobs ++ ((flushMarkers env n.st registered).2.map Job.markers).toList).flatMap Job.queued = n.awaiting
  rw [List.flatMap_append, awaiting]
  cases (flushMarkers env n.st registered).2 with
  | none => exact List.append_nil _
  | some job => exact List.append_nil _

/-- The events that were selected and are neither handed over nor given up. -/
def inFlight (n : Node) : List Queued := n.taken ++ n.awaiting ++ n.worker.pending ++ n.queue

/-- The notifications of a run that the callback answers for. -/
def answersFor (n : Node) : Act → Bool
  | .notify _ _ key _ _ _ _ => n.st.answersFor key
  | _ => false

/-- The steps that select or settle events. -/
def isWork : Act → Bool
  | .notify .. | .process => true
  | _ => false

section Steps

variable {setup : Setup} {env : Env} {n n' : Node}

theorem countDrain_value (st : State) (count : Nat) {c : Counter} (hc : c ∉ drainCounters) :
    (countDrain st count).value c = st.value c := by
  simp only [drainCounters, List.mem_cons, List.not_mem_nil, or_false, not_or] at hc
  unfold countDrain
  simp only
  split
  · rfl
  · simp [State.value, State.charge, hc]

theorem cron_counters (env : Env) (n : Node) : (n.cron env).st.counters = n.st.counters := by
  unfold cron
  simp only
  split
  · rfl
  split
  · rfl
  · have h₀ : { n.st with lastCheckpointMs := env.nowMs n.st.clock }.counters = n.st.counters := rfl
    generalize { n.st with lastCheckpointMs := env.nowMs n.st.clock } = st at h₀
    unfold checkpointTick
    split
    · exact h₀
    · have ht := tagSegment_counters env st
      cases hs : tagSegment env st with
      | mk seg st₁ =>
        rw [hs] at ht
        cases seg with
        | none => exact ht.trans h₀
        | some seg => exact ht.trans h₀

theorem lockWorker_value (n : Node) (snapshot : Option EnvelopeSnapshot) {c : Counter} (hc : c ∉ drainCounters) :
    (n.lockWorker setup snapshot).st.value c = n.st.value c := by
  unfold lockWorker
  split
  · split
    · exact countDrain_value n.st _ hc
    · rfl
  · exact countDrain_value n.st _ hc

/-- Only notifications and tasks raise counters other than those of the drains. -/
theorem step_value {act : Act} (h : step setup env n act = some n') (hw : isWork act = false) {c : Counter}
    (hc : c ∉ drainCounters) : n'.st.value c = n.st.value c := by
  have hsame : ∀ {st : State}, st.counters = n.st.counters → st.value c = n.st.value c := fun e => by
    rw [State.value, State.value, e]
  cases step_fires h with
  | acquire | release | started | wake | prepare | unlock | stopSync | requestStop | finish | stopWaiting | stopSpinning
  | join => rfl
  | notify | process => cases hw
  | command _ hop => exact hsame (command_counters env n.st hop)
  | setEnabled _ => exact hsame (enabledChanged_resettled n.st _).counters
  | configure _ _ => rfl
  | cron _ _ => exact hsame (cron_counters env n)
  | @runJob job jobs _ _ _ _ =>
    cases job with
    | event q => rfl
    | fallback q => exact countDrain_value n.st _ hc
    | markers job => exact hsame (tagSegment_counters env n.st)
  | notStarted _ =>
    simp only [drainCounters, List.mem_cons, List.not_mem_nil, or_false, not_or] at hc
    simp [exitWorker, note, State.value, State.charge, hc]
  | lock _ _ => exact lockWorker_value n _ hc

/-- Only notifications dispatch events or give them up. -/
theorem step_idle {act : Act} (h : step setup env n act = some n') (hw : isWork act = false) :
    n'.dispatched = n.dispatched ∧ n'.lost = n.lost := by
  cases step_fires h with
  | notify | process => cases hw
  | cron _ _ =>
    rcases cron_ticked env n with e | ⟨st, -, e⟩ | ⟨-, st, control, retention, -, -, -, -, e⟩
    all_goals
      rw [e]
      exact ⟨rfl, rfl⟩
  | @runJob job jobs _ _ _ _ =>
    cases job with
    | event q | fallback q | markers job => exact ⟨rfl, rfl⟩
  | @lock snapshot _ _ =>
    cases snapshot with
    | none => exact ⟨rfl, rfl⟩
    | some snapshot =>
      simp only [lockWorker]
      split <;> exact ⟨rfl, rfl⟩
  | acquire | release | command | setEnabled | configure | started | notStarted | wake | prepare | unlock | stopWaiting
  | stopSpinning | stopSync | requestStop | join | finish => exact ⟨rfl, rfl⟩

/-- A step hands over the events of the task it processes. -/
theorem step_handed {act : Act} (h : step setup env n act = some n') :
    n'.handed = n.handed ++ (n.processed act).flatMap Task.queued := by
  rw [handed_eq, handed_eq, step_tasksDone h, List.flatMap_append]

/-! ## Notifications -/

/-- What the dispatch of an event counts. -/
theorem dispatchPendingEvent_counts (setup : Setup) (env : Env) (n : Node) (event : PendingEvent)
    (contended registered : Bool) :
    let n' := dispatchPendingEvent setup env n event contended registered
    n'.st.skipped = n.st.skipped ∧ n'.st.value .forwarded = n.st.value .forwarded ∧
      n'.st.value .eventsLost + n.lost.length = n.st.value .eventsLost + n'.lost.length ∧
      n'.dispatched.length = n.dispatched.length + 1 := by
  have hlose : ∀ {m : Node} (q : Queued), m.st.skipped = n.st.skipped → m.st.value .forwarded = n.st.value .forwarded →
      m.st.value .eventsLost = n.st.value .eventsLost → m.lost = n.lost →
      m.dispatched.length = n.dispatched.length + 1 →
      let n' := { m.note none (countDeferFailure env m.st) with lost := m.lost ++ [q] }
      n'.st.skipped = n.st.skipped ∧ n'.st.value .forwarded = n.st.value .forwarded ∧
        n'.st.value .eventsLost + n.lost.length = n.st.value .eventsLost + n'.lost.length ∧
        n'.dispatched.length = n.dispatched.length + 1 := by
    intro m q hs hf hl hlost hd
    refine ⟨hs, hf, ?_, hd⟩
    have hval : (countDeferFailure env m.st).value .eventsLost = m.st.value .eventsLost + 1 := rfl
    simp only [note_st, hval, hl, hlost, List.length_append, List.length_singleton]
    omega
  have hlength : ∀ q : Queued, (n.dispatched ++ [q]).length = n.dispatched.length + 1 := fun _ => List.length_append
  unfold dispatchPendingEvent deferPendingEvent deferOrderedFallback
  simp only
  split
  · split
    · exact ⟨rfl, rfl, rfl, hlength _⟩
    · exact hlose _ rfl rfl rfl rfl (hlength _)
  split
  · split
    · exact ⟨rfl, rfl, rfl, hlength _⟩
    · exact hlose _ rfl rfl rfl rfl (hlength _)
  split
  · exact ⟨rfl, rfl, rfl, hlength _⟩
  · split
    · exact ⟨rfl, rfl, rfl, hlength _⟩
    · exact hlose _ rfl rfl rfl rfl (hlength _)

/-- What a notification counts: a skip or a dispatch for one that the callback answers for. -/
theorem onKeyspaceEvent_counts (setup : Setup) (env : Env) (n : Node) (cls : NotifyEvent) (event : Str) (key : Bytes)
    (db : Int32) (contended registered markersRegistered : Bool) :
    let n' := n.onKeyspaceEvent setup env cls event key db contended registered markersRegistered
    n'.st.skipped + n'.dispatched.length = n.st.skipped + n.dispatched.length + (if n.st.answersFor key then 1 else 0) ∧
      n'.st.value .forwarded = n.st.value .forwarded ∧
      n'.st.value .eventsLost + n.lost.length = n.st.value .eventsLost + n'.lost.length := by
  have hvalue : ∀ c, c ≠ .droppedDeferError → (n.takeMarkers env markersRegistered).st.value c = n.st.value c :=
    fun c hc => flushMarkers_value env n.st markersRegistered hc
  have hskip : (n.takeMarkers env markersRegistered).st.skipped = n.st.skipped := by
    refine State.skipped_congr fun c hc => hvalue c ?_
    rintro rfl
    revert hc
    decide
  have hanswers : (n.takeMarkers env markersRegistered).st.answersFor key = n.st.answersFor key := by
    have h := flushMarkers_flushed env n.st markersRegistered
    change (flushMarkers env n.st markersRegistered).1.answersFor key = _
    generalize flushMarkers env n.st markersRegistered = r at h
    cases h with
    | kept | empty | deferred => rfl
    | dropped _ _ =>
      simp only [dropMarkers]
      split <;> rfl
  have hlost : (n.takeMarkers env markersRegistered).lost = n.lost := rfl
  have hdispatched : (n.takeMarkers env markersRegistered).dispatched = n.dispatched := rfl
  have hf := hvalue .forwarded (by decide)
  have hl := hvalue .eventsLost (by decide)
  unfold onKeyspaceEvent
  simp only
  generalize n.takeMarkers env markersRegistered = n₁ at hskip hanswers hlost hdispatched hf hl
  rcases selectEvent_answers n₁.st cls event key db with ⟨ha, e⟩ | ⟨ha, c, hc, e⟩ | ⟨ha, event, e⟩
  · rw [e, ← hanswers, ha, if_neg Bool.false_ne_true]
    refine ⟨?_, hf, ?_⟩
    · simp only [note_st, hskip]
      change n.st.skipped + n₁.dispatched.length = _
      rw [hdispatched, Nat.add_zero]
    · change n₁.st.value .eventsLost + _ = _ + n₁.lost.length
      rw [hl, hlost]
  · rw [e, ← hanswers, ha, if_pos rfl]
    have hne : c ≠ .forwarded ∧ c ≠ .eventsLost := by
      refine ⟨?_, ?_⟩ <;> rintro rfl <;> revert hc <;> decide
    refine ⟨?_, ?_, ?_⟩
    · simp only [note_st, skipped_charge n₁.st hc, hskip]
      change n.st.skipped + 1 + n₁.dispatched.length = _
      rw [hdispatched]
      omega
    · exact (if_neg hne.1.symm).trans hf
    · have hval : (n₁.st.charge .dispatch c 1).value .eventsLost = n₁.st.value .eventsLost := if_neg hne.2.symm
      change (n₁.st.charge .dispatch c 1).value .eventsLost + _ = _ + n₁.lost.length
      rw [hval, hl, hlost]
  · rw [e, ← hanswers, ha, if_pos rfl]
    obtain ⟨hs', hf', hl', hd'⟩ := dispatchPendingEvent_counts setup env
      (n₁.note none { n₁.st with selected := n₁.st.selected + 1 }) event contended registered
    refine ⟨?_, hf'.trans hf, ?_⟩
    · rw [hs', hd']
      change n₁.st.skipped + (n₁.dispatched.length + 1) = _
      rw [hskip, hdispatched, Nat.add_assoc]
    · have hkeep : (n₁.note none { n₁.st with selected := n₁.st.selected + 1 }).lost = n.lost := hlost
      have hval : (n₁.note none { n₁.st with selected := n₁.st.selected + 1 }).st.value .eventsLost =
        n.st.value .eventsLost := hl
      rw [hkeep, hval] at hl'
      exact hl'

/-! ## Steps -/

/-- A step skips or dispatches what it answers for. -/
theorem step_answers {act : Act} (h : step setup env n act = some n') :
    n'.st.skipped + n'.dispatched.length = n.st.skipped + n.dispatched.length +
      (if n.answersFor act then 1 else 0) := by
  cases hwork : isWork act with
  | false =>
    have hskip : n'.st.skipped = n.st.skipped := by
      refine State.skipped_congr fun c hc => step_value h hwork ?_
      simp only [gateCounters, List.mem_cons, List.not_mem_nil, or_false] at hc
      rcases hc with rfl | rfl | rfl | rfl | rfl <;> decide
    have hanswers : n.answersFor act = false := by
      cases act with
      | notify => cases hwork
      | _ => rfl
    rw [hskip, hanswers, if_neg Bool.false_ne_true, Nat.add_zero, (step_idle h hwork).1]
  | true =>
    cases step_fires h with
    | notify _ => exact (onKeyspaceEvent_counts setup env n _ _ _ _ _ _ _).1
    | @process task todo _ =>
      change (task.run env n.st).skipped + n.dispatched.length = _
      rw [Task.run_skipped]
      rfl
    | _ => cases hwork

/-- What is forwarded and lost is what was handed over and given up. -/
theorem step_settles {act : Act} (h : step setup env n act = some n') :
    n'.st.value .forwarded + n'.st.value .eventsLost + n.handed.length + n.lost.length =
      n.st.value .forwarded + n.st.value .eventsLost + n'.handed.length + n'.lost.length := by
  have hh := step_handed h
  cases hwork : isWork act with
  | false =>
    have hnone : n.processed act = [] := by
      cases act with
      | process => cases hwork
      | _ => rfl
    rw [hnone] at hh
    rw [step_value h hwork (c := .forwarded) (by decide), step_value h hwork (c := .eventsLost) (by decide), hh,
      (step_idle h hwork).2]
    simp
  | true =>
    cases step_fires h with
    | @notify cls event key db contended registered markersRegistered _ =>
      obtain ⟨-, hf, hl⟩ := onKeyspaceEvent_counts setup env n cls event key db contended registered
        markersRegistered
      simp only [processed, List.flatMap_nil, List.append_nil] at hh
      rw [hf, hh]
      omega
    | @process task todo ht =>
      simp only [processed, ht, List.head?_cons, Option.toList_some, List.flatMap_singleton] at hh
      rw [hh, List.length_append]
      have hs := Task.run_settles env n.st task
      have hlost : (n.note (some task) (task.run env n.st)).lost = n.lost := rfl
      simp only [note_st, hlost]
      omega
    | _ => cases hwork

/-! ## Runs -/

/-- The runs from a load with the number of notifications that the callback answers for. -/
abbrev Notified (setup : Setup) (env : Env) : Nat → Node → Prop :=
  Machine.Counted (fun n act n' => step setup env n act = some n') (fun _ _ => True) (Loaded setup env) answersFor

theorem loaded_zero (h : Loaded setup env n) :
    (∀ c, n.st.value c = 0) ∧ n.dispatched = [] ∧ n.history = [] ∧ n.lost = [] := by
  obtain ⟨config, host, ks, generation, master, loading, mode, -, rfl⟩ := h
  obtain ⟨_, _, _, hst⟩ := loadedState_eq env config host.cluster ks generation master loading
  rw [hst]
  exact ⟨fun _ => rfl, rfl, rfl, rfl⟩

theorem loaded_skipped (h : Loaded setup env n) : n.st.skipped = 0 := by
  rw [State.skipped, gateCounters]
  simp [(loaded_zero h).1]

theorem Notified.answered {k : Nat} (h : Notified setup env k n) : k = n.st.skipped + n.dispatched.length := by
  refine Machine.Counted.invariant (I := fun k n => k = n.st.skipped + n.dispatched.length) (fun n hl => ?_)
    (fun k n act n' _ _ hs ih => ?_) h
  · rw [loaded_skipped hl, (loaded_zero hl).2.1]
    rfl
  · rw [step_answers hs, ih]

theorem Reach.settledEvents {allowed : Node → Act → Prop} (h : Reach setup env allowed n) :
    n.st.value .forwarded + n.st.value .eventsLost = n.handed.length + n.lost.length := by
  refine Machine.Reach.invariant
    (I := fun n => n.st.value .forwarded + n.st.value .eventsLost = n.handed.length + n.lost.length) (fun n hl => ?_)
    (fun n act n' _ _ hs ih => ?_) h
  · obtain ⟨hv, -, hh, hlost⟩ := loaded_zero hl
    rw [hv, hv, hlost, handed, hh]
    rfl
  · have hstep := step_settles hs
    omega

/-- Every dispatched event was handed over or given up, or is in flight. -/
theorem Reach.placed {allowed : Node → Act → Prop} (h : Reach setup env allowed n) :
    (n.handed ++ n.inFlight ++ n.lost).Perm n.dispatched := by
  have hruns := h.view_runs (Q := fun _ _ => True) (fun _ _ _ => trivial) fun _ _ _ _ _ _ => trivial
  have hpool := hruns.pooled
  have hjobs : Lanes.events (Lanes.jobItems (n.view setup).jobs) = n.awaiting := by
    simp only [view, awaiting, Lanes.jobItems, Lanes.events, List.flatMap_map, List.filterMap_flatMap]
    congr 1
    funext job
    cases job with
    | event q | fallback q => rfl
    | markers job => exact Lanes.events_map_mark job.markers
  rw [Lanes.pool, events_done, events_taken, hjobs] at hpool
  have hlists : n.handed ++ n.inFlight ++ n.lost =
      n.handed ++ (n.taken ++
        (n.awaiting ++ ((n.view setup).returned ++ ((n.view setup).queue ++ (n.view setup).lost)))) := by
    simp [inFlight, view]
  rw [hlists]
  exact hpool

/-! ## The end of a run -/

/-- Once a stop has begun no event waits for a job; after the join there is no worker; and in the end nothing is taken.
-/
structure Halted (n : Node) : Prop where
  awaiting : n.phase ≠ .running → n.awaiting = []
  worker : n.phase = .finishing ∨ n.phase = .stopped → n.worker = .joined ∨ n.worker = .absent
  taken : n.phase = .stopped → n.taken = []

theorem Halted.of_running (h : n.phase = .running) : Halted n := by
  refine ⟨fun hne => absurd h hne, fun hp => ?_, fun hp => ?_⟩
  · rcases hp with hp | hp <;> rw [h] at hp <;> cases hp
  · rw [h] at hp
    cases hp

/-- A step of the worker: the main thread is still at work or waits for it. -/
theorem Halted.of_worker (hh : Halted n) (hwk : n.worker ≠ .joined ∧ n.worker ≠ .absent) (hphase : n'.phase = n.phase)
    (hjobs : n'.jobs = n.jobs) : Halted n' := by
  have hnot : ¬ (n.phase = .finishing ∨ n.phase = .stopped) := by
    intro hp
    rcases hh.worker hp with h | h
    · exact hwk.1 h
    · exact hwk.2 h
  refine ⟨fun hne => ?_, fun hp => absurd (hphase ▸ hp) hnot, fun hp => absurd (Or.inr (hphase ▸ hp)) hnot⟩
  rw [Node.awaiting, hjobs]
  exact hh.awaiting (hphase ▸ hne)

theorem step_halted {act : Act} (hw : Wf setup n) (h : step setup env n act = some n') (hh : Halted n) : Halted n' := by
  cases step_fires h with
  | acquire _ hrun => exact .of_running hrun
  | release hcmd _ | command hcmd _ | setEnabled hcmd | configure hcmd _ => exact .of_running hcmd.2.1
  | @notify cls event key db contended registered markersRegistered hmay =>
    have hsteady := step_steady hw h rfl
    rcases onKeyspaceEvent_cases env hw cls event db contended registered markersRegistered hmay with
      ⟨st, -, e⟩ | ⟨⟨-, hrun, -⟩, -, -, -, -⟩
    · -- a notification of a key of the module: it may register a job for the markers, which has no event
      rw [e]
      exact ⟨fun hne => (takeMarkers_awaiting env n markersRegistered).trans (hh.awaiting hne), hh.worker, hh.taken⟩
    · exact .of_running (hsteady.control.2.1.trans hrun)
  | cron hcmd _ =>
    rcases cron_ticked env n with e | ⟨st, -, e⟩ | ⟨-, st, control, retention, -, -, -, -, e⟩
    all_goals
      rw [e]
      exact .of_running hcmd.2.1
  | @runJob job jobs _ hrun _ _ =>
    cases job with
    | event q | fallback q | markers job => exact .of_running hrun
  | process ht =>
    refine ⟨hh.awaiting, hh.worker, fun hp => ?_⟩
    have htaken := hh.taken hp
    rw [taken, ht, List.flatMap_cons] at htaken
    exact (List.append_eq_nil_iff.1 htaken).2
  | started hwk | notStarted hwk => exact hh.of_worker (by rw [hwk]; decide) rfl rfl
  | wake hwk _ _ | prepare hwk => exact hh.of_worker (by rw [hwk]; decide) rfl rfl
  | lock hwk _ =>
    obtain ⟨-, hphase, -, hjobs⟩ := lockWorker_control setup n _
    exact hh.of_worker (by rw [hwk]; simp) hphase hjobs
  | unlock hhold _ _ => exact hh.of_worker (by rw [hw.lock.1 hhold]; decide) rfl rfl
  | stopWaiting _ hwk | stopSpinning _ hwk => exact hh.of_worker (by rw [hwk]; simp) rfl rfl
  | stopSync hcmd hjobs hsync =>
    have habsent := hw.absent ((hw.mode hcmd.2.1).symm.trans hsync)
    refine ⟨fun _ => ?_, fun _ => Or.inr habsent, fun _ => ?_⟩
    · rw [Node.awaiting, hjobs]
      rfl
    · rw [taken, hcmd.2.2]
      rfl
  | requestStop _ hjobs _ =>
    refine ⟨fun _ => ?_, fun hp => ?_, fun hp => ?_⟩
    · rw [Node.awaiting, hjobs]
      rfl
    · rcases hp with hp | hp <;> cases hp
    · cases hp
  | join hjoin _ =>
    refine ⟨fun _ => hh.awaiting (by rw [hjoin]; decide), fun _ => Or.inl rfl, fun hp => by cases hp⟩
  | finish hfin htodo =>
    refine ⟨fun _ => hh.awaiting (by rw [hfin]; decide), fun _ => hh.worker (Or.inl hfin), fun _ => ?_⟩
    rw [taken, htodo]
    rfl

theorem Reach.halted {allowed : Node → Act → Prop} (h : Reach setup env allowed n) : Halted n := by
  refine Machine.Reach.invariant (fun n hl => ?_) (fun _ _ _ hr _ hs hh => step_halted (Reach.wf hr) hs hh) h
  obtain ⟨config, host, ks, generation, master, loading, mode, -, rfl⟩ := hl
  exact .of_running rfl

theorem Reach.stopped_inFlight {allowed : Node → Act → Prop} (h : Reach setup env allowed n)
    (hstop : n.phase = .stopped) : n.inFlight = n.queue := by
  have hh := h.halted
  have hpending : n.worker.pending = [] := by
    rcases hh.worker (Or.inr hstop) with hwk | hwk <;> rw [hwk] <;> rfl
  rw [inFlight, hh.taken hstop, hh.awaiting (by rw [hstop]; decide), hpending]
  rfl

end Steps

/-! ## The balance -/

/-- **Every notification is accounted for.** In every run from a load, whatever the mode, the commands, the replies of
the server and the interleaving of the threads, the notifications that the callback answers for are those it skipped and
counted, those forwarded, those lost, and those still in flight; and each dispatched event is at one of these places.
After a stop only the queue can hold events. -/
theorem notifications_accounted (setup : Setup) (env : Env) (k : Nat) (n : Node) (h : Notified setup env k n) :
    k = n.st.skipped + n.st.value .forwarded + n.st.value .eventsLost + n.inFlight.length ∧
      (n.handed ++ n.inFlight ++ n.lost).Perm n.dispatched ∧ (n.phase = .stopped → n.inFlight = n.queue) := by
  have hreach := h.reach
  have hplaced := Reach.placed hreach
  refine ⟨?_, hplaced, Reach.stopped_inFlight hreach⟩
  have hk := h.answered
  have hsettled := Reach.settledEvents hreach
  have hlength := hplaced.length_eq
  simp only [List.length_append] at hlength
  omega

/-- Two events and a key of the module, with a queue of one event: one event is forwarded, the fallback of the other is
still registered. -/
def halfway : List Act :=
  [.workerStart true, expire [97], .runJob, .process, expire (utf8 "events:expired".toList), .release, .workerWake,
    .workerPrepare, .workerLock, .process, .workerUnlock, .acquire, expire [98], expire [99]]

theorem notifications_accounted_halfway :
    ∃ n, Machine.run (step narrow .calm) (fun _ _ => True) narrowLoad halfway = some n ∧
    n.st.skipped = 1 ∧ n.st.value .forwarded = 1 ∧ n.inFlight.map Queued.id = [2, 1] ∧
    4 = n.st.skipped + n.st.value .forwarded + n.st.value .eventsLost + n.inFlight.length := by
  have hrun : (Machine.run (step narrow .calm) (fun _ _ => True) narrowLoad halfway).map
      (fun n => (n.st.skipped, n.st.value .forwarded, n.inFlight.map Queued.id)) =
        some (1, 1, [2, 1]) := by decide +kernel
  obtain ⟨n, hn, hids⟩ := Option.map_eq_some_iff.1 hrun
  obtain ⟨hs, hids⟩ := Prod.mk.inj hids
  obtain ⟨hf, hq⟩ := Prod.mk.inj hids
  have htally : Machine.tally (step narrow .calm) answersFor narrowLoad halfway = 4 := by decide +kernel
  have hcounted := Machine.counted_of_run (p := answersFor) (.start narrowLoad_loaded) hn
  rw [htally, Nat.zero_add] at hcounted
  exact ⟨n, hn, hs, hf, hq, (notifications_accounted narrow .calm 4 n hcounted).1⟩

end Node

end EventStream

import EventStream.Deeds
import EventStream.Node

/-!
# What a step does to the statics

A step of a node runs a command, processes a task, changes a setting, or does nothing to the statics but count, probe
and move pending markers. `Turn` says which, and `step_turn` says that there is nothing else. A task is a trail of deeds
whose calls are the task's own (`Task.run_trail`). Commands and settings leave the sequence counter, the cached tags and
what is fixed at load (`fixtures`).
-/

namespace EventStream

open Text (Str Bytes utf8)

/-- The call of an ownership probe. -/
def ProbeCall (why : Purpose) (cmd : Command) : Prop := why = .probe ∧ ∃ tag, cmd = probeCommand tag

theorem probeCall_allowsProbes : AllowsProbes ProbeCall := fun tag => ⟨rfl, tag, rfl⟩

/-! ## Tasks -/

namespace Task

/-- The calls a task may make. -/
def Calls (st : State) : Task → Purpose → Command → Prop
  | event q => EventCall q.event (entrySpec q.event (numberOf st q.event))
  | envelope qs fields => fun why cmd => ProbeCall why cmd ∨
      ∃ q ∈ qs.head?, ∃ seg, IsSegment seg ∧ why = .canonical ∧ MirrorCall q.event.pfx seg q.event.suffix fields cmd
  | marker control _ _ => fun why cmd => why = .marker ∧ ∃ trim fields, cmd = .xadd (utf8 control) false trim fields
  | noSlot _ => fun _ _ => False
  | checkpoint control _ => fun why cmd =>
      why = .checkpoint ∧ ∃ trim fields, cmd = .xadd (utf8 control) false trim fields

def budget : Task → Budget
  | event _ => .event
  | envelope _ _ => .select + .mirror .canonical true
  | marker _ _ _ => .xadd .marker true
  | noSlot _ => .none
  | checkpoint _ _ => .xadd .checkpoint true

theorem run_trail (env : Env) (st : State) (t : Task) : Trail env (t.Calls st) t.budget st (t.run env st) := by
  cases t with
  | event q =>
    cases h : reachesWrite env st with
    | true => exact (processPendingEvent_placed env st q.event h).1
    | false =>
      refine ((processPendingEvent_unplaced env st q.event h).weaken ?_).mono ?_
      · rintro why cmd ⟨rfl, tag, rfl⟩
        exact .probe tag
      · intro x
        have hx := Budget.parts_le_event false x
        simp only [Pi.add_apply] at hx
        have hbud : budget (.event q) x = Budget.event x := rfl
        omega
  | envelope qs fields =>
    refine processPendingEnvelope_trail env st (fun tag => Or.inl ⟨rfl, tag, rfl⟩) _ fields ?_
    intro first hfirst seg cmd hseg hm
    rw [List.head?_map, Option.mem_def, Option.map_eq_some_iff] at hfirst
    obtain ⟨q, hq, rfl⟩ := hfirst
    exact Or.inr ⟨q, hq, seg, hseg, rfl, hm⟩
  | marker control retention m =>
    exact writeMarker_trail env st control (fun trim fields => ⟨rfl, trim, fields, rfl⟩) _ _ retention
  | noSlot m => exact noSlotDrop_trail st .marker false
  | checkpoint control retention =>
    exact writeCheckpoint_trail env st control (fun trim fields => ⟨rfl, trim, fields, rfl⟩) retention

end Task

/-! ## Notifications -/

section Notifications

variable {env : Env} {P : Purpose → Command → Prop} {b : Budget}

theorem dropMarkers_trail (st : State) : Trail env P b st (dropMarkers env st) := by
  have htake : Trail env P .none st { st with pendingMarkers := [], markersDirty := false } :=
    .of_still ⟨rfl, rfl, rfl, rfl, rfl, rfl, rfl, rfl⟩
  unfold dropMarkers
  simp only
  split
  · exact ((drop_trail _ .marker _ _ (Or.inl rfl)).after htake).before (charge_trail _ .marker _ rfl)
  · exact (drop_trail _ .marker _ _ (Or.inl rfl)).after htake

theorem flushMarkers_trail (st : State) (registered : Bool) : Trail env P b st (flushMarkers env st registered).1 := by
  have h := flushMarkers_flushed env st registered
  generalize flushMarkers env st registered = r at h
  cases h with
  | kept _ => exact .refl st
  | empty _ | deferred _ _ => exact .of_still ⟨rfl, rfl, rfl, rfl, rfl, rfl, rfl, rfl⟩
  | dropped _ _ => exact dropMarkers_trail st

theorem gateCounters_side : ∀ c ∈ gateCounters, c.isSide = true := by decide

theorem selectEvent_trail (st : State) (cls : NotifyEvent) (event : Str) (key : Bytes) (db : Int32) :
    Trail env P b st (selectEvent st cls event key db).1 := by
  have h := selectEvent_gated st cls event key db
  generalize selectEvent st cls event key db = r at h
  cases h with
  | passedOver => exact .refl st
  | skipped hc => exact charge_trail st .dispatch 1 (gateCounters_side _ hc)
  | selected _ _ => exact .of_still ⟨rfl, rfl, rfl, rfl, rfl, rfl, rfl, rfl⟩

theorem countDeferFailure_trail (st : State) : Trail env P b st (countDeferFailure env st) :=
  eventsLost_trail st .dispatch 1 _ _ (Or.inl rfl)

theorem countDrain_trail (st : State) (count : Nat) : Trail env P b st (Node.countDrain st count) := by
  have h : Trail env P .none st { st with asyncQueueDepth := st.asyncQueueDepth - count } :=
    .of_still ⟨rfl, rfl, rfl, rfl, rfl, rfl, rfl, rfl⟩
  unfold Node.countDrain
  simp only
  split
  · exact Trail.after (.refl _) h
  · exact ((charge_trail _ .dispatch count rfl).after (charge_trail _ .dispatch 1 rfl)).after h

end Notifications

namespace Node

variable {setup : Setup} {env : Env} {P : Purpose → Command → Prop} {b : Budget} {n n' : Node}

@[simp] theorem note_st (n : Node) (task : Option Task) (st : State) : (n.note task st).st = st := rfl

theorem deferPendingEvent_trail (n : Node) (q : Queued) (registered : Bool) :
    Trail env P b n.st (n.deferPendingEvent env q registered).st := by
  unfold deferPendingEvent
  split
  · exact .refl _
  · exact countDeferFailure_trail n.st

theorem deferOrderedFallback_trail (n : Node) (q : Queued) (registered : Bool) :
    Trail env P b n.st (n.deferOrderedFallback env q registered).st := by
  unfold deferOrderedFallback
  split
  · exact .refl _
  · exact countDeferFailure_trail n.st

theorem countEnqueued_trail (st : State) (depth : Nat) : Trail env P b st (countEnqueued st depth) := by
  have h : Trail env P b st (st.charge .dispatch .asyncEnqueued 1) := charge_trail st .dispatch 1 rfl
  exact h.before (.of_still ⟨rfl, rfl, rfl, rfl, rfl, rfl, rfl, rfl⟩)

theorem dispatchPendingEvent_trail (n : Node) (event : PendingEvent) (contended registered : Bool) :
    Trail env P b n.st (n.dispatchPendingEvent setup env event contended registered).st := by
  have hlane : ∀ (m : Node) (q : Queued), Trail env P b m.st (m.deferPendingEvent env q registered).st ∧
      Trail env P b m.st (m.deferOrderedFallback env q registered).st := fun m q =>
    ⟨deferPendingEvent_trail m q registered, deferOrderedFallback_trail m q registered⟩
  have hcount : Trail env P .none n.st (n.st.charge .dispatch .asyncFallbacks 1) := charge_trail n.st .dispatch 1 rfl
  unfold dispatchPendingEvent
  simp only
  split
  · exact (hlane { n with dispatched := n.dispatched ++ [⟨n.dispatched.length, event⟩] } _).1
  split
  · exact (hlane _ _).1.after hcount
  · split
    · exact countEnqueued_trail n.st _
    · exact (hlane _ _).2.after hcount

theorem onKeyspaceEvent_trail (n : Node) (cls : NotifyEvent) (event : Str) (key : Bytes) (db : Int32)
    (contended registered markersRegistered : Bool) :
    Trail env P b n.st (n.onKeyspaceEvent setup env cls event key db contended registered markersRegistered).st := by
  unfold onKeyspaceEvent
  have h₁ : Trail env P .none n.st (n.takeMarkers env markersRegistered).st := flushMarkers_trail n.st markersRegistered
  simp only
  generalize n.takeMarkers env markersRegistered = n₁ at h₁
  have h₂ : Trail env P .none n₁.st (selectEvent n₁.st cls event key db).1 := selectEvent_trail n₁.st cls event key db
  split
  · exact (Trail.after (.refl _) h₂).after h₁
  · exact ((dispatchPendingEvent_trail _ _ contended registered).after h₂).after h₁

/-! ## Jobs, the cron and the worker -/

theorem startJob_trail (n : Node) (job : Job) : Trail env ProbeCall .select n.st (n.startJob env job).st := by
  cases job with
  | event q => exact .refl _
  | fallback q => exact countDrain_trail n.st _
  | markers job => exact tagSegment_trail env n.st probeCall_allowsProbes

theorem cron_trail (n : Node) : Trail env ProbeCall .select n.st (n.cron env).st := by
  unfold cron
  simp only
  split
  · exact .refl _
  split
  · exact .refl _
  · have h₀ : Trail env ProbeCall .none n.st { n.st with lastCheckpointMs := env.nowMs n.st.clock } :=
      .of_still ⟨rfl, rfl, rfl, rfl, rfl, rfl, rfl, rfl⟩
    refine Trail.after ?_ h₀
    generalize { n.st with lastCheckpointMs := env.nowMs n.st.clock } = st
    unfold checkpointTick
    split
    · exact .refl _
    · have ht := tagSegment_trail env st probeCall_allowsProbes
      cases hs : tagSegment env st with
      | mk seg st₁ =>
        rw [hs] at ht
        cases seg with
        | none => exact ht
        | some seg => exact ht.before (.of_still ⟨rfl, rfl, rfl, rfl, rfl, rfl, rfl, rfl⟩)

theorem exitWorker_trail (n : Node) : Trail env P b n.st n.exitWorker.st :=
  .of_still ⟨rfl, rfl, rfl, rfl, rfl, rfl, rfl, rfl⟩

theorem lockWorker_trail (n : Node) (snapshot : Option EnvelopeSnapshot) :
    Trail env P b n.st (n.lockWorker setup snapshot).st := by
  cases snapshot with
  | none => exact countDrain_trail n.st _
  | some snapshot =>
    unfold lockWorker
    simp only
    split
    · exact countDrain_trail n.st _
    · exact .refl _

/-! ## Steps -/

/-- What a setting leaves alone: everything but the configuration, the log and the pending markers. -/
structure Resettled (st st' : State) : Prop where
  counters : st'.counters = st.counters
  streamStats : st'.streamStats = st.streamStats
  keyspace : st'.keyspace = st.keyspace
  trace : st'.trace = st.trace
  seq : st'.seq = st.seq
  tags : st'.nodeTag = st.nodeTag ∧ st'.probeVerifiedTag = st.probeVerifiedTag
  fixed : st'.config.pfx = st.config.pfx ∧ st'.config.perNode = st.config.perNode ∧
    st'.config.entrySeq = st.config.entrySeq

/-- What neither a command nor a setting changes: the sequence counter, the cached tags and what is fixed at load. -/
def fixtures (st : State) : Nat × Option Str × Option Str × Str × Bool × Bool :=
  (st.seq, st.nodeTag, st.probeVerifiedTag, st.config.pfx, st.config.perNode, st.config.entrySeq)

theorem Resettled.fixtures {st st' : State} (h : Resettled st st') : Node.fixtures st' = Node.fixtures st := by
  rw [Node.fixtures, Node.fixtures, h.seq, h.tags.1, h.tags.2, h.fixed.1, h.fixed.2.1, h.fixed.2.2]

theorem cmdPrune_fixtures (env : Env) (st : State) : fixtures (cmdPrune env st).2 = fixtures st := by
  refine cmdPrune_parts (I := fun s => fixtures s = fixtures st) (fun _ h => h) ?_ ?_ rfl
  · intro a b registry name r hcall h
    obtain ⟨_, _, _, rfl⟩ := call_rest hcall
    exact h
  · intro a name h
    unfold forgetStream
    simp only
    split <;> exact h

theorem command_fixtures (env : Env) (st : State) {op : Op} (h : isCommand op = true) :
    fixtures (op.apply env st) = fixtures st := by
  cases op with
  | flush dbnum =>
    simp only [Op.apply, flushCommand, onFlushStarted]
    split <;> rfl
  | swapdb first second =>
    simp only [Op.apply, swapCommand, onSwapdb]
    split
    · rfl
    · split <;> rfl
  | prune => exact cmdPrune_fixtures env st
  | setAutoGroup name =>
    simp only [Op.apply, EventStream.setAutoGroup]
    split <;> rfl
  | setFirehose on | role master loading | client db key obj => rfl
  | process h' | marker control action db retention | checkpoint control retention | reset perNode => cases h

/-- What a command records: the removals of a prune, and the ends of records. -/
def isUpkeep : Occurrence → Bool
  | .call why (.srem _ _) _ => why = .prune
  | .call _ _ _ => false
  | .cleared | .pruned _ => true

theorem removal_of_upkeep {why : Purpose} {cmd : Command} {ok : Bool} (h : isUpkeep (.call why cmd ok) = true) :
    why = .prune ∧ ∃ key member, cmd = .srem key member := by
  cases cmd with
  | srem key member => exact ⟨of_decide_eq_true h, key, member, rfl⟩
  | xadd _ _ _ _ | sadd _ _ | xgroupCreate _ _ => cases h

theorem cmdPrune_trace (env : Env) (st : State) :
    ∃ upkeep, (cmdPrune env st).2.trace = st.trace ++ upkeep ∧ ∀ o ∈ upkeep, isUpkeep o = true := by
  have hmore : ∀ {a b : State} {o : Occurrence}, b.trace = a.trace ++ [o] → isUpkeep o = true →
      (∃ upkeep, a.trace = st.trace ++ upkeep ∧ ∀ o ∈ upkeep, isUpkeep o = true) →
      ∃ upkeep, b.trace = st.trace ++ upkeep ∧ ∀ o ∈ upkeep, isUpkeep o = true := by
    rintro a b o hb ho ⟨upkeep, htrace, hall⟩
    refine ⟨upkeep ++ [o], by rw [hb, htrace, List.append_assoc], fun x hx => ?_⟩
    rcases List.mem_append.1 hx with hx | hx
    · exact hall x hx
    · rw [List.mem_singleton.1 hx]
      exact ho
  refine cmdPrune_parts (I := fun s => ∃ upkeep, s.trace = st.trace ++ upkeep ∧ ∀ o ∈ upkeep, isUpkeep o = true)
    (fun _ h => h) ?_ ?_ ⟨[], by simp, by simp⟩
  · intro a b registry name r hcall h
    exact hmore (Does.call _ _ _ _ hcall fun h => by cases h).trace rfl h
  · intro a name h
    have hforget : (forgetStream a name).trace = a.trace ++ [.pruned name] := by
      unfold forgetStream
      simp only
      split <;> rfl
    exact hmore hforget rfl h

theorem command_trace (env : Env) (st : State) {op : Op} (h : isCommand op = true) :
    ∃ upkeep, (op.apply env st).trace = st.trace ++ upkeep ∧ ∀ o ∈ upkeep, isUpkeep o = true := by
  have hnone : ∀ {st' : State}, st'.trace = st.trace →
      ∃ upkeep, st'.trace = st.trace ++ upkeep ∧ ∀ o ∈ upkeep, isUpkeep o = true := fun e => ⟨[], by simp [e], by simp⟩
  have hclear : ∀ {st' : State}, st'.trace = st.trace ++ [.cleared] →
      ∃ upkeep, st'.trace = st.trace ++ upkeep ∧ ∀ o ∈ upkeep, isUpkeep o = true := fun e => ⟨_, e, by simp [isUpkeep]⟩
  cases op with
  | flush dbnum =>
    refine hclear ?_
    simp only [Op.apply, flushCommand, onFlushStarted]
    split <;> rfl
  | swapdb first second =>
    simp only [Op.apply, swapCommand, onSwapdb]
    split
    · exact hnone rfl
    split
    · exact hnone rfl
    · exact hclear rfl
  | prune => exact cmdPrune_trace env st
  | setAutoGroup name =>
    refine hnone ?_
    simp only [Op.apply, EventStream.setAutoGroup]
    split <;> rfl
  | setFirehose on | role master loading | client db key obj => exact hnone rfl
  | process h' | marker control action db retention | checkpoint control retention | reset perNode => cases h

/-- The steps that set a parameter. -/
def isSetting : Act → Bool
  | .setEnabled _ | .configure _ => true
  | _ => false

/-- What a step does to the statics. -/
inductive Turn (env : Env) (n : Node) : Act → State → Prop
  | command (op : Op) (h : isCommand op = true) : Turn env n (.command op) (op.apply env n.st)
  | process (task : Task) (todo : List Task) (h : n.todo = task :: todo) : Turn env n .process (task.run env n.st)
  | setting {act : Act} {st' : State} (ha : isSetting act = true) (h : Resettled n.st st') : Turn env n act st'
  | idle {act : Act} {st' : State} (h : Trail env ProbeCall .select n.st st') : Turn env n act st'

theorem enabledChanged_resettled (st : State) (now : Bool) : Resettled st (enabledChanged st now) := by
  unfold enabledChanged
  split
  · exact ⟨rfl, rfl, rfl, rfl, rfl, ⟨rfl, rfl⟩, rfl, rfl, rfl⟩
  · exact ⟨rfl, rfl, rfl, rfl, rfl, ⟨rfl, rfl⟩, rfl, rfl, rfl⟩

theorem configure_resettled (st : State) {config : Config} (h : mutable st.config config = true) :
    Resettled st { st with config := config } := by
  simp only [mutable, Bool.and_eq_true, decide_eq_true_eq] at h
  obtain ⟨⟨⟨⟨hp, hn⟩, hs⟩, _⟩, _⟩ := h
  exact ⟨rfl, rfl, rfl, rfl, rfl, ⟨rfl, rfl⟩, hp.symm, hn.symm, hs.symm⟩

theorem step_turn {act : Act} (h : step setup env n act = some n') : Turn env n act n'.st := by
  have hsame : ∀ {st : State}, st = n.st → Turn env n act st := fun hst => .idle (hst ▸ .refl _)
  cases step_fires h with
  | acquire | release | started | wake | prepare | unlock | stopSync | requestStop | finish => exact hsame rfl
  | notify _ => exact .idle (onKeyspaceEvent_trail n _ _ _ _ _ _ _)
  | command _ hop => exact .command _ hop
  | setEnabled _ => exact .setting rfl (enabledChanged_resettled n.st _)
  | configure _ hmut => exact .setting rfl (configure_resettled n.st hmut)
  | cron _ _ => exact .idle (cron_trail n)
  | @runJob job jobs _ _ _ _ => exact .idle (startJob_trail { n with jobs := jobs } job)
  | process ht => exact .process _ _ ht
  | notStarted _ => exact .idle ((exitWorker_trail _).after (charge_trail n.st .dispatch 1 rfl))
  | lock _ _ => exact .idle (lockWorker_trail n _)
  | stopWaiting _ _ | stopSpinning _ _ => exact .idle (exitWorker_trail n)
  | join _ _ => exact .idle (.of_still ⟨rfl, rfl, rfl, rfl, rfl, rfl, rfl, rfl⟩)

/-! ## The tasks done -/

/-- The tasks that were processed, in that order. -/
def tasksDone (n : Node) : List Task := n.history.filterMap Done.task

@[simp] theorem tasksDone_note (n : Node) (task : Option Task) (st : State) :
    (n.note task st).tasksDone = n.tasksDone ++ task.toList := by
  cases task <;> simp [tasksDone, note]

theorem dispatchPendingEvent_tasksDone (n : Node) (event : PendingEvent) (contended registered : Bool) :
    (dispatchPendingEvent setup env n event contended registered).tasksDone = n.tasksDone := by
  have hnote : ∀ (m : Node) (st : State), m.tasksDone = n.tasksDone → (m.note none st).tasksDone = n.tasksDone := by
    intro m st hm
    simpa using hm
  unfold dispatchPendingEvent deferPendingEvent deferOrderedFallback
  simp only
  split
  · split
    · rfl
    · exact hnote _ _ rfl
  split
  · split
    · exact hnote _ _ rfl
    · exact hnote _ _ (hnote _ _ rfl)
  split
  · exact hnote _ _ rfl
  · split
    · exact hnote _ _ rfl
    · exact hnote _ _ (hnote _ _ rfl)

theorem onKeyspaceEvent_tasksDone (n : Node) (cls : NotifyEvent) (event : Str) (key : Bytes) (db : Int32)
    (contended registered markersRegistered : Bool) :
    (n.onKeyspaceEvent setup env cls event key db contended registered markersRegistered).tasksDone = n.tasksDone := by
  have htake : (n.takeMarkers env markersRegistered).tasksDone = n.tasksDone :=
    (tasksDone_note n none _).trans (List.append_nil _)
  unfold onKeyspaceEvent
  simp only
  split
  · rw [tasksDone_note, htake]
    exact List.append_nil _
  · rw [dispatchPendingEvent_tasksDone, tasksDone_note, htake]
    exact List.append_nil _

/-- The task that a step processes. -/
def processed (n : Node) : Act → List Task
  | .process => n.todo.head?.toList
  | _ => []

theorem step_tasksDone {act : Act} (h : step setup env n act = some n') :
    n'.tasksDone = n.tasksDone ++ n.processed act := by
  have hnote : ∀ st : State, (n.note none st).tasksDone = n.tasksDone ++ [] := fun st => tasksDone_note n none st
  cases step_fires h with
  | acquire | release | started | wake | prepare | unlock | stopSync | requestStop | finish =>
    exact (List.append_nil _).symm
  | notify _ =>
    rw [onKeyspaceEvent_tasksDone]
    exact (List.append_nil _).symm
  | command | setEnabled | configure | stopWaiting | stopSpinning | join => exact hnote _
  | cron _ _ =>
    unfold cron
    simp only
    split
    · exact (List.append_nil _).symm
    split
    · exact (List.append_nil _).symm
    · unfold checkpointTick
      split
      · exact hnote _
      · split
        · exact hnote _
        · exact hnote _
  | @runJob job jobs _ _ _ _ =>
    cases job with
    | event q => exact (List.append_nil _).symm
    | fallback q | markers job => exact hnote _
  | process ht =>
    rw [processed, ht]
    exact tasksDone_note n (some _) _
  | notStarted _ =>
    refine (tasksDone_note (n.note none (n.st.charge .dispatch .asyncWorkerErrors 1)) none _).trans ?_
    rw [tasksDone_note]
    exact List.append_nil _
  | lock _ _ =>
    unfold lockWorker
    split
    · split
      · exact hnote _
      · exact (List.append_nil _).symm
    · exact hnote _

end Node

end EventStream

import EventStream.Fences
import EventStream.Status

/-!
# What a generation leaves in its control stream

Every control entry names the generation that wrote it. A generation opens with `loaded`: the marker is recorded by the
load, and no other control entry is attempted before it. It ends with `unloading`, which only `deinit` writes, after
everything else.

* `left`: the markers that are still to be attempted, and what a step does to them (`step_left`).
* `Opening`: what holds of the control entries along every run (`Reach.opening`).
* `ControlLog`: what a generation has written, while it runs (`Reach.controlLog`).
-/

namespace EventStream

open Text (Str Bytes utf8)

/-- The action in a control entry. -/
def Occurrence.actionText : Occurrence → Option Bytes
  | .call _ (.xadd _ _ _ (_ :: action :: _)) _ => some action
  | _ => none

/-- The call of a control entry with this action. -/
def Occurrence.isEntry (action : Action) (o : Occurrence) : Bool :=
  o.isControl && o.actionText = some (utf8 action.text)

theorem Signed.actionText {generation : Str} {action : Action} {o : Occurrence} (h : Signed generation action o) :
    o.actionText = some (utf8 action.text) := by
  obtain ⟨_, _, _, _, _, -, rfl⟩ := h
  rfl

theorem Action.text_injective {a b : Action} (h : a.text = b.text) : a = b := by
  revert h
  cases a <;> cases b <;> decide

/-- An entry has one action. -/
theorem Signed.isEntry {generation : Str} {action other : Action} {o : Occurrence} (h : Signed generation action o)
    (ho : o.isEntry other = true) : other = action := by
  rw [Occurrence.isEntry, Bool.and_eq_true, decide_eq_true_eq, h.actionText] at ho
  exact (Action.text_injective (Text.utf8_injective (Option.some.inj ho.2))).symm

/-- No control entry is ahead of `loaded`. -/
def LoadedFirst (trace : List Occurrence) : Prop :=
  (trace.filter Occurrence.isControl).Pairwise fun _ o => o.isEntry .loaded = false

/-- Calls that are not of `loaded` are added. -/
theorem LoadedFirst.append {trace new : List Occurrence} (h : LoadedFirst trace)
    (hnew : ∀ o ∈ new, o.isEntry .loaded = false) : LoadedFirst (trace ++ new) := by
  rw [LoadedFirst, List.filter_append, List.pairwise_append]
  refine ⟨h, ?_, fun _ _ o ho => hnew o (List.mem_of_mem_filter ho)⟩
  exact List.pairwise_of_forall_mem_list fun _ _ o ho => hnew o (List.mem_of_mem_filter ho)

/-- One call after none of a control entry. -/
theorem LoadedFirst.of_quiet {trace new : List Occurrence} (h : ∀ o ∈ trace, o.isControl = false)
    (hone : new.length ≤ 1) : LoadedFirst (trace ++ new) := by
  have hnone : trace.filter Occurrence.isControl = [] := by
    rw [List.filter_eq_nil_iff]
    intro o ho
    rw [h o ho]
    exact Bool.false_ne_true
  rw [LoadedFirst, List.filter_append, hnone, List.nil_append]
  match new, hone with
  | [], _ => exact List.Pairwise.nil
  | [o], _ => exact (List.pairwise_singleton _ o).sublist List.filter_sublist

/-- Entries with another action come after `loaded`. -/
theorem LoadedFirst.signed {trace new : List Occurrence} {generation : Str} {action : Action} (h : LoadedFirst trace)
    (hnew : ∀ o ∈ new, o.isControl = true → Signed generation action o) (ha : action ≠ .loaded) :
    LoadedFirst (trace ++ new) := by
  refine h.append fun o ho => ?_
  cases hentry : o.isEntry .loaded with
  | false => rfl
  | true =>
    have hcontrol : o.isControl = true := (Bool.and_eq_true_iff.1 hentry).1
    exact absurd ((hnew o ho hcontrol).isEntry hentry).symm ha

/-- The control entries of a generation: all are signed with its name, `loaded` is the first, and only a generation that
was closed has written `unloading`. -/
structure ControlLog (generation : Str) (closed : Bool) (trace : List Occurrence) : Prop where
  signed : ∀ o ∈ trace, o.isControl = true → ∃ action, (action = .unloading → closed = true) ∧
    Signed generation action o
  loadedFirst : LoadedFirst trace

namespace Node

section Left

variable {setup : Setup} {env : Env} {n n' : Node}

/-! ## The markers that are left -/

/-- The markers that are still to be attempted. -/
def left (n : Node) : List Recorded := n.held ++ n.st.pendingMarkers

/-- The markers that are left were left before, or one was recorded, and not by a load or an unload. -/
structure Leaves (n n' : Node) : Prop where
  recorded : n.st.recorded ≤ n'.st.recorded
  left : ∀ m ∈ n'.left, m ∈ n.left ∨
    m.ordinal = n.st.recorded ∧ m.marker.action ≠ .loaded ∧ m.marker.action ≠ .unloading

theorem Leaves.of_subset (hrecorded : n'.st.recorded = n.st.recorded) (h : ∀ m ∈ n'.left, m ∈ n.left) : Leaves n n' :=
  ⟨hrecorded.ge, fun m hm => Or.inl (h m hm)⟩

theorem Leaves.of_same (hrecorded : n'.st.recorded = n.st.recorded) (htodo : n'.todo = n.todo)
    (hjobs : n'.jobs = n.jobs) (hpending : n'.st.pendingMarkers = n.st.pendingMarkers) : Leaves n n' := by
  refine .of_subset hrecorded fun m hm => ?_
  rw [Node.left, held, htodo, hjobs, hpending] at hm
  exact hm

/-- A marker of a lifecycle point is recorded. -/
theorem Leaves.of_record (marker : PendingMarker) (hrecorded : n'.st.recorded = n.st.recorded + 1)
    (htodo : n'.todo = n.todo) (hjobs : n'.jobs = n.jobs)
    (hpending : n'.st.pendingMarkers = n.st.pendingMarkers ++ [⟨marker, n.st.recorded, n.st.selected⟩])
    (hmarker : marker.action ≠ .loaded ∧ marker.action ≠ .unloading) : Leaves n n' := by
  refine ⟨by omega, fun m hm => ?_⟩
  rw [Node.left, held, htodo, hjobs, hpending, ← List.append_assoc] at hm
  rcases List.mem_append.1 hm with hm | hm
  · exact Or.inl hm
  · rw [List.mem_singleton.1 hm]
    exact Or.inr ⟨rfl, hmarker⟩

/-- Tasks of events have no markers. -/
theorem markers_of_map {α : Type} (f : α → Task) (h : ∀ a, (f a).markers = []) (l : List α) :
    (l.map f).flatMap Task.markers = [] := by
  rw [List.flatMap_map, List.flatMap_eq_nil_iff]
  exact fun a _ => h a

theorem markers_of_markerTasks (control : Str) (retention : Retention) (ms : List Recorded) :
    (markerTasks control retention ms).flatMap Task.markers = ms := by
  induction ms with
  | nil => rfl
  | cons m ms ih => exact congrArg (m :: ·) ih

theorem markers_of_markerJobTasks (job : MarkerJob) (seg : Option Str) :
    (markerJobTasks job seg).flatMap Task.markers = job.markers := by
  cases seg with
  | none =>
    rw [markerJobTasks]
    induction job.markers with
    | nil => rfl
    | cons m ms ih => exact congrArg (m :: ·) ih
  | some seg => exact markers_of_markerTasks _ _ _

/-- The job of an event has no marker. -/
theorem Routed.held_eq {q : Queued} {lane : Lane} (h : Routed setup q lane n n') : n'.held = n.held := by
  have hjobs : n'.jobs.flatMap Job.markersOf = n.jobs.flatMap Job.markersOf := by
    have hj := h.jobs
    cases lane with
    | fallback | job =>
      rw [hj, List.flatMap_append]
      exact List.append_nil _
    | queue | nowhere => rw [hj]
  rw [held, held, h.control.2.2.1, hjobs]

theorem takeMarkers_leaves (env : Env) (hw : Wf setup n) (registered : Bool) :
    Leaves n (n.takeMarkers env registered) := by
  obtain ⟨hrecorded, -, -, -, hcases⟩ := flushMarkers_cases env n.st registered hw.dirty
  have hjobs : (n.takeMarkers env registered).jobs = n.jobs ++
      ((flushMarkers env n.st registered).2.map Job.markers).toList := rfl
  refine .of_subset hrecorded fun m hm => ?_
  have hpending : (n.takeMarkers env registered).st.pendingMarkers =
      (flushMarkers env n.st registered).1.pendingMarkers := rfl
  rw [left, held, hjobs, hpending] at hm
  rw [left, held]
  rcases hcases with ⟨hnone, hkeep, -⟩ | ⟨-, hgone, hnone, -⟩ | ⟨-, hgone, -, hjob⟩
  · rw [hnone, hkeep, Option.map_none, Option.toList_none, List.append_nil] at hm
    exact hm
  · rw [hnone, hgone, Option.map_none, Option.toList_none, List.append_nil, List.append_nil] at hm
    exact List.mem_append_left _ hm
  · rw [hjob, hgone, Option.map_some, Option.toList_some, List.flatMap_append, List.append_nil, ← List.append_assoc,
      List.flatMap_singleton] at hm
    exact hm

theorem command_leaves (env : Env) (n : Node) {op : Op} (h : isCommand op = true) :
    Leaves n (n.note none (op.apply env n.st)) := by
  cases op with
  | flush dbnum =>
    simp only [Op.apply, flushCommand, onFlushStarted]
    split
    · exact .of_record (.flushed dbnum) rfl rfl rfl rfl (by simp [PendingMarker.action])
    · exact .of_same rfl rfl rfl rfl
  | swapdb first second =>
    simp only [Op.apply, swapCommand, onSwapdb]
    split
    · exact .of_same rfl rfl rfl rfl
    split
    · exact .of_same rfl rfl rfl rfl
    · exact .of_record (.simple .swapdb) rfl rfl rfl rfl (by decide)
  | prune =>
    have hu := cmdPrune_unmarked env n.st
    exact .of_same hu.recorded rfl rfl hu.pending
  | setAutoGroup name =>
    simp only [Op.apply, EventStream.setAutoGroup]
    split
    · exact .of_same rfl rfl rfl rfl
    · exact .of_same rfl rfl rfl rfl
  | setFirehose on | role master loading | client db key obj => exact .of_same rfl rfl rfl rfl
  | process h' | marker control action db retention | checkpoint control retention | reset perNode => cases h

theorem enabledChanged_leaves (n : Node) (on : Bool) : Leaves n (n.note none (enabledChanged n.st on)) := by
  unfold enabledChanged
  split
  · exact .of_same rfl rfl rfl rfl
  · cases on with
    | true => exact .of_record (.simple .enabled) rfl rfl rfl rfl (by decide)
    | false => exact .of_record (.simple .disabled) rfl rfl rfl rfl (by decide)

theorem startJob_leaves {job : Job} {jobs : List Job} (htodo : n.todo = []) (hj : n.jobs = job :: jobs) :
    Leaves n (startJob env { n with jobs := jobs } job) := by
  have hheld : n.held = job.markersOf ++ jobs.flatMap Job.markersOf := by
    rw [held, htodo, hj]
    rfl
  cases job with
  | event q =>
    refine .of_subset rfl fun m hm => ?_
    rw [left, hheld]
    exact hm
  | fallback q =>
    have hdrain := countDrain_unmarked n.st (drainBefore n.queue q.id).1.length
    refine .of_subset hdrain.recorded fun m hm => ?_
    have hleft : (startJob env { n with jobs := jobs } (.fallback q)).left =
        ((drainBefore n.queue q.id).1.map Task.event ++ [Task.event q]).flatMap Task.markers ++
          jobs.flatMap Job.markersOf ++ n.st.pendingMarkers := congrArg _ hdrain.pending
    rw [hleft, List.flatMap_append, markers_of_map _ fun _ => rfl] at hm
    rw [left, hheld]
    exact hm
  | markers job =>
    have hprobed := (Frame.of_probed (tagSegment_probed env n.st)).unmarked
    refine .of_subset hprobed.recorded fun m hm => ?_
    have hleft : (startJob env { n with jobs := jobs } (.markers job)).left =
        (markerJobTasks job (tagSegment env n.st).1).flatMap Task.markers ++ jobs.flatMap Job.markersOf ++
          n.st.pendingMarkers := congrArg _ hprobed.pending
    rw [hleft, markers_of_markerJobTasks] at hm
    rw [left, hheld]
    exact hm

theorem lockWorker_leaves (hw : Wf setup n) (snapshot : Option EnvelopeSnapshot) (hfree : n.holder = .free) :
    Leaves n (n.lockWorker setup snapshot) := by
  have hbefore : n.left = [] ++ n.jobs.flatMap Job.markersOf ++ n.st.pendingMarkers := by
    rw [left, held, (hw.free hfree).2]
    rfl
  cases snapshot with
  | none =>
    have hdrain := countDrain_unmarked n.st (drain n.queue setup.batch).1.length
    refine .of_subset hdrain.recorded fun m hm => ?_
    have hleft : (n.lockWorker setup none).left =
        ((drain n.queue setup.batch).1.map Task.event).flatMap Task.markers ++ n.jobs.flatMap Job.markersOf ++
          n.st.pendingMarkers := congrArg _ hdrain.pending
    rw [hleft, markers_of_map _ fun _ => rfl] at hm
    rw [hbefore]
    exact hm
  | some s =>
    unfold lockWorker
    simp only
    split
    · have hdrain := countDrain_unmarked n.st s.count
      refine .of_subset hdrain.recorded fun m hm => ?_
      rw [left, held, markers_of_map _ fun _ => rfl] at hm
      rw [hbefore, ← hdrain.pending]
      exact hm
    · exact .of_same rfl rfl rfl rfl

theorem step_leaves {act : Act} (hw : Wf setup n) (h : step setup env n act = some n') : Leaves n n' := by
  cases step_fires h with
  | acquire | release | configure | started | notStarted | wake | prepare | unlock | stopWaiting | stopSpinning
  | stopSync | requestStop | finish => exact .of_same rfl rfl rfl rfl
  | command _ hop => exact command_leaves env n hop
  | setEnabled _ => exact enabledChanged_leaves n _
  | @notify cls event key db contended registered markersRegistered hmay =>
    have htake := takeMarkers_leaves env hw markersRegistered
    rcases onKeyspaceEvent_cases env hw cls event db contended registered markersRegistered hmay with
      ⟨st, hframe, e⟩ | ⟨-, -, event, lane, hroute⟩
    · rw [e]
      have hu := hframe.unmarked
      refine ⟨hu.recorded ▸ htake.recorded, fun m hm => htake.left m ?_⟩
      rw [left, show (note _ none st).st.pendingMarkers = _ from hu.pending] at hm
      exact hm
    · obtain ⟨hpending, -, hrecorded, -⟩ := hroute.markers
      refine ⟨hrecorded ▸ htake.recorded, fun m hm => htake.left m ?_⟩
      rw [left, hroute.held_eq, hpending] at hm
      exact hm
  | cron hcmd hjobs =>
    rcases cron_ticked env n with e | ⟨st, hu, e⟩ | ⟨-, st, control, retention, hpending, hrecorded, -, -, e⟩
    · rw [e]
      exact .of_same rfl rfl rfl rfl
    · rw [e]
      exact .of_same hu.recorded rfl rfl hu.pending
    · rw [e]
      refine .of_subset hrecorded fun m hm => ?_
      have hleft : left { n.note none st with
          todo := markerTasks control retention n.st.pendingMarkers ++ [.checkpoint control retention] } =
          (markerTasks control retention n.st.pendingMarkers ++
            [Task.checkpoint control retention]).flatMap Task.markers ++
            n.jobs.flatMap Job.markersOf ++ [] := congrArg _ hpending
      rw [hleft, List.flatMap_append, markers_of_markerTasks, hjobs] at hm
      simp only [List.flatMap_nil, List.append_nil, List.mem_append] at hm
      rcases hm with hm | hm
      · exact List.mem_append_right _ hm
      · cases hm
  | runJob _ _ htodo hj => exact startJob_leaves htodo hj
  | @process task todo htodo =>
    have hu := (task.run_frame env n.st).unmarked
    refine .of_subset hu.recorded fun m hm => ?_
    rw [left, held, show ({ n.note (some task) (task.run env n.st) with todo := todo } : Node).st.pendingMarkers =
      _ from hu.pending] at hm
    rw [left, held, htodo, List.flatMap_cons, List.append_assoc, List.append_assoc]
    rw [List.append_assoc] at hm
    exact List.mem_append_right _ hm
  | lock _ hfree => exact lockWorker_leaves hw _ hfree
  | join hjoin _ =>
    refine .of_subset rfl fun m hm => ?_
    rw [left, held, markers_of_map _ fun _ => rfl] at hm
    rw [left, held, (hw.joining hjoin).2]
    exact hm

/-! ## The calls of a step -/

/-- Only a task makes calls of control entries. -/
theorem step_calls {act : Act} (h : step setup env n act = some n') (hact : act ≠ .process) :
    ∃ new, n'.st.trace = n.st.trace ++ new ∧ ∀ o ∈ new, o.isControl = false := by
  have hturn := step_turn h
  generalize n'.st = st' at hturn
  cases hturn with
  | command op hop =>
    obtain ⟨new, htrace, hnew⟩ := command_trace env n.st hop
    refine ⟨new, htrace, fun o ho => ?_⟩
    have hupkeep := hnew o ho
    cases o with
    | call why cmd ok =>
      obtain ⟨rfl, -⟩ := removal_of_upkeep hupkeep
      rfl
    | cleared | pruned name => rfl
  | process task todo htodo => exact absurd rfl hact
  | setting _ hset => exact ⟨[], by rw [hset.trace, List.append_nil], fun o ho => by cases ho⟩
  | idle htrail =>
    obtain ⟨new, htrace, hnew, -⟩ := htrail.calls
    refine ⟨new, htrace, fun o ho => ?_⟩
    obtain ⟨why, cmd, ok, rfl, rfl, -⟩ := hnew o ho
    rfl

theorem command_generation (env : Env) (st : State) {op : Op} (h : isCommand op = true) :
    (op.apply env st).generationId = st.generationId := by
  cases op with
  | flush dbnum =>
    simp only [Op.apply, flushCommand, onFlushStarted]
    split <;> rfl
  | swapdb first second =>
    simp only [Op.apply, swapCommand, onSwapdb]
    split
    · rfl
    · split <;> rfl
  | prune =>
    refine cmdPrune_parts (I := fun s => s.generationId = st.generationId) (fun _ h => h) ?_ ?_ rfl
    · intro a b registry name r hcall h
      obtain ⟨_, _, _, rfl⟩ := call_rest hcall
      exact h
    · intro a name h
      unfold forgetStream
      simp only
      split <;> exact h
  | setAutoGroup name =>
    simp only [Op.apply, EventStream.setAutoGroup]
    split <;> rfl
  | setFirehose on | role master loading | client db key obj => rfl
  | process h' | marker control action db retention | checkpoint control retention | reset perNode => cases h

theorem tagSegment_generation (env : Env) (st : State) : (tagSegment env st).2.generationId = st.generationId := by
  obtain ⟨_, _, _, _, _, e, -, -⟩ := tagSegment_probed env st
  rw [e]

theorem countDrain_generation (st : State) (count : Nat) : (countDrain st count).generationId = st.generationId := by
  unfold countDrain
  simp only
  split <;> rfl

theorem flushMarkers_generation (env : Env) (st : State) (registered : Bool) :
    (flushMarkers env st registered).1.generationId = st.generationId := by
  have h := flushMarkers_flushed env st registered
  generalize flushMarkers env st registered = r at h
  cases h with
  | kept | empty | deferred => rfl
  | dropped _ _ =>
    unfold dropMarkers
    simp only
    split <;> rfl

theorem onKeyspaceEvent_generation (n : Node) (cls : NotifyEvent) (event : Str) (key : Bytes) (db : Int32)
    (contended registered markersRegistered : Bool) :
    (n.onKeyspaceEvent setup env cls event key db contended registered markersRegistered).st.generationId =
      n.st.generationId := by
  have htake : (n.takeMarkers env markersRegistered).st.generationId = n.st.generationId :=
    flushMarkers_generation env n.st markersRegistered
  have hdispatch : ∀ (m : Node) (e : PendingEvent),
      (m.dispatchPendingEvent setup env e contended registered).st.generationId = m.st.generationId := by
    intro m e
    unfold dispatchPendingEvent deferPendingEvent deferOrderedFallback
    simp only
    split
    · split <;> rfl
    split
    · split <;> rfl
    split
    · rfl
    · split <;> rfl
  unfold onKeyspaceEvent
  simp only
  generalize n.takeMarkers env markersRegistered = n₁ at htake
  have hselect := selectEvent_gated n₁.st cls event key db
  generalize selectEvent n₁.st cls event key db = r at hselect
  cases hselect with
  | passedOver | skipped _ => exact htake
  | selected _ _ => exact (hdispatch _ _).trans htake

theorem cron_generation (env : Env) (n : Node) : (n.cron env).st.generationId = n.st.generationId := by
  unfold cron
  simp only
  split
  · rfl
  split
  · rfl
  · have h₀ : { n.st with lastCheckpointMs := env.nowMs n.st.clock }.generationId = n.st.generationId := rfl
    generalize { n.st with lastCheckpointMs := env.nowMs n.st.clock } = st at h₀
    unfold checkpointTick
    split
    · exact h₀
    · have ht := tagSegment_generation env st
      cases hs : tagSegment env st with
      | mk seg st₁ =>
        rw [hs] at ht
        cases seg with
        | none => exact ht.trans h₀
        | some seg => exact ht.trans h₀

theorem run_generation (env : Env) (st : State) (t : Task) : (t.run env st).generationId = st.generationId := by
  cases t with
  | event q => exact (process_writes env st _).generation
  | envelope qs fields => exact (process_writes env st _).generation
  | marker control retention m => exact (writeMarker_calls env st control _ _ retention).1
  | noSlot m => exact (countNoSlotDrop_writes env st _ _).generation
  | checkpoint control retention =>
    exact (writeControlEntry_calls env st .checkpoint control .checkpoint retention _ _ _).1

/-- The generation keeps its name. -/
theorem step_generation {act : Act} (h : step setup env n act = some n') : n'.st.generationId = n.st.generationId := by
  cases step_fires h with
  | acquire | release | configure | started | notStarted | wake | prepare | unlock | stopWaiting | stopSpinning
  | stopSync | requestStop | join | finish => rfl
  | command _ hop => exact command_generation env n.st hop
  | setEnabled _ =>
    simp only [note_st, enabledChanged]
    split <;> rfl
  | notify _ => exact onKeyspaceEvent_generation n _ _ _ _ _ _ _
  | cron _ _ => exact cron_generation env n
  | @runJob job jobs _ _ _ _ =>
    cases job with
    | event q => rfl
    | fallback q => exact countDrain_generation n.st _
    | markers job => exact tagSegment_generation env n.st
  | @process task _ _ => exact run_generation env n.st task
  | @lock snapshot _ _ =>
    cases snapshot with
    | none => exact countDrain_generation n.st _
    | some s =>
      unfold lockWorker
      simp only
      split
      · exact countDrain_generation n.st _
      · rfl

/-! ## Openings -/

/-- What holds of the markers that are left and of the control entries written. -/
structure Opening (n : Node) : Prop where
  recorded : 0 < n.st.recorded
  /-- Only the first marker is `loaded`, and it was recorded before any event was selected. -/
  first : ∀ m ∈ n.left, (m.marker.action = .loaded ∨ m.ordinal = 0) → m.ordinal = 0 ∧ m.point = 0
  goesOn : ∀ m ∈ n.left, m.marker.action ≠ .unloading
  signed : ∀ o ∈ n.st.trace, o.isControl = true → ∃ action, action ≠ .unloading ∧ Signed n.st.generationId action o
  /-- As long as the first marker is left, nothing was written. -/
  quiet : (∃ m ∈ n.left, m.ordinal = 0) → ∀ o ∈ n.st.trace, o.isControl = false
  loadedFirst : LoadedFirst n.st.trace

theorem Opening.markers (ho : Opening n) (hl : Leaves n n') :
    0 < n'.st.recorded ∧ (∀ m ∈ n'.left, (m.marker.action = .loaded ∨ m.ordinal = 0) → m.ordinal = 0 ∧ m.point = 0) ∧
      (∀ m ∈ n'.left, m.marker.action ≠ .unloading) ∧ ∀ m ∈ n'.left, m.ordinal = 0 → m ∈ n.left := by
  have hrecorded := ho.recorded
  refine ⟨Nat.lt_of_lt_of_le hrecorded hl.recorded, fun m hm hfirst => ?_, fun m hm => ?_, fun m hm hzero => ?_⟩
  · rcases hl.left m hm with hold | ⟨hordinal, hloaded, -⟩
    · exact ho.first m hold hfirst
    · rcases hfirst with h | h
      · exact absurd h hloaded
      · omega
  · rcases hl.left m hm with hold | ⟨-, -, hunloading⟩
    · exact ho.goesOn m hold
    · exact hunloading
  · rcases hl.left m hm with hold | ⟨hordinal, -⟩
    · exact hold
    · omega

/-- What a step that writes no control entry keeps. -/
theorem Opening.silent (ho : Opening n) (hl : Leaves n n') (hg : n'.st.generationId = n.st.generationId)
    {new : List Occurrence} (ht : n'.st.trace = n.st.trace ++ new) (hnew : ∀ o ∈ new, o.isControl = false) :
    Opening n' := by
  obtain ⟨hrecorded, hfirst, hgoes, hold⟩ := ho.markers hl
  refine ⟨hrecorded, hfirst, hgoes, fun o hmem hcontrol => ?_, ?_, ?_⟩
  · rw [ht] at hmem
    rcases List.mem_append.1 hmem with hmem | hmem
    · rw [hg]
      exact ho.signed o hmem hcontrol
    · rw [hnew o hmem] at hcontrol
      cases hcontrol
  · rintro ⟨m, hm, hzero⟩ o hmem
    rw [ht] at hmem
    rcases List.mem_append.1 hmem with hmem | hmem
    · exact ho.quiet ⟨m, hold m hm hzero, hzero⟩ o hmem
    · exact hnew o hmem
  · rw [ht]
    refine ho.loadedFirst.append fun o hmem => ?_
    rw [Occurrence.isEntry, hnew o hmem]
    rfl

/-- What a step keeps that writes control entries, but only when the first marker is not left any more. -/
theorem Opening.speaks (ho : Opening n) (hl : Leaves n n') (hg : n'.st.generationId = n.st.generationId)
    {new : List Occurrence} (ht : n'.st.trace = n.st.trace ++ new) (hgone : ∀ m ∈ n'.left, m.ordinal ≠ 0)
    (hnew : ∀ o ∈ new, o.isControl = true → ∃ action, action ≠ .unloading ∧ Signed n.st.generationId action o)
    (hfirst : LoadedFirst (n.st.trace ++ new)) : Opening n' := by
  obtain ⟨hrecorded, hzero, hgoes, -⟩ := ho.markers hl
  refine ⟨hrecorded, hzero, hgoes, fun o hmem hcontrol => ?_, ?_, ht ▸ hfirst⟩
  · rw [ht] at hmem
    rw [hg]
    rcases List.mem_append.1 hmem with hmem | hmem
    · exact ho.signed o hmem hcontrol
    · exact hnew o hmem hcontrol
  · rintro ⟨m, hm, h⟩
    exact absurd h (hgone m hm)

/-- The markers are attempted in the order of their ordinals. -/
theorem Reach.attempted_before {allowed : Node → Act → Prop} (h : Reach setup env allowed n) :
    (n.attempted ++ n.left).Pairwise fun m m' => m.ordinal < m'.ordinal := by
  have hn := (h.view_runs (Q := fun _ _ => True) (fun _ _ _ => trivial) fun _ _ _ _ _ _ => trivial).numbered
  have hline : Lanes.markLine (n.view setup) = n.attempted ++ n.left := by
    rw [Lanes.markLine, marks_done, List.append_assoc n.attempted, marks_held, List.append_assoc]
    rfl
  have hpair := hn.line
  rw [hline] at hpair
  exact hpair.imp fun hlt => hlt.1

theorem process_opening {allowed : Node → Act → Prop} {task : Task} {todo : List Task} (hr : Reach setup env allowed n)
    (hr' : Reach setup env allowed n') (htodo : n.todo = task :: todo)
    (hn' : n' = { n.note (some task) (task.run env n.st) with todo := todo }) (hl : Leaves n n') (ho : Opening n) :
    Opening n' := by
  have hst : n'.st = task.run env n.st := by
    rw [hn']
    rfl
  have hg : n'.st.generationId = n.st.generationId := by
    rw [hst]
    exact run_generation env n.st task
  obtain ⟨-, hzero, -, -⟩ := ho.markers hl
  -- an event comes after the first marker, whose point is 0
  have hevent : ∀ q ∈ task.queued, Writes n.st (task.run env n.st) → Opening n' := by
    intro q hq hw
    obtain ⟨new, htrace, hnew⟩ := hw.calls
    have hhanded : q ∈ n'.handed := by
      rw [handed_eq, hn', show tasksDone { n.note (some task) (task.run env n.st) with todo := todo } = _ from
        tasksDone_note n (some task) _, List.flatMap_append]
      exact List.mem_append_right _ (List.mem_flatMap.2 ⟨task, List.mem_singleton_self task, hq⟩)
    refine ho.speaks hl hg ((congrArg State.trace hst).trans htrace) (fun m hm hord => ?_)
      (fun o hmem hcontrol => ?_) ?_
    · have hlt := hr'.handed_before hhanded hm
      have hpoint := (hzero m hm (Or.inr hord)).2
      omega
    · exact ⟨.repinned, by decide, hnew o hmem hcontrol⟩
    · exact ho.loadedFirst.signed hnew (by decide)
  have hnothing : n'.st.trace = n.st.trace → Opening n' := fun ht =>
    ho.silent hl hg (ht.trans (List.append_nil _).symm) (List.forall_mem_nil _)
  cases task with
  | event q => exact hevent q (List.mem_singleton_self q) (process_writes env n.st (.event q.event))
  | envelope qs fields =>
    cases qs with
    | nil => exact hnothing (congrArg State.trace hst)
    | cons q qs =>
      exact hevent q List.mem_cons_self (process_writes env n.st (.envelope ((q :: qs).map Queued.event) fields))
  | marker control retention m =>
    obtain ⟨-, new, htrace, hone, hnew⟩ := writeMarker_calls env n.st control m.marker.action m.marker.db retention
    have hleft : m ∈ n.left := by
      rw [left, held, htodo]
      exact List.mem_append_left _ (List.mem_append_left _ List.mem_cons_self)
    have hattempted : m ∈ n'.attempted := by
      rw [hn']
      change m ∈ (n.history ++ [_]).flatMap fun d : Done => d.task.elim [] Task.markers
      rw [List.flatMap_append]
      exact List.mem_append_right _ List.mem_cons_self
    refine ho.speaks hl hg ((congrArg State.trace hst).trans htrace) (fun m' hm' hord => ?_) (fun o hmem _ => ?_) ?_
    · have hlt := (List.pairwise_append.1 hr'.attempted_before).2.2 m hattempted m' hm'
      omega
    · exact ⟨_, ho.goesOn m hleft, hnew o hmem⟩
    · by_cases hloaded : m.marker.action = .loaded
      · exact .of_quiet (ho.quiet ⟨m, hleft, (ho.first m hleft (Or.inl hloaded)).1⟩) hone
      · exact ho.loadedFirst.signed (fun o hmem _ => hnew o hmem) hloaded
  | noSlot m => exact hnothing (by rw [hst]; rfl)
  | checkpoint control retention =>
    obtain ⟨-, new, htrace, -, hnew⟩ := writeControlEntry_calls env n.st .checkpoint control .checkpoint retention
      (Client.checkpointPairs n.st) .controlCheckpoints "control checkpoint".toList
    have hsigned : ∀ o ∈ new, Signed n.st.generationId .checkpoint o := by
      intro o hmem
      obtain ⟨trim, ok, rfl⟩ := hnew o hmem
      exact ⟨_, _, _, _, _, Client.checkpointPairs_nodup n.st, rfl⟩
    have htick : Tick n := hr.ticking (by rw [htodo]; rfl)
    -- the checkpoint is the last task, so no marker is left behind it
    have hlast : todo = [] := by
      obtain ⟨tasks, last, hsplit, hquiet⟩ := htick.last
      rw [htodo] at hsplit
      cases tasks with
      | nil => exact (List.cons.inj hsplit).2
      | cons t tasks =>
        obtain ⟨rfl, -⟩ := List.cons.inj hsplit
        cases hquiet
    have hnone : n'.left = [] := by
      have hpending : n'.st.pendingMarkers = [] := by
        rw [hst]
        exact (Task.run_frame env n.st _).unmarked.pending.trans htick.pending
      rw [left, held, hpending, hn', hlast]
      change n.jobs.flatMap Job.markersOf ++ [] = []
      rw [htick.jobs]
      rfl
    refine ho.speaks hl hg ((congrArg State.trace hst).trans htrace) (fun m hm => ?_) (fun o hmem _ => ?_) ?_
    · rw [hnone] at hm
      cases hm
    · exact ⟨.checkpoint, by decide, hsigned o hmem⟩
    · exact ho.loadedFirst.signed (fun o hmem _ => hsigned o hmem) (by decide)

theorem step_opening {allowed : Node → Act → Prop} {act : Act} (hr : Reach setup env allowed n)
    (hr' : Reach setup env allowed n') (h : step setup env n act = some n') (ho : Opening n) : Opening n' := by
  have hl := step_leaves (Reach.wf hr) h
  by_cases hact : act = .process
  · subst hact
    cases step_fires h with
    | process htodo => exact process_opening hr hr' htodo rfl hl ho
  · obtain ⟨new, htrace, hnew⟩ := step_calls h hact
    exact ho.silent hl (step_generation h) htrace hnew

/-- A load records `loaded`, and then `disabled` if the module is not enabled. -/
theorem loadedState_markers (env : Env) (config : Config) (cluster : Bool) (ks : Keyspace) (generation : Str)
    (master loading : Bool) :
    let st := loadedState env config cluster ks generation master loading
    0 < st.recorded ∧ st.trace = [] ∧ ∃ rest, st.pendingMarkers = ⟨.simple .loaded, 0, 0⟩ :: rest ∧
      ∀ m ∈ rest, m.marker.action = .disabled ∧ m.ordinal = 1 := by
  have hdisabled : ∀ m ∈ [(⟨.simple .disabled, 1, 0⟩ : Recorded)], m.marker.action = .disabled ∧ m.ordinal = 1 := by
    intro m hm
    rw [List.mem_singleton.1 hm]
    exact ⟨rfl, rfl⟩
  simp only [loadedState]
  cases config.enabled with
  | true =>
    split
    · exact ⟨Nat.one_pos, rfl, [], rfl, List.forall_mem_nil _⟩
    · exact ⟨Nat.one_pos, rfl, [], rfl, List.forall_mem_nil _⟩
  | false =>
    split
    · exact ⟨Nat.two_pos, rfl, _, rfl, hdisabled⟩
    · exact ⟨Nat.two_pos, rfl, _, rfl, hdisabled⟩

theorem loaded_opening (h : Loaded setup env n) : Opening n := by
  obtain ⟨config, host, ks, generation, master, loading, mode, -, rfl⟩ := h
  obtain ⟨hrecorded, htrace, rest, hpending, hrest⟩ :=
    loadedState_markers env config host.cluster ks generation master loading
  generalize loadedState env config host.cluster ks generation master loading = st at hrecorded htrace hpending
  have hleft : (initial mode st).left = ⟨.simple .loaded, 0, 0⟩ :: rest := hpending
  have hnone : (initial mode st).st.trace = [] := htrace
  refine ⟨hrecorded, fun m hm hfirst => ?_, fun m hm => ?_, ?_, fun _ => ?_, ?_⟩
  · rw [hleft] at hm
    rcases List.mem_cons.1 hm with rfl | hm
    · exact ⟨rfl, rfl⟩
    · obtain ⟨haction, hordinal⟩ := hrest m hm
      rcases hfirst with h | h
      · rw [haction] at h
        cases h
      · omega
  · rw [hleft] at hm
    rcases List.mem_cons.1 hm with rfl | hm
    · exact nofun
    · rw [(hrest m hm).1]
      exact nofun
  · rw [hnone]
    exact List.forall_mem_nil _
  · rw [hnone]
    exact List.forall_mem_nil _
  · rw [hnone]
    exact List.Pairwise.nil

theorem Reach.opening {allowed : Node → Act → Prop} (h : Reach setup env allowed n) : Opening n :=
  Machine.Reach.invariant (fun _ hl => loaded_opening hl)
    (fun _ _ _ hr ha hs ho => step_opening hr (Machine.Reach.next hr ha hs) hs ho) h

theorem Reach.controlLog {allowed : Node → Act → Prop} (h : Reach setup env allowed n) :
    ControlLog n.st.generationId false n.st.trace := by
  refine ⟨fun o ho hcontrol => ?_, h.opening.loadedFirst⟩
  obtain ⟨action, hne, hsigned⟩ := h.opening.signed o ho hcontrol
  exact ⟨action, fun he => absurd he hne, hsigned⟩

end Left

end Node

end EventStream

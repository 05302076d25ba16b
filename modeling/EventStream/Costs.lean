import EventStream.Origins

/-!
# What a node still owes the server

Every call of a node is made for something that a client, the cron or the load has set off before: an event, a marker or
a checkpoint. `outstanding` is what the node may still call for all that is under way in it, and `allowance` what a step
brings in from outside.

- `Task.run_calls`: a task calls for its share at most;
- `step_paidFor`: a step's calls, and what is outstanding after it, are covered by what was outstanding before and the
  allowance of the step.
-/

namespace EventStream

open Text (Str Bytes utf8)
open Machine (Path)

/-! ## Shares -/

namespace Budget

/-- A budget for each of a number of things. -/
def each (b : Budget) (count : Nat) : Budget := fun x => count * b x

@[simp] theorem each_zero (b : Budget) (x : Expense) : b.each 0 x = 0 := Nat.zero_mul _

@[simp] theorem each_succ (b : Budget) (count : Nat) (x : Expense) : b.each (count + 1) x = b.each count x + b x :=
  Nat.succ_mul count (b x)

theorem each_add (b : Budget) (j k : Nat) (x : Expense) : b.each (j + k) x = b.each j x + b.each k x :=
  Nat.add_mul j k (b x)

/-- A pending marker: its entry, and the selection of the tag it is written under. -/
def pending : Budget := select + xadd .marker true

/-- A checkpoint, with the selection of its tag. -/
def tick : Budget := select + xadd .checkpoint true

/-- Markers that are written together need one tag. -/
theorem together_le_pending {count : Nat} (hpos : 0 < count) (x : Expense) :
    select x + each (xadd .marker true) count x ≤ each pending count x := by
  have hsum : each pending count x = count * select x + count * xadd .marker true x := Nat.mul_add count _ _
  have hone : select x ≤ count * select x := Nat.le_mul_of_pos_left _ hpos
  have heach : each (xadd .marker true) count x = count * xadd .marker true x := rfl
  omega

theorem envelope_le_event (x : Expense) : (select + mirror .canonical true) x ≤ event x := by
  cases x with
  | attempt w | entry w =>
    cases w <;> simp [mirror, xadd, oneRegistration, oneGroup, select, event]
    all_goals omega
  | registration | group | number | pinning | repin => simp [mirror, xadd, oneRegistration, oneGroup, select, event]

end Budget

/-- What a task may call: an envelope is the share of its events. -/
def Task.share : Task → Budget
  | event _ => .event
  | envelope qs _ => Budget.each .event qs.length
  | marker _ _ _ => .xadd .marker true
  | noSlot _ => .none
  | checkpoint _ _ => .xadd .checkpoint true

/-- What a registered job may call. The events that a fallback drains are still those of the queue. -/
def Job.share : Job → Budget
  | event _ | fallback _ => .event
  | markers job => .select + Budget.each (.xadd .marker true) job.markers.length

/-- The calls of a kind in a trace. -/
def State.calls (st : State) (x : Expense) : Nat := st.trace.countP x.ofCall

theorem Trail.calls_le {env : Env} {P : Purpose → Command → Prop} {b : Budget} {st st' : State}
    (h : Trail env P b st st') (x : Expense) : st'.calls x ≤ st.calls x + b x := by
  obtain ⟨calls, htrace, -, hb⟩ := h.calls
  rw [State.calls, State.calls, htrace, List.countP_append]
  exact Nat.add_le_add_left (hb x) _

theorem Task.run_calls (env : Env) (st : State) (t : Task) (x : Expense) :
    (t.run env st).calls x ≤ st.calls x + t.share x := by
  have h := (t.run_trail env st).calls_le x
  cases t with
  | event q | marker control retention m | noSlot m | checkpoint control retention => exact h
  | envelope qs fields =>
    cases qs with
    | nil => exact Nat.le_add_right _ _
    | cons q rest =>
      have hone := Budget.envelope_le_event x
      have hshare : (Task.envelope (q :: rest) fields).share x = Budget.each .event rest.length x + Budget.event x :=
        Budget.each_succ .event rest.length x
      have hbudget : (Task.envelope (q :: rest) fields).budget x = (Budget.select + Budget.mirror .canonical true) x :=
        rfl
      omega

theorem share_map_event (qs : List Queued) (x : Expense) :
    ((qs.map Task.event).map fun t => t.share x).sum = Budget.each .event qs.length x := by
  induction qs with
  | nil => simp
  | cons q qs ih =>
    simp only [List.map_cons, List.sum_cons, ih, List.length_cons, Budget.each_succ]
    exact Nat.add_comm _ _

theorem share_envelopes (groups : List (List Queued)) (x : Expense) :
    (((groups.map fun g => (g, encodeBatchFields (g.map Queued.event))).map fun g => Task.envelope g.1 g.2).map
      fun t => t.share x).sum = Budget.each .event groups.flatten.length x := by
  induction groups with
  | nil => simp
  | cons g groups ih =>
    simp only [List.map_cons, List.sum_cons, ih, List.flatten_cons, List.length_append, Budget.each_add]
    rfl

namespace Node

theorem share_markerTasks (control : Str) (retention : Retention) (markers : List Recorded) (x : Expense) :
    ((markerTasks control retention markers).map fun t => t.share x).sum =
      Budget.each (.xadd .marker true) markers.length x := by
  induction markers with
  | nil => simp [markerTasks]
  | cons m markers ih =>
    have hcons : markerTasks control retention (m :: markers) = .marker control retention m ::
      markerTasks control retention markers := rfl
    simp only [hcons, List.map_cons, List.sum_cons, ih, List.length_cons, Budget.each_succ]
    exact Nat.add_comm _ _

theorem share_markerJobTasks (job : MarkerJob) (seg : Option Str) (x : Expense) :
    ((markerJobTasks job seg).map fun t => t.share x).sum ≤ Budget.each (.xadd .marker true) job.markers.length x := by
  cases seg with
  | none =>
    have hzero : (markerJobTasks job none).map (fun t => t.share x) = job.markers.map fun _ => 0 := by
      rw [markerJobTasks, List.map_map]
      rfl
    rw [hzero]
    simp
  | some seg => exact le_of_eq (share_markerTasks _ _ _ x)

/-! ## What is outstanding -/

/-- What may still be called for the tasks and the jobs, the events of the worker and of the queue, and the pending
markers. -/
def outstanding (n : Node) : Budget := fun x =>
  (n.todo.map fun t => t.share x).sum + (n.jobs.map fun j => j.share x).sum +
    Budget.each .event (n.worker.pending.length + n.queue.length) x + Budget.each .pending n.st.pendingMarkers.length x

/-- What a step brings in: an event of a key outside the prefix, the marker of a command or a setting, a checkpoint. A
step of the module itself brings in nothing. -/
def allowance (pfx : Bytes) : Act → Budget
  | .notify _ _ key _ _ _ _ => if pfx.isPrefixOf key then .none else .event
  | .command _ | .setEnabled _ => .pending
  | .cron => .tick
  | _ => .none

section Steps

variable {setup : Setup} {env : Env} {n n' : Node}

/-- Calls and what is outstanding after a step are covered. -/
def PaidFor (act : Act) (n n' : Node) : Prop :=
  ∀ x, n'.st.calls x + n'.outstanding x ≤ n.st.calls x + n.outstanding x + allowance (utf8 n.st.config.pfx) act x

/-- A step that calls nothing and leaves all that is under way. -/
theorem PaidFor.of_same {act : Act} (htrace : n'.st.trace = n.st.trace)
    (hp : n'.st.pendingMarkers = n.st.pendingMarkers)
    (h : (n'.todo, n'.jobs, n'.worker.pending, n'.queue) = (n.todo, n.jobs, n.worker.pending, n.queue)) :
    PaidFor act n n' := by
  intro x
  simp only [Prod.mk.injEq] at h
  obtain ⟨ht, hj, hw, hq⟩ := h
  rw [State.calls, State.calls, htrace, outstanding, outstanding, ht, hj, hw, hq, hp]
  exact Nat.le_add_right _ _

/-- A step that goes on with another state, and with one marker more at most. -/
theorem PaidFor.of_marks {act : Act} {st : State} (hcalls : ∀ x, st.calls x = n.st.calls x)
    (h : Unmarked n.st st ∨ Marks n.st st) (hact : allowance (utf8 n.st.config.pfx) act = .pending) :
    PaidFor act n (n.note none st) := by
  intro x
  have hcall : (n.note none st).st.calls x = n.st.calls x := hcalls x
  have hout : (n.note none st).outstanding x ≤ n.outstanding x + Budget.pending x := by
    rcases h with hu | hm
    · have hp : (n.note none st).st.pendingMarkers = n.st.pendingMarkers := hu.pending
      rw [outstanding, outstanding, hp]
      exact Nat.le_add_right _ _
    · obtain ⟨marker, hp⟩ := hm.pending
      have hp' : (n.note none st).st.pendingMarkers.length = n.st.pendingMarkers.length + 1 := by
        rw [note_st, hp, List.length_append, List.length_singleton]
      rw [outstanding, outstanding, hp', Budget.each_succ, ← Nat.add_assoc]
      exact Nat.le_refl _
  rw [hcall, hact]
  omega

/-- The calls of a command count as no expense. -/
theorem command_calls (env : Env) (st : State) {op : Op} (h : isCommand op = true) (x : Expense) :
    (op.apply env st).calls x = st.calls x := by
  obtain ⟨upkeep, htrace, hall⟩ := command_trace env st h
  have hzero : upkeep.countP x.ofCall = 0 := by
    refine List.countP_eq_zero.2 fun o ho => ?_
    have hup := hall o ho
    cases o with
    | call why cmd ok =>
      obtain ⟨rfl, key, member, rfl⟩ := removal_of_upkeep hup
      cases x <;> exact Bool.false_ne_true
    | cleared | pruned _ => exact Bool.false_ne_true
  rw [State.calls, State.calls, htrace, List.countP_append, hzero]
  rfl

/-! ## Notifications -/

/-- Taking the pending markers adds nothing: a job that writes them together costs no more than they do. -/
theorem takeMarkers_outstanding (env : Env) (hw : Wf setup n) (registered : Bool) (x : Expense) :
    (n.takeMarkers env registered).outstanding x ≤ n.outstanding x := by
  obtain ⟨-, -, -, -, hcases⟩ := flushMarkers_cases env n.st registered hw.dirty
  have hjobs : (n.takeMarkers env registered).jobs =
      n.jobs ++ ((flushMarkers env n.st registered).2.map Job.markers).toList := rfl
  have hpend : (n.takeMarkers env registered).st.pendingMarkers = (flushMarkers env n.st registered).1.pendingMarkers :=
    rfl
  rw [outstanding, outstanding, hjobs, hpend, List.map_append, List.sum_append]
  have hrest : (n.takeMarkers env registered).todo = n.todo ∧ (n.takeMarkers env registered).worker = n.worker ∧
    (n.takeMarkers env registered).queue = n.queue := ⟨rfl, rfl, rfl⟩
  rw [hrest.1, hrest.2.1, hrest.2.2]
  rcases hcases with ⟨hnone, hp, -⟩ | ⟨-, hp, hnone, -⟩ | ⟨⟨hne, -⟩, hp, -, hsome⟩
  · rw [hnone, hp]
    exact Nat.le_refl _
  · rw [hnone, hp, List.length_nil, Budget.each_zero]
    exact Nat.le_add_right _ _
  · have htogether := Budget.together_le_pending (List.length_pos_iff.2 hne) x
    rw [hsome, hp, List.length_nil, Budget.each_zero]
    have hjob : (((some (⟨n.st.config.pfx, controlRetention n.st, n.st.pendingMarkers⟩ : MarkerJob)).map
        Job.markers).toList.map fun j => j.share x).sum = Budget.select x +
          Budget.each (.xadd .marker true) n.st.pendingMarkers.length x := rfl
    rw [hjob]
    omega

/-- The callback rejects the keys under the prefix. -/
theorem selectEvent_own {st : State} {key : Bytes} (hk : utf8 st.config.pfx <+: key) (cls : NotifyEvent) (event : Str)
    (db : Int32) : (selectEvent st cls event key db).2 = none := by
  rcases selectEvent_cases st cls event key db with ⟨hnone, -⟩ | ⟨-, -, -, hforeign⟩
  · exact hnone
  · rw [List.isPrefixOf_iff_prefix.2 hk] at hforeign
    cases hforeign

/-- So a notification of such a key takes the pending markers, and that is all. -/
theorem onKeyspaceEvent_skips (setup : Setup) (env : Env) (n : Node) {key : Bytes} (hk : utf8 n.st.config.pfx <+: key)
    (cls : NotifyEvent) (event : Str) (db : Int32) (contended registered markersRegistered : Bool) :
    ∃ st, Frame (n.takeMarkers env markersRegistered).st st ∧
      n.onKeyspaceEvent setup env cls event key db contended registered markersRegistered =
        (n.takeMarkers env markersRegistered).note none st := by
  have hown : utf8 (n.takeMarkers env markersRegistered).st.config.pfx <+: key := by
    rw [takeMarkers_config]
    exact hk
  have hnone := selectEvent_own hown cls event db
  rcases selectEvent_cases (n.takeMarkers env markersRegistered).st cls event key db with ⟨-, hframe⟩ | ⟨hsome, -⟩
  · refine ⟨_, hframe, ?_⟩
    unfold onKeyspaceEvent
    simp only [hnone]
  · rw [hnone] at hsome
    cases hsome

theorem note_outstanding (n : Node) {st : State} (h : Unmarked n.st st) (x : Expense) :
    (n.note none st).outstanding x = n.outstanding x := by
  have hp : (n.note none st).st.pendingMarkers = n.st.pendingMarkers := h.pending
  rw [outstanding, outstanding, hp]
  rfl

/-- A dispatch adds one event at most. -/
theorem routed_outstanding {q : Queued} {lane : Lane} (hr : Routed setup q lane n n') (x : Expense) :
    n'.outstanding x ≤ n.outstanding x + Budget.event x := by
  obtain ⟨-, -, htodo, -, -, hwk, -, -⟩ := hr.control
  have hq := hr.queue
  have hj := hr.jobs
  rw [outstanding, outstanding, htodo, hwk, hr.markers.1]
  cases lane with
  | queue =>
    simp only at hq hj
    rw [hq, hj, List.length_append, List.length_singleton, ← Nat.add_assoc, Budget.each_succ]
    omega
  | fallback | job =>
    simp only at hq hj
    rw [hq, hj, List.map_append, List.sum_append]
    simp only [List.map_cons, List.map_nil, List.sum_cons, List.sum_nil, Job.share]
    omega
  | nowhere =>
    simp only at hq hj
    rw [hq, hj]
    omega

theorem onKeyspaceEvent_paidFor (hw : Wf setup n) (cls : NotifyEvent) (event : Str) {key : Bytes} (db : Int32)
    (contended registered markersRegistered : Bool) (hmay : n.mayNotify key) :
    PaidFor (.notify cls event key db contended registered markersRegistered) n
      (n.onKeyspaceEvent setup env cls event key db contended registered markersRegistered) := by
  intro x
  have htrail : Trail env (fun _ _ => False) .none n.st
      (n.onKeyspaceEvent setup env cls event key db contended registered markersRegistered).st :=
    onKeyspaceEvent_trail n cls event key db contended registered markersRegistered
  have hcalls := htrail.calls_le x
  have htake := takeMarkers_outstanding env hw markersRegistered x
  have hnone : Budget.none x = 0 := rfl
  by_cases hown : utf8 n.st.config.pfx <+: key
  · obtain ⟨st, hframe, e⟩ := onKeyspaceEvent_skips setup env n hown cls event db contended registered markersRegistered
    rw [e] at hcalls ⊢
    rw [note_outstanding _ hframe.unmarked]
    omega
  · have hallow : allowance (utf8 n.st.config.pfx) (.notify cls event key db contended registered markersRegistered) =
        .event := if_neg fun h => hown (List.isPrefixOf_iff_prefix.1 h)
    rw [hallow]
    rcases onKeyspaceEvent_cases env hw cls event db contended registered markersRegistered hmay with
      ⟨st, hframe, e⟩ | ⟨-, -, e, lane, hr⟩
    · rw [e] at hcalls ⊢
      rw [note_outstanding _ hframe.unmarked]
      omega
    · have hrouted := routed_outstanding hr x
      have hsel : ((n.takeMarkers env markersRegistered).note none { (n.takeMarkers env markersRegistered).st with
          selected := (n.takeMarkers env markersRegistered).st.selected + 1 }).outstanding x =
        (n.takeMarkers env markersRegistered).outstanding x := rfl
      omega

/-! ## Steps -/

theorem exitWorker_outstanding (n : Node) (hwk : n.worker.pending = []) (x : Expense) :
    n.exitWorker.outstanding x = n.outstanding x := by
  rw [outstanding, outstanding, hwk]
  change _ + _ + Budget.each .event (n.queue.length + 0) x + _ = _
  rw [List.length_nil, Nat.add_zero, Nat.zero_add]
  rfl

/-- What the worker takes with the lock was in the queue. -/
theorem lockWorker_outstanding (hw : Wf setup n) {snapshot : Option EnvelopeSnapshot}
    (hwk : n.worker = .spinning snapshot) (hfree : n.holder = .free) (x : Expense) :
    (n.lockWorker setup snapshot).outstanding x = n.outstanding x := by
  obtain ⟨-, htodo⟩ := hw.free hfree
  have hpend : n.worker.pending = [] := by rw [hwk]; rfl
  cases snapshot with
  | none =>
    have hlen : n.queue.length = (drain n.queue setup.batch).1.length + (drain n.queue setup.batch).2.length := by
      rw [← List.length_append, drain, List.take_append_drop]
    have hu := (countDrain_unmarked n.st (drain n.queue setup.batch).1.length).pending
    rw [outstanding, outstanding, hpend, htodo, hlen]
    change ((((drain n.queue setup.batch).1.map Task.event).map fun t => t.share x).sum + _ +
      Budget.each .event (0 + (drain n.queue setup.batch).2.length) x + Budget.each .pending
        (countDrain n.st (drain n.queue setup.batch).1.length).pendingMarkers.length x) = _
    rw [share_map_event, hu, List.length_nil, Nat.zero_add, Nat.zero_add, Budget.each_add, List.map_nil, List.sum_nil]
    change _ + (n.jobs.map fun j => j.share x).sum + _ + _ = _
    omega
  | some s =>
    simp only [lockWorker]
    cases hd : drainSnapshot n.queue s with
    | none =>
      rw [outstanding, outstanding, hpend]
      rfl
    | some queue =>
      obtain ⟨rfl, groups, htake, hslice⟩ := drainSnapshot_take hw hwk hd
      have hlen : n.queue.length = groups.flatten.length + (n.queue.drop s.count).length := by
        rw [← htake, ← List.length_append, List.take_append_drop]
      have hu := (countDrain_unmarked n.st s.count).pending
      rw [outstanding, outstanding, hpend, htodo, hlen, hslice]
      simp only
      rw [share_envelopes]
      change _ + (n.jobs.map fun j => j.share x).sum + Budget.each .event (0 + (n.queue.drop s.count).length) x +
        Budget.each .pending (countDrain n.st s.count).pendingMarkers.length x = _
      rw [hu, List.length_nil, Nat.zero_add, Nat.zero_add, Budget.each_add, List.map_nil, List.sum_nil]
      omega

theorem cron_paidFor (env : Env) (n : Node) (htodo : n.todo = []) : PaidFor .cron n (n.cron env) := by
  intro x
  have htrail : Trail env ProbeCall .select n.st (n.cron env).st := cron_trail n
  have hcalls := htrail.calls_le x
  have hallow : allowance (utf8 n.st.config.pfx) .cron x = Budget.select x + Budget.xadd .checkpoint true x := rfl
  rw [hallow]
  rcases cron_ticked env n with e | ⟨st, hu, e⟩ | ⟨-, st, control, retention, hp, -, -, -, e⟩
  · rw [e] at hcalls ⊢
    omega
  · rw [e] at hcalls ⊢
    rw [note_outstanding n hu]
    omega
  · have hout : (n.cron env).outstanding x ≤ n.outstanding x + Budget.xadd .checkpoint true x := by
      have hpend : (n.cron env).st.pendingMarkers = [] := by
        rw [e]
        exact hp
      have hlist : (n.cron env).todo = markerTasks control retention n.st.pendingMarkers ++
        [.checkpoint control retention] := by rw [e]
      have hrest : (n.cron env).jobs = n.jobs ∧ (n.cron env).worker = n.worker ∧ (n.cron env).queue = n.queue := by
        rw [e]
        exact ⟨rfl, rfl, rfl⟩
      rw [outstanding, outstanding, hpend, hlist, hrest.1, hrest.2.1, hrest.2.2, htodo, List.map_append,
        List.sum_append, share_markerTasks, List.length_nil, Budget.each_zero]
      have hmarkers : Budget.each (.xadd .marker true) n.st.pendingMarkers.length x ≤
          Budget.each .pending n.st.pendingMarkers.length x := Nat.mul_le_mul_left _ (Nat.le_add_left _ _)
      simp only [List.map_cons, List.map_nil, List.sum_cons, List.sum_nil, Task.share]
      omega
    omega

theorem runJob_paidFor {job : Job} {jobs : List Job} (htodo : n.todo = []) (hj : n.jobs = job :: jobs) :
    PaidFor .runJob n (startJob env { n with jobs := jobs } job) := by
  intro x
  have hjobs : (n.jobs.map fun j => j.share x).sum = job.share x + (jobs.map fun j => j.share x).sum := by
    rw [hj, List.map_cons, List.sum_cons]
  have hbefore : n.outstanding x = job.share x + (jobs.map fun j => j.share x).sum +
      Budget.each .event (n.worker.pending.length + n.queue.length) x +
      Budget.each .pending n.st.pendingMarkers.length x := by
    rw [outstanding, hjobs, htodo, List.map_nil, List.sum_nil, Nat.zero_add]
  rw [hbefore]
  cases job with
  | event q =>
    change n.st.calls x + (([Task.event q].map fun t => t.share x).sum + (jobs.map fun j => j.share x).sum +
      Budget.each .event (n.worker.pending.length + n.queue.length) x +
      Budget.each .pending n.st.pendingMarkers.length x) ≤ _
    simp only [List.map_cons, List.map_nil, List.sum_cons, List.sum_nil, Task.share, Job.share]
    omega
  | fallback q =>
    have htrail : Trail env (fun _ _ => False) .none n.st (countDrain n.st (drainBefore n.queue q.id).1.length) :=
      countDrain_trail n.st _
    have hcalls := htrail.calls_le x
    have hu := (countDrain_unmarked n.st (drainBefore n.queue q.id).1.length).pending
    have hlen : n.queue.length = (drainBefore n.queue q.id).1.length + (drainBefore n.queue q.id).2.length := by
      rw [← List.length_append, drainBefore, List.takeWhile_append_dropWhile]
    have hnone : Budget.none x = 0 := rfl
    change (countDrain n.st (drainBefore n.queue q.id).1.length).calls x +
      ((((drainBefore n.queue q.id).1.map Task.event ++ [Task.event q]).map fun t => t.share x).sum +
        (jobs.map fun j => j.share x).sum +
        Budget.each .event (n.worker.pending.length + (drainBefore n.queue q.id).2.length) x + Budget.each .pending
          (countDrain n.st (drainBefore n.queue q.id).1.length).pendingMarkers.length x) ≤ _
    rw [hu, hlen, List.map_append, List.sum_append, share_map_event, Budget.each_add, Budget.each_add, Budget.each_add]
    simp only [List.map_cons, List.map_nil, List.sum_cons, List.sum_nil, Task.share, Job.share]
    omega
  | markers job =>
    have hcalls := (tagSegment_trail env n.st probeCall_allowsProbes).calls_le x
    have hu := (tagSegment_unmarked env n.st).pending
    have htasks := share_markerJobTasks job (tagSegment env n.st).1 x
    have hshare : (Job.markers job).share x =
      Budget.select x + Budget.each (.xadd .marker true) job.markers.length x := rfl
    change (tagSegment env n.st).2.calls x +
      (((markerJobTasks job (tagSegment env n.st).1).map fun t => t.share x).sum +
      (jobs.map fun j => j.share x).sum + Budget.each .event (n.worker.pending.length + n.queue.length) x +
      Budget.each .pending (tagSegment env n.st).2.pendingMarkers.length x) ≤ _
    rw [hu, hshare]
    omega

theorem step_paidFor {act : Act} (hw : Wf setup n) (h : step setup env n act = some n') : PaidFor act n n' := by
  cases step_fires h with
  | acquire | release | stopSync | requestStop | finish | configure => exact .of_same rfl rfl rfl
  | notify hmay => exact onKeyspaceEvent_paidFor hw _ _ _ _ _ _ hmay
  | command _ hop => exact .of_marks (command_calls env n.st hop) (command_marks env n.st hop) rfl
  | setEnabled =>
    refine .of_marks (fun x => ?_) (enabledChanged_marks n.st _) rfl
    rw [State.calls, State.calls, (enabledChanged_resettled n.st _).trace]
  | cron hcmd _ => exact cron_paidFor env n hcmd.2.2
  | runJob _ _ htodo hj => exact runJob_paidFor htodo hj
  | @process task todo ht =>
    intro x
    have hcalls := task.run_calls env n.st x
    have hp : (task.run env n.st).pendingMarkers = n.st.pendingMarkers := (task.run_frame env n.st).unmarked.pending
    rw [outstanding, outstanding, ht, List.map_cons, List.sum_cons]
    change (task.run env n.st).calls x + ((todo.map fun t => t.share x).sum + (n.jobs.map fun j => j.share x).sum +
      Budget.each .event (n.worker.pending.length + n.queue.length) x +
      Budget.each .pending (task.run env n.st).pendingMarkers.length x) ≤ _
    rw [hp]
    omega
  | started hstart => exact .of_same rfl rfl (by rw [hstart]; rfl)
  | wake hwait _ _ => exact .of_same rfl rfl (by rw [hwait]; rfl)
  | prepare hready => exact .of_same rfl rfl (by rw [hready]; rfl)
  | unlock hhold _ _ => exact .of_same rfl rfl (by rw [hw.lock.1 hhold]; rfl)
  | notStarted hstart =>
    intro x
    rw [exitWorker_outstanding _ (by change n.worker.pending = []; rw [hstart]; rfl)]
    exact Nat.le_add_right _ _
  | stopWaiting _ hwk | stopSpinning _ hwk =>
    intro x
    rw [exitWorker_outstanding n (by rw [hwk]; rfl)]
    exact Nat.le_add_right _ _
  | @lock snapshot hwk hfree =>
    intro x
    have htrail : Trail env (fun _ _ => False) .none n.st (n.lockWorker setup snapshot).st :=
      lockWorker_trail n snapshot
    have hcalls := htrail.calls_le x
    have hnone : Budget.none x = 0 := rfl
    rw [lockWorker_outstanding hw hwk hfree]
    omega
  | @join pending hjoin hwk =>
    intro x
    obtain ⟨-, htodo⟩ := hw.joining hjoin
    have hpend : n.worker.pending = pending := by rw [hwk]; rfl
    rw [outstanding, outstanding, htodo, hpend]
    change n.st.calls x + (((pending.map Task.event).map fun t => t.share x).sum + (n.jobs.map fun j => j.share x).sum +
      Budget.each .event (0 + n.queue.length) x + Budget.each .pending n.st.pendingMarkers.length x) ≤ _
    rw [share_map_event, Nat.zero_add, Budget.each_add, List.map_nil, List.sum_nil]
    omega

theorem step_pfx {act : Act} (h : step setup env n act = some n') : n'.st.config.pfx = n.st.config.pfx :=
  (Prod.mk.inj (step_fixed h)).1

end Steps

end Node

end EventStream

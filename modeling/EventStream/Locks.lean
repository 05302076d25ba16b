import EventStream.Conservation
import EventStream.Gauges

/-!
# The locks of the worker

The worker prepares its envelopes outside the server's lock, and it takes the lock only later. Between the two a
fallback may drain the events it woke up for: the prepared snapshot is then stale, or the queue empty, and the lock was
taken for nothing.

- `spent`: what the worker woke up for is gone;
- `step_paid`: a step that takes the lock, or that takes away what the worker woke up for, counts a drain;
- `locks_paid`: so the worker takes the lock at most once for each drain that is counted, and thus at most once for each
  event that was accepted.
-/

namespace EventStream

open Text (Str Bytes)

/-! ## Queues and snapshots -/

/-- A snapshot that is the front of a queue stays its front when the queue grows. -/
theorem drainSnapshot_append {queue rest : List Queued} {s : EnvelopeSnapshot} (h : drainSnapshot queue s = some rest)
    (more : List Queued) : (drainSnapshot (queue ++ more) s).isSome = true := by
  unfold drainSnapshot at h ⊢
  split at h
  · rename_i hfront
    obtain ⟨hfirst, hlast⟩ := hfront
    obtain ⟨first, hhead, -⟩ := Option.map_eq_some_iff.1 hfirst
    obtain ⟨last, hget, -⟩ := Option.map_eq_some_iff.1 hlast
    obtain ⟨hlt, -⟩ := List.getElem?_eq_some_iff.1 hget
    rw [List.head?_append, hhead, Option.some_or, ← hhead, List.getElem?_append_left hlt, if_pos ⟨hfirst, hlast⟩]
    rfl
  · cases h

/-- What was just prepared is the front of the queue. -/
theorem drainSnapshot_prepared {queue : List Queued} {limit : Nat} {s : EnvelopeSnapshot}
    (h : prepareEnvelopes queue limit = some s) : (drainSnapshot queue s).isSome = true := by
  obtain ⟨-, first, last, hfirst, hlast, rfl⟩ := prepareEnvelopes_eq_some h
  rw [drainSnapshot, hfirst, hlast, if_pos ⟨rfl, rfl⟩]
  rfl

/-- A drained snapshot takes its events off the queue, and there is one at least. -/
theorem drainSnapshot_length {queue rest : List Queued} {s : EnvelopeSnapshot} {events : List Queued} (hs : s.Of events)
    (h : drainSnapshot queue s = some rest) : 0 < s.count ∧ rest.length + s.count = queue.length := by
  obtain ⟨first, others, rfl, -, hcount, -, -⟩ := hs
  rw [List.length_cons] at hcount
  unfold drainSnapshot at h
  split at h
  · rename_i hfront
    obtain ⟨last, hget, -⟩ := Option.map_eq_some_iff.1 hfront.2
    obtain ⟨hlt, -⟩ := List.getElem?_eq_some_iff.1 hget
    injection h with h
    rw [← h, List.length_drop]
    omega
  · cases h

namespace Node

/-! ## What a step pays -/

theorem countDrain_drains (st : State) (count : Nat) :
    (countDrain st count).value .asyncDrains = st.value .asyncDrains + if count = 0 then 0 else 1 := by
  unfold countDrain
  simp only
  split
  · rfl
  · rfl

theorem countDrain_drainEvents (st : State) (count : Nat) :
    (countDrain st count).value .asyncDrainEvents = st.value .asyncDrainEvents + count := by
  unfold countDrain
  simp only
  split
  · rename_i hzero
    rw [hzero]
    rfl
  · rfl

/-- What the worker woke up for is gone: were it to take the lock now, it would drain nothing. -/
def spent (n : Node) : Bool :=
  match n.worker with
  | .ready => n.queue.isEmpty
  | .spinning none => n.queue.isEmpty
  | .spinning (some s) => (drainSnapshot n.queue s).isNone
  | _ => false

/-- The steps by which the worker takes the server's lock. -/
def takesLock (_ : Node) : Act → Bool
  | .workerLock => true
  | _ => false

/-- What a step pays: a drain is counted where the lock is taken or what the worker woke up for goes away; a drain has
an event at least; and what is drained was accepted. -/
structure Paid (act : Act) (n n' : Node) : Prop where
  lock : (n.takesLock act).toNat + n'.spent.toNat + n.st.value .asyncDrains ≤ n.spent.toNat + n'.st.value .asyncDrains
  drain : n'.st.value .asyncDrains + n.st.value .asyncDrainEvents ≤ n.st.value .asyncDrains +
    n'.st.value .asyncDrainEvents
  event : n'.st.value .asyncDrainEvents + n'.queue.length + n.st.value .asyncEnqueued ≤
    n.st.value .asyncDrainEvents + n.queue.length + n'.st.value .asyncEnqueued

section Steps

variable {setup : Setup} {env : Env} {n n' : Node}

/-- A step that leaves the worker, the queue and the gauges alone. -/
theorem Paid.of_same {act : Act} (hact : n.takesLock act = false) (hwk : n'.worker = n.worker) (hq : n'.queue = n.queue)
    (hg : Apart n.st n'.st) : Paid act n n' := by
  have hspent : n'.spent = n.spent := by rw [spent, spent, hwk, hq]
  have hd := hg.value .asyncDrains rfl
  have he := hg.value .asyncDrainEvents rfl
  have ha := hg.value .asyncEnqueued rfl
  refine ⟨?_, ?_, ?_⟩
  · rw [hact, hspent, hd, Bool.toNat_false]
    omega
  · rw [hd, he]
  · rw [he, ha, hq]

/-- A step of a worker that had nothing in view, or has nothing in view any more. -/
theorem Paid.of_worker {act : Act} (hact : n.takesLock act = false) (hspent : n'.spent = true → n.spent = true)
    (hq : n'.queue.length ≤ n.queue.length) (hg : ∀ c, c ∈ [Counter.asyncDrains, .asyncDrainEvents, .asyncEnqueued] →
      n'.st.value c = n.st.value c) : Paid act n n' := by
  have hd := hg .asyncDrains (by decide)
  have he := hg .asyncDrainEvents (by decide)
  have ha := hg .asyncEnqueued (by decide)
  have hle : n'.spent.toNat ≤ n.spent.toNat := Bool.toNat_le_toNat hspent
  refine ⟨?_, ?_, ?_⟩
  · rw [hact, hd, Bool.toNat_false]
    omega
  · rw [hd, he]
  · rw [he, ha]
    omega

/-- A drain, by the worker or by a fallback. -/
theorem Paid.of_drain {act : Act} (count : Nat) (hcount : n'.queue.length + count = n.queue.length)
    (hst : n'.st = countDrain n.st count)
    (hlock : (n.takesLock act).toNat + n'.spent.toNat ≤ n.spent.toNat + if count = 0 then 0 else 1) :
    Paid act n n' := by
  have hd := countDrain_drains n.st count
  have he := countDrain_drainEvents n.st count
  have ha := countDrain_value n.st count (c := .asyncEnqueued) (by decide)
  rw [← hst] at hd he ha
  refine ⟨?_, ?_, ?_⟩
  · rw [hd]
    omega
  · rw [hd, he]
    split <;> omega
  · rw [he, ha]
    omega

/-- The queue grew: what the worker has in view is still there. -/
theorem spent_push {q : Queued} (hwk : n'.worker = n.worker) (hq : n'.queue = n.queue ++ [q]) (h : n'.spent = true) :
    n.spent = true := by
  unfold spent at h ⊢
  rw [hwk, hq] at h
  split at h
  · simp at h
  · simp at h
  · rename_i s _
    cases hd : drainSnapshot n.queue s with
    | none => rfl
    | some rest =>
      rw [Option.isNone_iff_eq_none] at h
      have hsome := drainSnapshot_append hd [q]
      rw [h] at hsome
      cases hsome
  · cases h

/-! ## Notifications -/

/-- What the dispatch of an event does to the queue and to the gauges of the drains. -/
theorem dispatchPendingEvent_pushed (setup : Setup) (env : Env) (n : Node) (event : PendingEvent)
    (contended registered : Bool) :
    let n' := dispatchPendingEvent setup env n event contended registered
    n'.worker = n.worker ∧ n'.st.value .asyncDrains = n.st.value .asyncDrains ∧
      n'.st.value .asyncDrainEvents = n.st.value .asyncDrainEvents ∧
      ((n'.queue = n.queue ∧ n'.st.value .asyncEnqueued = n.st.value .asyncEnqueued) ∨
        ∃ q, n'.queue = n.queue ++ [q] ∧ n'.st.value .asyncEnqueued = n.st.value .asyncEnqueued + 1) := by
  unfold dispatchPendingEvent deferPendingEvent deferOrderedFallback
  simp only
  split
  · split <;> exact ⟨rfl, rfl, rfl, Or.inl ⟨rfl, rfl⟩⟩
  split
  · split <;> exact ⟨rfl, rfl, rfl, Or.inl ⟨rfl, rfl⟩⟩
  split
  · rename_i htry
    exact ⟨rfl, rfl, rfl, Or.inr ⟨_, tryPush_some htry, rfl⟩⟩
  · split <;> exact ⟨rfl, rfl, rfl, Or.inl ⟨rfl, rfl⟩⟩

theorem onKeyspaceEvent_paid (setup : Setup) (env : Env) (n : Node) (cls : NotifyEvent) (event : Str) (key : Bytes)
    (db : Int32) (contended registered markersRegistered : Bool) :
    Paid (.notify cls event key db contended registered markersRegistered) n
      (n.onKeyspaceEvent setup env cls event key db contended registered markersRegistered) := by
  have hflush : Apart n.st (n.takeMarkers env markersRegistered).st := flushMarkers_apart env n.st markersRegistered
  have hselect := hflush.trans (selectEvent_apart _ cls event key db)
  unfold onKeyspaceEvent
  simp only
  cases (selectEvent (n.takeMarkers env markersRegistered).st cls event key db).2 with
  | none => exact .of_same rfl rfl rfl hselect
  | some e =>
    generalize hn₁ : (n.takeMarkers env markersRegistered).note none
      (selectEvent (n.takeMarkers env markersRegistered).st cls event key db).1 = n₁
    change Paid _ n (dispatchPendingEvent setup env n₁ e contended registered)
    have hwk : n₁.worker = n.worker := by rw [← hn₁]; rfl
    have hq : n₁.queue = n.queue := by rw [← hn₁]; rfl
    have hst : Apart n.st n₁.st := by rw [← hn₁]; exact hselect
    obtain ⟨hworker, hd, he, hpush⟩ := dispatchPendingEvent_pushed setup env n₁ e contended registered
    rw [hwk] at hworker
    rw [hst.value .asyncDrains rfl] at hd
    rw [hst.value .asyncDrainEvents rfl] at he
    rw [hst.value .asyncEnqueued rfl, hq] at hpush
    generalize dispatchPendingEvent setup env n₁ e contended registered = n' at hworker hd he hpush ⊢
    rcases hpush with ⟨hqueue, ha⟩ | ⟨q, hqueue, ha⟩
    · have hspent : n'.spent = n.spent := by rw [spent, spent, hworker, hqueue]
      refine .of_worker rfl (fun h => hspent ▸ h) (le_of_eq (congrArg List.length hqueue)) ?_
      intro c hc
      simp only [List.mem_cons, List.not_mem_nil, or_false] at hc
      rcases hc with rfl | rfl | rfl
      · exact hd
      · exact he
      · exact ha
    · have hle : n'.spent.toNat ≤ n.spent.toNat := Bool.toNat_le_toNat (spent_push hworker hqueue)
      refine ⟨?_, ?_, ?_⟩
      · rw [hd]
        change 0 + _ + _ ≤ _
        omega
      · rw [hd, he]
      · rw [he, ha, hqueue, List.length_append, List.length_singleton]
        omega

/-! ## Steps -/

/-- A worker that takes the lock counts a drain, unless what it woke up for is gone. -/
theorem lockWorker_paid (hw : Wf setup n) {snapshot : Option EnvelopeSnapshot} (hwk : n.worker = .spinning snapshot) :
    Paid .workerLock n (n.lockWorker setup snapshot) := by
  have hdone : (n.lockWorker setup snapshot).spent = false := by
    rw [spent, (lockWorker_control setup n snapshot).1]
  cases snapshot with
  | none =>
    have hspent : n.spent = n.queue.isEmpty := by rw [spent, hwk]
    refine .of_drain (drain n.queue setup.batch).1.length ?_ rfl ?_
    · simp [lockWorker, drain]
    · rw [hdone, hspent]
      have hbatch := setup.batch_pos
      cases hq : n.queue with
      | nil => simp [takesLock, drain]
      | cons q rest =>
        have hsome : (drain (q :: rest) setup.batch).1.length ≠ 0 := by
          rw [drain, List.length_take, List.length_cons]
          omega
        rw [if_neg hsome]
        exact Nat.le_refl _
  | some s =>
    obtain ⟨events, hof, -, -⟩ := hw.snapshot s hwk
    have hspent : n.spent = (drainSnapshot n.queue s).isNone := by rw [spent, hwk]
    cases hd : drainSnapshot n.queue s with
    | none =>
      have hl : n.lockWorker setup (some s) = { n with holder := .worker, worker := .holding } := by
        simp only [lockWorker, hd]
      rw [hd] at hspent
      rw [hl] at hdone ⊢
      refine ⟨?_, le_of_eq rfl, le_of_eq rfl⟩
      rw [hspent, hdone]
      exact Nat.le_refl _
    | some rest =>
      obtain ⟨hpos, hlen⟩ := drainSnapshot_length hof hd
      refine .of_drain s.count ?_ ?_ ?_
      · simp only [lockWorker, hd]
        exact hlen
      · simp only [lockWorker, hd]
        rfl
      · rw [hdone, if_neg (by omega)]
        exact Nat.le_add_left _ _

theorem step_paid {act : Act} (hw : Wf setup n) (h : step setup env n act = some n') : Paid act n n' := by
  cases step_fires h with
  | acquire | release | stopSync | finish => exact .of_same rfl rfl rfl (.refl _)
  | notify => exact onKeyspaceEvent_paid setup env n _ _ _ _ _ _ _
  | command _ hop => exact .of_same rfl rfl rfl (command_apart env n.st hop)
  | setEnabled => exact .of_same rfl rfl rfl (enabledChanged_apart _ _)
  | configure => exact .of_same rfl rfl rfl (.of_counters rfl rfl rfl)
  | cron =>
    have hc := cron_counters env n
    have hvalue : ∀ c, (n.cron env).st.value c = n.st.value c := fun c => by rw [State.value, State.value, hc]
    have hsame : (n.cron env).worker = n.worker ∧ (n.cron env).queue = n.queue := by
      rcases cron_ticked env n with e | ⟨st, -, e⟩ | ⟨-, st, control, retention, -, -, -, -, e⟩
      all_goals
        rw [e]
        exact ⟨rfl, rfl⟩
    have hspent : (n.cron env).spent = n.spent := by rw [spent, spent, hsame.1, hsame.2]
    exact .of_worker rfl (fun h => hspent ▸ h) (le_of_eq (congrArg List.length hsame.2)) fun c _ => hvalue c
  | @runJob job jobs _ _ _ _ =>
    cases job with
    | event q => exact .of_same rfl rfl rfl (.refl _)
    | markers job =>
      exact .of_worker rfl id (Nat.le_refl _) fun c _ => by
        change (tagSegment env n.st).2.value c = n.st.value c
        rw [State.value, State.value, tagSegment_counters]
    | fallback q =>
      have hsplit : (drainBefore n.queue q.id).1 ++ (drainBefore n.queue q.id).2 = n.queue :=
        List.takeWhile_append_dropWhile
      refine .of_drain (drainBefore n.queue q.id).1.length ?_ rfl ?_
      · have hlen := congrArg List.length hsplit
        rw [List.length_append] at hlen
        change (drainBefore n.queue q.id).2.length + _ = _
        omega
      · split
        · -- nothing was drained, and the worker finds the queue as it was
          rename_i hnone
          rw [List.length_eq_zero_iff] at hnone
          rw [hnone, List.nil_append] at hsplit
          have hqueue : (startJob env { n with jobs := jobs } (.fallback q)).queue = n.queue := hsplit
          have hspent : (startJob env { n with jobs := jobs } (.fallback q)).spent = n.spent := by
            rw [spent, spent, hqueue]
            rfl
          rw [hspent]
          exact le_of_eq (Nat.add_comm _ _)
        · have hle := Bool.toNat_le (startJob env { n with jobs := jobs } (.fallback q)).spent
          change 0 + _ ≤ _
          omega
  | @process task todo _ => exact .of_same rfl rfl rfl (Task.run_apart env n.st task)
  | started hstart => exact .of_worker rfl (fun h => by cases h) (Nat.le_refl _) fun _ _ => rfl
  | notStarted hstart =>
    refine .of_worker rfl (fun h => by cases h) (Nat.zero_le _) fun c hc => ?_
    have hne : c ≠ .asyncWorkerErrors := by
      rintro rfl
      revert hc
      decide
    exact if_neg hne
  | wake _ _ hqueue =>
    refine .of_worker rfl (fun h => absurd (List.isEmpty_iff.1 h) hqueue) (Nat.le_refl _) fun _ _ => rfl
  | prepare hready =>
    refine .of_worker rfl (fun h => ?_) (Nat.le_refl _) fun _ _ => rfl
    have hspent : n.spent = n.queue.isEmpty := by rw [spent, hready]
    rw [hspent]
    split at h
    · cases hp : prepareEnvelopes n.queue setup.batch with
      | none =>
        rw [hp] at h
        exact h
      | some s =>
        rw [hp] at h
        have hsome := drainSnapshot_prepared hp
        rw [Option.isNone_iff_eq_none.1 h] at hsome
        cases hsome
    · exact h
  | lock hwk _ => exact lockWorker_paid hw hwk
  | unlock | join => exact .of_worker rfl (fun h => by cases h) (Nat.le_refl _) fun _ _ => rfl
  | stopWaiting | stopSpinning => exact .of_worker rfl (fun h => by cases h) (Nat.zero_le _) fun _ _ => rfl
  | requestStop => exact .of_worker rfl id (Nat.le_refl _) fun _ _ => rfl

/-! ## Runs -/

/-- The runs from a load with the number of times that the worker took the server's lock. -/
abbrev Locked (setup : Setup) (env : Env) : Nat → Node → Prop :=
  Machine.Counted (fun n act n' => step setup env n act = some n') (fun _ _ => True) (Loaded setup env) takesLock

theorem loaded_unspent (h : Loaded setup env n) : n.spent = false ∧ n.queue = [] := by
  obtain ⟨config, host, ks, generation, master, loading, mode, -, rfl⟩ := h
  refine ⟨?_, rfl⟩
  rw [spent, initial]
  cases mode <;> rfl

/-- The worker takes the server's lock at most once for each drain that is counted, whatever the fallbacks drain in
between: a lock taken for nothing is matched by the drain of the fallback that left nothing. A drain that is counted has
an event at least, and so there are at most as many locks as accepted events. -/
theorem locks_paid (setup : Setup) (env : Env) (k : Nat) (n : Node) (h : Locked setup env k n) :
    k ≤ n.st.value .asyncDrains ∧ n.st.value .asyncDrains ≤ n.st.value .asyncDrainEvents ∧
      n.st.value .asyncDrainEvents + n.queue.length ≤ n.st.value .asyncEnqueued := by
  -- a lock that will be taken for nothing is already paid for
  have hall : k + n.spent.toNat ≤ n.st.value .asyncDrains ∧ n.st.value .asyncDrains ≤ n.st.value .asyncDrainEvents ∧
      n.st.value .asyncDrainEvents + n.queue.length ≤ n.st.value .asyncEnqueued := by
    refine Machine.Counted.invariant (I := fun k n => k + n.spent.toNat ≤ n.st.value .asyncDrains ∧
      n.st.value .asyncDrains ≤ n.st.value .asyncDrainEvents ∧
      n.st.value .asyncDrainEvents + n.queue.length ≤ n.st.value .asyncEnqueued) (fun n hl => ?_)
      (fun k n act n' hr _ hs ih => ?_) h
    · obtain ⟨hspent, hqueue⟩ := loaded_unspent hl
      have hzero := (loaded_zero hl).1
      rw [hspent, hqueue, hzero, hzero, hzero]
      exact ⟨Nat.le_refl _, Nat.le_refl _, Nat.le_refl _⟩
    · have hp := step_paid (Reach.wf hr) hs
      obtain ⟨hlock, hdrain, hevent⟩ := ih
      have hone : (if n.takesLock act then 1 else 0) = (n.takesLock act).toNat := by cases n.takesLock act <;> rfl
      rw [hone]
      refine ⟨?_, ?_, ?_⟩
      · have := hp.lock
        omega
      · have := hp.drain
        omega
      · have := hp.event
        omega
  exact ⟨Nat.le_of_add_right_le hall.1, hall.2⟩

/-- Envelopes of one event, and a queue of one event. -/
def slim : Setup := ⟨.envelope, 1, 1, Nat.one_pos, Nat.one_pos⟩

def slimLoad : Node := initial .envelope (loadedState .calm .defaults false .empty "0".toList true false)

theorem slimLoad_loaded : Loaded slim .calm slimLoad :=
  ⟨.defaults, ⟨false, true, false, .ok ()⟩, .empty, "0".toList, true, false, .envelope, rfl, rfl⟩

/-- The worker prepares an envelope of the first event; the fallback of the second drains that event; and the worker
takes the lock with a stale envelope. -/
def staleLock : List Act :=
  [.workerStart true, expire [97], .workerWake, .workerPrepare, expire [98], .runJob, .process, .runJob,
    .process, .process, .release, .workerLock]

theorem locks_paid_stale : ∃ n, Machine.run (step slim .calm) (fun _ _ => True) slimLoad staleLock = some n ∧
    n.worker = .holding ∧ n.taken = [] ∧ n.st.value .asyncDrains = 1 ∧ 1 ≤ n.st.value .asyncDrains ∧
    n.st.value .asyncDrainEvents + n.queue.length ≤ n.st.value .asyncEnqueued := by
  have hrun : (Machine.run (step slim .calm) (fun _ _ => True) slimLoad staleLock).map
      (fun n => (n.worker, n.taken.map Queued.id, n.st.value .asyncDrains)) =
        some (.holding, [], 1) := by decide +kernel
  obtain ⟨n, hn, hall⟩ := Option.map_eq_some_iff.1 hrun
  obtain ⟨hwk, hall⟩ := Prod.mk.inj hall
  obtain ⟨htaken, hdrains⟩ := Prod.mk.inj hall
  have htally : Machine.tally (step slim .calm) takesLock slimLoad staleLock = 1 := by decide +kernel
  have hcounted := Machine.counted_of_run (p := takesLock) (.start slimLoad_loaded) hn
  rw [htally, Nat.zero_add] at hcounted
  have hpaid := locks_paid slim .calm 1 n hcounted
  exact ⟨n, hn, hwk, List.map_eq_nil_iff.1 htaken, hdrains, hpaid.1, hpaid.2.2⟩

end Steps

end Node

end EventStream

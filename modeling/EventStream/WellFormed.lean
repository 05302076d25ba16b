import EventStream.Node

/-!
# Well-formed nodes

What holds of a node throughout its runs: who holds the lock, what the ids of queued events are, and when a prepared
snapshot is still the front of the queue (`Wf`).

- `flushMarkers_cases`, `selectEvent_cases`, `Routed`, `Ticked`: what the callback and the cron do, said once;
- `step_wf`, `Reach.wf`: every step keeps a node well formed.
-/

namespace EventStream

open Text (Str Bytes utf8)

/-! ## What a step does to the state -/

/-- The state goes on: the trace and the ledger only grow, and no deferral failed. -/
structure Onward (st st' : State) : Prop where
  deferrals : st'.deferrals = st.deferrals
  ledger : st.counters.ledger <+: st'.counters.ledger
  longer : st.trace <+: st'.trace

/-- The state goes on, and no marker was recorded or taken and no event selected. -/
structure Unmarked (st st' : State) : Prop extends Onward st st' where
  pending : st'.pendingMarkers = st.pendingMarkers
  dirty : st'.markersDirty = st.markersDirty
  recorded : st'.recorded = st.recorded
  selected : st'.selected = st.selected

/-- The state goes on, and one marker was recorded. -/
structure Marks (st st' : State) : Prop extends Onward st st' where
  pending : ∃ marker, st'.pendingMarkers = st.pendingMarkers ++ [⟨marker, st.recorded, st.selected⟩]
  dirty : st'.markersDirty = true
  recorded : st'.recorded = st.recorded + 1
  selected : st'.selected = st.selected

theorem Onward.trans {st st' st'' : State} (h : Onward st st') (h' : Onward st' st'') : Onward st st'' :=
  ⟨h'.deferrals.trans h.deferrals, h.ledger.trans h'.ledger, h.longer.trans h'.longer⟩

/-- States with the same counters. -/
theorem Onward.of_eq {st st' : State} (hc : st'.counters = st.counters) (ht : st.trace <+: st'.trace) : Onward st st' :=
  ⟨by rw [State.deferrals, State.deferrals, hc], hc ▸ List.prefix_refl _, ht⟩

theorem Unmarked.trans {st st' st'' : State} (h : Unmarked st st') (h' : Unmarked st' st'') : Unmarked st st'' :=
  ⟨h.toOnward.trans h'.toOnward, h'.pending.trans h.pending, h'.dirty.trans h.dirty, h'.recorded.trans h.recorded,
    h'.selected.trans h.selected⟩

/-- States that agree on all that markers, counters and calls depend on. -/
theorem Unmarked.of_eq {st st' : State} (h : (st'.pendingMarkers, st'.markersDirty, st'.recorded, st'.selected) =
    (st.pendingMarkers, st.markersDirty, st.recorded, st.selected)) (hc : st'.counters = st.counters)
    (ht : st.trace <+: st'.trace) : Unmarked st st' := by
  simp only [Prod.mk.injEq] at h
  exact ⟨.of_eq hc ht, h.1, h.2.1, h.2.2.1, h.2.2.2⟩

theorem Unmarked.of_rfl {st st' : State} (h : (st'.pendingMarkers, st'.markersDirty, st'.recorded, st'.selected,
    st'.counters, st'.trace) = (st.pendingMarkers, st.markersDirty, st.recorded, st.selected, st.counters, st.trace)) :
    Unmarked st st' := by
  simp only [Prod.mk.injEq] at h
  obtain ⟨hp, hd, hr, hs, hc, ht⟩ := h
  exact ⟨.of_eq hc (ht ▸ List.prefix_refl _), hp, hd, hr, hs⟩

theorem Frame.unmarked {st st' : State} (h : Frame st st') : Unmarked st st' := by
  have hs := h.standing
  simp only [State.standing, Prod.mk.injEq] at hs
  exact ⟨⟨h.deferrals, h.ledger, h.longer⟩, hs.1, hs.2.1, hs.2.2.1, hs.2.2.2.1⟩

theorem Task.run_frame (env : Env) (st : State) (t : Task) : Frame st (t.run env st) := by
  have hs : Steps env (fun _ => True) st (t.run env st) := by
    cases t with
    | event q => exact process_steps st (.event q.event) fun _ _ _ _ => trivial
    | envelope qs fields => exact process_steps st (.envelope (qs.map Queued.event) fields) fun _ _ _ _ => trivial
    | marker control retention m => exact writeMarker_steps st control _ _ retention
    | noSlot m => exact countNoSlotDrop_steps st (by decide) false
    | checkpoint control retention => exact writeCheckpoint_steps st control retention
  exact Steps.frame hs

theorem recordPendingMarker_marks (st : State) (marker : PendingMarker) : Marks st (recordPendingMarker st marker) :=
  ⟨.of_eq rfl (List.prefix_refl _), ⟨marker, rfl⟩, rfl, rfl, rfl⟩

/-- A marker that is recorded after a step that records none. -/
theorem Unmarked.marks {st st' st'' : State} (h : Unmarked st st') (h' : Marks st' st'') : Marks st st'' := by
  obtain ⟨marker, hp⟩ := h'.pending
  rw [h.pending, h.recorded, h.selected] at hp
  exact ⟨h.toOnward.trans h'.toOnward, ⟨marker, hp⟩, h'.dirty, by rw [h'.recorded, h.recorded],
    h'.selected.trans h.selected⟩

theorem Marks.unmarked {st st' st'' : State} (h : Marks st st') (h' : Unmarked st' st'') : Marks st st'' := by
  obtain ⟨marker, hp⟩ := h.pending
  exact ⟨h.toOnward.trans h'.toOnward, ⟨marker, h'.pending.trans hp⟩, h'.dirty.trans h.dirty,
    h'.recorded.trans h.recorded, h'.selected.trans h.selected⟩

theorem clearStats_unmarked (st : State) : Unmarked st st.clearStats := .of_eq rfl rfl (List.prefix_append _ _)

theorem cmdPrune_unmarked (env : Env) (st : State) : Unmarked st (cmdPrune env st).2 := by
  refine cmdPrune_invariant (I := Unmarked st) (fun hp h => h.trans ?_) (.of_rfl rfl)
  cases hp with
  | aside h => exact h.toFrame.unmarked
  | refused registry name msg h => exact (Frame.of_call h).unmarked
  | removed registry name habsent hcall =>
    refine (Frame.of_call hcall).unmarked.trans ?_
    unfold forgetStream
    simp only
    split <;> exact .of_eq rfl rfl (List.prefix_append _ _)

/-- A command records at most one marker. -/
theorem command_marks (env : Env) (st : State) {op : Op} (h : Node.isCommand op = true) :
    Unmarked st (op.apply env st) ∨ Marks st (op.apply env st) := by
  cases op with
  | flush dbnum =>
    have hc := clearStats_unmarked st
    simp only [Op.apply, flushCommand, onFlushStarted]
    split
    · exact Or.inr ((hc.marks (recordPendingMarker_marks _ _)).unmarked (.of_rfl rfl))
    · exact Or.inl (hc.trans (.of_rfl rfl))
  | swapdb first second =>
    have hk : Unmarked st { st with keyspace := st.keyspace.swap first second } := .of_rfl rfl
    simp only [Op.apply, swapCommand, onSwapdb]
    split
    · exact Or.inl hk
    · split
      · exact Or.inl hk
      · exact Or.inr ⟨.of_eq rfl (List.prefix_append _ _), ⟨.simple .swapdb, rfl⟩, rfl, rfl, rfl⟩
  | prune => exact Or.inl (cmdPrune_unmarked env st)
  | setAutoGroup name =>
    simp only [Op.apply, setAutoGroup]
    cases validateAutoGroup name with
    | error e => exact Or.inl (.of_rfl rfl)
    | ok _ => exact Or.inl (.of_rfl rfl)
  | setFirehose on | role master loading | client db key obj => exact Or.inl (.of_rfl rfl)
  | process h' | marker control action db retention | checkpoint control retention | reset perNode => cases h

theorem enabledChanged_marks (st : State) (now : Bool) :
    Unmarked st (Node.enabledChanged st now) ∨ Marks st (Node.enabledChanged st now) := by
  unfold Node.enabledChanged
  split
  · exact Or.inl (.of_rfl rfl)
  · exact Or.inr ⟨.of_eq rfl (List.prefix_refl _), ⟨_, rfl⟩, rfl, rfl, rfl⟩

/-- A failed deferral is noted as such. -/
theorem charge_deferrals (st : State) {why : Purpose} {c : Counter} {n : Nat} (h : isDeferral ⟨why, c, n⟩ = true) :
    (st.charge why c n).deferrals = st.deferrals ++ [⟨why, c, n⟩] := by
  simp [State.deferrals, State.charge, h]

theorem countDrop_deferrals (env : Env) (st : State) {why : Purpose} {c : Counter} (latch : Latch) (detail : Str)
    (h : isDeferral ⟨why, c, 1⟩ = true) :
    (countDrop env st why c latch detail).deferrals = st.deferrals ++ [⟨why, c, 1⟩] := charge_deferrals st h

/-- What the failed registration of a job for markers adds to the deferrals. -/
def markerDeferrals (count : Nat) : List Charge :=
  ⟨.marker, .droppedDeferError, 1⟩ :: if 1 < count then [⟨.marker, .droppedDeferError, count - 1⟩] else []

/-- What dropping the pending markers adds, and what it leaves alone. -/
theorem dropMarkers_spec (env : Env) (st : State) :
    let st' := dropMarkers env st
    (st'.recorded = st.recorded ∧ st'.selected = st.selected ∧ st'.capturing = st.capturing ∧ st'.config = st.config) ∧
      st'.pendingMarkers = [] ∧ st.counters.ledger <+: st'.counters.ledger ∧ st'.trace = st.trace ∧
      st'.deferrals = st.deferrals ++ markerDeferrals st.pendingMarkers.length := by
  unfold dropMarkers
  simp only
  split
  · rename_i hmany
    refine ⟨⟨rfl, rfl, rfl, rfl⟩, rfl, (List.prefix_append _ _).trans (List.prefix_append _ _), rfl, ?_⟩
    rw [charge_deferrals _ rfl, countDrop_deferrals env _ _ _ rfl, markerDeferrals, if_pos hmany, List.append_assoc]
    rfl
  · rename_i hone
    refine ⟨⟨rfl, rfl, rfl, rfl⟩, rfl, List.prefix_append _ _, rfl, ?_⟩
    rw [countDrop_deferrals env _ _ _ rfl, markerDeferrals, if_neg hone]
    rfl

/-- The drain at the top of the callback takes all pending markers or none, and none only outside the capturing master
or when there are none. -/
theorem flushMarkers_cases (env : Env) (st : State) (registered : Bool)
    (hdirty : st.markersDirty = false → st.pendingMarkers = []) :
    let r := flushMarkers env st registered
    r.1.recorded = st.recorded ∧ r.1.selected = st.selected ∧ r.1.capturing = st.capturing ∧ r.1.config = st.config ∧
      ((r.2 = none ∧ r.1.pendingMarkers = st.pendingMarkers ∧ (r.1.markersDirty = false → st.pendingMarkers = []) ∧
          (st.pendingMarkers = [] ∨ st.capturing = false) ∧ Onward st r.1) ∨
        ((st.pendingMarkers ≠ [] ∧ st.capturing = true) ∧ r.1.pendingMarkers = [] ∧ r.2 = none ∧
          st.counters.ledger <+: r.1.counters.ledger ∧
          r.1.trace = st.trace ∧ r.1.deferrals = st.deferrals ++ markerDeferrals st.pendingMarkers.length) ∨
        ((st.pendingMarkers ≠ [] ∧ st.capturing = true) ∧ r.1.pendingMarkers = [] ∧ Onward st r.1 ∧
          r.2 = some ⟨st.config.pfx, controlRetention st, st.pendingMarkers⟩)) := by
  have hon : ∀ markers dirty, Onward st { st with pendingMarkers := markers, markersDirty := dirty } :=
    fun _ _ => .of_eq rfl (List.prefix_refl _)
  have h := flushMarkers_flushed env st registered
  dsimp only
  generalize flushMarkers env st registered = r at h
  cases h with
  | kept h =>
    have hnone : st.pendingMarkers = [] ∨ st.capturing = false := h.imp_left hdirty
    exact ⟨rfl, rfl, rfl, rfl, Or.inl ⟨rfl, rfl, hdirty, hnone, hon _ _⟩⟩
  | empty hp => exact ⟨rfl, rfl, rfl, rfl, Or.inl ⟨rfl, hp.symm, fun _ => hp, Or.inl hp, hon _ _⟩⟩
  | deferred hp hcap => exact ⟨rfl, rfl, rfl, rfl, Or.inr (Or.inr ⟨⟨hp, hcap⟩, rfl, hon _ _, rfl⟩)⟩
  | dropped hp hcap =>
    obtain ⟨hstays, hpending, hledger, htrace, hdef⟩ := dropMarkers_spec env st
    exact ⟨hstays.1, hstays.2.1, hstays.2.2.1, hstays.2.2.2,
      Or.inr (Or.inl ⟨⟨hp, hcap⟩, hpending, rfl, hledger, htrace, hdef⟩)⟩

theorem gateCounters_plain : ∀ c ∈ gateCounters, c.isPlain = true := by decide

/-- The gates: a notification is skipped, or a foreign key's event is selected on the capturing master. -/
theorem selectEvent_cases (st : State) (cls : NotifyEvent) (event : Str) (key : Bytes) (db : Int32) :
    let r := selectEvent st cls event key db
    (r.2 = none ∧ Frame st r.1) ∨
      (r.2 = some (snapshot st cls event key db) ∧ r.1 = { st with selected := st.selected + 1 } ∧
        st.capturing = true ∧ (utf8 st.config.pfx).isPrefixOf key = false) := by
  have h := selectEvent_gated st cls event key db
  dsimp only
  generalize selectEvent st cls event key db = r at h
  cases h with
  | passedOver => exact Or.inl ⟨rfl, .refl st⟩
  | skipped hc => exact Or.inl ⟨rfl, .of_charge st (isDeferral_plain .dispatch 1 (gateCounters_plain _ hc))⟩
  | selected hcap hkey => exact Or.inr ⟨rfl, rfl, hcap, hkey⟩

namespace Node

/-! ## Well-formed nodes -/

structure Wf (setup : Setup) (n : Node) : Prop where
  free : n.holder = .free → n.jobs = [] ∧ n.todo = []
  lock : n.holder = .worker ↔ n.worker = .holding
  stopping : n.phase ≠ .running → n.holder = .main
  joining : n.phase = .joining → n.jobs = [] ∧ n.todo = []
  mode : n.phase = .running → n.activeMode = setup.mode
  slot : setup.mode ≠ .sync → n.phase = .running → n.slot = true ∧ n.nextId = n.dispatched.length
  absent : setup.mode = .sync → n.worker = .absent
  selected : n.st.selected = n.dispatched.length
  dirty : n.st.markersDirty = false → n.st.pendingMarkers = []
  ascending : Ascending Queued.id n.queue
  below : ∀ q ∈ n.queue, q.id < n.dispatched.length
  /-- A prepared snapshot is the front of the queue, or what it starts with is gone. -/
  snapshot : ∀ s, n.worker = .spinning (some s) → ∃ events, s.Of events ∧ s.firstId < n.dispatched.length ∧
    (events <+: n.queue ∨ ∀ q ∈ n.queue, s.firstId < q.id)

section Wf

variable {setup : Setup} {env : Env} {n n' : Node}

/-- A load leaves fresh statics but for its identity, its markers and the time of the last checkpoint. -/
theorem loadedState_eq (env : Env) (config : Config) (cluster : Bool) (ks : Keyspace) (generation : Str)
    (master loading : Bool) :
    ∃ markers recorded ms, loadedState env config cluster ks generation master loading =
      { State.fresh { config with perNode := cluster } ks with
        generationId := generation
        master := master
        loading := loading
        pendingMarkers := markers
        markersDirty := true
        recorded := recorded
        lastCheckpointMs := ms } := by
  unfold loadedState
  cases config.enabled <;> simp only [if_true, Bool.false_eq_true, if_false] <;> split <;> exact ⟨_, _, _, rfl⟩

/-- A start that succeeds puts the configured mode in force; the worker modes ask for the narrow configuration. -/
theorem startDispatchWorker_ok {config : Config} {host : Host} {mode : WriteMode}
    (h : startDispatchWorker setup config host = .ok mode) :
    mode = setup.mode ∧ (setup.mode ≠ .sync → host.cluster = false ∧ config.firehose = false ∧
      config.entrySeq = false ∧ config.entryFormat = .fixed ∧ config.retentionMs = 0 ∧
      config.maxlenOverrides = []) := by
  unfold startDispatchWorker at h
  by_cases hsync : setup.mode = .sync
  · rw [if_pos hsync] at h
    cases h
    exact ⟨hsync.symm, fun hne => absurd hsync hne⟩
  · rw [if_neg hsync] at h
    obtain ⟨hcluster, h⟩ := ok_of_gate h
    obtain ⟨hfirehose, h⟩ := ok_of_gate h
    obtain ⟨hseq, h⟩ := ok_of_gate h
    obtain ⟨hformat, h⟩ := ok_of_gate h
    obtain ⟨hretention, h⟩ := ok_of_gate h
    obtain ⟨hoverrides, h⟩ := ok_of_gate h
    obtain ⟨-, h⟩ := ok_of_gate h
    obtain ⟨-, h⟩ := ok_of_gate h
    cases hspawn : host.spawn with
    | error e =>
      rw [hspawn] at h
      cases h
    | ok _ =>
      rw [hspawn] at h
      cases h
      simp only [ne_eq, Bool.not_eq_true, Decidable.not_not] at hcluster hfirehose hseq hformat hretention hoverrides
      exact ⟨rfl, fun _ => ⟨hcluster, hfirehose, hseq, hformat, hretention, hoverrides⟩⟩

theorem loadedState_marks (env : Env) (config : Config) (cluster : Bool) (ks : Keyspace) (generation : Str)
    (master loading : Bool) :
    let st := loadedState env config cluster ks generation master loading
    st.selected = 0 ∧ st.markersDirty = true := by
  obtain ⟨_, _, _, hst⟩ := loadedState_eq env config cluster ks generation master loading
  intro st
  exact ⟨congrArg State.selected hst, congrArg State.markersDirty hst⟩

theorem loaded_wf (h : Loaded setup env n) : Wf setup n := by
  obtain ⟨config, host, ks, generation, master, loading, mode, hstart, rfl⟩ := h
  obtain ⟨rfl, -⟩ := startDispatchWorker_ok hstart
  obtain ⟨hsel, hdirty⟩ := loadedState_marks env config host.cluster ks generation master loading
  have hworker : (if setup.mode = .sync then Worker.absent else .starting) ≠ .holding ∧
      ∀ s, (if setup.mode = .sync then Worker.absent else .starting) ≠ .spinning s := by
    split <;> simp
  exact {
    free := by simp [initial]
    lock := by simp [initial, hworker.1]
    stopping := by simp [initial]
    joining := by simp [initial]
    mode := fun _ => rfl
    slot := fun h _ => ⟨by simpa [initial] using h, rfl⟩
    absent := fun h => by simp [initial, h]
    selected := hsel
    dirty := fun h => by
      rw [initial, hdirty] at h
      cases h
    ascending := .nil
    below := by simp [initial]
    snapshot := fun s h => absurd h (hworker.2 _) }

/-- What a step has to say about the state for the node to stay well formed. -/
def Kept (st st' : State) : Prop :=
  st'.selected = st.selected ∧ ((st.markersDirty = false → st.pendingMarkers = []) →
    st'.markersDirty = false → st'.pendingMarkers = [])

theorem kept_of_unmarked {st st' : State} (h : Unmarked st st') : Kept st st' :=
  ⟨h.selected, fun hi hd' => by rw [h.pending]; exact hi (h.dirty ▸ hd')⟩

theorem kept_of_marks {st st' : State} (h : Marks st st') : Kept st st' :=
  ⟨h.selected, fun _ hd' => by rw [h.dirty] at hd'; cases hd'⟩

theorem note_wf (hw : Wf setup n) (task : Option Task) {st : State} (h : Kept n.st st) : Wf setup (n.note task st) :=
  { hw with
    selected := h.1.trans hw.selected
    dirty := h.2 hw.dirty }

theorem takeMarkers_wf (env : Env) (hw : Wf setup n) (registered : Bool) (hfree : n.holder ≠ .free)
    (hjoin : n.phase ≠ .joining) : Wf setup (n.takeMarkers env registered) := by
  obtain ⟨-, hsel, -, -, hcases⟩ := flushMarkers_cases env n.st registered hw.dirty
  refine { hw with
    free := fun h => absurd h hfree
    joining := fun h => absurd h hjoin
    selected := hsel.trans hw.selected
    dirty := fun hd => ?_ }
  rcases hcases with ⟨-, hp, hd', -⟩ | ⟨-, hp, -⟩ | ⟨-, hp, -⟩
  · exact hp.trans (hd' hd)
  · exact hp
  · exact hp

/-- A snapshot stays what it is when the queue grows. -/
theorem snapshot_push {queue : List Queued} {s : EnvelopeSnapshot} {events : List Queued} {q : Queued}
    (h : events <+: queue ∨ ∀ x ∈ queue, s.firstId < x.id) (hq : s.firstId < q.id) :
    events <+: queue ++ [q] ∨ ∀ x ∈ queue ++ [q], s.firstId < x.id := by
  rcases h with h | h
  · exact Or.inl (h.trans (List.prefix_append _ _))
  · refine Or.inr fun x hx => ?_
    rcases List.mem_append.1 hx with hx | hx
    · exact h x hx
    · rwa [List.mem_singleton.1 hx]

/-- When events leave the queue at its front, the snapshot stays or loses its first event. -/
theorem snapshot_drain {gone queue : List Queued} {s : EnvelopeSnapshot} {events : List Queued} (hs : s.Of events)
    (hasc : Ascending Queued.id (gone ++ queue))
    (h : events <+: gone ++ queue ∨ ∀ x ∈ gone ++ queue, s.firstId < x.id) :
    events <+: queue ∨ ∀ x ∈ queue, s.firstId < x.id := by
  rcases h with h | h
  · cases gone with
    | nil => exact Or.inl h
    | cons q gone =>
      obtain ⟨first, rest, rfl, hfirst, -⟩ := hs
      obtain ⟨hq, -⟩ := List.cons_prefix_cons.1 h
      obtain ⟨hlt, -⟩ := List.pairwise_cons.1 hasc
      exact Or.inr fun x hx => by
        rw [hfirst, hq]
        exact hlt x (List.mem_append_right _ hx)
  · exact Or.inr fun x hx => h x (List.mem_append_right _ hx)

/-- A drain of the front keeps the queue and the snapshot in shape, whoever takes the events. -/
theorem drain_wf (hw : Wf setup n) (n' : Node) {gone queue : List Queued} (hsplit : gone ++ queue = n.queue)
    (hd : n'.dispatched = n.dispatched) (hq : n'.queue = queue)
    (hs : ∀ s, n'.worker = .spinning (some s) → n.worker = .spinning (some s)) :
    Ascending Queued.id n'.queue ∧ (∀ q ∈ n'.queue, q.id < n'.dispatched.length) ∧
      ∀ s, n'.worker = .spinning (some s) → ∃ events, s.Of events ∧ s.firstId < n'.dispatched.length ∧
        (events <+: n'.queue ∨ ∀ q ∈ n'.queue, s.firstId < q.id) := by
  have hasc := hw.ascending
  rw [← hsplit] at hasc
  refine ⟨hq ▸ (Ascending.append_iff.1 hasc).2.1, fun q hmem => ?_, fun s h => ?_⟩
  · rw [hd]
    exact hw.below q (hsplit ▸ List.mem_append_right _ (hq ▸ hmem))
  · obtain ⟨events, hof, hlt, hfront⟩ := hw.snapshot s (hs s h)
    rw [← hsplit] at hfront
    rw [hd, hq]
    exact ⟨events, hof, hlt, snapshot_drain hof hasc hfront⟩

/-- Dispatching a new event, whatever lane it takes. -/
theorem dispatch_wf (hw : Wf setup n) {q : Queued} (hq : setup.mode ≠ .sync → q.id = n.dispatched.length)
    (hrun : n.holder = .main ∧ n.phase = .running) (hh : n'.holder = n.holder) (hph : n'.phase = n.phase)
    (hmode : n'.activeMode = n.activeMode) (hworker : n'.worker = n.worker) (hslot : n'.slot = n.slot)
    (hid : setup.mode ≠ .sync → n'.nextId = n.nextId + 1) (hd : n'.dispatched.length = n.dispatched.length + 1)
    (hqueue : n'.queue = n.queue ∨ (setup.mode ≠ .sync ∧ n'.queue = n.queue ++ [q]))
    (hst : n'.st.selected = n.st.selected + 1)
    (hdirty : n'.st.markersDirty = n.st.markersDirty ∧ n'.st.pendingMarkers = n.st.pendingMarkers) : Wf setup n' where
  free h := by rw [hh, hrun.1] at h; cases h
  lock := by rw [hh, hworker]; exact hw.lock
  stopping h := by rw [hph, hrun.2] at h; exact absurd rfl h
  joining h := by rw [hph, hrun.2] at h; cases h
  mode h := by rw [hmode]; exact hw.mode hrun.2
  slot hne _ := by
    obtain ⟨hsl, hnext⟩ := hw.slot hne hrun.2
    rw [hslot, hid hne, hd, hnext]
    exact ⟨hsl, rfl⟩
  absent h := by rw [hworker]; exact hw.absent h
  selected := by rw [hst, hd, hw.selected]
  dirty h := by
    rw [hdirty.2]
    exact hw.dirty (hdirty.1 ▸ h)
  ascending := by
    rcases hqueue with h | ⟨hne, h⟩
    · rw [h]
      exact hw.ascending
    · rw [h]
      exact hw.ascending.concat fun x hx => (hq hne).symm ▸ hw.below x hx
  below x hx := by
    rw [hd]
    rcases hqueue with h | ⟨hne, h⟩
    · have := hw.below x (h ▸ hx)
      omega
    · rw [h] at hx
      rcases List.mem_append.1 hx with hx | hx
      · have := hw.below x hx
        omega
      · rw [List.mem_singleton.1 hx, hq hne]
        omega
  snapshot s h := by
    rw [hworker] at h
    obtain ⟨events, hof, hlt, hfront⟩ := hw.snapshot s h
    rw [hd]
    refine ⟨events, hof, by omega, ?_⟩
    rcases hqueue with h | ⟨hne, h⟩
    · rw [h]
      exact hfront
    · rw [h]
      exact snapshot_push hfront ((hq hne).symm ▸ hlt)

/-! ## Steps -/

theorem items_note (n : Node) (st : State) :
    (n.note none st).history.flatMap Done.items = n.history.flatMap Done.items := by
  simp [note, Done.items]

theorem items_note_some (n : Node) (task : Task) (st : State) :
    (n.note (some task) st).history.flatMap Done.items = n.history.flatMap Done.items ++ task.items := by
  simp [note, Done.items]

/-- The lanes an event can take. -/
inductive Lane
  | queue | fallback | job | nowhere

/-- What the dispatch of an event does. -/
structure Routed (setup : Setup) (q : Queued) (lane : Lane) (n n' : Node) : Prop where
  control : n'.holder = n.holder ∧ n'.phase = n.phase ∧ n'.todo = n.todo ∧ n'.activeMode = n.activeMode ∧
    n'.slot = n.slot ∧ n'.worker = n.worker ∧ n'.stop = n.stop ∧ n'.unregistered = n.unregistered
  markers : n'.st.pendingMarkers = n.st.pendingMarkers ∧ n'.st.markersDirty = n.st.markersDirty ∧
    n'.st.recorded = n.st.recorded ∧ n'.st.selected = n.st.selected
  items : n'.history.flatMap Done.items = n.history.flatMap Done.items
  dispatched : n'.dispatched = n.dispatched ++ [q]
  nextId : setup.mode ≠ .sync → n'.nextId = n.nextId + 1
  queue : n'.queue = match lane with | .queue => n.queue ++ [q] | _ => n.queue
  jobs : n'.jobs = match lane with | .fallback => n.jobs ++ [.fallback q] | .job => n.jobs ++ [.event q] | _ => n.jobs
  lost : n'.lost = match lane with | .nowhere => n.lost ++ [q] | _ => n.lost
  mode : match lane with | .queue | .fallback => setup.mode ≠ .sync | .job => setup.mode = .sync | .nowhere => True

theorem tryPush_some {capacity : Nat} {queue queue' : List Queued} {contended : Bool} {q : Queued}
    (h : tryPush capacity queue contended q = some queue') : queue' = queue ++ [q] := by
  unfold tryPush at h
  split at h
  · cases h
  · split at h
    · cases h
    · injection h with h
      exact h.symm

theorem tryPush_room {capacity : Nat} {queue queue' : List Queued} {contended : Bool} {q : Queued}
    (h : tryPush capacity queue contended q = some queue') : queue.length < capacity := by
  by_contra hfull
  unfold tryPush at h
  split at h
  · cases h
  · rw [if_pos (by omega)] at h
    cases h

theorem dispatchPendingEvent_routed (setup : Setup) (env : Env) (n : Node) (event : PendingEvent)
    (contended registered : Bool) (hmode : n.activeMode = setup.mode)
    (hslot : setup.mode ≠ .sync → n.slot = true ∧ n.nextId = n.dispatched.length) :
    ∃ lane, Routed setup ⟨n.dispatched.length, event⟩ lane n
      (dispatchPendingEvent setup env n event contended registered) := by
  unfold dispatchPendingEvent
  simp only
  split
  · rename_i hsync
    rw [hmode] at hsync
    unfold deferPendingEvent
    split
    · exact ⟨.job, ⟨rfl, rfl, rfl, rfl, rfl, rfl, rfl, rfl⟩, ⟨rfl, rfl, rfl, rfl⟩, rfl, rfl,
        fun h => absurd hsync h, rfl, rfl, rfl, hsync⟩
    · exact ⟨.nowhere, ⟨rfl, rfl, rfl, rfl, rfl, rfl, rfl, rfl⟩, ⟨rfl, rfl, rfl, rfl⟩, items_note _ _, rfl,
        fun h => absurd hsync h, rfl, rfl, rfl, trivial⟩
  · rename_i hsync
    rw [hmode] at hsync
    obtain ⟨hs, hid⟩ := hslot hsync
    rw [if_neg (by simpa using hs), hid]
    cases htry : tryPush setup.capacity n.queue contended ⟨n.dispatched.length, event⟩ with
    | some queue =>
      exact ⟨.queue, ⟨rfl, rfl, rfl, rfl, rfl, rfl, rfl, rfl⟩, ⟨rfl, rfl, rfl, rfl⟩, items_note _ _, rfl,
        fun _ => by rw [hid]; rfl, tryPush_some htry, rfl, rfl, hsync⟩
    | none =>
      simp only [deferOrderedFallback]
      split
      · exact ⟨.fallback, ⟨rfl, rfl, rfl, rfl, rfl, rfl, rfl, rfl⟩, ⟨rfl, rfl, rfl, rfl⟩, items_note _ _, rfl,
          fun _ => by rw [hid]; rfl, rfl, rfl, rfl, hsync⟩
      · refine ⟨.nowhere, ⟨rfl, rfl, rfl, rfl, rfl, rfl, rfl, rfl⟩, ⟨rfl, rfl, rfl, rfl⟩, ?_, rfl,
          fun _ => by rw [hid]; rfl, rfl, rfl, rfl, trivial⟩
        exact (items_note _ _).trans (items_note _ _)

/-- A notification takes the pending markers, and then skips its event or, at a command, dispatches it. No marker is
pending when an event is dispatched. -/
theorem onKeyspaceEvent_cases (env : Env) (hw : Wf setup n) (cls : NotifyEvent) (event : Str) {key : Bytes} (db : Int32)
    (contended registered markersRegistered : Bool) (hmay : n.mayNotify key) :
    let n₁ := n.takeMarkers env markersRegistered
    let n' := n.onKeyspaceEvent setup env cls event key db contended registered markersRegistered
    (∃ st, Frame n₁.st st ∧ n' = n₁.note none st) ∨
      (n.atCommand ∧ n₁.st.pendingMarkers = [] ∧ ∃ e lane, Routed setup ⟨n.dispatched.length, e⟩ lane
        (n₁.note none { n₁.st with selected := n₁.st.selected + 1 }) n') := by
  intro n₁ n'
  have hn' : n' = (selectEvent n₁.st cls event key db).2.elim (n₁.note none (selectEvent n₁.st cls event key db).1)
      fun e => dispatchPendingEvent setup env (n₁.note none (selectEvent n₁.st cls event key db).1) e contended
        registered := by
    change n.onKeyspaceEvent setup env cls event key db contended registered markersRegistered = _
    unfold onKeyspaceEvent
    simp only
    cases (selectEvent (n.takeMarkers env markersRegistered).st cls event key db).2 <;> rfl
  obtain ⟨-, -, hcapeq, hconf, hcases⟩ := flushMarkers_cases env n.st markersRegistered hw.dirty
  rcases selectEvent_cases n₁.st cls event key db with ⟨hnone, hframe⟩ | ⟨hsome, hst, hcap, hkey⟩
  · rw [hnone] at hn'
    exact Or.inl ⟨_, hframe, hn'⟩
  · have hcmd : n.atCommand := by
      rcases hmay with h | ⟨-, -, -, hpfx⟩
      · exact h
      · have hc : n₁.st.config = n.st.config := hconf
        rw [hc, hpfx] at hkey
        cases hkey
    have hpend : n₁.st.pendingMarkers = [] := by
      rcases hcases with ⟨-, hp, -, h | h, -⟩ | ⟨-, hp, -⟩ | ⟨-, hp, -⟩
      · exact hp.trans h
      · have hc : n₁.st.capturing = n.st.capturing := hcapeq
        rw [hc, h] at hcap
        cases hcap
      · exact hp
      · exact hp
    rw [hsome, hst] at hn'
    obtain ⟨lane, hr⟩ := dispatchPendingEvent_routed setup env
      (n₁.note none { n₁.st with selected := n₁.st.selected + 1 }) (snapshot n₁.st cls event key db) contended
      registered (hw.mode hcmd.2.1) fun hne => hw.slot hne hcmd.2.1
    refine Or.inr ⟨hcmd, hpend, snapshot n₁.st cls event key db, lane, ?_⟩
    rw [hn']
    exact hr

theorem routed_wf (hw : Wf setup n) (hcmd : n.atCommand) {e : PendingEvent} {lane : Lane}
    (hr : Routed setup ⟨n.dispatched.length, e⟩ lane (n.note none { n.st with selected := n.st.selected + 1 }) n') :
    Wf setup n' := by
  obtain ⟨hh, hph, -, hm, hsl, hwk, -, -⟩ := hr.control
  obtain ⟨hp, hd, -, hsel⟩ := hr.markers
  refine dispatch_wf (q := ⟨n.dispatched.length, e⟩) hw (fun _ => rfl) ⟨hcmd.1, hcmd.2.1⟩ hh hph hm hwk hsl hr.nextId ?_
    ?_ hsel ⟨hd, hp⟩
  · rw [hr.dispatched]
    simp [note]
  · have hq := hr.queue
    have hmode := hr.mode
    cases lane with
    | queue => exact Or.inr ⟨hmode, hq⟩
    | fallback | job | nowhere => exact Or.inl hq

theorem tagSegment_unmarked (env : Env) (st : State) : Unmarked st (tagSegment env st).2 :=
  (Frame.of_probed (tagSegment_probed env st)).unmarked

theorem charge_unmarked (st : State) (why : Purpose) {c : Counter} (n : Nat) (hc : c.isPlain = true) :
    Unmarked st (st.charge why c n) :=
  (Frame.of_charge st (isDeferral_plain why n hc)).unmarked

theorem countDrain_unmarked (st : State) (count : Nat) : Unmarked st (countDrain st count) := by
  have hd : Unmarked st { st with asyncQueueDepth := st.asyncQueueDepth - count } := .of_rfl rfl
  unfold countDrain
  simp only
  split
  · exact hd
  · exact hd.trans ((charge_unmarked _ _ _ rfl).trans (charge_unmarked _ _ _ rfl))

/-- Beginning a job only moves its work to the tasks. -/
theorem startJob_wf (hw : Wf setup n) (hfree : n.holder ≠ .free) (hrun : n.phase = .running) (job : Job) :
    Wf setup (startJob env n job) := by
  have hjoin : n.phase ≠ .joining := by rw [hrun]; decide
  cases job with
  | event q => exact { hw with free := fun h => absurd h hfree, joining := fun h => absurd h hjoin }
  | fallback q =>
    have hk := kept_of_unmarked (countDrain_unmarked n.st (drainBefore n.queue q.id).1.length)
    obtain ⟨hasc, hbelow, hsnap⟩ := drain_wf hw (startJob env n (.fallback q))
      (List.takeWhile_append_dropWhile (p := fun x : Queued => decide (x.id < q.id))) rfl rfl fun _ => id
    exact { note_wf hw none hk with
      free := fun h => absurd h hfree
      joining := fun h => absurd h hjoin
      ascending := hasc
      below := hbelow
      snapshot := hsnap }
  | markers job =>
    have hk := kept_of_unmarked (tagSegment_unmarked env n.st)
    exact { note_wf hw none hk with free := fun h => absurd h hfree, joining := fun h => absurd h hjoin }

/-- A tick does nothing to the markers, or takes them all. -/
def Ticked (env : Env) (n n' : Node) : Prop :=
  n' = n ∨ (∃ st, Unmarked n.st st ∧ n' = n.note none st) ∨
    (n.st.capturing = true ∧ n.checkpointDue env = true) ∧
      ∃ st control retention, st.pendingMarkers = [] ∧ st.recorded = n.st.recorded ∧ st.selected = n.st.selected ∧
      Onward n.st st ∧ n' = { n.note none st with
        todo := markerTasks control retention n.st.pendingMarkers ++ [.checkpoint control retention] }

theorem checkpointTick_ticked (env : Env) (n : Node) {st : State} (hu : Unmarked n.st st)
    (hcap : st.capturing = n.st.capturing) (hdue : n.checkpointDue env = true) :
    Ticked env n (n.checkpointTick env st) := by
  unfold checkpointTick
  split
  · exact Or.inr (Or.inl ⟨st, hu, rfl⟩)
  · rename_i hc
    have ht := tagSegment_unmarked env st
    cases hseg : tagSegment env st with
    | mk seg st₁ =>
      rw [hseg] at ht
      have hu₁ : Unmarked n.st st₁ := hu.trans ht
      cases seg with
      | none => exact Or.inr (Or.inl ⟨st₁, hu₁, rfl⟩)
      | some seg =>
        refine Or.inr (Or.inr ⟨⟨hcap ▸ by simpa using hc, hdue⟩,
          { st₁ with pendingMarkers := [], markersDirty := false }, controlStreamOf st₁.config.pfx seg,
          controlRetention st₁, rfl, hu₁.recorded, hu₁.selected,
          hu₁.toOnward.trans (.of_eq rfl (List.prefix_refl _)), ?_⟩)
        rw [← hu₁.pending]

theorem cron_ticked (env : Env) (n : Node) : Ticked env n (n.cron env) := by
  unfold cron
  split
  · exact Or.inl rfl
  · rename_i hms
    dsimp only
    split
    · exact Or.inl rfl
    · rename_i hlt
      exact checkpointTick_ticked env n (.of_rfl rfl) rfl (by simp [checkpointDue, hms, hlt])

theorem exitWorker_wf (hw : Wf setup n) (hmode : setup.mode ≠ .sync) (hhold : n.worker ≠ .holding) :
    Wf setup n.exitWorker :=
  { note_wf hw none (kept_of_unmarked (.of_rfl rfl)) with
    lock := ⟨fun h => absurd (hw.lock.1 h) hhold, fun h => by cases h⟩
    absent := fun h => absurd h hmode
    ascending := .nil
    below := fun _ h => by cases h
    snapshot := fun _ h => by cases h }

theorem lockWorker_wf (hw : Wf setup n) (hmode : setup.mode ≠ .sync) (hrun : n.phase = .running)
    (s : Option EnvelopeSnapshot) : Wf setup (n.lockWorker setup s) := by
  have hjoin : n.phase ≠ .joining := by rw [hrun]; decide
  have hstop : ¬ n.phase ≠ .running := fun h => h hrun
  cases s with
  | none =>
    have hk := kept_of_unmarked (countDrain_unmarked n.st (drain n.queue setup.batch).1.length)
    obtain ⟨hasc, hbelow, -⟩ := drain_wf hw (n.lockWorker setup none)
      (List.take_append_drop (min n.queue.length setup.batch) n.queue) rfl rfl fun _ h => by cases h
    exact { note_wf hw none hk with
      free := fun h => by cases h
      lock := ⟨fun _ => rfl, fun _ => rfl⟩
      stopping := fun h => absurd h hstop
      joining := fun h => absurd h hjoin
      absent := fun h => absurd h hmode
      ascending := hasc
      below := hbelow
      snapshot := fun _ h => by cases h }
  | some s =>
    simp only [lockWorker]
    cases hd : drainSnapshot n.queue s with
    | none =>
      exact { hw with
        free := fun h => by cases h
        lock := ⟨fun _ => rfl, fun _ => rfl⟩
        stopping := fun h => absurd h hstop
        absent := fun h => absurd h hmode
        snapshot := fun _ h => by cases h }
    | some queue =>
      have hqueue : queue = n.queue.drop s.count := by
        unfold drainSnapshot at hd
        split at hd
        · injection hd with hd
          exact hd.symm
        · cases hd
      subst hqueue
      have hsub : (n.queue.drop s.count).Sublist n.queue := List.drop_sublist _ _
      exact { note_wf hw none (kept_of_unmarked (countDrain_unmarked n.st s.count)) with
        free := fun h => by cases h
        lock := ⟨fun _ => rfl, fun _ => rfl⟩
        stopping := fun h => absurd h hstop
        joining := fun h => absurd h hjoin
        absent := fun h => absurd h hmode
        ascending := hw.ascending.sublist hsub
        below := fun q hq => hw.below q (hsub.subset hq)
        snapshot := fun _ h => by cases h }

/-- Every step keeps a node well formed. -/
theorem step_wf {act : Act} (hw : Wf setup n) (h : step setup env n act = some n') : Wf setup n' := by
  have hasync : ∀ {w : Worker}, n.worker = w → w ≠ .absent → setup.mode ≠ .sync :=
    fun e hne hs => hne (e ▸ hw.absent hs)
  cases step_fires h with
  | acquire hfree hrun =>
    have hhold : n.worker ≠ .holding := fun hh => by rw [hw.lock.2 hh] at hfree; cases hfree
    exact { hw with
      free := fun h => by cases h
      lock := ⟨fun h => (by cases h), fun h => absurd h hhold⟩
      stopping := fun _ => rfl }
  | release hcmd hjobs =>
    obtain ⟨hmain, hrun, htodo⟩ := hcmd
    have hhold : n.worker ≠ .holding := fun hh => by rw [hw.lock.2 hh] at hmain; cases hmain
    exact { hw with
      free := fun _ => ⟨hjobs, htodo⟩
      lock := ⟨fun h => (by cases h), fun h => absurd h hhold⟩
      stopping := fun h => absurd hrun h }
  | @notify cls event key db contended registered markersRegistered hmay =>
    have hheld : n.holder ≠ .free ∧ n.phase ≠ .joining := by
      rcases hmay with ⟨hm, hr, -⟩ | ⟨hh, hj, -⟩
      · rw [hm, hr]
        exact ⟨by decide, by decide⟩
      · exact ⟨hh, hj⟩
    have hw₁ := takeMarkers_wf env hw markersRegistered hheld.1 hheld.2
    rcases onKeyspaceEvent_cases env hw cls event db contended registered markersRegistered hmay with
      ⟨st, hf, e⟩ | ⟨hcmd, -, e, lane, hr⟩
    · rw [e]
      exact note_wf hw₁ none (kept_of_unmarked hf.unmarked)
    · exact routed_wf hw₁ hcmd hr
  | command _ hop => exact note_wf hw none ((command_marks env n.st hop).elim kept_of_unmarked kept_of_marks)
  | setEnabled _ => exact note_wf hw none ((enabledChanged_marks n.st _).elim kept_of_unmarked kept_of_marks)
  | configure _ _ => exact note_wf hw none (kept_of_unmarked (.of_rfl rfl))
  | cron hcmd _ =>
    obtain ⟨hmain, hrun, -⟩ := hcmd
    rcases cron_ticked env n with e | ⟨st, hu, e⟩ | ⟨-, st, control, retention, hp, -, hs, -, e⟩
    · rw [e]
      exact hw
    · rw [e]
      exact note_wf hw none (kept_of_unmarked hu)
    · rw [e]
      exact { note_wf hw none ⟨hs, fun _ _ => hp⟩ with
        free := fun h => by rw [show n.holder = .free from h] at hmain; cases hmain
        joining := fun h => by rw [show n.phase = .joining from h] at hrun; cases hrun }
  | @runJob job jobs hheld hrun _ _ =>
    have hw' : Wf setup { n with jobs := jobs } := { hw with
      free := fun h => absurd h hheld
      joining := fun h => by rw [show n.phase = .joining from h] at hrun; cases hrun }
    exact startJob_wf hw' hheld hrun job
  | @process task todo ht =>
    have hbusy : n.todo ≠ [] := by rw [ht]; exact List.cons_ne_nil _ _
    exact { note_wf hw (some task) (kept_of_unmarked (task.run_frame env n.st).unmarked) with
      free := fun h => absurd (hw.free h).2 hbusy
      joining := fun h => absurd (hw.joining h).2 hbusy }
  | started hstart =>
    have hhold : n.worker ≠ .holding := by rw [hstart]; decide
    exact { hw with
      lock := ⟨fun h => absurd (hw.lock.1 h) hhold, fun h => by cases h⟩
      absent := fun h => absurd h (hasync hstart (by decide))
      snapshot := fun _ h => by cases h }
  | notStarted hstart =>
    have hhold : n.worker ≠ .holding := by rw [hstart]; decide
    exact exitWorker_wf (note_wf hw none (kept_of_unmarked (charge_unmarked _ _ _ rfl)))
      (hasync hstart (by decide)) hhold
  | wake hwait _ _ =>
    have hhold : n.worker ≠ .holding := by rw [hwait]; decide
    exact { hw with
      lock := ⟨fun h => absurd (hw.lock.1 h) hhold, fun h => by cases h⟩
      absent := fun h => absurd h (hasync hwait (by decide))
      snapshot := fun _ h => by cases h }
  | prepare hready =>
    have hhold : n.worker ≠ .holding := by rw [hready]; decide
    refine { hw with
      lock := ⟨fun h => absurd (hw.lock.1 h) hhold, fun h => by cases h⟩
      absent := fun h => absurd h (hasync hready (by decide))
      snapshot := fun s h => ?_ }
    simp only [Worker.spinning.injEq] at h
    split at h
    · have hof := prepareEnvelopes_of h
      refine ⟨_, hof, ?_, Or.inl (List.take_prefix _ _)⟩
      obtain ⟨first, rest, e, hfirst, -⟩ := hof
      rw [hfirst]
      exact hw.below first (List.mem_of_mem_take (e ▸ List.mem_cons_self ..))
    · cases h
  | lock hwk hfree =>
    have hrun : n.phase = .running := by
      by_contra hne
      rw [hw.stopping hne] at hfree
      cases hfree
    exact lockWorker_wf hw (hasync hwk (by simp)) hrun _
  | unlock hhold htodo hjobs =>
    exact { hw with
      free := fun _ => ⟨hjobs, htodo⟩
      lock := ⟨fun h => (by cases h), fun h => by cases h⟩
      stopping := fun h => by rw [hw.stopping h] at hhold; cases hhold
      absent := fun h => absurd h (hasync (hw.lock.1 hhold) (by decide))
      snapshot := fun _ h => by cases h }
  | stopWaiting _ hwk | stopSpinning _ hwk => exact exitWorker_wf hw (hasync hwk (by simp)) (by rw [hwk]; simp)
  | stopSync hcmd _ _ =>
    exact { hw with
      stopping := fun _ => hcmd.1
      joining := fun h => by cases h
      mode := fun h => by cases h
      slot := fun _ h => by cases h }
  | requestStop hcmd hjobs _ =>
    exact { hw with
      stopping := fun _ => hcmd.1
      joining := fun _ => ⟨hjobs, hcmd.2.2⟩
      mode := fun h => by cases h
      slot := fun _ h => by cases h }
  | join hjoin hwk =>
    have hmain : n.holder = .main := hw.stopping (by rw [hjoin]; decide)
    exact { note_wf hw none (kept_of_unmarked (.of_rfl rfl)) with
      free := fun h => by rw [show n.holder = .free from h] at hmain; cases hmain
      lock := ⟨fun h => absurd (hmain.symm.trans h) (by decide), fun h => by cases h⟩
      stopping := fun _ => hmain
      joining := fun h => by cases h
      mode := fun h => by cases h
      slot := fun _ h => by cases h
      absent := fun h => absurd h (hasync hwk (by simp))
      snapshot := fun _ h => by cases h }
  | finish hfin _ =>
    exact { hw with
      stopping := fun _ => hw.stopping (by rw [hfin]; decide)
      joining := fun h => by cases h
      mode := fun h => by cases h
      slot := fun _ h => by cases h }

theorem Reach.wf {allowed : Node → Act → Prop} (h : Reach setup env allowed n) : Wf setup n :=
  Machine.Reach.invariant (fun _ hl => loaded_wf hl) (fun _ _ _ _ _ hs hw => step_wf hw hs) h

end Wf

end Node

end EventStream

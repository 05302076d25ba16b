import EventStream.Node

/-!
# The gauges of the dispatch

The queue's depth and high-water mark, the counters of the asynchronous dispatch and that of the caught panics are the
business of the dispatch alone: whatever processes an event, writes a marker or runs a command leaves them as they are.

- `Apart`: two states with the same gauges;
- `process_apart`, `writeControlEntry_apart`, and from them `Task.run_apart`: what the lock holder does;
- `command_apart`: what the commands of clients do;
- `flushMarkers_apart`, `selectEvent_apart`: what the callback does before it dispatches.
-/

namespace EventStream

open Text (Str Bytes utf8)

/-- The counters that only the dispatch and its guard touch. -/
def Counter.isGauge : Counter → Bool
  | .asyncEnqueued | .asyncFallbacks | .asyncDrains | .asyncDrainEvents | .asyncWorkerErrors | .handlerPanics => true
  | _ => false

/-- The gauges of the dispatch are the same. -/
structure Apart (st st' : State) : Prop where
  depth : st'.asyncQueueDepth = st.asyncQueueDepth
  highWater : st'.asyncQueueHighWater = st.asyncQueueHighWater
  value : ∀ c, c.isGauge = true → st'.value c = st.value c

namespace Apart

variable {st st' st'' : State}

theorem refl (st : State) : Apart st st := ⟨rfl, rfl, fun _ _ => rfl⟩

theorem trans (h : Apart st st') (h' : Apart st' st'') : Apart st st'' :=
  ⟨h'.depth.trans h.depth, h'.highWater.trans h.highWater, fun c hc => (h'.value c hc).trans (h.value c hc)⟩

theorem of_counters (hd : st'.asyncQueueDepth = st.asyncQueueDepth)
    (hw : st'.asyncQueueHighWater = st.asyncQueueHighWater) (hc : st'.counters = st.counters) : Apart st st' :=
  ⟨hd, hw, fun c _ => by rw [State.value, State.value, hc]⟩

/-- One counter that is no gauge was raised. -/
theorem of_add {why : Purpose} {c : Counter} {n : Nat} (hd : st'.asyncQueueDepth = st.asyncQueueDepth)
    (hw : st'.asyncQueueHighWater = st.asyncQueueHighWater) (hc : st'.counters = st.counters.add why c n)
    (hg : c.isGauge = false) : Apart st st' := by
  refine ⟨hd, hw, fun d hd => ?_⟩
  rw [State.value, State.value, hc, Counters.add_value, if_neg]
  rintro rfl
  rw [hg] at hd
  cases hd

theorem of_call {env : Env} {why : Purpose} {cmd : Command} {opts : CallOptions} {r : Except Str Unit}
    (h : call env st why cmd opts = (r, st')) : Apart st st' := by
  cases r with
  | ok _ =>
    obtain ⟨ks, _, rfl⟩ := call_ok h
    exact of_counters rfl rfl rfl
  | error msg =>
    rw [call_error h]
    exact of_counters rfl rfl rfl

theorem of_probed (h : Probed st st') : Apart st st' := by
  obtain ⟨_, _, _, _, _, rfl, _, _⟩ := h
  exact of_counters rfl rfl rfl

end Apart

/-! ## Counting -/

section Counting

variable (env : Env) (st : State)

theorem charge_apart (why : Purpose) {c : Counter} (n : Nat) (hc : c.isGauge = false) : Apart st (st.charge why c n) :=
  .of_add rfl rfl rfl hc

theorem countDrop_apart (why : Purpose) {c : Counter} (latch : Latch) (detail : Str) (hc : c.isGauge = false) :
    Apart st (countDrop env st why c latch detail) :=
  .of_add rfl rfl rfl hc

theorem countStreamDrop_apart (why : Purpose) (stream : Str) {c : Counter} (detail : Str) (hc : c.isGauge = false) :
    Apart st (countStreamDrop env st why stream c detail) :=
  .of_add rfl rfl rfl hc

theorem countEventsLost_apart (why : Purpose) (n : Nat) {c : Counter} (latch : Latch) (detail : Str)
    (hc : c.isGauge = false) : Apart st (countEventsLost env st why n c latch detail) :=
  (charge_apart st why n rfl).trans (countDrop_apart env _ why latch detail hc)

theorem countEventsLostStream_apart (why : Purpose) (n : Nat) (stream : Str) {c : Counter} (detail : Str)
    (hc : c.isGauge = false) : Apart st (countEventsLostStream env st why n stream c detail) :=
  (charge_apart st why n rfl).trans (countStreamDrop_apart env _ why stream detail hc)

theorem countNoSlotDrop_apart (why : Purpose) (canonical : Bool) : Apart st (countNoSlotDrop env st why canonical) := by
  cases canonical with
  | true => exact countEventsLost_apart env st why 1 _ _ rfl
  | false => exact countDrop_apart env st why _ _ rfl

theorem selectDb_apart : Apart st (selectDb env st).2 := .of_counters rfl rfl rfl

theorem recoverStream_apart (stream : Str) : Apart st (recoverStream st stream) := by
  unfold recoverStream
  cases st.streamStats.lookup stream with
  | none => exact .refl st
  | some entry =>
    simp only
    cases entry.recordSuccess.2 with
    | none => exact .refl st
    | some drops => exact .of_counters rfl rfl rfl

end Counting

/-! ## Processors -/

section Processors

variable (env : Env) (st : State)

theorem writeControlEntry_apart (why : Purpose) (control : Str) (action : Action) (retention : Retention)
    (extra : List (Str × Str)) {c : Counter} (kind : Str) (hc : c.isGauge = false) :
    Apart st (writeControlEntry env st why control action retention extra c kind) := by
  unfold writeControlEntry
  have hsel := selectDb_apart env st
  cases hs : selectDb env st with
  | mk sel st₁ =>
    rw [hs] at hsel
    refine hsel.trans ?_
    cases sel with
    | false => exact countDrop_apart env st₁ why _ _ rfl
    | true =>
      simp only
      cases hr : call env st₁ why (.xadd (utf8 control) false (trimOf env st₁ retention)
        (controlFields st₁ action extra)) (xaddCallOptions st₁) with
      | mk r st₂ =>
        refine (Apart.of_call hr).trans ?_
        cases r with
        | ok _ => exact (charge_apart st₂ why 1 hc).trans (recoverStream_apart _ control)
        | error msg =>
          simp only
          split <;> exact countStreamDrop_apart env st₂ why control _ rfl

theorem recordWrite_apart (why : Purpose) (stream : Str) {counter : Counter} (count : Nat)
    (hc : counter.isGauge = false) : Apart st (recordWrite st why stream counter count) := by
  have hcount := charge_apart st why count hc
  have hnew := hcount.trans (charge_apart _ why (c := .activeStreams) 1 rfl)
  rcases recordWrite_counters st why stream counter count with h | h
  · exact hcount.trans (.of_counters rfl rfl h)
  · exact hnew.trans (.of_counters rfl rfl h)

theorem registerStream_apart (why : Purpose) (registry stream : Str) :
    Apart st (registerStream env st why registry stream) := by
  unfold registerStream
  split
  · exact .refl st
  · cases hr : call env st why (.sadd (utf8 registry) (utf8 stream)) (xaddCallOptions st) with
    | mk r st₁ =>
      refine (Apart.of_call hr).trans ?_
      cases r with
      | ok _ => exact .of_counters rfl rfl rfl
      | error msg => exact .of_add (c := .registryErrors) rfl rfl rfl rfl

theorem provisionGroup_apart (why : Purpose) (stream : Str) : Apart st (provisionGroup env st why stream) := by
  unfold provisionGroup
  split
  · cases groupName st with
    | none => exact .refl st
    | some group =>
      simp only
      rcases createAutoGroup_cases env st why stream group with
        ⟨st₁, hc, h⟩ | ⟨msg, st₁, hc, ⟨_, h⟩ | ⟨latch, detail, h⟩⟩
      · rw [h]
        exact (Apart.of_call hc).trans ((charge_apart st₁ why 1 rfl).trans (.of_counters rfl rfl rfl))
      · rw [h]
        exact (Apart.of_call hc).trans (.of_counters rfl rfl rfl)
      · rw [h]
        exact (Apart.of_call hc).trans (countDrop_apart env st₁ why latch detail rfl)
  · exact .refl st

theorem mirrorFields_apart (pfx seg suffix : Str) (fields : List Bytes) (retention : Retention) (maxStreams : Int)
    {counter : Counter} (count : Nat) (hc : counter.isGauge = false) :
    Apart st (mirrorFields env st pfx seg suffix fields retention maxStreams counter count).2 := by
  unfold mirrorFields
  simp only
  split
  · exact .refl st
  · cases hr : call env st (purposeOf counter) (.xadd (utf8 (streamOf pfx seg suffix)) false (trimOf env st retention)
      fields) (xaddCallOptions st) with
    | mk r st₁ =>
      refine (Apart.of_call hr).trans ?_
      cases r with
      | ok _ =>
        exact ((recordWrite_apart st₁ _ _ count hc).trans (registerStream_apart env _ _ _ _)).trans
          (provisionGroup_apart env _ _ _)
      | error msg => exact .refl st₁

theorem mirrorEntry_apart (pfx seg suffix : Str) (spec : EntrySpec) (retention : Retention) (maxStreams : Int)
    {counter : Counter} (hc : counter.isGauge = false) :
    Apart st (mirrorEntry env st pfx seg suffix spec retention maxStreams counter).2 := by
  unfold mirrorEntry
  cases encodeEntryFields spec with
  | error reason => exact .refl st
  | ok fields => exact mirrorFields_apart env st pfx seg suffix fields retention maxStreams 1 hc

theorem mirrorFirehose_apart (pfx : Str) (spec : EntrySpec) (retention : Retention) :
    Apart st (mirrorFirehose env st pfx spec retention) := by
  unfold mirrorFirehose
  have ht := Apart.of_probed (tagSegment_probed env st)
  cases hs : tagSegment env st with
  | mk seg st₁ =>
    rw [hs] at ht
    refine ht.trans ?_
    cases seg with
    | none => exact countNoSlotDrop_apart env st₁ _ _
    | some seg =>
      have hm : Apart st₁ (mirrorEntry env st₁ pfx seg "#firehose".toList spec retention 0 .firehoseForwarded).2 :=
        mirrorEntry_apart env st₁ _ _ _ _ _ _ rfl
      simp only
      cases hr : mirrorEntry env st₁ pfx seg "#firehose".toList spec retention 0 .firehoseForwarded with
      | mk o st₂ =>
        rw [hr] at hm
        refine hm.trans ?_
        cases o with
        | written | maxStreams _ => exact .refl st₂
        | oom _ _ | failed _ _ => exact countStreamDrop_apart env st₂ _ _ _ rfl
        | slotMigrated | migrating _ | encodeError _ _ => exact countDrop_apart env st₂ _ _ _ rfl

theorem repinAndRetry_apart (pfx suffix : Str) (spec : EntrySpec) (retention control : Retention) (maxStreams : Int) :
    Apart st (repinAndRetry env st pfx suffix spec retention control maxStreams) := by
  unfold repinAndRetry
  simp only
  generalize hst : ({ st with nodeTag := none, probeVerifiedTag := none } : State).charge .canonical .repins 1 = st₀
  have hrepin : Apart st st₀ := hst ▸ .of_add (c := .repins) rfl rfl rfl rfl
  have ht := Apart.of_probed (tagSegment_probed env st₀)
  refine hrepin.trans ?_
  cases hs : tagSegment env st₀ with
  | mk seg st₁ =>
    rw [hs] at ht
    refine ht.trans ?_
    cases seg with
    | none => exact countNoSlotDrop_apart env st₁ _ _
    | some seg =>
      have hmark : Apart st₁ (writeMarker env st₁ (controlStreamOf pfx seg) .repinned none control) :=
        writeControlEntry_apart env st₁ _ _ _ _ _ _ rfl
      simp only
      generalize writeMarker env st₁ (controlStreamOf pfx seg) .repinned none control = st₂ at hmark
      have hm : Apart st₂ (mirrorEntry env st₂ pfx seg suffix spec retention maxStreams .forwarded).2 :=
        mirrorEntry_apart env st₂ _ _ _ _ _ _ rfl
      refine hmark.trans ?_
      cases hr : mirrorEntry env st₂ pfx seg suffix spec retention maxStreams .forwarded with
      | mk o st₃ =>
        rw [hr] at hm
        refine hm.trans ?_
        cases o with
        | written => exact .refl st₃
        | oom _ _ | failed _ _ => exact countEventsLostStream_apart env st₃ _ _ _ _ rfl
        | slotMigrated | migrating _ | maxStreams _ | encodeError _ _ => exact countEventsLost_apart env st₃ _ _ _ _ rfl

theorem settleEvent_apart (e : PendingEvent) (seg : Str) (spec : EntrySpec) :
    Apart st (settleEvent env st e seg spec) := by
  unfold settleEvent
  have hm : Apart st (mirrorEntry env st e.pfx seg e.suffix spec e.dataRetention e.maxStreams .forwarded).2 :=
    mirrorEntry_apart env st _ _ _ _ _ _ rfl
  cases hr : mirrorEntry env st e.pfx seg e.suffix spec e.dataRetention e.maxStreams .forwarded with
  | mk o st₁ =>
    rw [hr] at hm
    refine hm.trans ?_
    cases o with
    | written => exact .refl st₁
    | oom _ _ => exact countEventsLostStream_apart env st₁ _ _ _ _ rfl
    | slotMigrated | migrating _ => exact repinAndRetry_apart env st₁ _ _ _ _ _ _
    | failed stream msg =>
      have hp := Apart.of_probed (pinnedTagLostByProbe_probed env st₁)
      simp only
      cases hl : pinnedTagLostByProbe env st₁ with
      | mk lost st₂ =>
        rw [hl] at hp
        refine hp.trans ?_
        cases lost with
        | true => exact (charge_apart st₂ _ 1 rfl).trans (repinAndRetry_apart env _ _ _ _ _ _ _)
        | false => exact countEventsLostStream_apart env st₂ _ _ _ _ rfl
    | maxStreams _ | encodeError _ _ => exact countEventsLost_apart env st₁ _ _ _ _ rfl

theorem takeSeq_apart (entrySeq : Bool) : Apart st (takeSeq st entrySeq).2 := by
  unfold takeSeq
  split <;> exact .of_counters rfl rfl rfl

theorem processPendingEvent_apart (e : PendingEvent) : Apart st (processPendingEvent env st e) := by
  unfold processPendingEvent
  have hsel := selectDb_apart env st
  cases hs : selectDb env st with
  | mk sel st₁ =>
    rw [hs] at hsel
    refine hsel.trans ?_
    cases sel with
    | false => exact countEventsLost_apart env st₁ _ _ _ _ rfl
    | true =>
      have ht := Apart.of_probed (tagSegment_probed env st₁)
      simp only
      cases hseg : tagSegment env st₁ with
      | mk seg st₂ =>
        rw [hseg] at ht
        refine ht.trans ?_
        cases seg with
        | none => exact countNoSlotDrop_apart env st₂ _ _
        | some seg =>
          have hset := (takeSeq_apart st₂ e.entrySeq).trans
            (settleEvent_apart env _ e seg (entrySpec e (takeSeq st₂ e.entrySeq).1))
          simp only
          split
          · exact hset.trans (mirrorFirehose_apart env _ _ _ _)
          · exact hset

theorem noSlotDrops_apart (n : Nat) :
    Apart st ((List.range n).foldl (fun st _ => countNoSlotDrop env st .canonical true) st) := by
  induction n with
  | zero => exact .refl st
  | succ n ih =>
    rw [List.range_succ, List.foldl_append]
    exact ih.trans (countNoSlotDrop_apart env _ _ _)

theorem processPendingEnvelope_apart (events : List PendingEvent) (fields : List Bytes) :
    Apart st (processPendingEnvelope env st events fields) := by
  cases events with
  | nil => exact .refl st
  | cons first rest =>
    unfold processPendingEnvelope
    have hsel := selectDb_apart env st
    simp only
    generalize (first :: rest).length = n
    cases hs : selectDb env st with
    | mk sel st₁ =>
      rw [hs] at hsel
      refine hsel.trans ?_
      cases sel with
      | false => exact countEventsLost_apart env st₁ _ _ _ _ rfl
      | true =>
        have ht := Apart.of_probed (tagSegment_probed env st₁)
        simp only
        cases hseg : tagSegment env st₁ with
        | mk seg st₂ =>
          rw [hseg] at ht
          refine ht.trans ?_
          cases seg with
          | none => exact noSlotDrops_apart env st₂ n
          | some seg =>
            have hm : Apart st₂ (mirrorFields env st₂ first.pfx seg first.suffix fields first.dataRetention
                first.maxStreams .forwarded n).2 :=
              mirrorFields_apart env st₂ _ _ _ _ _ _ n rfl
            simp only
            cases hr : mirrorFields env st₂ first.pfx seg first.suffix fields first.dataRetention first.maxStreams
              .forwarded n with
            | mk o st₃ =>
              rw [hr] at hm
              refine hm.trans ?_
              cases o with
              | written => exact (charge_apart st₃ _ 1 rfl).trans (charge_apart _ _ n rfl)
              | oom _ _ | failed _ _ => exact countEventsLostStream_apart env st₃ _ _ _ _ rfl
              | slotMigrated | migrating _ | maxStreams _ | encodeError _ _ =>
                exact countEventsLost_apart env st₃ _ _ _ _ rfl

theorem process_apart (h : Handoff) : Apart st (h.process env st) := by
  cases h with
  | event e => exact processPendingEvent_apart env st e
  | envelope events fields => exact processPendingEnvelope_apart env st events fields

theorem Task.run_apart (task : Task) : Apart st (task.run env st) := by
  cases task with
  | event q => exact process_apart env st (.event q.event)
  | envelope qs fields => exact process_apart env st (.envelope (qs.map Queued.event) fields)
  | marker control retention m => exact writeControlEntry_apart env st _ _ _ _ _ _ rfl
  | noSlot m => exact countNoSlotDrop_apart env st _ _
  | checkpoint control retention => exact writeControlEntry_apart env st _ _ _ _ _ _ rfl

end Processors

/-! ## Commands and notifications -/

section Commands

variable (env : Env) (st : State)

theorem cmdPrune_apart : Apart st (cmdPrune env st).2 := by
  refine cmdPrune_parts (I := Apart st) ?_ ?_ ?_ (.refl st)
  · exact fun a h => h.trans (selectDb_apart env a)
  · exact fun hcall h => h.trans (.of_call hcall)
  · intro a name h
    refine h.trans ?_
    unfold forgetStream
    simp only
    split <;> exact .of_counters rfl rfl rfl

theorem command_apart {op : Op} (h : Node.isCommand op = true) : Apart st (op.apply env st) := by
  cases op with
  | flush dbnum =>
    simp only [Op.apply, flushCommand, onFlushStarted]
    split <;> exact .of_counters rfl rfl rfl
  | swapdb first second =>
    simp only [Op.apply, swapCommand, onSwapdb]
    split
    · exact .of_counters rfl rfl rfl
    · split <;> exact .of_counters rfl rfl rfl
  | prune => exact cmdPrune_apart env st
  | setAutoGroup name =>
    simp only [Op.apply, EventStream.setAutoGroup]
    split <;> exact .of_counters rfl rfl rfl
  | setFirehose on | role master loading | client db key obj => exact .of_counters rfl rfl rfl
  | process h' | marker control action db retention | checkpoint control retention | reset perNode => cases h

theorem enabledChanged_apart (now : Bool) : Apart st (Node.enabledChanged st now) := by
  unfold Node.enabledChanged
  split <;> exact .of_counters rfl rfl rfl

theorem dropMarkers_apart : Apart st (dropMarkers env st) := by
  have htaken : Apart st { st with pendingMarkers := [], markersDirty := false } := .of_counters rfl rfl rfl
  have hdrop := countDrop_apart env { st with pendingMarkers := [], markersDirty := false } .marker .deferError
    "failed to register gap-marker job; markers dropped".toList (c := .droppedDeferError) rfl
  unfold dropMarkers
  simp only
  split
  · exact (htaken.trans hdrop).trans (charge_apart _ _ _ rfl)
  · exact htaken.trans hdrop

theorem flushMarkers_apart (registered : Bool) : Apart st (flushMarkers env st registered).1 := by
  have h := flushMarkers_flushed env st registered
  generalize flushMarkers env st registered = r at h
  cases h with
  | kept _ => exact .refl st
  | empty _ | deferred _ _ => exact .of_counters rfl rfl rfl
  | dropped _ _ => exact dropMarkers_apart env st

theorem gateCounters_apart : ∀ c ∈ gateCounters, c.isGauge = false := by decide

theorem selectEvent_apart (cls : NotifyEvent) (event : Str) (key : Bytes) (db : Int32) :
    Apart st (selectEvent st cls event key db).1 := by
  have h := selectEvent_gated st cls event key db
  generalize selectEvent st cls event key db = r at h
  cases h with
  | passedOver => exact .refl st
  | skipped hc => exact charge_apart st _ 1 (gateCounters_apart _ hc)
  | selected _ _ => exact .of_counters rfl rfl rfl

end Commands

end EventStream

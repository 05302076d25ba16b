import EventStream.Capture

/-!
# The notification callback

The gates a keyspace notification passes, the snapshot of a selected event, and the drain at the top of the callback,
which hands the pending markers to a job.
-/

namespace EventStream

open Text (Str Bytes utf8)

/-! ## Selecting an event -/

/-- The snapshot of a notification that passed every gate. -/
def snapshot (st : State) (cls : NotifyEvent) (event : Str) (key : Bytes) (db : Int32) : PendingEvent where
  pfx := st.config.pfx
  suffix := sanitize event
  event := event
  key := key
  db := db
  cls := cls
  dataRetention :=
    ⟨effectiveMaxlen st.config.maxlenOverrides (sanitize event) st.config.maxlen, st.config.retentionMs⟩
  controlRetention := controlRetention st
  firehoseRetention := ⟨st.config.maxlen, st.config.retentionMs⟩
  maxStreams := st.config.maxStreams
  format := st.config.entryFormat
  entrySeq := st.config.entrySeq

/-- The gates of the callback behind the marker drain, in order; an event that passes them is dispatched. -/
def selectEvent (st : State) (cls : NotifyEvent) (event : Str) (key : Bytes) (db : Int32) :
    State × Option PendingEvent :=
  if ¬ st.config.enabled then (st, none)
  else if (utf8 st.config.pfx).isPrefixOf key then (st.charge .dispatch .skippedSelf 1, none)
  else if ¬ st.capturing then (st, none)
  else if ¬ st.config.filter cls event then (st.charge .dispatch .skippedFiltered 1, none)
  else if ¬ st.config.keyFilter key then (st.charge .dispatch .skippedKeyFiltered 1, none)
  else if ¬ st.config.sourceDbs db then (st.charge .dispatch .skippedDb 1, none)
  else if sanitize event = [] then (st.charge .dispatch .skippedInvalid 1, none)
  else ({ st with selected := st.selected + 1 }, some (snapshot st cls event key db))

/-- The counters of the gates. -/
def gateCounters : List Counter := [.skippedSelf, .skippedFiltered, .skippedKeyFiltered, .skippedDb, .skippedInvalid]

/-- The ways through the gates: an event is passed over, or skipped and counted, or it is of a foreign key and selected
on the capturing master. -/
inductive Gated (st : State) (cls : NotifyEvent) (event : Str) (key : Bytes) (db : Int32) :
    State × Option PendingEvent → Prop
  | passedOver : Gated st cls event key db (st, none)
  | skipped {c : Counter} (hc : c ∈ gateCounters) : Gated st cls event key db (st.charge .dispatch c 1, none)
  | selected (hcap : st.capturing = true) (hkey : (utf8 st.config.pfx).isPrefixOf key = false) :
      Gated st cls event key db ({ st with selected := st.selected + 1 }, some (snapshot st cls event key db))

theorem selectEvent_gated (st : State) (cls : NotifyEvent) (event : Str) (key : Bytes) (db : Int32) :
    Gated st cls event key db (selectEvent st cls event key db) := by
  unfold selectEvent
  split
  · exact .passedOver
  split
  · exact .skipped (by decide)
  rename_i hkey
  split
  · exact .passedOver
  rename_i hcap
  split
  · exact .skipped (by decide)
  split
  · exact .skipped (by decide)
  split
  · exact .skipped (by decide)
  split
  · exact .skipped (by decide)
  · exact .selected (Decidable.not_not.1 hcap) (Bool.eq_false_iff.2 hkey)

/-! ## Taking the pending markers -/

/-- What the job of a drain captures. -/
structure MarkerJob where
  pfx : Str
  retention : Retention
  markers : List Recorded

/-- Take the pending markers for a job. If the job cannot be registered, each of them is counted as dropped. -/
def drainPendingMarkers (env : Env) (st : State) (registered : Bool) : State × Option MarkerJob :=
  if ¬ st.capturing then (st, none)
  else
    let drained := st.pendingMarkers
    let st := { st with pendingMarkers := [], markersDirty := false }
    if drained = [] then (st, none)
    else if registered then (st, some ⟨st.config.pfx, controlRetention st, drained⟩)
    else
      let st := countDrop env st .marker .droppedDeferError .deferError
        "failed to register gap-marker job; markers dropped".toList
      (if 1 < drained.length then st.charge .marker .droppedDeferError (drained.length - 1) else st, none)

/-- The drain at the top of the callback. -/
def flushMarkers (env : Env) (st : State) (registered : Bool) : State × Option MarkerJob :=
  if st.markersDirty then drainPendingMarkers env st registered else (st, none)

/-- The state of a drain whose job could not be registered: one drop is logged, and the others are counted. -/
def dropMarkers (env : Env) (st : State) : State :=
  let dropped := countDrop env { st with pendingMarkers := [], markersDirty := false } .marker .droppedDeferError
    .deferError "failed to register gap-marker job; markers dropped".toList
  if 1 < st.pendingMarkers.length then
    dropped.charge .marker .droppedDeferError (st.pendingMarkers.length - 1)
  else dropped

/-- The ways of the drain: the markers stay, there are none, a job takes them, or they are dropped. -/
inductive Flushed (env : Env) (st : State) : State × Option MarkerJob → Prop
  | kept (h : st.markersDirty = false ∨ st.capturing = false) : Flushed env st (st, none)
  | empty (hp : st.pendingMarkers = []) : Flushed env st ({ st with pendingMarkers := [], markersDirty := false }, none)
  | deferred (hp : st.pendingMarkers ≠ []) (hcap : st.capturing = true) :
      Flushed env st ({ st with pendingMarkers := [], markersDirty := false },
        some ⟨st.config.pfx, controlRetention st, st.pendingMarkers⟩)
  | dropped (hp : st.pendingMarkers ≠ []) (hcap : st.capturing = true) : Flushed env st (dropMarkers env st, none)

theorem flushMarkers_flushed (env : Env) (st : State) (registered : Bool) :
    Flushed env st (flushMarkers env st registered) := by
  unfold flushMarkers
  split
  · unfold drainPendingMarkers
    split
    · rename_i hcap
      exact .kept (Or.inr (Bool.eq_false_iff.2 hcap))
    · rename_i hcap
      simp only
      split
      · rename_i hp
        exact .empty hp
      · rename_i hp
        split
        · exact .deferred hp (Decidable.not_not.1 hcap)
        · exact .dropped hp (Decidable.not_not.1 hcap)
  · rename_i hd
    exact .kept (Or.inl (Bool.eq_false_iff.2 hd))

end EventStream

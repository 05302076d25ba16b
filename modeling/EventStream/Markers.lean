import EventStream.Cluster
import EventStream.Encode

/-!
# Control entries

Gap markers and checkpoints are written to the control stream through one writer, `writeControlEntry`. A marker is first
recorded as pending; it is delivered by a notification's job or by the checkpoint cron.
-/

namespace EventStream

open Text (Str Bytes utf8 showNat showInt)

/-- The `action` field of a control entry. -/
def Action.text : Action → Str
  | .loaded => "loaded".toList
  | .enabled => "enabled".toList
  | .disabled => "disabled".toList
  | .swapdb => "swapdb".toList
  | .flushed => "flushed".toList
  | .repinned => "repinned".toList
  | .unloading => "unloading".toList
  | .checkpoint => "checkpoint".toList

namespace PendingMarker

def action : PendingMarker → Action
  | simple a => a
  | flushed _ => .flushed

/-- The `db` field; only `flushed` has one. -/
def db : PendingMarker → Option Int32
  | simple _ => none
  | flushed db => some db

end PendingMarker

def moduleVersion : Str := "0.5.0".toList

/-! ## Writing -/

/-- A success on a stream that has a record ends its failing streak. -/
def recoverStream (st : State) (stream : Str) : State :=
  match st.streamStats.lookup stream with
  | none => st
  | some entry =>
    match entry.recordSuccess.2 with
    | none => st
    | some drops =>
      { st.setStats stream entry.recordSuccess.1 with
        log := st.log ++ [.notice (eventstream ++ stream ++ " recovered after ".toList ++ showNat drops ++
          " drops".toList)] }

/-- The fields of a control entry. -/
def controlFields (st : State) (action : Action) (extra : List (Str × Str)) : List Bytes :=
  [lit "action", utf8 action.text, lit "module-version", utf8 moduleVersion, lit "generation", utf8 st.generationId] ++
    extra.flatMap fun p => [utf8 p.1, utf8 p.2]

/-- The trim clause of a write; the clock is read for time-based trimming only. -/
def trimOf (env : Env) (st : State) (retention : Retention) : Option (TrimKeyword × Str) :=
  retention.trimClause (if retention.isTimeBased then env.nowMs st.clock else 0)

/-- The shared writer of markers and checkpoints. -/
def writeControlEntry (env : Env) (st : State) (why : Purpose) (controlStream : Str) (action : Action)
    (retention : Retention) (extra : List (Str × Str)) (successCounter : Counter) (kind : Str) : State :=
  match selectDb env st with
  | (false, st) =>
    countDrop env st why .droppedXaddError .xaddError ("SelectDb(0) failed; ".toList ++ kind ++ " dropped".toList)
  | (true, st) =>
    match call env st why (.xadd (utf8 controlStream) false (trimOf env st retention) (controlFields st action extra))
      (xaddCallOptions st) with
    | (.ok _, st) => recoverStream (st.charge why successCounter 1) controlStream
    | (.error msg, st) =>
      if startsWith msg oomText then
        countStreamDrop env st why controlStream .droppedOom
          (kind ++ " '".toList ++ action.text ++ "' refused under maxmemory: ".toList ++ msg)
      else
        countStreamDrop env st why controlStream .droppedXaddError
          (kind ++ " '".toList ++ action.text ++ "' failed: ".toList ++ msg)

/-- Write one lifecycle marker. -/
def writeMarker (env : Env) (st : State) (controlStream : Str) (action : Action) (db : Option Int32)
    (retention : Retention) : State :=
  let extra := match db with
    | some value => [("db".toList, showInt value.toInt)]
    | none => []
  writeControlEntry env st .marker controlStream action retention extra .controlMarkers "gap marker".toList

/-- Write a status snapshot. -/
def writeCheckpoint (env : Env) (st : State) (controlStream : Str) (retention : Retention) : State :=
  let forwarded := st.value .forwarded
  let lost := st.value .eventsLost
  let extra : List (Str × Str) :=
    [("reason".toList, "periodic".toList),
      ("checkpoint-ms".toList, showInt st.config.controlCheckpointMs),
      ("resolved-events".toList, showNat (forwarded + lost)),
      ("forwarded".toList, showNat forwarded),
      ("events-lost".toList, showNat lost),
      ("dropped".toList, showNat (droppedTotal st)),
      ("async-enqueued".toList, showNat (st.value .asyncEnqueued)),
      ("async-queue-depth".toList, showInt st.asyncQueueDepth),
      ("async-drain-events".toList, showNat (st.value .asyncDrainEvents)),
      ("async-worker-errors".toList, showNat (st.value .asyncWorkerErrors)),
      ("handler-panics".toList, showNat (st.value .handlerPanics)),
      ("last-error-time".toList, showNat st.lastErrorTime)]
  writeControlEntry env st .checkpoint controlStream .checkpoint retention extra .controlCheckpoints
    "control checkpoint".toList

/-! ## Pending markers -/

/-- The cap of a suffix: its override, else the global cap. -/
def effectiveMaxlen (overrides : List (Str × Int)) (suffix : Str) (globalMaxlen : Int) : Int :=
  (overrides.lookup suffix).getD globalMaxlen

/-- The retention of the control stream. -/
def controlRetention (st : State) : Retention :=
  ⟨effectiveMaxlen st.config.maxlenOverrides "#control".toList st.config.maxlen, st.config.retentionMs⟩

def controlStreamOf (pfx seg : Str) : Str := pfx ++ seg ++ "#control".toList

/-- Record a marker for delivery. -/
def recordPendingMarker (st : State) (marker : PendingMarker) : State :=
  { st with
    pendingMarkers := st.pendingMarkers ++ [⟨marker, st.recorded, st.selected⟩]
    markersDirty := true
    recorded := st.recorded + 1 }

/-- Write markers one after the other. -/
def writeMarkers (env : Env) (st : State) (controlStream : Str) (retention : Retention) (markers : List Recorded) :
    State :=
  markers.foldl (fun st m => writeMarker env st controlStream m.marker.action m.marker.db retention) st

end EventStream

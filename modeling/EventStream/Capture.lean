import EventStream.Markers

/-!
# The capture path

The mirrored writes of one event: the canonical entry with its registry and consumer-group side effects, the re-pin and
its one retry, the firehose copy, and the write of an envelope.
-/

namespace EventStream

open Text (Str Bytes utf8 showNat showInt)

/-- The classified outcome of one attempt to write. -/
inductive MirrorOutcome
  | written
  | slotMigrated
  | migrating (msg : Str)
  | oom (stream msg : Str)
  | failed (stream msg : Str)
  | maxStreams (stream : Str)
  | encodeError (stream reason : Str)
  deriving DecidableEq, Repr

/-! ## Side effects of a written entry -/

/-- The configured group name, if one is set. -/
def groupName (st : State) : Option Str := if st.config.autoGroup = [] then none else some st.config.autoGroup

/-- Create the consumer group; a group that exists is a success that is not counted. -/
def createAutoGroup (env : Env) (st : State) (why : Purpose) (stream group : Str) : Bool × State :=
  match call env st why (.xgroupCreate (utf8 stream) (utf8 group)) (xaddCallOptions st) with
  | (.ok _, st) => (true, st.charge why .autogroupCreated 1)
  | (.error msg, st) =>
    if startsWith msg "BUSYGROUP".toList then (true, st)
    else
      (false, countDrop env st why .autogroupFailed .autogroup
        ("XGROUP CREATE ".toList ++ group ++ " on '".toList ++ stream ++ "' failed: ".toList ++ msg ++
          " (autogroup_failed); event captured, group not provisioned".toList))

/-- Account a written entry to its stream: the counters, the recovery notice, and the cap slot of a new stream. -/
def recordWrite (st : State) (why : Purpose) (stream : Str) (counter : Counter) (logicalCount : Nat) : State :=
  let entry := st.stats stream
  let r := { entry with forwarded := entry.forwarded + logicalCount }.recordSuccess
  let counters := st.counters.add why counter logicalCount
  { st with
    counters := if entry.counted then counters else counters.add why .activeStreams 1
    probeVerifiedTag := if st.config.perNode then none else st.probeVerifiedTag
    streamStats := st.streamStats.insert stream { r.1 with counted := true }
    currentStreams := if entry.counted then st.currentStreams else st.currentStreams + 1
    log := match r.2 with
      | some drops =>
        st.log ++ [.notice (eventstream ++ stream ++ " recovered after ".toList ++ showNat drops ++ " drops".toList)]
      | none => st.log }

/-- Note a successful registration, and its recovery after a failed one. -/
def markRegistered (st : State) (stream : Str) : State :=
  let entry := st.stats stream
  { st with
    streamStats := st.streamStats.insert stream { entry with registered := true, registryFailed := false }
    latched := if entry.registryFailed then Function.update st.latched .registry false else st.latched
    log := if entry.registryFailed then
        st.log ++ [.notice (eventstream ++ "registry registration recovered for ".toList ++ stream)]
      else st.log }

/-- Note a failed registration: counted and logged, the entry itself being written. -/
def markRegistryFailed (env : Env) (st : State) (why : Purpose) (registry stream msg : Str) : State :=
  { st with
    streamStats := st.streamStats.insert stream { st.stats stream with registryFailed := true }
    counters := st.counters.add why .registryErrors 1
    lastErrorTime := env.unixNow st.clock
    latched := Function.update st.latched .registry true
    log := if st.latched .registry then st.log
      else st.log ++ [.warning (eventstream ++ "registry SADD to '".toList ++ registry ++ "' failed for '".toList ++
        stream ++ "': ".toList ++ msg ++
        (" (registry_errors); the event was captured but the stream is not yet discoverable through " ++
          "EVENTSTREAM.STREAMS. Registration retries on the stream's next write").toList)] }

/-- Register a written stream in the registry set, once. -/
def registerStream (env : Env) (st : State) (why : Purpose) (registry stream : Str) : State :=
  if (st.stats stream).registered then st
  else
    match call env st why (.sadd (utf8 registry) (utf8 stream)) (xaddCallOptions st) with
    | (.ok _, st) => markRegistered st stream
    | (.error msg, st) => markRegistryFailed env st why registry stream msg

/-- Provision the configured consumer group on a written stream, once. -/
def provisionGroup (env : Env) (st : State) (why : Purpose) (stream : Str) : State :=
  if st.config.autoGroupEnabled ∧ ¬ (st.stats stream).groupCreated then
    match groupName st with
    | none => st
    | some group =>
      match createAutoGroup env st why stream group with
      | (true, st) => st.setStats stream { st.stats stream with groupCreated := true }
      | (false, st) => st
  else st

/-! ## One mirrored write -/

/-- The counter of a write says what the write is for: `forwarded` the canonical record, otherwise the copy. -/
def purposeOf (counter : Counter) : Purpose := if counter = .forwarded then .canonical else .firehose

theorem purposeOf_cases (counter : Counter) : purposeOf counter = .canonical ∨ purposeOf counter = .firehose := by
  unfold purposeOf
  split
  · exact Or.inl rfl
  · exact Or.inr rfl

def streamOf (pfx seg suffix : Str) : Str := pfx ++ seg ++ suffix

def registryOf (pfx seg : Str) : Str := pfx ++ seg ++ "#streams".toList

/-- The cap on destination streams refuses a stream that is not counted yet. -/
def capReached (st : State) (stream : Str) (maxStreams : Int) : Bool :=
  0 < maxStreams && !(st.stats stream).counted && maxStreams ≤ st.currentStreams

/-- The classification of a refused `XADD`. -/
def classify (stream msg : Str) : MirrorOutcome :=
  if startsWith msg oomText then
    .oom stream ("XADD to '".toList ++ stream ++ "' refused under maxmemory: ".toList ++ msg)
  else if isSlotMigrated msg then .slotMigrated
  else if isMigrationRefusal msg then
    .migrating ("XADD to '".toList ++ stream ++ "' refused mid-migration: ".toList ++ msg)
  else .failed stream ("XADD to '".toList ++ stream ++ "' failed: ".toList ++ msg)

theorem classify_ne_written (stream msg : Str) : classify stream msg ≠ .written := by
  unfold classify
  split
  · simp
  · split
    · simp
    · split <;> simp

/-- The shared path of a one-event entry and of an envelope. -/
def mirrorFields (env : Env) (st : State) (pfx seg suffix : Str) (fields : List Bytes) (retention : Retention)
    (maxStreams : Int) (counter : Counter) (logicalCount : Nat) : MirrorOutcome × State :=
  let stream := streamOf pfx seg suffix
  let registry := registryOf pfx seg
  let why := purposeOf counter
  if capReached st stream maxStreams then (.maxStreams stream, st)
  else
    match call env st why (.xadd (utf8 stream) false (trimOf env st retention) fields) (xaddCallOptions st) with
    | (.ok _, st) =>
      let st := recordWrite st why stream counter logicalCount
      let st := registerStream env st why registry stream
      (.written, provisionGroup env st why stream)
    | (.error msg, st) => (classify stream msg, st)

/-- Write one entry in the configured format. -/
def mirrorEntry (env : Env) (st : State) (pfx seg suffix : Str) (spec : EntrySpec) (retention : Retention)
    (maxStreams : Int) (counter : Counter) : MirrorOutcome × State :=
  match encodeEntryFields spec with
  | .error reason => (.encodeError (streamOf pfx seg suffix) reason, st)
  | .ok fields => mirrorFields env st pfx seg suffix fields retention maxStreams counter 1

/-! ## The firehose copy -/

def mirrorFirehose (env : Env) (st : State) (pfx : Str) (spec : EntrySpec) (retention : Retention) : State :=
  match tagSegment env st with
  | (none, st) => countNoSlotDrop env st .firehose false
  | (some seg, st) =>
    match mirrorEntry env st pfx seg "#firehose".toList spec retention 0 .firehoseForwarded with
    | (.written, st) => st
    | (.oom stream msg, st) => countStreamDrop env st .firehose stream .droppedOom msg
    | (.slotMigrated, st) =>
      countDrop env st .firehose .droppedMigrating .migrating
        ("firehose XADD refused as non-local; copy dropped in migration window (dropped_migrating); " ++
          "one re-pin per event, owned by the per-event write").toList
    | (.migrating msg, st) =>
      countDrop env st .firehose .droppedMigrating .migrating
        (msg ++ " (firehose copy dropped in migration window)".toList)
    | (.failed stream msg, st) => countStreamDrop env st .firehose stream .droppedXaddError msg
    | (.maxStreams _, st) => st
    | (.encodeError stream reason, st) =>
      countDrop env st .firehose .droppedEncodeError .encodeError
        ("entry-format encode failed for firehose copy '".toList ++ stream ++ "': ".toList ++ reason ++
          "; copy dropped (dropped_encode_error)".toList)

/-! ## Envelopes -/

/-- Write one envelope of compatible events. -/
def processPendingEnvelope (env : Env) (st : State) (events : List PendingEvent) (fields : List Bytes) : State :=
  match events with
  | [] => st
  | first :: _ =>
    let logicalCount := events.length
    match selectDb env st with
    | (false, st) =>
      countEventsLost env st .canonical logicalCount .droppedXaddError .xaddError
        "SelectDb(0) failed; batch entry dropped".toList
    | (true, st) =>
      match tagSegment env st with
      | (none, st) => (List.range logicalCount).foldl (fun st _ => countNoSlotDrop env st .canonical true) st
      | (some seg, st) =>
        match mirrorFields env st first.pfx seg first.suffix fields first.dataRetention first.maxStreams .forwarded
          logicalCount with
        | (.written, st) =>
          (st.charge .canonical .asyncEnvelopes 1).charge .canonical .asyncEnvelopeEvents logicalCount
        | (.oom stream msg, st) => countEventsLostStream env st .canonical logicalCount stream .droppedOom msg
        | (.slotMigrated, st) =>
          countEventsLost env st .canonical logicalCount .droppedMigrating .migrating
            "batch XADD refused as non-local (dropped_migrating)".toList
        | (.migrating msg, st) =>
          countEventsLost env st .canonical logicalCount .droppedMigrating .migrating
            (msg ++ "; batch dropped (dropped_migrating)".toList)
        | (.failed stream msg, st) =>
          countEventsLostStream env st .canonical logicalCount stream .droppedXaddError msg
        | (.maxStreams stream, st) =>
          countEventsLost env st .canonical logicalCount .droppedMaxStreams .maxStreams
            ("max-streams cap (".toList ++ showInt first.maxStreams ++ ") reached; new stream '".toList ++ stream ++
              "' not created; batch dropped (dropped_max_streams)".toList)
        | (.encodeError stream reason, st) =>
          countEventsLost env st .canonical logicalCount .droppedEncodeError .encodeError
            ("batch encode failed for '".toList ++ stream ++ "': ".toList ++ reason ++
              "; batch dropped (dropped_encode_error)".toList)

/-! ## Single events -/

/-- Re-pin to another owned slot, mark the discontinuity, and retry the entry once. -/
def repinAndRetry (env : Env) (st : State) (pfx suffix : Str) (spec : EntrySpec) (retention control : Retention)
    (maxStreams : Int) : State :=
  let st := { st with nodeTag := none, probeVerifiedTag := none }.charge .canonical .repins 1
  match tagSegment env st with
  | (none, st) => countNoSlotDrop env st .canonical true
  | (some seg, st) =>
    let st := writeMarker env st (controlStreamOf pfx seg) .repinned none control
    match mirrorEntry env st pfx seg suffix spec retention maxStreams .forwarded with
    | (.written, st) => st
    | (.oom stream msg, st) => countEventLostStream env st .canonical stream .droppedOom msg
    | (.slotMigrated, st) =>
      countEventLost env st .canonical .droppedMigrating .migrating
        ("XADD still refused as non-local after re-pin; entry dropped in migration window " ++
          "(dropped_migrating)").toList
    | (.migrating msg, st) =>
      countEventLost env st .canonical .droppedMigrating .migrating
        (msg ++ " (after re-pin; entry dropped in migration window)".toList)
    | (.failed stream msg, st) => countEventLostStream env st .canonical stream .droppedXaddError msg
    | (.maxStreams stream, st) =>
      countEventLost env st .canonical .droppedMaxStreams .maxStreams
        ("max-streams cap reached after re-pin; new stream '".toList ++ stream ++
          "' not created; entry dropped (dropped_max_streams)".toList)
    | (.encodeError stream reason, st) =>
      countEventLost env st .canonical .droppedEncodeError .encodeError
        ("entry-format encode failed after re-pin for '".toList ++ stream ++ "': ".toList ++ reason ++
          "; entry dropped (dropped_encode_error)".toList)

/-- The next sequence number, if the event takes one. -/
def takeSeq (st : State) (entrySeq : Bool) : Option Nat × State :=
  if entrySeq then (some st.seq, { st with seq := st.seq + 1 }) else (none, st)

/-- The entry of an event. -/
def entrySpec (event : PendingEvent) (seq : Option Nat) : EntrySpec :=
  ⟨event.format, utf8 event.event, event.key, showInt event.db.toInt, event.cls, seq⟩

/-- The canonical write of an event: one attempt, and at most one more after a re-pin. -/
def settleEvent (env : Env) (st : State) (event : PendingEvent) (seg : Str) (spec : EntrySpec) : State :=
  match mirrorEntry env st event.pfx seg event.suffix spec event.dataRetention event.maxStreams .forwarded with
  | (.written, st) => st
  | (.oom stream msg, st) => countEventLostStream env st .canonical stream .droppedOom msg
  | (.slotMigrated, st) =>
    repinAndRetry env st event.pfx event.suffix spec event.dataRetention event.controlRetention event.maxStreams
  | (.migrating _, st) =>
    repinAndRetry env st event.pfx event.suffix spec event.dataRetention event.controlRetention event.maxStreams
  | (.failed stream msg, st) =>
    match pinnedTagLostByProbe env st with
    | (true, st) =>
      repinAndRetry env (st.charge .canonical .repinsProbeDetected 1) event.pfx event.suffix spec event.dataRetention
        event.controlRetention event.maxStreams
    | (false, st) => countEventLostStream env st .canonical stream .droppedXaddError msg
  | (.maxStreams stream, st) =>
    countEventLost env st .canonical .droppedMaxStreams .maxStreams
      ("max-streams cap (".toList ++ showInt event.maxStreams ++ ") reached; new stream '".toList ++ stream ++
        "' not created; entry dropped (dropped_max_streams)".toList)
  | (.encodeError stream reason, st) =>
    countEventLost env st .canonical .droppedEncodeError .encodeError
      ("entry-format encode failed for '".toList ++ stream ++ "': ".toList ++ reason ++
        "; entry dropped (dropped_encode_error)".toList)

/-- Process one event: its canonical write, then the firehose copy if that is on. -/
def processPendingEvent (env : Env) (st : State) (event : PendingEvent) : State :=
  match selectDb env st with
  | (false, st) =>
    countEventLost env st .canonical .droppedXaddError .xaddError "SelectDb(0) failed; entry dropped".toList
  | (true, st) =>
    match tagSegment env st with
    | (none, st) => countNoSlotDrop env st .canonical true
    | (some seg, st) =>
      match takeSeq st event.entrySeq with
      | (seq, st) =>
        let spec := entrySpec event seq
        let st := settleEvent env st event seg spec
        if st.config.firehose then mirrorFirehose env st event.pfx spec event.firehoseRetention else st

/-! ## Handing events over -/

/-- One call of a processor: a single event, or an envelope with its encoded fields. -/
inductive Handoff
  | event (e : PendingEvent)
  | envelope (events : List PendingEvent) (fields : List Bytes)
  deriving DecidableEq

namespace Handoff

/-- The events handed over. -/
def events : Handoff → List PendingEvent
  | event e => [e]
  | envelope events _ => events

def process (env : Env) (st : State) : Handoff → State
  | event e => processPendingEvent env st e
  | envelope events fields => processPendingEnvelope env st events fields

end Handoff

/-- A sequence of calls. -/
def processAll (env : Env) (st : State) (hs : List Handoff) : State := hs.foldl (Handoff.process env) st

@[simp] theorem processAll_nil (env : Env) (st : State) : processAll env st [] = st := rfl

@[simp] theorem processAll_cons (env : Env) (st : State) (h : Handoff) (hs : List Handoff) :
    processAll env st (h :: hs) = processAll env (h.process env st) hs := rfl

theorem processAll_append (env : Env) (st : State) (hs hs' : List Handoff) :
    processAll env st (hs ++ hs') = processAll env (processAll env st hs) hs' :=
  List.foldl_append

end EventStream

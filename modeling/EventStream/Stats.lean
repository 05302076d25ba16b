import EventStream.Server
import EventStream.Lib.Totals

/-!
# Counters and per-stream records

The statics of the module as one state, and the functions that count.

* `Counters` keeps, beside each counter's value, the ledger of the increments that made it up and the write each was
  made for. The ledger is a ghost: the source has the values only.
* `StreamStats` is the record of one destination stream, with its failure-log state machine.
* `State` holds the statics the capture path reads and writes, the server's keyspace, and a ghost trace of the calls
  made.
-/

namespace EventStream

open Text (Str Bytes utf8 showNat showInt)

/-! ## Counters -/

inductive Counter
  | forwarded | eventsLost | firehoseForwarded | autogroupCreated | autogroupFailed
  | droppedXaddError | droppedOom | droppedDeferError | droppedEncodeError | droppedMaxStreams
  | droppedNoOwnedSlot | droppedMigrating
  | skippedSelf | skippedFiltered | skippedKeyFiltered | skippedDb | skippedInvalid
  | activeStreams | registryErrors | handlerPanics | repins | repinsProbeDetected
  | controlMarkers | controlCheckpoints
  | asyncEnqueued | asyncFallbacks | asyncDrains | asyncDrainEvents | asyncEnvelopes | asyncEnvelopeEvents
  | asyncWorkerErrors
  deriving DecidableEq, Repr

/-- What a call or an increment is made for: the canonical record of an event, its firehose copy, a gap marker, a
checkpoint, an ownership probe, the dispatch of an event, or a prune. -/
inductive Purpose
  | canonical | firehose | marker | checkpoint | probe | dispatch | prune
  deriving DecidableEq, Repr

structure Charge where
  why : Purpose
  counter : Counter
  amount : Nat
  deriving DecidableEq, Repr

/-- What a ledger adds up to at one counter. -/
def charged (ledger : List Charge) (c : Counter) : Nat :=
  (ledger.map fun x => if x.counter = c then x.amount else 0).sum

@[simp] theorem charged_append (l l' : List Charge) (c : Counter) :
    charged (l ++ l') c = charged l c + charged l' c := by
  simp [charged]

@[simp] theorem charged_nil (c : Counter) : charged [] c = 0 := rfl

@[simp] theorem charged_singleton (x : Charge) (c : Counter) :
    charged [x] c = if x.counter = c then x.amount else 0 := by
  simp [charged]

/-- The counters: 64-bit in the source, far from their limit. -/
structure Counters where
  value : Counter → Nat
  ledger : List Charge
  balanced : ∀ c, value c = charged ledger c

namespace Counters

def zero : Counters := ⟨fun _ => 0, [], fun _ => rfl⟩

/-- `fetch_add`. -/
def add (cs : Counters) (why : Purpose) (c : Counter) (n : Nat) : Counters where
  value d := if d = c then cs.value d + n else cs.value d
  ledger := cs.ledger ++ [⟨why, c, n⟩]
  balanced d := by
    rw [charged_append, charged_singleton, ← cs.balanced d]
    by_cases h : d = c
    · simp [h]
    · simp [h, Ne.symm h]

@[simp] theorem add_ledger (cs : Counters) (why : Purpose) (c : Counter) (n : Nat) :
    (cs.add why c n).ledger = cs.ledger ++ [⟨why, c, n⟩] := rfl

@[simp] theorem add_value (cs : Counters) (why : Purpose) (c d : Counter) (n : Nat) :
    (cs.add why c n).value d = if d = c then cs.value d + n else cs.value d := rfl

end Counters

/-! ## Per-stream records -/

/-- The record of one destination stream. -/
structure StreamStats where
  forwarded : Nat := 0
  dropped : Nat := 0
  counted : Bool := false
  registered : Bool := false
  registryFailed : Bool := false
  groupCreated : Bool := false
  failingDrops : Nat := 0
  lastWarned : Nat := 0
  suppressed : Nat := 0
  deriving DecidableEq, Repr

def logWindowSecs : Nat := 60

namespace StreamStats

/-- Count a failure; `some n` says to log now, `n` failures having been suppressed since the last warning. -/
def recordFailure (s : StreamStats) (now : Nat) : StreamStats × Option Nat :=
  let s := { s with dropped := s.dropped + 1, failingDrops := s.failingDrops + 1 }
  if s.lastWarned = 0 ∨ logWindowSecs ≤ now - s.lastWarned then
    ({ s with lastWarned := now, suppressed := 0 }, some s.suppressed)
  else ({ s with suppressed := s.suppressed + 1 }, none)

/-- End a failing streak; `some n` says that the stream recovers after `n` drops. -/
def recordSuccess (s : StreamStats) : StreamStats × Option Nat :=
  if s.failingDrops = 0 then (s, none)
  else ({ s with failingDrops := 0, lastWarned := 0, suppressed := 0 }, some s.failingDrops)

/-- Neither half touches the bits the write path dedupes on. -/
theorem recordFailure_bits (s : StreamStats) (now : Nat) :
    (s.recordFailure now).1.counted = s.counted ∧ (s.recordFailure now).1.registered = s.registered ∧
      (s.recordFailure now).1.groupCreated = s.groupCreated := by
  simp only [recordFailure]
  split <;> exact ⟨rfl, rfl, rfl⟩

theorem recordSuccess_bits (s : StreamStats) :
    s.recordSuccess.1.counted = s.counted ∧ s.recordSuccess.1.registered = s.registered ∧
      s.recordSuccess.1.registryFailed = s.registryFailed ∧ s.recordSuccess.1.groupCreated = s.groupCreated := by
  unfold recordSuccess
  split <;> exact ⟨rfl, rfl, rfl, rfl⟩

end StreamStats

/-! ## The state -/

inductive Latch
  | maxStreams | registry | xaddError | deferError | panic | encodeError | autogroup | noOwnedSlot | migrating
  deriving DecidableEq, Repr

inductive LogLine
  | warning (text : Str)
  | notice (text : Str)
  deriving DecidableEq, Repr

/-- The configuration in force. The three filters stand for their parsed forms. -/
structure Config where
  pfx : Str
  enabled : Bool
  filter : NotifyEvent → Str → Bool
  keyFilter : Bytes → Bool
  sourceDbs : Int32 → Bool
  maxlen : Int
  maxlenOverrides : List (Str × Int)
  retentionMs : Int
  maxStreams : Int
  entryFormat : EntryFormat
  entrySeq : Bool
  firehose : Bool
  verifyOom : Bool
  autoGroup : Str
  autoGroupEnabled : Bool
  controlCheckpointMs : Int
  /-- Cluster per-node mode, decided at load. -/
  perNode : Bool

/-- One thing that happened to the keyspace or the per-stream records. -/
inductive Occurrence
  | call (why : Purpose) (cmd : Command) (ok : Bool)
  | cleared
  | pruned (name : Str)
  deriving DecidableEq

/-- The actions of control entries. -/
inductive Action
  | loaded | enabled | disabled | swapdb | flushed | repinned | unloading | checkpoint
  deriving DecidableEq, Repr

/-- A gap marker that awaits delivery: only `flushed` carries a database. -/
inductive PendingMarker
  | simple (action : Action)
  | flushed (db : Int32)
  deriving DecidableEq, Repr

/-- A recorded marker with two ghosts: how many were recorded before it, and how many events were selected before it. -/
structure Recorded where
  marker : PendingMarker
  ordinal : Nat
  point : Nat
  deriving DecidableEq, Repr

/-- The statics of the module, the server's keyspace, and the ghost trace. -/
structure State where
  config : Config
  counters : Counters := .zero
  latched : Latch → Bool := fun _ => false
  streamStats : AList (fun _ : Str => StreamStats) := ∅
  currentStreams : Int := 0
  lastErrorTime : Nat := 0
  asyncQueueDepth : Int := 0
  asyncQueueHighWater : Nat := 0
  nodeTag : Option Str := none
  probeVerifiedTag : Option Str := none
  seq : Nat := 0
  generationId : Str := []
  pendingMarkers : List Recorded := []
  markersDirty : Bool := false
  lastCheckpointMs : Int := 0
  /-- The server's role flags, as the context shows them. -/
  master : Bool := true
  loading : Bool := false
  /-- Ghosts: the markers recorded and the events selected so far. -/
  recorded : Nat := 0
  selected : Nat := 0
  keyspace : Keyspace
  clock : Nat := 0
  log : List LogLine := []
  trace : List Occurrence := []

namespace State

/-- The record of a stream; a stream without one has the default record. -/
def stats (st : State) (stream : Str) : StreamStats := (st.streamStats.lookup stream).getD {}

def charge (st : State) (why : Purpose) (c : Counter) (n : Nat) : State :=
  { st with counters := st.counters.add why c n }

/-- The value of a counter. -/
def value (st : State) (c : Counter) : Nat := st.counters.value c

/-- Replace the record of a stream. -/
def setStats (st : State) (stream : Str) (s : StreamStats) : State :=
  { st with streamStats := st.streamStats.insert stream s }

/-- The record of a stream depends on the map only. -/
theorem stats_congr {st st' : State} (h : st'.streamStats = st.streamStats) (stream : Str) :
    st'.stats stream = st.stats stream := by
  rw [stats, stats, h]

@[simp] theorem setStats_stats_same (st : State) (stream : Str) (s : StreamStats) :
    (st.setStats stream s).stats stream = s := by
  simp [stats, setStats]

theorem setStats_stats_ne (st : State) {stream other : Str} (s : StreamStats) (h : other ≠ stream) :
    (st.setStats stream s).stats other = st.stats other := by
  simp [stats, setStats, AList.lookup_insert_ne h]

/-- Replacing a record changes a total by the shares of the two records, if the default record has none. -/
theorem total_setStats {f : Str → StreamStats → Nat} (hf : ∀ k, f k {} = 0) (st : State) (stream : Str)
    (s : StreamStats) : Totals.total f (st.setStats stream s).streamStats + f stream (st.stats stream) =
      Totals.total f st.streamStats + f stream s := by
  have h := Totals.total_insert f stream s st.streamStats
  have hl : (st.streamStats.lookup stream).elim 0 (f stream) = f stream (st.stats stream) := by
    unfold stats
    cases st.streamStats.lookup stream with
    | none => simp [hf]
    | some r => rfl
  rw [hl] at h
  exact h

/-- The number of counted streams whose names satisfy a condition. -/
def countedIn (st : State) (p : Str → Bool) : Nat :=
  Totals.total (fun name r => if r.counted && p name then 1 else 0) st.streamStats

theorem countedIn_setStats (st : State) (p : Str → Bool) (stream : Str) (s : StreamStats) :
    (st.setStats stream s).countedIn p + (if (st.stats stream).counted && p stream then 1 else 0) =
      st.countedIn p + (if s.counted && p stream then 1 else 0) :=
  total_setStats (fun _ => rfl) st stream s

/-- The capturing master: the gate of every write of the module. -/
def capturing (st : State) : Bool := st.master && !st.loading

/-- Clear the per-stream records, as a flush does. -/
def clearStats (st : State) : State :=
  { st with streamStats := ∅, currentStreams := 0, trace := st.trace ++ [.cleared] }

end State

/-! ## Calls -/

/-- Select database 0. -/
def selectDb (env : Env) (st : State) : Bool × State := (env.selectDb st.clock, { st with clock := st.clock + 1 })

/-- The options of the mirrored writes. -/
def xaddCallOptions (st : State) : CallOptions := ⟨true, true, st.config.verifyOom⟩

/-- The options of a prune's removals, which are never refused for memory. -/
def pruneCallOptions : CallOptions := ⟨true, true, false⟩

/-- Issue a command. -/
def call (env : Env) (st : State) (why : Purpose) (cmd : Command) (opts : CallOptions) : Except Str Unit × State :=
  let reply : Except Str Keyspace :=
    match env.refuse st.clock cmd opts with
    | some msg => .error msg
    | none => exec env st.clock st.keyspace cmd
  match reply with
  | .ok ks =>
    (.ok (), { st with keyspace := ks, clock := st.clock + 1, trace := st.trace ++ [.call why cmd true] })
  | .error msg => (.error msg, { st with clock := st.clock + 1, trace := st.trace ++ [.call why cmd false] })

/-- A call either executes its command or leaves the keyspace as it was. -/
theorem call_cases (env : Env) (st : State) (why : Purpose) (cmd : Command) (opts : CallOptions) :
    (∃ ks, exec env st.clock st.keyspace cmd = .ok ks ∧ call env st why cmd opts =
      (.ok (), { st with keyspace := ks, clock := st.clock + 1, trace := st.trace ++ [.call why cmd true] })) ∨
    (∃ msg, call env st why cmd opts =
      (.error msg, { st with clock := st.clock + 1, trace := st.trace ++ [.call why cmd false] })) := by
  unfold call
  cases hr : env.refuse st.clock cmd opts with
  | some msg => exact Or.inr ⟨msg, rfl⟩
  | none =>
    cases he : exec env st.clock st.keyspace cmd with
    | error msg => exact Or.inr ⟨msg, rfl⟩
    | ok ks => exact Or.inl ⟨ks, rfl, rfl⟩

theorem call_ok {env : Env} {st st' : State} {why : Purpose} {cmd : Command} {opts : CallOptions}
    (h : call env st why cmd opts = (.ok (), st')) : ∃ ks, exec env st.clock st.keyspace cmd = .ok ks ∧
      st' = { st with keyspace := ks, clock := st.clock + 1, trace := st.trace ++ [.call why cmd true] } := by
  rcases call_cases env st why cmd opts with ⟨ks, he, e⟩ | ⟨msg, e⟩
  · rw [e] at h
    injection h with _ h
    exact ⟨ks, he, h.symm⟩
  · rw [e] at h
    injection h with h _
    cases h

theorem call_error {env : Env} {st st' : State} {why : Purpose} {cmd : Command} {opts : CallOptions} {msg : Str}
    (h : call env st why cmd opts = (.error msg, st')) :
    st' = { st with clock := st.clock + 1, trace := st.trace ++ [.call why cmd false] } := by
  rcases call_cases env st why cmd opts with ⟨ks, he, e⟩ | ⟨msg, e⟩
  · rw [e] at h
    injection h with h _
    cases h
  · rw [e] at h
    injection h with _ h
    exact h.symm

/-- A call touches the keyspace, the clock and the trace. -/
theorem call_rest {env : Env} {st st' : State} {why : Purpose} {cmd : Command} {opts : CallOptions}
    {r : Except Str Unit} (h : call env st why cmd opts = (r, st')) :
    ∃ ks clock trace, st' = { st with keyspace := ks, clock := clock, trace := trace } := by
  rcases call_cases env st why cmd opts with ⟨ks, _, e⟩ | ⟨msg, e⟩ <;> rw [e] at h <;> cases h
  · exact ⟨_, _, _, rfl⟩
  · exact ⟨_, _, _, rfl⟩

/-- An error is a refusal or comes from the command. -/
theorem call_error_cause {env : Env} {st st' : State} {why : Purpose} {cmd : Command} {opts : CallOptions} {msg : Str}
    (h : call env st why cmd opts = (.error msg, st')) :
    env.refuse st.clock cmd opts = some msg ∨ exec env st.clock st.keyspace cmd = .error msg := by
  unfold call at h
  cases hr : env.refuse st.clock cmd opts with
  | some m =>
    rw [hr] at h
    simp only [Prod.mk.injEq, Except.error.injEq] at h
    exact Or.inl (by rw [h.1])
  | none =>
    rw [hr] at h
    cases he : exec env st.clock st.keyspace cmd with
    | error m =>
      rw [he] at h
      simp only [Prod.mk.injEq, Except.error.injEq] at h
      exact Or.inr (by rw [h.1])
    | ok ks =>
      rw [he] at h
      simp only [Prod.mk.injEq, reduceCtorEq, false_and] at h

/-! ## Counting drops -/

def eventstream : Str := "eventstream: ".toList

/-- Count a drop with no destination stream in hand, and log the first of its reason. -/
def countDrop (env : Env) (st : State) (why : Purpose) (counter : Counter) (latch : Latch) (detail : Str) : State :=
  { st with
    counters := st.counters.add why counter 1
    lastErrorTime := env.unixNow st.clock
    latched := Function.update st.latched latch true
    log := if st.latched latch then st.log else st.log ++ [.warning (eventstream ++ detail)] }

/-- Several logical events lost through one failed physical write. -/
def countEventsLost (env : Env) (st : State) (why : Purpose) (logicalCount : Nat) (counter : Counter) (latch : Latch)
    (detail : Str) : State :=
  countDrop env (st.charge why .eventsLost logicalCount) why counter latch detail

/-- A canonical loss of one event. -/
def countEventLost (env : Env) (st : State) (why : Purpose) (counter : Counter) (latch : Latch)
    (detail : Str) : State :=
  countEventsLost env st why 1 counter latch detail

/-- The warning of a failure on one stream, with what was suppressed before it. -/
def streamWarning (detail : Str) (suppressed : Nat) : LogLine :=
  if 0 < suppressed then
    .warning (eventstream ++ detail ++ " (".toList ++ showNat suppressed ++
      " earlier failures on this stream suppressed in the last ".toList ++ showNat logWindowSecs ++ "s)".toList)
  else .warning (eventstream ++ detail)

/-- Count a drop against its destination stream, logged at most once per stream and window. -/
def countStreamDrop (env : Env) (st : State) (why : Purpose) (stream : Str) (counter : Counter)
    (detail : Str) : State :=
  let now := env.unixNow st.clock
  let r := (st.stats stream).recordFailure now
  { st with
    counters := st.counters.add why counter 1
    lastErrorTime := now
    streamStats := st.streamStats.insert stream r.1
    log := match r.2 with
      | some suppressed => st.log ++ [streamWarning detail suppressed]
      | none => st.log }

def countEventsLostStream (env : Env) (st : State) (why : Purpose) (logicalCount : Nat) (stream : Str)
    (counter : Counter) (detail : Str) : State :=
  countStreamDrop env (st.charge why .eventsLost logicalCount) why stream counter detail

def countEventLostStream (env : Env) (st : State) (why : Purpose) (stream : Str) (counter : Counter) (detail : Str) :
    State :=
  countEventsLostStream env st why 1 stream counter detail

/-- A failed registration of the job that would process an event. -/
def countDeferFailure (env : Env) (st : State) : State :=
  countEventLost env st .dispatch .droppedDeferError .deferError
    "failed to register post-notification job; event dropped".toList

/-- The failed destination and control writes over all reasons. -/
def droppedTotal (st : State) : Nat :=
  st.value .droppedXaddError + st.value .droppedOom + st.value .droppedDeferError + st.value .droppedMigrating +
    st.value .droppedMaxStreams + st.value .droppedEncodeError

end EventStream

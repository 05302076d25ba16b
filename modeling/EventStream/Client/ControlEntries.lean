import EventStream.Client.Control
import EventStream.Writers

/-!
# Control entries read back

The module writes a control entry as names and values; the client makes a `GapMarker` of the map it receives. Both go
through one list of pairs: `fieldMap_pairs` says what the map holds, and `ofFields_pairs` that the client's marker is
read off the pairs. Every entry names its action and its generation (`ofFields_signed`), and a checkpoint the state it
was written in (`ofFields_checkpoint`).
-/

namespace EventStream.Client

open Text (Str Bytes utf8 showNat showInt)

/-- The standard library's lossy reading of bytes reads texts as they are. -/
def Texts.Faithful (texts : Texts) : Prop := ∀ s : Str, texts.fromUtf8Lossy (utf8 s) = s

/-- A reading that gives up on bytes that are no text. -/
def Texts.strict : Texts := ⟨fun b => (Text.ofUtf8 b).getD [], fun _ => []⟩

theorem Texts.strict_faithful : Texts.strict.Faithful := fun s =>
  congrArg (fun o : Option Str => o.getD []) (Text.ofUtf8_utf8 s)

/-- The fields of an entry with these names and values. -/
def fieldsOf (pairs : List (Str × Str)) : List Bytes := pairs.flatMap fun p => [utf8 p.1, utf8 p.2]

/-- The map of an entry whose names are distinct. -/
theorem fieldMap_pairs {pairs : List (Str × Str)} (h : (pairs.map Prod.fst).Nodup) :
    ∃ m, fieldMap (fieldsOf pairs) = some m ∧
      ∀ name, m name = (pairs.lookup name).map fun value => .bulkString (utf8 value) := by
  induction pairs with
  | nil => exact ⟨_, rfl, fun _ => rfl⟩
  | cons p pairs ih =>
    obtain ⟨name, value⟩ := p
    rw [List.map_cons, List.nodup_cons] at h
    obtain ⟨m, hm, hlookup⟩ := ih h.2
    refine ⟨fun k => (m k).or (if k = name then some (.bulkString (utf8 value)) else none), ?_, fun k => ?_⟩
    · simp only [fieldsOf, List.flatMap_cons, List.cons_append, List.nil_append, fieldMap, Text.ofUtf8_utf8]
      rw [show fieldMap (List.flatMap (fun p => [utf8 p.1, utf8 p.2]) pairs) = some m from hm]
    · change (m k).or _ = _
      rw [hlookup]
      by_cases hk : k = name
      · have hnone : pairs.lookup k = none := by
          rw [List.lookup_eq_none_iff]
          intro q hq
          rw [hk, bne_iff_ne]
          rintro rfl
          exact h.1 (List.mem_map.2 ⟨q, hq, rfl⟩)
        rw [hnone, if_pos hk, hk, List.lookup_cons_self]
        rfl
      · rw [if_neg hk, Option.or_none, List.lookup_cons, beq_false_of_ne hk]

/-- The client's marker for an entry with these fields. -/
def GapMarker.ofFields (texts : Texts) (stream : Str) (id : EntryId) (fields : List Bytes) : Option GapMarker :=
  (fieldMap fields).map fun m => GapMarker.ofItem texts stream ⟨id, m⟩

/-- The marker that names and values stand for. -/
def GapMarker.ofPairs (stream id : Str) (pairs : List (Str × Str)) : GapMarker where
  stream := stream
  id := id
  action := (pairs.lookup "action".toList).getD []
  db := i64 "db".toList
  moduleVersion := pairs.lookup "module-version".toList
  generation := pairs.lookup "generation".toList
  reason := pairs.lookup "reason".toList
  checkpointMs := u64 "checkpoint-ms".toList
  resolvedEvents := u64 "resolved-events".toList
  forwarded := u64 "forwarded".toList
  eventsLost := u64 "events-lost".toList
  dropped := u64 "dropped".toList
  asyncEnqueued := u64 "async-enqueued".toList
  asyncQueueDepth := i64 "async-queue-depth".toList
  asyncDrainEvents := u64 "async-drain-events".toList
  asyncWorkerErrors := u64 "async-worker-errors".toList
  handlerPanics := u64 "handler-panics".toList
  lastErrorTime := u64 "last-error-time".toList
where
  u64 (name : Str) : Option Nat := (pairs.lookup name).bind (Text.parseUnsigned u64Max)
  i64 (name : Str) : Option Int := (pairs.lookup name).bind (Text.parseSigned i64Min i64Max)

theorem ofFields_pairs {texts : Texts} (ht : texts.Faithful) (stream : Str) (id : EntryId) {pairs : List (Str × Str)}
    (h : (pairs.map Prod.fst).Nodup) :
    GapMarker.ofFields texts stream id (fieldsOf pairs) = some (.ofPairs stream id.text pairs) := by
  obtain ⟨m, hm, hlookup⟩ := fieldMap_pairs h
  have hfield : ∀ name, GapMarker.ofItem.field texts ⟨id, m⟩ name = pairs.lookup name := by
    intro name
    simp only [GapMarker.ofItem.field, hlookup]
    cases pairs.lookup name with
    | none => rfl
    | some value => exact congrArg some (ht value)
  rw [GapMarker.ofFields, hm]
  simp only [Option.map_some, GapMarker.ofItem, GapMarker.ofItem.u64Field, GapMarker.ofItem.i64Field, hfield,
    GapMarker.ofPairs, GapMarker.ofPairs.u64, GapMarker.ofPairs.i64]

/-! ## The entries of the module -/

/-- The pairs that a control entry starts with. -/
def signedPairs (generation : Str) (action : Action) (extra : List (Str × Str)) : List (Str × Str) :=
  [("action".toList, action.text), ("module-version".toList, EventStream.moduleVersion),
    ("generation".toList, generation)] ++ extra

theorem ofFields_signedPairs {texts : Texts} (ht : texts.Faithful) (stream : Str) (id : EntryId) (generation : Str)
    (action : Action) {extra : List (Str × Str)} (h : (controlNames ++ extra.map Prod.fst).Nodup) :
    GapMarker.ofFields texts stream id (signedFields generation action extra) =
      some (.ofPairs stream id.text (signedPairs generation action extra)) := by
  have hnames : ((signedPairs generation action extra).map Prod.fst).Nodup := h
  exact ofFields_pairs ht stream id hnames

/-- Whatever else it says, an entry reads back with the action and the generation that wrote it. -/
theorem ofFields_signed {texts : Texts} (ht : texts.Faithful) (stream : Str) (id : EntryId) (generation : Str)
    (action : Action) {extra : List (Str × Str)} (h : (controlNames ++ extra.map Prod.fst).Nodup) :
    ∃ m, GapMarker.ofFields texts stream id (signedFields generation action extra) = some m ∧ m.stream = stream ∧
      m.id = id.text ∧ m.action = action.text ∧ m.generation = some generation :=
  ⟨_, ofFields_signedPairs ht stream id generation action h, rfl, rfl, rfl, rfl⟩

/-! ## Checkpoints -/

/-- What a checkpoint says beside its action. -/
def checkpointPairs (st : State) : List (Str × Str) :=
  [("reason".toList, "periodic".toList),
    ("checkpoint-ms".toList, showInt st.config.controlCheckpointMs),
    ("resolved-events".toList, showNat (st.value .forwarded + st.value .eventsLost)),
    ("forwarded".toList, showNat (st.value .forwarded)),
    ("events-lost".toList, showNat (st.value .eventsLost)),
    ("dropped".toList, showNat (droppedTotal st)),
    ("async-enqueued".toList, showNat (st.value .asyncEnqueued)),
    ("async-queue-depth".toList, showInt st.asyncQueueDepth),
    ("async-drain-events".toList, showNat (st.value .asyncDrainEvents)),
    ("async-worker-errors".toList, showNat (st.value .asyncWorkerErrors)),
    ("handler-panics".toList, showNat (st.value .handlerPanics)),
    ("last-error-time".toList, showNat st.lastErrorTime)]

theorem writeCheckpoint_pairs (env : Env) (st : State) (control : Str) (retention : Retention) :
    writeCheckpoint env st control retention = writeControlEntry env st .checkpoint control .checkpoint retention
      (checkpointPairs st) .controlCheckpoints "control checkpoint".toList := rfl

/-- The counters that a checkpoint gives one by one. -/
def checkpointCounters : List Counter :=
  [.forwarded, .eventsLost, .asyncEnqueued, .asyncDrainEvents, .asyncWorkerErrors, .handlerPanics]

/-- The numbers of a checkpoint are in the range of the client's types. -/
structure InRange (st : State) : Prop where
  checkpointMs : 0 ≤ st.config.controlCheckpointMs ∧ st.config.controlCheckpointMs ≤ u64Max
  resolved : st.value .forwarded + st.value .eventsLost ≤ u64Max
  dropped : droppedTotal st ≤ u64Max
  counters : ∀ c ∈ checkpointCounters, st.value c ≤ u64Max
  depth : i64Min ≤ st.asyncQueueDepth ∧ st.asyncQueueDepth ≤ i64Max
  lastErrorTime : st.lastErrorTime ≤ u64Max

instance (st : State) : Decidable (InRange st) :=
  decidable_of_iff ((0 ≤ st.config.controlCheckpointMs ∧ st.config.controlCheckpointMs ≤ u64Max) ∧
      st.value .forwarded + st.value .eventsLost ≤ u64Max ∧ droppedTotal st ≤ u64Max ∧
      (∀ c ∈ checkpointCounters, st.value c ≤ u64Max) ∧
      (i64Min ≤ st.asyncQueueDepth ∧ st.asyncQueueDepth ≤ i64Max) ∧ st.lastErrorTime ≤ u64Max)
    ⟨fun ⟨a, b, c, d, e, f⟩ => ⟨a, b, c, d, e, f⟩, fun ⟨a, b, c, d, e, f⟩ => ⟨a, b, c, d, e, f⟩⟩

/-- The client's marker of a checkpoint of this state. -/
def checkpointMarker (stream id : Str) (st : State) : GapMarker where
  stream := stream
  id := id
  action := Action.checkpoint.text
  db := none
  moduleVersion := some EventStream.moduleVersion
  generation := some st.generationId
  reason := some "periodic".toList
  checkpointMs := some st.config.controlCheckpointMs.toNat
  resolvedEvents := some (st.value .forwarded + st.value .eventsLost)
  forwarded := some (st.value .forwarded)
  eventsLost := some (st.value .eventsLost)
  dropped := some (droppedTotal st)
  asyncEnqueued := some (st.value .asyncEnqueued)
  asyncQueueDepth := some st.asyncQueueDepth
  asyncDrainEvents := some (st.value .asyncDrainEvents)
  asyncWorkerErrors := some (st.value .asyncWorkerErrors)
  handlerPanics := some (st.value .handlerPanics)
  lastErrorTime := some st.lastErrorTime

theorem checkpointPairs_nodup (st : State) : (controlNames ++ (checkpointPairs st).map Prod.fst).Nodup := by
  change (controlNames ++ ["reason".toList, "checkpoint-ms".toList, "resolved-events".toList, "forwarded".toList,
    "events-lost".toList, "dropped".toList, "async-enqueued".toList, "async-queue-depth".toList,
    "async-drain-events".toList, "async-worker-errors".toList, "handler-panics".toList, "last-error-time".toList]).Nodup
  decide

/-- A checkpoint reads back as the state it was written in. -/
theorem ofFields_checkpoint {texts : Texts} (ht : texts.Faithful) (stream : Str) (id : EntryId) {st : State}
    (hr : InRange st) :
    GapMarker.ofFields texts stream id (signedFields st.generationId .checkpoint (checkpointPairs st)) =
      some (checkpointMarker stream id.text st) := by
  have hu64 : ∀ n, n ≤ u64Max → (some (showNat n)).bind (Text.parseUnsigned u64Max) = some n := fun n hn => by
    rw [Option.bind_some, Text.parseUnsigned_showNat hn]
  have hms : (some (showInt st.config.controlCheckpointMs)).bind (Text.parseUnsigned u64Max) =
      some st.config.controlCheckpointMs.toNat := by
    obtain ⟨n, hn⟩ := Int.eq_ofNat_of_zero_le hr.checkpointMs.1
    have hmax := hr.checkpointMs.2
    rw [hn] at hmax ⊢
    exact hu64 n (by omega)
  have hdepth : (some (showInt st.asyncQueueDepth)).bind (Text.parseSigned i64Min i64Max) =
      some st.asyncQueueDepth := by
    rw [Option.bind_some, Text.parseSigned_showInt hr.depth.1 hr.depth.2]
  have hcounter : ∀ c ∈ checkpointCounters, (some (showNat (st.value c))).bind (Text.parseUnsigned u64Max) =
      some (st.value c) := fun c hc => hu64 _ (hr.counters c hc)
  rw [ofFields_signedPairs ht stream id _ _ (checkpointPairs_nodup st), checkpointMarker, ← hms,
    ← hu64 _ hr.resolved, ← hcounter .forwarded (by decide), ← hcounter .eventsLost (by decide), ← hu64 _ hr.dropped,
    ← hcounter .asyncEnqueued (by decide), ← hdepth, ← hcounter .asyncDrainEvents (by decide),
    ← hcounter .asyncWorkerErrors (by decide), ← hcounter .handlerPanics (by decide), ← hu64 _ hr.lastErrorTime]
  rfl

end EventStream.Client

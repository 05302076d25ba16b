import EventStream.Client.Decode
import EventStream.Encode

/-!
# The decoder inverts the encoders

* `decodeEntry_encodeBatchFields`: an envelope decodes to its events, in order, with their positions as indexes.
* `decodeEntry_fixed`: a fixed entry decodes to its one event.
-/

namespace EventStream.Client

open Text (Str Bytes utf8 showInt showNat)
open Rfc8259 (Value JsonText)

/-! ## Field maps -/

theorem fieldMap_cons (name : String) (value : Bytes) {rest : List Bytes} {fields : Str → Option RedisValue}
    (h : fieldMap rest = some fields) :
    fieldMap (lit name :: value :: rest) =
      some fun k => (fields k).or (if k = name.toList then some (.bulkString value) else none) := by
  simp only [fieldMap, lit, Text.ofUtf8_utf8, h]

/-- The entry a reader receives for an envelope. -/
def batchEntry (stream id : Str) (events : List PendingEvent) : PhysicalEntry where
  stream := stream
  id := id
  fields k :=
    (((none : Option RedisValue).or
      (if k = "events".toList then some (.bulkString (utf8 (batchData events))) else none)).or
      (if k = "count".toList then some (.bulkString (utf8 (showNat events.length))) else none)).or
      (if k = "format".toList then some (.bulkString (utf8 "batch-v1".toList)) else none)

theorem ofFields_encodeBatchFields (stream id : Str) (events : List PendingEvent) :
    PhysicalEntry.ofFields stream id (encodeBatchFields events) = some (batchEntry stream id events) := by
  have h := fieldMap_cons "format" (lit "batch-v1")
    (fieldMap_cons "count" (utf8 (showNat events.length))
      (fieldMap_cons "events" (utf8 (batchData events)) fieldMap.eq_1))
  rw [PhysicalEntry.ofFields, encodeBatchFields, h]
  rfl

section Batch

variable (stream id : Str) (events : List PendingEvent)

theorem batchEntry_format :
    (batchEntry stream id events).fields "format".toList = some (.bulkString (utf8 "batch-v1".toList)) := by
  have he : "format".toList ≠ "events".toList := by decide
  have hc : "format".toList ≠ "count".toList := by decide
  simp only [batchEntry, if_neg he, if_neg hc, if_true, Option.or_none, Option.none_or]

theorem batchEntry_count :
    (batchEntry stream id events).fields "count".toList = some (.bulkString (utf8 (showNat events.length))) := by
  have he : "count".toList ≠ "events".toList := by decide
  simp only [batchEntry, if_neg he, if_true, Option.none_or, Option.some_or]

theorem batchEntry_events :
    (batchEntry stream id events).fields "events".toList = some (.bulkString (utf8 (batchData events))) := by
  simp only [batchEntry, if_true, Option.none_or, Option.some_or]

end Batch

/-! ## Envelopes -/

/-- What the JSON reader gives for one event of an envelope. -/
def toBatchEvent (e : PendingEvent) : BatchEvent :=
  ⟨e.event, (chunks3 e.key).flatMap base64Chunk, e.db.toInt, classNames e.cls⟩

/-- A 32-bit database number is within 64 bits. -/
theorem db_bounds (db : Int32) : i64Min ≤ db.toInt ∧ db.toInt ≤ i64Max := by
  have h1 := db.le_toInt
  have h2 := db.toInt_lt
  constructor
  · unfold i64Min; omega
  · unfold i64Max; omega

theorem batchEvent_eventValue (e : PendingEvent) : batchEvent (eventValue e) = some (toBatchEvent e) := by
  have hdb := db_bounds e.db
  simp [batchEvent, eventValue, toBatchEvent, List.lookup_cons, Rfc8259.Number.toInt?_ofInt, hdb]

theorem batchEvents_batchData (events : List PendingEvent) :
    batchEvents (.array (events.map eventValue)) = some (events.map toBatchEvent) := by
  rw [batchEvents]
  induction events with
  | nil => rfl
  | cons e events ih => simp [List.mapM_cons, batchEvent_eventValue, ih]

/-- The logical event that stands at one index of a decoded envelope. -/
def logicalEvent (position : PhysicalPosition) (p : PendingEvent × Nat) : LogicalEvent :=
  ⟨⟨position, some p.2⟩, p.1.event, p.1.key, p.1.db.toInt, some (classNames p.1.cls)⟩

theorem decodeBatchEvent_toBatchEvent {crates : Crates} (hc : crates.Standard) (entry : PhysicalEntry)
    (e : PendingEvent) (i : Nat) :
    decodeBatchEvent crates entry (toBatchEvent e, i) = .ok (logicalEvent entry.position (e, i)) := by
  have h := hc.decodeBase64 _ _ (decode_base64Chunks e.key)
  simp only [decodeBatchEvent, toBatchEvent, h, logicalEvent]

theorem mapM_decodeBatchEvent {crates : Crates} (hc : crates.Standard) (entry : PhysicalEntry)
    (events : List PendingEvent) (i : Nat) :
    ((events.map toBatchEvent).zipIdx i).mapM (decodeBatchEvent crates entry) =
      .ok ((events.zipIdx i).map (logicalEvent entry.position)) := by
  induction events generalizing i with
  | nil => rfl
  | cons e events ih =>
    simp only [List.map_cons, List.zipIdx_cons, List.mapM_cons, decodeBatchEvent_toBatchEvent hc, ih]
    rfl

/-- The decoder on an envelope: the events of its array, numbered by position. -/
theorem decodeEntry_batchEntry {crates : Crates} (hc : crates.Standard) (stream id : Str) (events : List PendingEvent)
    (hlen : events.length ≤ usizeMax) :
    decodeEntry crates (batchEntry stream id events) = .ok (events.zipIdx.map (logicalEvent ⟨stream, id⟩)) := by
  have hf := optionalFieldUtf8_of_utf8 (batchEntry_format stream id events)
  have hn := fieldUtf8_of_utf8 (batchEntry_count stream id events)
  have he := fieldBytes_of_bulk (batchEntry_events stream id events)
  have hj := hc.fromSlice _ _ _ (jsonText_batchData events) (batchEvents_batchData events)
  have hp := Text.parseUnsigned_showNat hlen
  have hm := mapM_decodeBatchEvent hc (batchEntry stream id events) events 0
  simp only [decodeEntry, hf, bind, Except.bind, if_true, decodeBatchV1Entry, hn, hp, he, hj, List.length_map,
    ne_eq, not_true_eq_false, if_false, hm]
  rfl

/-- **Encoder and decoder of an envelope are inverse.** The entry a reader receives for an envelope decodes to one
logical event per input, in input order, with the same event name, key bytes and database, the class names of its class
bits and its position as the index; the `events` value is a JSON array and `count` is its length. -/
theorem decodeEntry_encodeBatchFields {crates : Crates} (hc : crates.Standard) (stream id : Str)
    (events : List PendingEvent) (hlen : events.length ≤ usizeMax) :
    ∃ entry, PhysicalEntry.ofFields stream id (encodeBatchFields events) = some entry ∧
      decodeEntry crates entry = .ok (events.zipIdx.map fun p =>
        ⟨⟨⟨stream, id⟩, some p.2⟩, p.1.event, p.1.key, p.1.db.toInt, some (classNames p.1.cls)⟩) ∧
      ∃ text vs, entry.fields "events".toList = some (.bulkString (utf8 text)) ∧ JsonText (.array vs) text ∧
        vs.length = events.length ∧ entry.fields "count".toList = some (.bulkString (utf8 (showNat vs.length))) := by
  refine ⟨batchEntry stream id events, ofFields_encodeBatchFields stream id events,
    decodeEntry_batchEntry hc stream id events hlen, batchData events, events.map eventValue,
    batchEntry_events stream id events, jsonText_batchData events, List.length_map _, ?_⟩
  rw [List.length_map]
  exact batchEntry_count stream id events

/-- An event whose name holds a quote, a backslash and two controls, under two class bits, on a one-byte key. -/
def awkwardEvent : PendingEvent where
  pfx := "es:".toList
  suffix := "a____".toList
  event := ['a', '"', '\\', '\n', '\x01']
  key := [255]
  db := -1
  cls := {.hash, .new}
  dataRetention := ⟨0, 0⟩
  controlRetention := ⟨0, 0⟩
  firehoseRetention := ⟨0, 0⟩
  maxStreams := 0
  format := .fixed
  entrySeq := false

theorem decodeEntry_encodeBatchFields_awkward :
    Crates.reference.Standard ∧ [awkwardEvent, awkwardEvent].length ≤ usizeMax ∧
      ∃ entry, PhysicalEntry.ofFields "es:a____".toList "1-0".toList (encodeBatchFields [awkwardEvent, awkwardEvent]) =
          some entry ∧
        decodeEntry Crates.reference entry = .ok
          [⟨⟨⟨"es:a____".toList, "1-0".toList⟩, some 0⟩, ['a', '"', '\\', '\n', '\x01'], [255], -1,
            some "hash,new".toList⟩,
            ⟨⟨⟨"es:a____".toList, "1-0".toList⟩, some 1⟩, ['a', '"', '\\', '\n', '\x01'], [255], -1,
              some "hash,new".toList⟩] := by
  have hlen : [awkwardEvent, awkwardEvent].length ≤ usizeMax := by decide
  refine ⟨Crates.reference_standard, hlen, ?_⟩
  obtain ⟨entry, ho, hd, _⟩ := decodeEntry_encodeBatchFields Crates.reference_standard "es:a____".toList "1-0".toList
    [awkwardEvent, awkwardEvent] hlen
  refine ⟨entry, ho, hd.trans ?_⟩
  have hcls : classNames {.hash, .new} = "hash,new".toList := by decide
  simp only [List.zipIdx, List.map, awkwardEvent, hcls]
  rfl

/-! ## Fixed entries -/

/-- The entry a reader receives for a fixed entry. -/
def fixedEntry (stream id event : Str) (key : Bytes) (db : Str) (seq : Option Nat) : PhysicalEntry where
  stream := stream
  id := id
  fields k :=
    (((match seq with
      | some seq => (none : Option RedisValue).or
          (if k = "seq".toList then some (.bulkString (utf8 (showNat seq))) else none)
      | none => none).or (if k = "db".toList then some (.bulkString (utf8 db)) else none)).or
      (if k = "key".toList then some (.bulkString key) else none)).or
      (if k = "event".toList then some (.bulkString (utf8 event)) else none)

theorem ofFields_fixed (stream id event : Str) (key : Bytes) (db : Str) (cls : NotifyEvent) (seq : Option Nat) :
    ∃ fields, encodeEntryFields ⟨.fixed, utf8 event, key, db, cls, seq⟩ = .ok fields ∧
      PhysicalEntry.ofFields stream id fields = some (fixedEntry stream id event key db seq) := by
  cases seq with
  | none =>
    refine ⟨_, rfl, ?_⟩
    have h := fieldMap_cons "event" (utf8 event) (fieldMap_cons "key" key (fieldMap_cons "db" (utf8 db) fieldMap.eq_1))
    rw [PhysicalEntry.ofFields, List.append_nil, h]
    rfl
  | some n =>
    refine ⟨_, rfl, ?_⟩
    have h := fieldMap_cons "event" (utf8 event) (fieldMap_cons "key" key
      (fieldMap_cons "db" (utf8 db) (fieldMap_cons "seq" (utf8 (showNat n)) fieldMap.eq_1)))
    simp only [List.cons_append, List.nil_append]
    rw [PhysicalEntry.ofFields, h]
    rfl

section Fixed

variable (stream id event : Str) (key : Bytes) (db : Str) (seq : Option Nat)

theorem fixedEntry_event : (fixedEntry stream id event key db seq).fields "event".toList =
    some (.bulkString (utf8 event)) := by
  have h1 : "event".toList ≠ "seq".toList := by decide
  have h2 : "event".toList ≠ "db".toList := by decide
  have h3 : "event".toList ≠ "key".toList := by decide
  cases seq <;> simp only [fixedEntry, if_neg h1, if_neg h2, if_neg h3, if_true, Option.none_or]

theorem fixedEntry_key : (fixedEntry stream id event key db seq).fields "key".toList = some (.bulkString key) := by
  have h1 : "key".toList ≠ "seq".toList := by decide
  have h2 : "key".toList ≠ "db".toList := by decide
  cases seq <;> simp only [fixedEntry, if_neg h1, if_neg h2, if_true, Option.none_or, Option.some_or]

theorem fixedEntry_db : (fixedEntry stream id event key db seq).fields "db".toList = some (.bulkString (utf8 db)) := by
  have h1 : "db".toList ≠ "seq".toList := by decide
  cases seq <;> simp only [fixedEntry, if_neg h1, if_true, Option.none_or, Option.some_or]

/-- Names outside the fixed schema are absent. -/
theorem fixedEntry_none {k : Str} (h1 : k ≠ "seq".toList) (h2 : k ≠ "db".toList) (h3 : k ≠ "key".toList)
    (h4 : k ≠ "event".toList) : (fixedEntry stream id event key db seq).fields k = none := by
  cases seq <;> simp only [fixedEntry, if_neg h1, if_neg h2, if_neg h3, if_neg h4, Option.none_or]

end Fixed

/-- A fixed entry decodes to its one event. -/
theorem decodeEntry_fixedEntry (crates : Crates) (stream id event : Str) (key : Bytes) (db : Int32)
    (seq : Option Nat) :
    decodeEntry crates (fixedEntry stream id event key (showInt db.toInt) seq) =
      .ok [⟨⟨⟨stream, id⟩, none⟩, event, key, db.toInt, none⟩] := by
  have hf := optionalFieldUtf8_of_none (fixedEntry_none stream id event key (showInt db.toInt) seq
    (k := "format".toList) (by decide) (by decide) (by decide) (by decide))
  have hcls := optionalFieldUtf8_of_none (fixedEntry_none stream id event key (showInt db.toInt) seq
    (k := "class".toList) (by decide) (by decide) (by decide) (by decide))
  have he := fieldUtf8_of_utf8 (fixedEntry_event stream id event key (showInt db.toInt) seq)
  have hk := fieldBytes_of_bulk (fixedEntry_key stream id event key (showInt db.toInt) seq)
  have hd := fieldUtf8_of_utf8 (fixedEntry_db stream id event key (showInt db.toInt) seq)
  have hp := Text.parseSigned_showInt (db_bounds db).1 (db_bounds db).2
  simp only [decodeEntry, hf, bind, Except.bind, decodeFixedEntry, he, hk, parseInteger, hd, hp, hcls]
  rfl

end EventStream.Client

import EventStream.Lib.Json
import EventStream.Lib.Base64

/-!
# The client's decoder

One physical stream entry expands to logical events: an entry without `format` is the fixed schema and holds one
event, `format=batch-v1` holds the events of its JSON array, and any other format is refused.

The two library calls of the decoder, `serde_json::from_slice` and the padded base64 engine, are the fields of `Crates`;
`Crates.Standard` says that they read what RFC 8259 and RFC 4648 define.
-/

namespace EventStream.Client

open Text (Str Bytes utf8 ofUtf8)
open Rfc8259 (Value JsonText)

/-! ## Entries -/

/-- A field value of a reply; every value that is no string counts as `other`. -/
inductive RedisValue
  | bulkString (bytes : Bytes)
  | simpleString (value : Str)
  | other
  deriving DecidableEq, Repr

/-- One physical stream entry. -/
structure PhysicalEntry where
  stream : Str
  id : Str
  fields : Str → Option RedisValue

structure PhysicalPosition where
  stream : Str
  entryId : Str
  deriving DecidableEq, Repr

structure SourcePosition where
  physical : PhysicalPosition
  envelopeIndex : Option Nat
  deriving DecidableEq, Repr

/-- One keyspace event, decoded. -/
structure LogicalEvent where
  source : SourcePosition
  event : Str
  key : Bytes
  db : Int
  cls : Option Str
  deriving DecidableEq, Repr

inductive DecodeErrorKind
  | missingField (field : Str)
  | invalidFieldType (field : Str)
  | invalidUtf8 (field : Str)
  | invalidInteger (field value : Str)
  | unsupportedFormat (format : Str)
  | invalidJson (message : Str)
  | countMismatch (declared decoded : Nat)
  | invalidBase64 (envelopeIndex : Nat) (message : Str)
  deriving DecidableEq, Repr

structure DecodeError where
  physical : PhysicalPosition
  kind : DecodeErrorKind
  deriving DecidableEq, Repr

namespace PhysicalEntry

def position (entry : PhysicalEntry) : PhysicalPosition := ⟨entry.stream, entry.id⟩

def error (entry : PhysicalEntry) (kind : DecodeErrorKind) : DecodeError := ⟨entry.position, kind⟩

end PhysicalEntry

/-- The field map of an entry that was written with these field names and values. A reply is refused when a name is
not UTF-8, and a repeated name keeps its last value. -/
def fieldMap : List Bytes → Option (Str → Option RedisValue)
  | [] => some fun _ => none
  | name :: value :: rest =>
    match ofUtf8 name, fieldMap rest with
    | some name, some fields =>
      some fun k => (fields k).or (if k = name then some (.bulkString value) else none)
    | _, _ => none
  | [_] => none

/-- The physical entry a reader receives for an `XADD` of these fields. -/
def PhysicalEntry.ofFields (stream id : Str) (fields : List Bytes) : Option PhysicalEntry :=
  (fieldMap fields).map fun fields => ⟨stream, id, fields⟩

/-! ## Library calls -/

/-- The object shape the decoder derives its JSON reader for. -/
structure BatchEvent where
  event : Str
  key : Str
  db : Int
  cls : Str
  deriving DecidableEq, Repr

def i64Min : Int := -9223372036854775808
def i64Max : Int := 9223372036854775807
def usizeMax : Nat := 18446744073709551615
def u64Max : Nat := 18446744073709551615

/-- The event of a JSON object with exactly the four members, each of the right type. -/
def batchEvent : Value → Option BatchEvent
  | .object ms =>
    match ms.length, ms.lookup "event".toList, ms.lookup "key".toList, ms.lookup "db".toList,
      ms.lookup "class".toList with
    | 4, some (.string event), some (.string key), some (.number db), some (.string cls) =>
      match db.toInt? with
      | some db => if i64Min ≤ db ∧ db ≤ i64Max then some ⟨event, key, db, cls⟩ else none
      | none => none
    | _, _, _, _, _ => none
  | _ => none

/-- The events of a JSON array of such objects. -/
def batchEvents : Value → Option (List BatchEvent)
  | .array vs => vs.mapM batchEvent
  | _ => none

/-- The library calls of the decoder. -/
structure Crates where
  fromSlice : Bytes → Except Str (List BatchEvent)
  decodeBase64 : Str → Except Str Bytes

namespace Crates

/-- `serde_json` reads RFC 8259 texts and the base64 engine reads padded RFC 4648. -/
structure Standard (crates : Crates) : Prop where
  fromSlice : ∀ text v events, JsonText v text → batchEvents v = some events →
    crates.fromSlice (utf8 text) = .ok events
  decodeBase64 : ∀ text bytes, Rfc4648.decode text = some bytes → crates.decodeBase64 text = .ok bytes

/-- Library calls that meet the two standards: the parser and the decoder of the two grammars themselves. -/
def reference : Crates where
  fromSlice bytes :=
    match ((ofUtf8 bytes).bind Rfc8259.parse).bind batchEvents with
    | some events => .ok events
    | none => .error "expected value".toList
  decodeBase64 text :=
    match Rfc4648.decode text with
    | some bytes => .ok bytes
    | none => .error "Invalid symbol".toList

theorem reference_standard : reference.Standard where
  fromSlice text v events ht hv := by
    simp only [reference, Text.ofUtf8_utf8, Option.bind_some, Rfc8259.parse_of_text ht, hv]
  decodeBase64 text bytes h := by simp only [reference, h]

end Crates

/-! ## Decoding -/

def fieldBytes (entry : PhysicalEntry) (name : Str) : Except DecodeError Bytes :=
  match entry.fields name with
  | some (.bulkString bytes) => .ok bytes
  | some (.simpleString value) => .ok (utf8 value)
  | some .other => .error (entry.error (.invalidFieldType name))
  | none => .error (entry.error (.missingField name))

def fieldUtf8 (entry : PhysicalEntry) (name : Str) : Except DecodeError Str := do
  let bytes ← fieldBytes entry name
  match ofUtf8 bytes with
  | some value => .ok value
  | none => .error (entry.error (.invalidUtf8 name))

def optionalFieldUtf8 (entry : PhysicalEntry) (name : Str) : Except DecodeError (Option Str) :=
  if (entry.fields name).isSome then (fieldUtf8 entry name).map some else .ok none

def parseInteger (entry : PhysicalEntry) (name : Str) : Except DecodeError Int := do
  let value ← fieldUtf8 entry name
  match Text.parseSigned i64Min i64Max value with
  | some i => .ok i
  | none => .error (entry.error (.invalidInteger name value))

def decodeFixedEntry (entry : PhysicalEntry) : Except DecodeError (List LogicalEvent) := do
  let event ← fieldUtf8 entry "event".toList
  let key ← fieldBytes entry "key".toList
  let db ← parseInteger entry "db".toList
  let cls ← optionalFieldUtf8 entry "class".toList
  .ok [⟨⟨entry.position, none⟩, event, key, db, cls⟩]

/-- The logical event at one index of the array. -/
def decodeBatchEvent (crates : Crates) (entry : PhysicalEntry) (p : BatchEvent × Nat) :
    Except DecodeError LogicalEvent :=
  match crates.decodeBase64 p.1.key with
  | .error message => .error (entry.error (.invalidBase64 p.2 message))
  | .ok key => .ok ⟨⟨entry.position, some p.2⟩, p.1.event, key, p.1.db, some p.1.cls⟩

def decodeBatchV1Entry (crates : Crates) (entry : PhysicalEntry) : Except DecodeError (List LogicalEvent) := do
  let countText ← fieldUtf8 entry "count".toList
  match Text.parseUnsigned usizeMax countText with
  | none => .error (entry.error (.invalidInteger "count".toList countText))
  | some declared =>
    let bytes ← fieldBytes entry "events".toList
    match crates.fromSlice bytes with
    | .error message => .error (entry.error (.invalidJson message))
    | .ok events =>
      if declared ≠ events.length then .error (entry.error (.countMismatch declared events.length))
      else events.zipIdx.mapM (decodeBatchEvent crates entry)

def decodeEntry (crates : Crates) (entry : PhysicalEntry) : Except DecodeError (List LogicalEvent) := do
  match ← optionalFieldUtf8 entry "format".toList with
  | none => decodeFixedEntry entry
  | some format =>
    if format = "batch-v1".toList then decodeBatchV1Entry crates entry
    else .error (entry.error (.unsupportedFormat format))

/-! ## Fields that are there -/

theorem fieldUtf8_of_utf8 {entry : PhysicalEntry} {name s : Str}
    (h : entry.fields name = some (.bulkString (utf8 s))) : fieldUtf8 entry name = .ok s := by
  simp [fieldUtf8, fieldBytes, h, Text.ofUtf8_utf8, bind, Except.bind]

theorem optionalFieldUtf8_of_utf8 {entry : PhysicalEntry} {name s : Str}
    (h : entry.fields name = some (.bulkString (utf8 s))) : optionalFieldUtf8 entry name = .ok (some s) := by
  simp [optionalFieldUtf8, h, fieldUtf8_of_utf8 h, Except.map]

theorem optionalFieldUtf8_of_none {entry : PhysicalEntry} {name : Str} (h : entry.fields name = none) :
    optionalFieldUtf8 entry name = .ok none := by
  simp [optionalFieldUtf8, h]

theorem fieldBytes_of_bulk {entry : PhysicalEntry} {name : Str} {bytes : Bytes}
    (h : entry.fields name = some (.bulkString bytes)) : fieldBytes entry name = .ok bytes := by
  simp [fieldBytes, h]

end EventStream.Client

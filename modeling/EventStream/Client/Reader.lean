import EventStream.Client.Decode
import EventStream.Lib.Machine
import EventStream.Lib.Tail
import Mathlib.Data.List.AList
import Mathlib.Data.Prod.Lex

/-!
# The merged reader

The client reads several streams at once: it keeps a cursor for each, asks for the entries after it, and returns what it
got from all of them in the order of the entry IDs. Streams can be added on the way, and a stream whose read fails is
skipped in that round.

* `EntryId`, `cursorKey`, `entryIdSortKey`: entry IDs, their text, and how the server and the client read it.
* `Logs`, `Traffic`: append-only streams, and what happens around the requests of one call.
* `MergedReader`, `pollPhysical`, `poll`, `addStreams`: the reader.
* `World`: a server and a reader on it, with what the reader has returned.
-/

namespace EventStream.Client

open Text (Str Bytes utf8 showNat splitOnce)

/-! ## Entry IDs -/

/-- Milliseconds and a counter, compared one after the other. -/
abbrev IdKey := Nat ×ₗ Nat

/-- A valid entry ID: two 64-bit numbers, not both zero. -/
structure EntryId where
  ms : Nat
  seq : Nat
  ms_le : ms ≤ u64Max
  seq_le : seq ≤ u64Max
  pos : ms ≠ 0 ∨ seq ≠ 0

namespace EntryId

def key (id : EntryId) : IdKey := toLex (id.ms, id.seq)

def text (id : EntryId) : Str := showNat id.ms ++ '-' :: showNat id.seq

theorem zero_lt_key (id : EntryId) : toLex (0, 0) < id.key := by
  rw [key, Prod.Lex.toLex_lt_toLex]
  have := id.pos
  simp only
  omega

theorem splitOnce_text (id : EntryId) : splitOnce '-' id.text = some (showNat id.ms, showNat id.seq) := by
  apply Text.splitOnce_append
  intro h
  exact absurd (Text.isDigit_of_mem_showNat h) (by decide)

end EntryId

/-- A number of an ID as the server reads it. -/
def idNumber (s : Str) : Option Nat := (Text.digits s).filter (· ≤ u64Max)

/-- The position a cursor stands for: without a counter, the first of its millisecond. -/
def cursorKey (cursor : Str) : Option IdKey :=
  match splitOnce '-' cursor with
  | some (ms, seq) =>
    match idNumber ms, idNumber seq with
    | some ms, some seq => some (toLex (ms, seq))
    | _, _ => none
  | none => (idNumber cursor).map fun ms => toLex (ms, 0)

/-- The client's reading of an ID, for the order of a batch; what cannot be read counts as zero. -/
def entryIdSortKey (id : Str) : IdKey :=
  match splitOnce '-' id with
  | some (ms, seq) => toLex ((Text.parseUnsigned u64Max ms).getD 0, (Text.parseUnsigned u64Max seq).getD 0)
  | none => toLex ((Text.parseUnsigned u64Max id).getD 0, 0)

theorem cursorKey_text (id : EntryId) : cursorKey id.text = some id.key := by
  have hnum : ∀ n, n ≤ u64Max → idNumber (showNat n) = some n := fun n hn => by
    rw [idNumber, Text.digits_showNat, Option.filter_some_pos (by simpa using hn)]
  rw [cursorKey, id.splitOnce_text]
  simp only [hnum _ id.ms_le, hnum _ id.seq_le, EntryId.key]

theorem entryIdSortKey_text (id : EntryId) : entryIdSortKey id.text = id.key := by
  simp [entryIdSortKey, id.splitOnce_text, Text.parseUnsigned_showNat id.ms_le, Text.parseUnsigned_showNat id.seq_le,
    EntryId.key]

/-! ## The server's side -/

/-- One entry of a stream. -/
structure Item where
  id : EntryId
  fields : Str → Option RedisValue

namespace Item

def key (item : Item) : IdKey := item.id.key

/-- The entry as a reader of the stream receives it. -/
def physical (stream : Str) (item : Item) : PhysicalEntry := ⟨stream, item.id.text, item.fields⟩

def position (stream : Str) (item : Item) : PhysicalPosition := ⟨stream, item.id.text⟩

end Item

/-- The streams of the server. -/
abbrev Logs := Str → List Item

/-- `XADD` with an explicit ID: it is refused unless the ID is greater than all of the stream. -/
def Logs.append (logs : Logs) (p : Str × Item) : Logs :=
  if ∀ e ∈ logs p.1, e.key < p.2.key then Function.update logs p.1 (logs p.1 ++ [p.2]) else logs

/-- What happens around the requests of one call: the entries that arrive before each of them, and whether it fails. -/
structure Traffic where
  arrivals : Nat → List (Str × Item)
  fails : Nat → Bool

/-- Nothing arrives, and no request fails. -/
def Traffic.quiet : Traffic := ⟨fun _ => [], fun _ => false⟩

/-- The streams when the `i`-th request of a call is served. -/
def Traffic.before (traffic : Traffic) (i : Nat) (logs : Logs) : Logs := (traffic.arrivals i).foldl Logs.append logs

/-- The most entries a reply has; a count of zero sets no limit. -/
def readLimit (log : List Item) (count : Nat) : Nat := if count = 0 then log.length else count

/-- `XREAD COUNT count STREAMS stream cursor`: the first entries after the cursor. -/
def xread (log : List Item) (cursor : Str) (count : Nat) : Option (List Item) :=
  (cursorKey cursor).map fun c => Tail.next Item.key log c (readLimit log count)

def zeroCursor : Str := ['0']

theorem cursorKey_zeroCursor : cursorKey zeroCursor = some (toLex (0, 0)) := by
  have hs : splitOnce '-' zeroCursor = none := by decide
  have hd : idNumber zeroCursor = some 0 := by decide
  rw [cursorKey, hs, hd]
  rfl

/-- `last_id`: the ID of the last entry, and the zero cursor if there is none or the request fails. -/
def lastId (log : List Item) (fails : Bool) : Str :=
  if fails then zeroCursor else (log.getLast?.map fun item => item.id.text).getD zeroCursor

/-! ## The reader -/

abbrev Cursors := AList fun _ : Str => Str

structure MergedReader where
  streams : List Str
  cursors : Cursors

/-- The client's view of a fixed entry; the two renderings of the standard library are left open. -/
structure Texts where
  fromUtf8Lossy : Bytes → Str
  debug : RedisValue → Str

structure Entry where
  stream : Str
  id : Str
  event : Str
  key : Bytes
  db : Str

/-- `Entry::from`. -/
def Entry.ofPhysical (texts : Texts) (entry : PhysicalEntry) : Entry where
  stream := entry.stream
  id := entry.id
  event := field "event".toList
  key :=
    match entry.fields "key".toList with
    | some (.bulkString bytes) => bytes
    | some (.simpleString value) => utf8 value
    | _ => []
  db := field "db".toList
where
  field (name : Str) : Str :=
    match entry.fields name with
    | some (.bulkString bytes) => texts.fromUtf8Lossy bytes
    | some value => texts.debug value
    | none => []

def PhysicalEntry.sortKey (entry : PhysicalEntry) : IdKey := entryIdSortKey entry.id

/-- The order of a batch. -/
def batchLe (a b : PhysicalEntry) : Prop := a.sortKey ≤ b.sortKey

instance : DecidableRel batchLe := fun a b => inferInstanceAs (Decidable (a.sortKey ≤ b.sortKey))

/-- Where a stream is read from; the tail is asked for unless the whole history is wanted. -/
def startCursor (log : List Item) (fails fromZero : Bool) : Str := if fromZero then zeroCursor else lastId log fails

/-- The state of a loop over streams that sets cursors: the server, the reader and the names added. -/
structure Adding where
  logs : Logs
  reader : MergedReader
  added : List Str

/-- The state of a round: the server, the cursors and the batch. -/
structure Round where
  logs : Logs
  cursors : Cursors
  batch : List PhysicalEntry

namespace MergedReader

/-- One stream of a new reader. -/
def newStream (traffic : Traffic) (fromZero : Bool) (acc : Logs × Cursors) (p : Str × Nat) : Logs × Cursors :=
  let logs := traffic.before p.2 acc.1
  (logs, acc.2.insert p.1 (startCursor (logs p.1) (traffic.fails p.2) fromZero))

/-- A reader over some streams, and the server after the calls. -/
def new (logs : Logs) (traffic : Traffic) (streams : List Str) (fromZero : Bool) : Logs × MergedReader :=
  let r := streams.zipIdx.foldl (newStream traffic fromZero) (logs, ∅)
  (r.1, ⟨streams, r.2⟩)

/-- One candidate, which is skipped if it is covered. -/
def addStream (traffic : Traffic) (fromZero : Bool) (acc : Adding) (p : Str × Nat) : Adding :=
  if (acc.reader.cursors.lookup p.1).isSome then acc
  else
    let logs := traffic.before p.2 acc.logs
    let start := startCursor (logs p.1) (traffic.fails p.2) fromZero
    { logs := logs
      reader := { streams := acc.reader.streams ++ [p.1], cursors := acc.reader.cursors.insert p.1 start }
      added := acc.added ++ [p.1] }

/-- Add the candidates that are not covered; the result names them. -/
def addStreams (reader : MergedReader) (logs : Logs) (traffic : Traffic) (candidates : List Str) (fromZero : Bool) :
    Adding :=
  candidates.zipIdx.foldl (addStream traffic fromZero) ⟨logs, reader, []⟩

/-- One entry of a reply: the cursor moves to it. -/
def pushEntry (stream : Str) (acc : Round) (item : Item) : Round :=
  { acc with cursors := acc.cursors.insert stream item.id.text, batch := acc.batch ++ [item.physical stream] }

/-- The read of one stream. -/
def pollStream (traffic : Traffic) (count : Nat) (acc : Round) (p : Str × Nat) : Round :=
  let cursor := (acc.cursors.lookup p.1).getD zeroCursor
  let served := { acc with logs := traffic.before p.2 acc.logs }
  if traffic.fails p.2 then served
  else
    match xread (served.logs p.1) cursor count with
    | none => served
    | some items => items.foldl (pushEntry p.1) served

/-- One round over all streams: the entries after the cursors, in a stable order by entry ID. -/
def pollPhysical (reader : MergedReader) (logs : Logs) (traffic : Traffic) (count : Nat) :
    Logs × MergedReader × List PhysicalEntry :=
  let r := reader.streams.zipIdx.foldl (pollStream traffic count) ⟨logs, reader.cursors, []⟩
  (r.logs, { reader with cursors := r.cursors }, r.batch.insertionSort batchLe)

/-- The same round, each entry viewed as a fixed one. -/
def poll (texts : Texts) (reader : MergedReader) (logs : Logs) (traffic : Traffic) (count : Nat) :
    Logs × MergedReader × List Entry :=
  let r := reader.pollPhysical logs traffic count
  (r.1, r.2.1, r.2.2.map (Entry.ofPhysical texts))

end MergedReader

/-! ## Readers and growing streams -/

/-- What a round returned. -/
inductive Reply
  | physical (batch : List PhysicalEntry)
  | plain (batch : List Entry)

def Reply.positions : Reply → List PhysicalPosition
  | physical batch => batch.map PhysicalEntry.position
  | plain batch => batch.map fun e => ⟨e.stream, e.id⟩

/-- A server, a reader on it, and two ghosts: where each stream was read from, and what was returned. -/
structure World where
  logs : Logs
  reader : MergedReader
  starts : Str → Option Str
  replies : List Reply

namespace World

/-- What was returned, round by round. -/
def seen (w : World) : List PhysicalPosition := w.replies.flatMap Reply.positions

inductive Act
  | append (stream : Str) (item : Item)
  | pollPhysical (count : Nat) (traffic : Traffic)
  | poll (count : Nat) (traffic : Traffic)
  | addStreams (candidates : List Str) (fromZero : Bool) (traffic : Traffic)

def step (texts : Texts) (w : World) : Act → World
  | .append stream item => { w with logs := w.logs.append (stream, item) }
  | .pollPhysical count traffic =>
    let r := w.reader.pollPhysical w.logs traffic count
    { w with logs := r.1, reader := r.2.1, replies := w.replies ++ [.physical r.2.2] }
  | .poll count traffic =>
    let r := w.reader.poll texts w.logs traffic count
    { w with logs := r.1, reader := r.2.1, replies := w.replies ++ [.plain r.2.2] }
  | .addStreams candidates fromZero traffic =>
    let r := w.reader.addStreams w.logs traffic candidates fromZero
    { w with logs := r.logs, reader := r.reader, starts := fun s => (w.starts s).or (r.reader.cursors.lookup s) }

/-- A round asks for at least one entry of each stream. -/
def Allowed (_ : World) : Act → Prop
  | .pollPhysical count _ | .poll count _ => 1 ≤ count
  | _ => True

/-- A new reader on streams whose IDs increase. -/
def Fresh (w : World) : Prop :=
  ∃ logs traffic streams fromZero, (∀ s, Tail.Increasing Item.key (logs s)) ∧
    (w.logs, w.reader) = MergedReader.new logs traffic streams fromZero ∧ w.starts = w.reader.cursors.lookup ∧
    w.replies = []

/-- The worlds that some interleaving leads to. -/
def Reach (texts : Texts) : World → Prop := Machine.Reach (fun w act w' => step texts w act = w') Allowed Fresh

end World

end EventStream.Client

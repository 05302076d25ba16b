import EventStream.Lib.Text
import Mathlib.Data.Finset.Basic

/-!
# Captured events

The values the notification callback snapshots for one captured event, and the small functions of the capture path
that only look at them: event-name sanitization, class names and the trim policy of a write.
-/

namespace EventStream

open Text (Str Bytes showInt)

/-! ## Notification classes -/

/-- The notification classes; the module names the first twelve, the others are bits it does not recognise. -/
inductive EventClass
  | generic | string | list | set | hash | zset | stream | expired | evicted | module | missed | new
  | unnamed (bit : Nat)
  deriving DecidableEq, Repr

/-- The class bits of a notification. -/
abbrev NotifyEvent := Finset EventClass

/-- The named classes, in the order they are listed. -/
def named : List (EventClass × Str) :=
  [(.generic, "generic".toList), (.string, "string".toList), (.list, "list".toList), (.set, "set".toList),
    (.hash, "hash".toList), (.zset, "zset".toList), (.stream, "stream".toList), (.expired, "expired".toList),
    (.evicted, "evicted".toList), (.module, "module".toList), (.missed, "missed".toList), (.new, "new".toList)]

/-- The names of the class bits that are set, joined by commas. -/
def classNames (cls : NotifyEvent) : Str :=
  List.intercalate [','] ((named.filter (fun p => p.1 ∈ cls)).map Prod.snd)

/-! ## Formats and modes -/

inductive EntryFormat
  | fixed | minimal | verbose | json
  deriving DecidableEq, Repr

inductive WriteMode
  | sync | individual | envelope
  deriving DecidableEq, Repr

/-! ## Sanitization -/

def maxEventNameLen : Nat := 128

/-- The characters of a stream-key suffix. -/
def passes (c : Char) : Bool :=
  ('A' ≤ c && c ≤ 'Z') || ('a' ≤ c && c ≤ 'z') || ('0' ≤ c && c ≤ '9') || c = '_' || c = '.' || c = ':' || c = '-'

/-- The stream-key suffix of an event name. -/
def sanitize (event : Str) : Str := (event.take maxEventNameLen).map fun c => if passes c then c else '_'

/-! ## Trimming -/

/-- The inline trim policy of one write. -/
structure Retention where
  maxlen : Int
  retentionMs : Int
  deriving DecidableEq, Repr

inductive TrimKeyword
  | minid | maxlen
  deriving DecidableEq, Repr

namespace Retention

def isTimeBased (r : Retention) : Bool := 0 < r.retentionMs

/-- The inline trim clause: by time if a window is set, else by count if a cap is set. The subtraction saturates in
the source; clamping the result at zero hides where. -/
def trimClause (r : Retention) (nowMs : Int) : Option (TrimKeyword × Str) :=
  if 0 < r.retentionMs then some (.minid, showInt (max (nowMs - r.retentionMs) 0) ++ "-0".toList)
  else if 0 < r.maxlen then some (.maxlen, showInt r.maxlen)
  else none

end Retention

/-! ## Pending events -/

/-- The inputs of one captured event, as the notification callback saw them. -/
structure PendingEvent where
  pfx : Str
  suffix : Str
  event : Str
  key : Bytes
  db : Int32
  cls : NotifyEvent
  dataRetention : Retention
  controlRetention : Retention
  firehoseRetention : Retention
  maxStreams : Int
  format : EntryFormat
  entrySeq : Bool
  deriving DecidableEq

/-- The inputs that shape the fields of one mirrored entry. -/
structure EntrySpec where
  format : EntryFormat
  event : Bytes
  key : Bytes
  db : Str
  cls : NotifyEvent
  seq : Option Nat
  deriving DecidableEq

end EventStream

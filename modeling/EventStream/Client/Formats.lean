import EventStream.Client.RoundTrip

/-!
# A reader of every entry format

Entries of the four formats may alternate in one stream. `readEntry` is what a consumer does that knows the formats and
looks at the fields of one entry only: the `format` field says how to read the others, and an entry without one is
fixed.

* `jsonText_jsonDocument`: the `data` value of a `json` entry is a JSON object with the members of the entry.
* `readEntry_encode`: the reader recovers what the encoder was given.
* `encodeEntryFields_lossless`: encoding succeeds, and nothing is lost in it.
-/

namespace EventStream.Client

open Text (Str Bytes utf8 ofUtf8 showInt showNat)
open Rfc8259 (Value Members Spells JsonText)

/-! ## The JSON document -/

/-- The object a `json` entry holds. -/
def documentValue (event : Str) (key : Bytes) (db : Int) (seq : Option Nat) : Value :=
  .object ([("event".toList, .string event), ("key".toList, .string ((chunks3 key).flatMap base64Chunk)),
    ("db".toList, .number (.ofInt db))] ++ (seq.map fun n => ("seq".toList, Value.number (.ofInt n))).toList)

theorem spells_showInt (i : Int) : Spells (.number (.ofInt i)) (showInt i) := by
  rw [← Rfc8259.Number.text_ofInt]
  exact .number (Rfc8259.Number.ofInt_wellFormed i)

/-- The document spells its object, with the sequence number and without it. -/
theorem spells_jsonDocument (event : Str) (key : Bytes) (db : Int) (seq : Option Nat) :
    Spells (documentValue event key db seq) (jsonDocument event key (showInt db) seq) := by
  have w := Rfc8259.ws_nil
  have hevent : Rfc8259.Body "event".toList "event".toList := Rfc8259.body_of_plain (by decide)
  have hkey : Rfc8259.Body "key".toList "key".toList := Rfc8259.body_of_plain (by decide)
  -- the members before the last ones are the same in both cases
  have hfront := fun {m : Str × Value} {ms : List (Str × Value)} {u : Str} (hm : Members m ms u) =>
    Spells.object (Members.cons w hevent w w (.string (body_jsonEscape event)) w
      (Members.cons w hkey w w (.string (body_base64 key)) w hm))
  have hb : Rfc8259.Body "db".toList "db".toList := Rfc8259.body_of_plain (by decide)
  cases seq with
  | none =>
    have h := hfront (Members.one w hb w w (spells_showInt db) w)
    simpa [documentValue, jsonDocument, jsonEscapeInto_eq, base64Into_eq] using h
  | some n =>
    have hseq := Members.one w (Rfc8259.body_of_plain (s := "seq".toList) (by decide)) w w (spells_showInt n) w
    have h := hfront (Members.cons w hb w w (spells_showInt db) w hseq)
    simpa [documentValue, jsonDocument, jsonEscapeInto_eq, base64Into_eq, showInt] using h

/-- **The document is a JSON text** of one object. -/
theorem jsonText_jsonDocument (event : Str) (key : Bytes) (db : Int) (seq : Option Nat) :
    JsonText (documentValue event key db seq) (jsonDocument event key (showInt db) seq) :=
  ⟨[], _, [], Rfc8259.ws_nil, spells_jsonDocument event key db seq, Rfc8259.ws_nil, by simp⟩

/-! ## The reader -/

/-- What one entry says about its event. -/
structure Reading where
  format : EntryFormat
  event : Option Str
  key : Bytes
  db : Int
  classes : Option Str
  seq : Option Nat
  deriving DecidableEq, Repr

/-- The value of the first field of a name. -/
def fieldNamed (name : Bytes) : List Bytes → Option Bytes
  | n :: value :: rest => if n = name then some value else fieldNamed name rest
  | _ => none

/-- The format of an entry: without a `format` field it is fixed. -/
def readFormat (fields : List Bytes) : Option EntryFormat :=
  match fieldNamed (lit "format") fields with
  | none => some .fixed
  | some value =>
    if value = lit "minimal" then some .minimal
    else if value = lit "verbose" then some .verbose
    else if value = lit "json" then some .json
    else none

/-- A field that may be absent, read by `read` if it is there. -/
def readOptional {α : Type} (read : Bytes → Option α) : Option Bytes → Option (Option α)
  | none => some none
  | some value => (read value).map some

def readDb (value : Bytes) : Option Int := (ofUtf8 value).bind (Text.parseSigned i64Min i64Max)

def readSeq (value : Bytes) : Option Nat := (ofUtf8 value).bind (Text.parseUnsigned u64Max)

/-- An entry whose fields hold the event themselves. -/
def readPlain (format : EntryFormat) (fields : List Bytes) : Option Reading := do
  let event ← readOptional ofUtf8 (fieldNamed (lit "event") fields)
  let key ← fieldNamed (lit "key") fields
  let db ← (fieldNamed (lit "db") fields).bind readDb
  let classes ← readOptional ofUtf8 (fieldNamed (lit "class") fields)
  let seq ← readOptional readSeq (fieldNamed (lit "seq") fields)
  some ⟨format, event, key, db, classes, seq⟩

/-- A string member of an object. -/
def stringMember (ms : List (Str × Value)) (name : String) : Option Str :=
  match ms.lookup name.toList with
  | some (.string s) => some s
  | _ => none

/-- An integer member of an object. -/
def intMember (ms : List (Str × Value)) (name : String) : Option Int :=
  match ms.lookup name.toList with
  | some (.number n) => n.toInt?
  | _ => none

/-- An entry that holds the event as a JSON document. -/
def readDocument : Value → Option Reading
  | .object ms => do
    let event ← stringMember ms "event"
    let key ← (stringMember ms "key").bind Rfc4648.decode
    let db ← intMember ms "db"
    some ⟨.json, some event, key, db, none, (intMember ms "seq").map Int.toNat⟩
  | _ => none

/-- Read one entry from its fields. -/
def readEntry (fields : List Bytes) : Option Reading := do
  match ← readFormat fields with
  | .json =>
    let data ← fieldNamed (lit "data") fields
    let text ← ofUtf8 data
    readDocument (← Rfc8259.parse text)
  | format => readPlain format fields

/-! ## Reading what was encoded -/

theorem lit_inj {s t : String} : lit s = lit t ↔ s = t :=
  ⟨fun h => String.ext (Text.utf8_injective h), fun h => by rw [h]⟩

theorem readDb_showInt (db : Int32) : readDb (utf8 (showInt db.toInt)) = some db.toInt := by
  rw [readDb, Text.ofUtf8_utf8]
  exact Text.parseSigned_showInt (db_bounds db).1 (db_bounds db).2

theorem readSeq_showNat (seq : UInt64) : readSeq (utf8 (showNat seq.toNat)) = some seq.toNat := by
  have h : seq.toNat ≤ u64Max := Nat.le_of_lt_succ seq.toNat_lt
  rw [readSeq, Text.ofUtf8_utf8]
  exact Text.parseUnsigned_showNat h

theorem readDocument_documentValue (event : Str) (key : Bytes) (db : Int) (seq : Option Nat) :
    readDocument (documentValue event key db seq) = some ⟨.json, some event, key, db, none, seq⟩ := by
  cases seq with
  | none =>
    simp [readDocument, documentValue, stringMember, intMember, List.lookup_cons, List.lookup_nil, decode_base64Chunks,
      Rfc8259.Number.toInt?_ofInt]
  | some n =>
    simp [readDocument, documentValue, stringMember, intMember, List.lookup_cons, decode_base64Chunks,
      Rfc8259.Number.toInt?_ofInt]

section Encode

variable (format : EntryFormat) (event : Str) (key : Bytes) (db : Int32) (cls : NotifyEvent) (seq : Option UInt64)

/-- What the encoder is given for an event, all its texts being printed ones. -/
def specOf : EntrySpec := ⟨format, utf8 event, key, showInt db.toInt, cls, seq.map UInt64.toNat⟩

/-- What a reader is to recover: `minimal` leaves out the name, and only `verbose` has the classes. -/
def readingOf : Reading where
  format := format
  event := if format = .minimal then none else some event
  key := key
  db := db.toInt
  classes := if format = .verbose then some (classNames cls) else none
  seq := seq.map UInt64.toNat

/-- The reader recovers what the encoder was given, in every format. -/
theorem readEntry_encode : ∃ fields, encodeEntryFields (specOf format event key db cls seq) = .ok fields ∧
    readEntry fields = some (readingOf format event key db cls seq) := by
  cases format with
  | json =>
    refine ⟨_, by simp only [encodeEntryFields, specOf, Text.ofUtf8_utf8]; rfl, ?_⟩
    have hp := Rfc8259.parse_of_text (jsonText_jsonDocument event key db.toInt (seq.map UInt64.toNat))
    simp [readEntry, readFormat, fieldNamed, lit_inj, Text.ofUtf8_utf8, hp, readDocument_documentValue, readingOf]
  | fixed | minimal | verbose =>
    refine ⟨_, rfl, ?_⟩
    cases seq <;> simp [specOf, readEntry, readFormat, fieldNamed, lit_inj, readPlain, readOptional, readDb_showInt,
      readSeq_showNat, Text.ofUtf8_utf8, readingOf]

end Encode

/-- **Entry formats are self-describing and lossless.** Encoding succeeds, and a reader that sees the fields alone
recovers the format, the key bytes, the database, the sequence number, the event name where the format has one and the
class names where it has them. So entries with equal fields agree on all of these, whatever formats they are in. A
`json` entry holds one JSON object whose members decode to the inputs, and the client decodes a fixed entry to its
event. -/
theorem encodeEntryFields_lossless (format : EntryFormat) (event : Str) (key : Bytes) (db : Int32) (cls : NotifyEvent)
    (seq : Option UInt64) :
    ∃ fields, encodeEntryFields ⟨format, utf8 event, key, showInt db.toInt, cls, seq.map UInt64.toNat⟩ = .ok fields ∧
      readEntry fields = some ⟨format, if format = .minimal then none else some event, key, db.toInt,
        if format = .verbose then some (classNames cls) else none, seq.map UInt64.toNat⟩ ∧
      (∀ format' event' key' (db' : Int32) cls' (seq' : Option UInt64),
        encodeEntryFields ⟨format', utf8 event', key', showInt db'.toInt, cls', seq'.map UInt64.toNat⟩ = .ok fields →
        format' = format ∧ key' = key ∧ db' = db ∧ seq' = seq ∧ (format ≠ .minimal → event' = event) ∧
          (format = .verbose → classNames cls' = classNames cls)) ∧
      (format = .json → ∃ text ms, fieldNamed (lit "data") fields = some (utf8 text) ∧ JsonText (.object ms) text ∧
        stringMember ms "event" = some event ∧ (stringMember ms "key").bind Rfc4648.decode = some key ∧
        intMember ms "db" = some db.toInt ∧ intMember ms "seq" = seq.map fun n => (n.toNat : Int)) ∧
      (format = .fixed → ∀ crates stream id, ∃ entry, PhysicalEntry.ofFields stream id fields = some entry ∧
        decodeEntry crates entry = .ok [⟨⟨⟨stream, id⟩, none⟩, event, key, db.toInt, none⟩]) := by
  obtain ⟨fields, he, hr⟩ := readEntry_encode format event key db cls seq
  refine ⟨fields, he, hr, ?_, ?_, ?_⟩
  · intro format' event' key' db' cls' seq' he'
    obtain ⟨fields', he₂, hr'⟩ := readEntry_encode format' event' key' db' cls' seq'
    have hf : fields' = fields := Except.ok.inj (he₂.symm.trans he')
    rw [hf, hr] at hr'
    have hread := Option.some.inj hr'
    have hformat : format = format' := congrArg Reading.format hread
    subst hformat
    refine ⟨rfl, (congrArg Reading.key hread).symm, Int32.toInt_inj.1 (congrArg Reading.db hread).symm, ?_, ?_, ?_⟩
    · have hseq : seq.map UInt64.toNat = seq'.map UInt64.toNat := congrArg Reading.seq hread
      exact (Option.map_injective (fun a b => UInt64.toNat_inj.1) hseq).symm
    · intro hm
      have hevent := congrArg Reading.event hread
      simpa [readingOf, hm] using hevent.symm
    · intro hv
      have hcls := congrArg Reading.classes hread
      simpa [readingOf, hv] using hcls.symm
  · rintro rfl
    simp only [encodeEntryFields, specOf, Text.ofUtf8_utf8, Except.ok.injEq] at he
    refine ⟨_, _, ?_, jsonText_jsonDocument event key db.toInt (seq.map UInt64.toNat), ?_, ?_, ?_, ?_⟩
    · rw [← he]
      simp [fieldNamed, lit_inj]
    · simp [stringMember]
    · simp [stringMember, List.lookup_cons, decode_base64Chunks]
    · simp [intMember, List.lookup_cons, Rfc8259.Number.toInt?_ofInt]
    · cases seq <;> simp [intMember, List.lookup_cons, Rfc8259.Number.toInt?_ofInt]
  · rintro rfl crates stream id
    obtain ⟨fields', he', ho⟩ := ofFields_fixed stream id event key (showInt db.toInt) cls (seq.map UInt64.toNat)
    have hf : fields' = fields := Except.ok.inj (he'.symm.trans he)
    rw [hf] at ho
    exact ⟨_, ho, decodeEntry_fixedEntry crates stream id event key db (seq.map UInt64.toNat)⟩

end EventStream.Client

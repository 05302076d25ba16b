import EventStream.Event
import EventStream.Lib.Json
import EventStream.Lib.Base64

/-!
# Entry encoding

The field lists the module writes: the four entry formats and the `batch-v1` envelope.

* `body_jsonEscape`: the escaper writes a JSON string that spells its input.
* `decode_base64Chunks`: RFC 4648 decoding inverts the base64 encoder.
* `jsonText_batchData`: the `events` value of an envelope is a JSON array with one object per event.
-/

namespace EventStream

open Text (Str Bytes utf8 showInt showNat)
open Rfc8259 (CharText Body Value Spells Elements Members JsonText)

/-! ## JSON strings -/

/-- A lower-case hexadecimal digit. -/
def hexDigit (n : Nat) : Char := "0123456789abcdef".toList.getD n '0'

/-- The four digits of `{:04x}` for a number below 2^16. -/
def hex04 (n : Nat) : Str :=
  [hexDigit (n / 4096 % 16), hexDigit (n / 256 % 16), hexDigit (n / 16 % 16), hexDigit (n % 16)]

/-- What the escaper pushes for one character. -/
def jsonEscapeChar (c : Char) : Str :=
  if c = '"' then ['\\', '"']
  else if c = '\\' then ['\\', '\\']
  else if c = '\n' then ['\\', 'n']
  else if c = '\r' then ['\\', 'r']
  else if c = '\t' then ['\\', 't']
  else if c.toNat < 0x20 then '\\' :: 'u' :: hex04 c.toNat
  else [c]

/-- Append a string as a JSON string literal, quotes included. -/
def jsonEscapeInto (s : Str) (out : Str) : Str :=
  s.foldl (fun out c => out ++ jsonEscapeChar c) (out ++ ['"']) ++ ['"']

theorem jsonEscapeInto_eq (s out : Str) : jsonEscapeInto s out = out ++ '"' :: (s.flatMap jsonEscapeChar ++ ['"']) := by
  simp [jsonEscapeInto, List.flatMap_def]

theorem hex4_hex04 : ∀ n < 0x20, Rfc8259.hex4 (hexDigit (n / 4096 % 16)) (hexDigit (n / 256 % 16))
    (hexDigit (n / 16 % 16)) (hexDigit (n % 16)) = some n := by
  decide

/-- Every branch of the escaper spells its character. -/
theorem charText_jsonEscapeChar (c : Char) : CharText c (jsonEscapeChar c) := by
  unfold jsonEscapeChar
  split_ifs with hq hb hn hr ht hc
  · subst hq; exact .short (by decide)
  · subst hb; exact .short (by decide)
  · subst hn; exact .short (by decide)
  · subst hr; exact .short (by decide)
  · subst ht; exact .short (by decide)
  · have hh : Rfc8259.isHigh c.toNat = false := by simp [Rfc8259.isHigh]; omega
    have hl : Rfc8259.isLow c.toNat = false := by simp [Rfc8259.isLow]; omega
    have h := CharText.unicode (hex4_hex04 c.toNat hc) hh hl
    rwa [Char.ofNat_toNat] at h
  · exact .plain (by omega) hq hb

theorem body_jsonEscape : ∀ s : Str, Body s (s.flatMap jsonEscapeChar)
  | [] => .nil
  | c :: s => .cons (charText_jsonEscapeChar c) (body_jsonEscape s)

/-! ## Base64 -/

def table : Str := "ABCDEFGHIJKLMNOPQRSTUVWXYZabcdefghijklmnopqrstuvwxyz0123456789+/".toList

/-- Indexing the table; the callers mask the index to six bits, so the default is never taken. -/
def tableAt (i : Nat) : Char := table.getD i '='

/-- The chunks of three bytes, the last one possibly shorter. -/
def chunks3 : Bytes → List Bytes
  | a :: b :: c :: rest => [a, b, c] :: chunks3 rest
  | [] => []
  | short => [short]

/-- The four characters of one chunk. -/
def base64Chunk (chunk : Bytes) : Str :=
  let b0 := (chunk.getD 0 0).toNat
  let b1 := (chunk.getD 1 0).toNat
  let b2 := (chunk.getD 2 0).toNat
  let n := (b0 <<< 16) ||| (b1 <<< 8) ||| b2
  [tableAt ((n >>> 18) &&& 63), tableAt ((n >>> 12) &&& 63),
    if 1 < chunk.length then tableAt ((n >>> 6) &&& 63) else '=', if 2 < chunk.length then tableAt (n &&& 63) else '=']

/-- Append bytes as padded base64. -/
def base64Into (bytes : Bytes) (out : Str) : Str :=
  (chunks3 bytes).foldl (fun out chunk => out ++ base64Chunk chunk) out

theorem base64Into_eq (bytes : Bytes) (out : Str) :
    base64Into bytes out = out ++ (chunks3 bytes).flatMap base64Chunk := by
  rw [base64Into, List.foldl_append_eq_append, List.flatMap_def]

theorem sextet_tableAt : ∀ i < 64, Rfc4648.sextet (tableAt i) = some i := by
  decide +kernel

/-- The bit operations of the encoder in decimal: three bytes as one number. -/
theorem or_shift_eq {b0 b1 b2 : Nat} (h1 : b1 < 256) (h2 : b2 < 256) :
    (b0 <<< 16) ||| (b1 <<< 8) ||| b2 = b0 * 65536 + b1 * 256 + b2 := by
  have e1 : (b0 <<< 16) ||| (b1 <<< 8) = b0 <<< 16 + b1 <<< 8 :=
    (Nat.shiftLeft_add_eq_or_of_lt (by rw [Nat.shiftLeft_eq]; omega) b0).symm
  have e2 : (b0 <<< 16 + b1 <<< 8) = (b0 * 256 + b1) <<< 8 := by
    simp only [Nat.shiftLeft_eq]
    omega
  rw [e1, e2, ← Nat.shiftLeft_add_eq_or_of_lt (by omega), Nat.shiftLeft_eq]
  omega

theorem and_63 (n : Nat) : n &&& 63 = n % 64 := Nat.and_two_pow_sub_one_eq_mod n 6

/-- The sextet at a shift of a chunk's number. -/
theorem sextet_shift (n s : Nat) : Rfc4648.sextet (tableAt ((n >>> s) &&& 63)) = some (n / 2 ^ s % 64) := by
  rw [and_63, Nat.shiftRight_eq_div_pow]
  exact sextet_tableAt _ (Nat.mod_lt _ (by decide))

theorem sextet_last (n : Nat) : Rfc4648.sextet (tableAt (n &&& 63)) = some (n % 64) := by
  rw [and_63]
  exact sextet_tableAt _ (Nat.mod_lt _ (by decide))

theorem ofNat_eq_byte {b : UInt8} {n : Nat} (h : n = b.toNat) : UInt8.ofNat n = b := by
  rw [h, UInt8.ofNat_toNat]

/-- **RFC 4648 decoding inverts the encoder**, for every residue of the length modulo three. -/
theorem decode_base64Chunks : ∀ bytes : Bytes, Rfc4648.decode ((chunks3 bytes).flatMap base64Chunk) = some bytes
  | [] => rfl
  | [a] => by
    have ha := a.toNat_lt
    obtain ⟨n, hn⟩ : ∃ n, n = a.toNat * 65536 + 0 * 256 + 0 := ⟨_, rfl⟩
    have hc : base64Chunk [a] = [tableAt ((n >>> 18) &&& 63), tableAt ((n >>> 12) &&& 63), '=', '='] := by
      rw [hn, ← or_shift_eq (by omega) (by omega)]
      rfl
    have hz : n / 2 ^ 12 % 64 % 16 = 0 := by omega
    have hd := Rfc4648.decode_one (sextet_shift n 18) (sextet_shift n 12) hz
    rw [ofNat_eq_byte (b := a) (by omega)] at hd
    simpa [chunks3, hc] using hd
  | [a, b] => by
    have ha := a.toNat_lt
    have hb := b.toNat_lt
    obtain ⟨n, hn⟩ : ∃ n, n = a.toNat * 65536 + b.toNat * 256 + 0 := ⟨_, rfl⟩
    have hc : base64Chunk [a, b] =
        [tableAt ((n >>> 18) &&& 63), tableAt ((n >>> 12) &&& 63), tableAt ((n >>> 6) &&& 63), '='] := by
      rw [hn, ← or_shift_eq (by omega) (by omega)]
      rfl
    have hz : n / 2 ^ 6 % 64 % 4 = 0 := by omega
    have hd := Rfc4648.decode_two (sextet_shift n 18) (sextet_shift n 12) (sextet_shift n 6) hz
    rw [ofNat_eq_byte (b := a) (by omega), ofNat_eq_byte (b := b) (by omega)] at hd
    simpa [chunks3, hc] using hd
  | a :: b :: c :: rest => by
    have ha := a.toNat_lt
    have hb := b.toNat_lt
    have hc := c.toNat_lt
    obtain ⟨n, hn⟩ : ∃ n, n = a.toNat * 65536 + b.toNat * 256 + c.toNat := ⟨_, rfl⟩
    have he : base64Chunk [a, b, c] = [tableAt ((n >>> 18) &&& 63), tableAt ((n >>> 12) &&& 63),
        tableAt ((n >>> 6) &&& 63), tableAt (n &&& 63)] := by
      rw [hn, ← or_shift_eq (by omega) (by omega)]
      rfl
    have hd := Rfc4648.decode_group (sextet_shift n 18) (sextet_shift n 12) (sextet_shift n 6) (sextet_last n)
      (decode_base64Chunks rest)
    rw [ofNat_eq_byte (b := a) (by omega), ofNat_eq_byte (b := b) (by omega), ofNat_eq_byte (b := c) (by omega)] at hd
    simpa [chunks3, he] using hd

/-! ## Entry formats -/

/-- One entry as a compact JSON object. -/
def jsonDocument (event : Str) (key : Bytes) (db : Str) (seq : Option Nat) : Str :=
  let s := "\x7b\"event\":".toList
  let s := jsonEscapeInto event s
  let s := s ++ ",\"key\":\"".toList
  let s := base64Into key s
  let s := s ++ "\",\"db\":".toList
  let s := s ++ db
  let s :=
    match seq with
    | some seq => s ++ ",\"seq\":".toList ++ showNat seq
    | none => s
  s ++ ['}']

/-- An ASCII field name or value. -/
def lit (s : String) : Bytes := utf8 s.toList

def notUtf8 : Str := "event name is not valid UTF-8".toList

/-- The field names and values of one mirrored entry, in the order its format defines. -/
def encodeEntryFields (spec : EntrySpec) : Except Str (List Bytes) :=
  let seq : List Bytes :=
    match spec.seq with
    | some seq => [lit "seq", utf8 (showNat seq)]
    | none => []
  match spec.format with
  | .json =>
    match Text.ofUtf8 spec.event with
    | none => .error notUtf8
    | some event => .ok [lit "format", lit "json", lit "data", utf8 (jsonDocument event spec.key spec.db spec.seq)]
  | .fixed => .ok ([lit "event", spec.event, lit "key", spec.key, lit "db", utf8 spec.db] ++ seq)
  | .minimal => .ok ([lit "format", lit "minimal", lit "key", spec.key, lit "db", utf8 spec.db] ++ seq)
  | .verbose =>
    .ok ([lit "format", lit "verbose", lit "event", spec.event, lit "key", spec.key, lit "db", utf8 spec.db,
      lit "class", utf8 (classNames spec.cls)] ++ seq)

/-! ## The `batch-v1` envelope -/

/-- Push one event of an envelope, after a comma unless it is the first. -/
def pushEvent (data : Str) (p : PendingEvent × Nat) : Str :=
  let data := if 0 < p.2 then data ++ [','] else data
  let data := data ++ "\x7b\"event\":".toList
  let data := jsonEscapeInto p.1.event data
  let data := data ++ ",\"key\":\"".toList
  let data := base64Into p.1.key data
  let data := data ++ "\",\"db\":".toList
  let data := data ++ showInt p.1.db.toInt
  let data := data ++ ",\"class\":".toList
  let data := jsonEscapeInto (classNames p.1.cls) data
  data ++ ['}']

/-- The `events` value of an envelope. -/
def batchData (events : List PendingEvent) : Str := events.zipIdx.foldl pushEvent ['['] ++ [']']

/-- The fields of an envelope. -/
def encodeBatchFields (events : List PendingEvent) : List Bytes :=
  [lit "format", lit "batch-v1", lit "count", utf8 (showNat events.length), lit "events", utf8 (batchData events)]

/-- The text one event adds to an envelope. -/
def eventText (e : PendingEvent) : Str :=
  '{' :: ('"' :: ("event".toList ++ '"' :: ':' :: ('"' :: (e.event.flatMap jsonEscapeChar ++ ['"']) ++
    ',' :: ('"' :: ("key".toList ++ '"' :: ':' :: ('"' :: ((chunks3 e.key).flatMap base64Chunk ++ ['"']) ++
    ',' :: ('"' :: ("db".toList ++ '"' :: ':' :: (showInt e.db.toInt ++
    ',' :: ('"' :: ("class".toList ++ '"' :: ':' ::
      ('"' :: ((classNames e.cls).flatMap jsonEscapeChar ++ ['"']))))))))))))) ++ ['}']

theorem pushEvent_eq (data : Str) (e : PendingEvent) (i : Nat) :
    pushEvent data (e, i) = (if 0 < i then data ++ [','] else data) ++ eventText e := by
  simp [pushEvent, jsonEscapeInto_eq, base64Into_eq, eventText]

/-- The events after the first, each after a comma. -/
theorem foldl_pushEvent (events : List PendingEvent) (data : Str) (i : Nat) :
    (events.zipIdx (i + 1)).foldl pushEvent data = data ++ events.flatMap (fun e => ',' :: eventText e) := by
  induction events generalizing data i with
  | nil => simp
  | cons e events ih =>
    rw [List.zipIdx_cons, List.foldl_cons, pushEvent_eq, if_pos (Nat.succ_pos i), ih]
    simp

theorem batchData_cons (e : PendingEvent) (events : List PendingEvent) :
    batchData (e :: events) = '[' :: (eventText e ++ events.flatMap (fun e => ',' :: eventText e)) ++ [']'] := by
  rw [batchData, List.zipIdx_cons, List.foldl_cons, pushEvent_eq, foldl_pushEvent]
  simp

/-- The object an envelope holds for one event. -/
def eventValue (e : PendingEvent) : Value :=
  .object [("event".toList, .string e.event), ("key".toList, .string ((chunks3 e.key).flatMap base64Chunk)),
    ("db".toList, .number (.ofInt e.db.toInt)), ("class".toList, .string (classNames e.cls))]

theorem isPlain_tableAt : ∀ i < 64, Rfc8259.isPlain (tableAt i) = true := by
  decide +kernel

/-- Base64 needs no escaping. -/
theorem isPlain_base64Chunk (chunk : Bytes) : (base64Chunk chunk).all Rfc8259.isPlain = true := by
  have ht : ∀ n, Rfc8259.isPlain (tableAt (n &&& 63)) = true := fun n =>
    isPlain_tableAt _ (by rw [and_63]; exact Nat.mod_lt _ (by decide))
  have hp : Rfc8259.isPlain '=' = true := by decide
  simp only [base64Chunk, List.all_cons, List.all_nil, ht, Bool.true_and, Bool.and_true, Bool.and_eq_true]
  constructor <;> split <;> simp only [ht, hp]

theorem body_base64 (bytes : Bytes) :
    Body ((chunks3 bytes).flatMap base64Chunk) ((chunks3 bytes).flatMap base64Chunk) :=
  Rfc8259.body_of_plain (by simp [List.all_flatMap, isPlain_base64Chunk])

/-- The text of one event spells its object. -/
theorem spells_eventText (e : PendingEvent) : Spells (eventValue e) (eventText e) := by
  have hdb : Spells (.number (.ofInt e.db.toInt)) (showInt e.db.toInt) := by
    rw [← Rfc8259.Number.text_ofInt]
    exact .number (Rfc8259.Number.ofInt_wellFormed _)
  have w := Rfc8259.ws_nil
  have hclass := Members.one w (Rfc8259.body_of_plain (s := "class".toList) (by decide)) w w
    (.string (body_jsonEscape (classNames e.cls))) w
  rw [List.append_nil] at hclass
  have hdb := Members.cons w (Rfc8259.body_of_plain (s := "db".toList) (by decide)) w w hdb w hclass
  have hkey := Members.cons w (Rfc8259.body_of_plain (s := "key".toList) (by decide)) w w
    (.string (body_base64 e.key)) w hdb
  have hevent := Members.cons w (Rfc8259.body_of_plain (s := "event".toList) (by decide)) w w
    (.string (body_jsonEscape e.event)) w hkey
  exact .object hevent

theorem elements_eventText (e : PendingEvent) (events : List PendingEvent) :
    Elements (eventValue e) (events.map eventValue)
      (eventText e ++ events.flatMap (fun e => ',' :: eventText e)) := by
  induction events generalizing e with
  | nil => exact .one Rfc8259.ws_nil (spells_eventText e) Rfc8259.ws_nil
  | cons f events ih => exact .cons Rfc8259.ws_nil (spells_eventText e) Rfc8259.ws_nil (ih f)

/-- **The `events` value is a JSON array** with one object per event, in order. -/
theorem jsonText_batchData (events : List PendingEvent) :
    JsonText (.array (events.map eventValue)) (batchData events) := by
  have hs : Spells (.array (events.map eventValue)) (batchData events) := by
    cases events with
    | nil => exact .emptyArray Rfc8259.ws_nil
    | cons e events =>
      rw [batchData_cons]
      exact .array (elements_eventText e events)
  exact ⟨[], batchData events, [], Rfc8259.ws_nil, hs, Rfc8259.ws_nil, by simp⟩

end EventStream

import EventStream.Client.RoundTrip
import EventStream.Order

/-!
# Envelopes refine individual writes

Whether the worker writes envelopes or every event is written by itself, a reader that expands the entries of a stream
gets the same events in the same order.

- `Sheet`: what the destinations are for, namely the logical records of each stream, and the cap on new streams;
- `Shows`: a state shows a sheet if the entries appended since a base state expand to the records of the sheet;
- `event_shows`, `envelope_shows`: one call of a processor writes its events on the sheet, one by one;
- `Cut`: how the worker and the fallback cut the queue into calls (`Reach.cut`: in every run);
- `envelope_refines`: every cut shows the sheet that writing the events individually shows.
-/

namespace EventStream

open Text (Str Bytes utf8)
open Client (Crates LogicalEvent PhysicalEntry decodeEntry)

/-! ## Expanding a stream -/

/-- What one entry of a stream decodes to. -/
def expandEntry (crates : Crates) (stream : Str) (entry : Entry) : Option (List LogicalEvent) :=
  (PhysicalEntry.ofFields stream entry.id entry.fields).bind fun physical => (decodeEntry crates physical).toOption

/-- What the entries of a stream decode to, in entry order. -/
def expand (crates : Crates) (stream : Str) : List Entry → Option (List LogicalEvent)
  | [] => some []
  | entry :: entries =>
    match expandEntry crates stream entry, expand crates stream entries with
    | some events, some rest => some (events ++ rest)
    | _, _ => none

theorem expand_concat {crates : Crates} {stream : Str} {entries : List Entry} {entry : Entry}
    {events new : List LogicalEvent} (h : expand crates stream entries = some events)
    (hnew : expandEntry crates stream entry = some new) :
    expand crates stream (entries ++ [entry]) = some (events ++ new) := by
  induction entries generalizing events with
  | nil =>
    cases h
    simp [expand, hnew]
  | cons first entries ih =>
    simp only [expand] at h
    split at h
    · rename_i events₁ rest h₁ h₂
      injection h with h
      simp only [List.cons_append, expand, h₁, ih h₂]
      rw [← h, List.append_assoc]
    · cases h

/-- The record of an event: its name, its key and its database. -/
abbrev Record := Str × Bytes × Int

def recordOf (e : PendingEvent) : Record := (e.event, e.key, e.db.toInt)

def readRecord (e : LogicalEvent) : Record := (e.event, e.key, e.db)

/-- A fixed entry expands to the record of its event, whatever its number is. -/
theorem expandEntry_fixed (crates : Crates) (stream id : Str) {e : PendingEvent} (seq : Option Nat)
    (hf : e.format = .fixed) : ∃ fields events, encodeEntryFields (entrySpec e seq) = .ok fields ∧
      expandEntry crates stream ⟨id, fields⟩ = some events ∧ events.map readRecord = [recordOf e] := by
  obtain ⟨fields, he, ho⟩ := Client.ofFields_fixed stream id e.event e.key (Text.showInt e.db.toInt) e.cls seq
  have hd := Client.decodeEntry_fixedEntry crates stream id e.event e.key e.db seq
  refine ⟨fields, [⟨⟨⟨stream, id⟩, none⟩, e.event, e.key, e.db.toInt, none⟩], ?_, ?_, rfl⟩
  · rw [entrySpec, hf]
    exact he
  · simp only [expandEntry, ho, Option.bind_some, hd]
    rfl

/-- An envelope expands to the records of its events. -/
theorem expandEntry_batch {crates : Crates} (hc : crates.Standard) (stream id : Str) {events : List PendingEvent}
    (hlen : events.length ≤ Client.usizeMax) :
    ∃ new, expandEntry crates stream ⟨id, encodeBatchFields events⟩ = some new ∧
      new.map readRecord = events.map recordOf := by
  refine ⟨events.zipIdx.map (Client.logicalEvent ⟨stream, id⟩), ?_, ?_⟩
  · simp only [expandEntry, Client.ofFields_encodeBatchFields, Option.bind_some,
      Client.decodeEntry_batchEntry hc stream id events hlen]
    rfl
  · rw [List.map_map]
    have hrec : readRecord ∘ Client.logicalEvent ⟨stream, id⟩ = recordOf ∘ Prod.fst := rfl
    rw [hrec, ← List.map_map, List.zipIdx_map_fst]

/-! ## Sheets -/

/-- The records of each stream, and what the cap on new streams depends on. -/
structure Sheet where
  counted : Str → Bool
  current : Int
  log : Str → List Record

namespace Sheet

/-- The cap refuses a stream that is not counted yet. -/
def refuses (a : Sheet) (stream : Str) (maxStreams : Int) : Bool :=
  0 < maxStreams && !a.counted stream && maxStreams ≤ a.current

def append (a : Sheet) (stream : Str) (records : List Record) : Sheet where
  counted := Function.update a.counted stream true
  current := a.current + if a.counted stream then 0 else 1
  log := Function.update a.log stream (a.log stream ++ records)

/-- Write one event on its stream. -/
def write (a : Sheet) (e : PendingEvent) : Sheet :=
  if a.refuses (e.pfx ++ e.suffix) e.maxStreams then a else a.append (e.pfx ++ e.suffix) [recordOf e]

theorem append_append (a : Sheet) (stream : Str) (records records' : List Record) :
    (a.append stream records).append stream records' = a.append stream (records ++ records') := by
  simp [append]

theorem append_refuses (a : Sheet) (stream : Str) (records : List Record) (maxStreams : Int) :
    (a.append stream records).refuses stream maxStreams = false := by
  simp [refuses, append]

/-- Events of one stream and one cap are refused together or written together. -/
theorem foldl_write (a : Sheet) {stream : Str} {maxStreams : Int} {events : List PendingEvent} (hne : events ≠ [])
    (hall : ∀ e ∈ events, e.pfx ++ e.suffix = stream ∧ e.maxStreams = maxStreams) :
    events.foldl write a = if a.refuses stream maxStreams then a else a.append stream (events.map recordOf) := by
  have hwrite : ∀ (b : Sheet), ∀ e ∈ events,
      b.write e = if b.refuses stream maxStreams then b else b.append stream [recordOf e] := by
    intro b e he
    rw [write, (hall e he).1, (hall e he).2]
  -- once the stream is counted, nothing on it is refused
  have hrest : ∀ (es : List PendingEvent) records, (∀ e ∈ es, e ∈ events) →
      es.foldl write (a.append stream records) = a.append stream (records ++ es.map recordOf) := by
    intro es
    induction es with
    | nil => intro records _; simp
    | cons e es ih =>
      intro records hes
      rw [List.foldl_cons, hwrite _ e (hes e List.mem_cons_self), append_refuses, if_neg Bool.false_ne_true,
        append_append, ih _ fun x hx => hes x (List.mem_cons_of_mem _ hx)]
      simp
  cases hr : a.refuses stream maxStreams with
  | true =>
    rw [if_pos rfl]
    have hstay : ∀ es : List PendingEvent, (∀ e ∈ es, e ∈ events) → es.foldl write a = a := by
      intro es
      induction es with
      | nil => intro _; rfl
      | cons e es ih =>
        intro hes
        rw [List.foldl_cons, hwrite a e (hes e List.mem_cons_self), hr, if_pos rfl]
        exact ih fun x hx => hes x (List.mem_cons_of_mem _ hx)
    exact hstay events fun _ h => h
  | false =>
    rw [if_neg Bool.false_ne_true]
    cases events with
    | nil => exact absurd rfl hne
    | cons e es =>
      rw [List.foldl_cons, hwrite a e List.mem_cons_self, hr, if_neg Bool.false_ne_true,
        hrest es _ fun x hx => List.mem_cons_of_mem _ hx]
      rfl

end Sheet

/-! ## States that show a sheet -/

def refusedXadd : Occurrence → Bool
  | .call _ (.xadd ..) false => true
  | _ => false

/-- No `XADD` among these calls failed. -/
def Accepted (calls : List Occurrence) : Prop := ∀ o ∈ calls, refusedXadd o = false

/-- The calls since a base state. -/
def callsSince (base st : State) : List Occurrence := st.trace.drop base.trace.length

/-- Database 0 can be selected, and nothing is trimmed. -/
structure Env.Smooth (env : Env) : Prop where
  selects : ∀ n, env.selectDb n = true
  keeps : ∀ n, env.trimmed n = 0

structure Shows (crates : Crates) (base st : State) (a : Sheet) : Prop where
  config : st.config = base.config
  longer : base.trace <+: st.trace
  counted : ∀ stream, (st.stats stream).counted = a.counted stream
  current : st.currentStreams = a.current
  log : ∀ stream, ∃ new events, st.keyspace.entries (utf8 stream) = base.keyspace.entries (utf8 stream) ++ new ∧
    expand crates stream new = some events ∧ events.map readRecord = a.log stream

section Simulation

variable {crates : Crates} {env : Env} {base st st' : State} {a : Sheet}

theorem Shows.of_aside (hs : Shows crates base st a) (h : Aside st st') : Shows crates base st' a where
  config := h.config.trans hs.config
  longer := h.trace ▸ hs.longer
  counted stream := by rw [State.stats_congr h.streamStats]; exact hs.counted stream
  current := h.currentStreams.trans hs.current
  log := by rw [h.keyspace]; exact hs.log

/-- A refused `XADD` shows in every later trace. -/
theorem not_accepted (hl : base.trace <+: st.trace) {st₁ : State} {why : Purpose} {key : Bytes} {nomk : Bool}
    {trim : Option (TrimKeyword × Str)} {fields : List Bytes}
    (h : st₁.trace = st.trace ++ [.call why (.xadd key nomk trim fields) false]) (ht : st₁.trace <+: st'.trace) :
    ¬ Accepted (callsSince base st') := by
  intro hacc
  have hmem : Occurrence.call why (.xadd key nomk trim fields) false ∈ callsSince base st' := by
    obtain ⟨before, hb⟩ := hl
    obtain ⟨after, ha⟩ := ht
    rw [callsSince, ← ha, h, ← hb, List.append_assoc, List.append_assoc, List.drop_left]
    simp
  cases hacc _ hmem

theorem accepted_of_longer (h : Accepted (callsSince base st')) (ht : st.trace <+: st'.trace) :
    Accepted (callsSince base st) :=
  fun o ho => h o ((List.IsPrefix.drop ht _).subset ho)

/-- One mirrored write on a standalone node: refused by the cap, written, or refused by the server. -/
theorem mirrorFields_shows (hs : Shows crates base st a) (henv : env.Smooth) (pfx suffix : Str) (fields : List Bytes)
    (retention : Retention) (maxStreams : Int) (count : Nat) {records : List Record}
    (hx : ∀ id, ∃ events, expandEntry crates (pfx ++ suffix) ⟨id, fields⟩ = some events ∧
      events.map readRecord = records) :
    (a.refuses (pfx ++ suffix) maxStreams = true ∧
      mirrorFields env st pfx [] suffix fields retention maxStreams .forwarded count =
        (.maxStreams (pfx ++ suffix), st)) ∨
    (a.refuses (pfx ++ suffix) maxStreams = false ∧ ∃ st',
      mirrorFields env st pfx [] suffix fields retention maxStreams .forwarded count = (.written, st') ∧
        Shows crates base st' (a.append (pfx ++ suffix) records)) ∨
    ∃ o st' key trim fields',
      mirrorFields env st pfx [] suffix fields retention maxStreams .forwarded count = (o, st') ∧
      st'.trace = st.trace ++ [.call .canonical (.xadd key false trim fields') false] := by
  have hstream : streamOf pfx [] suffix = pfx ++ suffix := by simp [streamOf]
  have hcap : capReached st (pfx ++ suffix) maxStreams = a.refuses (pfx ++ suffix) maxStreams := by
    rw [capReached, Sheet.refuses, hs.counted, hs.current]
  unfold mirrorFields
  simp only [hstream, hcap]
  cases hr : a.refuses (pfx ++ suffix) maxStreams with
  | true => exact Or.inl ⟨rfl, rfl⟩
  | false =>
    refine Or.inr ?_
    simp only [Bool.false_eq_true, if_false]
    have hwhy : purposeOf .forwarded = .canonical := rfl
    rw [hwhy]
    cases hcall : call env st .canonical (.xadd (utf8 (pfx ++ suffix)) false (trimOf env st retention) fields)
      (xaddCallOptions st) with
    | mk r st₁ =>
      cases r with
      | error msg =>
        refine Or.inr ⟨classify (pfx ++ suffix) msg, st₁, utf8 (pfx ++ suffix), trimOf env st retention,
          fields, rfl, ?_⟩
        rw [call_error hcall]
      | ok _ =>
        have hw := mirrored_written (registryOf pfx []) count (Or.inl rfl)
          (by rfl : Counter.forwarded.isPlain = true) hcall
        obtain ⟨hown, hother⟩ := mirrored_entries (registryOf pfx []) .forwarded count hcall
        refine Or.inl ⟨trivial, _, rfl, ?_⟩
        refine ⟨hw.config.trans hs.config, hs.longer.trans hw.longer, fun stream => ?_, ?_, fun stream => ?_⟩
        · by_cases hst : stream = pfx ++ suffix
          · rw [hst, hw.counted]
            simp [Sheet.append]
          · rw [hw.stats_ne stream hst, hs.counted stream]
            simp [Sheet.append, hst]
        · rw [hw.currentStreams, hs.current, hs.counted]
          simp only [Sheet.append]
        · obtain ⟨new, events, hnew, hexp, hlog⟩ := hs.log stream
          by_cases hst : stream = pfx ++ suffix
          · obtain ⟨more, hmore, hrec⟩ := hx (env.entryId st.clock)
            have hzero : (if (trimOf env st retention).isSome then env.trimmed st.clock else 0) = 0 := by
              rw [henv.keeps, ite_self]
            subst hst
            refine ⟨new ++ [⟨env.entryId st.clock, fields⟩], events ++ more, ?_, expand_concat hexp hmore, ?_⟩
            · rw [hown, hzero, List.drop_zero, hnew, List.append_assoc]
            · rw [List.map_append, hlog, hrec]
              simp [Sheet.append]
          · refine ⟨new, events, ?_, hexp, ?_⟩
            · rw [hother _ fun e => hst (Text.utf8_injective e), hnew]
            · rw [hlog]
              simp [Sheet.append, hst]

theorem selectDb_smooth (henv : env.Smooth) (st : State) : ∃ st₁, selectDb env st = (true, st₁) ∧ Aside st st₁ := by
  refine ⟨(selectDb env st).2, ?_, selectDb_aside st⟩
  rw [selectDb, henv.selects]

/-- A call for one event in the fixed format writes it on the sheet. -/
theorem event_shows (hs : Shows crates base st a) (henv : env.Smooth) (hnode : base.config.perNode = false)
    (hfire : base.config.firehose = false) {e : PendingEvent} (hfixed : e.format = .fixed)
    (hacc : Accepted (callsSince base (processPendingEvent env st e))) :
    Shows crates base (processPendingEvent env st e) (a.write e) := by
  obtain ⟨st₁, hsel, ha₁⟩ := selectDb_smooth henv st
  have hs₁ := hs.of_aside ha₁
  have hseg : tagSegment env st₁ = (some [], st₁) := tagSegment_of_not_perNode env (by rw [hs₁.config]; exact hnode)
  have ha₂ := takeSeq_aside st₁ e.entrySeq
  have hs₂ := hs₁.of_aside ha₂
  have hrest : ∀ st' : State, st'.config = base.config →
      (if st'.config.firehose then mirrorFirehose env st' e.pfx
        (entrySpec e (takeSeq st₁ e.entrySeq).1) e.firehoseRetention
        else st') = st' := by
    intro st' hconf
    rw [hconf, hfire, if_neg Bool.false_ne_true]
  have hprocess : processPendingEvent env st e =
      settleEvent env (takeSeq st₁ e.entrySeq).2 e [] (entrySpec e (takeSeq st₁ e.entrySeq).1) := by
    have hsteps : Steps env (fun _ => True) (takeSeq st₁ e.entrySeq).2 _ :=
      settleEvent_steps (takeSeq st₁ e.entrySeq).2 e []
      (entrySpec e (takeSeq st₁ e.entrySeq).1) (fun _ _ => trivial) ⟨fun _ => rfl, Or.inl rfl⟩
    simp only [processPendingEvent, hsel, hseg]
    exact hrest _ (hsteps.frame.config.trans hs₂.config)
  rw [hprocess] at hacc ⊢
  generalize takeSeq st₁ e.entrySeq = r at hs₂ hacc
  obtain ⟨seq, st₂⟩ := r
  simp only at hs₂ hacc ⊢
  obtain ⟨fields, -, henc, -, -⟩ := expandEntry_fixed crates (e.pfx ++ e.suffix) [] seq hfixed
  have hx : ∀ id, ∃ events, expandEntry crates (e.pfx ++ e.suffix) ⟨id, fields⟩ = some events ∧
      events.map readRecord = [recordOf e] := by
    intro id
    obtain ⟨fields', events, henc', hexp, hrec⟩ := expandEntry_fixed crates (e.pfx ++ e.suffix) id seq hfixed
    rw [henc] at henc'
    injection henc' with hfields
    rw [hfields]
    exact ⟨events, hexp, hrec⟩
  have hmirror : mirrorEntry env st₂ e.pfx [] e.suffix (entrySpec e seq) e.dataRetention e.maxStreams .forwarded =
      mirrorFields env st₂ e.pfx [] e.suffix fields e.dataRetention e.maxStreams .forwarded 1 := by
    rw [mirrorEntry, henc]
  rcases mirrorFields_shows hs₂ henv e.pfx e.suffix fields e.dataRetention e.maxStreams 1 hx with
    ⟨hr, hm⟩ | ⟨hr, st₃, hm, hs₃⟩ | ⟨o, st₃, key, trim, fields', hm, htrace⟩
  · have hsettle : settleEvent env st₂ e [] (entrySpec e seq) = countEventLost env st₂ .canonical .droppedMaxStreams
        .maxStreams ("max-streams cap (".toList ++ Text.showInt e.maxStreams ++ ") reached; new stream '".toList ++
          (e.pfx ++ e.suffix) ++ "' not created; entry dropped (dropped_max_streams)".toList) := by
      simp only [settleEvent, hmirror, hm]
    rw [hsettle, Sheet.write, hr, if_pos rfl]
    exact (hs₂.of_aside (lost_aside st₂ (by decide) 1)).of_aside (countDrop_aside _ .canonical _ _ rfl)
  · have hsettle : settleEvent env st₂ e [] (entrySpec e seq) = st₃ := by
      simp only [settleEvent, hmirror, hm]
    rw [hsettle, Sheet.write, hr, if_neg Bool.false_ne_true]
    exact hs₃
  · have hafter : Steps env (fun _ => True) st₃ (settleEvent env st₂ e [] (entrySpec e seq)) :=
      settleEvent_after e (fun _ _ => trivial) (hmirror.trans hm)
    exact absurd hacc (not_accepted hs₂.longer htrace hafter.frame.longer)

/-- A call for an envelope writes its events on the sheet. -/
theorem envelope_shows (hc : crates.Standard) (hs : Shows crates base st a) (henv : env.Smooth)
    (hnode : base.config.perNode = false) {group : List Queued} (hg : Compatible group)
    (hlen : group.length ≤ Client.usizeMax)
    (hacc : Accepted (callsSince base (processPendingEnvelope env st (group.map Queued.event)
      (encodeBatchFields (group.map Queued.event))))) :
    Shows crates base (processPendingEnvelope env st (group.map Queued.event)
      (encodeBatchFields (group.map Queued.event))) ((group.map Queued.event).foldl Sheet.write a) := by
  obtain ⟨first, rest, rfl, hcomp⟩ := hg
  have hall : ∀ e ∈ ((first :: rest).map Queued.event), e.pfx ++ e.suffix = first.event.pfx ++ first.event.suffix ∧
      e.maxStreams = first.event.maxStreams := by
    intro e he
    obtain ⟨q, hq, rfl⟩ := List.mem_map.1 he
    obtain ⟨hp, hsuf, -, hm⟩ := envelopeCompatible_iff.1 (hcomp q hq)
    rw [hp, hsuf, hm]
    exact ⟨rfl, rfl⟩
  rw [a.foldl_write (by simp) hall]
  obtain ⟨st₁, hsel, ha₁⟩ := selectDb_smooth henv st
  have hs₁ := hs.of_aside ha₁
  have hseg : tagSegment env st₁ = (some [], st₁) := tagSegment_of_not_perNode env (by rw [hs₁.config]; exact hnode)
  have hx : ∀ id, ∃ events, expandEntry crates (first.event.pfx ++ first.event.suffix)
      ⟨id, encodeBatchFields ((first :: rest).map Queued.event)⟩ = some events ∧
        events.map readRecord = ((first :: rest).map Queued.event).map recordOf :=
    fun id => expandEntry_batch hc _ id (by rw [List.length_map]; exact hlen)
  generalize hfields : encodeBatchFields ((first :: rest).map Queued.event) = fields at hacc hx ⊢
  rcases mirrorFields_shows hs₁ henv first.event.pfx first.event.suffix fields first.event.dataRetention
      first.event.maxStreams (first.event :: rest.map Queued.event).length hx with
    ⟨hr, hm⟩ | ⟨hr, st₂, hm, hs₂⟩ | ⟨o, st₂, key, trim, fields', hm, htrace⟩
  · have hprocess : processPendingEnvelope env st ((first :: rest).map Queued.event) fields =
        countEventsLost env st₁ .canonical (first.event :: rest.map Queued.event).length .droppedMaxStreams .maxStreams
          ("max-streams cap (".toList ++ Text.showInt first.event.maxStreams ++ ") reached; new stream '".toList ++
            (first.event.pfx ++ first.event.suffix) ++
              "' not created; batch dropped (dropped_max_streams)".toList) := by
      simp only [List.map_cons, processPendingEnvelope, hsel, hseg, hm]
    rw [hprocess, hr, if_pos rfl]
    exact (hs₁.of_aside (lost_aside st₁ (by decide) _)).of_aside (countDrop_aside _ .canonical _ _ rfl)
  · have hprocess : processPendingEnvelope env st ((first :: rest).map Queued.event) fields =
        (st₂.charge .canonical .asyncEnvelopes 1).charge .canonical .asyncEnvelopeEvents
          (first.event :: rest.map Queued.event).length := by
      simp only [List.map_cons, processPendingEnvelope, hsel, hseg, hm]
    rw [hprocess, hr, if_neg Bool.false_ne_true]
    exact (hs₂.of_aside (charge_aside st₂ .canonical 1 rfl)).of_aside (charge_aside _ .canonical _ rfl)
  · have hafter : Steps env (fun _ => True) st₂
        (processPendingEnvelope env st ((first :: rest).map Queued.event) fields) :=
      processPendingEnvelope_after hsel hseg hm
    exact absurd hacc (not_accepted hs₁.longer htrace hafter.frame.longer)

end Simulation

/-! ## Cutting the queue -/

/-- The call for one group of a prepared envelope. -/
def envelopeOf (group : List Queued) : Handoff :=
  .envelope (group.map Queued.event) (encodeBatchFields (group.map Queued.event))

/-- How events in queue order become calls: one by one, as a fallback and a stop do, or as the groups of a snapshot of
at most `batch` events. -/
inductive Cut (batch : Nat) : List Queued → List Handoff → Prop
  | nil : Cut batch [] []
  | single (q : Queued) {events : List Queued} {calls : List Handoff} (h : Cut batch events calls) :
      Cut batch (q :: events) (.event q.event :: calls)
  | snapshot (front : List Queued) (hlen : front.length ≤ batch) {events : List Queued} {calls : List Handoff}
      (h : Cut batch events calls) : Cut batch (front ++ events) ((envelopeGroups front).map envelopeOf ++ calls)

namespace Cut

variable {batch : Nat}

theorem append {events events' : List Queued} {calls calls' : List Handoff} (h : Cut batch events calls)
    (h' : Cut batch events' calls') : Cut batch (events ++ events') (calls ++ calls') := by
  induction h with
  | nil => exact h'
  | single q _ ih => exact .single q ih
  | snapshot front hlen _ ih =>
    rw [List.append_assoc, List.append_assoc]
    exact .snapshot front hlen ih

theorem singles (events : List Queued) : Cut batch events (events.map fun q => .event q.event) := by
  induction events with
  | nil => exact .nil
  | cons q events ih => exact .single q ih

/-- The calls hand over the events in their order. -/
theorem events_eq {events : List Queued} {calls : List Handoff} (h : Cut batch events calls) :
    calls.flatMap Handoff.events = events.map Queued.event := by
  induction h with
  | nil => rfl
  | single q _ ih => simp [Handoff.events, ih]
  | snapshot front hlen _ ih =>
    have hmap : ∀ groups : List (List Queued), (groups.map envelopeOf).flatMap Handoff.events =
        groups.flatten.map Queued.event := by
      intro groups
      induction groups with
      | nil => rfl
      | cons g groups ihg => simp [envelopeOf, Handoff.events, ihg]
    rw [List.flatMap_append, ih, hmap, envelopeGroups_flatten, List.map_append]

end Cut

/-- A call that writes its events on the sheet: one event in the fixed format, or an envelope of compatible events. -/
def Faithful (h : Handoff) : Prop :=
  (∃ e : PendingEvent, h = .event e ∧ e.format = .fixed) ∨
    ∃ group : List Queued, h = envelopeOf group ∧ Compatible group ∧ group.length ≤ Client.usizeMax

theorem Cut.faithful {batch : Nat} (hbatch : batch ≤ Client.usizeMax) {events : List Queued} {calls : List Handoff}
    (h : Cut batch events calls) (hfixed : ∀ q ∈ events, q.event.format = .fixed) : ∀ c ∈ calls, Faithful c := by
  induction h with
  | nil => intro c hc; cases hc
  | single q _ ih =>
    intro c hc
    rcases List.mem_cons.1 hc with rfl | hc
    · exact Or.inl ⟨q.event, rfl, hfixed q List.mem_cons_self⟩
    · exact ih (fun x hx => hfixed x (List.mem_cons_of_mem _ hx)) c hc
  | snapshot front hlen _ ih =>
    intro c hc
    rcases List.mem_append.1 hc with hc | hc
    · obtain ⟨g, hg, rfl⟩ := List.mem_map.1 hc
      have hsub : g.length ≤ front.length := by
        conv_rhs => rw [← envelopeGroups_flatten front]
        exact (List.sublist_flatten_of_mem hg).length_le
      exact Or.inr ⟨g, rfl, envelopeGroups_compatible front g hg, by omega⟩
    · exact ih (fun x hx => hfixed x (List.mem_append_right _ hx)) c hc

/-- A run of such calls writes all its events on the sheet. -/
theorem processAll_shows {crates : Crates} (hc : crates.Standard) {env : Env} (henv : env.Smooth) {base st : State}
    {a : Sheet} (hnode : base.config.perNode = false) (hfire : base.config.firehose = false) {calls : List Handoff}
    (hcalls : ∀ c ∈ calls, Faithful c) (hs : Shows crates base st a)
    (hacc : Accepted (callsSince base (processAll env st calls))) :
    Shows crates base (processAll env st calls) ((calls.flatMap Handoff.events).foldl Sheet.write a) := by
  induction calls generalizing st a with
  | nil => exact hs
  | cons c calls ih =>
    rw [processAll_cons] at hacc ⊢
    have hlonger : (c.process env st).trace <+: (processAll env (c.process env st) calls).trace := by
      generalize c.process env st = st₁
      clear ih hs hacc hcalls
      induction calls generalizing st₁ with
      | nil => exact List.prefix_refl _
      | cons d calls ihd =>
        have hsteps : Steps env (fun _ => True) st₁ (d.process env st₁) :=
          process_steps st₁ d fun _ _ _ _ => trivial
        exact hsteps.frame.longer.trans (ihd _)
    have hacc₁ := accepted_of_longer hacc hlonger
    rw [List.flatMap_cons, List.foldl_append]
    refine ih (fun d hd => hcalls d (List.mem_cons_of_mem _ hd)) ?_ hacc
    rcases hcalls c List.mem_cons_self with ⟨e, rfl, hfixed⟩ | ⟨group, rfl, hg, hlen⟩
    · exact event_shows hs henv hnode hfire hfixed hacc₁
    · exact envelope_shows hc hs henv hnode hg hlen hacc₁

/-! ## The cut of a run -/

/-- The call a task makes. -/
def Task.handoff : Task → List Handoff
  | event q => [.event q.event]
  | envelope qs fields => [.envelope (qs.map Queued.event) fields]
  | marker .. | noSlot _ | checkpoint .. => []

namespace Node

/-- The calls of the processors so far. -/
def calls (n : Node) : List Handoff := n.history.flatMap fun d => d.task.elim [] Task.handoff

/-- The calls that the lock holder is about to make. -/
def due (n : Node) : List Handoff := n.todo.flatMap Task.handoff

/-- The calls made and due cut the events handed over and taken; a prepared snapshot keeps to the batch size. -/
structure CutUp (setup : Setup) (n : Node) : Prop where
  cut : Cut setup.batch (n.handed ++ n.taken) (n.calls ++ n.due)
  prepared : ∀ s, n.worker = .spinning (some s) → s.count ≤ setup.batch

section CutUp

variable {setup : Setup} {env : Env} {n n' : Node}

/-- A step that hands over and takes nothing. -/
theorem CutUp.of_idle (hc : CutUp setup n) (hh : n'.handed = n.handed ∧ n'.calls = n.calls) (ht : n'.todo = n.todo)
    (hp : ∀ s, n'.worker = .spinning (some s) → s.count ≤ setup.batch) : CutUp setup n' := by
  refine ⟨?_, hp⟩
  have hcut := hc.cut
  simp only [taken, due] at hcut ⊢
  rw [hh.1, hh.2, ht]
  exact hcut

/-- A step of a lock holder that had nothing to do and takes something. -/
theorem CutUp.of_take (hc : CutUp setup n) (htodo : n.todo = []) (hh : n'.handed = n.handed ∧ n'.calls = n.calls)
    (hcut : Cut setup.batch n'.taken n'.due) (hp : ∀ s, n'.worker = .spinning (some s) → s.count ≤ setup.batch) :
    CutUp setup n' := by
  refine ⟨?_, hp⟩
  have hbefore := hc.cut
  simp only [taken, due, htodo, List.flatMap_nil, List.append_nil] at hbefore
  rw [hh.1, hh.2]
  exact hbefore.append hcut

theorem note_none (n : Node) (st : State) : (n.note none st).handed = n.handed ∧ (n.note none st).calls = n.calls := by
  simp [note, handed, calls]

theorem singles_cut (batch : Nat) (qs : List Queued) :
    Cut batch ((qs.map Task.event).flatMap Task.queued) ((qs.map Task.event).flatMap Task.handoff) := by
  have hq : (qs.map Task.event).flatMap Task.queued = qs := by
    induction qs with
    | nil => rfl
    | cons q qs ih => simp [Task.queued, ih]
  have hh : (qs.map Task.event).flatMap Task.handoff = qs.map fun q => .event q.event := by
    clear hq
    induction qs with
    | nil => rfl
    | cons q qs ih => simp [Task.handoff, ih]
  rw [hq, hh]
  exact .singles qs

theorem envelopes_cut {batch : Nat} {front : List Queued} (hlen : front.length ≤ batch) :
    let tasks := (envelopeGroups front).map fun g => Task.envelope g (encodeBatchFields (g.map Queued.event))
    Cut batch (tasks.flatMap Task.queued) (tasks.flatMap Task.handoff) := by
  have hq : ∀ groups : List (List Queued),
      (groups.map fun g => Task.envelope g (encodeBatchFields (g.map Queued.event))).flatMap
      Task.queued = groups.flatten := by
    intro groups
    induction groups with
    | nil => rfl
    | cons g groups ih => simp [Task.queued, ih]
  have hh : ∀ groups : List (List Queued),
      (groups.map fun g => Task.envelope g (encodeBatchFields (g.map Queued.event))).flatMap
      Task.handoff = groups.map envelopeOf := by
    intro groups
    induction groups with
    | nil => rfl
    | cons g groups ih => simp [Task.handoff, ih, envelopeOf]
  simp only [hq, hh, envelopeGroups_flatten]
  have h := Cut.snapshot front hlen (Cut.nil : Cut batch [] [])
  simpa using h

/-- The tasks of markers hand no event over. -/
theorem markerTasks_cut (batch : Nat) {tasks : List Task} (h : ∀ t ∈ tasks, t.queued = [] ∧ t.handoff = []) :
    Cut batch (tasks.flatMap Task.queued) (tasks.flatMap Task.handoff) := by
  have hq : tasks.flatMap Task.queued = [] := List.flatMap_eq_nil_iff.2 fun t ht => (h t ht).1
  have hh : tasks.flatMap Task.handoff = [] := List.flatMap_eq_nil_iff.2 fun t ht => (h t ht).2
  rw [hq, hh]
  exact .nil

theorem markerJobTasks_idle (job : MarkerJob) (seg : Option Str) :
    ∀ t ∈ markerJobTasks job seg, t.queued = [] ∧ t.handoff = [] := by
  intro t ht
  cases seg with
  | none =>
    obtain ⟨m, -, rfl⟩ := List.mem_map.1 ht
    exact ⟨rfl, rfl⟩
  | some seg =>
    obtain ⟨m, -, rfl⟩ := List.mem_map.1 ht
    exact ⟨rfl, rfl⟩

theorem handed_of_items {n n' : Node} (h : n'.history = n.history) : n'.handed = n.handed ∧ n'.calls = n.calls := by
  simp only [handed, calls, h, and_self]

/-- A dispatch notes charges only. -/
theorem dispatch_idle (setup : Setup) (env : Env) (n : Node) (event : PendingEvent) (contended registered : Bool) :
    (dispatchPendingEvent setup env n event contended registered).handed = n.handed ∧
      (dispatchPendingEvent setup env n event contended registered).calls = n.calls := by
  have hnote : ∀ (m : Node) st, m.history = n.history →
      (m.note none st).handed = n.handed ∧ (m.note none st).calls = n.calls := by
    intro m st hm
    obtain ⟨h₁, h₂⟩ := note_none m st
    obtain ⟨h₃, h₄⟩ := handed_of_items hm
    exact ⟨h₁.trans h₃, h₂.trans h₄⟩
  have hnote₂ : ∀ (m : Node) st st', m.history = n.history →
      ((m.note none st).note none st').handed = n.handed ∧ ((m.note none st).note none st').calls = n.calls := by
    intro m st st' hm
    obtain ⟨h₁, h₂⟩ := note_none (m.note none st) st'
    obtain ⟨h₃, h₄⟩ := hnote m st hm
    exact ⟨h₁.trans h₃, h₂.trans h₄⟩
  unfold dispatchPendingEvent
  simp only
  split
  · unfold deferPendingEvent
    split
    · exact ⟨rfl, rfl⟩
    · exact hnote _ _ rfl
  · split
    · unfold deferPendingEvent
      split
      · exact hnote _ _ rfl
      · exact hnote₂ _ _ _ rfl
    · split
      · exact hnote _ _ rfl
      · unfold deferOrderedFallback
        split
        · exact hnote _ _ rfl
        · exact hnote₂ _ _ _ rfl

theorem step_cut {act : Act} (hw : Wf setup n) (hc : CutUp setup n) (h : step setup env n act = some n') :
    CutUp setup n' := by
  cases step_fires h with
  | acquire _ _ | release _ _ | stopSync _ _ _ | requestStop _ _ _ | finish _ _ =>
    exact hc.of_idle ⟨rfl, rfl⟩ rfl hc.prepared
  | started _ | wake _ _ _ | unlock _ _ _ => exact hc.of_idle ⟨rfl, rfl⟩ rfl fun _ hp => by cases hp
  | @notify cls event key db contended registered markersRegistered hmay =>
    have hsteady := step_steady hw h rfl
    have htake : (n.takeMarkers env markersRegistered).handed = n.handed ∧
        (n.takeMarkers env markersRegistered).calls = n.calls := note_none n _
    refine hc.of_idle ?_ ?_ fun s hs => hc.prepared s (hsteady.control.2.2 ▸ hs)
    · unfold onKeyspaceEvent
      simp only
      split
      · obtain ⟨h₁, h₂⟩ := note_none (n.takeMarkers env markersRegistered) _
        exact ⟨h₁.trans htake.1, h₂.trans htake.2⟩
      · obtain ⟨h₁, h₂⟩ := note_none (n.takeMarkers env markersRegistered) _
        obtain ⟨h₃, h₄⟩ := dispatch_idle setup env
          ((n.takeMarkers env markersRegistered).note none _) _ contended registered
        exact ⟨h₃.trans (h₁.trans htake.1), h₄.trans (h₂.trans htake.2)⟩
    · rcases onKeyspaceEvent_cases env hw cls event db contended registered markersRegistered hmay with
        ⟨st, -, e⟩ | ⟨-, -, e, lane, hr⟩
      · rw [e]
        rfl
      · exact hr.control.2.2.1
  | command _ _ | setEnabled _ | configure _ _ => exact hc.of_idle (note_none n _) rfl hc.prepared
  | cron hcmd _ =>
    rcases cron_ticked env n with e | ⟨st, -, e⟩ | ⟨-, st, control, retention, -, -, -, -, e⟩
    · rw [e]
      exact hc
    · rw [e]
      exact hc.of_idle (note_none n st) rfl hc.prepared
    · rw [e]
      refine hc.of_take hcmd.2.2 (note_none n st) (markerTasks_cut _ fun t ht => ?_) hc.prepared
      rcases List.mem_append.1 ht with ht | ht
      · obtain ⟨m, -, rfl⟩ := List.mem_map.1 ht
        exact ⟨rfl, rfl⟩
      · rw [List.mem_singleton.1 ht]
        exact ⟨rfl, rfl⟩
  | @runJob job jobs _ _ htodo _ =>
    cases job with
    | event q => exact hc.of_take htodo ⟨rfl, rfl⟩ (singles_cut setup.batch [q]) hc.prepared
    | fallback q =>
      refine hc.of_take htodo (note_none _ _) ?_ hc.prepared
      have hcut := singles_cut setup.batch ((drainBefore n.queue q.id).1 ++ [q])
      rw [List.map_append] at hcut
      exact hcut
    | markers job => exact hc.of_take htodo (note_none _ _) (markerTasks_cut _ (markerJobTasks_idle job _)) hc.prepared
  | process ht =>
    refine ⟨?_, hc.prepared⟩
    have hcut := hc.cut
    simp only [taken, due, ht, List.flatMap_cons] at hcut
    simpa [note, handed, calls, taken, due] using hcut
  | notStarted _ =>
    refine hc.of_idle ?_ rfl fun _ hp => by cases hp
    obtain ⟨h₁, h₂⟩ := note_none n (n.st.charge .dispatch .asyncWorkerErrors 1)
    obtain ⟨h₃, h₄⟩ := note_none (n.note none (n.st.charge .dispatch .asyncWorkerErrors 1)) _
    exact ⟨h₃.trans h₁, h₄.trans h₂⟩
  | prepare _ =>
    refine hc.of_idle ⟨rfl, rfl⟩ rfl fun s hs => ?_
    injection hs with hs
    split at hs
    · obtain ⟨first, rest, -, -, hcount, -, -⟩ := prepareEnvelopes_of hs
      rw [hcount, List.length_take]
      omega
    · cases hs
  | @lock snapshot hwk hfree =>
    have htodo := (hw.free hfree).2
    cases snapshot with
    | none => exact hc.of_take htodo (note_none n _) (singles_cut setup.batch _) fun _ hp => by cases hp
    | some s =>
      simp only [lockWorker]
      split
      · obtain ⟨events, ⟨first, rest, -, -, hcount, hevents, hgroups⟩, -⟩ := hw.snapshot s hwk
        refine hc.of_take htodo (note_none n _) ?_ fun _ hp => by cases hp
        have hlen : events.length ≤ setup.batch := hcount ▸ hc.prepared s hwk
        have hslice : sliceGroups s.groups s.events =
            (envelopeGroups events).map fun g => (g, encodeBatchFields (g.map Queued.event)) := by
          rw [hevents, hgroups]
          have hs := sliceGroups_prepared (envelopeGroups events)
          rwa [envelopeGroups_flatten] at hs
        have hcut := envelopes_cut hlen
        simp only [taken, due, hslice, List.map_map]
        exact hcut
      · exact hc.of_idle ⟨rfl, rfl⟩ rfl fun _ hp => by cases hp
  | stopWaiting _ _ | stopSpinning _ _ => exact hc.of_idle (note_none n _) rfl fun _ hp => by cases hp
  | join hjoin _ =>
    exact hc.of_take (hw.joining hjoin).2 (note_none n _) (singles_cut setup.batch _) fun _ hp => by cases hp

/-- In every run the calls cut the events handed over and taken. -/
theorem Reach.cut {allowed : Node → Act → Prop} (h : Reach setup env allowed n) :
    Cut setup.batch (n.handed ++ n.taken) (n.calls ++ n.due) := by
  refine (Machine.Reach.invariant (I := CutUp setup) (fun _ hl => ?_)
    (fun _ _ _ hr _ hs hc => step_cut (Reach.wf hr) hc hs) h).cut
  obtain ⟨config, host, ks, generation, master, loading, mode, -, rfl⟩ := hl
  refine ⟨.nil, fun s hs => ?_⟩
  unfold initial at hs
  dsimp only at hs
  split at hs <;> cases hs

end CutUp

end Node

/-! ## The refinement -/

/-- Nothing is written yet. -/
def Sheet.ofState (st : State) : Sheet := ⟨fun stream => (st.stats stream).counted, st.currentStreams, fun _ => []⟩

theorem shows_ofState (crates : Crates) (st : State) : Shows crates st st (.ofState st) :=
  ⟨rfl, List.prefix_refl _, fun _ => rfl, rfl, fun _ => ⟨[], [], (List.append_nil _).symm, rfl, rfl⟩⟩

/-- Every cut of a queue into envelopes and single events leaves a reader with the records that writing each event by
itself leaves, on each stream and in the same order. The groups of a prepared envelope are its events cut in pieces, and
each piece shares the destination, the trim and the cap of its first event. -/
theorem envelope_refines (crates : Crates) (hc : crates.Standard) (batch : Nat) (hbatch : batch ≤ Client.usizeMax)
    (env env' : Env) (henv : env.Smooth) (henv' : env'.Smooth) (st : State) (hnode : st.config.perNode = false)
    (hfire : st.config.firehose = false) (events : List Queued) (hfixed : ∀ q ∈ events, q.event.format = .fixed)
    (calls : List Handoff) (hcut : Cut batch events calls) (hacc : Accepted (callsSince st (processAll env st calls)))
    (hacc' : Accepted (callsSince st (processAll env' st (events.map fun q => .event q.event)))) :
    (∀ stream, ∃ new new' read read',
      (processAll env st calls).keyspace.entries (utf8 stream) = st.keyspace.entries (utf8 stream) ++ new ∧
      (processAll env' st (events.map fun q => .event q.event)).keyspace.entries (utf8 stream) =
        st.keyspace.entries (utf8 stream) ++ new' ∧
      expand crates stream new = some read ∧ expand crates stream new' = some read' ∧
      read.map readRecord = read'.map readRecord) ∧
    ∀ queue limit snapshot, prepareEnvelopes queue limit = some snapshot → ∃ groups : List (List Queued),
      snapshot.groups = groups.map prepareGroup ∧ groups.flatten = queue.take limit ∧
      snapshot.events = queue.take limit ∧ ∀ g ∈ groups, ∃ first rest, g = first :: rest ∧ ∀ q ∈ g,
        first.event.pfx = q.event.pfx ∧ first.event.suffix = q.event.suffix ∧
          first.event.dataRetention = q.event.dataRetention ∧ first.event.maxStreams = q.event.maxStreams := by
  refine ⟨fun stream => ?_, fun queue limit snapshot hsnap => ?_⟩
  · have hs := processAll_shows hc henv hnode hfire (hcut.faithful hbatch hfixed) (shows_ofState crates st) hacc
    have hsingle : Cut batch events (events.map fun q => .event q.event) := .singles events
    have hs' := processAll_shows hc henv' hnode hfire (hsingle.faithful hbatch hfixed) (shows_ofState crates st) hacc'
    rw [hcut.events_eq] at hs
    rw [hsingle.events_eq] at hs'
    obtain ⟨new, read, hnew, hread, hlog⟩ := hs.log stream
    obtain ⟨new', read', hnew', hread', hlog'⟩ := hs'.log stream
    exact ⟨new, new', read, read', hnew, hnew', hread, hread', hlog.trans hlog'.symm⟩
  · obtain ⟨first, rest, hfront, -, -, hevents, hgroups⟩ := prepareEnvelopes_of hsnap
    refine ⟨envelopeGroups (queue.take limit), hgroups, envelopeGroups_flatten _, hevents, fun g hg => ?_⟩
    obtain ⟨first, rest, hg', hall⟩ := envelopeGroups_compatible _ g hg
    exact ⟨first, rest, hg', fun q hq => envelopeCompatible_iff.1 (hall q hq)⟩

/-- Three events of the default settings, on two streams. -/
def threeEvents : List Queued :=
  let st := State.fresh .defaults .empty
  [⟨0, snapshot st {.expired} "expired".toList [97] 0⟩, ⟨1, snapshot st {.generic} "del".toList [98] 0⟩,
    ⟨2, snapshot st {.expired} "expired".toList [99] 1⟩]

/-- A snapshot of two events, which are two groups, and a fallback. -/
def mixedCut : List Handoff :=
  (envelopeGroups (threeEvents.take 2)).map envelopeOf ++ (threeEvents.drop 2).map fun q => .event q.event

theorem calm_smooth : Env.calm.Smooth := ⟨fun _ => rfl, fun _ => rfl⟩

theorem envelope_refines_mixed : ∃ new new' read read',
    (processAll .calm (.fresh .defaults .empty) mixedCut).keyspace.entries (utf8 "events:expired".toList) = [] ++ new ∧
    (processAll .calm (.fresh .defaults .empty) (threeEvents.map fun q => .event q.event)).keyspace.entries
      (utf8 "events:expired".toList) = [] ++ new' ∧
    expand .reference "events:expired".toList new = some read ∧
    expand .reference "events:expired".toList new' = some read' ∧ read.map readRecord = read'.map readRecord := by
  have hcut : Cut 2 threeEvents mixedCut := .snapshot (threeEvents.take 2) (by decide) (.singles (threeEvents.drop 2))
  exact (envelope_refines .reference Client.Crates.reference_standard 2 (by decide) .calm .calm calm_smooth calm_smooth
    (.fresh .defaults .empty) rfl rfl threeEvents (by decide) mixedCut hcut (by unfold Accepted; decide +kernel)
    (by unfold Accepted; decide +kernel)).1 "events:expired".toList

end EventStream

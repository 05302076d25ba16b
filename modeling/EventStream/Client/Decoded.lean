import EventStream.Client.Merged
import EventStream.Lib.Tokens

/-!
# Rounds that decode

A round of `poll_decoded` reads all streams, which moves their cursors, and then decodes what was read. The first entry
that does not decode ends the call with an error, and the round's other entries are not returned with it.

* `Located`: an error names the entry it is about, and so does every event that was decoded (`decodeEntry_located`).
* `decodeBatch_ok`, `decodeBatch_error`: a batch decodes as a whole, or its first entry that does not is the error.
* `Decoding`: a reader with the results of its decoding rounds; `Decoding.Later.grows`: later results are of entries
  that were read later.
* `delivered_of_later`: so what a round does not deliver is never delivered, since no entry is read twice.
* `pollDecoded_delivers_iff`: when a round delivers each of its entries that decodes.
-/

namespace EventStream.Client

open Text (Str)

/-! ## What events and errors name -/

section Located

variable {α β : Type} {entry : PhysicalEntry} {good : α → Prop}

/-- A value is as said, and an error names the entry. -/
def Located (entry : PhysicalEntry) (good : α → Prop) : Except DecodeError α → Prop
  | .error e => e.physical = entry.position
  | .ok v => good v

theorem Located.bind {good' : β → Prop} {x : Except DecodeError α} {f : α → Except DecodeError β}
    (hx : Located entry good x) (hf : ∀ v, good v → Located entry good' (f v)) : Located entry good' (x >>= f) := by
  cases x with
  | error e => exact hx
  | ok v => exact hf v hx

theorem Located.mapM {f : β → Except DecodeError α} (hf : ∀ b, Located entry good (f b)) (bs : List β) :
    Located entry (fun vs => ∀ v ∈ vs, good v) (bs.mapM f) := by
  induction bs with
  | nil => exact List.forall_mem_nil good
  | cons b bs ih =>
    rw [List.mapM_cons]
    refine (hf b).bind fun v hv => ih.bind fun vs hvs => ?_
    exact List.forall_mem_cons.2 ⟨hv, hvs⟩

end Located

section Decoder

variable (entry : PhysicalEntry) (name : Str)

theorem fieldBytes_located : Located entry (fun _ => True) (fieldBytes entry name) := by
  unfold fieldBytes
  split
  · trivial
  · trivial
  · rfl
  · rfl

theorem fieldUtf8_located : Located entry (fun _ => True) (fieldUtf8 entry name) := by
  refine (fieldBytes_located entry name).bind fun bytes _ => ?_
  split
  · trivial
  · rfl

theorem optionalFieldUtf8_located : Located entry (fun _ => True) (optionalFieldUtf8 entry name) := by
  have h := fieldUtf8_located entry name
  unfold optionalFieldUtf8
  split
  · cases hf : fieldUtf8 entry name with
    | error e =>
      rw [hf] at h
      exact h
    | ok value => trivial
  · trivial

theorem parseInteger_located : Located entry (fun _ => True) (parseInteger entry name) := by
  refine (fieldUtf8_located entry name).bind fun value _ => ?_
  split
  · trivial
  · rfl

/-- The events of an entry. -/
def EventsOf (events : List LogicalEvent) : Prop := ∀ ev ∈ events, ev.source.physical = entry.position

theorem decodeFixedEntry_located : Located entry (EventsOf entry) (decodeFixedEntry entry) := by
  refine (fieldUtf8_located entry _).bind fun event _ => (fieldBytes_located entry _).bind fun key _ =>
    (parseInteger_located entry _).bind fun db _ => (optionalFieldUtf8_located entry _).bind fun cls _ => ?_
  exact List.forall_mem_singleton.2 rfl

theorem decodeBatchEvent_located (crates : Crates) (p : BatchEvent × Nat) :
    Located entry (fun ev => ev.source.physical = entry.position) (decodeBatchEvent crates entry p) := by
  unfold decodeBatchEvent
  split
  · rfl
  · rfl

theorem decodeBatchV1Entry_located (crates : Crates) :
    Located entry (EventsOf entry) (decodeBatchV1Entry crates entry) := by
  refine (fieldUtf8_located entry _).bind fun count _ => ?_
  split
  · rfl
  · refine (fieldBytes_located entry _).bind fun bytes _ => ?_
    split
    · rfl
    · split
      · rfl
      · exact Located.mapM (decodeBatchEvent_located entry crates) _

theorem decodeEntry_located (crates : Crates) : Located entry (EventsOf entry) (decodeEntry crates entry) := by
  refine (optionalFieldUtf8_located entry _).bind fun format _ => ?_
  split
  · exact decodeFixedEntry_located entry
  · split
    · exact decodeBatchV1Entry_located entry crates
    · rfl

end Decoder

/-! ## Batches -/

/-- An entry decodes. -/
def Decodes (crates : Crates) (entry : PhysicalEntry) : Prop := ∃ events, decodeEntry crates entry = .ok events

/-- The loop over a batch; the first error ends it. -/
def decodeBatch (crates : Crates) (physical : List PhysicalEntry) : Except DecodeError (List LogicalEvent) :=
  physical.foldlM (fun logical entry => (decodeEntry crates entry).map (logical ++ ·)) []

/-- What was returned: nothing with an error. -/
def returned (result : Except DecodeError (List LogicalEvent)) : List LogicalEvent := result.toOption.getD []

section Batches

variable {crates : Crates} {batch : List PhysicalEntry}

theorem decodeBatch_ok (h : ∀ entry ∈ batch, Decodes crates entry) :
    decodeBatch crates batch = .ok (batch.flatMap fun entry => returned (decodeEntry crates entry)) := by
  suffices hacc : ∀ logical : List LogicalEvent,
      batch.foldlM (fun logical entry => (decodeEntry crates entry).map (logical ++ ·)) logical =
        .ok (logical ++ batch.flatMap fun entry => returned (decodeEntry crates entry)) from hacc []
  induction batch with
  | nil =>
    intro logical
    simp [pure, Except.pure]
  | cons entry batch ih =>
    intro logical
    obtain ⟨⟨events, he⟩, hrest⟩ := List.forall_mem_cons.1 h
    rw [List.foldlM_cons, he]
    refine (ih hrest (logical ++ events)).trans ?_
    rw [List.append_assoc, List.flatMap_cons, he]
    rfl

/-- The error is that of the first entry that does not decode. -/
theorem decodeBatch_error {e : DecodeError} (h : decodeBatch crates batch = .error e) :
    ∃ front entry rest, batch = front ++ entry :: rest ∧ (∀ x ∈ front, Decodes crates x) ∧
      decodeEntry crates entry = .error e := by
  suffices hacc : ∀ logical : List LogicalEvent,
      batch.foldlM (fun logical entry => (decodeEntry crates entry).map (logical ++ ·)) logical = .error e →
        ∃ front entry rest, batch = front ++ entry :: rest ∧ (∀ x ∈ front, Decodes crates x) ∧
          decodeEntry crates entry = .error e from hacc [] h
  clear h
  induction batch with
  | nil =>
    intro logical h
    cases h
  | cons entry batch ih =>
    intro logical h
    rw [List.foldlM_cons] at h
    cases he : decodeEntry crates entry with
    | error e' =>
      rw [he] at h
      cases h
      exact ⟨[], entry, batch, rfl, List.forall_mem_nil _, he⟩
    | ok events =>
      rw [he] at h
      obtain ⟨front, entry', rest, rfl, hfront, hentry⟩ := ih (logical ++ events) h
      exact ⟨entry :: front, entry', rest, rfl, List.forall_mem_cons.2 ⟨⟨events, he⟩, hfront⟩, hentry⟩

theorem decodeBatch_accepts_iff :
    (∃ logical, decodeBatch crates batch = .ok logical) ↔ ∀ entry ∈ batch, Decodes crates entry := by
  refine Tokens.accepted_iff (fun logical entry => ?_) batch []
  cases he : decodeEntry crates entry with
  | error e =>
    refine iff_of_false ?_ ?_
    · rintro ⟨logical', h⟩
      cases h
    · rintro ⟨events, h⟩
      rw [he] at h
      cases h
  | ok events => exact iff_of_true ⟨_, rfl⟩ ⟨events, he⟩

theorem decodeBatch_fails_iff :
    (∃ e, decodeBatch crates batch = .error e) ↔ ∃ entry ∈ batch, ¬ Decodes crates entry := by
  have hnot : (∃ e, decodeBatch crates batch = .error e) ↔ ¬ ∃ logical, decodeBatch crates batch = .ok logical := by
    cases decodeBatch crates batch with
    | error e => simp
    | ok logical => simp
  rw [hnot, decodeBatch_accepts_iff]
  push Not
  rfl

/-- The events of one entry among those of a batch without repeated positions. -/
theorem filter_flatMap_returned (hnodup : (batch.map PhysicalEntry.position).Nodup) {entry : PhysicalEntry}
    (hmem : entry ∈ batch) :
    (batch.flatMap fun entry => returned (decodeEntry crates entry)).filter
        (fun ev => ev.source.physical = entry.position) = returned (decodeEntry crates entry) := by
  have hof : ∀ entry : PhysicalEntry, EventsOf entry (returned (decodeEntry crates entry)) := by
    intro entry
    have h := decodeEntry_located entry crates
    cases hd : decodeEntry crates entry with
    | error e => exact List.forall_mem_nil _
    | ok events =>
      rw [hd] at h
      exact h
  have hother : ∀ other : PhysicalEntry, other.position ≠ entry.position →
      (returned (decodeEntry crates other)).filter (fun ev => ev.source.physical = entry.position) = [] := by
    intro other hne
    rw [List.filter_eq_nil_iff]
    intro ev hev he
    rw [decide_eq_true_eq, hof other ev hev] at he
    exact hne he
  have hself : (returned (decodeEntry crates entry)).filter (fun ev => ev.source.physical = entry.position) =
      returned (decodeEntry crates entry) := by
    rw [List.filter_eq_self]
    intro ev hev
    exact decide_eq_true (hof entry ev hev)
  rw [List.filter_flatMap]
  induction batch with
  | nil => cases hmem
  | cons x batch ih =>
    rw [List.map_cons, List.nodup_cons] at hnodup
    rw [List.flatMap_cons]
    by_cases hx : x.position = entry.position
    · have hxe : entry = x := by
        rcases List.mem_cons.1 hmem with he | he
        · exact he
        · exact absurd (List.mem_map.2 ⟨entry, he, hx.symm⟩) hnodup.1
      have hrest : batch.flatMap (fun other => (returned (decodeEntry crates other)).filter
          fun ev => ev.source.physical = entry.position) = [] := by
        rw [List.flatMap_eq_nil_iff]
        intro other hmem'
        apply hother
        rw [hxe]
        intro he
        exact hnodup.1 (List.mem_map.2 ⟨other, hmem', he⟩)
      rw [hrest, List.append_nil, ← hxe, hself]
    · have hmem' : entry ∈ batch := by
        rcases List.mem_cons.1 hmem with he | he
        · exact absurd (congrArg PhysicalEntry.position he).symm hx
        · exact he
      rw [hother x hx, List.nil_append, ih hnodup.2 hmem']

end Batches

/-! ## Decoding rounds -/

/-- One round, decoded. -/
def MergedReader.pollDecoded (crates : Crates) (reader : MergedReader) (logs : Logs) (traffic : Traffic) (count : Nat) :
    Logs × MergedReader × Except DecodeError (List LogicalEvent) :=
  let r := reader.pollPhysical logs traffic count
  (r.1, r.2.1, decodeBatch crates r.2.2)

/-- A reader in its world, and the results of its decoding rounds. -/
structure Decoding where
  world : World
  results : List (Except DecodeError (List LogicalEvent))

namespace Decoding

inductive Act
  | other (act : World.Act)
  | pollDecoded (count : Nat) (traffic : Traffic)

/-- A decoding round moves the world as the plain one does. -/
def step (crates : Crates) (texts : Texts) (d : Decoding) : Act → Decoding
  | .other act => { d with world := d.world.step texts act }
  | .pollDecoded count traffic =>
    { world := d.world.step texts (.pollPhysical count traffic)
      results := d.results ++ [(d.world.reader.pollDecoded crates d.world.logs traffic count).2.2] }

def Fresh (d : Decoding) : Prop := d.world.Fresh ∧ d.results = []

/-- The states that some interleaving leads to. -/
def Reach (crates : Crates) (texts : Texts) : Decoding → Prop :=
  Machine.Reach (fun d act d' => step crates texts d act = d') (fun _ _ => True) Fresh

/-- The states that some interleaving leads to from another. -/
def Later (crates : Crates) (texts : Texts) : Decoding → Decoding → Prop :=
  Relation.ReflTransGen (Machine.Next (fun d act d' => step crates texts d act = d') fun _ _ => True)

variable {crates : Crates} {texts : Texts} {d d' : Decoding}

/-- The entries of the next round. -/
def batch (d : Decoding) (count : Nat) (traffic : Traffic) : List PhysicalEntry :=
  (d.world.reader.pollPhysical d.world.logs traffic count).2.2

/-- The result of the next round. -/
def result (crates : Crates) (d : Decoding) (count : Nat) (traffic : Traffic) :
    Except DecodeError (List LogicalEvent) := (d.world.reader.pollDecoded crates d.world.logs traffic count).2.2

theorem result_eq (d : Decoding) (count : Nat) (traffic : Traffic) :
    d.result crates count traffic = decodeBatch crates (d.batch count traffic) := rfl

/-- In every run the entries that were returned are those up to the cursors. -/
theorem Reach.sound (h : Reach crates texts d) : World.Sound texts d.world := by
  refine Machine.Reach.invariant (I := fun d : Decoding => World.Sound texts d.world) ?_ ?_ h
  · intro d hd
    exact World.sound_of_fresh hd.1
  · rintro d act d' - - rfl ih
    cases act with
    | other act => exact ih.step act
    | pollDecoded count traffic => exact ih.step (.pollPhysical count traffic)

theorem Reach.round (h : Reach crates texts d) (count : Nat) (traffic : Traffic) :
    Reach crates texts (d.step crates texts (.pollDecoded count traffic)) :=
  Machine.Reach.next h trivial rfl

/-- What was read and returned from one state to another. -/
structure Grows (d d' : Decoding) (more : List Reply) (results : List (Except DecodeError (List LogicalEvent))) :
    Prop where
  replies : d'.world.replies = d.world.replies ++ more
  results_eq : d'.results = d.results ++ results
  events : ∀ ev ∈ results.flatMap returned, ev.source.physical ∈ more.flatMap Reply.positions

theorem Grows.trans {d'' : Decoding} {replies replies' : List Reply}
    {results results' : List (Except DecodeError (List LogicalEvent))} (h : Grows d d' replies results)
    (h' : Grows d' d'' replies' results') : Grows d d'' (replies ++ replies') (results ++ results') where
  replies := by rw [h'.replies, h.replies, List.append_assoc]
  results_eq := by rw [h'.results_eq, h.results_eq, List.append_assoc]
  events ev hev := by
    rw [List.flatMap_append, List.mem_append] at hev ⊢
    exact hev.imp (h.events ev) (h'.events ev)

/-- The events of a decoded batch are of its entries. -/
theorem returned_decodeBatch {physical : List PhysicalEntry} {ev : LogicalEvent}
    (h : ev ∈ returned (decodeBatch crates physical)) : ev.source.physical ∈ physical.map PhysicalEntry.position := by
  cases hd : decodeBatch crates physical with
  | error e =>
    rw [hd] at h
    cases h
  | ok logical =>
    have hall := decodeBatch_accepts_iff.1 ⟨logical, hd⟩
    rw [decodeBatch_ok hall] at h
    obtain ⟨entry, hmem, hev⟩ := List.mem_flatMap.1 h
    obtain ⟨events, he⟩ := hall entry hmem
    have hloc := decodeEntry_located entry crates
    rw [he] at hev hloc
    exact List.mem_map.2 ⟨entry, hmem, (hloc ev hev).symm⟩

theorem step_grows (crates : Crates) (texts : Texts) (d : Decoding) (act : Act) :
    ∃ replies results, Grows d (d.step crates texts act) replies results := by
  cases act with
  | other act =>
    cases act with
    | append stream item => exact ⟨[], [], by simp [step, World.step], by simp [step], List.forall_mem_nil _⟩
    | pollPhysical count traffic => exact ⟨_, [], rfl, by simp [step], List.forall_mem_nil _⟩
    | poll count traffic => exact ⟨_, [], rfl, by simp [step], List.forall_mem_nil _⟩
    | addStreams candidates fromZero traffic =>
      exact ⟨[], [], by simp [step, World.step], by simp [step], List.forall_mem_nil _⟩
  | pollDecoded count traffic =>
    refine ⟨[.physical (d.batch count traffic)], [d.result crates count traffic], rfl, rfl, ?_⟩
    intro ev hev
    rw [List.flatMap_singleton] at hev ⊢
    exact returned_decodeBatch hev

theorem Later.grows (h : Later crates texts d d') : ∃ replies results, Grows d d' replies results := by
  induction h with
  | refl => exact ⟨[], [], by simp, by simp, List.forall_mem_nil _⟩
  | tail _ hnext ih =>
    obtain ⟨act, -, rfl⟩ := hnext
    obtain ⟨replies, results, hg⟩ := ih
    obtain ⟨replies', results', hg'⟩ := step_grows crates texts _ act
    exact ⟨_, _, hg.trans hg'⟩

end Decoding

/-! ## What is delivered -/

/-- Positions that ascend in each stream are not repeated. -/
theorem nodup_of_ascending {positions : List PhysicalPosition}
    (h : ∀ s, (ofStream s positions).Pairwise fun p q => entryIdSortKey p.entryId < entryIdSortKey q.entryId) :
    positions.Nodup := by
  induction positions with
  | nil => exact List.nodup_nil
  | cons p positions ih =>
    have hcons : ∀ s, ofStream s (p :: positions) =
        if p.stream = s then p :: ofStream s positions else ofStream s positions := by
      intro s
      simp [ofStream, List.filter_cons]
    rw [List.nodup_cons]
    constructor
    · intro hmem
      have hp := h p.stream
      rw [hcons, if_pos rfl, List.pairwise_cons] at hp
      exact lt_irrefl _ (hp.1 p (List.mem_filter.2 ⟨hmem, by simp⟩))
    · refine ih fun s => ?_
      have hs := h s
      rw [hcons] at hs
      split at hs
      · exact (List.pairwise_cons.1 hs).2
      · exact hs

/-- The events of an entry among some results. -/
def delivered (results : List (Except DecodeError (List LogicalEvent))) (p : PhysicalPosition) : List LogicalEvent :=
  (results.flatMap returned).filter fun ev => ev.source.physical = p

section Delivered

variable {crates : Crates} {texts : Texts} {d d' : Decoding} {count : Nat} {traffic : Traffic}

/-- From a round on, an entry of the round is delivered by the round alone: no later round reads it. -/
theorem delivered_of_later (h : d.Reach crates texts)
    (hlater : Decoding.Later crates texts (d.step crates texts (.pollDecoded count traffic)) d') {entry : PhysicalEntry}
    (hmem : entry ∈ d.batch count traffic) :
    delivered (d'.results.drop d.results.length) entry.position =
      (returned (d.result crates count traffic)).filter fun ev => ev.source.physical = entry.position := by
  have hreach : d'.Reach crates texts := Machine.Reach.path (h.round count traffic) hlater
  have hsound := hreach.sound.sound
  obtain ⟨replies, results, hg⟩ := hlater.grows
  have hseen : d'.world.seen = d.world.seen ++ (d.batch count traffic).map PhysicalEntry.position ++
      replies.flatMap Reply.positions := by
    have hone : (d.step crates texts (.pollDecoded count traffic)).world.replies =
        d.world.replies ++ [.physical (d.batch count traffic)] := rfl
    rw [World.seen, hg.replies, hone, List.flatMap_append, List.flatMap_append, List.flatMap_singleton]
    rfl
  have hdrop : d'.results.drop d.results.length = d.result crates count traffic :: results := by
    rw [hg.results_eq]
    have hone : (d.step crates texts (.pollDecoded count traffic)).results = d.results ++
        [d.result crates count traffic] := rfl
    rw [hone, List.append_assoc, List.drop_left]
    rfl
  have hnodup := nodup_of_ascending hsound.ascending
  rw [hseen] at hnodup
  have hlate : (results.flatMap returned).filter (fun ev => ev.source.physical = entry.position) = [] := by
    rw [List.filter_eq_nil_iff]
    intro ev hev he
    rw [decide_eq_true_eq] at he
    have hin := hg.events ev hev
    rw [he] at hin
    have hbefore : entry.position ∈ d.world.seen ++ (d.batch count traffic).map PhysicalEntry.position :=
      List.mem_append_right _ (List.mem_map_of_mem hmem)
    exact (List.disjoint_of_nodup_append hnodup) hbefore hin
  rw [delivered, hdrop, List.flatMap_cons, List.filter_append, hlate, List.append_nil]

/-- The entries of a round are not repeated within it. -/
theorem batch_nodup (h : d.Reach crates texts) :
    ((d.batch count traffic).map PhysicalEntry.position).Nodup := by
  have hreply := (h.round count traffic).sound.replies (.physical (d.batch count traffic))
    (List.mem_append_right _ (List.mem_singleton_self _))
  exact nodup_of_ascending hreply.1.2

/-- A round whose entries all decode delivers each of them. -/
theorem delivered_of_decodes (h : d.Reach crates texts)
    (hlater : Decoding.Later crates texts (d.step crates texts (.pollDecoded count traffic)) d')
    (hall : ∀ entry ∈ d.batch count traffic, Decodes crates entry) {entry : PhysicalEntry}
    (hmem : entry ∈ d.batch count traffic) :
    delivered (d'.results.drop d.results.length) entry.position = returned (decodeEntry crates entry) := by
  rw [delivered_of_later h hlater hmem, Decoding.result_eq, decodeBatch_ok hall]
  exact filter_flatMap_returned (batch_nodup h) hmem

/-- A round with an entry that does not decode delivers nothing, and neither does a later round. -/
theorem delivered_of_fails (h : d.Reach crates texts)
    (hlater : Decoding.Later crates texts (d.step crates texts (.pollDecoded count traffic)) d')
    (hfails : ∃ entry ∈ d.batch count traffic, ¬ Decodes crates entry) {entry : PhysicalEntry}
    (hmem : entry ∈ d.batch count traffic) : delivered (d'.results.drop d.results.length) entry.position = [] := by
  obtain ⟨e, he⟩ := decodeBatch_fails_iff.2 hfails
  rw [delivered_of_later h hlater hmem, Decoding.result_eq, he]
  rfl

end Delivered

/-- **One poison entry costs its round.** In every state that a reader can be in and for every round of it, the results
of the round and of all later rounds hold the events of each entry of the round that decodes, once, exactly if all
entries of the round decode or those that do have no events. The round fails exactly if an entry does not decode, and
its error is that of the first one and names it. -/
theorem pollDecoded_delivers_iff (crates : Crates) (texts : Texts) {d : Decoding} (h : d.Reach crates texts)
    (count : Nat) (traffic : Traffic) :
    (∀ d', Decoding.Later crates texts (d.step crates texts (.pollDecoded count traffic)) d' →
      ((∀ entry ∈ d.batch count traffic, ∀ events, decodeEntry crates entry = .ok events →
          delivered (d'.results.drop d.results.length) entry.position = events) ↔
        ((∀ entry ∈ d.batch count traffic, Decodes crates entry) ∨
          ∀ entry ∈ d.batch count traffic, ∀ events, decodeEntry crates entry = .ok events → events = []))) ∧
    ((∃ e, d.result crates count traffic = .error e) ↔ ∃ entry ∈ d.batch count traffic, ¬ Decodes crates entry) ∧
    ∀ e, d.result crates count traffic = .error e → ∃ front entry rest, d.batch count traffic = front ++ entry :: rest ∧
      (∀ x ∈ front, Decodes crates x) ∧ decodeEntry crates entry = .error e ∧ e.physical = entry.position := by
  refine ⟨fun d' hlater => ?_, decodeBatch_fails_iff, fun e he => ?_⟩
  · by_cases hall : ∀ entry ∈ d.batch count traffic, Decodes crates entry
    · refine iff_of_true (fun entry hmem events hok => ?_) (Or.inl hall)
      rw [delivered_of_decodes h hlater hall hmem, hok]
      rfl
    · have hfails : ∃ entry ∈ d.batch count traffic, ¬ Decodes crates entry := by
        push Not at hall
        exact hall
      constructor
      · intro hdelivered
        refine Or.inr fun entry hmem events hok => ?_
        rw [← hdelivered entry hmem events hok]
        exact delivered_of_fails h hlater hfails hmem
      · rintro (hall' | hnone) entry hmem events hok
        · exact absurd hall' hall
        · rw [hnone entry hmem events hok]
          exact delivered_of_fails h hlater hfails hmem
  · obtain ⟨front, entry, rest, hbatch, hfront, hentry⟩ := decodeBatch_error he
    have hloc := decodeEntry_located entry crates
    rw [hentry] at hloc
    exact ⟨front, entry, rest, hbatch, hfront, hentry, hloc⟩

/-- The fields of an event of the fixed schema. -/
def plainFields (name : Str) : Option RedisValue :=
  if name = "event".toList then some (.simpleString "expired".toList)
  else if name = "key".toList then some (.bulkString [107])
  else if name = "db".toList then some (.simpleString ['0'])
  else none

def plainItem (ms : Nat) (h : 0 < ms ∧ ms ≤ u64Max) : Item := { sampleItem ms h with fields := plainFields }

theorem one_valid : 0 < 1 ∧ 1 ≤ u64Max := by decide

theorem two_valid : 0 < 2 ∧ 2 ≤ u64Max := by decide

/-- Two streams: `a` has an event, and `b` what is given. -/
def twoLogs (b : List Item) : Logs :=
  fun s => if s = ['a'] then [plainItem 1 one_valid] else if s = ['b'] then b else []

/-- A new reader of both. -/
def readingTwo (b : List Item) : Decoding :=
  let r := MergedReader.new (twoLogs b) .quiet [['a'], ['b']] true
  ⟨⟨r.1, r.2, r.2.cursors.lookup, []⟩, []⟩

theorem readingTwo_reach (crates : Crates) (texts : Texts) {b : List Item} (hb : Tail.Increasing Item.key b) :
    (readingTwo b).Reach crates texts := by
  refine .start ⟨⟨twoLogs b, .quiet, [['a'], ['b']], true, fun s => ?_, rfl, rfl, rfl⟩, rfl⟩
  unfold twoLogs
  split
  · exact List.pairwise_singleton _ _
  · split
    · exact hb
    · exact List.Pairwise.nil

/-- The event of the entry `1-0` of the stream `a`. -/
def plainEvent : LogicalEvent := ⟨⟨⟨['a'], "1-0".toList⟩, none⟩, "expired".toList, [107], 0, none⟩

theorem decodeEntry_plain (crates : Crates) :
    decodeEntry crates ((plainItem 1 one_valid).physical ['a']) = .ok [plainEvent] := by
  rfl

/-- An event in each of two streams: both are delivered. -/
theorem pollDecoded_delivers_both :
    delivered ((readingTwo [plainItem 2 two_valid]).step .reference sampleTexts (.pollDecoded 1 .quiet)).results
      ⟨['a'], "1-0".toList⟩ = [plainEvent] := by
  have hreach : (readingTwo [plainItem 2 two_valid]).Reach .reference sampleTexts :=
    readingTwo_reach _ _ (List.pairwise_singleton _ _)
  have hbatch : (readingTwo [plainItem 2 two_valid]).batch 1 .quiet =
      [(plainItem 1 one_valid).physical ['a'], (plainItem 2 two_valid).physical ['b']] := rfl
  have hall : ∀ entry ∈ (readingTwo [plainItem 2 two_valid]).batch 1 .quiet, Decodes .reference entry := by
    rw [hbatch, List.forall_mem_cons, List.forall_mem_singleton]
    exact ⟨⟨_, decodeEntry_plain _⟩, ⟨_, rfl⟩⟩
  have h := (pollDecoded_delivers_iff .reference sampleTexts hreach 1 .quiet).1 _ .refl
  exact h.2 (Or.inl hall) _ (by rw [hbatch]; exact List.mem_cons_self) _ (decodeEntry_plain _)

/-- The entry of `a` decodes and comes first, and the entry of `b` does not decode: the round returns an error, and no
round ever returns the event of `a`. -/
theorem pollDecoded_poison :
    ∃ (d : Decoding) (entry : PhysicalEntry) (e : DecodeError), d.Reach .reference sampleTexts ∧
      entry ∈ d.batch 1 .quiet ∧
      decodeEntry .reference entry = .ok [plainEvent] ∧ d.result .reference 1 .quiet = .error e ∧
      e.physical = ⟨['b'], "2-0".toList⟩ ∧
      ∀ d', Decoding.Later .reference sampleTexts (d.step .reference sampleTexts (.pollDecoded 1 .quiet)) d' →
        delivered (d'.results.drop d.results.length) entry.position = [] := by
  have hreach : (readingTwo [sampleItem 2 two_valid]).Reach .reference sampleTexts :=
    readingTwo_reach _ _ (List.pairwise_singleton _ _)
  have hbatch : (readingTwo [sampleItem 2 two_valid]).batch 1 .quiet =
      [(plainItem 1 one_valid).physical ['a'], (sampleItem 2 two_valid).physical ['b']] := rfl
  have hpoison : ∃ entry ∈ (readingTwo [sampleItem 2 two_valid]).batch 1 .quiet, ¬ Decodes .reference entry := by
    refine ⟨(sampleItem 2 two_valid).physical ['b'], by rw [hbatch]; simp, ?_⟩
    rintro ⟨events, h⟩
    cases h
  have hmem : (plainItem 1 one_valid).physical ['a'] ∈ (readingTwo [sampleItem 2 two_valid]).batch 1 .quiet := by
    rw [hbatch]
    exact List.mem_cons_self
  exact ⟨_, _, ⟨⟨['b'], "2-0".toList⟩, .missingField "event".toList⟩, hreach, hmem, decodeEntry_plain _, rfl, rfl,
    fun d' hlater => delivered_of_fails hreach hlater hpoison hmem⟩

end EventStream.Client

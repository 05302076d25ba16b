import EventStream.Client.Consume
import EventStream.Conservation
import EventStream.Envelope
import EventStream.Origins
import Mathlib.Data.List.Flatten

/-!
# From a notification to the consumer

What a consumer prints is what the module captured. The entries of the destination streams are those that the executed
writes of a run added to them; this is followed from the call of a processor to the consumer that reads the streams.

* `posted`: the entries that the executed canonical writes of a trace add, with their keys.
* `Pays`: the forwarded events are counted with the writes that are executed.
* `Post`, `Posted`: the entries of a run, each with the call that wrote it (`step_posted`, `Reach.posted`).
* `Holds`: a stream that holds what was posted to it; `decoded_of_posts`: what a client decodes from it.
* `captured_events_delivered`: the two ends together.
-/

namespace EventStream

open Text (Str Bytes utf8)
open Client (Crates Item Consumer ConsumeOptions Pass returned decodeEntry)

/-! ## Executed writes -/

/-- An executed canonical write: its key and its fields. -/
def Occurrence.posted : Occurrence → Option (Bytes × List Bytes)
  | .call .canonical (.xadd key _ _ fields) true => some (key, fields)
  | _ => none

/-- The entries of the destination streams, in the order of the calls. -/
def posted (trace : List Occurrence) : List (Bytes × List Bytes) := trace.filterMap Occurrence.posted

theorem posted_append (trace more : List Occurrence) : posted (trace ++ more) = posted trace ++ posted more :=
  List.filterMap_append

theorem posted_isSome (o : Occurrence) : o.posted.isSome = (Expense.entry .canonical).ofCall o := by
  cases o with
  | cleared | pruned name => rfl
  | call why cmd ok =>
    cases cmd with
    | sadd | srem | xgroupCreate => cases why <;> rfl
    | xadd key nomk trim fields => cases why <;> cases ok <;> rfl

theorem posted_length (calls : List Occurrence) :
    (posted calls).length = calls.countP (Expense.entry .canonical).ofCall := by
  rw [posted, List.length_filterMap_eq_countP]
  exact List.countP_congr fun o _ => by rw [posted_isSome]

/-- They are as many as the successful attempts. -/
theorem posted_length_eq (trace : List Occurrence) :
    (posted trace).length = (trace.filterMap (attemptOf .canonical)).count true := by
  induction trace with
  | nil => rfl
  | cons o trace ih =>
    cases o with
    | cleared | pruned name => exact ih
    | call why cmd ok =>
      cases cmd with
      | sadd | srem | xgroupCreate =>
        cases why <;> exact ih
      | xadd key nomk trim fields =>
        cases why with
        | canonical =>
          cases ok with
          | true => exact (congrArg (· + 1) ih).trans (List.count_cons_self).symm
          | false => exact ih.trans (List.count_cons_of_ne (by decide)).symm
        | firehose | marker | checkpoint | probe | dispatch | prune => exact ih

/-- A trail with a budget of one canonical entry adds none or one, by one of its calls. -/
theorem Trail.posted {env : Env} {P : Purpose → Command → Prop} {b : Budget} {st st' : State} (h : Trail env P b st st')
    (hb : b (.entry .canonical) ≤ 1) : EventStream.posted st'.trace = EventStream.posted st.trace ∨
      ∃ key nomk trim fields, P .canonical (.xadd key nomk trim fields) ∧
        EventStream.posted st'.trace = EventStream.posted st.trace ++ [(key, fields)] := by
  obtain ⟨calls, htrace, hcalls, hbudget⟩ := h.calls
  have hlen : (EventStream.posted calls).length ≤ 1 := by
    rw [posted_length]
    exact (hbudget _).trans hb
  rw [htrace, posted_append]
  cases hp : EventStream.posted calls with
  | nil => exact Or.inl (List.append_nil _)
  | cons x rest =>
    rw [hp, List.length_cons] at hlen
    obtain rfl : rest = [] := List.eq_nil_of_length_eq_zero (by omega)
    have hx : x ∈ EventStream.posted calls := hp ▸ List.mem_cons_self
    obtain ⟨o, ho, hox⟩ := List.mem_filterMap.1 hx
    obtain ⟨why, cmd, ok, rfl, hP⟩ := hcalls o ho
    cases cmd with
    | sadd | srem | xgroupCreate => cases why <;> cases hox
    | xadd key nomk trim fields =>
      cases why <;> cases ok <;> cases hox
      exact Or.inr ⟨key, nomk, trim, fields, hP, rfl⟩

/-- A trail without canonical calls adds none. -/
theorem Trail.posted_eq {env : Env} {P : Purpose → Command → Prop} {b : Budget} {st st' : State}
    (h : Trail env P b st st') (hP : ∀ cmd, ¬ P .canonical cmd) (hb : b (.entry .canonical) ≤ 1) :
    EventStream.posted st'.trace = EventStream.posted st.trace := by
  rcases h.posted hb with heq | ⟨key, nomk, trim, fields, hcall, -⟩
  · exact heq
  · exact absurd hcall (hP _)

/-! ## What is counted for them -/

/-- From one state to another `n` events are counted as forwarded for every entry that was added. -/
def Pays (n : Nat) (st st' : State) : Prop :=
  ∃ k, (posted st'.trace).length = (posted st.trace).length + k ∧ st'.value .forwarded = st.value .forwarded + k * n

theorem Pays.of_settles {n : Nat} {st st' : State} {charges : List Charge} {tries marks : List Bool} {repins : Nat}
    (h : Settles st st' charges tries marks repins) (hc : charged charges .forwarded = tries.count true * n) :
    Pays n st st' := by
  refine ⟨tries.count true, ?_, ?_⟩
  · have hattempts := h.attempts
    rw [State.attempts, State.attempts] at hattempts
    rw [posted_length_eq, posted_length_eq, hattempts, List.count_append]
  · rw [h.forwarded, hc]

theorem Pays.of_settlement {n : Nat} {st st' : State} {charges : List Charge} {tries marks : List Bool} {repins : Nat}
    (h : Settles st st' charges tries marks repins) (hs : Settlement n charges tries) : Pays n st st' := by
  refine .of_settles h ?_
  rcases hs with ⟨rfl, ht⟩ | ⟨reason, hr, rfl, ht⟩
  · rw [ht]
    simp [charged]
  · have hne := (reason_ne hr).1
    rw [ht]
    simp [lossOf, charged, hne]

theorem processPendingEvent_pays (env : Env) (st : State) (e : PendingEvent) :
    Pays 1 st (processPendingEvent env st e) := by
  obtain ⟨charges, tries, marks, repins, hs, hset, -⟩ := processPendingEvent_settles env st e
  exact .of_settlement hs hset

theorem processPendingEnvelope_pays (env : Env) (st : State) (events : List PendingEvent) (fields : List Bytes) :
    Pays events.length st (processPendingEnvelope env st events fields) := by
  cases events with
  | nil => exact ⟨0, rfl, rfl⟩
  | cons first rest =>
    simp only [processPendingEnvelope]
    generalize (first :: rest).length = n
    have hsel := selectDb_quiet env st
    generalize selectDb env st = r at hsel
    obtain ⟨ok, st₁⟩ := r
    have hlost : ∀ {st₁ st₂ : State} {tries : List Bool} {reason : Counter}, Settles st st₁ [] tries [] 0 →
        Settles st₁ st₂ (lossOf n reason) [] [] 0 → isReason reason = true → tries.count true = 0 → Pays n st st₂ := by
      intro st₁ st₂ tries reason h hl hr ht
      obtain ⟨charges, hc, hset⟩ := settlement_lost h hl hr ht
      exact .of_settlement hc hset
    cases ok with
    | false => exact hlost hsel (countEventsLost_settles env st₁ n _ _ (c := .droppedXaddError) rfl) rfl rfl
    | true =>
      have ht := hsel.before (tagSegment_probed env st₁).quiet
      simp only
      generalize tagSegment env st₁ = r at ht
      obtain ⟨seg, st₂⟩ := r
      cases seg with
      | none =>
        -- without a slot each event is dropped by itself
        have hdrops : ∀ m, Pays n st
            ((List.range m).foldl (fun st _ => countNoSlotDrop env st .canonical true) st₂) := by
          intro m
          induction m with
          | zero => exact .of_settles ht (Nat.zero_mul n).symm
          | succ m ih =>
            rw [List.range_succ, List.foldl_append]
            obtain ⟨k, hk, hf⟩ := ih
            have hdrop : Pays n _ _ := .of_settles (countNoSlotDrop_settles env
              ((List.range m).foldl (fun st _ => countNoSlotDrop env st .canonical true) st₂)) (Nat.zero_mul n).symm
            obtain ⟨k', hk', hf'⟩ := hdrop
            refine ⟨k + k', ?_, ?_⟩
            · rw [← Nat.add_assoc, ← hk]
              exact hk'
            · rw [Nat.add_mul, ← Nat.add_assoc, ← hf]
              exact hf'
        exact hdrops n
      | some seg =>
        simp only
        cases hr : mirrorFields env st₂ first.pfx seg first.suffix fields first.dataRetention first.maxStreams
          .forwarded n with
        | mk o st₃ =>
          have h₃ := (mirrorFields_settles env st₂ first.pfx seg first.suffix fields first.dataRetention
            first.maxStreams n hr).after ht
          cases o with
          | written =>
            have hq : Quiet st₃ ((st₃.charge .canonical .asyncEnvelopes 1).charge .canonical .asyncEnvelopeEvents n) :=
              (charge_quiet _ n (by simp [isSettling, isReason]) (by decide) (by decide) (by decide)).after
                (charge_quiet st₃ 1 (by decide) (by decide) (by decide) (by decide))
            exact .of_settlement (h₃.before hq) (Or.inl ⟨rfl, rfl⟩)
          | oom stream msg =>
            exact hlost h₃ (countEventsLostStream_settles env st₃ n stream msg (c := .droppedOom) rfl) rfl rfl
          | failed stream msg =>
            exact hlost h₃ (countEventsLostStream_settles env st₃ n stream msg (c := .droppedXaddError) rfl) rfl rfl
          | slotMigrated | migrating msg =>
            exact hlost h₃ (countEventsLost_settles env st₃ n _ _ (c := .droppedMigrating) rfl) rfl rfl
          | maxStreams stream =>
            exact hlost h₃ (countEventsLost_settles env st₃ n _ _ (c := .droppedMaxStreams) rfl) rfl rfl
          | encodeError stream reason =>
            exact hlost h₃ (countEventsLost_settles env st₃ n _ _ (c := .droppedEncodeError) rfl) rfl rfl

/-! ## Posts -/

/-- An entry of a destination stream, and the call that wrote it. -/
structure Post where
  stream : Str
  call : Handoff
  fields : List Bytes

namespace Post

def entry (p : Post) : Bytes × List Bytes := (utf8 p.stream, p.fields)

/-- The fields are those of the events. -/
def Encoded (p : Post) : Prop :=
  match p.call with
  | .event e => ∃ seq, encodeEntryFields (entrySpec e seq) = .ok p.fields
  | .envelope _ fields => p.fields = fields

/-- The entry stands in the stream of the first event of its call. -/
structure Sound (p : Post) : Prop where
  stream : ∃ e ∈ p.call.events.head?, ∃ seg, IsSegment seg ∧ p.stream = streamOf e.pfx seg e.suffix
  encoded : p.Encoded

end Post

/-- The events of some posts, in their order. -/
def postedEvents (posts : List Post) : List PendingEvent := posts.flatMap fun p => p.call.events

/-- A task posts one entry or none, and its events are counted as forwarded if it does. -/
theorem Task.run_posts (env : Env) (st : State) (t : Task) : ∃ new : List Post,
    posted (t.run env st).trace = posted st.trace ++ new.map Post.entry ∧ (new.map Post.call).Sublist t.handoff ∧
      (t.run env st).value .forwarded = st.value .forwarded + (postedEvents new).length ∧ ∀ p ∈ new, p.Sound := by
  have htrail := t.run_trail env st
  -- what `Pays` says of none and of one entry
  have hnone : ∀ {n : Nat} {st' : State}, Pays n st st' → posted st'.trace = posted st.trace →
      st'.value .forwarded = st.value .forwarded := by
    rintro n st' ⟨k, hk, hf⟩ heq
    rw [heq] at hk
    obtain rfl : k = 0 := by omega
    rw [hf, Nat.zero_mul, Nat.add_zero]
  have hone : ∀ {n : Nat} {st' : State} {x : Bytes × List Bytes}, Pays n st st' →
      posted st'.trace = posted st.trace ++ [x] → st'.value .forwarded = st.value .forwarded + n := by
    rintro n st' x ⟨k, hk, hf⟩ heq
    rw [heq, List.length_append, List.length_singleton] at hk
    obtain rfl : k = 1 := by omega
    rw [hf, Nat.one_mul]
  have hquiet : ∀ {st' : State}, posted st'.trace = posted st.trace → st'.value .forwarded = st.value .forwarded →
      ∃ new : List Post, posted st'.trace = posted st.trace ++ new.map Post.entry ∧
        (new.map Post.call).Sublist t.handoff ∧
        st'.value .forwarded = st.value .forwarded + (postedEvents new).length ∧ ∀ p ∈ new, p.Sound := by
    intro st' heq hf
    exact ⟨[], by rw [heq, List.map_nil, List.append_nil], List.nil_sublist _, hf, List.forall_mem_nil _⟩
  cases t with
  | event q =>
    have hpays := processPendingEvent_pays env st q.event
    rcases htrail.posted (le_refl 1) with heq | ⟨key, nomk, trim, fields, hcall, heq⟩
    · exact hquiet heq (hnone hpays heq)
    · cases hcall with
      | canonical hseg hf hm =>
        rename_i seg fields'
        cases hm with
        | xadd =>
          refine ⟨[⟨_, .event q.event, fields⟩], heq, List.Sublist.refl _, hone hpays heq, ?_⟩
          exact List.forall_mem_singleton.2 ⟨⟨q.event, rfl, seg, hseg, rfl⟩, _, hf⟩
  | envelope qs fields =>
    have hpays := processPendingEnvelope_pays env st (qs.map Queued.event) fields
    rcases htrail.posted (le_refl 1) with heq | ⟨key, nomk, trim, fields', hcall, heq⟩
    · exact hquiet heq (hnone hpays heq)
    · rcases hcall with ⟨hprobe, -⟩ | ⟨q, hq, seg, hseg, -, hm⟩
      · cases hprobe
      · cases hm with
        | xadd =>
          refine ⟨[⟨_, .envelope (qs.map Queued.event) fields, fields⟩], heq, List.Sublist.refl _, ?_, ?_⟩
          · rw [postedEvents, List.flatMap_singleton]
            exact hone hpays heq
          · refine List.forall_mem_singleton.2 ⟨⟨q.event, ?_, seg, hseg, rfl⟩, rfl⟩
            change q.event ∈ (qs.map Queued.event).head?
            rw [List.head?_map, hq]
            rfl
  | marker control retention m =>
    refine hquiet (htrail.posted_eq ?_ (Nat.zero_le 1)) ?_
    · rintro cmd ⟨hwhy, -⟩
      cases hwhy
    · exact writeControlEntry_value env st control _ retention _ _ (by decide)
  | noSlot m => exact hquiet (htrail.posted_eq (fun _ h => h) (Nat.zero_le 1)) rfl
  | checkpoint control retention =>
    refine hquiet (htrail.posted_eq ?_ (Nat.zero_le 1)) ?_
    · rintro cmd ⟨hwhy, -⟩
      cases hwhy
    · exact writeControlEntry_value env st control _ retention _ _ (by decide)

namespace Node

section Posts

variable {setup : Setup} {env : Env} {n n' : Node} {posts : List Post}

/-- The entries of the destination streams so far: each was written by a call of a processor, in that order, and the
events in them are those counted as forwarded. -/
structure Posted (n : Node) (posts : List Post) : Prop where
  trace : posted n.st.trace = posts.map Post.entry
  calls : (posts.map Post.call).Sublist n.calls
  forwarded : n.st.value .forwarded = (postedEvents posts).length
  sound : ∀ p ∈ posts, p.Sound
  stems : ∀ p ∈ posts, ∀ e ∈ p.call.events, Stems n.st.config e

theorem calls_eq (n : Node) : n.calls = n.tasksDone.flatMap Task.handoff := by
  rw [calls, tasksDone]
  induction n.history with
  | nil => rfl
  | cons d ds ih =>
    rw [List.flatMap_cons, ih]
    cases hd : d.task with
    | none => simp [hd]
    | some t => simp [hd]

theorem calls_events (n : Node) : n.calls.flatMap Handoff.events = n.handed.map Queued.event := by
  rw [calls_eq, handed_eq, List.flatMap_assoc, List.map_flatMap]
  refine List.flatMap_congr fun t _ => ?_
  cases t with
  | envelope qs fields => exact List.append_nil _
  | event | marker | noSlot | checkpoint => rfl

/-- A step that processes no task posts nothing and forwards nothing. -/
theorem step_unposted {act : Act} (h : step setup env n act = some n') (hp : n.processed act = []) :
    posted n'.st.trace = posted n.st.trace ∧ n'.st.value .forwarded = n.st.value .forwarded := by
  constructor
  · have hturn := step_turn h
    generalize n'.st = st' at hturn
    cases hturn with
    | command op hop =>
      obtain ⟨upkeep, htrace, hup⟩ := command_trace env n.st hop
      have hnone : posted upkeep = [] := by
        refine List.filterMap_eq_nil_iff.2 fun o ho => ?_
        have hkeep := hup o ho
        cases o with
        | cleared | pruned name => rfl
        | call why cmd ok =>
          obtain ⟨rfl, -⟩ := removal_of_upkeep hkeep
          rfl
      rw [htrace, posted_append, hnone, List.append_nil]
    | process task todo ht =>
      rw [processed, ht] at hp
      cases hp
    | setting _ hset => rw [hset.trace]
    | idle htrail =>
      refine htrail.posted_eq ?_ (Nat.zero_le 1)
      rintro cmd ⟨hwhy, -⟩
      cases hwhy
  · cases hwork : isWork act with
    | false => exact step_value h hwork (by decide)
    | true =>
      cases step_fires h with
      | notify _ => exact (onKeyspaceEvent_counts setup env n _ _ _ _ _ _ _).2.1
      | process ht =>
        rw [processed, ht] at hp
        cases hp
      | _ => cases hwork

theorem handoff_stems {config : Config} {pfx : Str} {t : Task} (h : t.From setup pfx (Stems config)) {call : Handoff}
    (hcall : call ∈ t.handoff) : ∀ e ∈ call.events, Stems config e := by
  cases t with
  | event q =>
    rw [List.mem_singleton.1 hcall]
    exact List.forall_mem_singleton.2 h
  | envelope qs fields =>
    rw [List.mem_singleton.1 hcall]
    intro e he
    obtain ⟨q, hq, rfl⟩ := List.mem_map.1 he
    exact h.2.2.2 q hq
  | marker | noSlot | checkpoint => cases hcall

theorem step_posted {act : Act} (h : step setup env n act = some n')
    (hfrom : ∀ t ∈ n.todo, t.From setup n.st.config.pfx (Stems n.st.config)) (hp : Posted n posts) :
    ∃ posts', Posted n' posts' := by
  have hcalls : n'.calls = n.calls ++ (n.processed act).flatMap Task.handoff := by
    rw [calls_eq, calls_eq, step_tasksDone h, List.flatMap_append]
  cases htask : n.processed act with
  | nil =>
    obtain ⟨htrace, hf⟩ := step_unposted h htask
    rw [htask, List.flatMap_nil, List.append_nil] at hcalls
    exact ⟨posts, htrace.trans hp.trace, hcalls ▸ hp.calls, hf.trans hp.forwarded, hp.sound, stems_eq h ▸ hp.stems⟩
  | cons task rest =>
    obtain ⟨hone, htodo, hst⟩ := step_process h (htask ▸ List.mem_cons_self)
    obtain ⟨new, htrace, hsub, hf, hsound⟩ := task.run_posts env n.st
    rw [hone, List.flatMap_singleton] at hcalls
    refine ⟨posts ++ new, ?_, ?_, ?_, ?_, ?_⟩
    · rw [hst, htrace, hp.trace, List.map_append]
    · rw [hcalls, List.map_append]
      exact hp.calls.append hsub
    · rw [hst, hf, hp.forwarded, postedEvents, postedEvents, postedEvents, List.flatMap_append, List.length_append]
    · intro p hmem
      rcases List.mem_append.1 hmem with hmem | hmem
      · exact hp.sound p hmem
      · exact hsound p hmem
    · rw [stems_eq h]
      intro p hmem
      rcases List.mem_append.1 hmem with hmem | hmem
      · exact hp.stems p hmem
      · exact handoff_stems (hfrom task htodo) (hsub.subset (List.mem_map_of_mem hmem))

theorem Reach.posted {allowed : Node → Act → Prop} (h : Reach setup env allowed n) : ∃ posts, Posted n posts := by
  refine Machine.Reach.invariant (I := fun n => ∃ posts, Posted n posts) (fun n hl => ?_)
    (fun _ _ _ hr _ hs ⟨posts, hp⟩ => step_posted hs (Reach.stemmed hr).todo hp) h
  have hzero := (loaded_zero hl).1 .forwarded
  obtain ⟨config, host, ks, generation, master, loading, mode, -, rfl⟩ := hl
  obtain ⟨_, _, _, hst⟩ := loadedState_eq env config host.cluster ks generation master loading
  refine ⟨[], ?_, List.nil_sublist _, hzero, List.forall_mem_nil _, List.forall_mem_nil _⟩
  rw [initial, hst]
  rfl

/-- What was handed over is a part of what was dispatched, in the order of the dispatch. -/
theorem Reach.handed_sublist (h : Reach setup env (fun _ act => obtainsContext act = true) n) :
    n.handed.Sublist n.dispatched := by
  by_cases hmode : setup.mode = .sync
  · obtain ⟨hasc, hsub, -, hkeys⟩ := sync_handed hmode h
    exact hasc.sublist_of_subset (.of_range hkeys) hsub
  · obtain ⟨rest, hsplit, -⟩ := (events_in_order hmode h.settled).split
    have hpre : n.handed <+: n.survivors := by
      rw [hsplit, List.append_assoc]
      exact List.prefix_append _ _
    exact hpre.sublist.trans List.filter_sublist

end Posts

end Node

/-! ## Streams that hold the posts -/

/-- A stream that holds what was posted to it, as a reader of the server sees it: nothing was removed or added by
others. -/
def Holds (trace : List Occurrence) (stream : Str) (log : List Item) : Prop :=
  List.Forall₂ (fun (item : Item) (x : Bytes × List Bytes) => Client.fieldMap x.2 = some item.fields) log
    ((posted trace).filter fun x => x.1 = utf8 stream)

/-- The stream and the events of every post, one by one. -/
def writtenEvents (posts : List Post) : List (Str × PendingEvent) :=
  posts.flatMap fun p => p.call.events.map fun e => (p.stream, e)

theorem writtenEvents_events (posts : List Post) : (writtenEvents posts).map Prod.snd = postedEvents posts := by
  rw [writtenEvents, postedEvents, List.map_flatMap]
  refine List.flatMap_congr fun p _ => ?_
  rw [List.map_map]
  exact List.map_id _

theorem writtenEvents_filter (posts : List Post) (s : Str) :
    (writtenEvents posts).filter (fun w => w.1 = s) = writtenEvents (posts.filter fun p => p.stream = s) := by
  induction posts with
  | nil => rfl
  | cons p posts ih =>
    rw [writtenEvents, List.flatMap_cons, List.filter_append]
    by_cases hs : p.stream = s
    · rw [List.filter_cons_of_pos (by simpa using hs), writtenEvents, List.flatMap_cons]
      congr 1
      rw [List.filter_eq_self]
      intro w hw
      obtain ⟨e, -, rfl⟩ := List.mem_map.1 hw
      exact decide_eq_true hs
    · rw [List.filter_cons_of_neg (by simpa using hs)]
      refine (congrArg (· ++ _) (List.filter_eq_nil_iff.2 ?_)).trans ih
      intro w hw
      obtain ⟨e, -, rfl⟩ := List.mem_map.1 hw
      simpa using hs

/-- What a client decodes from the entry of a post: the records of its events, of which there is one at least. -/
theorem Post.decoded {crates : Crates} {p : Post} (stream : Str) (hc : crates.Standard) (hp : p.Sound)
    (hf : Faithful p.call) {item : Item} (hitem : Client.fieldMap p.fields = some item.fields) :
    ∃ events, decodeEntry crates (item.physical stream) = .ok events ∧ events ≠ [] ∧
      events.map readRecord = p.call.events.map recordOf := by
  have hexpand : ∀ {events : List Client.LogicalEvent},
      expandEntry crates stream ⟨item.id.text, p.fields⟩ = some events →
      events.map readRecord = p.call.events.map recordOf →
      ∃ events, decodeEntry crates (item.physical stream) = .ok events ∧
        events ≠ [] ∧ events.map readRecord = p.call.events.map recordOf := by
    intro events hexp hrec
    have hphysical : Client.PhysicalEntry.ofFields stream item.id.text p.fields = some (item.physical stream) := by
      rw [Client.PhysicalEntry.ofFields, hitem]
      rfl
    rw [expandEntry, hphysical, Option.bind_some] at hexp
    refine ⟨events, ?_, ?_, hrec⟩
    · cases hd : decodeEntry crates (item.physical stream) with
      | error e =>
        rw [hd] at hexp
        cases hexp
      | ok events' =>
        rw [hd] at hexp
        exact congrArg Except.ok (Option.some.inj hexp)
    · rintro rfl
      obtain ⟨e, he, -⟩ := hp.stream
      cases hcall : p.call.events with
      | nil =>
        rw [hcall] at he
        cases he
      | cons e' rest =>
        rw [hcall] at hrec
        cases hrec
  obtain ⟨s, call, fields⟩ := p
  rcases hf with ⟨e, rfl, hfixed⟩ | ⟨group, rfl, hg, hlen⟩
  · obtain ⟨seq, henc⟩ := hp.encoded
    obtain ⟨fields', events, henc', hexp, hrec⟩ := expandEntry_fixed crates stream item.id.text seq hfixed
    rw [henc] at henc'
    injection henc' with hfields
    subst hfields
    exact hexpand hexp hrec
  · obtain rfl : fields = encodeBatchFields (group.map Queued.event) := hp.encoded
    have hle : (group.map Queued.event).length ≤ Client.usizeMax := by
      rw [List.length_map]
      exact hlen
    obtain ⟨events, hexp, hrec⟩ := expandEntry_batch hc stream item.id.text hle
    exact hexpand hexp hrec

section Holds

variable {crates : Crates} {stream : Str} {log : List Item} {posts : List Post}

/-- The entries of a stream belong to the posts of the stream. -/
theorem posts_of_holds {trace : List Occurrence} (h : Holds trace stream log)
    (ht : posted trace = posts.map Post.entry) :
    List.Forall₂ (fun (item : Item) (p : Post) => Client.fieldMap p.fields = some item.fields) log
      (posts.filter fun p => p.stream = stream) := by
  have hfilter : (posted trace).filter (fun x => x.1 = utf8 stream) =
      (posts.filter fun p => p.stream = stream).map Post.entry := by
    rw [ht, List.filter_map]
    congr 1
    refine List.filter_congr fun p _ => ?_
    exact decide_eq_decide.2 ⟨Text.utf8_injective, congrArg utf8⟩
  rw [Holds, hfilter, List.forall₂_map_right_iff] at h
  exact h

/-- A stream decodes to the records of its posts, in their order. -/
theorem decoded_of_posts (hc : crates.Standard)
    (h : List.Forall₂ (fun (item : Item) (p : Post) => Client.fieldMap p.fields = some item.fields) log posts)
    (hsound : ∀ p ∈ posts, p.Sound ∧ Faithful p.call) :
    (∀ item ∈ log, decodeEntry crates (item.physical stream) ≠ .ok []) ∧
      (log.flatMap fun item => returned (decodeEntry crates (item.physical stream))).map readRecord =
        (writtenEvents posts).map fun w => recordOf w.2 := by
  induction h with
  | nil => exact ⟨List.forall_mem_nil _, rfl⟩
  | @cons item p log posts hitem _ ih =>
    obtain ⟨⟨hp, hf⟩, hrest⟩ := List.forall_mem_cons.1 hsound
    obtain ⟨events, hdec, hne, hrec⟩ := Post.decoded stream hc hp hf hitem
    obtain ⟨hnone, heq⟩ := ih hrest
    refine ⟨List.forall_mem_cons.2 ⟨?_, hnone⟩, ?_⟩
    · rw [hdec]
      exact fun h => hne (Except.ok.inj h)
    · rw [List.flatMap_cons, List.map_append, heq, hdec, writtenEvents, writtenEvents, List.flatMap_cons,
        List.map_append, List.map_map]
      exact congrArg (· ++ _) hrec

end Holds

namespace Node

variable {setup : Setup} {env : Env} {n : Node} {posts : List Post}

/-- The calls of a run whose events are fixed can be read. -/
theorem Posted.readable {allowed : Node → Act → Prop} (hp : Posted n posts) (h : Reach setup env allowed n)
    (hbatch : setup.batch ≤ Client.usizeMax) (hfixed : ∀ q ∈ n.dispatched, q.event.format = .fixed) :
    ∀ p ∈ posts, p.Sound ∧ Faithful p.call := by
  intro p hmem
  refine ⟨hp.sound p hmem, ?_⟩
  refine h.cut.faithful hbatch (fun q hq => hfixed q ?_) p.call
    (List.mem_append_left _ (hp.calls.subset (List.mem_map_of_mem hmem)))
  refine h.placed.subset (List.mem_append_left _ ?_)
  rcases List.mem_append.1 hq with hq | hq
  · exact List.mem_append_left _ hq
  · exact List.mem_append_right _ (List.mem_append_left _ (List.mem_append_left _ (List.mem_append_left _ hq)))

/-- The events of a post stand in the stream of their names. -/
theorem written_stream {p : Post} (hp : p.Sound) (hf : Faithful p.call) :
    ∃ seg, IsSegment seg ∧ ∀ e ∈ p.call.events, p.stream = streamOf e.pfx seg e.suffix := by
  obtain ⟨first, hfirst, seg, hseg, hstream⟩ := hp.stream
  refine ⟨seg, hseg, ?_⟩
  rcases hf with ⟨e, hcall, -⟩ | ⟨group, hcall, ⟨q, rest, rfl, hcomp⟩, -⟩
  · rw [hcall] at hfirst ⊢
    cases hfirst
    exact List.forall_mem_singleton.2 hstream
  · rw [hcall] at hfirst ⊢
    cases hfirst
    intro e he
    obtain ⟨q', hq', rfl⟩ := List.mem_map.1 he
    obtain ⟨hpfx, hsuffix, -, -⟩ := envelopeCompatible_iff.1 (hcomp q' hq')
    rw [← hpfx, ← hsuffix]
    exact hstream

theorem Posted.written_length (hp : Posted n posts) : (writtenEvents posts).length = n.st.value .forwarded := by
  rw [hp.forwarded, ← writtenEvents_events, List.length_map]

theorem Posted.written_handed (hp : Posted n posts) :
    ((writtenEvents posts).map Prod.snd).Sublist (n.handed.map Queued.event) := by
  have hmap : postedEvents posts =
      (posts.map Post.call).flatMap Handoff.events := by rw [postedEvents, List.flatMap_map]
  rw [writtenEvents_events, hmap, ← n.calls_events]
  exact hp.calls.flatMap _

/-- Every written event was dispatched, and is written as often as it was dispatched at most. -/
theorem Posted.written_subperm {allowed : Node → Act → Prop} (hp : Posted n posts) (h : Reach setup env allowed n) :
    ((writtenEvents posts).map Prod.snd).Subperm (n.dispatched.map Queued.event) := by
  have hhanded : n.handed.Sublist (n.handed ++ n.inFlight ++ n.lost) := by
    rw [List.append_assoc]
    exact List.sublist_append_left _ _
  exact (hp.written_handed.trans (hhanded.map _)).subperm.trans (h.placed.map _).subperm

theorem Posted.written_sublist (hp : Posted n posts) (h : Reach setup env (fun _ act => obtainsContext act = true) n) :
    ((writtenEvents posts).map Prod.snd).Sublist (n.dispatched.map Queued.event) :=
  hp.written_handed.trans ((Reach.handed_sublist h).map _)

/-- The post of a written event. -/
theorem Posted.of_written {w : Str × PendingEvent} (hw : w ∈ writtenEvents posts) :
    ∃ p ∈ posts, w.1 = p.stream ∧ w.2 ∈ p.call.events := by
  obtain ⟨p, hp, hmem⟩ := List.mem_flatMap.1 hw
  obtain ⟨e, he, rfl⟩ := List.mem_map.1 hmem
  exact ⟨p, hp, rfl, he⟩

theorem Posted.written_named (hreadable : ∀ p ∈ posts, p.Sound ∧ Faithful p.call) {w : Str × PendingEvent}
    (hw : w ∈ writtenEvents posts) : ∃ seg, IsSegment seg ∧ w.1 = streamOf w.2.pfx seg w.2.suffix := by
  obtain ⟨p, hp, hstream, he⟩ := of_written hw
  obtain ⟨seg, hseg, hall⟩ := written_stream (hreadable p hp).1 (hreadable p hp).2
  exact ⟨seg, hseg, hstream.trans (hall w.2 he)⟩

end Node

/-- What a consumer that returns because it is idle has delivered of a stream, if the streams held some posts when its
last round began, and some when it ended. -/
theorem delivered_of_posts {crates : Crates} (hc : crates.Standard) {pfx : Str} {options : ConsumeOptions}
    (hzero : options.fromZero = true) {c : Consumer} (hreach : c.Reach crates pfx options) (hrun : c.outcome = none)
    {p : Pass} (hidle : (c.pass crates pfx options p).outcome = some .idle) (hok : ∀ i, p.traffic.fails i = false)
    {trace trace' : List Occurrence} {posts posts' : List Post} (ht : posted trace = posts.map Post.entry)
    (ht' : posted trace' = posts'.map Post.entry) (hreadable : ∀ p ∈ posts, p.Sound ∧ Faithful p.call)
    (hreadable' : ∀ p ∈ posts', p.Sound ∧ Faithful p.call)
    (hlogs : ∀ s ∈ c.world.reader.streams, Holds trace s (c.world.logs s))
    (hlogs' : ∀ s ∈ c.world.reader.streams, Holds trace' s ((c.pass crates pfx options p).world.logs s)) {s : Str}
    (hs : s ∈ c.world.reader.streams) :
    ((c.pass crates pfx options p).delivered.filter fun ev => ev.source.physical.stream = s).map readRecord =
      ((writtenEvents posts).filter fun w => w.1 = s).map fun w => recordOf w.2 := by
  have hpart : ∀ (s : Str) (posts : List Post), (∀ p ∈ posts, p.Sound ∧ Faithful p.call) →
      ∀ p ∈ posts.filter fun p => p.stream = s, p.Sound ∧ Faithful p.call :=
    fun s posts hall p hp => hall p (List.mem_of_mem_filter hp)
  have hevents : ∀ s ∈ c.world.reader.streams, ∀ item ∈ (c.pass crates pfx options p).world.logs s,
      decodeEntry crates (item.physical s) ≠ .ok [] := fun s hs =>
    (decoded_of_posts hc (posts_of_holds (hlogs' s hs) ht') (hpart s posts' hreadable')).1
  obtain ⟨hempty, hdelivered⟩ := Consumer.idle_round hreach.exact.covers hrun hidle hevents
  obtain ⟨start, a, -, ha, hstart, -, hstream⟩ := hreach.exact.delivered_of_stream hrun hempty hok hs
  rw [hstart hzero, Client.cursorKey_zeroCursor] at ha
  have hwhole : (c.world.logs s).filter (fun item => a < item.key) = c.world.logs s := by
    rw [← Option.some.inj ha]
    exact List.filter_eq_self.2 fun item _ => decide_eq_true item.id.zero_lt_key
  rw [hdelivered, hstream, hwhole, writtenEvents_filter]
  exact (decoded_of_posts hc (posts_of_holds (hlogs s hs) ht) (hpart s posts hreadable)).2

/-- **What was captured is what is delivered.** Take any run of a node, in any mode, whose events have the fixed format,
and streams that hold what the node wrote to them; let a consumer read some of them from the beginning and return
because it is idle, with no request of its last round failing (`n` is the node when that round begins, `n'` when it
ends). Then there is a list of the events written, each in a stream of its name: events that were dispatched, each as
often at most, as many as are counted as forwarded, and in the order of the dispatch if the worker obtained its context.
And from every stream that the consumer reads it has delivered the events written there before its last round, each
once, with their names, keys and databases, in the order in which they were written. -/
theorem captured_events_delivered (setup : Setup) (env : Env) (n n' : Node) (hbatch : setup.batch ≤ Client.usizeMax)
    (h : n.Reach setup env fun _ _ => True) (h' : n'.Reach setup env fun _ _ => True)
    (hfixed : ∀ q ∈ n.dispatched, q.event.format = .fixed) (hfixed' : ∀ q ∈ n'.dispatched, q.event.format = .fixed)
    (crates : Crates) (hc : crates.Standard) (pfx : Str) (options : ConsumeOptions) (hzero : options.fromZero = true)
    (c : Consumer) (hreach : c.Reach crates pfx options) (hrun : c.outcome = none) (p : Pass)
    (hidle : (c.pass crates pfx options p).outcome = some .idle) (hok : ∀ i, p.traffic.fails i = false)
    (hlogs : ∀ s ∈ c.world.reader.streams, Holds n.st.trace s (c.world.logs s))
    (hlogs' : ∀ s ∈ c.world.reader.streams, Holds n'.st.trace s ((c.pass crates pfx options p).world.logs s)) :
    ∃ written : List (Str × PendingEvent),
      (written.map Prod.snd).Subperm (n.dispatched.map Queued.event) ∧
      (n.Reach setup env (fun _ act => Node.obtainsContext act = true) →
        (written.map Prod.snd).Sublist (n.dispatched.map Queued.event)) ∧
      written.length = n.st.value .forwarded ∧
      (∀ w ∈ written, ∃ seg, IsSegment seg ∧ w.1 = streamOf w.2.pfx seg w.2.suffix) ∧
      ∀ s ∈ c.world.reader.streams,
        ((c.pass crates pfx options p).delivered.filter fun ev => ev.source.physical.stream = s).map readRecord =
          (written.filter fun w => w.1 = s).map fun w => recordOf w.2 := by
  obtain ⟨posts, hposts⟩ := Node.Reach.posted h
  obtain ⟨posts', hposts'⟩ := Node.Reach.posted h'
  have hreadable := hposts.readable h hbatch hfixed
  have hreadable' := hposts'.readable h' hbatch hfixed'
  exact ⟨writtenEvents posts, hposts.written_subperm h, hposts.written_sublist, hposts.written_length,
    fun w => Node.Posted.written_named hreadable,
    fun s => delivered_of_posts hc hzero hreach hrun hidle hok hposts.trace hposts'.trace hreadable
      hreadable' hlogs hlogs'⟩

/-- An event that is queued; the marker of the load is written first, and then the worker writes the event. -/
def oneWritten : List Node.Act :=
  [.workerStart true, Node.expire [97], .runJob, .process, .release, .workerWake, .workerPrepare, .workerLock, .process]

/-- The entry of that event, and the stream that holds it. -/
def expiredFields : List Bytes := [lit "event", lit "expired", lit "key", [97], lit "db", lit "0"]

def expiredItem : Item :=
  { Client.plainItem 1 Client.one_valid with fields := (Client.fieldMap expiredFields).getD fun _ => none }

def expiredLogs : Client.Logs := fun s => if s = "events:expired".toList then [expiredItem] else []

/-- A consumer that has read the stream once. -/
def expiredRead : Consumer :=
  (Consumer.start "events:".toList (Client.tailing none) expiredLogs .quiet ["events:expired".toList] 0 (some 0)).pass
    .reference "events:".toList (Client.tailing none) Client.halfSecond

theorem expiredRead_reach : expiredRead.Reach .reference "events:".toList (Client.tailing none) := by
  have hstart : Consumer.Reach .reference "events:".toList (Client.tailing none)
      (Consumer.start "events:".toList (Client.tailing none) expiredLogs .quiet ["events:expired".toList] 0
        (some 0)) := by
    refine .start ⟨expiredLogs, .quiet, ["events:expired".toList], 0, some 0, fun s => ?_, rfl⟩
    unfold expiredLogs
    split
    · exact List.pairwise_singleton _ _
    · exact List.Pairwise.nil
  exact hstart.next trivial ⟨by decide +kernel, rfl⟩

/-- A node whose worker has written the event. -/
theorem oneWritten_reach : ∃ n : Node, n.Reach Node.narrow .calm (fun _ act => Node.obtainsContext act = true) ∧
    n.st.value .forwarded = 1 ∧ posted n.st.trace = [(utf8 "events:expired".toList, expiredFields)] ∧
    n.st.config.pfx = "events:".toList ∧ ∀ q ∈ n.dispatched, q.event.format = .fixed := by
  have hrun : (Machine.run (Node.step Node.narrow .calm) (fun _ act => Node.obtainsContext act = true) Node.narrowLoad
      oneWritten).map (fun n => (n.st.value .forwarded, posted n.st.trace)) =
      some (1, [(utf8 "events:expired".toList, expiredFields)]) := by decide +kernel
  obtain ⟨n, hn, hvalues⟩ := Option.map_eq_some_iff.1 hrun
  obtain ⟨hforwarded, hposted⟩ := Prod.mk.inj hvalues
  have hsettings : (Machine.run (Node.step Node.narrow .calm) (fun _ act => Node.obtainsContext act = true)
      Node.narrowLoad oneWritten).map (fun n => (n.st.config.pfx, n.dispatched.map fun q => q.event.format)) =
      some ("events:".toList, [.fixed]) := by decide +kernel
  rw [hn] at hsettings
  obtain ⟨hpfx, hformats⟩ := Prod.mk.inj (Option.some.inj hsettings)
  refine ⟨n, Machine.reach_of_run (.start Node.narrowLoad_loaded) hn, hforwarded, hposted, hpfx, fun q hq => ?_⟩
  have hmem := List.mem_map_of_mem (f := fun q : Queued => q.event.format) hq
  rw [hformats] at hmem
  exact List.mem_singleton.1 hmem

/-- The stream holds it, and the others hold nothing. -/
theorem expiredLogs_holds {trace : List Occurrence} (h : posted trace = [(utf8 "events:expired".toList, expiredFields)])
    (s : Str) : Holds trace s (expiredLogs s) := by
  have hsome : (Client.fieldMap expiredFields).isSome = true := by decide +kernel
  rw [Holds, h, expiredLogs]
  by_cases hs : s = "events:expired".toList
  · rw [if_pos hs, hs, List.filter_cons_of_pos (by simp)]
    refine .cons ?_ .nil
    obtain ⟨fields, hfields⟩ := Option.isSome_iff_exists.1 hsome
    rw [expiredItem, hfields]
    rfl
  · have hne : utf8 "events:expired".toList ≠ utf8 s := fun he => hs (Text.utf8_injective he).symm
    generalize "events:expired".toList = name at *
    rw [if_neg hs, List.filter_cons_of_neg (by simpa using hne)]
    exact .nil

theorem captured_events_delivered_one : ∃ (n : Node) (c : Consumer), n.st.value .forwarded = 1 ∧
    ∃ written : List (Str × PendingEvent), written.length = 1 ∧
      (written.map Prod.snd).Sublist (n.dispatched.map Queued.event) ∧
      ((c.pass .reference "events:".toList (Client.tailing none) Client.halfSecond).delivered.filter
          fun ev => ev.source.physical.stream = "events:expired".toList).map readRecord =
        (written.filter fun w => w.1 = "events:expired".toList).map fun w => recordOf w.2 := by
  obtain ⟨n, hreach, hforwarded, hposted, -, hfixed⟩ := oneWritten_reach
  have hany : n.Reach Node.narrow .calm fun _ _ => True := Machine.Reach.strengthen hreach fun _ _ _ _ _ _ => trivial
  obtain ⟨written, -, horder, hlen, -, hall⟩ := captured_events_delivered Node.narrow .calm n n (by decide) hany hany
    hfixed hfixed .reference Client.Crates.reference_standard "events:".toList (Client.tailing none) rfl expiredRead
    expiredRead_reach (by decide +kernel) Client.halfSecond (by decide +kernel) (fun _ => rfl)
    (fun s _ => expiredLogs_holds hposted s) fun s _ => expiredLogs_holds hposted s
  exact ⟨n, expiredRead, hforwarded, written, hlen.trans hforwarded, horder hreach, hall _ List.mem_cons_self⟩

end EventStream

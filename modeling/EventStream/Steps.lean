import EventStream.Capture
import Mathlib.Logic.Relation

/-!
# The small steps of the capture path

What a call of a processor can do to the per-stream records, the cap counter, the keyspace and the trace, said once.

* `Micro`: the six small steps. A mirrored write is one of them, with its registration and its consumer group.
* `processPendingEvent_steps`, `processPendingEnvelope_steps`, `process_steps`: a processor takes small steps only, and
  its mirrored writes are those of its events.
* `Steps.invariant`: what every small step keeps, a processor keeps.
-/

namespace EventStream

open Text (Str Bytes utf8)

/-! ## Writes -/

/-- What identifies a mirrored write: its purpose, the three parts of its stream's name and the cap it is subject to. -/
structure Write where
  why : Purpose
  pfx : Str
  seg : Str
  suffix : Str
  maxStreams : Int

namespace Write

def stream (w : Write) : Str := streamOf w.pfx w.seg w.suffix

def registry (w : Write) : Str := registryOf w.pfx w.seg

/-- The writes made for an event: its canonical entry and its firehose copy, which is exempt from the cap. -/
def Of (e : PendingEvent) (w : Write) : Prop :=
  w.pfx = e.pfx ∧ ((w.why = .canonical ∧ w.suffix = e.suffix ∧ w.maxStreams = e.maxStreams) ∨
    (w.why = .firehose ∧ w.suffix = "#firehose".toList ∧ w.maxStreams = 0))

end Write

/-- A tag segment: empty outside per-node mode, a braced tag in it. -/
def SegmentOf (config : Config) (seg : Str) : Prop :=
  (config.perNode = false → seg = []) ∧ (seg = [] ∨ ∃ tag, seg = braced tag)

/-- The key of an executed mirrored write. -/
def mirroredKey : Occurrence → Option Bytes
  | .call why (.xadd key _ _ _) true => if why = .canonical ∨ why = .firehose then some key else none
  | _ => none

/-! ## Small steps -/

/-- What only notifications and lifecycle points change: the pending markers, the two ghost counts and the role. -/
def State.standing (st : State) : List Recorded × Bool × Nat × Nat × Bool × Bool :=
  (st.pendingMarkers, st.markersDirty, st.recorded, st.selected, st.master, st.loading)

/-- A charge for a job that could not be registered. -/
def isDeferral (x : Charge) : Bool := x.counter = .droppedDeferError || (x.why = .dispatch && x.counter = .eventsLost)

def State.deferrals (st : State) : List Charge := st.counters.ledger.filter isDeferral

/-- The counters no invariant follows by themselves. -/
def Counter.isPlain : Counter → Bool
  | .activeStreams | .droppedDeferError | .eventsLost => false
  | _ => true

theorem isDeferral_plain (why : Purpose) {c : Counter} (n : Nat) (hc : c.isPlain = true) :
    isDeferral ⟨why, c, n⟩ = false := by
  have h₁ : c ≠ .droppedDeferError := by
    rintro rfl
    cases hc
  have h₂ : c ≠ .eventsLost := by
    rintro rfl
    cases hc
  simp [isDeferral, h₁, h₂]

/-- What no small step changes; the ledger and the trace only grow. -/
structure Frame (st st' : State) : Prop where
  config : st'.config = st.config
  standing : st'.standing = st.standing
  deferrals : st'.deferrals = st.deferrals
  ledger : st.counters.ledger <+: st'.counters.ledger
  longer : st.trace <+: st'.trace

namespace Frame

theorem refl (st : State) : Frame st st := ⟨rfl, rfl, rfl, List.prefix_refl _, List.prefix_refl _⟩

theorem trans {st st' st'' : State} (h : Frame st st') (h' : Frame st' st'') : Frame st st'' :=
  ⟨h'.config.trans h.config, h'.standing.trans h.standing, h'.deferrals.trans h.deferrals, h.ledger.trans h'.ledger,
    h.longer.trans h'.longer⟩

theorem value_le {st st' : State} (h : Frame st st') (c : Counter) : st.value c ≤ st'.value c := by
  obtain ⟨more, e⟩ := h.ledger
  rw [State.value, State.value, st.counters.balanced, st'.counters.balanced, ← e, charged_append]
  omega

theorem of_eq {st st' : State} (hconf : st'.config = st.config) (hst : st'.standing = st.standing)
    (hcnt : st'.counters = st.counters) (ht : st.trace <+: st'.trace) : Frame st st' :=
  ⟨hconf, hst, by rw [State.deferrals, State.deferrals, hcnt], hcnt ▸ List.prefix_refl _, ht⟩

theorem of_charge (st : State) {why : Purpose} {c : Counter} {n : Nat} (h : isDeferral ⟨why, c, n⟩ = false) :
    Frame st (st.charge why c n) := by
  refine ⟨rfl, rfl, ?_, List.prefix_append _ _, List.prefix_refl _⟩
  simp [State.deferrals, State.charge, h]

theorem of_call {env : Env} {st st' : State} {why : Purpose} {cmd : Command} {opts : CallOptions} {r : Except Str Unit}
    (h : call env st why cmd opts = (r, st')) : Frame st st' := by
  cases r with
  | ok _ =>
    obtain ⟨ks, _, rfl⟩ := call_ok h
    exact of_eq rfl rfl rfl (List.prefix_append _ _)
  | error msg =>
    rw [call_error h]
    exact of_eq rfl rfl rfl (List.prefix_append _ _)

theorem of_probed {st st' : State} (h : Probed st st') : Frame st st' := by
  obtain ⟨_, _, _, _, _, rfl, _, _⟩ := h
  exact of_eq rfl rfl rfl (List.prefix_append _ _)

end Frame

/-- Bookkeeping: logs, latches, clocks, cached tags, and counters other than that of the streams. -/
structure Aside (st st' : State) : Prop extends Frame st st' where
  streamStats : st'.streamStats = st.streamStats
  currentStreams : st'.currentStreams = st.currentStreams
  keyspace : st'.keyspace = st.keyspace
  trace : st'.trace = st.trace
  active : st'.value .activeStreams = st.value .activeStreams

/-- Two records that agree on the bits the write path dedupes on. -/
def SameBits (s s' : StreamStats) : Prop :=
  s'.counted = s.counted ∧ s'.registered = s.registered ∧ s'.groupCreated = s.groupCreated

/-- One small step of the capture path whose mirrored writes satisfy `ok`. -/
inductive Micro (env : Env) (ok : Write → Prop) : State → State → Prop
  | aside {st st' : State} (h : Aside st st') : Micro env ok st st'
  | probed {st st' : State} (h : Probed st st') : Micro env ok st st'
  | record (st : State) (stream : Str) (s : StreamStats) (h : SameBits (st.stats stream) s) :
      Micro env ok st (st.setStats stream s)
  | refused {st st' : State} (why : Purpose) (cmd : Command) (opts : CallOptions) (msg : Str)
      (h : call env st why cmd opts = (.error msg, st')) : Micro env ok st st'
  | control {st st' : State} (why : Purpose) (key : Bytes) (trim : Option (TrimKeyword × Str)) (fields : List Bytes)
      (opts : CallOptions) (hw : why = .marker ∨ why = .checkpoint)
      (h : call env st why (.xadd key false trim fields) opts = (.ok (), st')) : Micro env ok st st'
  | mirrored {st st' : State} (w : Write) (trim : Option (TrimKeyword × Str)) (fields : List Bytes) (counter : Counter)
      (count : Nat) (opts : CallOptions) (hok : ok w) (hw : w.why = .canonical ∨ w.why = .firehose)
      (hseg : SegmentOf st.config w.seg) (hcap : capReached st w.stream w.maxStreams = false)
      (hc : counter.isPlain = true)
      (h : call env st w.why (.xadd (utf8 w.stream) false trim fields) opts = (.ok (), st')) :
      Micro env ok st (provisionGroup env (registerStream env (recordWrite st' w.why w.stream counter count) w.why
        w.registry w.stream) w.why w.stream)

/-- A sequence of small steps. -/
abbrev Steps (env : Env) (ok : Write → Prop) : State → State → Prop := Relation.ReflTransGen (Micro env ok)

section Steps

variable {env : Env} {ok : Write → Prop} {st st' st'' : State}

/-- What every small step keeps, a sequence of small steps keeps. -/
theorem Steps.invariant {P : State → Prop} (hstep : ∀ {a b}, Micro env ok a b → P a → P b) (h : Steps env ok st st')
    (hP : P st) : P st' := by
  induction h with
  | refl => exact hP
  | tail _ hm ih => exact hstep hm ih

theorem Steps.of_aside (h : Aside st st') : Steps env ok st st' := .single (.aside h)

theorem Steps.of_probed (h : Probed st st') : Steps env ok st st' := .single (.probed h)

end Steps

/-! ## Counting -/

section Counting

variable {env : Env} {ok : Write → Prop} (st : State)

/-- States that agree on all but logs, latches, clocks and cached tags. -/
theorem Aside.of_eq {st st' : State} (hconf : st'.config = st.config) (hst : st'.standing = st.standing)
    (hcnt : st'.counters = st.counters) (hs : st'.streamStats = st.streamStats)
    (hcur : st'.currentStreams = st.currentStreams) (hks : st'.keyspace = st.keyspace) (ht : st'.trace = st.trace) :
    Aside st st' :=
  ⟨.of_eq hconf hst hcnt (ht ▸ List.prefix_refl _), hs, hcur, hks, ht, by rw [State.value, State.value, hcnt]⟩

theorem charge_aside (why : Purpose) {c : Counter} (n : Nat) (hc : c.isPlain = true) :
    Aside st (st.charge why c n) := by
  refine ⟨.of_charge st (isDeferral_plain why n hc), rfl, rfl, rfl, rfl, if_neg ?_⟩
  rintro rfl
  cases hc

/-- The loss of events is counted for a write, not for a dispatch. -/
theorem lost_aside {why : Purpose} (hw : why ≠ .dispatch) (n : Nat) : Aside st (st.charge why .eventsLost n) :=
  ⟨.of_charge st (by simp [isDeferral, hw]), rfl, rfl, rfl, rfl, by simp [State.value, State.charge]⟩

theorem countDrop_aside (why : Purpose) {c : Counter} (latch : Latch) (detail : Str) (hc : c.isPlain = true) :
    Aside st (countDrop env st why c latch detail) :=
  have h := charge_aside st why 1 hc
  ⟨⟨rfl, rfl, h.deferrals, h.ledger, List.prefix_refl _⟩, rfl, rfl, rfl, rfl, h.active⟩

theorem selectDb_aside : Aside st (selectDb env st).2 := .of_eq rfl rfl rfl rfl rfl rfl rfl

theorem countEventsLost_steps {why : Purpose} (hw : why ≠ .dispatch) (n : Nat) {c : Counter} (latch : Latch)
    (detail : Str) (hc : c.isPlain = true) : Steps env ok st (countEventsLost env st why n c latch detail) :=
  (Steps.of_aside (lost_aside st hw n)).trans (Steps.of_aside (countDrop_aside _ why latch detail hc))

theorem countNoSlotDrop_steps {why : Purpose} (hw : why ≠ .dispatch) (canonical : Bool) :
    Steps env ok st (countNoSlotDrop env st why canonical) := by
  cases canonical with
  | true => exact countEventsLost_steps st hw 1 _ _ rfl
  | false => exact Steps.of_aside (countDrop_aside st why _ _ rfl)

/-- A drop on a stream changes its record, none of the bits in it. -/
theorem countStreamDrop_steps (why : Purpose) (stream : Str) {c : Counter} (detail : Str) (hc : c.isPlain = true) :
    Steps env ok st (countStreamDrop env st why stream c detail) := by
  have hb := (st.stats stream).recordFailure_bits (env.unixNow st.clock)
  refine (Relation.ReflTransGen.single (Micro.record st stream _ hb)).trans (Steps.of_aside ?_)
  have h := charge_aside (st.setStats stream ((st.stats stream).recordFailure (env.unixNow st.clock)).1) why 1 hc
  exact ⟨⟨rfl, rfl, h.deferrals, h.ledger, List.prefix_refl _⟩, rfl, rfl, rfl, rfl, h.active⟩

theorem countEventsLostStream_steps {why : Purpose} (hw : why ≠ .dispatch) (n : Nat) (stream : Str) {c : Counter}
    (detail : Str) (hc : c.isPlain = true) : Steps env ok st (countEventsLostStream env st why n stream c detail) :=
  (Steps.of_aside (lost_aside st hw n)).trans (countStreamDrop_steps _ why stream detail hc)

end Counting

/-! ## Control entries -/

section Control

variable {env : Env} {ok : Write → Prop} (st : State)

theorem recoverStream_steps (stream : Str) : Steps env ok st (recoverStream st stream) := by
  unfold recoverStream
  cases hl : st.streamStats.lookup stream with
  | none => exact .refl
  | some entry =>
    simp only
    cases entry.recordSuccess.2 with
    | none => exact .refl
    | some drops =>
      have hs : st.stats stream = entry := by simp [State.stats, hl]
      have hb : SameBits (st.stats stream) entry.recordSuccess.1 := by
        rw [hs]
        exact ⟨entry.recordSuccess_bits.1, entry.recordSuccess_bits.2.1, entry.recordSuccess_bits.2.2.2⟩
      exact (Relation.ReflTransGen.single (Micro.record st stream _ hb)).trans
        (Steps.of_aside (.of_eq rfl rfl rfl rfl rfl rfl rfl))

theorem writeControlEntry_steps {why : Purpose} (hw : why = .marker ∨ why = .checkpoint) (control : Str)
    (action : Action) (retention : Retention) (extra : List (Str × Str)) {c : Counter} (hc : c.isPlain = true)
    (kind : Str) : Steps env ok st (writeControlEntry env st why control action retention extra c kind) := by
  unfold writeControlEntry
  have hsel : Steps env ok st (selectDb env st).2 := Steps.of_aside (selectDb_aside st)
  cases hs : selectDb env st with
  | mk sel st₁ =>
    rw [hs] at hsel
    refine hsel.trans ?_
    cases sel with
    | false => exact Steps.of_aside (countDrop_aside st₁ why _ _ rfl)
    | true =>
      simp only
      rcases call_cases env st₁ why (.xadd (utf8 control) false (trimOf env st₁ retention)
        (controlFields st₁ action extra)) (xaddCallOptions st₁) with ⟨ks, _, h⟩ | ⟨msg, h⟩
      · have hm : Steps env ok st₁ _ := .single (Micro.control _ _ _ _ _ hw h)
        rw [h]
        exact hm.trans ((Steps.of_aside (charge_aside _ why 1 hc)).trans (recoverStream_steps _ control))
      · have hm : Steps env ok st₁ _ := .single (Micro.refused _ _ _ _ h)
        rw [h]
        refine hm.trans ?_
        simp only
        split
        · exact countStreamDrop_steps _ why control _ rfl
        · exact countStreamDrop_steps _ why control _ rfl

theorem writeMarker_steps (control : Str) (action : Action) (db : Option Int32) (retention : Retention) :
    Steps env ok st (writeMarker env st control action db retention) :=
  writeControlEntry_steps st (Or.inl rfl) control action retention _ rfl _

theorem writeCheckpoint_steps (control : Str) (retention : Retention) :
    Steps env ok st (writeCheckpoint env st control retention) :=
  writeControlEntry_steps st (Or.inr rfl) control .checkpoint retention _ rfl _

end Control

/-! ## The side effects of a mirrored write -/

/-- What the registration and the provisioning of a written stream may touch: that stream's record, but not whether it
is counted; the keyspace, which grows; counters, and the trace, with calls that write no entry. -/
structure Aftermath (stream : Str) (st st' : State) : Prop extends Frame st st' where
  stats_ne : ∀ s, s ≠ stream → st'.stats s = st.stats s
  counted : (st'.stats stream).counted = (st.stats stream).counted
  countedIn : ∀ p, st'.countedIn p = st.countedIn p
  currentStreams : st'.currentStreams = st.currentStreams
  active : st'.value .activeStreams = st.value .activeStreams
  trace : ∃ calls, st'.trace = st.trace ++ calls ∧
    ∀ o ∈ calls, ∃ why cmd reply, o = .call why cmd reply ∧ ∀ key nomk trim fields, cmd ≠ .xadd key nomk trim fields
  grows : Grows st.keyspace st'.keyspace
  entries : ∀ key, st'.keyspace.entries key = st.keyspace.entries key

namespace Aftermath

variable {stream : Str} {st st' st'' : State}

theorem trans (h : Aftermath stream st st') (h' : Aftermath stream st' st'') : Aftermath stream st st'' where
  toFrame := h.toFrame.trans h'.toFrame
  stats_ne s hs := (h'.stats_ne s hs).trans (h.stats_ne s hs)
  counted := h'.counted.trans h.counted
  countedIn p := (h'.countedIn p).trans (h.countedIn p)
  currentStreams := h'.currentStreams.trans h.currentStreams
  active := h'.active.trans h.active
  trace := by
    obtain ⟨calls, e, hc⟩ := h.trace
    obtain ⟨calls', e', hc'⟩ := h'.trace
    refine ⟨calls ++ calls', by rw [e', e, List.append_assoc], fun o ho => ?_⟩
    rcases List.mem_append.1 ho with ho | ho
    · exact hc o ho
    · exact hc' o ho
  grows := h.grows.trans h'.grows
  entries key := (h'.entries key).trans (h.entries key)

theorem of_aside (h : Aside st st') : Aftermath stream st st' where
  toFrame := h.toFrame
  stats_ne s _ := by simp only [State.stats, h.streamStats]
  counted := by simp only [State.stats, h.streamStats]
  countedIn p := by simp only [State.countedIn, h.streamStats]
  currentStreams := h.currentStreams
  active := h.active
  trace := ⟨[], by simp [h.trace], by simp⟩
  grows := h.keyspace ▸ .refl _
  entries _ := by rw [h.keyspace]

theorem refl (st : State) : Aftermath stream st st := of_aside (.of_eq rfl rfl rfl rfl rfl rfl rfl)

theorem of_call {env : Env} {why : Purpose} {cmd : Command} {opts : CallOptions} {r : Except Str Unit}
    (h : call env st why cmd opts = (r, st')) (hx : ∀ key nomk trim fields, cmd ≠ .xadd key nomk trim fields)
    (hs : ∀ key member, cmd ≠ .srem key member) : Aftermath stream st st' := by
  have ht : ∀ reply : Bool, ∀ o ∈ [Occurrence.call why cmd reply], ∃ why cmd reply, o = .call why cmd reply ∧
      ∀ key nomk trim fields, cmd ≠ .xadd key nomk trim fields := by
    intro reply o ho
    exact ⟨why, cmd, reply, List.mem_singleton.1 ho, hx⟩
  have hf := Frame.of_call h
  cases r with
  | ok _ =>
    obtain ⟨ks, he, rfl⟩ := call_ok h
    exact ⟨hf, fun _ _ => rfl, rfl, fun _ => rfl, rfl, rfl, ⟨_, rfl, ht true⟩, exec_grows he hs, exec_entries he hx⟩
  | error msg =>
    rw [call_error h] at hf ⊢
    exact ⟨hf, fun _ _ => rfl, rfl, fun _ => rfl, rfl, rfl, ⟨_, rfl, ht false⟩, .refl _, fun _ => rfl⟩

theorem of_record {s : StreamStats} (hs : s.counted = (st.stats stream).counted) :
    Aftermath stream st (st.setStats stream s) where
  toFrame := .of_eq rfl rfl rfl (List.prefix_refl _)
  stats_ne _ hne := st.setStats_stats_ne s hne
  counted := by rw [State.setStats_stats_same, hs]
  countedIn p := by
    have h := st.countedIn_setStats p stream s
    rw [hs] at h
    omega
  currentStreams := rfl
  active := rfl
  trace := ⟨[], by simp [State.setStats], by simp⟩
  grows := .refl _
  entries _ := rfl

end Aftermath

section SideEffects

variable (env : Env) (st : State)

/-- The configured group is created, it is there already, or its creation fails. -/
theorem createAutoGroup_cases (why : Purpose) (stream group : Str) :
    (∃ st₁, call env st why (.xgroupCreate (utf8 stream) (utf8 group)) (xaddCallOptions st) = (.ok (), st₁) ∧
      createAutoGroup env st why stream group = (true, st₁.charge why .autogroupCreated 1)) ∨
    (∃ msg st₁, call env st why (.xgroupCreate (utf8 stream) (utf8 group)) (xaddCallOptions st) = (.error msg, st₁) ∧
      ((startsWith msg "BUSYGROUP".toList = true ∧ createAutoGroup env st why stream group = (true, st₁)) ∨
        ∃ latch detail, createAutoGroup env st why stream group =
          (false, countDrop env st₁ why .autogroupFailed latch detail))) := by
  unfold createAutoGroup
  cases hr : call env st why (.xgroupCreate (utf8 stream) (utf8 group)) (xaddCallOptions st) with
  | mk r st₁ =>
    cases r with
    | ok _ => exact Or.inl ⟨st₁, rfl, rfl⟩
    | error msg =>
      refine Or.inr ⟨msg, st₁, rfl, ?_⟩
      simp only
      split
      · rename_i hb
        exact Or.inl ⟨hb, rfl⟩
      · exact Or.inr ⟨_, _, rfl⟩

theorem createAutoGroup_aftermath (why : Purpose) (stream group : Str) :
    Aftermath stream st (createAutoGroup env st why stream group).2 := by
  rcases createAutoGroup_cases env st why stream group with ⟨st₁, hc, h⟩ | ⟨msg, st₁, hc, ⟨_, h⟩ | ⟨latch, detail, h⟩⟩
  · rw [h]
    exact (Aftermath.of_call hc (by simp) (by simp)).trans (.of_aside (charge_aside st₁ why 1 rfl))
  · rw [h]
    exact .of_call hc (by simp) (by simp)
  · rw [h]
    exact (Aftermath.of_call hc (by simp) (by simp)).trans (.of_aside (countDrop_aside st₁ why latch detail rfl))

theorem markRegistered_aftermath (stream : Str) : Aftermath stream st (markRegistered st stream) := by
  have h : Aftermath stream st
      (st.setStats stream { st.stats stream with registered := true, registryFailed := false }) := .of_record rfl
  exact h.trans (.of_aside (.of_eq rfl rfl rfl rfl rfl rfl rfl))

theorem markRegistryFailed_aftermath (why : Purpose) (registry stream msg : Str) :
    Aftermath stream st (markRegistryFailed env st why registry stream msg) := by
  have h : Aftermath stream st (st.setStats stream { st.stats stream with registryFailed := true }) := .of_record rfl
  have hc := charge_aside (st.setStats stream { st.stats stream with registryFailed := true }) why
    (c := .registryErrors) 1 rfl
  exact h.trans (.of_aside ⟨⟨rfl, rfl, hc.deferrals, hc.ledger, List.prefix_refl _⟩, rfl, rfl, rfl, rfl, hc.active⟩)

theorem registerStream_aftermath (why : Purpose) (registry stream : Str) :
    Aftermath stream st (registerStream env st why registry stream) := by
  unfold registerStream
  split
  · exact .refl st
  · cases hr : call env st why (.sadd (utf8 registry) (utf8 stream)) (xaddCallOptions st) with
    | mk r st₁ =>
      have hc : Aftermath stream st st₁ := .of_call hr (by simp) (by simp)
      cases r with
      | ok _ => exact hc.trans (markRegistered_aftermath st₁ stream)
      | error msg => exact hc.trans (markRegistryFailed_aftermath env st₁ why registry stream msg)

theorem provisionGroup_aftermath (why : Purpose) (stream : Str) :
    Aftermath stream st (provisionGroup env st why stream) := by
  unfold provisionGroup
  split
  · cases groupName st with
    | none => exact .refl st
    | some group =>
      have hc := createAutoGroup_aftermath env st why stream group
      simp only
      cases hr : createAutoGroup env st why stream group with
      | mk r st₁ =>
        rw [hr] at hc
        cases r with
        | true => exact hc.trans (.of_record rfl)
        | false => exact hc
  · exact .refl st

end SideEffects

/-- The effect of a mirrored write as a whole. -/
structure Written (stream : Str) (st st' : State) : Prop extends Frame st st' where
  stats_ne : ∀ s, s ≠ stream → st'.stats s = st.stats s
  counted : (st'.stats stream).counted = true
  countedIn : ∀ p, st'.countedIn p = st.countedIn p + if !(st.stats stream).counted && p stream then 1 else 0
  currentStreams : st'.currentStreams = st.currentStreams + if (st.stats stream).counted then 0 else 1
  active : st'.value .activeStreams = st.value .activeStreams + if (st.stats stream).counted then 0 else 1
  trace : ∃ o calls, st'.trace = st.trace ++ o :: calls ∧ mirroredKey o = some (utf8 stream) ∧
    ∀ o ∈ calls, ∃ why cmd reply, o = .call why cmd reply ∧ ∀ key nomk trim fields, cmd ≠ .xadd key nomk trim fields
  grows : Grows st.keyspace st'.keyspace

theorem recordWrite_streamStats (st : State) (why : Purpose) (stream : Str) (counter : Counter) (count : Nat) :
    ∃ r : StreamStats, (recordWrite st why stream counter count).streamStats = (st.setStats stream r).streamStats ∧
      r.counted = true ∧ r.registered = (st.stats stream).registered ∧
      r.groupCreated = (st.stats stream).groupCreated := by
  have hb := { st.stats stream with forwarded := (st.stats stream).forwarded + count }.recordSuccess_bits
  exact ⟨_, rfl, rfl, hb.2.1, hb.2.2.2⟩

theorem recordWrite_active (st : State) (why : Purpose) (stream : Str) {counter : Counter} (count : Nat)
    (hc : counter.isPlain = true) : (recordWrite st why stream counter count).value .activeStreams =
      st.value .activeStreams + if (st.stats stream).counted then 0 else 1 := by
  have hne : Counter.activeStreams ≠ counter := by
    rintro rfl
    cases hc
  cases h : (st.stats stream).counted with
  | true => simp [State.value, recordWrite, h, hne]
  | false => simp [State.value, recordWrite, h, hne]

/-- The counters of a write are the entry's and, for a new stream, that of the streams. -/
theorem recordWrite_counters (st : State) (why : Purpose) (stream : Str) (counter : Counter) (count : Nat) :
    (recordWrite st why stream counter count).counters = (st.charge why counter count).counters ∨
      (recordWrite st why stream counter count).counters =
        ((st.charge why counter count).charge why .activeStreams 1).counters := by
  cases h : (st.stats stream).counted with
  | true => exact Or.inl (by simp [recordWrite, State.charge, h])
  | false => exact Or.inr (by simp [recordWrite, State.charge, h])

theorem recordWrite_value_le (st : State) (why : Purpose) (stream : Str) (counter : Counter) (count : Nat)
    (c : Counter) : st.value c ≤ (recordWrite st why stream counter count).value c := by
  rcases recordWrite_counters st why stream counter count with h | h <;>
    simp only [State.value, h, State.charge, Counters.add_value] <;> split_ifs <;> omega

theorem recordWrite_frame (st : State) (why : Purpose) (stream : Str) {counter : Counter} (count : Nat)
    (hc : counter.isPlain = true) : Frame st (recordWrite st why stream counter count) := by
  have h₁ := Frame.of_charge st (isDeferral_plain why count hc)
  have hn : isDeferral ⟨why, .activeStreams, 1⟩ = false := by simp [isDeferral]
  have h₂ := h₁.trans (Frame.of_charge _ hn)
  rcases recordWrite_counters st why stream counter count with h | h
  · exact h₁.trans (.of_eq rfl rfl h (List.prefix_refl _))
  · exact h₂.trans (.of_eq rfl rfl h (List.prefix_refl _))

/-- A mirrored write whose `XADD` executes. -/
theorem mirrored_written {env : Env} {st st' : State} {why : Purpose} {stream : Str} (registry : Str)
    {trim : Option (TrimKeyword × Str)} {fields : List Bytes} {counter : Counter} (count : Nat) {opts : CallOptions}
    (hw : why = .canonical ∨ why = .firehose) (hc : counter.isPlain = true)
    (h : call env st why (.xadd (utf8 stream) false trim fields) opts = (.ok (), st')) :
    Written stream st (provisionGroup env (registerStream env (recordWrite st' why stream counter count) why registry
      stream) why stream) := by
  have ha := (registerStream_aftermath env (recordWrite st' why stream counter count) why registry stream).trans
    (provisionGroup_aftermath env _ why stream)
  have hf := ((Frame.of_call h).trans (recordWrite_frame st' why stream count hc)).trans ha.toFrame
  obtain ⟨ks, he, rfl⟩ := call_ok h
  obtain ⟨r, hr, hr', -, -⟩ := recordWrite_streamStats { st with
    keyspace := ks
    clock := st.clock + 1
    trace := st.trace ++ [.call why (.xadd (utf8 stream) false trim fields) true] } why stream counter count
  generalize hst₂ : recordWrite { st with
    keyspace := ks
    clock := st.clock + 1
    trace := st.trace ++ [.call why (.xadd (utf8 stream) false trim fields) true] } why stream counter count =
    st₂ at ha hr hf ⊢
  have hstats : ∀ s, st₂.stats s = (st.setStats stream r).stats s := fun s => by simp only [State.stats, hr]; rfl
  have hin : ∀ p, st₂.countedIn p = (st.setStats stream r).countedIn p := fun p => by
    simp only [State.countedIn, hr]
    rfl
  refine ⟨hf, fun s hs => ?_, ?_, fun p => ?_, ?_, ?_, ?_, ?_⟩
  · rw [ha.stats_ne s hs, hstats, st.setStats_stats_ne r hs]
  · rw [ha.counted, hstats, State.setStats_stats_same, hr']
  · have hp := st.countedIn_setStats p stream r
    rw [ha.countedIn, hin]
    rw [hr'] at hp
    cases hcnt : (st.stats stream).counted <;> cases hps : p stream <;> simp [hcnt, hps] at hp ⊢ <;> omega
  · rw [ha.currentStreams, ← hst₂]
    cases hcnt : (st.stats stream).counted <;> simp [recordWrite, State.stats] at hcnt ⊢ <;> simp [hcnt]
  · rw [ha.active, ← hst₂, recordWrite_active _ why stream count hc]
    rfl
  · obtain ⟨calls, e, hcalls⟩ := ha.trace
    refine ⟨.call why (.xadd (utf8 stream) false trim fields) true, calls, ?_, by simp [mirroredKey, hw], hcalls⟩
    rw [e, ← hst₂]
    simp [recordWrite]
  · have hg : Grows st.keyspace ks := exec_grows he (by simp)
    refine hg.trans (Grows.trans ?_ ha.grows)
    rw [← hst₂]
    exact .refl ks

/-- What a mirrored write whose `XADD` executes does to the streams: it appends its entry and trims. -/
theorem mirrored_entries {env : Env} {st st' : State} {why : Purpose} {stream : Str} (registry : Str)
    {trim : Option (TrimKeyword × Str)} {fields : List Bytes} (counter : Counter) (count : Nat) {opts : CallOptions}
    (h : call env st why (.xadd (utf8 stream) false trim fields) opts = (.ok (), st')) :
    let ks := (provisionGroup env
      (registerStream env (recordWrite st' why stream counter count) why registry stream) why stream).keyspace
    ks.entries (utf8 stream) = (st.keyspace.entries (utf8 stream) ++ [Entry.mk (env.entryId st.clock) fields]).drop
        (if trim.isSome then env.trimmed st.clock else 0) ∧
      ∀ key, key ≠ utf8 stream → ks.entries key = st.keyspace.entries key := by
  have ha := (registerStream_aftermath env (recordWrite st' why stream counter count) why registry stream).trans
    (provisionGroup_aftermath env _ why stream)
  obtain ⟨ks, he, rfl⟩ := call_ok h
  refine ⟨(ha.entries _).trans (exec_xadd_entries he).1, fun key hkey => (ha.entries key).trans ?_⟩
  have hframe : ks 0 key = st.keyspace 0 key := exec_frame he (Or.inr hkey)
  change ks.entries key = st.keyspace.entries key
  rw [Keyspace.entries, Keyspace.entries, hframe]

theorem Micro.frame {env : Env} {ok : Write → Prop} {st st' : State} (h : Micro env ok st st') : Frame st st' := by
  cases h with
  | aside h => exact h.toFrame
  | probed h => exact .of_probed h
  | record stream s h => exact .of_eq rfl rfl rfl (List.prefix_refl _)
  | refused why cmd opts msg h => exact .of_call h
  | control why key trim fields opts hw h => exact .of_call h
  | mirrored w trim fields counter count opts hok hw hseg hcap hc h =>
    exact (mirrored_written w.registry count hw hc h).toFrame

/-- No processor changes the configuration, the pending markers, the role or the record of deferrals. -/
theorem Steps.frame {env : Env} {ok : Write → Prop} {st st' : State} (h : Steps env ok st st') : Frame st st' :=
  Steps.invariant (P := Frame st) (fun hm hc => hc.trans hm.frame) h (.refl st)

/-! ## Mirrored writes -/

section Mirror

variable {env : Env} {ok : Write → Prop} (st : State)

theorem mirrorFields_steps (pfx seg suffix : Str) (fields : List Bytes) (retention : Retention) (maxStreams : Int)
    (counter : Counter) (count : Nat) (hok : ok ⟨purposeOf counter, pfx, seg, suffix, maxStreams⟩)
    (hseg : SegmentOf st.config seg) (hc : counter.isPlain = true) :
    Steps env ok st (mirrorFields env st pfx seg suffix fields retention maxStreams counter count).2 := by
  unfold mirrorFields
  simp only
  split
  · exact .refl
  · rename_i hcap
    rcases call_cases env st (purposeOf counter) (.xadd (utf8 (streamOf pfx seg suffix)) false (trimOf env st retention)
      fields) (xaddCallOptions st) with ⟨ks, _, h⟩ | ⟨msg, h⟩
    · have hm : Steps env ok st _ :=
        .single (Micro.mirrored ⟨purposeOf counter, pfx, seg, suffix, maxStreams⟩ _ _ counter
        count _ hok (purposeOf_cases counter) hseg (Bool.eq_false_iff.2 hcap) hc h)
      rw [h]
      exact hm
    · have hm : Steps env ok st _ := .single (Micro.refused _ _ _ _ h)
      rw [h]
      exact hm

theorem mirrorEntry_steps (pfx seg suffix : Str) (spec : EntrySpec) (retention : Retention) (maxStreams : Int)
    (counter : Counter) (hok : ok ⟨purposeOf counter, pfx, seg, suffix, maxStreams⟩)
    (hseg : SegmentOf st.config seg) (hc : counter.isPlain = true) :
    Steps env ok st (mirrorEntry env st pfx seg suffix spec retention maxStreams counter).2 := by
  unfold mirrorEntry
  cases encodeEntryFields spec with
  | error reason => exact .refl
  | ok fields => exact mirrorFields_steps st pfx seg suffix fields retention maxStreams counter 1 hok hseg hc

theorem tagSegment_seg {st₁ : State} {seg : Str} (h : tagSegment env st = (some seg, st₁)) :
    SegmentOf st₁.config seg := by
  have hp := tagSegment_probed env st
  rw [h] at hp
  have hconf : st₁.config = st.config := by
    obtain ⟨_, _, _, _, _, e, _⟩ := hp
    simp only at e
    rw [e]
  rw [hconf]
  unfold tagSegment at h
  split at h
  · injection h with h _
    injection h with h
    exact ⟨fun _ => h.symm, Or.inl h.symm⟩
  · rename_i hn
    have hbr : ∃ tag, seg = braced tag := by
      cases ht : st.nodeTag with
      | some tag =>
        simp only [ht] at h
        injection h with h _
        injection h with h
        exact ⟨tag, h.symm⟩
      | none =>
        simp only [ht] at h
        injection h with h _
        obtain ⟨tag, _, e⟩ := Option.map_eq_some_iff.1 h
        exact ⟨tag, e.symm⟩
    exact ⟨fun hf => absurd (by simp [hf]) hn, Or.inr hbr⟩

theorem mirrorFirehose_steps (e : PendingEvent) (spec : EntrySpec) (retention : Retention)
    (hok : ∀ w, Write.Of e w → ok w) : Steps env ok st (mirrorFirehose env st e.pfx spec retention) := by
  unfold mirrorFirehose
  have ht : Steps env ok st (tagSegment env st).2 := Steps.of_probed (tagSegment_probed env st)
  cases hs : tagSegment env st with
  | mk seg st₁ =>
    rw [hs] at ht
    refine ht.trans ?_
    cases seg with
    | none => exact countNoSlotDrop_steps st₁ (by decide) false
    | some seg =>
      have hm : Steps env ok st₁ _ := mirrorEntry_steps st₁ e.pfx seg "#firehose".toList spec retention 0
        .firehoseForwarded (hok ⟨.firehose, e.pfx, seg, "#firehose".toList, 0⟩ ⟨rfl, Or.inr ⟨rfl, rfl, rfl⟩⟩)
        (tagSegment_seg st hs) rfl
      simp only
      cases hr : mirrorEntry env st₁ e.pfx seg "#firehose".toList spec retention 0 .firehoseForwarded with
      | mk o st₂ =>
        rw [hr] at hm
        refine hm.trans ?_
        cases o with
        | written | maxStreams _ => exact .refl
        | oom stream msg => exact countStreamDrop_steps st₂ .firehose stream msg rfl
        | failed stream msg => exact countStreamDrop_steps st₂ .firehose stream msg rfl
        | slotMigrated | migrating _ | encodeError _ _ =>
          exact Steps.of_aside (countDrop_aside st₂ .firehose _ _ rfl)

end Mirror

/-! ## Processors -/

section Processors

variable {env : Env} {ok : Write → Prop} (st : State)

/-- The loss that ends a canonical write that was refused; the retry aside, every outcome but a written entry is one. -/
theorem lost_steps (n : Nat) {c : Counter} (hc : c.isPlain = true) (latch : Latch) (stream detail : Str) :
    Steps env ok st (countEventsLost env st .canonical n c latch detail) ∧
      Steps env ok st (countEventsLostStream env st .canonical n stream c detail) :=
  have hw : Purpose.canonical ≠ .dispatch := by decide
  ⟨countEventsLost_steps st hw n latch detail hc, countEventsLostStream_steps st hw n stream detail hc⟩

theorem repinAndRetry_steps (e : PendingEvent) (spec : EntrySpec) (hok : ∀ w, Write.Of e w → ok w) :
    Steps env ok st (repinAndRetry env st e.pfx e.suffix spec e.dataRetention e.controlRetention e.maxStreams) := by
  have h₀ : Steps env ok st ({ st with nodeTag := none, probeVerifiedTag := none }.charge .canonical .repins 1) := by
    have h := charge_aside st .canonical (c := .repins) 1 rfl
    exact Steps.of_aside ⟨⟨rfl, rfl, h.deferrals, h.ledger, List.prefix_refl _⟩, rfl, rfl, rfl, rfl, h.active⟩
  simp only [repinAndRetry]
  generalize { st with nodeTag := none, probeVerifiedTag := none }.charge .canonical .repins 1 = st₀ at h₀ ⊢
  have ht : Steps env ok st₀ (tagSegment env st₀).2 := Steps.of_probed (tagSegment_probed env st₀)
  cases hs : tagSegment env st₀ with
  | mk seg st₁ =>
    rw [hs] at ht
    refine (h₀.trans ht).trans ?_
    cases seg with
    | none => exact countNoSlotDrop_steps st₁ (by decide) true
    | some seg =>
      have hm : Steps env ok st₁ _ :=
        writeMarker_steps st₁ (controlStreamOf e.pfx seg) .repinned none e.controlRetention
      have hseg := tagSegment_seg st₀ hs
      rw [← hm.frame.config] at hseg
      simp only
      refine hm.trans ?_
      generalize writeMarker env st₁ (controlStreamOf e.pfx seg) .repinned none e.controlRetention = st₂ at hseg ⊢
      have hw : Steps env ok st₂ _ := mirrorEntry_steps st₂ e.pfx seg e.suffix spec e.dataRetention e.maxStreams
        .forwarded (hok ⟨.canonical, e.pfx, seg, e.suffix, e.maxStreams⟩ ⟨rfl, Or.inl ⟨rfl, rfl, rfl⟩⟩) hseg rfl
      cases hr : mirrorEntry env st₂ e.pfx seg e.suffix spec e.dataRetention e.maxStreams .forwarded with
      | mk o st₃ =>
        rw [hr] at hw
        refine hw.trans ?_
        cases o with
        | written => exact .refl
        | oom stream msg => exact (lost_steps st₃ 1 rfl .xaddError stream msg).2
        | failed stream msg => exact (lost_steps st₃ 1 rfl .xaddError stream msg).2
        | slotMigrated | migrating _ | maxStreams _ | encodeError _ _ => exact (lost_steps st₃ 1 rfl _ [] _).1

/-- What follows the first attempt at the canonical write. -/
theorem settleEvent_after {st st₁ : State} {o : MirrorOutcome} (e : PendingEvent) {seg : Str} {spec : EntrySpec}
    (hok : ∀ w, Write.Of e w → ok w)
    (hr : mirrorEntry env st e.pfx seg e.suffix spec e.dataRetention e.maxStreams .forwarded = (o, st₁)) :
    Steps env ok st₁ (settleEvent env st e seg spec) := by
  unfold settleEvent
  rw [hr]
  cases o with
  | written => exact .refl
  | slotMigrated => exact repinAndRetry_steps st₁ e spec hok
  | migrating _ => exact repinAndRetry_steps st₁ e spec hok
  | failed stream msg =>
    have hp : Steps env ok st₁ _ := Steps.of_probed (pinnedTagLostByProbe_probed env st₁)
    simp only
    cases hl : pinnedTagLostByProbe env st₁ with
    | mk lost st₂ =>
      rw [hl] at hp
      refine hp.trans ?_
      cases lost with
      | true =>
        exact (Steps.of_aside (charge_aside st₂ .canonical (c := .repinsProbeDetected) 1 rfl)).trans
          (repinAndRetry_steps _ e spec hok)
      | false => exact (lost_steps st₂ 1 rfl .xaddError stream msg).2
  | oom stream msg => exact (lost_steps st₁ 1 rfl .xaddError stream msg).2
  | maxStreams _ | encodeError _ _ => exact (lost_steps st₁ 1 rfl _ [] _).1

theorem settleEvent_steps (e : PendingEvent) (seg : Str) (spec : EntrySpec) (hok : ∀ w, Write.Of e w → ok w)
    (hseg : SegmentOf st.config seg) : Steps env ok st (settleEvent env st e seg spec) := by
  have hw : Steps env ok st _ := mirrorEntry_steps st e.pfx seg e.suffix spec e.dataRetention e.maxStreams .forwarded
    (hok ⟨.canonical, e.pfx, seg, e.suffix, e.maxStreams⟩ ⟨rfl, Or.inl ⟨rfl, rfl, rfl⟩⟩) hseg rfl
  cases hr : mirrorEntry env st e.pfx seg e.suffix spec e.dataRetention e.maxStreams .forwarded with
  | mk o st₁ =>
    rw [hr] at hw
    exact hw.trans (settleEvent_after e hok hr)

theorem takeSeq_aside (entrySeq : Bool) : Aside st (takeSeq st entrySeq).2 := by
  unfold takeSeq
  split <;> exact .of_eq rfl rfl rfl rfl rfl rfl rfl

/-- Processing an event takes small steps; its mirrored writes are those of the event. -/
theorem processPendingEvent_steps (e : PendingEvent) (hok : ∀ w, Write.Of e w → ok w) :
    Steps env ok st (processPendingEvent env st e) := by
  unfold processPendingEvent
  have hsel : Steps env ok st (selectDb env st).2 := Steps.of_aside (selectDb_aside st)
  cases hs : selectDb env st with
  | mk sel st₁ =>
    rw [hs] at hsel
    refine hsel.trans ?_
    cases sel with
    | false => exact (lost_steps st₁ 1 rfl _ [] _).1
    | true =>
      have ht : Steps env ok st₁ (tagSegment env st₁).2 := Steps.of_probed (tagSegment_probed env st₁)
      simp only
      cases hseg : tagSegment env st₁ with
      | mk seg st₂ =>
        rw [hseg] at ht
        refine ht.trans ?_
        cases seg with
        | none => exact countNoSlotDrop_steps st₂ (by decide) true
        | some seg =>
          have hq := takeSeq_aside st₂ e.entrySeq
          have hsg := tagSegment_seg st₁ hseg
          rw [← hq.config] at hsg
          refine (Steps.of_aside hq).trans ?_
          have hset : Steps env ok (takeSeq st₂ e.entrySeq).2 _ :=
            settleEvent_steps _ e seg (entrySpec e (takeSeq st₂ e.entrySeq).1) hok hsg
          simp only
          split
          · exact hset.trans (mirrorFirehose_steps _ e _ e.firehoseRetention hok)
          · exact hset

theorem noSlotDrops_steps (n : Nat) :
    Steps env ok st ((List.range n).foldl (fun st _ => countNoSlotDrop env st .canonical true) st) := by
  induction n with
  | zero => exact .refl
  | succ n ih =>
    rw [List.range_succ, List.foldl_append]
    exact ih.trans (countNoSlotDrop_steps _ (by decide) true)

/-- What follows the write of an envelope. -/
theorem processPendingEnvelope_after {st st₁ st₂ st₃ : State} {first : PendingEvent} {rest : List PendingEvent}
    {fields : List Bytes} {seg : Str} {o : MirrorOutcome} (hs : selectDb env st = (true, st₁))
    (hseg : tagSegment env st₁ = (some seg, st₂))
    (hr : mirrorFields env st₂ first.pfx seg first.suffix fields first.dataRetention first.maxStreams .forwarded
      (first :: rest).length = (o, st₃)) :
    Steps env ok st₃ (processPendingEnvelope env st (first :: rest) fields) := by
  simp only [processPendingEnvelope, hs, hseg]
  rw [hr]
  generalize (first :: rest).length = n
  cases o with
  | written =>
    exact (Steps.of_aside (charge_aside st₃ .canonical (c := .asyncEnvelopes) 1 rfl)).trans
      (Steps.of_aside (charge_aside _ .canonical (c := .asyncEnvelopeEvents) n rfl))
  | oom stream msg => exact (lost_steps st₃ n rfl .xaddError stream msg).2
  | failed stream msg => exact (lost_steps st₃ n rfl .xaddError stream msg).2
  | slotMigrated | migrating _ | maxStreams _ | encodeError _ _ => exact (lost_steps st₃ n rfl _ [] _).1

theorem processPendingEnvelope_steps (events : List PendingEvent) (fields : List Bytes)
    (hok : ∀ e ∈ events, ∀ w, Write.Of e w → ok w) : Steps env ok st (processPendingEnvelope env st events fields) := by
  cases events with
  | nil => exact .refl
  | cons first rest =>
    have hsel : Steps env ok st (selectDb env st).2 := Steps.of_aside (selectDb_aside st)
    cases hs : selectDb env st with
    | mk sel st₁ =>
      rw [hs] at hsel
      refine hsel.trans ?_
      cases sel with
      | false =>
        simp only [processPendingEnvelope, hs]
        exact (lost_steps st₁ _ rfl _ [] _).1
      | true =>
        have ht : Steps env ok st₁ (tagSegment env st₁).2 := Steps.of_probed (tagSegment_probed env st₁)
        cases hseg : tagSegment env st₁ with
        | mk seg st₂ =>
          rw [hseg] at ht
          refine ht.trans ?_
          cases seg with
          | none =>
            simp only [processPendingEnvelope, hs, hseg]
            exact noSlotDrops_steps st₂ _
          | some seg =>
            have hw : Steps env ok st₂ _ := mirrorFields_steps st₂ first.pfx seg first.suffix fields first.dataRetention
              first.maxStreams .forwarded (first :: rest).length (hok first List.mem_cons_self
                ⟨.canonical, first.pfx, seg, first.suffix, first.maxStreams⟩ ⟨rfl, Or.inl ⟨rfl, rfl, rfl⟩⟩)
              (tagSegment_seg st₁ hseg) rfl
            cases hr : mirrorFields env st₂ first.pfx seg first.suffix fields first.dataRetention first.maxStreams
              .forwarded (first :: rest).length with
            | mk o st₃ =>
              rw [hr] at hw
              exact hw.trans (processPendingEnvelope_after hs hseg hr)

/-- A processor takes small steps; its mirrored writes are those of the events handed over. -/
theorem process_steps (h : Handoff) (hok : ∀ e ∈ h.events, ∀ w, Write.Of e w → ok w) :
    Steps env ok st (h.process env st) := by
  cases h with
  | event e => exact processPendingEvent_steps st e (hok e (by simp [Handoff.events]))
  | envelope events fields => exact processPendingEnvelope_steps st events fields hok

end Processors

end EventStream

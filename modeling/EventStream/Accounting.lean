import EventStream.Capture

/-!
# Loss accounting

Every event handed to a processor is settled exactly once: it is forwarded by one canonical write, or it is lost for one
reason.

* `Settles st st' charges tries marks repins` says by how much a piece of the capture path moves the four meters that
  matter: the canonical settlement charges, the canonical write attempts, the marker attempts and the re-pins.
* `mirrorFields_settles` and `repinAndRetry_settles` follow one write and the retry; auxiliary work settles nothing.
* `processPendingEvent_settles` and `processPendingEnvelope_settles` assemble a whole call.
-/

namespace EventStream

open Text (Str Bytes utf8)

/-! ## Meters -/

/-- The reasons a canonical write can be lost for. -/
def isReason : Counter → Bool
  | .droppedXaddError | .droppedOom | .droppedMigrating | .droppedMaxStreams | .droppedEncodeError
  | .droppedNoOwnedSlot => true
  | _ => false

/-- A charge that settles a canonical write. -/
def isSettling (x : Charge) : Bool :=
  x.why = .canonical && (x.counter = .forwarded || x.counter = .eventsLost || isReason x.counter)

/-- The outcome of an attempt to write for a purpose. -/
def attemptOf (why : Purpose) : Occurrence → Option Bool
  | .call w (.xadd _ _ _ _) ok => if w = why then some ok else none
  | _ => none

@[simp] theorem attemptOf_xadd (w why : Purpose) (key : Bytes) (nomk : Bool) (trim : Option (TrimKeyword × Str))
    (fields : List Bytes) (ok : Bool) :
    attemptOf w (.call why (.xadd key nomk trim fields) ok) = if why = w then some ok else none := rfl

namespace State

/-- The settlement charges so far. -/
def settled (st : State) : List Charge := st.counters.ledger.filter isSettling

/-- The canonical write attempts so far. -/
def attempts (st : State) : List Bool := st.trace.filterMap (attemptOf .canonical)

/-- The marker attempts so far. -/
def markerAttempts (st : State) : List Bool := st.trace.filterMap (attemptOf .marker)

end State

/-- The movement of the meters from one state to another. -/
structure Settles (st st' : State) (charges : List Charge) (tries marks : List Bool) (repins : Nat) : Prop where
  settled : st'.settled = st.settled ++ charges
  attempts : st'.attempts = st.attempts ++ tries
  markerAttempts : st'.markerAttempts = st.markerAttempts ++ marks
  forwarded : st'.value .forwarded = st.value .forwarded + charged charges .forwarded
  eventsLost : st'.value .eventsLost = st.value .eventsLost + charged charges .eventsLost
  repins : st'.value .repins = st.value .repins + repins

/-- Nothing is settled. -/
abbrev Quiet (st st' : State) : Prop := Settles st st' [] [] [] 0

namespace Settles

variable {st st' st'' : State} {charges charges' : List Charge} {tries tries' marks marks' : List Bool}
  {repins repins' : Nat}

theorem refl (st : State) : Quiet st st := by
  constructor <;> simp

theorem trans (h : Settles st st' charges tries marks repins) (h' : Settles st' st'' charges' tries' marks' repins') :
    Settles st st'' (charges ++ charges') (tries ++ tries') (marks ++ marks') (repins + repins') where
  settled := by rw [h'.settled, h.settled, List.append_assoc]
  attempts := by rw [h'.attempts, h.attempts, List.append_assoc]
  markerAttempts := by rw [h'.markerAttempts, h.markerAttempts, List.append_assoc]
  forwarded := by rw [h'.forwarded, h.forwarded, charged_append, Nat.add_assoc]
  eventsLost := by rw [h'.eventsLost, h.eventsLost, charged_append, Nat.add_assoc]
  repins := by rw [h'.repins, h.repins, Nat.add_assoc]

/-- Quiet work before. -/
theorem after (h : Settles st' st'' charges tries marks repins) (q : Quiet st st') :
    Settles st st'' charges tries marks repins := by
  have := q.trans h
  simpa using this

/-- Quiet work behind. -/
theorem before (h : Settles st st' charges tries marks repins) (q : Quiet st' st'') :
    Settles st st'' charges tries marks repins := by
  have := h.trans q
  simpa using this

/-- States with the same counters and the same trace have the same meters. -/
theorem of_eq (hc : st'.counters = st.counters) (ht : st'.trace = st.trace) : Quiet st st' := by
  constructor <;> simp [State.settled, State.attempts, State.markerAttempts, State.value, hc, ht]

end Settles

/-! ## Small steps -/

/-- One increment moves the meters as its charge does. -/
theorem settles_add {st st' : State} {why : Purpose} {c : Counter} {n : Nat}
    (hc : st'.counters = st.counters.add why c n) (ht : st'.trace = st.trace)
    (hw : c = .forwarded ∨ c = .eventsLost → why = .canonical) :
    Settles st st' (if isSettling ⟨why, c, n⟩ then [⟨why, c, n⟩] else []) [] [] (if c = .repins then n else 0) := by
  constructor
  · simp only [State.settled, hc, Counters.add_ledger, List.filter_append]
    by_cases h : isSettling ⟨why, c, n⟩ <;> simp [h]
  · simp [State.attempts, ht]
  · simp [State.markerAttempts, ht]
  · simp only [State.value, hc, Counters.add_value]
    by_cases h : c = .forwarded
    · have hcan := hw (Or.inl h)
      simp [h, hcan, isSettling]
    · by_cases hs : isSettling ⟨why, c, n⟩ <;> simp [hs, h, Ne.symm h]
  · simp only [State.value, hc, Counters.add_value]
    by_cases h : c = .eventsLost
    · have hcan := hw (Or.inr h)
      simp [h, hcan, isSettling]
    · by_cases hs : isSettling ⟨why, c, n⟩ <;> simp [hs, h, Ne.symm h]
  · simp only [State.value, hc, Counters.add_value]
    by_cases h : c = .repins
    · simp [h]
    · simp [h, Ne.symm h]

/-- An increment that neither settles a canonical write nor counts a re-pin. -/
theorem quiet_add {st st' : State} {why : Purpose} {c : Counter} {n : Nat}
    (hc : st'.counters = st.counters.add why c n) (ht : st'.trace = st.trace)
    (hs : isSettling ⟨why, c, n⟩ = false) (hf : c ≠ .forwarded) (hl : c ≠ .eventsLost) (hr : c ≠ .repins) :
    Quiet st st' := by
  have h := settles_add hc ht (fun h => absurd h (by simp [hf, hl]))
  simpa [hs, hr] using h

theorem charge_quiet (st : State) {why : Purpose} {c : Counter} (n : Nat) (hs : isSettling ⟨why, c, n⟩ = false)
    (hf : c ≠ .forwarded) (hl : c ≠ .eventsLost) (hr : c ≠ .repins) : Quiet st (st.charge why c n) :=
  quiet_add rfl rfl hs hf hl hr

/-- A call that writes nothing canonical and no marker. -/
theorem quiet_call (env : Env) (st : State) (why : Purpose) (cmd : Command) (opts : CallOptions)
    (h : (∀ key nomk trim fields, cmd ≠ .xadd key nomk trim fields) ∨ (why ≠ .canonical ∧ why ≠ .marker)) :
    Quiet st (call env st why cmd opts).2 := by
  have ha : ∀ w ok, (w = .canonical ∨ w = .marker) → attemptOf w (.call why cmd ok) = none := by
    intro w ok hw
    rcases h with h | ⟨h1, h2⟩
    · cases cmd with
      | xadd key nomk trim fields => exact absurd rfl (h key nomk trim fields)
      | sadd _ _ | srem _ _ | xgroupCreate _ _ => rfl
    · rcases hw with rfl | rfl
      · cases cmd <;> simp [attemptOf, h1]
      · cases cmd <;> simp [attemptOf, h2]
  rcases call_cases env st why cmd opts with ⟨ks, _, e⟩ | ⟨msg, e⟩
  · rw [e]
    constructor <;> simp [State.settled, State.attempts, State.markerAttempts, State.value, ha]
  · rw [e]
    constructor <;> simp [State.settled, State.attempts, State.markerAttempts, State.value, ha]

/-- An attempt to write is an attempt of its purpose. -/
theorem settles_xadd (env : Env) (st : State) (why : Purpose) (key : Bytes) (nomk : Bool)
    (trim : Option (TrimKeyword × Str)) (fields : List Bytes) (opts : CallOptions) :
    Settles st (call env st why (.xadd key nomk trim fields) opts).2 []
      (if why = .canonical then [(call env st why (.xadd key nomk trim fields) opts).1.isOk] else [])
      (if why = .marker then [(call env st why (.xadd key nomk trim fields) opts).1.isOk] else []) 0 := by
  rcases call_cases env st why (.xadd key nomk trim fields) opts with ⟨ks, _, e⟩ | ⟨msg, e⟩
  · rw [e]
    refine ⟨by simp [State.settled], ?_, ?_, by simp [State.value], by simp [State.value], by simp [State.value]⟩
    · by_cases h : why = .canonical <;> simp [State.attempts, h, Except.isOk, Except.toBool]
    · by_cases h : why = .marker <;> simp [State.markerAttempts, h, Except.isOk, Except.toBool]
  · rw [e]
    refine ⟨by simp [State.settled], ?_, ?_, by simp [State.value], by simp [State.value], by simp [State.value]⟩
    · by_cases h : why = .canonical <;> simp [State.attempts, h, Except.isOk, Except.toBool]
    · by_cases h : why = .marker <;> simp [State.markerAttempts, h, Except.isOk, Except.toBool]

/-- Probing settles nothing. -/
theorem Probed.quiet {st st' : State} (h : Probed st st') : Quiet st st' := by
  obtain ⟨_, _, _, _, probes, rfl, _, hp⟩ := h
  have ha : ∀ w, (w = .canonical ∨ w = .marker) → probes.filterMap (attemptOf w) = [] := by
    intro w hw
    refine List.filterMap_eq_nil_iff.2 fun o ho => ?_
    have hpo := hp o ho
    unfold isProbe at hpo
    split at hpo
    · rcases hw with rfl | rfl <;> rfl
    · cases hpo
  constructor <;> simp [State.settled, State.attempts, State.markerAttempts, State.value, ha]

theorem selectDb_quiet (env : Env) (st : State) : Quiet st (selectDb env st).2 := .of_eq rfl rfl

/-! ## Drops -/

section Drops

variable (env : Env) (st : State) {why : Purpose} {c : Counter}

/-- A drop that is not canonical settles nothing. -/
theorem countDrop_quiet (latch : Latch) (detail : Str) (hw : why ≠ .canonical ∨ isReason c = false)
    (hf : c ≠ .forwarded) (hl : c ≠ .eventsLost) (hr : c ≠ .repins) :
    Quiet st (countDrop env st why c latch detail) := by
  refine quiet_add rfl rfl ?_ hf hl hr
  rcases hw with hw | hw
  · simp [isSettling, hw]
  · simp [isSettling, hf, hl, hw]

theorem countStreamDrop_quiet (stream detail : Str) (hw : why ≠ .canonical) (hf : c ≠ .forwarded)
    (hl : c ≠ .eventsLost) (hr : c ≠ .repins) : Quiet st (countStreamDrop env st why stream c detail) :=
  quiet_add rfl rfl (by simp [isSettling, hw]) hf hl hr

theorem reason_ne (hc : isReason c = true) : c ≠ .forwarded ∧ c ≠ .eventsLost ∧ c ≠ .repins := by
  refine ⟨?_, ?_, ?_⟩ <;> rintro rfl <;> cases hc

/-- The settlement of a loss: the events, then the reason. -/
def lossOf (n : Nat) (reason : Counter) : List Charge := [⟨.canonical, .eventsLost, n⟩, ⟨.canonical, reason, 1⟩]

theorem settles_loss {st₁ st₃ : State} (st₂ : State) (n : Nat) (hc : isReason c = true)
    (h₁ : st₂.counters = st₁.counters.add .canonical .eventsLost n) (t₁ : st₂.trace = st₁.trace)
    (h₂ : st₃.counters = st₂.counters.add .canonical c 1) (t₂ : st₃.trace = st₂.trace) :
    Settles st₁ st₃ (lossOf n c) [] [] 0 := by
  obtain ⟨hf, hl, hr⟩ := reason_ne hc
  have e₁ := settles_add h₁ t₁ (fun _ => rfl)
  have e₂ := settles_add h₂ t₂ (fun _ => rfl)
  have h := e₁.trans e₂
  simpa [isSettling, hc, hr, lossOf] using h

theorem countEventsLost_settles (n : Nat) (latch : Latch) (detail : Str) (hc : isReason c = true) :
    Settles st (countEventsLost env st .canonical n c latch detail) (lossOf n c) [] [] 0 :=
  settles_loss (st.charge .canonical .eventsLost n) n hc rfl rfl rfl rfl

theorem countEventsLostStream_settles (n : Nat) (stream detail : Str) (hc : isReason c = true) :
    Settles st (countEventsLostStream env st .canonical n stream c detail) (lossOf n c) [] [] 0 :=
  settles_loss (st.charge .canonical .eventsLost n) n hc rfl rfl rfl rfl

theorem countNoSlotDrop_settles : Settles st (countNoSlotDrop env st .canonical true) (lossOf 1 .droppedNoOwnedSlot)
    [] [] 0 :=
  settles_loss (st.charge .canonical .eventsLost 1) 1 rfl rfl rfl rfl rfl

theorem countNoSlotDrop_quiet (hw : why ≠ .canonical) : Quiet st (countNoSlotDrop env st why false) :=
  countDrop_quiet env st _ _ (Or.inl hw) (by decide) (by decide) (by decide)

end Drops

/-! ## Markers -/

theorem recoverStream_quiet (st : State) (stream : Str) : Quiet st (recoverStream st stream) := by
  unfold recoverStream
  split
  · exact .refl st
  · split
    · exact .refl st
    · exact .of_eq rfl rfl

/-- A control entry for a marker settles nothing and is attempted at most once. -/
theorem writeControlEntry_settles (env : Env) (st : State) (control : Str) (action : Action) (retention : Retention)
    (extra : List (Str × Str)) (kind : Str) :
    ∃ marks, Settles st (writeControlEntry env st .marker control action retention extra .controlMarkers
      kind) [] [] marks 0 ∧ marks.length ≤ 1 := by
  unfold writeControlEntry
  have hsel := selectDb_quiet env st
  cases hs : selectDb env st with
  | mk ok st₁ =>
    rw [hs] at hsel
    cases ok with
    | false =>
      exact ⟨[], (countDrop_quiet env st₁ _ _ (Or.inl (by decide)) (by decide) (by decide) (by decide)).after hsel,
        by simp⟩
    | true =>
      simp only
      have hx := settles_xadd env st₁ .marker (utf8 control) false (trimOf env st₁ retention)
        (controlFields st₁ action extra) (xaddCallOptions st₁)
      cases hr : call env st₁ .marker (.xadd (utf8 control) false (trimOf env st₁ retention)
        (controlFields st₁ action extra)) (xaddCallOptions st₁) with
      | mk r st₂ =>
        rw [hr] at hx
        refine ⟨[r.isOk], ?_, by simp⟩
        refine Settles.before (hx.after hsel) ?_
        cases r with
        | ok _ =>
          exact (recoverStream_quiet _ control).after
            (quiet_add rfl rfl (by decide) (by decide) (by decide) (by decide))
        | error msg =>
          simp only
          split
          · exact countStreamDrop_quiet env st₂ _ _ (by decide) (by decide) (by decide) (by decide)
          · exact countStreamDrop_quiet env st₂ _ _ (by decide) (by decide) (by decide) (by decide)

theorem writeMarker_settles (env : Env) (st : State) (control : Str) (action : Action) (db : Option Int32)
    (retention : Retention) :
    ∃ marks, Settles st (writeMarker env st control action db retention) [] [] marks 0 ∧ marks.length ≤ 1 :=
  writeControlEntry_settles env st control action retention _ _

/-! ## One mirrored write -/

theorem createAutoGroup_quiet (env : Env) (st : State) (why : Purpose) (stream group : Str) :
    Quiet st (createAutoGroup env st why stream group).2 := by
  unfold createAutoGroup
  have hq := quiet_call env st why (.xgroupCreate (utf8 stream) (utf8 group)) (xaddCallOptions st) (Or.inl (by simp))
  cases hr : call env st why (.xgroupCreate (utf8 stream) (utf8 group)) (xaddCallOptions st) with
  | mk r st₁ =>
    rw [hr] at hq
    refine Settles.before hq ?_
    cases r with
    | ok _ => exact quiet_add rfl rfl (by simp [isSettling, isReason]) (by decide) (by decide) (by decide)
    | error msg =>
      simp only
      split
      · exact .refl st₁
      · exact countDrop_quiet env st₁ _ _ (Or.inr rfl) (by decide) (by decide) (by decide)

theorem registerStream_quiet (env : Env) (st : State) (why : Purpose) (registry stream : Str) :
    Quiet st (registerStream env st why registry stream) := by
  unfold registerStream
  split
  · exact .refl st
  · have hq := quiet_call env st why (.sadd (utf8 registry) (utf8 stream)) (xaddCallOptions st) (Or.inl (by simp))
    cases hr : call env st why (.sadd (utf8 registry) (utf8 stream)) (xaddCallOptions st) with
    | mk r st₁ =>
      rw [hr] at hq
      refine Settles.before hq ?_
      cases r with
      | ok _ => exact .of_eq rfl rfl
      | error msg => exact quiet_add rfl rfl (by simp [isSettling, isReason]) (by decide) (by decide) (by decide)

theorem provisionGroup_quiet (env : Env) (st : State) (why : Purpose) (stream : Str) :
    Quiet st (provisionGroup env st why stream) := by
  unfold provisionGroup
  split
  · cases groupName st with
    | none => exact .refl st
    | some group =>
      have hq := createAutoGroup_quiet env st why stream group
      simp only
      cases hr : createAutoGroup env st why stream group with
      | mk r st₁ =>
        rw [hr] at hq
        refine Settles.before hq ?_
        cases r with
        | true => exact .of_eq rfl rfl
        | false => exact .refl st₁
  · exact .refl st

/-- Registration and group provisioning settle nothing. -/
theorem sideEffects_quiet (env : Env) (st : State) (why : Purpose) (registry stream : Str) :
    Quiet st (provisionGroup env (registerStream env st why registry stream) why stream) :=
  (provisionGroup_quiet env _ why stream).after (registerStream_quiet env st why registry stream)

/-- A written entry settles what its counter says. -/
theorem recordWrite_settles (st : State) (why : Purpose) (stream : Str) (c : Counter) (n : Nat)
    (hw : c = .forwarded ∨ c = .eventsLost → why = .canonical) :
    Settles st (recordWrite st why stream c n) (if isSettling ⟨why, c, n⟩ then [⟨why, c, n⟩] else []) [] []
      (if c = .repins then n else 0) := by
  have h : Settles st (st.charge why c n) (if isSettling ⟨why, c, n⟩ then [⟨why, c, n⟩] else []) [] []
      (if c = .repins then n else 0) := settles_add rfl rfl hw
  refine h.before ?_
  by_cases hc : (st.stats stream).counted
  · exact .of_eq (by simp [recordWrite, hc, State.charge]) rfl
  · have hadd : (recordWrite st why stream c n).counters = (st.charge why c n).counters.add why .activeStreams 1 := by
      simp [recordWrite, hc, State.charge]
    exact quiet_add hadd rfl (by simp [isSettling, isReason]) (by decide) (by decide) (by decide)

/-- The attempts an outcome of a canonical write stands for. -/
def triesOf : MirrorOutcome → List Bool
  | .written => [true]
  | .maxStreams _ | .encodeError _ _ => []
  | _ => [false]

/-- What an outcome of a canonical write has settled. -/
def chargesOf (n : Nat) : MirrorOutcome → List Charge
  | .written => [⟨.canonical, .forwarded, n⟩]
  | _ => []

theorem classify_tries (stream msg : Str) (n : Nat) :
    triesOf (classify stream msg) = [false] ∧ chargesOf n (classify stream msg) = [] := by
  unfold classify
  split_ifs <;> exact ⟨rfl, rfl⟩

/-- One canonical write: what it tried and what it settled follow from its outcome. -/
theorem mirrorFields_settles (env : Env) (st : State) (pfx seg suffix : Str) (fields : List Bytes)
    (retention : Retention) (maxStreams : Int) (n : Nat) {o : MirrorOutcome} {st' : State}
    (h : mirrorFields env st pfx seg suffix fields retention maxStreams .forwarded n = (o, st')) :
    Settles st st' (chargesOf n o) (triesOf o) [] 0 := by
  simp only [mirrorFields, purposeOf, if_true] at h
  split at h
  · injection h with ho hs
    subst ho hs
    exact .refl st
  · have hx := settles_xadd env st .canonical (utf8 (streamOf pfx seg suffix)) false (trimOf env st retention) fields
      (xaddCallOptions st)
    cases hr : call env st .canonical (.xadd (utf8 (streamOf pfx seg suffix)) false (trimOf env st retention) fields)
      (xaddCallOptions st) with
    | mk r st₁ =>
      rw [hr] at hx h
      cases r with
      | ok _ =>
        injection h with ho hs
        subst ho hs
        have hw := recordWrite_settles st₁ .canonical (streamOf pfx seg suffix) .forwarded n (fun _ => rfl)
        have hall := (hx.trans hw).before (sideEffects_quiet env _ .canonical (registryOf pfx seg)
          (streamOf pfx seg suffix))
        simpa [isSettling, chargesOf, triesOf, Except.isOk, Except.toBool] using hall
      | error msg =>
        injection h with ho hs
        subst ho hs
        rw [(classify_tries _ msg n).1, (classify_tries _ msg n).2]
        exact hx

theorem mirrorEntry_settles (env : Env) (st : State) (pfx seg suffix : Str) (spec : EntrySpec) (retention : Retention)
    (maxStreams : Int) {o : MirrorOutcome} {st' : State}
    (h : mirrorEntry env st pfx seg suffix spec retention maxStreams .forwarded = (o, st')) :
    Settles st st' (chargesOf 1 o) (triesOf o) [] 0 := by
  unfold mirrorEntry at h
  cases he : encodeEntryFields spec with
  | error reason =>
    rw [he] at h
    injection h with ho hs
    subst ho hs
    exact .refl st
  | ok fields =>
    rw [he] at h
    exact mirrorFields_settles env st pfx seg suffix fields retention maxStreams 1 h

/-! ## The firehose copy -/

theorem mirrorEntry_firehose_quiet (env : Env) (st : State) (pfx seg suffix : Str) (spec : EntrySpec)
    (retention : Retention) (maxStreams : Int) :
    Quiet st (mirrorEntry env st pfx seg suffix spec retention maxStreams .firehoseForwarded).2 := by
  unfold mirrorEntry
  cases encodeEntryFields spec with
  | error reason => exact .refl st
  | ok fields =>
    have hp : purposeOf .firehoseForwarded = .firehose := rfl
    simp only [mirrorFields, hp]
    split
    · exact .refl st
    · have hx := settles_xadd env st .firehose (utf8 (streamOf pfx seg suffix)) false (trimOf env st retention) fields
        (xaddCallOptions st)
      cases hr : call env st .firehose (.xadd (utf8 (streamOf pfx seg suffix)) false (trimOf env st retention) fields)
        (xaddCallOptions st) with
      | mk r st₁ =>
        rw [hr] at hx
        refine Settles.before hx ?_
        cases r with
        | ok _ =>
          have hw := recordWrite_settles st₁ .firehose (streamOf pfx seg suffix) .firehoseForwarded 1 (by simp)
          exact Settles.before hw (sideEffects_quiet env _ .firehose (registryOf pfx seg) (streamOf pfx seg suffix))
        | error msg => exact .refl st₁

/-- The firehose copy, written or refused, settles nothing. -/
theorem mirrorFirehose_quiet (env : Env) (st : State) (pfx : Str) (spec : EntrySpec) (retention : Retention) :
    Quiet st (mirrorFirehose env st pfx spec retention) := by
  unfold mirrorFirehose
  have ht := (tagSegment_probed env st).quiet
  cases hs : tagSegment env st with
  | mk seg st₁ =>
    rw [hs] at ht
    refine Settles.before ht ?_
    cases seg with
    | none => exact countNoSlotDrop_quiet env st₁ (by decide)
    | some seg =>
      have hm := mirrorEntry_firehose_quiet env st₁ pfx seg "#firehose".toList spec retention 0
      simp only
      cases hr : mirrorEntry env st₁ pfx seg "#firehose".toList spec retention 0 .firehoseForwarded with
      | mk o st₂ =>
        rw [hr] at hm
        refine Settles.before hm ?_
        cases o with
        | written => exact .refl st₂
        | maxStreams _ => exact .refl st₂
        | oom _ _ => exact countStreamDrop_quiet env st₂ _ _ (by decide) (by decide) (by decide) (by decide)
        | failed _ _ => exact countStreamDrop_quiet env st₂ _ _ (by decide) (by decide) (by decide) (by decide)
        | slotMigrated => exact countDrop_quiet env st₂ _ _ (Or.inl (by decide)) (by decide) (by decide) (by decide)
        | migrating _ => exact countDrop_quiet env st₂ _ _ (Or.inl (by decide)) (by decide) (by decide) (by decide)
        | encodeError _ _ => exact countDrop_quiet env st₂ _ _ (Or.inl (by decide)) (by decide) (by decide) (by decide)

/-! ## Single events -/

/-- The settlement of `n` events: forwarded by one successful write, or lost for one reason without any. -/
def Settlement (n : Nat) (charges : List Charge) (tries : List Bool) : Prop :=
  (charges = [⟨.canonical, .forwarded, n⟩] ∧ tries.count true = 1) ∨
    ∃ reason, isReason reason = true ∧ charges = lossOf n reason ∧ tries.count true = 0

/-- A write that settled nothing, followed by the loss of its events. -/
theorem settlement_lost {st st₁ st₂ : State} {tries marks : List Bool} {repins n : Nat} {reason : Counter}
    (h : Settles st st₁ [] tries marks repins) (hl : Settles st₁ st₂ (lossOf n reason) [] [] 0)
    (hr : isReason reason = true) (ht : tries.count true = 0) :
    ∃ charges, Settles st st₂ charges tries marks repins ∧ Settlement n charges tries := by
  have := h.trans hl
  simp only [List.nil_append, List.append_nil, Nat.add_zero] at this
  exact ⟨lossOf n reason, this, Or.inr ⟨reason, hr, rfl, ht⟩⟩

/-- The retry after a re-pin settles the event: one attempt at most, one marker at most, one re-pin. -/
theorem repinAndRetry_settles (env : Env) (st : State) (pfx suffix : Str) (spec : EntrySpec)
    (retention control : Retention) (maxStreams : Int) :
    ∃ charges tries marks, Settles st (repinAndRetry env st pfx suffix spec retention control maxStreams) charges tries
      marks 1 ∧ Settlement 1 charges tries ∧ tries.length ≤ 1 ∧ marks.length ≤ 1 := by
  have h₀ :
      Settles st ({ st with nodeTag := none, probeVerifiedTag := none }.charge .canonical .repins 1) [] [] [] 1 := by
    have hadd : ({ st with nodeTag := none, probeVerifiedTag := none }.charge .canonical .repins 1).counters =
      st.counters.add .canonical .repins 1 := rfl
    exact settles_add hadd rfl (fun _ => rfl)
  simp only [repinAndRetry]
  generalize { st with nodeTag := none, probeVerifiedTag := none }.charge .canonical .repins 1 = st₀ at h₀ ⊢
  have ht := (tagSegment_probed env st₀).quiet
  cases hs : tagSegment env st₀ with
  | mk seg st₁ =>
    rw [hs] at ht
    have h₁ := h₀.before ht
    cases seg with
    | none =>
      obtain ⟨charges, hc, hset⟩ := settlement_lost h₁ (countNoSlotDrop_settles env st₁) rfl rfl
      exact ⟨charges, [], [], hc, hset, by simp, by simp⟩
    | some seg =>
      obtain ⟨marks, hm, hlen⟩ := writeMarker_settles env st₁ (controlStreamOf pfx seg) .repinned none control
      have h₂ := h₁.trans hm
      simp only [List.append_nil, List.nil_append, Nat.add_zero] at h₂
      simp only
      generalize writeMarker env st₁ (controlStreamOf pfx seg) .repinned none control = st₂ at h₂ ⊢
      cases hr : mirrorEntry env st₂ pfx seg suffix spec retention maxStreams .forwarded with
      | mk o st₃ =>
        have h₃ := h₂.trans (mirrorEntry_settles env st₂ pfx seg suffix spec retention maxStreams hr)
        simp only [List.append_nil, List.nil_append, Nat.add_zero] at h₃
        -- Every outcome but a written entry ends in the loss of the event.
        cases o with
        | written => exact ⟨_, _, marks, h₃, Or.inl ⟨rfl, rfl⟩, by simp [triesOf], hlen⟩
        | oom stream msg =>
          obtain ⟨charges, hc, hset⟩ :=
            settlement_lost h₃ (countEventsLostStream_settles env st₃ 1 stream msg (c := .droppedOom) rfl) rfl rfl
          exact ⟨charges, _, marks, hc, hset, by simp [triesOf], hlen⟩
        | failed stream msg =>
          obtain ⟨charges, hc, hset⟩ :=
            settlement_lost h₃ (countEventsLostStream_settles env st₃ 1 stream msg (c := .droppedXaddError) rfl) rfl rfl
          exact ⟨charges, _, marks, hc, hset, by simp [triesOf], hlen⟩
        | slotMigrated =>
          obtain ⟨charges, hc, hset⟩ :=
            settlement_lost h₃ (countEventsLost_settles env st₃ 1 _ _ (c := .droppedMigrating) rfl) rfl rfl
          exact ⟨charges, _, marks, hc, hset, by simp [triesOf], hlen⟩
        | migrating msg =>
          obtain ⟨charges, hc, hset⟩ :=
            settlement_lost h₃ (countEventsLost_settles env st₃ 1 _ _ (c := .droppedMigrating) rfl) rfl rfl
          exact ⟨charges, _, marks, hc, hset, by simp [triesOf], hlen⟩
        | maxStreams stream =>
          obtain ⟨charges, hc, hset⟩ :=
            settlement_lost h₃ (countEventsLost_settles env st₃ 1 _ _ (c := .droppedMaxStreams) rfl) rfl rfl
          exact ⟨charges, _, marks, hc, hset, by simp [triesOf], hlen⟩
        | encodeError stream reason =>
          obtain ⟨charges, hc, hset⟩ :=
            settlement_lost h₃ (countEventsLost_settles env st₃ 1 _ _ (c := .droppedEncodeError) rfl) rfl rfl
          exact ⟨charges, _, marks, hc, hset, by simp [triesOf], hlen⟩

/-- The canonical write of an event settles it: two attempts at most, and one re-pin at most with its marker. -/
theorem settleEvent_settles (env : Env) (st : State) (event : PendingEvent) (seg : Str) (spec : EntrySpec) :
    ∃ charges tries marks repins, Settles st (settleEvent env st event seg spec) charges tries marks repins ∧
      Settlement 1 charges tries ∧ tries.length ≤ 2 ∧ repins ≤ 1 ∧ marks.length ≤ repins := by
  unfold settleEvent
  -- A refused first attempt adds nothing to the retry but itself.
  have hretry : ∀ {st₁ st₂ : State}, Settles st st₁ [] [false] [] 0 → Quiet st₁ st₂ → ∃ charges tries marks repins,
      Settles st (repinAndRetry env st₂ event.pfx event.suffix spec event.dataRetention event.controlRetention
        event.maxStreams) charges tries marks repins ∧
        Settlement 1 charges tries ∧ tries.length ≤ 2 ∧ repins ≤ 1 ∧ marks.length ≤ repins := by
    intro st₁ st₂ h hq
    obtain ⟨charges, tries, marks, hs, hset, ht, hm⟩ := repinAndRetry_settles env st₂ event.pfx event.suffix spec
      event.dataRetention event.controlRetention event.maxStreams
    refine ⟨_, _, _, _, (h.before hq).trans hs, ?_, by simp; omega, by simp, by simpa using hm⟩
    simpa [Settlement] using hset
  cases hr : mirrorEntry env st event.pfx seg event.suffix spec event.dataRetention event.maxStreams .forwarded with
  | mk o st₁ =>
    have h := mirrorEntry_settles env st event.pfx seg event.suffix spec event.dataRetention event.maxStreams hr
    cases o with
    | written => exact ⟨_, _, [], 0, h, Or.inl ⟨rfl, rfl⟩, by simp [triesOf], by simp, by simp⟩
    | slotMigrated => exact hretry h (.refl st₁)
    | migrating msg => exact hretry h (.refl st₁)
    | failed stream msg =>
      have hp := (pinnedTagLostByProbe_probed env st₁).quiet
      simp only
      cases hl : pinnedTagLostByProbe env st₁ with
      | mk lost st₂ =>
        rw [hl] at hp
        cases lost with
        | true =>
          exact hretry h (hp.before (charge_quiet st₂ 1 (by decide) (by decide) (by decide) (by decide)))
        | false =>
          obtain ⟨charges, hc, hset⟩ := settlement_lost (h.before hp)
            (countEventsLostStream_settles env st₂ 1 stream msg (c := .droppedXaddError) rfl) rfl rfl
          exact ⟨charges, _, [], 0, hc, hset, by simp [triesOf], by simp, by simp⟩
    | oom stream msg =>
      obtain ⟨charges, hc, hset⟩ :=
        settlement_lost h (countEventsLostStream_settles env st₁ 1 stream msg (c := .droppedOom) rfl) rfl rfl
      exact ⟨charges, _, [], 0, hc, hset, by simp [triesOf], by simp, by simp⟩
    | maxStreams stream =>
      obtain ⟨charges, hc, hset⟩ :=
        settlement_lost h (countEventsLost_settles env st₁ 1 _ _ (c := .droppedMaxStreams) rfl) rfl rfl
      exact ⟨charges, _, [], 0, hc, hset, by simp [triesOf], by simp, by simp⟩
    | encodeError stream reason =>
      obtain ⟨charges, hc, hset⟩ :=
        settlement_lost h (countEventsLost_settles env st₁ 1 _ _ (c := .droppedEncodeError) rfl) rfl rfl
      exact ⟨charges, _, [], 0, hc, hset, by simp [triesOf], by simp, by simp⟩

theorem takeSeq_quiet (st : State) (entrySeq : Bool) : Quiet st (takeSeq st entrySeq).2 := by
  unfold takeSeq
  split
  · exact .of_eq rfl rfl
  · exact .refl st

/-- A call for one event settles that event. -/
theorem processPendingEvent_settles (env : Env) (st : State) (event : PendingEvent) :
    ∃ charges tries marks repins, Settles st (processPendingEvent env st event) charges tries marks repins ∧
      Settlement 1 charges tries ∧ tries.length ≤ 2 ∧ repins ≤ 1 ∧ marks.length ≤ repins := by
  unfold processPendingEvent
  have hsel := selectDb_quiet env st
  cases hs : selectDb env st with
  | mk ok st₁ =>
    rw [hs] at hsel
    cases ok with
    | false =>
      obtain ⟨charges, hc, hset⟩ := settlement_lost hsel
        (countEventsLost_settles env st₁ 1 .xaddError "SelectDb(0) failed; entry dropped".toList
          (c := .droppedXaddError) rfl) rfl rfl
      exact ⟨charges, [], [], 0, hc, hset, by simp, by simp, by simp⟩
    | true =>
      have ht := (tagSegment_probed env st₁).quiet
      simp only
      cases hseg : tagSegment env st₁ with
      | mk seg st₂ =>
        rw [hseg] at ht
        have h₂ := hsel.before ht
        cases seg with
        | none =>
          obtain ⟨charges, hc, hset⟩ := settlement_lost h₂ (countNoSlotDrop_settles env st₂) rfl rfl
          exact ⟨charges, [], [], 0, hc, hset, by simp, by simp, by simp⟩
        | some seg =>
          have hq := h₂.before (takeSeq_quiet st₂ event.entrySeq)
          obtain ⟨charges, tries, marks, repins, hset, hrest⟩ := settleEvent_settles env
            (takeSeq st₂ event.entrySeq).2 event seg (entrySpec event (takeSeq st₂ event.entrySeq).1)
          refine ⟨charges, tries, marks, repins, ?_, hrest⟩
          simp only
          split
          · exact (hset.after hq).before (mirrorFirehose_quiet env _ event.pfx _ event.firehoseRetention)
          · exact hset.after hq

/-! ## Envelopes -/

/-- The events of an envelope lie on one side: all forwarded, or all lost. -/
def OneSide (n : Nat) (st st' : State) : Prop :=
  (st'.value .forwarded = st.value .forwarded + n ∧ st'.value .eventsLost = st.value .eventsLost) ∨
    (st'.value .forwarded = st.value .forwarded ∧ st'.value .eventsLost = st.value .eventsLost + n)

theorem oneSide_of_settlement {st st' : State} {n : Nat} {charges : List Charge} {tries marks : List Bool}
    {repins : Nat} (h : Settles st st' charges tries marks repins) (hs : Settlement n charges tries) :
    OneSide n st st' := by
  rcases hs with ⟨rfl, _⟩ | ⟨reason, hr, rfl, _⟩
  · exact Or.inl ⟨by rw [h.forwarded]; simp, by rw [h.eventsLost]; simp⟩
  · obtain ⟨hf, hl, _⟩ := reason_ne hr
    exact Or.inr ⟨by rw [h.forwarded]; simp [lossOf, charged, hf], by rw [h.eventsLost]; simp [lossOf, charged, hl]⟩

/-- Without an owned slot every event of an envelope is counted by itself. -/
theorem noSlotDrops_oneSide (env : Env) (n : Nat) (st : State) :
    ((List.range n).foldl (fun st _ => countNoSlotDrop env st .canonical true) st).value .forwarded =
        st.value .forwarded ∧
      ((List.range n).foldl (fun st _ => countNoSlotDrop env st .canonical true) st).value .eventsLost =
        st.value .eventsLost + n := by
  induction n with
  | zero => exact ⟨rfl, rfl⟩
  | succ n ih =>
    rw [List.range_succ, List.foldl_append]
    have h := countNoSlotDrop_settles env ((List.range n).foldl (fun st _ => countNoSlotDrop env st .canonical true) st)
    refine ⟨h.forwarded.trans ?_, h.eventsLost.trans ?_⟩
    · rw [ih.1]; rfl
    · rw [ih.2]; rfl

/-- A call for an envelope settles its events on one side. -/
theorem processPendingEnvelope_oneSide (env : Env) (st : State) (events : List PendingEvent) (fields : List Bytes) :
    OneSide events.length st (processPendingEnvelope env st events fields) := by
  cases events with
  | nil => exact Or.inl ⟨rfl, rfl⟩
  | cons first rest =>
    simp only [processPendingEnvelope]
    generalize hn : (first :: rest).length = n
    have hsel := selectDb_quiet env st
    cases hs : selectDb env st with
    | mk ok st₁ =>
      rw [hs] at hsel
      cases ok with
      | false =>
        obtain ⟨charges, hc, hset⟩ := settlement_lost hsel
          (countEventsLost_settles env st₁ n .xaddError "SelectDb(0) failed; batch entry dropped".toList
            (c := .droppedXaddError) rfl) rfl rfl
        exact oneSide_of_settlement hc hset
      | true =>
        have ht := (tagSegment_probed env st₁).quiet
        simp only
        cases hseg : tagSegment env st₁ with
        | mk seg st₂ =>
          rw [hseg] at ht
          have h₂ : Quiet st st₂ := hsel.before ht
          cases seg with
          | none =>
            obtain ⟨hf, hl⟩ := noSlotDrops_oneSide env n st₂
            exact Or.inr ⟨hf.trans h₂.forwarded, hl.trans (by rw [h₂.eventsLost]; rfl)⟩
          | some seg =>
            simp only
            cases hr : mirrorFields env st₂ first.pfx seg first.suffix fields first.dataRetention first.maxStreams
              .forwarded n with
            | mk o st₃ =>
              have h₃ := (mirrorFields_settles env st₂ first.pfx seg first.suffix fields first.dataRetention
                first.maxStreams n hr).after h₂
              cases o with
              | written =>
                have hq : Quiet st₃ ((st₃.charge .canonical .asyncEnvelopes 1).charge .canonical
                    .asyncEnvelopeEvents n) :=
                  (charge_quiet _ n (by simp [isSettling, isReason]) (by decide) (by decide) (by decide)).after
                    (charge_quiet st₃ 1 (by decide) (by decide) (by decide) (by decide))
                exact oneSide_of_settlement (h₃.before hq) (Or.inl ⟨rfl, rfl⟩)
              | oom stream msg =>
                obtain ⟨charges, hc, hset⟩ :=
                  settlement_lost h₃ (countEventsLostStream_settles env st₃ n stream msg (c := .droppedOom) rfl) rfl rfl
                exact oneSide_of_settlement hc hset
              | failed stream msg =>
                obtain ⟨charges, hc, hset⟩ := settlement_lost h₃
                  (countEventsLostStream_settles env st₃ n stream msg (c := .droppedXaddError) rfl) rfl rfl
                exact oneSide_of_settlement hc hset
              | slotMigrated =>
                obtain ⟨charges, hc, hset⟩ :=
                  settlement_lost h₃ (countEventsLost_settles env st₃ n _ _ (c := .droppedMigrating) rfl) rfl rfl
                exact oneSide_of_settlement hc hset
              | migrating msg =>
                obtain ⟨charges, hc, hset⟩ :=
                  settlement_lost h₃ (countEventsLost_settles env st₃ n _ _ (c := .droppedMigrating) rfl) rfl rfl
                exact oneSide_of_settlement hc hset
              | maxStreams stream =>
                obtain ⟨charges, hc, hset⟩ :=
                  settlement_lost h₃ (countEventsLost_settles env st₃ n _ _ (c := .droppedMaxStreams) rfl) rfl rfl
                exact oneSide_of_settlement hc hset
              | encodeError stream reason =>
                obtain ⟨charges, hc, hset⟩ :=
                  settlement_lost h₃ (countEventsLost_settles env st₃ n _ _ (c := .droppedEncodeError) rfl) rfl rfl
                exact oneSide_of_settlement hc hset

/-! ## Sequences of calls -/

theorem process_oneSide (env : Env) (st : State) (h : Handoff) : OneSide h.events.length st (h.process env st) := by
  cases h with
  | event e =>
    obtain ⟨charges, tries, marks, repins, hs, hset, _⟩ := processPendingEvent_settles env st e
    exact oneSide_of_settlement hs hset
  | envelope events fields => exact processPendingEnvelope_oneSide env st events fields

/-- Over a sequence of calls, what is forwarded and what is lost add up to what was handed over. -/
theorem processAll_total (env : Env) (st : State) (calls : List Handoff) :
    (processAll env st calls).value .forwarded + (processAll env st calls).value .eventsLost =
      st.value .forwarded + st.value .eventsLost + (calls.map fun h => h.events.length).sum := by
  induction calls generalizing st with
  | nil => simp
  | cons h calls ih =>
    rw [processAll_cons, ih, List.map_cons, List.sum_cons]
    rcases process_oneSide env st h with ⟨hf, hl⟩ | ⟨hf, hl⟩
    · omega
    · omega

/-- **Loss accounting is exact.** After any sequence of calls, a call for one event raises `FORWARDED + EVENTS_LOST` by
one: `FORWARDED` with exactly one successful canonical write, or `EVENTS_LOST` with none and one canonical reason. It
makes at most two canonical attempts and at most one re-pin with at most one marker; the firehose copy changes neither
counter; a call for an envelope raises the sum by its number of events, all on one side. -/
theorem settled_exactly_once (env : Env) (st : State) (calls : List Handoff) :
    (∀ e : PendingEvent, ∃ charges tries marks,
      (processAll env st (calls ++ [.event e])).settled = (processAll env st calls).settled ++ charges ∧
      (processAll env st (calls ++ [.event e])).attempts = (processAll env st calls).attempts ++ tries ∧
      (processAll env st (calls ++ [.event e])).markerAttempts = (processAll env st calls).markerAttempts ++ marks ∧
      (((processAll env st (calls ++ [.event e])).value .forwarded = (processAll env st calls).value .forwarded + 1 ∧
          (processAll env st (calls ++ [.event e])).value .eventsLost = (processAll env st calls).value .eventsLost ∧
          tries.count true = 1 ∧ charges = [⟨.canonical, .forwarded, 1⟩]) ∨
        ((processAll env st (calls ++ [.event e])).value .forwarded = (processAll env st calls).value .forwarded ∧
          (processAll env st (calls ++ [.event e])).value .eventsLost =
            (processAll env st calls).value .eventsLost + 1 ∧
          tries.count true = 0 ∧ ∃ reason, isReason reason = true ∧
            charges = [⟨.canonical, .eventsLost, 1⟩, ⟨.canonical, reason, 1⟩])) ∧
      tries.length ≤ 2 ∧
      (processAll env st (calls ++ [.event e])).value .repins ≤ (processAll env st calls).value .repins + 1 ∧
      (processAll env st calls).value .repins + marks.length ≤
        (processAll env st (calls ++ [.event e])).value .repins) ∧
    (∀ pfx spec retention,
      (mirrorFirehose env (processAll env st calls) pfx spec retention).value .forwarded =
          (processAll env st calls).value .forwarded ∧
        (mirrorFirehose env (processAll env st calls) pfx spec retention).value .eventsLost =
          (processAll env st calls).value .eventsLost) ∧
    (∀ events fields, OneSide events.length (processAll env st calls)
      (processAll env st (calls ++ [.envelope events fields]))) ∧
    (processAll env st calls).value .forwarded + (processAll env st calls).value .eventsLost =
      st.value .forwarded + st.value .eventsLost + (calls.map fun h => h.events.length).sum := by
  simp only [processAll_append, processAll_cons, processAll_nil]
  generalize hb : processAll env st calls = before
  refine ⟨fun e => ?_, fun pfx spec retention => ?_, fun events fields => ?_, ?_⟩
  · obtain ⟨charges, tries, marks, repins, hs, hset, ht, hr, hm⟩ := processPendingEvent_settles env before e
    refine ⟨charges, tries, marks, hs.settled, hs.attempts, hs.markerAttempts, ?_, ht, ?_, ?_⟩
    · rcases hset with ⟨rfl, hc⟩ | ⟨reason, hreason, rfl, hc⟩
      · exact Or.inl ⟨hs.forwarded, hs.eventsLost, hc, rfl⟩
      · obtain ⟨hf, hl, _⟩ := reason_ne hreason
        exact Or.inr ⟨hs.forwarded.trans (by simp [lossOf, charged, hf]),
          hs.eventsLost.trans (by simp [lossOf, charged, hl]), hc, reason, hreason, rfl⟩
    · exact (le_of_eq hs.repins).trans (Nat.add_le_add_left hr _)
    · exact (Nat.add_le_add_left hm _).trans (le_of_eq hs.repins.symm)
  · have hq := mirrorFirehose_quiet env before pfx spec retention
    exact ⟨hq.forwarded, hq.eventsLost⟩
  · exact process_oneSide env before (.envelope events fields)
  · rw [← hb]
    exact processAll_total env st calls

end EventStream

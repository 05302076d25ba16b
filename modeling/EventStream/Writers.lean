import EventStream.Steps

/-!
# What a writer leaves alone

The writers of the capture path count what they write, drop and provision, and name the generation in every control
entry. `Writes` says what such a change of the state leaves alone: the counters of the notification gates, of the queue
and of the checkpoints, and the name of the generation. The processors of events do (`process_writes`); what a marker
writes is said by `writeMarker_calls`.
-/

namespace EventStream

open Text (Str Bytes utf8)

/-- The counters that a writer may raise. -/
def Counter.ofWrites : Counter → Bool
  | .forwarded | .eventsLost | .firehoseForwarded | .autogroupCreated | .autogroupFailed | .droppedXaddError
  | .droppedOom | .droppedDeferError | .droppedEncodeError | .droppedMaxStreams | .droppedNoOwnedSlot
  | .droppedMigrating | .activeStreams | .registryErrors | .repins | .repinsProbeDetected | .controlMarkers
  | .asyncEnvelopes | .asyncEnvelopeEvents => true
  | _ => false

/-- The call of a gap marker or of a checkpoint. -/
def Occurrence.isControl : Occurrence → Bool
  | .call .marker _ _ | .call .checkpoint _ _ => true
  | _ => false

/-- The fields of a control entry of a generation. -/
def signedFields (generation : Str) (action : Action) (extra : List (Str × Str)) : List Bytes :=
  [lit "action", utf8 action.text, lit "module-version", utf8 moduleVersion, lit "generation", utf8 generation] ++
    extra.flatMap fun p => [utf8 p.1, utf8 p.2]

/-- The names that every control entry starts with. -/
def controlNames : List Str := ["action".toList, "module-version".toList, "generation".toList]

/-- A control entry of a generation with this action. -/
def Signed (generation : Str) (action : Action) (o : Occurrence) : Prop :=
  ∃ why control trim extra ok, (controlNames ++ extra.map Prod.fst).Nodup ∧
    o = .call why (.xadd (utf8 control) false trim (signedFields generation action extra)) ok

/-- The other counters and the generation stay, and the only control entries are those of a new pin. -/
structure Writes (st st' : State) : Prop where
  value : ∀ c : Counter, c.ofWrites = false → st'.value c = st.value c
  generation : st'.generationId = st.generationId
  calls : ∃ new, st'.trace = st.trace ++ new ∧ ∀ o ∈ new, o.isControl = true → Signed st.generationId .repinned o

namespace Writes

variable {st st' st'' : State}

theorem trans (h : Writes st st') (h' : Writes st' st'') : Writes st st'' := by
  obtain ⟨new, htrace, hnew⟩ := h.calls
  obtain ⟨new', htrace', hnew'⟩ := h'.calls
  refine ⟨fun c hc => (h'.value c hc).trans (h.value c hc), h'.generation.trans h.generation, new ++ new', ?_, ?_⟩
  · rw [htrace', htrace, List.append_assoc]
  · intro o ho hcontrol
    rcases List.mem_append.1 ho with ho | ho
    · exact hnew o ho hcontrol
    · have hsigned := hnew' o ho hcontrol
      rw [h.generation] at hsigned
      exact hsigned

theorem of_eq (hc : st'.counters = st.counters) (hg : st'.generationId = st.generationId) (ht : st'.trace = st.trace) :
    Writes st st' :=
  ⟨fun c _ => by rw [State.value, State.value, hc], hg, [], by rw [ht, List.append_nil], fun o ho => by cases ho⟩

theorem refl (st : State) : Writes st st := .of_eq rfl rfl rfl

/-- An increment of a writer's counter. -/
theorem of_add {why : Purpose} {c : Counter} {n : Nat} (h : st'.counters = st.counters.add why c n)
    (hg : st'.generationId = st.generationId) (ht : st'.trace = st.trace) (hc : c.ofWrites = true) : Writes st st' := by
  refine ⟨fun d hd => ?_, hg, [], by rw [ht, List.append_nil], fun o ho => by cases ho⟩
  have hne : d ≠ c := by
    rintro rfl
    rw [hc] at hd
    cases hd
  rw [State.value, State.value, h, Counters.add_value, if_neg hne]

theorem of_probed (h : Probed st st') : Writes st st' := by
  obtain ⟨_, _, _, _, probes, rfl, -, hprobes⟩ := h
  refine ⟨fun _ _ => rfl, rfl, probes, rfl, fun o ho hcontrol => ?_⟩
  have hprobe := hprobes o ho
  cases o with
  | call why cmd ok =>
    cases why with
    | marker | checkpoint => cases hprobe
    | canonical | firehose | probe | dispatch | prune => cases hcontrol
  | cleared | pruned name => cases hcontrol

/-- A call of a writer: the entry of a new pin if it is one of a control stream. -/
theorem of_call {env : Env} {why : Purpose} {cmd : Command} {opts : CallOptions} {r : Except Str Unit}
    (h : call env st why cmd opts = (r, st'))
    (hsigned : ∀ ok, (Occurrence.call why cmd ok).isControl = true →
      Signed st.generationId .repinned (.call why cmd ok)) :
    Writes st st' := by
  rcases call_cases env st why cmd opts with ⟨ks, -, e⟩ | ⟨msg, e⟩
  all_goals
    rw [e] at h
    cases h
    refine ⟨fun _ _ => rfl, rfl, _, rfl, fun o ho hcontrol => ?_⟩
    rw [List.mem_singleton.1 ho] at hcontrol ⊢
    exact hsigned _ hcontrol

/-- A call for a mirrored entry or for what belongs to it. -/
theorem of_mirror {env : Env} {why : Purpose} {cmd : Command} {opts : CallOptions} {r : Except Str Unit}
    (h : call env st why cmd opts = (r, st')) (hwhy : why = .canonical ∨ why = .firehose) : Writes st st' := by
  refine .of_call h fun ok hcontrol => ?_
  rcases hwhy with rfl | rfl <;> cases hcontrol

end Writes

section Writers

variable (env : Env) (st : State)

/-! ## Drops -/

theorem charge_writes (why : Purpose) {c : Counter} (n : Nat) (hc : c.ofWrites = true) :
    Writes st (st.charge why c n) := .of_add rfl rfl rfl hc

theorem countDrop_writes (why : Purpose) {c : Counter} (latch : Latch) (detail : Str) (hc : c.ofWrites = true) :
    Writes st (countDrop env st why c latch detail) :=
  .of_add rfl rfl rfl hc

theorem countStreamDrop_writes (why : Purpose) (stream : Str) {c : Counter} (detail : Str) (hc : c.ofWrites = true) :
    Writes st (countStreamDrop env st why stream c detail) :=
  .of_add rfl rfl rfl hc

theorem countEventsLost_writes (why : Purpose) (n : Nat) {c : Counter} (latch : Latch) (detail : Str)
    (hc : c.ofWrites = true) : Writes st (countEventsLost env st why n c latch detail) :=
  (charge_writes st why n rfl).trans (countDrop_writes env _ why latch detail hc)

theorem countEventsLostStream_writes (why : Purpose) (n : Nat) (stream : Str) {c : Counter} (detail : Str)
    (hc : c.ofWrites = true) : Writes st (countEventsLostStream env st why n stream c detail) :=
  (charge_writes st why n rfl).trans (countStreamDrop_writes env _ why stream detail hc)

theorem countNoSlotDrop_writes (why : Purpose) (canonical : Bool) :
    Writes st (countNoSlotDrop env st why canonical) := by
  unfold countNoSlotDrop
  cases canonical with
  | true => exact (charge_writes st why 1 rfl).trans (countDrop_writes env _ why _ _ rfl)
  | false => exact countDrop_writes env st why _ _ rfl

theorem selectDb_writes : Writes st (selectDb env st).2 := .of_eq rfl rfl rfl

/-! ## Control entries -/

/-- The writer of control entries raises the counter of its success or one of two reasons, and no other. -/
theorem writeControlEntry_value {why : Purpose} (control : Str) (action : Action) (retention : Retention)
    (extra : List (Str × Str)) {counter : Counter} (kind : Str) {c : Counter}
    (hc : c ∉ [counter, .droppedXaddError, .droppedOom]) :
    (writeControlEntry env st why control action retention extra counter kind).value c = st.value c := by
  simp only [List.mem_cons, List.not_mem_nil, or_false, not_or] at hc
  obtain ⟨hcounter, hxadd, hoom⟩ := hc
  have hadd : ∀ {s s' : State} {d : Counter}, s'.counters = s.counters.add why d 1 → c ≠ d →
      s'.value c = s.value c := by
    intro s s' d hs hd
    rw [State.value, State.value, hs, Counters.add_value, if_neg hd]
  unfold writeControlEntry
  have hsel : (selectDb env st).2.value c = st.value c := rfl
  generalize selectDb env st = r at hsel
  obtain ⟨ok, st₁⟩ := r
  cases ok with
  | false => exact (hadd rfl hxadd).trans hsel
  | true =>
    simp only
    cases hcall : call env st₁ why
      (.xadd (utf8 control) false (trimOf env st₁ retention) (controlFields st₁ action extra))
      (xaddCallOptions st₁) with
    | mk r st₂ =>
      have h₂ : st₂.value c = st.value c := by
        obtain ⟨_, _, _, rfl⟩ := call_rest hcall
        exact hsel
      cases r with
      | ok _ =>
        have hrec : (recoverStream (st₂.charge why counter 1) control).counters = st₂.counters.add why counter 1 := by
          unfold recoverStream
          split
          · rfl
          · split <;> rfl
        exact (hadd hrec hcounter).trans h₂
      | error msg =>
        simp only
        split
        · exact (hadd rfl hoom).trans h₂
        · exact (hadd rfl hxadd).trans h₂

/-- It makes one call at most, and names the generation in the entry. -/
theorem writeControlEntry_calls (why : Purpose) (control : Str) (action : Action) (retention : Retention)
    (extra : List (Str × Str)) (counter : Counter) (kind : Str) :
    let st' := writeControlEntry env st why control action retention extra counter kind
    st'.generationId = st.generationId ∧ ∃ new, st'.trace = st.trace ++ new ∧ new.length ≤ 1 ∧ ∀ o ∈ new, ∃ trim ok,
      o = .call why (.xadd (utf8 control) false trim (signedFields st.generationId action extra)) ok := by
  unfold writeControlEntry
  have hsel : (selectDb env st).2.generationId = st.generationId ∧ (selectDb env st).2.trace = st.trace := ⟨rfl, rfl⟩
  generalize selectDb env st = r at hsel
  obtain ⟨ok, st₁⟩ := r
  obtain ⟨hg, ht⟩ := hsel
  have hnone : ∀ {s : State}, s.generationId = st₁.generationId → s.trace = st₁.trace →
      s.generationId = st.generationId ∧ ∃ new, s.trace = st.trace ++ new ∧ new.length ≤ 1 ∧ ∀ o ∈ new, ∃ trim ok,
        o = .call why (.xadd (utf8 control) false trim (signedFields st.generationId action extra)) ok := fun hs hst =>
    ⟨hs.trans hg, [], by rw [hst, ht, List.append_nil], Nat.zero_le 1, fun o ho => by cases ho⟩
  cases ok with
  | false => exact hnone rfl rfl
  | true =>
    simp only
    have hfields : controlFields st₁ action extra = signedFields st.generationId action extra := by
      rw [controlFields, signedFields, ← hg]
    have hone : ∀ {s : State} (trim : Option (TrimKeyword × Str)) (ok : Bool), s.generationId = st₁.generationId →
        s.trace = st₁.trace ++ [.call why (.xadd (utf8 control) false trim (controlFields st₁ action extra)) ok] →
        s.generationId = st.generationId ∧ ∃ new, s.trace = st.trace ++ new ∧ new.length ≤ 1 ∧ ∀ o ∈ new, ∃ trim ok,
          o = .call why (.xadd (utf8 control) false trim (signedFields st.generationId action extra)) ok := by
      intro s trim ok hs hst
      refine ⟨hs.trans hg, [_], hst.trans (by rw [ht]), Nat.le_refl 1, fun o ho => ⟨trim, ok, ?_⟩⟩
      rw [List.mem_singleton.1 ho, hfields]
    rcases call_cases env st₁ why
      (.xadd (utf8 control) false (trimOf env st₁ retention) (controlFields st₁ action extra))
      (xaddCallOptions st₁) with ⟨ks, -, e⟩ | ⟨msg, e⟩
    · rw [e]
      simp only
      have hrec : ∀ st₂ : State, (recoverStream st₂ control).generationId = st₂.generationId ∧
          (recoverStream st₂ control).trace = st₂.trace := by
        intro st₂
        unfold recoverStream
        split
        · exact ⟨rfl, rfl⟩
        · split <;> exact ⟨rfl, rfl⟩
      exact hone (trimOf env st₁ retention) true (hrec _).1 (hrec _).2
    · rw [e]
      simp only
      split
      · exact hone _ _ rfl rfl
      · exact hone _ _ rfl rfl

/-- A counter that no writer raises is none of these. -/
theorem not_mem_of_spared {c : Counter} {l : List Counter} (hc : c.ofWrites = false)
    (hl : ∀ d ∈ l, d.ofWrites = true) : c ∉ l := by
  intro hm
  rw [hl c hm] at hc
  cases hc

/-- The pairs of a marker beside its action. -/
def markerPairs (db : Option Int32) : List (Str × Str) :=
  match db with
  | some value => [("db".toList, Text.showInt value.toInt)]
  | none => []

theorem markerPairs_nodup (db : Option Int32) : (controlNames ++ (markerPairs db).map Prod.fst).Nodup := by
  cases db with
  | none => decide
  | some value =>
    change (controlNames ++ ["db".toList]).Nodup
    decide

/-- A marker makes one call at most, an entry of its action. -/
theorem writeMarker_calls (control : Str) (action : Action) (db : Option Int32) (retention : Retention) :
    let st' := writeMarker env st control action db retention
    st'.generationId = st.generationId ∧
      ∃ new, st'.trace = st.trace ++ new ∧ new.length ≤ 1 ∧ ∀ o ∈ new, Signed st.generationId action o := by
  obtain ⟨hg, new, ht, hone, hnew⟩ := writeControlEntry_calls env st .marker control action retention (markerPairs db)
    .controlMarkers "gap marker".toList
  refine ⟨hg, new, ht, hone, fun o ho => ?_⟩
  obtain ⟨trim, ok, rfl⟩ := hnew o ho
  exact ⟨_, _, _, _, _, markerPairs_nodup db, rfl⟩

theorem repinned_writes (control : Str) (retention : Retention) :
    Writes st (writeMarker env st control .repinned none retention) := by
  obtain ⟨hg, new, ht, -, hnew⟩ := writeMarker_calls env st control .repinned none retention
  refine ⟨fun c hc => ?_, hg, new, ht, fun o ho _ => hnew o ho⟩
  exact writeControlEntry_value env st control .repinned retention _ _ (not_mem_of_spared hc (by decide))

/-! ## Mirrored writes -/

theorem recordWrite_writes (why : Purpose) (stream : Str) {counter : Counter} (count : Nat)
    (hc : counter.ofWrites = true) : Writes st (recordWrite st why stream counter count) := by
  unfold recordWrite
  simp only
  split
  · exact .of_add rfl rfl rfl hc
  · have h₁ : Writes st { st with counters := st.counters.add why counter count } := .of_add rfl rfl rfl hc
    exact h₁.trans (.of_add rfl rfl rfl (c := .activeStreams) rfl)

theorem registerStream_writes {why : Purpose} (registry stream : Str) (hwhy : why = .canonical ∨ why = .firehose) :
    Writes st (registerStream env st why registry stream) := by
  unfold registerStream
  split
  · exact .refl st
  · cases hcall : call env st why (.sadd (utf8 registry) (utf8 stream)) (xaddCallOptions st) with
    | mk r st₁ =>
      have h₁ : Writes st st₁ := .of_mirror hcall hwhy
      cases r with
      | ok _ => exact h₁.trans (.of_eq rfl rfl rfl)
      | error msg => exact h₁.trans (.of_add rfl rfl rfl (c := .registryErrors) rfl)

theorem createAutoGroup_writes {why : Purpose} (stream group : Str) (hwhy : why = .canonical ∨ why = .firehose) :
    Writes st (createAutoGroup env st why stream group).2 := by
  unfold createAutoGroup
  cases hcall : call env st why (.xgroupCreate (utf8 stream) (utf8 group)) (xaddCallOptions st) with
  | mk r st₁ =>
    have h₁ : Writes st st₁ := .of_mirror hcall hwhy
    cases r with
    | ok _ => exact h₁.trans (charge_writes st₁ why 1 rfl)
    | error msg =>
      simp only
      split
      · exact h₁
      · exact h₁.trans (countDrop_writes env st₁ why _ _ rfl)

theorem provisionGroup_writes {why : Purpose} (stream : Str) (hwhy : why = .canonical ∨ why = .firehose) :
    Writes st (provisionGroup env st why stream) := by
  unfold provisionGroup
  split
  · cases groupName st with
    | none => exact .refl st
    | some group =>
      have hg := createAutoGroup_writes env st stream group hwhy
      simp only
      generalize createAutoGroup env st why stream group = r at hg
      obtain ⟨made, st₁⟩ := r
      cases made with
      | true => exact hg.trans (.of_eq rfl rfl rfl)
      | false => exact hg
  · exact .refl st

theorem mirrorFields_writes (pfx seg suffix : Str) (fields : List Bytes) (retention : Retention) (maxStreams : Int)
    (counter : Counter) (count : Nat) (hc : counter.ofWrites = true) :
    Writes st (mirrorFields env st pfx seg suffix fields retention maxStreams counter count).2 := by
  unfold mirrorFields
  simp only
  split
  · exact .refl st
  · cases hcall : call env st (purposeOf counter)
      (.xadd (utf8 (streamOf pfx seg suffix)) false (trimOf env st retention) fields) (xaddCallOptions st) with
    | mk r st₁ =>
      have hwhy := purposeOf_cases counter
      have h₁ : Writes st st₁ := .of_mirror hcall hwhy
      cases r with
      | error msg => exact h₁
      | ok _ =>
        have h₂ := h₁.trans (recordWrite_writes st₁ (purposeOf counter) (streamOf pfx seg suffix) count hc)
        exact (h₂.trans (registerStream_writes env _ _ _ hwhy)).trans (provisionGroup_writes env _ _ hwhy)

theorem mirrorEntry_writes (pfx seg suffix : Str) (spec : EntrySpec) (retention : Retention) (maxStreams : Int)
    (counter : Counter) (hc : counter.ofWrites = true) :
    Writes st (mirrorEntry env st pfx seg suffix spec retention maxStreams counter).2 := by
  unfold mirrorEntry
  cases encodeEntryFields spec with
  | error reason => exact .refl st
  | ok fields => exact mirrorFields_writes env st pfx seg suffix fields retention maxStreams counter 1 hc

theorem mirrorFirehose_writes (pfx : Str) (spec : EntrySpec) (retention : Retention) :
    Writes st (mirrorFirehose env st pfx spec retention) := by
  unfold mirrorFirehose
  have ht := Writes.of_probed (tagSegment_probed env st)
  generalize tagSegment env st = r at ht
  obtain ⟨seg, st₁⟩ := r
  cases seg with
  | none => exact ht.trans (countNoSlotDrop_writes env st₁ .firehose false)
  | some seg =>
    have hm := ht.trans (mirrorEntry_writes env st₁ pfx seg "#firehose".toList spec retention 0
      .firehoseForwarded rfl)
    simp only
    generalize mirrorEntry env st₁ pfx seg "#firehose".toList spec retention 0 .firehoseForwarded = r at hm
    obtain ⟨o, st₂⟩ := r
    cases o with
    | written | maxStreams stream => exact hm
    | oom stream msg | failed stream msg => exact hm.trans (countStreamDrop_writes env st₂ .firehose stream _ rfl)
    | slotMigrated | migrating msg | encodeError stream reason =>
      exact hm.trans (countDrop_writes env st₂ .firehose _ _ rfl)

/-! ## The processors -/

theorem repinAndRetry_writes (pfx suffix : Str) (spec : EntrySpec) (retention control : Retention) (maxStreams : Int) :
    Writes st (repinAndRetry env st pfx suffix spec retention control maxStreams) := by
  unfold repinAndRetry
  simp only
  have h₀ : Writes st ({ st with nodeTag := none, probeVerifiedTag := none }.charge .canonical .repins 1) :=
    .of_add rfl rfl rfl (c := .repins) rfl
  generalize { st with nodeTag := none, probeVerifiedTag := none }.charge .canonical .repins 1 = st₀ at h₀
  have ht := h₀.trans (.of_probed (tagSegment_probed env st₀))
  generalize tagSegment env st₀ = r at ht
  obtain ⟨seg, st₁⟩ := r
  cases seg with
  | none => exact ht.trans (countNoSlotDrop_writes env st₁ .canonical true)
  | some seg =>
    have hm := (ht.trans (repinned_writes env st₁ (controlStreamOf pfx seg) control)).trans
      (mirrorEntry_writes env _ pfx seg suffix spec retention maxStreams .forwarded rfl)
    simp only
    generalize mirrorEntry env _ pfx seg suffix spec retention maxStreams .forwarded = r at hm
    obtain ⟨o, st₂⟩ := r
    cases o with
    | written => exact hm
    | oom stream msg | failed stream msg =>
      exact hm.trans (countEventsLostStream_writes env st₂ .canonical 1 stream _ rfl)
    | slotMigrated | migrating msg | maxStreams stream | encodeError stream reason =>
      exact hm.trans (countEventsLost_writes env st₂ .canonical 1 _ _ rfl)

theorem settleEvent_writes (e : PendingEvent) (seg : Str) (spec : EntrySpec) :
    Writes st (settleEvent env st e seg spec) := by
  unfold settleEvent
  have hm := mirrorEntry_writes env st e.pfx seg e.suffix spec e.dataRetention e.maxStreams .forwarded rfl
  generalize mirrorEntry env st e.pfx seg e.suffix spec e.dataRetention e.maxStreams .forwarded = r at hm
  obtain ⟨o, st₁⟩ := r
  cases o with
  | written => exact hm
  | oom stream msg => exact hm.trans (countEventsLostStream_writes env st₁ .canonical 1 stream _ rfl)
  | slotMigrated | migrating msg => exact hm.trans (repinAndRetry_writes env st₁ _ _ _ _ _ _)
  | maxStreams stream | encodeError stream reason =>
    exact hm.trans (countEventsLost_writes env st₁ .canonical 1 _ _ rfl)
  | failed stream msg =>
    have hp := hm.trans (.of_probed (pinnedTagLostByProbe_probed env st₁))
    simp only
    generalize pinnedTagLostByProbe env st₁ = r at hp
    obtain ⟨lost, st₂⟩ := r
    cases lost with
    | true =>
      exact (hp.trans (charge_writes st₂ .canonical (c := .repinsProbeDetected) 1 rfl)).trans
        (repinAndRetry_writes env _ _ _ _ _ _ _)
    | false => exact hp.trans (countEventsLostStream_writes env st₂ .canonical 1 stream _ rfl)

theorem processPendingEvent_writes (e : PendingEvent) : Writes st (processPendingEvent env st e) := by
  unfold processPendingEvent
  have hsel := selectDb_writes env st
  generalize selectDb env st = r at hsel
  obtain ⟨ok, st₁⟩ := r
  cases ok with
  | false => exact hsel.trans (countEventsLost_writes env st₁ .canonical 1 _ _ rfl)
  | true =>
    have ht := hsel.trans (.of_probed (tagSegment_probed env st₁))
    simp only
    generalize tagSegment env st₁ = r at ht
    obtain ⟨seg, st₂⟩ := r
    cases seg with
    | none => exact ht.trans (countNoSlotDrop_writes env st₂ .canonical true)
    | some seg =>
      have hseq : Writes st₂ (takeSeq st₂ e.entrySeq).2 := by
        unfold takeSeq
        split
        · exact .of_eq rfl rfl rfl
        · exact .refl _
      simp only
      have hs := (ht.trans hseq).trans (settleEvent_writes env _ e seg (entrySpec e (takeSeq st₂ e.entrySeq).1))
      split
      · exact hs.trans (mirrorFirehose_writes env _ _ _ _)
      · exact hs

theorem processPendingEnvelope_writes (events : List PendingEvent) (fields : List Bytes) :
    Writes st (processPendingEnvelope env st events fields) := by
  cases events with
  | nil => exact .refl st
  | cons first rest =>
    simp only [processPendingEnvelope]
    generalize (first :: rest).length = count
    have hsel := selectDb_writes env st
    generalize selectDb env st = r at hsel
    obtain ⟨ok, st₁⟩ := r
    cases ok with
    | false => exact hsel.trans (countEventsLost_writes env st₁ .canonical count _ _ rfl)
    | true =>
      have ht := hsel.trans (.of_probed (tagSegment_probed env st₁))
      simp only
      generalize tagSegment env st₁ = r at ht
      obtain ⟨seg, st₂⟩ := r
      cases seg with
      | none =>
        have hdrops : ∀ (l : List Nat) (s : State), Writes st s →
            Writes st (l.foldl (fun s _ => countNoSlotDrop env s .canonical true) s) := by
          intro l
          induction l with
          | nil => exact fun s hs => hs
          | cons i l ih => exact fun s hs => ih _ (hs.trans (countNoSlotDrop_writes env s .canonical true))
        exact hdrops _ st₂ ht
      | some seg =>
        have hm := ht.trans (mirrorFields_writes env st₂ first.pfx seg first.suffix fields first.dataRetention
          first.maxStreams .forwarded count rfl)
        simp only
        generalize mirrorFields env st₂ first.pfx seg first.suffix fields first.dataRetention
          first.maxStreams .forwarded count = r at hm
        obtain ⟨o, st₃⟩ := r
        cases o with
        | written =>
          exact (hm.trans (charge_writes st₃ .canonical (c := .asyncEnvelopes) 1 rfl)).trans
            (charge_writes _ .canonical (c := .asyncEnvelopeEvents) count rfl)
        | oom stream msg | failed stream msg =>
          exact hm.trans (countEventsLostStream_writes env st₃ .canonical count stream _ rfl)
        | slotMigrated | migrating msg | maxStreams stream | encodeError stream reason =>
          exact hm.trans (countEventsLost_writes env st₃ .canonical count _ _ rfl)

theorem process_writes (h : Handoff) : Writes st (h.process env st) := by
  cases h with
  | event e => exact processPendingEvent_writes env st e
  | envelope events fields => exact processPendingEnvelope_writes env st events fields

end Writers

end EventStream

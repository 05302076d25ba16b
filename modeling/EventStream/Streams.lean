import EventStream.Lifecycle

/-!
# The cap on destination streams

`CURRENT_STREAMS` is kept up by increments and decrements spread over the write path, the prune and the clears, while
the truth is a bit in each stream's record.

* `Booked`: the counter is the number of counted records, the lifetime counter is not below it, and a record is counted
  exactly when its stream was written since the last clear or prune. Every small step keeps it (`Micro.booked`), and so
  does every operation (`apply_booked`).
* `Capped`: with one cap for all events, the event-derived streams stay within it (`Micro.capped`, `apply_capped`).
-/

namespace EventStream

open Text (Str Bytes utf8 ofUtf8)

/-! ## Streams written since the last clear -/

/-- How one occurrence bears on whether a stream counts as written. -/
def writtenStep (stream : Str) (written : Bool) : Occurrence → Bool
  | .cleared => false
  | .pruned name => written && name ≠ stream
  | .call why cmd ok => written || mirroredKey (.call why cmd ok) = some (utf8 stream)

/-- A mirrored write to the stream succeeded since the last clear of the records or prune of that name. -/
def writtenSince (trace : List Occurrence) (stream : Str) : Bool := trace.foldl (writtenStep stream) false

theorem writtenSince_append (trace occurrences : List Occurrence) (stream : Str) :
    writtenSince (trace ++ occurrences) stream = occurrences.foldl (writtenStep stream) (writtenSince trace stream) :=
  List.foldl_append

/-- A call that executes no mirrored write. -/
def Unmirrored (o : Occurrence) : Prop := (∃ why cmd ok, o = .call why cmd ok) ∧ mirroredKey o = none

theorem writtenStep_unmirrored {o : Occurrence} (h : Unmirrored o) (stream : Str) (written : Bool) :
    writtenStep stream written o = written := by
  obtain ⟨⟨why, cmd, ok, rfl⟩, hn⟩ := h
  simp [writtenStep, hn]

theorem foldl_unmirrored {occurrences : List Occurrence} (h : ∀ o ∈ occurrences, Unmirrored o) (stream : Str)
    (written : Bool) : occurrences.foldl (writtenStep stream) written = written := by
  induction occurrences generalizing written with
  | nil => rfl
  | cons o os ih =>
    rw [List.foldl_cons, writtenStep_unmirrored (h o List.mem_cons_self)]
    exact ih (fun o' ho' => h o' (List.mem_cons_of_mem o ho')) written

theorem unmirrored_of_not_xadd {o : Occurrence} (h : ∃ why cmd reply, o = Occurrence.call why cmd reply ∧
    ∀ key nomk trim fields, cmd ≠ .xadd key nomk trim fields) : Unmirrored o := by
  obtain ⟨why, cmd, reply, rfl, hx⟩ := h
  refine ⟨⟨why, cmd, reply, rfl⟩, ?_⟩
  cases cmd with
  | xadd key nomk trim fields => exact absurd rfl (hx key nomk trim fields)
  | sadd _ _ | srem _ _ | xgroupCreate _ _ => rfl

theorem unmirrored_refused (why : Purpose) (cmd : Command) : Unmirrored (.call why cmd false) := by
  refine ⟨⟨why, cmd, false, rfl⟩, ?_⟩
  cases cmd <;> rfl

theorem unmirrored_purpose {why : Purpose} (h : why ≠ .canonical ∧ why ≠ .firehose) (cmd : Command) (ok : Bool) :
    Unmirrored (.call why cmd ok) := by
  refine ⟨⟨why, cmd, ok, rfl⟩, ?_⟩
  cases cmd <;> cases ok <;> simp [mirroredKey, h.1, h.2]

theorem unmirrored_probe {o : Occurrence} (h : isProbe o = true) : Unmirrored o := by
  unfold isProbe at h
  split at h
  · exact unmirrored_purpose (by decide) _ _
  · cases h

/-! ## The invariant -/

/-- The bookkeeping of the destination streams. -/
structure Booked (st : State) : Prop where
  current : st.currentStreams = st.countedIn fun _ => true
  active : st.countedIn (fun _ => true) ≤ st.value .activeStreams
  written : ∀ s, (st.stats s).counted = writtenSince st.trace s

/-- States that agree on the records, and whose traces differ by calls that mirror nothing. -/
theorem Booked.of_eq {st st' : State} (h : Booked st) (hs : st'.streamStats = st.streamStats)
    (hcur : st'.currentStreams = st.currentStreams) (ha : st'.value .activeStreams = st.value .activeStreams)
    {calls : List Occurrence} (ht : st'.trace = st.trace ++ calls) (hq : ∀ o ∈ calls, Unmirrored o) : Booked st' := by
  have hin : st'.countedIn (fun _ => true) = st.countedIn fun _ => true := by simp only [State.countedIn, hs]
  refine ⟨by rw [hcur, hin, h.current], by rw [hin, ha]; exact h.active, fun s => ?_⟩
  rw [ht, writtenSince_append, foldl_unmirrored hq, ← h.written s]
  simp only [State.stats, hs]

theorem Booked.of_same {st st' : State} (h : Booked st) (hs : st'.streamStats = st.streamStats)
    (hcur : st'.currentStreams = st.currentStreams) (ha : st'.value .activeStreams = st.value .activeStreams)
    (ht : st'.trace = st.trace) : Booked st' :=
  h.of_eq hs hcur ha (by rw [ht, List.append_nil]) (by simp)

/-- A record may change in all but the bit that counts it. -/
theorem Booked.setStats {st : State} (h : Booked st) {stream : Str} {r : StreamStats}
    (hr : r.counted = (st.stats stream).counted) : Booked (st.setStats stream r) := by
  have hin : (st.setStats stream r).countedIn (fun _ => true) = st.countedIn fun _ => true :=
    (Aftermath.of_record hr).countedIn _
  refine ⟨by rw [hin]; exact h.current, by rw [hin]; exact h.active, fun s => ?_⟩
  have hw : writtenSince (st.setStats stream r).trace s = writtenSince st.trace s := rfl
  rw [hw, ← h.written s]
  by_cases hs : s = stream
  · rw [hs, State.setStats_stats_same, hr]
  · rw [st.setStats_stats_ne r hs]

/-- A mirrored write counts its stream, once. -/
theorem Booked.written_step {st st' : State} {stream : Str} (h : Booked st) (hw : Written stream st st') :
    Booked st' := by
  have hin := hw.countedIn fun _ => true
  simp only [Bool.and_true] at hin
  have hcur := h.current
  have hact := h.active
  have hcur' := hw.currentStreams
  have hact' := hw.active
  refine ⟨?_, ?_, fun s => ?_⟩
  · cases hc : (st.stats stream).counted <;> simp [hc] at hin hcur' <;> omega
  · cases hc : (st.stats stream).counted <;> simp [hc] at hin hact' <;> omega
  · obtain ⟨o, calls, ht, ho, hcalls⟩ := hw.trace
    rw [ht, writtenSince_append, List.foldl_cons, foldl_unmirrored fun o ho => unmirrored_of_not_xadd (hcalls o ho),
      ← h.written s]
    -- Only an executed `XADD` has a key here.
    cases o with
    | cleared => cases ho
    | pruned name => cases ho
    | call why cmd ok =>
      simp only [writtenStep, ho]
      by_cases hs : s = stream
      · simp [hs, hw.counted]
      · have hne : utf8 stream ≠ utf8 s := fun e => hs (Text.utf8_injective e).symm
        simp [hw.stats_ne s hs, hne]

theorem Micro.booked {env : Env} {ok : Write → Prop} {st st' : State} (hm : Micro env ok st st') (h : Booked st) :
    Booked st' := by
  cases hm with
  | aside ha => exact h.of_same ha.streamStats ha.currentStreams ha.active ha.trace
  | probed hp =>
    obtain ⟨_, _, _, _, probes, rfl, _, ho⟩ := hp
    exact h.of_eq rfl rfl rfl rfl fun o hm => unmirrored_probe (ho o hm)
  | record stream s hb => exact h.setStats hb.1
  | refused why cmd opts msg hc =>
    rw [call_error hc]
    exact h.of_eq rfl rfl rfl rfl fun o ho => List.mem_singleton.1 ho ▸ unmirrored_refused why cmd
  | control why key trim fields opts hw hc =>
    obtain ⟨ks, _, rfl⟩ := call_ok hc
    refine h.of_eq rfl rfl rfl rfl fun o ho => List.mem_singleton.1 ho ▸ unmirrored_purpose ?_ _ _
    rcases hw with rfl | rfl <;> decide
  | mirrored w trim fields counter count opts hok hw hseg hcap hc hcall =>
    exact h.written_step (mirrored_written _ _ hw hc hcall)

theorem Steps.booked {env : Env} {ok : Write → Prop} {st st' : State} (hm : Steps env ok st st') (h : Booked st) :
    Booked st' :=
  Steps.invariant (fun hm h => hm.booked h) hm h

/-! ## Operations -/

/-- A cleared map counts nothing. -/
theorem Booked.cleared (st : State) {st' : State} (hs : st'.streamStats = ∅) (hc : st'.currentStreams = 0)
    (ht : st'.trace = st.trace ++ [.cleared]) : Booked st' where
  current := by simp [hc, State.countedIn, hs]
  active := by simp [State.countedIn, hs]
  written s := by
    rw [ht, writtenSince_append]
    simp [State.stats, hs, writtenStep]

theorem onFlushStarted_booked (st : State) (dbnum : Int32) : Booked (onFlushStarted st dbnum) := by
  obtain ⟨-, hs, hc, ht⟩ := onFlushStarted_clears st dbnum
  exact .cleared st hs hc ht

theorem onSwapdb_booked {st : State} (h : Booked st) (first second : Nat) : Booked (onSwapdb st first second) := by
  unfold onSwapdb
  split
  · exact h
  · split
    · exact h
    · exact .cleared st rfl rfl rfl

/-- A forgotten stream gives its slot back. -/
theorem forgetStream_booked {st : State} (h : Booked st) (name : Str) : Booked (forgetStream st name) := by
  have hcur := h.current
  have hact := h.active
  -- The trace of the state after the prune, whatever the records are.
  have hwr : ∀ s, writtenSince (st.trace ++ [.pruned name]) s = ((st.stats s).counted && name ≠ s) := fun s => by
    rw [writtenSince_append, ← h.written s]
    rfl
  unfold forgetStream
  simp only
  cases hl : st.streamStats.lookup name with
  | none =>
    refine ⟨hcur, hact, fun s => ?_⟩
    rw [hwr]
    by_cases hs : name = s
    · subst hs
      simp [State.stats, hl]
    · simp [hs]
      rfl
  | some entry =>
    have hst : st.stats name = entry := by simp [State.stats, hl]
    simp only
    generalize hr : ({ entry with counted := false, registered := false, registryFailed := false } : StreamStats) = r
    have hrc : r.counted = false := by rw [← hr]
    have hin := st.countedIn_setStats (fun _ => true) name r
    rw [hst, hrc] at hin
    refine ⟨?_, ?_, fun s => ?_⟩
    · change _ = ((st.setStats name r).countedIn _ : Int)
      cases hc : entry.counted <;> simp [hc] at hin ⊢ <;> omega
    · change (st.setStats name r).countedIn _ ≤ st.value .activeStreams
      cases hc : entry.counted <;> simp [hc] at hin <;> omega
    · change ((st.setStats name r).stats s).counted = writtenSince (st.trace ++ [.pruned name]) s
      rw [hwr]
      by_cases hs : name = s
      · subst hs
        simp [hrc]
      · simp [hs, st.setStats_stats_ne r (Ne.symm hs)]

theorem PruneStep.booked {env : Env} {st st' : State} (hp : PruneStep env st st') (h : Booked st) : Booked st' := by
  cases hp with
  | aside ha => exact h.of_same ha.streamStats ha.currentStreams ha.active ha.trace
  | refused registry name msg hc =>
    rw [call_error hc]
    exact h.of_eq rfl rfl rfl rfl fun o ho => List.mem_singleton.1 ho ▸ unmirrored_refused _ _
  | removed registry name habsent hc =>
    refine forgetStream_booked ?_ name
    obtain ⟨ks, _, rfl⟩ := call_ok hc
    exact h.of_eq rfl rfl rfl rfl fun o ho => List.mem_singleton.1 ho ▸ unmirrored_purpose (by decide) _ _

/-- Every operation keeps the bookkeeping. -/
theorem apply_booked (env : Env) {st : State} (op : Op) (h : Booked st) : Booked (op.apply env st) := by
  cases op with
  | process hand =>
    have hs : Steps env (fun _ => True) st _ := process_steps st hand fun _ _ _ _ => trivial
    exact hs.booked h
  | marker control action db retention =>
    have hs : Steps env (fun _ => True) st _ := writeMarker_steps st control action db retention
    exact hs.booked h
  | checkpoint control retention =>
    have hs : Steps env (fun _ => True) st _ := writeCheckpoint_steps st control retention
    exact hs.booked h
  | flush dbnum =>
    have hf := onFlushStarted_booked st dbnum
    exact hf.of_same rfl rfl rfl rfl
  | swapdb first second =>
    refine onSwapdb_booked ?_ first second
    exact h.of_same rfl rfl rfl rfl
  | prune => exact cmdPrune_invariant (fun hp hb => hp.booked hb) h
  | setAutoGroup name =>
    simp only [Op.apply, setAutoGroup]
    cases validateAutoGroup name with
    | error e => exact h
    | ok _ => exact h.of_same rfl rfl rfl rfl
  | setFirehose on => exact h.of_same rfl rfl rfl rfl
  | role master loading => exact h.of_same rfl rfl rfl rfl
  | client db key obj => exact h.of_same rfl rfl rfl rfl
  | reset perNode => exact .cleared st rfl rfl rfl

/-! ## Event-derived streams -/

/-- The part of a stream's name behind the tag has no `#`: those names belong to the module's own streams. -/
def eventDerived (name : Str) : Bool := '#' ∉ name.reverse.takeWhile (· ≠ '}')

theorem sanitize_passes (event : Str) : ∀ c ∈ sanitize event, passes c = true := by
  intro c hc
  obtain ⟨d, _, rfl⟩ := List.mem_map.1 hc
  by_cases hd : passes d = true
  · simp [hd]
  · simp only [hd]
    rfl

theorem eventDerived_canonical {pfx seg suffix : Str} (hp : '#' ∉ pfx) (hs : '#' ∉ suffix)
    (hseg : seg = [] ∨ ∃ tag, seg = braced tag) : eventDerived (streamOf pfx seg suffix) = true := by
  rw [eventDerived, decide_eq_true_eq, streamOf, List.reverse_append]
  intro hm
  rcases hseg with rfl | ⟨tag, rfl⟩
  · have := (List.takeWhile_sublist _).subset hm
    simp [hp, hs] at this
  · -- The tag's closing brace ends the run of characters that is looked at.
    rw [List.takeWhile_append] at hm
    split at hm
    · simp [braced, hs] at hm
    · have := (List.takeWhile_sublist _).subset hm
      simp [hs] at this

theorem eventDerived_firehose (pfx seg : Str) : eventDerived (streamOf pfx seg "#firehose".toList) = false := by
  have hall : ∀ c ∈ "#firehose".toList.reverse, decide (c ≠ '}') = true := List.all_eq_true.1 (by decide)
  have hmem : '#' ∈ "#firehose".toList.reverse := by decide
  rw [eventDerived, decide_eq_false_iff_not, not_not, streamOf, List.reverse_append,
    List.takeWhile_append_of_pos hall]
  exact List.mem_append_left _ hmem

/-! ## The cap -/

/-- The mirrored writes of events that carry one prefix and one cap. -/
def UnderCap (M : Int) (P : Str) (w : Write) : Prop :=
  w.pfx = P ∧ ((w.maxStreams = M ∧ '#' ∉ w.suffix) ∨ w.suffix = "#firehose".toList)

/-- The event-derived streams are within the cap, and outside per-node mode the one other counted stream is the
firehose. -/
structure Capped (M : Int) (P : Str) (st : State) : Prop where
  booked : Booked st
  events : (st.countedIn eventDerived : Int) ≤ M
  own : st.config.perNode = false → ∀ s, (st.stats s).counted = true → eventDerived s = false →
    s = P ++ "#firehose".toList

section Cap

variable {env : Env} {M : Int} {P : Str} {st st' : State}

theorem countedIn_le_all (st : State) (p : Str → Bool) : st.countedIn p ≤ st.countedIn fun _ => true :=
  Totals.total_le_total (fun k r => by cases r.counted <;> cases p k <;> simp) st.streamStats

/-- A map without records is within any cap. -/
theorem Capped.of_empty (hM : 0 < M) (hb : Booked st) (hs : st.streamStats = ∅) : Capped M P st := by
  refine ⟨hb, ?_, fun _ s hc => ?_⟩
  · simp only [State.countedIn, hs, Totals.total_empty]
    omega
  · simp [State.stats, hs] at hc

/-- States with fewer counted streams. -/
theorem Capped.of_fewer (h : Capped M P st) (hb : Booked st') (hconf : st'.config.perNode = st.config.perNode)
    (hin : ∀ p, st'.countedIn p ≤ st.countedIn p)
    (hst : ∀ s, (st'.stats s).counted = true → (st.stats s).counted = true) : Capped M P st' where
  booked := hb
  events := le_trans (Int.ofNat_le.2 (hin eventDerived)) h.events
  own hn s hc := h.own (hconf ▸ hn) s (hst s hc)

/-- The gate of a mirrored write: a stream that is not counted yet finds room. -/
theorem room_of_not_capReached {stream : Str} (hM : 0 < M) (hcap : capReached st stream M = false)
    (hc : (st.stats stream).counted = false) : st.currentStreams < M := by
  simp only [capReached, hM, decide_true, hc, Bool.not_false, Bool.and_self, Bool.true_and,
    decide_eq_false_iff_not] at hcap
  omega

/-- A mirrored write under the cap keeps within it. -/
theorem Capped.written_step (hM : 0 < M) (hP : '#' ∉ P) {w : Write} (h : Capped M P st) (hok : UnderCap M P w)
    (hseg : SegmentOf st.config w.seg) (hcap : capReached st w.stream w.maxStreams = false)
    (hconf : st'.config = st.config) (hw : Written w.stream st st') : Capped M P st' := by
  obtain ⟨hpfx, hkind⟩ := hok
  refine ⟨h.booked.written_step hw, ?_, fun hn s hc he => ?_⟩
  · have hin := hw.countedIn eventDerived
    have hev := h.events
    cases hc : (st.stats w.stream).counted with
    | true =>
      simp only [hc, Bool.not_true, Bool.false_and, Bool.false_eq_true, if_false] at hin
      omega
    | false =>
      rcases hkind with ⟨hmax, -⟩ | hfire
      · -- A new event-derived stream: the gate saw room for it.
        rw [hmax] at hcap
        have hroom := room_of_not_capReached hM hcap hc
        have hle := countedIn_le_all st eventDerived
        have hcur := h.booked.current
        split at hin <;> omega
      · have hd : eventDerived w.stream = false := by
          rw [Write.stream, hfire]
          exact eventDerived_firehose _ _
        simp only [hd, Bool.and_false, Bool.false_eq_true, if_false] at hin
        omega
  · rw [hconf] at hn
    by_cases hs : s = w.stream
    · rcases hkind with ⟨-, hsuf⟩ | hfire
      · rw [hs, Write.stream, eventDerived_canonical (hpfx ▸ hP) hsuf hseg.2] at he
        cases he
      · rw [hs, Write.stream, streamOf, hseg.1 hn, hpfx, hfire, List.append_nil]
    · rw [hw.stats_ne s hs] at hc
      exact h.own hn s hc he

theorem Micro.capped (hM : 0 < M) (hP : '#' ∉ P) (hm : Micro env (UnderCap M P) st st') (h : Capped M P st) :
    Capped M P st' := by
  have hb := hm.booked h.booked
  have hconf := hm.frame.config
  cases hm with
  | aside ha =>
    exact h.of_fewer hb (by rw [hconf]) (fun p => by simp only [State.countedIn, ha.streamStats]; exact le_refl _)
      fun s => by simp only [State.stats, ha.streamStats]; exact id
  | probed hp =>
    obtain ⟨_, _, _, _, probes, rfl, _, ho⟩ := hp
    exact h.of_fewer hb rfl (fun _ => le_refl _) fun _ => id
  | record stream r hbits =>
    have ha : Aftermath stream st (st.setStats stream r) := .of_record hbits.1
    refine h.of_fewer hb rfl (fun p => le_of_eq (ha.countedIn p)) fun s hc => ?_
    by_cases hs : s = stream
    · rw [hs] at hc ⊢
      rw [← hbits.1]
      simpa using hc
    · rwa [ha.stats_ne s hs] at hc
  | refused why cmd opts msg hc =>
    rw [call_error hc] at hb ⊢
    exact h.of_fewer hb rfl (fun _ => le_refl _) fun _ => id
  | control why key trim fields opts hw hc =>
    obtain ⟨ks, _, rfl⟩ := call_ok hc
    exact h.of_fewer hb rfl (fun _ => le_refl _) fun _ => id
  | mirrored w trim fields counter count opts hok hw hseg hcap hc hcall =>
    exact h.written_step hM hP hok hseg hcap hconf (mirrored_written _ _ hw hc hcall)

/-- A prune only takes streams out of the count. -/
theorem forgetStream_fewer (st : State) (name : Str) :
    (forgetStream st name).config = st.config ∧ (∀ p, (forgetStream st name).countedIn p ≤ st.countedIn p) ∧
      ∀ s, ((forgetStream st name).stats s).counted = true → (st.stats s).counted = true := by
  unfold forgetStream
  simp only
  cases hl : st.streamStats.lookup name with
  | none => exact ⟨rfl, fun _ => le_refl _, fun _ => id⟩
  | some entry =>
    simp only
    generalize hr : ({ entry with counted := false, registered := false, registryFailed := false } : StreamStats) = r
    have hrc : r.counted = false := by rw [← hr]
    refine ⟨rfl, fun p => ?_, fun s hc => ?_⟩
    · have hin := st.countedIn_setStats p name r
      change (st.setStats name r).countedIn p ≤ _
      simp only [hrc, Bool.false_and, Bool.false_eq_true, if_false] at hin
      omega
    · change ((st.setStats name r).stats s).counted = true at hc
      by_cases hs : s = name
      · rw [hs, State.setStats_stats_same, hrc] at hc
        cases hc
      · rwa [st.setStats_stats_ne r hs] at hc

theorem PruneStep.capped (hp : PruneStep env st st') (h : Capped M P st) : Capped M P st' := by
  have hb := hp.booked h.booked
  cases hp with
  | aside ha =>
    exact h.of_fewer hb (by rw [ha.config]) (fun p => by simp only [State.countedIn, ha.streamStats]; exact le_refl _)
      fun s => by simp only [State.stats, ha.streamStats]; exact id
  | refused registry name msg hc =>
    rw [call_error hc] at hb ⊢
    exact h.of_fewer hb rfl (fun _ => le_refl _) fun _ => id
  | removed registry name habsent hc =>
    obtain ⟨ks, _, rfl⟩ := call_ok hc
    obtain ⟨hconf, hin, hs⟩ := forgetStream_fewer { st with
      keyspace := ks
      clock := st.clock + 1
      trace := st.trace ++ [.call .prune (.srem (utf8 registry) (utf8 name)) true] } name
    exact h.of_fewer hb (by rw [hconf]) hin hs

/-- The operation hands over events that carry one prefix and one cap, or none at all. -/
def Op.Carries (M : Int) (P : Str) : Op → Prop
  | .process h => ∀ e ∈ h.events, e.pfx = P ∧ e.suffix = sanitize e.event ∧ e.maxStreams = M
  | _ => True

/-- Every operation that carries the cap keeps within it. -/
theorem apply_capped (hM : 0 < M) (hP : '#' ∉ P) {op : Op} (hop : op.Carries M P) (h : Capped M P st) :
    Capped M P (op.apply env st) := by
  have hb := apply_booked env op h.booked
  have hrun : ∀ {st'}, Steps env (UnderCap M P) st st' → Capped M P st' := fun hs =>
    Steps.invariant (fun hm hc => hm.capped hM hP hc) hs h
  cases op with
  | process hand =>
    refine hrun (process_steps st hand fun e he w hw => ?_)
    obtain ⟨hpfx, hsuf, hmax⟩ := hop e he
    obtain ⟨hwp, ⟨-, hws, hwm⟩ | ⟨-, hws, -⟩⟩ := hw
    · refine ⟨hwp.trans hpfx, Or.inl ⟨hwm.trans hmax, fun hm => ?_⟩⟩
      rw [hws, hsuf] at hm
      exact absurd (sanitize_passes e.event _ hm) (by decide)
    · exact ⟨hwp.trans hpfx, Or.inr hws⟩
  | marker control action db retention => exact hrun (writeMarker_steps st control action db retention)
  | checkpoint control retention => exact hrun (writeCheckpoint_steps st control retention)
  | flush dbnum =>
    refine .of_empty hM hb ?_
    simp only [Op.apply, flushCommand, onFlushStarted]
    split <;> rfl
  | swapdb first second =>
    simp only [Op.apply, swapCommand, onSwapdb] at hb ⊢
    split
    · exact ⟨h.booked.of_same rfl rfl rfl rfl, h.events, h.own⟩
    · split
      · exact ⟨h.booked.of_same rfl rfl rfl rfl, h.events, h.own⟩
      · exact .of_empty hM (.cleared st rfl rfl rfl) rfl
  | prune => exact cmdPrune_invariant (fun hp hc => hp.capped hc) h
  | setAutoGroup name =>
    simp only [Op.apply, setAutoGroup] at hb ⊢
    cases hv : validateAutoGroup name with
    | error e => exact h
    | ok _ =>
      rw [hv] at hb
      exact ⟨hb, h.events, h.own⟩
  | setFirehose on => exact ⟨hb, h.events, h.own⟩
  | role master loading => exact ⟨hb, h.events, h.own⟩
  | client db key obj => exact ⟨hb, h.events, h.own⟩
  | reset perNode => exact .of_empty hM hb rfl

/-- Outside per-node mode the firehose takes one slot beside the cap. -/
theorem Capped.current_le (h : Capped M P st) (hn : st.config.perNode = false) : st.currentStreams ≤ M + 1 := by
  have hsplit : st.countedIn (fun _ => true) = st.countedIn eventDerived + st.countedIn fun s => !eventDerived s := by
    rw [State.countedIn, State.countedIn, State.countedIn, ← Totals.total_add]
    congr 1
    funext k r
    cases r.counted <;> cases eventDerived k <;> rfl
  have hone : (st.countedIn fun s => !eventDerived s) ≤ 1 := by
    refine Totals.total_le_one (a := P ++ "#firehose".toList) (fun k r => by split <;> omega) fun r hr hne => ?_
    have hl : st.streamStats.lookup r.1 = some r.2 := AList.mem_lookup_iff.2 hr
    have hst : st.stats r.1 = r.2 := by simp [State.stats, hl]
    have hboth : r.2.counted = true ∧ eventDerived r.1 = false := by
      cases hc : r.2.counted <;> cases hd : eventDerived r.1 <;> simp [hc, hd] at hne ⊢
    exact h.own hn r.1 (hst ▸ hboth.1) hboth.2
  have hcur := h.booked.current
  have hev := h.events
  omega

end Cap

/-! ## The bookkeeping over runs -/

/-- A stream that is counted is never turned away by the cap. -/
theorem mirrorFields_of_counted (env : Env) {st : State} (pfx seg suffix : Str) (fields : List Bytes)
    (retention : Retention) (maxStreams : Int) (counter : Counter) (n : Nat)
    (h : (st.stats (streamOf pfx seg suffix)).counted = true) (s : Str) :
    (mirrorFields env st pfx seg suffix fields retention maxStreams counter n).1 ≠ .maxStreams s := by
  have hcap : capReached st (streamOf pfx seg suffix) maxStreams = false := by simp [capReached, h]
  simp only [mirrorFields, hcap, Bool.false_eq_true, if_false]
  split
  · simp
  · simp only [classify]
    split_ifs <;> simp

/-- **The bookkeeping of the cap is exact, and the cap holds.** In every run, `CURRENT_STREAMS` is the number of counted
records, `ACTIVE_STREAMS` is not below it, and a record is counted exactly when its stream was written since the last
clear or prune of its name. If every event processed since a clear carries the cap `M`, the counted event-derived
streams number at most `M`, and all counted streams at most `M + 1` outside per-node mode. A counted stream is never
refused. -/
theorem streams_bookkeeping (env : Env) (config : Config) (ks : Keyspace) (ops : List Op) :
    (runOps env (.fresh config ks) ops).currentStreams =
        ((runOps env (.fresh config ks) ops).streamStats.entries.filter fun r => r.2.counted).length ∧
    0 ≤ (runOps env (.fresh config ks) ops).currentStreams ∧
    (runOps env (.fresh config ks) ops).currentStreams ≤ (runOps env (.fresh config ks) ops).value .activeStreams ∧
    (∀ s, ((runOps env (.fresh config ks) ops).stats s).counted = true ↔
      writtenSince (runOps env (.fresh config ks) ops).trace s = true) ∧
    (∀ (M : Int) (P : Str) (before since : List Op), ops = before ++ since → 0 < M → validatePrefix P = .ok () →
      (runOps env (.fresh config ks) before).streamStats = ∅ → (∀ op ∈ since, op.Carries M P) →
      (((runOps env (.fresh config ks) ops).streamStats.entries.filter fun r =>
        r.2.counted && eventDerived r.1).length : Int) ≤ M ∧
      ((runOps env (.fresh config ks) ops).config.perNode = false →
        (runOps env (.fresh config ks) ops).currentStreams ≤ M + 1)) ∧
    (∀ pfx seg suffix fields retention maxStreams counter n,
      ((runOps env (.fresh config ks) ops).stats (streamOf pfx seg suffix)).counted = true →
      ∀ s, (mirrorFields env (runOps env (.fresh config ks) ops) pfx seg suffix fields retention
        maxStreams counter n).1 ≠ .maxStreams s) := by
  have hfresh : Booked (.fresh config ks) := ⟨rfl, Nat.zero_le _, fun _ => rfl⟩
  have hall : ∀ ops, Booked (runOps env (.fresh config ks) ops) := fun ops => by
    induction ops using List.reverseRecOn with
    | nil => exact hfresh
    | append_singleton ops op ih =>
      rw [runOps_append]
      exact apply_booked env op ih
  have hb := hall ops
  have hlen : ∀ p : Str → Bool, (runOps env (.fresh config ks) ops).countedIn p =
      ((runOps env (.fresh config ks) ops).streamStats.entries.filter fun r => r.2.counted && p r.1).length :=
    fun p => Totals.total_eq_length (fun (name : Str) (r : StreamStats) => r.counted && p name) _
  have hcount := hlen fun _ => true
  simp only [Bool.and_true] at hcount
  have hcur := hb.current
  have hact := hb.active
  refine ⟨by rw [hcur, hcount], by omega, by omega, fun s => by rw [hb.written s], ?_, ?_⟩
  · intro M P before since hops hM hP hempty hcarry
    have hhash : '#' ∉ P := fun hm => absurd (validatePrefix_chars hP hm) (by decide)
    have hcap : Capped M P (runOps env (.fresh config ks) ops) := by
      rw [hops, runOps_append]
      have hstart : Capped M P (runOps env (.fresh config ks) before) := .of_empty hM (hall before) hempty
      generalize runOps env (.fresh config ks) before = st at hstart
      clear hops hempty
      induction since generalizing st with
      | nil => exact hstart
      | cons op since ih =>
        exact ih (fun o ho => hcarry o (List.mem_cons_of_mem op ho)) _
          (apply_capped hM hhash (hcarry op List.mem_cons_self) hstart)
    exact ⟨hlen eventDerived ▸ hcap.events, hcap.current_le⟩
  · intro pfx seg suffix fields retention maxStreams counter n hc s
    exact mirrorFields_of_counted env pfx seg suffix fields retention maxStreams counter n hc s

/-- Two event names under a cap of one, with the firehose on: one name and the firehose are counted. -/
def cappedConfig : Config := { Config.defaults with firehose := true, maxStreams := 1 }

def cappedRun : List Op :=
  ["expired", "del"].map fun name =>
    .process (.event (snapshot (.fresh cappedConfig .empty) {.generic} name.toList [107] 0))

theorem streams_bookkeeping_one :
    (((runOps .calm (.fresh cappedConfig .empty) cappedRun).streamStats.entries.filter fun r =>
        r.2.counted && eventDerived r.1).length : Int) ≤ 1 ∧
      (runOps .calm (.fresh cappedConfig .empty) cappedRun).currentStreams = 2 := by
  refine ⟨?_, by decide +kernel⟩
  refine ((streams_bookkeeping .calm cappedConfig .empty cappedRun).2.2.2.2.1 1 "events:".toList [] cappedRun rfl
    (by decide) (by decide +kernel) rfl ?_).1
  intro op hop
  obtain ⟨name, _, rfl⟩ := List.mem_map.1 hop
  intro e he
  obtain rfl := List.mem_singleton.1 he
  exact ⟨rfl, rfl, rfl⟩

end EventStream

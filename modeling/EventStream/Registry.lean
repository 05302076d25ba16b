import EventStream.Lifecycle

/-!
# Registration and consumer groups

Two bits of a stream's record stand for facts about the keyspace: `registered` for membership in the registry set, and
`groupCreated` for a consumer group on the stream. Both are caches, so every operation that changes the keyspace or the
setting behind them has to invalidate them.

* `registerStream_registered`, `provisionGroup_created`: a bit is set only when the fact holds.
* `Noted`: after a call of a processor every stream it wrote has its bit, unless the failure was counted.
* `registered_lists`: the registration bits are right in runs whose swaps are seen by the capturing master.
* `autoGroup_provisions`: the groups are there in runs that neither rename the group nor delete a stream behind the
  bits.
-/

namespace EventStream

open Text (Str Bytes utf8 ofUtf8)

/-! ## Answers of the server -/

/-- The server answers `BUSYGROUP` for an existing group only, never as a refusal. -/
def Env.HonestBusy (env : Env) : Prop :=
  ∀ n cmd opts msg, env.refuse n cmd opts = some msg → startsWith msg "BUSYGROUP".toList = false

theorem exec_xgroupCreate_busy {env : Env} {n : Nat} {ks : Keyspace} {key group : Bytes} {msg : Str}
    (h : exec env n ks (.xgroupCreate key group) = .error msg) (hb : startsWith msg "BUSYGROUP".toList = true) :
    group ∈ ks.groups key := by
  have hnokey : startsWith noSuchKey "BUSYGROUP".toList = false := by decide +kernel
  have hwrong : startsWith wrongType "BUSYGROUP".toList = false := by decide +kernel
  simp only [exec] at h
  split at h
  · injection h with h
    rw [← h, hnokey] at hb
    cases hb
  · rename_i entries groups hs
    split at h
    · rename_i hmem
      simpa [Keyspace.groups, hs] using hmem
    · cases h
  · injection h with h
    rw [← h, hwrong] at hb
    cases hb

/-- The command failed between two states, and the failure was counted. -/
def FailureCounted (c : Counter) (cmd : Command) (st st' : State) : Prop :=
  st.value c < st'.value c ∧ ∃ why, .call why cmd false ∈ st'.trace.drop st.trace.length

/-- A failure stays counted when the stretch it falls in is made longer at either end. -/
theorem FailureCounted.widen {c : Counter} {cmd : Command} {st a b st' : State} (h : FailureCounted c cmd a b)
    (hv : st.value c ≤ a.value c) (ht : st.trace <+: a.trace) (hv' : b.value c ≤ st'.value c)
    (ht' : b.trace <+: st'.trace) : FailureCounted c cmd st st' := by
  obtain ⟨hlt, why, hmem⟩ := h
  refine ⟨by omega, why, ?_⟩
  obtain ⟨more, hmore⟩ := ht'
  rw [← hmore]
  have hlate : .call why cmd false ∈ b.trace.drop st.trace.length := List.drop_subset_drop_left _ ht.length_le hmem
  by_cases hle : st.trace.length ≤ b.trace.length
  · rw [List.drop_append_of_le_length hle]
    exact List.mem_append_left _ hlate
  · rw [List.drop_eq_nil_of_le (by omega)] at hlate
    cases hlate

/-! ## The bits of a written stream -/

section Bits

variable (env : Env) (st : State)

theorem createAutoGroup_streamStats (why : Purpose) (stream group : Str) :
    (createAutoGroup env st why stream group).2.streamStats = st.streamStats := by
  rcases createAutoGroup_cases env st why stream group with ⟨st₁, hc, h⟩ | ⟨msg, st₁, hc, ⟨_, h⟩ | ⟨latch, detail, h⟩⟩
  · obtain ⟨ks, _, rfl⟩ := call_ok hc
    rw [h]
    rfl
  · rw [h, call_error hc]
  · rw [h, call_error hc]
    rfl

/-- Provisioning a group leaves the registration bits alone. -/
theorem provisionGroup_registered (why : Purpose) (stream s : Str) :
    ((provisionGroup env st why stream).stats s).registered = (st.stats s).registered := by
  unfold provisionGroup
  split
  · cases groupName st with
    | none => rfl
    | some group =>
      have hs := createAutoGroup_streamStats env st why stream group
      simp only
      cases hr : createAutoGroup env st why stream group with
      | mk r st₁ =>
        rw [hr] at hs
        have hst : ∀ s, st₁.stats s = st.stats s := fun s => by simp only [State.stats]; rw [hs]
        cases r with
        | true =>
          simp only
          by_cases he : s = stream
          · rw [he, State.setStats_stats_same]
            change (st₁.stats stream).registered = _
            rw [hst]
          · rw [st₁.setStats_stats_ne _ he, hst]
        | false => exact congrArg StreamStats.registered (hst s)
  · rfl

theorem markRegistered_stats (stream s : Str) : (markRegistered st stream).stats s =
    (st.setStats stream { st.stats stream with registered := true, registryFailed := false }).stats s :=
  State.stats_congr rfl s

theorem markRegistryFailed_stats (why : Purpose) (registry stream msg s : Str) :
    (markRegistryFailed env st why registry stream msg).stats s =
      (st.setStats stream { st.stats stream with registryFailed := true }).stats s :=
  State.stats_congr rfl s

/-- Registering leaves the group bits alone. -/
theorem registerStream_groupCreated (why : Purpose) (registry stream s : Str) :
    ((registerStream env st why registry stream).stats s).groupCreated = (st.stats s).groupCreated := by
  unfold registerStream
  split
  · rfl
  · cases hc : call env st why (.sadd (utf8 registry) (utf8 stream)) (xaddCallOptions st) with
    | mk r st₁ =>
      cases r with
      | ok _ =>
        obtain ⟨ks, _, rfl⟩ := call_ok hc
        simp only
        rw [markRegistered_stats]
        by_cases he : s = stream
        · rw [he, State.setStats_stats_same]
          rfl
        · rw [State.setStats_stats_ne _ _ he]
          rfl
      | error msg =>
        simp only
        rw [markRegistryFailed_stats, call_error hc]
        by_cases he : s = stream
        · rw [he, State.setStats_stats_same]
          rfl
        · rw [State.setStats_stats_ne _ _ he]
          rfl

/-- A stream's registration bit comes from an earlier registration or from a `SADD` that executed. -/
theorem registerStream_registered (why : Purpose) (registry stream : Str)
    (h : ((registerStream env st why registry stream).stats stream).registered = true) :
    (st.stats stream).registered = true ∨
      utf8 stream ∈ (registerStream env st why registry stream).keyspace.members (utf8 registry) := by
  unfold registerStream at h ⊢
  split at h
  · rename_i hr
    exact Or.inl hr
  · rename_i hr
    rw [if_neg hr]
    cases hc : call env st why (.sadd (utf8 registry) (utf8 stream)) (xaddCallOptions st) with
    | mk r st₁ =>
      cases r with
      | ok _ =>
        obtain ⟨ks, he, rfl⟩ := call_ok hc
        exact Or.inr (exec_sadd_members he).1
      | error msg =>
        rw [hc] at h
        simp only at h
        rw [markRegistryFailed_stats, call_error hc, State.setStats_stats_same] at h
        exact Or.inl h

/-- Without the bit, the `SADD` of the stream failed and was counted. -/
theorem registerStream_counts (why : Purpose) (registry stream : Str)
    (h : ((registerStream env st why registry stream).stats stream).registered = false) :
    FailureCounted .registryErrors (.sadd (utf8 registry) (utf8 stream)) st
      (registerStream env st why registry stream) := by
  unfold registerStream at h ⊢
  split at h
  · rename_i hr
    rw [hr] at h
    cases h
  · rename_i hr
    rw [if_neg hr]
    cases hc : call env st why (.sadd (utf8 registry) (utf8 stream)) (xaddCallOptions st) with
    | mk r st₁ =>
      rw [hc] at h
      cases r with
      | ok _ =>
        simp only at h
        rw [markRegistered_stats, State.setStats_stats_same] at h
        cases h
      | error msg =>
        have hv : (markRegistryFailed env st₁ why registry stream msg).value .registryErrors =
            st₁.value .registryErrors + 1 := rfl
        have ht : (markRegistryFailed env st₁ why registry stream msg).trace = st₁.trace := rfl
        simp only [FailureCounted]
        rw [hv, ht, call_error hc]
        exact ⟨Nat.lt_succ_self _, why, by simp⟩

/-- A group that was created, or that the server reports as existing, is there. -/
theorem createAutoGroup_group (honest : env.HonestBusy) (why : Purpose) (stream group : Str)
    (h : (createAutoGroup env st why stream group).1 = true) :
    utf8 group ∈ (createAutoGroup env st why stream group).2.keyspace.groups (utf8 stream) := by
  rcases createAutoGroup_cases env st why stream group with ⟨st₁, hc, e⟩ | ⟨msg, st₁, hc, ⟨hb, e⟩ | ⟨latch, detail, e⟩⟩
  · obtain ⟨ks, he, rfl⟩ := call_ok hc
    rw [e]
    exact (exec_xgroupCreate he).1
  · rw [e, call_error hc]
    rcases call_error_cause hc with hr | he
    · rw [honest _ _ _ _ hr] at hb
      cases hb
    · exact exec_xgroupCreate_busy he hb
  · rw [e] at h
    cases h

/-- A stream's group bit comes from an earlier provisioning, or from a group that is there now. -/
theorem provisionGroup_created (honest : env.HonestBusy) (why : Purpose) (stream : Str)
    (h : ((provisionGroup env st why stream).stats stream).groupCreated = true) :
    (st.stats stream).groupCreated = true ∨
      utf8 st.config.autoGroup ∈ (provisionGroup env st why stream).keyspace.groups (utf8 stream) := by
  unfold provisionGroup at h ⊢
  split at h
  · rename_i hen
    rw [if_pos hen]
    unfold groupName at h ⊢
    by_cases hg : st.config.autoGroup = []
    · simp only [hg, if_true] at h
      exact Or.inl h
    · simp only [hg, if_false] at h ⊢
      have hgroup := createAutoGroup_group env st honest why stream st.config.autoGroup
      have hs := createAutoGroup_streamStats env st why stream st.config.autoGroup
      cases hr : createAutoGroup env st why stream st.config.autoGroup with
      | mk r st₁ =>
        rw [hr] at h hgroup hs
        cases r with
        | true => exact Or.inr (hgroup rfl)
        | false =>
          simp only at h
          rw [State.stats_congr hs] at h
          exact Or.inl h
  · exact Or.inl h

/-- With a group configured and no bit, the `XGROUP CREATE` on the stream failed and was counted. -/
theorem provisionGroup_counts (why : Purpose) (stream : Str) (hen : st.config.autoGroupEnabled = true)
    (hne : st.config.autoGroup ≠ []) (h : ((provisionGroup env st why stream).stats stream).groupCreated = false) :
    FailureCounted .autogroupFailed (.xgroupCreate (utf8 stream) (utf8 st.config.autoGroup)) st
      (provisionGroup env st why stream) := by
  unfold provisionGroup at h ⊢
  split at h
  · rename_i hcond
    rw [if_pos hcond]
    simp only [groupName, hne, if_false] at h ⊢
    rcases createAutoGroup_cases env st why stream st.config.autoGroup with
      ⟨st₁, hc, e⟩ | ⟨msg, st₁, hc, ⟨_, e⟩ | ⟨latch, detail, e⟩⟩
    · rw [e] at h
      simp only [State.setStats_stats_same] at h
      cases h
    · rw [e] at h
      simp only [State.setStats_stats_same] at h
      cases h
    · have hv : (countDrop env st₁ why .autogroupFailed latch detail).value .autogroupFailed =
          st₁.value .autogroupFailed + 1 := rfl
      have ht : (countDrop env st₁ why .autogroupFailed latch detail).trace = st₁.trace := rfl
      rw [e]
      simp only [FailureCounted]
      rw [hv, ht, call_error hc]
      exact ⟨Nat.lt_succ_self _, why, by simp⟩
  · rename_i hcond
    simp [hen, h] at hcond

end Bits

/-! ## The bits after a mirrored write -/

section Mirrored

variable {env : Env} {st st' : State} {why : Purpose} {stream registry : Str} {trim : Option (TrimKeyword × Str)}
  {fields : List Bytes} {counter : Counter} {count : Nat} {opts : CallOptions}

theorem recordWrite_bits (st : State) (why : Purpose) (stream : Str) (counter : Counter) (count : Nat) :
    ((recordWrite st why stream counter count).stats stream).registered = (st.stats stream).registered ∧
      ((recordWrite st why stream counter count).stats stream).groupCreated = (st.stats stream).groupCreated := by
  obtain ⟨r, hr, -, hreg, hgrp⟩ := recordWrite_streamStats st why stream counter count
  rw [State.stats_congr hr, State.setStats_stats_same]
  exact ⟨hreg, hgrp⟩

theorem call_xadd_stats (h : call env st why (.xadd (utf8 stream) false trim fields) opts = (.ok (), st')) (s : Str) :
    st'.stats s = st.stats s := by
  obtain ⟨ks, _, rfl⟩ := call_ok h
  rfl

theorem call_xadd_value (h : call env st why (.xadd (utf8 stream) false trim fields) opts = (.ok (), st'))
    (c : Counter) : st'.value c = st.value c := by
  obtain ⟨ks, _, rfl⟩ := call_ok h
  rfl

theorem mirrored_registered (h : call env st why (.xadd (utf8 stream) false trim fields) opts = (.ok (), st'))
    (hr : ((provisionGroup env (registerStream env (recordWrite st' why stream counter count) why registry stream) why
      stream).stats stream).registered = true) :
    (st.stats stream).registered = true ∨ utf8 stream ∈ (provisionGroup env (registerStream env
      (recordWrite st' why stream counter count) why registry stream) why stream).keyspace.members (utf8 registry) := by
  rw [provisionGroup_registered] at hr
  rcases registerStream_registered env _ why registry stream hr with hb | hm
  · rw [(recordWrite_bits st' why stream counter count).1, call_xadd_stats h] at hb
    exact Or.inl hb
  · exact Or.inr (((provisionGroup_aftermath env _ why stream).grows _).1 _ hm)

theorem call_xadd_trace (h : call env st why (.xadd (utf8 stream) false trim fields) opts = (.ok (), st')) :
    st.trace <+: st'.trace := by
  obtain ⟨ks, _, rfl⟩ := call_ok h
  exact List.prefix_append _ _

theorem mirrored_registryErrors (h : call env st why (.xadd (utf8 stream) false trim fields) opts = (.ok (), st'))
    (hr : ((provisionGroup env (registerStream env (recordWrite st' why stream counter count) why registry stream) why
      stream).stats stream).registered = false) :
    FailureCounted .registryErrors (.sadd (utf8 registry) (utf8 stream)) st (provisionGroup env (registerStream env
      (recordWrite st' why stream counter count) why registry stream) why stream) := by
  rw [provisionGroup_registered] at hr
  have hlast := provisionGroup_aftermath env (registerStream env (recordWrite st' why stream counter count) why registry
    stream) why stream
  have hcall : st.trace <+: st'.trace := call_xadd_trace h
  have hfirst : st.trace <+: (recordWrite st' why stream counter count).trace := hcall
  refine (registerStream_counts env _ why registry stream hr).widen ?_ hfirst (hlast.value_le _) hlast.longer
  rw [← call_xadd_value h]
  exact recordWrite_value_le st' why stream _ _ _

theorem mirrored_config (h : call env st why (.xadd (utf8 stream) false trim fields) opts = (.ok (), st')) :
    (registerStream env (recordWrite st' why stream counter count) why registry stream).config = st.config := by
  rw [(registerStream_aftermath env _ why registry stream).config]
  obtain ⟨ks, _, rfl⟩ := call_ok h
  rfl

theorem mirrored_groupCreated (honest : env.HonestBusy)
    (h : call env st why (.xadd (utf8 stream) false trim fields) opts = (.ok (), st'))
    (hr : ((provisionGroup env (registerStream env (recordWrite st' why stream counter count) why registry stream) why
      stream).stats stream).groupCreated = true) :
    (st.stats stream).groupCreated = true ∨ utf8 st.config.autoGroup ∈ (provisionGroup env (registerStream env
      (recordWrite st' why stream counter count) why registry stream) why stream).keyspace.groups (utf8 stream) := by
  rcases provisionGroup_created env _ honest why stream hr with hb | hm
  · rw [registerStream_groupCreated, (recordWrite_bits st' why stream counter count).2, call_xadd_stats h] at hb
    exact Or.inl hb
  · rw [mirrored_config h] at hm
    exact Or.inr hm

theorem mirrored_autogroupFailed (h : call env st why (.xadd (utf8 stream) false trim fields) opts = (.ok (), st'))
    (hen : st.config.autoGroupEnabled = true) (hne : st.config.autoGroup ≠ [])
    (hr : ((provisionGroup env (registerStream env (recordWrite st' why stream counter count) why registry stream) why
      stream).stats stream).groupCreated = false) :
    FailureCounted .autogroupFailed (.xgroupCreate (utf8 stream) (utf8 st.config.autoGroup)) st (provisionGroup env
      (registerStream env (recordWrite st' why stream counter count) why registry stream) why stream) := by
  have hconf : (registerStream env (recordWrite st' why stream counter count) why registry stream).config = st.config :=
    mirrored_config h
  have hfirst := registerStream_aftermath env (recordWrite st' why stream counter count) why registry stream
  have hfail := provisionGroup_counts env _ why stream (hconf ▸ hen) (hconf ▸ hne) hr
  rw [hconf] at hfail
  refine hfail.widen ?_ ((call_xadd_trace h).trans hfirst.longer) (le_refl _) (List.prefix_refl _)
  calc st.value .autogroupFailed
      = st'.value .autogroupFailed := (call_xadd_value h _).symm
    _ ≤ (recordWrite st' why stream counter count).value .autogroupFailed := recordWrite_value_le st' why stream _ _ _
    _ ≤ _ := hfirst.value_le _

end Mirrored

/-! ## Streams written by one call -/

/-- The stream was written by a mirrored write between two states. -/
def WrittenBetween (st st' : State) (stream : Str) : Prop :=
  ∃ o ∈ st'.trace.drop st.trace.length, mirroredKey o = some (utf8 stream)

/-- Every stream written since a state has its bit, unless its own command failed and was counted. -/
structure Noted (bit : StreamStats → Bool) (c : Counter) (cmd : Str → Command) (st st' : State) : Prop where
  config : st'.config = st.config
  trace : st.trace <+: st'.trace
  value_le : st.value c ≤ st'.value c
  noted : ∀ s, WrittenBetween st st' s → bit (st'.stats s) = true ∨ FailureCounted c (cmd s) st st'

section Noted

variable {env : Env} {ok : Write → Prop} {bit : StreamStats → Bool} {c : Counter} {cmd : Str → Command}
  {st a b : State}

theorem Noted.refl (st : State) : Noted bit c cmd st st := by
  refine ⟨rfl, List.prefix_refl _, le_refl _, fun s hw => ?_⟩
  obtain ⟨o, ho, _⟩ := hw
  simp at ho

/-- A stream written in a longer stretch was written before it, or by the calls it adds. -/
theorem WrittenBetween.split (htrace : st.trace <+: a.trace) {calls : List Occurrence}
    (ht : b.trace = a.trace ++ calls) {s : Str} (hw : WrittenBetween st b s) :
    WrittenBetween st a s ∨ ∃ o ∈ calls, mirroredKey o = some (utf8 s) := by
  obtain ⟨o, ho, hk⟩ := hw
  rw [ht, List.drop_append_of_le_length htrace.length_le] at ho
  rcases List.mem_append.1 ho with ho | ho
  · exact Or.inl ⟨o, ho, hk⟩
  · exact Or.inr ⟨o, ho, hk⟩

/-- What was noted of the streams written so far, whose bits a step leaves. -/
theorem Noted.kept (h : Noted bit c cmd st a) (hf : Frame a b) {s : Str} (hw : WrittenBetween st a s)
    (hbit : bit (b.stats s) = bit (a.stats s)) : bit (b.stats s) = true ∨ FailureCounted c (cmd s) st b := by
  rw [hbit]
  exact (h.noted s hw).imp_right fun hfail =>
    hfail.widen (le_refl _) (List.prefix_refl _) (hf.value_le c) hf.longer

/-- A step that mirrors nothing and leaves the bits. -/
theorem Noted.quiet (h : Noted bit c cmd st a) (hf : Frame a b) {calls : List Occurrence}
    (ht : b.trace = a.trace ++ calls) (hq : ∀ o ∈ calls, mirroredKey o = none)
    (hbit : ∀ s, bit (b.stats s) = bit (a.stats s)) : Noted bit c cmd st b := by
  refine ⟨hf.config.trans h.config, h.trace.trans hf.longer, h.value_le.trans (hf.value_le c), fun s hw => ?_⟩
  rcases hw.split h.trace ht with hw | ⟨o, ho, hk⟩
  · exact h.kept hf hw (hbit s)
  · rw [hq o ho] at hk
    cases hk

/-- A mirrored write that sets its stream's bit or counts the failure. -/
theorem Noted.mirrored (h : Noted bit c cmd st a) {stream : Str} (hw : Written stream a b)
    (hset : bit (b.stats stream) = true ∨ FailureCounted c (cmd stream) a b) : Noted bit c cmd st b := by
  obtain ⟨o, calls, ht, ho, hcalls⟩ := hw.trace
  have hf : Frame a b := hw.toFrame
  refine ⟨hf.config.trans h.config, h.trace.trans hf.longer, h.value_le.trans (hf.value_le c), fun s hws => ?_⟩
  by_cases hs : s = stream
  · rw [hs]
    exact hset.imp_right fun hfail => hfail.widen h.value_le h.trace (le_refl _) (List.prefix_refl _)
  refine h.kept hf ?_ (congrArg bit (hw.stats_ne s hs))
  rcases hws.split h.trace ht with hws | ⟨o', ho', hk⟩
  · exact hws
  rcases List.mem_cons.1 ho' with rfl | ho'
  · rw [ho] at hk
    exact absurd (Text.utf8_injective (Option.some.inj hk)).symm hs
  · obtain ⟨why, cmd, reply, rfl, hx⟩ := hcalls o' ho'
    cases cmd with
    | xadd key nomk trim fields => exact absurd rfl (hx key nomk trim fields)
    | sadd _ _ | srem _ _ | xgroupCreate _ _ => cases hk

theorem mirroredKey_of_probe {o : Occurrence} (h : isProbe o = true) : mirroredKey o = none := by
  unfold isProbe at h
  split at h
  · rename_i reply
    cases reply <;> rfl
  · cases h

theorem Micro.noted (hbits : ∀ s r, SameBits s r → bit r = bit s)
    (hset : ∀ {a st' : State} {w : Write} {trim fields counter count opts}, a.config = st.config → ok w →
      SegmentOf a.config w.seg → call env a w.why (.xadd (utf8 w.stream) false trim fields) opts = (.ok (), st') →
      bit ((provisionGroup env (registerStream env (recordWrite st' w.why w.stream counter count) w.why w.registry
        w.stream) w.why w.stream).stats w.stream) = true ∨
      FailureCounted c (cmd w.stream) a (provisionGroup env (registerStream env (recordWrite st' w.why w.stream counter
        count) w.why w.registry w.stream) w.why w.stream))
    (hm : Micro env ok a b) (h : Noted bit c cmd st a) : Noted bit c cmd st b := by
  have hf := hm.frame
  cases hm with
  | aside ha =>
    exact h.quiet hf (by rw [ha.trace, List.append_nil]) (by simp) fun s => by
      rw [State.stats_congr ha.streamStats]
  | probed hp =>
    obtain ⟨_, _, _, _, probes, rfl, _, ho⟩ := hp
    exact h.quiet hf rfl (fun o hm => mirroredKey_of_probe (ho o hm)) fun _ => rfl
  | record stream r hb =>
    refine h.quiet hf (by rw [List.append_nil]; rfl) (by simp) fun s => ?_
    by_cases hs : s = stream
    · rw [hs, State.setStats_stats_same, hbits _ _ hb]
    · rw [a.setStats_stats_ne r hs]
  | refused why cmd opts msg hc =>
    rw [call_error hc] at hf ⊢
    refine h.quiet hf rfl (fun o ho => ?_) fun _ => rfl
    rw [List.mem_singleton.1 ho]
    cases cmd <;> rfl
  | control why key trim fields opts hw hc =>
    obtain ⟨ks, _, rfl⟩ := call_ok hc
    refine h.quiet hf rfl (fun o ho => ?_) fun _ => rfl
    rw [List.mem_singleton.1 ho]
    rcases hw with rfl | rfl <;> rfl
  | mirrored w trim fields counter count opts hok hw hseg hcap hc hcall =>
    exact h.mirrored (mirrored_written _ _ hw hc hcall) (hset h.config hok hseg hcall)

end Noted

/-! ## Bits gained by one step -/

/-- A step that keeps the settings and what the keyspace holds: a record has its bit only if it had it before, or if the
step did what the bit tells. -/
structure Gains (bit : StreamStats → Bool) (done : Str → State → Prop) (st st' : State) : Prop where
  config : st'.config = st.config
  grows : Grows st.keyspace st'.keyspace
  gained : ∀ s, bit (st'.stats s) = true → bit (st.stats s) = true ∨ done s st'

section Gains

variable {env : Env} {ok : Write → Prop} {bit : StreamStats → Bool} {done : Str → State → Prop} {st st' : State}

theorem Aside.gains (ha : Aside st st') : Gains bit done st st' where
  config := ha.config
  grows := ha.keyspace ▸ .refl _
  gained s hr := by
    rw [State.stats_congr ha.streamStats] at hr
    exact Or.inl hr

theorem gains_of_refused {why : Purpose} {cmd : Command} {opts : CallOptions} {msg : Str}
    (hc : call env st why cmd opts = (.error msg, st')) : Gains bit done st st' := by
  rw [call_error hc]
  exact ⟨rfl, .refl _, fun _ => Or.inl⟩

/-- Only a mirrored write gains a bit, that of its own stream. -/
theorem Micro.gains (hbits : ∀ s r, SameBits s r → bit r = bit s)
    (hset : ∀ {a : State} {w : Write} {trim fields counter count opts}, ok w → SegmentOf st.config w.seg →
      call env st w.why (.xadd (utf8 w.stream) false trim fields) opts = (.ok (), a) →
      bit ((provisionGroup env (registerStream env (recordWrite a w.why w.stream counter count) w.why w.registry
        w.stream) w.why w.stream).stats w.stream) = true →
      bit (st.stats w.stream) = true ∨ done w.stream (provisionGroup env (registerStream env
        (recordWrite a w.why w.stream counter count) w.why w.registry w.stream) w.why w.stream))
    (hm : Micro env ok st st') : Gains bit done st st' := by
  have hconf := hm.frame.config
  cases hm with
  | aside ha => exact ha.gains
  | probed hp =>
    obtain ⟨_, _, _, _, _, rfl, hk, _⟩ := hp
    exact ⟨rfl, hk.grows, fun _ => Or.inl⟩
  | record stream r hb =>
    refine ⟨rfl, .refl _, fun s hr => Or.inl ?_⟩
    by_cases hs : s = stream
    · rw [hs, State.setStats_stats_same, hbits _ _ hb] at hr
      rwa [hs]
    · rwa [st.setStats_stats_ne r hs] at hr
  | refused why cmd opts msg hc => exact gains_of_refused hc
  | control why key trim fields opts hw hc =>
    obtain ⟨ks, he, rfl⟩ := call_ok hc
    exact ⟨rfl, exec_grows he (by simp), fun _ => Or.inl⟩
  | mirrored w trim fields counter count opts hok hw hseg hcap hc hcall =>
    have hwr := mirrored_written w.registry count hw hc hcall
    refine ⟨hconf, hwr.grows, fun s hr => ?_⟩
    by_cases hs : s = w.stream
    · rw [hs] at hr ⊢
      exact hset hok hseg hcall hr
    · rw [hwr.stats_ne s hs] at hr
      exact Or.inl hr

end Gains

/-! ## Registration -/

/-- A standalone node with prefix `P` whose registration bits are right. -/
structure Listed (P : Str) (st : State) : Prop where
  pfx : st.config.pfx = P
  standalone : st.config.perNode = false
  listed : ∀ s, (st.stats s).registered = true → utf8 s ∈ st.keyspace.members (utf8 (registryOf P []))

section Listed

variable {env : Env} {P : Str} {st st' : State}

theorem Listed.of_gains (h : Listed P st) (hg : Gains StreamStats.registered
    (fun s b => utf8 s ∈ b.keyspace.members (utf8 (registryOf P []))) st st') : Listed P st' where
  pfx := hg.config ▸ h.pfx
  standalone := hg.config ▸ h.standalone
  listed s hr := by
    rcases hg.gained s hr with hb | hmem
    · exact (hg.grows _).1 _ (h.listed s hb)
    · exact hmem

theorem Listed.of_empty (hp : st.config.pfx = P) (hn : st.config.perNode = false) (hs : st.streamStats = ∅) :
    Listed P st := ⟨hp, hn, fun s hr => by simp [State.stats, hs] at hr⟩

theorem Micro.listed (hm : Micro env (fun w => w.pfx = P) st st') (h : Listed P st) : Listed P st' := by
  refine h.of_gains (hm.gains (fun _ _ hb => hb.2.1) fun {_ w _ _ _ _ _} hok hseg hcall hr => ?_)
  -- The registry of the write is that of the node: one prefix, no tag.
  have hreg : w.registry = registryOf P [] := by rw [Write.registry, hok, hseg.1 h.standalone]
  exact hreg ▸ mirrored_registered hcall hr

theorem forgetStream_registered (st : State) (name s : Str) :
    ((forgetStream st name).stats s).registered = ((st.stats s).registered && s ≠ name) := by
  unfold forgetStream
  simp only
  cases hl : st.streamStats.lookup name with
  | none =>
    by_cases hs : s = name
    · subst hs
      simp [State.stats, hl]
    · simp [hs]
      rfl
  | some entry =>
    simp only
    generalize hr : ({ entry with counted := false, registered := false, registryFailed := false } : StreamStats) = r
    change ((st.setStats name r).stats s).registered = _
    by_cases hs : s = name
    · simp [hs, ← hr]
    · simp [hs, st.setStats_stats_ne r hs]

theorem forgetStream_rest (st : State) (name : Str) :
    (forgetStream st name).config = st.config ∧ (forgetStream st name).keyspace = st.keyspace := by
  unfold forgetStream
  simp only
  cases st.streamStats.lookup name <;> exact ⟨rfl, rfl⟩

/-- A prune takes a name out of the registry and forgets its bit. -/
theorem PruneStep.listed (hp : PruneStep env st st') (h : Listed P st) : Listed P st' := by
  cases hp with
  | aside ha => exact h.of_gains ha.gains
  | refused registry name msg hc => exact h.of_gains (gains_of_refused hc)
  | removed registry name habsent hc =>
    obtain ⟨ks, he, rfl⟩ := call_ok hc
    obtain ⟨hconf, hks⟩ := forgetStream_rest { st with
      keyspace := ks
      clock := st.clock + 1
      trace := st.trace ++ [.call .prune (.srem (utf8 registry) (utf8 name)) true] } name
    refine ⟨by rw [hconf]; exact h.pfx, by rw [hconf]; exact h.standalone, fun s hr => ?_⟩
    rw [forgetStream_registered, Bool.and_eq_true, decide_eq_true_eq] at hr
    have hmem := h.listed s hr.1
    rw [hks]
    by_cases hk : registryOf P [] = registry
    · rw [hk] at hmem ⊢
      exact (exec_srem_members he _).2 ⟨hmem, fun e => hr.2 (Text.utf8_injective e)⟩
    · have hf : ks 0 (utf8 (registryOf P [])) = st.keyspace 0 (utf8 (registryOf P [])) :=
        exec_frame he (Or.inr fun e => hk (Text.utf8_injective e))
      have hm : ks.members (utf8 (registryOf P [])) = st.keyspace.members (utf8 (registryOf P [])) := by
        simp only [Keyspace.members, hf]
      exact hm ▸ hmem

end Listed

/-- The operations of a standalone node: it captures while it is the capturing master, a prune is local, and no client
touches the registry key. Flushes and swaps may also be replayed on a replica. -/
def RegistryOp (P : Str) (st : State) : Op → Prop
  | .process h => st.capturing = true ∧ ∀ e ∈ h.events, e.pfx = P
  | .prune => st.master = true
  | .client _ key _ => key ≠ utf8 (registryOf P [])
  | .reset perNode => perNode = false
  | _ => True

/-- A swap that moves database 0 finds the capturing master, or no registered stream. -/
def SwapSeen (st : State) : Op → Prop
  | .swapdb first second =>
    (first ≠ 0 ∧ second ≠ 0) ∨ first = second ∨ st.capturing = true ∨ ∀ s, (st.stats s).registered = false
  | _ => True

theorem swap_zero {ks : Keyspace} {first second : Nat} (h : first ≠ 0 ∧ second ≠ 0) (k : Bytes) :
    ks.swap first second 0 k = ks 0 k := by
  simp [Keyspace.swap, h.1.symm, h.2.symm]

theorem swap_self (ks : Keyspace) (db : Nat) : ks.swap db db = ks := by
  funext d k
  by_cases hd : d = db
  · simp [Keyspace.swap, hd]
  · simp [Keyspace.swap, hd]

/-- Every such operation keeps the registration bits right. -/
theorem apply_listed {env : Env} {P : Str} {st : State} {op : Op} (hop : RegistryOp P st op) (hswap : SwapSeen st op)
    (h : Listed P st) : Listed P (op.apply env st) := by
  have hrun : ∀ {st'}, Steps env (fun w => w.pfx = P) st st' → Listed P st' := fun hs =>
    Steps.invariant (fun hm hl => hm.listed hl) hs h
  cases op with
  | process hand => exact hrun (process_steps st hand fun e he w hw => hw.1.trans (hop.2 e he))
  | marker control action db retention => exact hrun (writeMarker_steps st control action db retention)
  | checkpoint control retention => exact hrun (writeCheckpoint_steps st control retention)
  | flush dbnum =>
    obtain ⟨hconf, hs, -⟩ := onFlushStarted_clears st dbnum
    exact .of_empty (by rw [← h.pfx, ← hconf]; rfl) (by rw [← h.standalone, ← hconf]; rfl) hs
  | swapdb first second =>
    simp only [Op.apply, swapCommand, onSwapdb]
    split
    · rename_i hne
      refine ⟨h.pfx, h.standalone, fun s hr => ?_⟩
      have hm : (st.keyspace.swap first second).members (utf8 (registryOf P [])) =
          st.keyspace.members (utf8 (registryOf P [])) := by simp only [Keyspace.members, swap_zero hne]
      exact hm.symm ▸ h.listed s hr
    · rename_i hne
      split
      · rename_i hcap
        -- Nothing is cleared here; the condition says that nothing had to be.
        rcases hswap with hz | rfl | hz | hz
        · exact absurd hz hne
        · rw [swap_self]
          exact h
        · exact absurd hz hcap
        · exact ⟨h.pfx, h.standalone, fun s hr => absurd ((hz s).symm.trans hr) (by simp)⟩
      · exact .of_empty h.pfx h.standalone rfl
  | prune => exact cmdPrune_invariant (fun hp hl => hp.listed hl) h
  | setAutoGroup name =>
    simp only [Op.apply, setAutoGroup]
    cases validateAutoGroup name with
    | error e => exact h
    | ok _ => exact ⟨h.pfx, h.standalone, h.listed⟩
  | setFirehose on => exact ⟨h.pfx, h.standalone, h.listed⟩
  | role master loading => exact ⟨h.pfx, h.standalone, h.listed⟩
  | client db key obj =>
    refine ⟨h.pfx, h.standalone, fun s hr => ?_⟩
    have hne : ¬ (0 = db ∧ utf8 (registryOf P []) = key) := fun hk => hop hk.2.symm
    have hm : (st.keyspace.put db key obj).members (utf8 (registryOf P [])) =
        st.keyspace.members (utf8 (registryOf P [])) := by simp only [Keyspace.members, Keyspace.put, if_neg hne]
    exact hm.symm ▸ h.listed s hr
  | reset perNode => exact .of_empty h.pfx hop rfl

/-- What a bare `EVENTSTREAM.STREAMS` returns on a standalone node. -/
theorem cmdStreams_bare {env : Env} {P : Str} {st : State} (h : Listed P st) (hsel : env.selectDb st.clock = true)
    {s : Str} (hm : utf8 s ∈ st.keyspace.members (utf8 (registryOf P []))) :
    ∃ names, (cmdStreams env st .bare).1 = .ok (.names names) ∧ utf8 s ∈ names := by
  have htag : tagSegmentCached st = some [] := by simp [tagSegmentCached, h.standalone]
  refine ⟨st.keyspace.members (utf8 (registryOf P [])), ?_, hm⟩
  simp only [cmdStreams, htag, selectDb, hsel, streamsInDb0, smembers, h.pfx]
  unfold Keyspace.members at hm ⊢
  split at hm
  · rename_i members hk
    simp [hk]
  · cases hm

/-- **The registration dedupe hides no live stream, as long as swaps are seen.** In every run of a standalone node whose
swaps of database 0 find the capturing master or no registered stream, a registered record's stream is in the registry
set; and a stream that a call of a processor wrote is listed, unless the `SADD` of that stream failed: the failure was
then counted, and the bit stays clear for the next write to try again. -/
theorem registered_lists (env : Env) (config : Config) (ks : Keyspace) (ops : List Op) (hn : config.perNode = false)
    (hops : Meets env (fun st op => RegistryOp config.pfx st op ∧ SwapSeen st op) (.fresh config ks) ops) :
    (∀ s, ((runOps env (.fresh config ks) ops).stats s).registered = true →
      utf8 s ∈ (runOps env (.fresh config ks) ops).keyspace.members (utf8 (registryOf config.pfx []))) ∧
    ∀ h : Handoff, RegistryOp config.pfx (runOps env (.fresh config ks) ops) (.process h) → ∀ s,
      WrittenBetween (runOps env (.fresh config ks) ops) (h.process env (runOps env (.fresh config ks) ops)) s →
      env.selectDb (h.process env (runOps env (.fresh config ks) ops)).clock = true →
      (∃ names, (cmdStreams env (h.process env (runOps env (.fresh config ks) ops)) .bare).1 = .ok (.names names) ∧
        utf8 s ∈ names) ∨
      ((h.process env (runOps env (.fresh config ks) ops)).stats s).registered = false ∧
        FailureCounted .registryErrors (.sadd (utf8 (registryOf config.pfx [])) (utf8 s))
          (runOps env (.fresh config ks) ops) (h.process env (runOps env (.fresh config ks) ops)) := by
  have hinv : Listed config.pfx (runOps env (.fresh config ks) ops) :=
    runOps_invariant (fun st op hp hl => apply_listed hp.1 hp.2 hl) hops (.of_empty rfl hn rfl)
  generalize runOps env (.fresh config ks) ops = st at hinv
  refine ⟨hinv.listed, fun h hop s hw hsel => ?_⟩
  have hsteps : Steps env (fun w => w.pfx = config.pfx) st (h.process env st) :=
    process_steps st h fun e he w hw => hw.1.trans (hop.2 e he)
  have hlisted := Steps.invariant (fun hm hl => hm.listed hl) hsteps hinv
  have hnoted : Noted StreamStats.registered .registryErrors
      (fun s => .sadd (utf8 (registryOf config.pfx [])) (utf8 s)) st (h.process env st) := by
    refine Steps.invariant (fun hm hb => hm.noted (fun _ _ hb => hb.2.1)
      (fun {_ _ w _ _ _ _ _} hconf hok hseg hcall => ?_) hb) hsteps (.refl st)
    have hreg : w.registry = registryOf config.pfx [] := by
      rw [Write.registry, hok, hseg.1 (hconf ▸ hinv.standalone)]
    cases hr : StreamStats.registered _ with
    | true => exact Or.inl rfl
    | false => exact Or.inr (hreg ▸ mirrored_registryErrors hcall hr)
  cases hr : ((h.process env st).stats s).registered with
  | true => exact Or.inl (cmdStreams_bare hlisted hsel (hlisted.listed s hr))
  | false => exact Or.inr ⟨rfl, (hnoted.noted s hw).resolve_left (by simp [hr])⟩

/-- An event of the default settings. -/
def sampleEvent : PendingEvent := snapshot (.fresh .defaults .empty) {.expired} "expired".toList [107] 0

def sampleStream : Str := "events:expired".toList

/-- A stream is registered, the database is swapped on the capturing master, and the stream is written again. -/
def swappedRun : List Op := [.process (.event sampleEvent), .swapdb 0 1, .process (.event sampleEvent)]

theorem registered_lists_swapped :
    utf8 sampleStream ∈ (runOps .calm (.fresh .defaults .empty) swappedRun).keyspace.members
      (utf8 (registryOf Config.defaults.pfx [])) := by
  refine (registered_lists .calm .defaults .empty swappedRun rfl ?_).1 sampleStream (by decide +kernel)
  refine ⟨⟨⟨by decide +kernel, ?_⟩, trivial⟩, ⟨trivial, Or.inr (Or.inr (Or.inl (by decide +kernel)))⟩,
    ⟨⟨by decide +kernel, ?_⟩, trivial⟩, trivial⟩
  · intro e he
    rw [List.mem_singleton.1 he]
    rfl
  · intro e he
    rw [List.mem_singleton.1 he]
    rfl

/-- The swap is replayed while the node is a replica. -/
def replayedSwap : List Op := [.process (.event sampleEvent), .role false false, .swapdb 0 1, .role true false]

/-- After a swap on a replica the record stays registered while the registry set is gone with the old database: the next
write succeeds, no failure is counted, and the stream is not listed. -/
theorem replayed_swap_hides_stream :
    Meets .calm (RegistryOp Config.defaults.pfx) (.fresh .defaults .empty) replayedSwap ∧
    ((runOps .calm (.fresh .defaults .empty) replayedSwap).stats sampleStream).registered = true ∧
    utf8 sampleStream ∉ (runOps .calm (.fresh .defaults .empty) replayedSwap).keyspace.members
      (utf8 (registryOf Config.defaults.pfx [])) ∧
    ((runOps .calm (.fresh .defaults .empty) (replayedSwap ++ [.process (.event sampleEvent)])).keyspace.entries
      (utf8 sampleStream)).length = 1 ∧
    (runOps .calm (.fresh .defaults .empty) (replayedSwap ++ [.process (.event sampleEvent)])).value
      .registryErrors = 0 ∧
    (cmdStreams .calm
      (runOps .calm (.fresh .defaults .empty) (replayedSwap ++ [.process (.event sampleEvent)])) .bare).1 =
      .ok (.names []) := by
  refine ⟨⟨⟨by decide +kernel, ?_⟩, trivial, trivial, trivial, trivial⟩, by decide +kernel, by decide +kernel,
    by decide +kernel, by decide +kernel, by decide +kernel⟩
  intro e he
  rw [List.mem_singleton.1 he]
  rfl

/-! ## Consumer groups -/

/-- The configured group is on every stream whose record says so. -/
structure Provisioned (st : State) : Prop where
  enabled : st.config.autoGroupEnabled = decide (st.config.autoGroup ≠ [])
  groups : st.config.autoGroup = [] ∨
    ∀ s, (st.stats s).groupCreated = true → utf8 st.config.autoGroup ∈ st.keyspace.groups (utf8 s)

section Provisioned

variable {env : Env} {st st' : State}

theorem Provisioned.of_gains (h : Provisioned st) (hg : Gains StreamStats.groupCreated
    (fun s b => utf8 st.config.autoGroup ∈ b.keyspace.groups (utf8 s)) st st') : Provisioned st' := by
  refine ⟨hg.config ▸ h.enabled, ?_⟩
  rw [hg.config]
  rcases h.groups with he | hc
  · exact Or.inl he
  refine Or.inr fun s hr => ?_
  rcases hg.gained s hr with hb | hmem
  · exact (hg.grows _).2 _ (hc s hb)
  · exact hmem

theorem Provisioned.of_empty (he : st.config.autoGroupEnabled = decide (st.config.autoGroup ≠ []))
    (hs : st.streamStats = ∅) : Provisioned st :=
  ⟨he, Or.inr fun s hr => by simp [State.stats, hs] at hr⟩

theorem Micro.provisioned (honest : env.HonestBusy) {ok : Write → Prop} (hm : Micro env ok st st')
    (h : Provisioned st) : Provisioned st' :=
  h.of_gains (hm.gains (fun _ _ hb => hb.2.2) fun _ _ hcall hr => mirrored_groupCreated honest hcall hr)

/-- Removing a member of a set touches no stream. -/
theorem exec_srem_groups {n : Nat} {ks ks' : Keyspace} {key member : Bytes}
    (h : exec env n ks (.srem key member) = .ok ks') (k : Bytes) : ks'.groups k = ks.groups k := by
  by_cases hk : k = key
  · subst hk
    simp only [exec] at h
    split at h
    · injection h with h
      rw [h]
    · rename_i members hs
      injection h with h
      subst h
      simp only [Keyspace.groups, hs, and_self, if_true]
      split
      · rename_i heq
        split at heq <;> cases heq
      · rfl
    · cases h
  · have hf : ks' 0 k = ks 0 k := exec_frame h (Or.inr hk)
    simp only [Keyspace.groups, hf]

theorem forgetStream_groupCreated (st : State) (name s : Str) :
    ((forgetStream st name).stats s).groupCreated = (st.stats s).groupCreated := by
  unfold forgetStream
  simp only
  cases hl : st.streamStats.lookup name with
  | none => rfl
  | some entry =>
    simp only
    have hst : st.stats name = entry := by simp [State.stats, hl]
    generalize hr : ({ entry with counted := false, registered := false, registryFailed := false } : StreamStats) = r
    change ((st.setStats name r).stats s).groupCreated = _
    by_cases hs : s = name
    · rw [hs, State.setStats_stats_same, hst, ← hr]
    · rw [st.setStats_stats_ne r hs]

/-- A prune neither touches a group nor forgets a group bit. -/
theorem PruneStep.provisioned (hp : PruneStep env st st') (h : Provisioned st) : Provisioned st' := by
  cases hp with
  | aside ha => exact h.of_gains ha.gains
  | refused registry name msg hc => exact h.of_gains (gains_of_refused hc)
  | removed registry name habsent hc =>
    obtain ⟨ks, he, rfl⟩ := call_ok hc
    obtain ⟨hconf, hks⟩ := forgetStream_rest { st with
      keyspace := ks
      clock := st.clock + 1
      trace := st.trace ++ [.call .prune (.srem (utf8 registry) (utf8 name)) true] } name
    refine ⟨by rw [hconf]; exact h.enabled, ?_⟩
    rw [hconf, hks]
    rcases h.groups with hg | hg
    · exact Or.inl hg
    · refine Or.inr fun s hr => ?_
      rw [forgetStream_groupCreated] at hr
      exact (exec_srem_groups he _).symm ▸ hg s hr

end Provisioned

/-- The operations of a capturing master: the client operations are deletions of streams in database 0. -/
def GroupOp (st : State) : Op → Prop
  | .swapdb _ _ => st.capturing = true
  | .client db _ obj => db = 0 ∧ obj = none
  | .role _ _ => False
  | _ => True

/-- A new group name that is accepted finds no stream provisioned under another name, and a deleted stream is not
provisioned. -/
def GroupKept (st : State) : Op → Prop
  | .setAutoGroup name => validateAutoGroup name = .ok () →
      name = [] ∨ ∀ s, (st.stats s).groupCreated = true → utf8 name ∈ st.keyspace.groups (utf8 s)
  | .client _ key _ => st.config.autoGroup = [] ∨ ∀ s, utf8 s = key → (st.stats s).groupCreated = false
  | _ => True

/-- Every such operation keeps the group bits right. -/
theorem apply_provisioned {env : Env} (honest : env.HonestBusy) {st : State} {op : Op} (hop : GroupOp st op)
    (hkept : GroupKept st op) (h : Provisioned st) : Provisioned (op.apply env st) := by
  have hrun : ∀ {st'}, Steps env (fun _ => True) st st' → Provisioned st' := fun hs =>
    Steps.invariant (fun hm hl => hm.provisioned honest hl) hs h
  cases op with
  | process hand => exact hrun (process_steps st hand fun _ _ _ _ => trivial)
  | marker control action db retention => exact hrun (writeMarker_steps st control action db retention)
  | checkpoint control retention => exact hrun (writeCheckpoint_steps st control retention)
  | flush dbnum =>
    obtain ⟨hconf, hs, -⟩ := onFlushStarted_clears st dbnum
    refine .of_empty ?_ hs
    change (onFlushStarted st dbnum).config.autoGroupEnabled = decide ((onFlushStarted st dbnum).config.autoGroup ≠ [])
    rw [hconf]
    exact h.enabled
  | swapdb first second =>
    simp only [Op.apply, swapCommand, onSwapdb]
    split
    · rename_i hne
      refine ⟨h.enabled, ?_⟩
      rcases h.groups with hg | hg
      · exact Or.inl hg
      · refine Or.inr fun s hr => ?_
        have hm : (st.keyspace.swap first second).groups (utf8 s) = st.keyspace.groups (utf8 s) := by
          simp only [Keyspace.groups, swap_zero hne]
        exact hm.symm ▸ hg s hr
    · split
      · rename_i hcap
        exact absurd hop hcap
      · exact .of_empty h.enabled rfl
  | prune => exact cmdPrune_invariant (fun hp hl => hp.provisioned hl) h
  | setAutoGroup name =>
    simp only [Op.apply, setAutoGroup]
    cases hv : validateAutoGroup name with
    | error e => exact h
    | ok _ => exact ⟨rfl, hkept hv⟩
  | setFirehose on => exact ⟨h.enabled, h.groups⟩
  | role master loading => exact absurd hop id
  | client db key obj =>
    refine ⟨h.enabled, ?_⟩
    rcases h.groups with hg | hg
    · exact Or.inl hg
    rcases hkept with hk | hk
    · exact Or.inl hk
    refine Or.inr fun s hr => ?_
    -- The deleted stream has no bit, and the others keep their groups.
    have hne : ¬ (0 = db ∧ utf8 s = key) := fun hk' => by
      have := hk s hk'.2
      rw [show (st.stats s).groupCreated = true from hr] at this
      cases this
    have hm : (st.keyspace.put db key obj).groups (utf8 s) = st.keyspace.groups (utf8 s) := by
      simp only [Keyspace.groups, Keyspace.put, if_neg hne]
    exact hm.symm ▸ hg s hr
  | reset perNode => exact .of_empty h.enabled rfl

/-- **Auto-group provisioning is complete, as long as the group and the streams keep their names.** In every run in
which a new group name finds no stream provisioned under another one, and no provisioned stream is deleted, a stream
that a call of a processor wrote has the configured group, unless the `XGROUP CREATE` on that stream failed: the failure
was then counted, and the bit stays clear for the next write to try again. -/
theorem autoGroup_provisions (env : Env) (honest : env.HonestBusy) (config : Config) (ks : Keyspace) (ops : List Op)
    (hen : config.autoGroupEnabled = decide (config.autoGroup ≠ []))
    (hops : Meets env (fun st op => GroupOp st op ∧ GroupKept st op) (.fresh config ks) ops) (h : Handoff) (s : Str)
    (hw : WrittenBetween (runOps env (.fresh config ks) ops) (h.process env (runOps env (.fresh config ks) ops)) s)
    (hgroup : (runOps env (.fresh config ks) ops).config.autoGroup ≠ []) :
    utf8 (runOps env (.fresh config ks) ops).config.autoGroup ∈
      (h.process env (runOps env (.fresh config ks) ops)).keyspace.groups (utf8 s) ∨
    ((h.process env (runOps env (.fresh config ks) ops)).stats s).groupCreated = false ∧
      FailureCounted .autogroupFailed
        (.xgroupCreate (utf8 s) (utf8 (runOps env (.fresh config ks) ops).config.autoGroup))
        (runOps env (.fresh config ks) ops) (h.process env (runOps env (.fresh config ks) ops)) := by
  have hinv : Provisioned (runOps env (.fresh config ks) ops) :=
    runOps_invariant (fun st op hp hl => apply_provisioned honest hp.1 hp.2 hl) hops (.of_empty hen rfl)
  generalize runOps env (.fresh config ks) ops = st at hinv hw hgroup
  have hsteps : Steps env (fun _ => True) st (h.process env st) := process_steps st h fun _ _ _ _ => trivial
  have hnoted : Noted StreamStats.groupCreated .autogroupFailed
      (fun s => .xgroupCreate (utf8 s) (utf8 st.config.autoGroup)) st (h.process env st) := by
    refine Steps.invariant (fun hm hb => hm.noted (fun _ _ hb => hb.2.2)
      (fun {a _ _ _ _ _ _ _} hconf _ _ hcall => ?_) hb) hsteps (.refl st)
    have hena : a.config.autoGroupEnabled = true := by rw [hconf, hinv.enabled]; simpa using hgroup
    cases hr : StreamStats.groupCreated _ with
    | true => exact Or.inl rfl
    | false => exact Or.inr (hconf ▸ mirrored_autogroupFailed hcall hena (hconf ▸ hgroup) hr)
  have hafter : Provisioned (h.process env st) :=
    Steps.invariant (fun hm hl => hm.provisioned honest hl) hsteps hinv
  have hbits := hafter.groups
  rw [(Steps.frame hsteps).config] at hbits
  cases hr : ((h.process env st).stats s).groupCreated with
  | true => exact Or.inl (hbits.resolve_left hgroup s hr)
  | false => exact Or.inr ⟨rfl, (hnoted.noted s hw).resolve_left (by simp [hr])⟩

theorem calm_honest : Env.calm.HonestBusy := fun _ _ _ _ h => by cases h

theorem autoGroup_provisions_first :
    utf8 "workers".toList ∈ ((Handoff.event sampleEvent).process .calm
      (runOps .calm (.fresh .defaults .empty) [.setAutoGroup "workers".toList])).keyspace.groups
      (utf8 sampleStream) := by
  refine (autoGroup_provisions .calm calm_honest .defaults .empty [.setAutoGroup "workers".toList] rfl ?_
    (.event sampleEvent) sampleStream ?_ (by decide +kernel)).resolve_right fun hbit =>
      absurd hbit.1 (by decide +kernel)
  · exact ⟨⟨trivial, fun _ => Or.inr fun s hs => by cases hs⟩, trivial⟩
  · unfold WrittenBetween
    decide +kernel

/-- The group is renamed between two writes of a stream. -/
def renamedGroup : List Op :=
  [.setAutoGroup "one".toList, .process (.event sampleEvent), .setAutoGroup "two".toList]

/-- A stream is deleted and pruned between two writes. -/
def prunedStream : List Op :=
  [.setAutoGroup "one".toList, .process (.event sampleEvent), .client 0 (utf8 sampleStream) none, .prune]

/-- The group bit survives a new group name, and a prune of its stream: the next write succeeds, no failure is counted,
and the stream has no such group. -/
theorem stale_group_bit :
    (Meets .calm GroupOp (.fresh .defaults .empty) renamedGroup ∧
      WrittenBetween (runOps .calm (.fresh .defaults .empty) renamedGroup)
        ((Handoff.event sampleEvent).process .calm (runOps .calm (.fresh .defaults .empty) renamedGroup)) sampleStream ∧
      (runOps .calm (.fresh .defaults .empty) renamedGroup).config.autoGroup = "two".toList ∧
      ((Handoff.event sampleEvent).process .calm (runOps .calm (.fresh .defaults .empty) renamedGroup)).value
        .autogroupFailed = 0 ∧
      ((Handoff.event sampleEvent).process .calm (runOps .calm (.fresh .defaults .empty) renamedGroup)).keyspace.groups
        (utf8 sampleStream) = [utf8 "one".toList]) ∧
    (Meets .calm GroupOp (.fresh .defaults .empty) prunedStream ∧
      WrittenBetween (runOps .calm (.fresh .defaults .empty) prunedStream)
        ((Handoff.event sampleEvent).process .calm (runOps .calm (.fresh .defaults .empty) prunedStream)) sampleStream ∧
      (runOps .calm (.fresh .defaults .empty) prunedStream).config.autoGroup = "one".toList ∧
      ((Handoff.event sampleEvent).process .calm (runOps .calm (.fresh .defaults .empty) prunedStream)).value
        .autogroupFailed = 0 ∧
      ((Handoff.event sampleEvent).process .calm (runOps .calm (.fresh .defaults .empty) prunedStream)).keyspace.groups
        (utf8 sampleStream) = []) := by
  unfold WrittenBetween
  refine ⟨⟨⟨trivial, trivial, trivial, trivial⟩, ?_, ?_, ?_, ?_⟩,
    ⟨⟨trivial, trivial, ⟨rfl, rfl⟩, trivial, trivial⟩, ?_, ?_, ?_, ?_⟩⟩
  all_goals decide +kernel

end EventStream

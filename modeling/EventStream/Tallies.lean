import EventStream.Turns
import EventStream.Fences

/-!
# The counters of the streams and of the process

Every record counts what was forwarded to its stream and what was dropped on it; the process counts the same over all
streams. The two agree as long as no record is cleared.

* `Elementary`: the single changes of the statics; a step is a path of them (`step_elementary`).
* `Tallied`: the two sums; `Elementary.tallied` is its step lemma.
* `Elementary.apart`: the drops that have no stream touch no record.
* `counters_agree`: the sums over whole runs.
-/

namespace EventStream

open Text (Str Bytes utf8)

/-! ## Sums over the records -/

namespace State

/-- What the records count as forwarded. -/
def forwardedSum (st : State) : Nat := Totals.total (fun _ r => r.forwarded) st.streamStats

/-- What the records count as dropped. -/
def droppedSum (st : State) : Nat := Totals.total (fun _ r => r.dropped) st.streamStats

theorem forwardedSum_setStats (st : State) (stream : Str) (s : StreamStats) :
    (st.setStats stream s).forwardedSum + (st.stats stream).forwarded = st.forwardedSum + s.forwarded :=
  total_setStats (fun _ => rfl) st stream s

theorem droppedSum_setStats (st : State) (stream : Str) (s : StreamStats) :
    (st.setStats stream s).droppedSum + (st.stats stream).dropped = st.droppedSum + s.dropped :=
  total_setStats (fun _ => rfl) st stream s

end State

/-- The records and the process count the same. -/
structure Tallied (st : State) : Prop where
  forwarded : st.forwardedSum = st.value .forwarded + st.value .firehoseForwarded
  dropped : st.droppedSum = st.value .droppedOom + st.value .droppedXaddError

namespace Tallied

variable {st st' : State}

/-- The same records and the same values of the four counters. -/
theorem of_same (h : Tallied st) (hs : st'.streamStats = st.streamStats)
    (hv : ∀ c, c.isTallied = true → st'.value c = st.value c) : Tallied st' := by
  have hf : st'.forwardedSum = st.forwardedSum := by rw [State.forwardedSum, State.forwardedSum, hs]
  have hd : st'.droppedSum = st.droppedSum := by rw [State.droppedSum, State.droppedSum, hs]
  exact ⟨by rw [hf, h.forwarded, hv _ rfl, hv _ rfl], by rw [hd, h.dropped, hv _ rfl, hv _ rfl]⟩

/-- An increment of another counter. -/
theorem of_add (h : Tallied st) (hs : st'.streamStats = st.streamStats) {why : Purpose} {c : Counter} {n : Nat}
    (hc : st'.counters = st.counters.add why c n) (hn : c.isTallied = false) : Tallied st' := by
  refine h.of_same hs fun d hd => ?_
  have hne : d ≠ c := fun e => by
    rw [e, hn] at hd
    cases hd
  rw [State.value, State.value, hc, Counters.add_value, if_neg hne]

/-- A record that counts the same. -/
theorem of_flagged (h : Tallied st) {stream : Str} {s : StreamStats}
    (hs : s.forwarded = (st.stats stream).forwarded ∧ s.dropped = (st.stats stream).dropped) :
    Tallied (st.setStats stream s) := by
  have hf := st.forwardedSum_setStats stream s
  have hd := st.droppedSum_setStats stream s
  have hsame : ∀ c, (st.setStats stream s).value c = st.value c := fun _ => rfl
  refine ⟨?_, ?_⟩
  · rw [hsame, hsame, ← h.forwarded]
    omega
  · rw [hsame, hsame, ← h.dropped]
    omega

end Tallied

/-- A failure is counted in the record and in the counter of its reason. -/
theorem countStreamDrop_tallied (env : Env) {st : State} (h : Tallied st) (why : Purpose) (stream : Str) {c : Counter}
    (detail : Str) (hc : c = .droppedOom ∨ c = .droppedXaddError) :
    Tallied (countStreamDrop env st why stream c detail) := by
  have hrec : ((st.stats stream).recordFailure (env.unixNow st.clock)).1.forwarded = (st.stats stream).forwarded ∧
      ((st.stats stream).recordFailure (env.unixNow st.clock)).1.dropped = (st.stats stream).dropped + 1 := by
    simp only [StreamStats.recordFailure]
    split <;> exact ⟨rfl, rfl⟩
  have hf := st.forwardedSum_setStats stream ((st.stats stream).recordFailure (env.unixNow st.clock)).1
  have hd := st.droppedSum_setStats stream ((st.stats stream).recordFailure (env.unixNow st.clock)).1
  rw [hrec.1] at hf
  rw [hrec.2] at hd
  have hv : ∀ d, (countStreamDrop env st why stream c detail).value d = if d = c then st.value d + 1 else st.value d :=
    fun d => Counters.add_value _ _ _ _ _
  have hfs : (countStreamDrop env st why stream c detail).forwardedSum = st.forwardedSum := Nat.add_right_cancel hf
  have hds : (countStreamDrop env st why stream c detail).droppedSum = st.droppedSum + 1 := by
    have hsum : (countStreamDrop env st why stream c detail).droppedSum =
      (st.setStats stream ((st.stats stream).recordFailure (env.unixNow st.clock)).1).droppedSum := rfl
    omega
  have hfor := h.forwarded
  have hdrop := h.dropped
  rcases hc with rfl | rfl
  · refine ⟨?_, ?_⟩
    · rw [hfs, hv, hv, if_neg (by decide), if_neg (by decide), hfor]
    · rw [hds, hv, hv, if_pos rfl, if_neg (by decide), hdrop]
      omega
  · refine ⟨?_, ?_⟩
    · rw [hfs, hv, hv, if_neg (by decide), if_neg (by decide), hfor]
    · rw [hds, hv, hv, if_neg (by decide), if_pos rfl, hdrop]
      omega

/-- A written entry is counted in the record and in the counter of its kind, with the events it stands for. -/
theorem recordWrite_tallied {st : State} (h : Tallied st) (why : Purpose) (stream : Str) {counter : Counter}
    (count : Nat) (hc : counter = .forwarded ∨ counter = .firehoseForwarded) :
    Tallied (recordWrite st why stream counter count) := by
  obtain ⟨r, hr, hfr, hdr⟩ : ∃ r : StreamStats, (recordWrite st why stream counter count).streamStats =
      (st.setStats stream r).streamStats ∧ r.forwarded = (st.stats stream).forwarded + count ∧
      r.dropped = (st.stats stream).dropped := by
    refine ⟨_, rfl, ?_, ?_⟩ <;> simp only [StreamStats.recordSuccess] <;> split <;> rfl
  have hf := st.forwardedSum_setStats stream r
  have hd := st.droppedSum_setStats stream r
  have hv : ∀ d, d ≠ .activeStreams → (recordWrite st why stream counter count).value d =
      if d = counter then st.value d + count else st.value d := fun d hd => by
    rcases recordWrite_counters st why stream counter count with e | e <;>
      simp only [State.value, e, State.charge, Counters.add_value, if_neg hd]
  have hfs : (recordWrite st why stream counter count).forwardedSum = st.forwardedSum + count := by
    rw [State.forwardedSum, hr]
    have : Totals.total (fun _ r => r.forwarded) (st.setStats stream r).streamStats =
      (st.setStats stream r).forwardedSum := rfl
    omega
  have hds : (recordWrite st why stream counter count).droppedSum = st.droppedSum := by
    rw [State.droppedSum, hr]
    have : Totals.total (fun _ r => r.dropped) (st.setStats stream r).streamStats =
      (st.setStats stream r).droppedSum := rfl
    omega
  have hfor := h.forwarded
  have hdrop := h.dropped
  rcases hc with rfl | rfl
  · refine ⟨?_, ?_⟩
    · rw [hfs, hv _ (by decide), hv _ (by decide), if_pos rfl, if_neg (by decide), hfor]
      omega
    · rw [hds, hv _ (by decide), hv _ (by decide), if_neg (by decide), if_neg (by decide), hdrop]
  · refine ⟨?_, ?_⟩
    · rw [hfs, hv _ (by decide), hv _ (by decide), if_neg (by decide), if_pos rfl, hfor]
      omega
    · rw [hds, hv _ (by decide), hv _ (by decide), if_neg (by decide), if_neg (by decide), hdrop]

theorem call_tallied {env : Env} {st st' : State} {why : Purpose} {cmd : Command} {opts : CallOptions}
    {r : Except Str Unit} (h : call env st why cmd opts = (r, st')) : st'.streamStats = st.streamStats ∧
      st'.counters = st.counters := by
  obtain ⟨_, _, _, rfl⟩ := call_rest h
  exact ⟨rfl, rfl⟩

/-! ## Single changes -/

/-- A single change of the statics: a deed, a name forgotten by a prune, or a change to something that counts nothing.
-/
inductive Elementary (env : Env) : State → State → Prop
  | deed {st st' : State} (d : Deed) (h : Does env st d st') : Elementary env st st'
  | forgotten (st : State) (name : Str) : Elementary env st (forgetStream st name)
  | outside {st st' : State} (hc : st'.counters = st.counters) (hs : st'.streamStats = st.streamStats) :
      Elementary env st st'

/-- The drops that are not counted against a stream. -/
def Counter.isStreamless : Counter → Bool
  | .droppedDeferError | .droppedEncodeError | .droppedMaxStreams | .droppedNoOwnedSlot | .droppedMigrating => true
  | _ => false

theorem forgetStream_same (st : State) (name : Str) : (forgetStream st name).counters = st.counters ∧
    ((forgetStream st name).streamStats = st.streamStats ∨
      ∃ s : StreamStats, (s.forwarded = (st.stats name).forwarded ∧ s.dropped = (st.stats name).dropped) ∧
        (forgetStream st name).streamStats = (st.setStats name s).streamStats) := by
  unfold forgetStream
  simp only
  cases hl : st.streamStats.lookup name with
  | none => exact ⟨rfl, Or.inl rfl⟩
  | some entry =>
    have hs : st.stats name = entry := by simp [State.stats, hl]
    refine ⟨rfl, Or.inr ⟨{ entry with counted := false, registered := false, registryFailed := false }, ?_, rfl⟩⟩
    rw [hs]
    exact ⟨rfl, rfl⟩

namespace Elementary

variable {env : Env} {st st' : State}

theorem tallied (hsel : ∀ i, env.selectDb i = true) (h : Elementary env st st') (ht : Tallied st) : Tallied st' := by
  cases h with
  | deed d h =>
    cases h with
    | still h => exact ht.of_same h.streamStats fun c _ => by rw [State.value, State.value, h.counters]
    | number => exact ht.of_same rfl fun _ _ => rfl
    | charge why c n hc => exact ht.of_add rfl rfl hc
    | drop why c latch detail hc =>
      rcases hc with hc | ⟨_, i, hi⟩
      · exact ht.of_add rfl rfl hc
      · rw [hsel i] at hi
        cases hi
    | streamDrop why stream c detail hc => exact countStreamDrop_tallied env ht why stream detail hc
    | written why stream counter count hc => exact recordWrite_tallied ht why stream count hc
    | flagged stream s h => exact ht.of_flagged h
    | call why cmd opts r h =>
      obtain ⟨hs, hc⟩ := call_tallied h
      exact ht.of_same hs fun c _ => by rw [State.value, State.value, hc]
    | pin tag h => exact ht.of_same rfl fun _ _ => rfl
    | verify tag h => exact ht.of_same rfl fun _ _ => rfl
    | unpin => exact ht.of_same rfl fun _ _ => rfl
  | forgotten name =>
    obtain ⟨hc, hs | ⟨s, hsame, hs⟩⟩ := forgetStream_same st name
    · exact ht.of_same hs fun c _ => by rw [State.value, State.value, hc]
    · exact (ht.of_flagged hsame).of_same hs fun c _ => by rw [State.value, hc]; rfl
  | outside hc hs => exact ht.of_same hs fun c _ => by rw [State.value, State.value, hc]

theorem path_tallied (hsel : ∀ i, env.selectDb i = true) (h : Relation.ReflTransGen (Elementary env) st st')
    (ht : Tallied st) : Tallied st' := by
  induction h with
  | refl => exact ht
  | tail _ he ih => exact he.tallied hsel ih

/-- A change that counts a drop without a stream touches no record. -/
theorem apart (h : Elementary env st st') {c : Counter} (hc : c.isStreamless = true) (hv : st'.value c ≠ st.value c) :
    st'.streamStats = st.streamStats := by
  have hsame : st'.counters = st.counters → False := fun e => hv (by rw [State.value, State.value, e])
  cases h with
  | deed d h =>
    cases h with
    | still h => exact h.streamStats
    | number | charge why c n hc | drop why c latch detail hc | pin tag h | verify tag h | unpin => rfl
    | streamDrop why stream d detail hd =>
      refine absurd (if_neg ?_) hv
      rintro rfl
      rcases hd with rfl | rfl <;> cases hc
    | written why stream counter count hd =>
      refine absurd ?_ hv
      have h₁ : c ≠ .activeStreams := fun e => by rw [e] at hc; cases hc
      have h₂ : c ≠ counter := fun e => by
        rw [e] at hc
        rcases hd with rfl | rfl <;> cases hc
      rcases recordWrite_counters st why stream counter count with e | e <;>
        simp only [State.value, e, State.charge, Counters.add_value, if_neg h₁, if_neg h₂]
    | flagged stream s h => exact (hsame rfl).elim
    | call why cmd opts r h => exact (call_tallied h).1
  | forgotten name => exact (hsame (forgetStream_same st name).1).elim
  | outside hc hs => exact hs

end Elementary

theorem Trail.elementary {env : Env} {P : Purpose → Command → Prop} {b : Budget} {st st' : State}
    (h : Trail env P b st st') : Relation.ReflTransGen (Elementary env) st st' := by
  obtain ⟨ds, hp, _, _⟩ := h
  exact hp.invariant (I := Relation.ReflTransGen (Elementary env) st) (fun _ d _ _ hd hs => hs.tail (.deed d hd)) .refl

theorem cmdPrune_elementary (env : Env) (st : State) :
    Relation.ReflTransGen (Elementary env) st (cmdPrune env st).2 := by
  refine cmdPrune_parts (I := Relation.ReflTransGen (Elementary env) st) ?_ ?_ ?_ .refl
  · exact fun _ h => h.tail (.outside rfl rfl)
  · exact fun hcall h => h.tail (.deed _ (.call _ _ _ _ hcall fun h => by cases h))
  · exact fun a name h => h.tail (.forgotten a name)

namespace Node

/-- The steps that clear no record: no flush, and no swap of database 0. -/
def keepsRecords : Act → Bool
  | .command (.flush _) => false
  | .command (.swapdb first second) => first ≠ 0 && second ≠ 0
  | _ => true

variable {setup : Setup} {env : Env} {n n' : Node}

theorem command_elementary {op : Op} (hop : isCommand op = true) (hk : keepsRecords (.command op) = true) (st : State) :
    Relation.ReflTransGen (Elementary env) st (op.apply env st) := by
  cases op with
  | flush dbnum => cases hk
  | swapdb first second =>
    have hk' : first ≠ 0 ∧ second ≠ 0 := by simpa [keepsRecords] using hk
    have hst : Op.apply env st (.swapdb first second) = { st with keyspace := st.keyspace.swap first second } := by
      simp only [Op.apply, swapCommand, onSwapdb, if_pos hk']
    rw [hst]
    exact .single (.outside rfl rfl)
  | prune => exact cmdPrune_elementary env st
  | setAutoGroup name =>
    have h : (Op.apply env st (.setAutoGroup name)).counters = st.counters ∧
        (Op.apply env st (.setAutoGroup name)).streamStats = st.streamStats := by
      simp only [Op.apply, EventStream.setAutoGroup]
      split <;> exact ⟨rfl, rfl⟩
    exact .single (.outside h.1 h.2)
  | setFirehose on => exact .single (.outside rfl rfl)
  | role master loading => exact .single (.outside rfl rfl)
  | client db key obj => exact .single (.outside rfl rfl)
  | process h => cases hop
  | marker control action db retention => cases hop
  | checkpoint control retention => cases hop
  | reset perNode => cases hop

theorem step_elementary {act : Act} (hk : keepsRecords act = true) (h : step setup env n act = some n') :
    Relation.ReflTransGen (Elementary env) n.st n'.st := by
  have ht := step_turn h
  generalize n'.st = st' at ht
  cases ht with
  | command op hop => exact command_elementary hop hk n.st
  | process task todo _ => exact (task.run_trail env n.st).elementary
  | setting _ hr => exact .single (.outside hr.counters hr.streamStats)
  | idle hi => exact hi.elementary

theorem loaded_tallied (h : Loaded setup env n) : Tallied n.st := by
  obtain ⟨config, host, ks, generation, master, loading, mode, -, rfl⟩ := h
  obtain ⟨_, _, _, hst⟩ := loadedState_eq env config host.cluster ks generation master loading
  rw [hst]
  exact ⟨rfl, rfl⟩

/-- The per-stream records and the process-wide counters agree in every run from a load that clears no record, if
database 0 can always be selected: the records add up to what was forwarded, copies included, and to what was dropped on
a stream. Every step is a path of single changes, none of which counts another drop and touches a record. -/
theorem counters_agree (setup : Setup) (env : Env) (n : Node) (hsel : ∀ i, env.selectDb i = true)
    (h : Reach setup env (fun _ act => keepsRecords act = true) n) :
    (n.st.forwardedSum = n.st.value .forwarded + n.st.value .firehoseForwarded ∧
      n.st.droppedSum = n.st.value .droppedOom + n.st.value .droppedXaddError) ∧
    (∀ act n', keepsRecords act = true → step setup env n act = some n' →
      Relation.ReflTransGen (Elementary env) n.st n'.st) ∧
    ∀ st st', Elementary env st st' → ∀ c : Counter, c.isStreamless = true → st'.value c ≠ st.value c →
      st'.streamStats = st.streamStats := by
  have ht : Tallied n.st := by
    refine h.invariant (I := fun n => Tallied n.st) (fun n hl => loaded_tallied hl) ?_
    intro n act n' _ hk hs ht
    exact Elementary.path_tallied hsel (step_elementary hk hs) ht
  exact ⟨⟨ht.forwarded, ht.dropped⟩, fun act n' hk hs => step_elementary hk hs, fun st st' he c hc hv => he.apart hc hv⟩

/-- A server that runs out of memory. -/
def tightEnv : Env :=
  { Env.calm with refuse := fun i _ _ => if 8 ≤ i then some "OOM command not allowed".toList else none }

def copiedLoad : Node :=
  initial .sync (loadedState tightEnv { Config.defaults with firehose := true } false .empty "0".toList true false)

theorem copiedLoad_loaded : Loaded plain tightEnv copiedLoad :=
  ⟨{ Config.defaults with firehose := true }, ⟨false, true, false, .ok ()⟩, .empty, "0".toList, true, false,
    .sync, rfl, rfl⟩

/-- Two events, the second of which meets the memory limit. -/
def copiedRun : List Act :=
  [expire [97], .runJob, .process, .runJob, .process, expire [98], .runJob, .process, .command .prune]

theorem counters_agree_copied : ∃ n, Machine.run (step plain tightEnv) (fun _ act => keepsRecords act = true) copiedLoad
    copiedRun = some n ∧ n.st.forwardedSum = 2 ∧ n.st.droppedSum = 2 ∧
    n.st.forwardedSum = n.st.value .forwarded + n.st.value .firehoseForwarded := by
  have hrun : (Machine.run (step plain tightEnv) (fun _ act => keepsRecords act = true) copiedLoad copiedRun).map
      (fun n => (n.st.forwardedSum, n.st.droppedSum)) = some (2, 2) := by decide +kernel
  obtain ⟨n, hn, hids⟩ := Option.map_eq_some_iff.1 hrun
  obtain ⟨hf, hd⟩ := Prod.mk.inj hids
  have hall := counters_agree plain tightEnv n (fun _ => rfl) (Machine.reach_of_run (.start copiedLoad_loaded) hn)
  exact ⟨n, hn, hf, hd, hall.1.1⟩

end Node

end EventStream

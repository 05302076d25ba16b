import EventStream.Costs
import EventStream.Numbers

/-!
# The module's own keys

What the capture path writes to, and what the notifications of its own keys do.

- `ProbesClear`: no stream of a user stands where an ownership probe may go;
- `Trail.ownKeys`: then a trail of probes and of calls on keys under the prefix changes keys under the prefix only;
- `onKeyspaceEvent_own`: a notification of a key under the prefix calls nothing and dispatches nothing;
- `Records`, `step_entriesRecord`: the entries written record the events of the tasks.
-/

namespace EventStream

open Text (Str Bytes utf8)
open Machine (Path)

/-! ## Keys under the prefix -/

/-- A probe, or a call on a key under the prefix. -/
def Within (pfx : Bytes) (why : Purpose) (cmd : Command) : Prop := ProbeCall why cmd ∨ pfx <+: cmd.key

/-- All keys that changed are under the prefix. -/
def OwnKeysOnly (pfx : Bytes) (st st' : State) : Prop :=
  ∀ db key, st'.keyspace db key ≠ st.keyspace db key → db = 0 ∧ pfx <+: key

/-- No stream stands where a probe may go: a key of a tag that is not under the prefix. Without per-node mode there are
no probes. -/
def ProbesClear (st : State) : Prop :=
  st.config.perNode = true → ∀ tag, ¬ utf8 st.config.pfx <+: probeKey tag →
    ∀ entries groups, st.keyspace 0 (probeKey tag) ≠ some (.stream entries groups)

/-- A probe that finds no stream changes nothing. -/
theorem exec_probe {env : Env} {n : Nat} {ks ks' : Keyspace} {tag : Str}
    (h : exec env n ks (probeCommand tag) = .ok ks')
    (hno : ∀ entries groups, ks 0 (probeKey tag) ≠ some (.stream entries groups)) : ks' = ks := by
  simp only [probeCommand, exec] at h
  split at h
  · injection h with h
    exact h.symm
  · rename_i hstream
    exact absurd hstream (hno _ _)
  · cases h

section Trails

variable {env : Env} {st st' : State} {pfx key : Bytes}

/-- A call outside the prefix is a probe, and a deed that is no such call leaves the keys outside the prefix. -/
theorem Does.foreign {d : Deed} (h : Does env st d st') (hw : ∀ why cmd ok, d = .call why cmd ok → Within pfx why cmd)
    (hclear : st.config.perNode = true → ∀ tag, ¬ pfx <+: probeKey tag →
      ∀ entries groups, st.keyspace 0 (probeKey tag) ≠ some (.stream entries groups))
    (hk : ¬ pfx <+: key) : st'.keyspace 0 key = st.keyspace 0 key := by
  cases h with
  | call why cmd opts r hcall hprobe =>
    cases r with
    | error msg => rw [call_error hcall]
    | ok _ =>
      obtain ⟨ks, hexec, rfl⟩ := call_ok hcall
      by_cases hkey : cmd.key = key
      · subst hkey
        rcases hw why cmd true rfl with ⟨rfl, tag, rfl⟩ | hin
        · exact congrFun (congrFun (exec_probe hexec (hclear (hprobe rfl) tag hk)) 0) _
        · exact absurd hin hk
      · exact exec_frame hexec (Or.inr (Ne.symm hkey))
  | still h => rw [h.keyspace]
  | _ => rfl

/-- A key outside database 0 never changes. -/
theorem path_elsewhere {ds : List Deed} (h : Path (Does env) st ds st') {db : Nat} (hdb : db ≠ 0) :
    st'.keyspace db key = st.keyspace db key :=
  h.invariant (I := fun s => s.keyspace db key = st.keyspace db key) (fun s d s' _ hd hI => by
    rcases hd.keyspace db key with e | ⟨_, _, _, hzero, _⟩
    · exact e.trans hI
    · exact absurd hzero hdb) rfl

/-- With no stream in the way of the probes, a trail within the prefix changes keys under the prefix only. -/
theorem Trail.ownKeys {b : Budget} (h : Trail env (Within (utf8 st.config.pfx)) b st st') (hclear : ProbesClear st) :
    OwnKeysOnly (utf8 st.config.pfx) st st' := by
  obtain ⟨ds, hp, hw, -⟩ := h
  -- along the path the configuration and all keys outside the prefix stay as they were
  have hstays : st'.config = st.config ∧
      ∀ key, ¬ utf8 st.config.pfx <+: key → st'.keyspace 0 key = st.keyspace 0 key := by
    refine hp.invariant (I := fun s => s.config = st.config ∧
      ∀ key, ¬ utf8 st.config.pfx <+: key → s.keyspace 0 key = st.keyspace 0 key) ?_ ⟨rfl, fun _ _ => rfl⟩
    rintro s d s' hd hdoes ⟨hconf, hkeys⟩
    refine ⟨hdoes.config.trans hconf, fun key hk => ?_⟩
    refine (hdoes.foreign (fun why cmd ok e => hw why cmd ok (e ▸ hd)) (fun hn tag htag => ?_) hk).trans (hkeys key hk)
    rw [hkeys (probeKey tag) htag]
    exact hclear (hconf ▸ hn) tag htag
  intro db key hchanged
  by_cases hdb : db = 0
  · subst hdb
    exact ⟨rfl, by_contra fun hk => hchanged (hstays.2 key hk)⟩
  · exact absurd (path_elsewhere hp hdb) hchanged

/-- A trail without calls leaves the trace and the keyspace alone. -/
theorem Trail.silent {b : Budget} (h : Trail env (fun _ _ => False) b st st') :
    st'.trace = st.trace ∧ st'.keyspace = st.keyspace := by
  constructor
  · obtain ⟨calls, htrace, hcalls, -⟩ := h.calls
    have hnil : calls = [] := List.eq_nil_iff_forall_not_mem.2 fun o ho => by
      obtain ⟨-, -, -, -, hnone⟩ := hcalls o ho
      exact hnone
    rw [htrace, hnil, List.append_nil]
  · obtain ⟨ds, hp, hno, -⟩ := h
    refine hp.invariant (I := fun s => s.keyspace = st.keyspace) (fun s d s' hd hdoes hI => ?_) rfl
    funext db key
    rcases hdoes.keyspace db key with e | ⟨why, cmd, rfl, -⟩
    · rw [e, hI]
    · exact (hno why cmd true hd).elim

end Trails

/-! ## The calls of the module -/

theorem utf8_own (pfx rest : Str) : utf8 pfx <+: utf8 (pfx ++ rest) := by
  rw [Text.utf8_append]
  exact List.prefix_append _ _

theorem MirrorCall.own {pfx seg suffix : Str} {fields : List Bytes} {cmd : Command}
    (h : MirrorCall pfx seg suffix fields cmd) : utf8 pfx <+: cmd.key := by
  have hstream : utf8 pfx <+: utf8 (streamOf pfx seg suffix) := by
    rw [streamOf, List.append_assoc]
    exact utf8_own pfx (seg ++ suffix)
  cases h with
  | xadd trim => exact hstream
  | group g => exact hstream
  | sadd =>
    rw [Command.key, registryOf, List.append_assoc]
    exact utf8_own pfx _

theorem control_own (pfx seg : Str) : utf8 pfx <+: utf8 (controlStreamOf pfx seg) := by
  rw [controlStreamOf, List.append_assoc]
  exact utf8_own pfx _

theorem EventCall.within {e : PendingEvent} {spec : EntrySpec} {why : Purpose} {cmd : Command}
    (h : EventCall e spec why cmd) : Within (utf8 e.pfx) why cmd := by
  cases h with
  | probe tag => exact Or.inl ⟨rfl, tag, rfl⟩
  | canonical _ _ hm | firehose _ _ hm => exact Or.inr hm.own
  | marker _ trim fields => exact Or.inr (control_own e.pfx _)

/-- The calls of a task are probes, or go to keys under the prefix. -/
theorem Task.calls_within {setup : Setup} {config : Config} {st : State} {t : Task}
    (ht : t.From setup config.pfx (Stems config)) {why : Purpose} {cmd : Command} (h : t.Calls st why cmd) :
    Within (utf8 config.pfx) why cmd := by
  cases t with
  | event q =>
    have hw := EventCall.within h
    rwa [ht.pfx] at hw
  | envelope qs fields =>
    obtain ⟨-, -, -, hqs⟩ := ht
    rcases h with hp | ⟨q, hq, seg, -, -, hm⟩
    · exact Or.inl hp
    · have hown := hm.own
      rw [(hqs q (List.mem_of_mem_head? hq)).pfx] at hown
      exact Or.inr hown
  | marker control retention m =>
    obtain ⟨-, trim, fields, rfl⟩ := h
    obtain ⟨seg, -, rfl⟩ := ht
    exact Or.inr (control_own config.pfx seg)
  | noSlot m => exact h.elim
  | checkpoint control retention =>
    obtain ⟨-, trim, fields, rfl⟩ := h
    obtain ⟨seg, -, rfl⟩ := ht
    exact Or.inr (control_own config.pfx seg)

/-! ## What the entries record -/

/-- The fields of an entry of one event, or of an envelope. -/
def Records (fields : List Bytes) (es : List PendingEvent) : Prop :=
  (∃ e seq, es = [e] ∧ encodeEntryFields (entrySpec e seq) = .ok fields) ∨ fields = encodeBatchFields es

/-- The entries a task writes record its events. -/
theorem Task.records {setup : Setup} {pfx : Str} {P : PendingEvent → Prop} {st : State} {t : Task}
    (ht : t.From setup pfx P) {why : Purpose} {cmd : Command} {ok : Bool} {w : EntryWrite} (h : t.Calls st why cmd)
    (hw : (Occurrence.call why cmd ok).entryWrite = some w) : ∃ es, Records w.fields es ∧ ∀ e ∈ es, P e := by
  cases t with
  | event q =>
    refine ⟨[q.event], Or.inl ⟨_, _, rfl, (EventCall.entryWrite h hw).1⟩, fun e he => ?_⟩
    rw [List.mem_singleton.1 he]
    exact ht
  | envelope qs fields =>
    obtain ⟨-, -, hfields, hqs⟩ := ht
    rcases h with ⟨rfl, tag, rfl⟩ | ⟨q, hq, seg, -, rfl, hm⟩
    · cases hw
    · cases hm with
      | sadd | group g => cases hw
      | xadd trim =>
        injection hw with hw
        subst hw
        refine ⟨qs.map Queued.event, Or.inr hfields, fun e he => ?_⟩
        obtain ⟨q', hq', rfl⟩ := List.mem_map.1 he
        exact hqs q' hq'
  | marker control retention m =>
    obtain ⟨rfl, trim, fields, rfl⟩ := h
    cases hw
  | noSlot m => exact h.elim
  | checkpoint control retention =>
    obtain ⟨rfl, trim, fields, rfl⟩ := h
    cases hw

namespace Node

section Confined

variable {setup : Setup} {env : Env} {n n' : Node}

/-- The entries written so far record events with a property. -/
def EntriesRecord (P : PendingEvent → Prop) (n : Node) : Prop :=
  ∀ w ∈ writes n.st.trace, ∃ es, Records w.fields es ∧ ∀ e ∈ es, P e

theorem step_entriesRecord {act : Act} {pfx : Str} {P : PendingEvent → Prop} (hs : step setup env n act = some n')
    (hfrom : ∀ t ∈ n.todo, t.From setup pfx P) (h : EntriesRecord P n) : EntriesRecord P n' := by
  unfold EntriesRecord
  cases hp : n.processed act with
  | nil =>
    rw [(step_apart hs hp).2]
    exact h
  | cons task rest =>
    obtain ⟨-, hmem, hst⟩ := step_process hs (hp ▸ List.mem_cons_self)
    obtain ⟨calls, htrace, hcalls, -⟩ := (task.run_trail env n.st).calls
    intro w hw
    rw [hst, htrace, writes_append] at hw
    rcases List.mem_append.1 hw with hw | hw
    · exact h w hw
    · obtain ⟨o, ho, hwo⟩ := List.mem_filterMap.1 hw
      obtain ⟨why, cmd, ok, rfl, hcall⟩ := hcalls o ho
      exact Task.records (hfrom task hmem) hcall hwo

theorem loaded_entriesRecord {P : PendingEvent → Prop} (h : Loaded setup env n) : EntriesRecord P n := by
  intro w hw
  rw [(loaded_accounted h).writes] at hw
  cases hw

theorem Reach.entriesRecord (h : Reach setup env (fun _ _ => True) n) :
    EntriesRecord (fun e => Stems n.st.config e) n := by
  refine Machine.Reach.invariant (I := fun n => EntriesRecord (fun e => Stems n.st.config e) n)
    (fun n hl => loaded_entriesRecord hl) (fun n act n' hr _ hs ih => ?_) h
  rw [stems_eq hs]
  exact step_entriesRecord hs (Reach.stemmed hr).todo ih

/-! ## Steps -/

/-- The steps that the module takes itself or that set one of its parameters: all but the commands of clients. -/
def isModule : Act → Bool
  | .command _ => false
  | _ => true

/-- What a step may cost: that of its task, or the selection of a tag. -/
def budgetOf (n : Node) (act : Act) : Budget :=
  match n.processed act with
  | task :: _ => task.budget
  | [] => .select

/-- A step of the module makes calls within the prefix and the budget, or changes a setting. -/
theorem step_within {act : Act} (hr : Reach setup env (fun _ _ => True) n) (hs : step setup env n act = some n')
    (hm : isModule act = true) :
    Trail env (Within (utf8 n.st.config.pfx)) (n.budgetOf act) n.st n'.st ∨
      (n'.st.keyspace = n.st.keyspace ∧ n'.st.trace = n.st.trace) := by
  cases hp : n.processed act with
  | cons task rest =>
    obtain ⟨-, hmem, hst⟩ := step_process hs (hp ▸ List.mem_cons_self)
    have hfrom := hr.stemmed.todo task hmem
    rw [budgetOf, hp, hst]
    exact Or.inl ((task.run_trail env n.st).weaken fun why cmd => Task.calls_within hfrom)
  | nil =>
    rw [budgetOf, hp]
    have hturn := step_turn hs
    generalize n'.st = st' at hturn
    cases hturn with
    | command op _ => cases hm
    | process task todo ht =>
      rw [processed, ht] at hp
      cases hp
    | setting _ h => exact Or.inr ⟨h.keyspace, h.trace⟩
    | idle h => exact Or.inl (h.weaken fun why cmd hc => Or.inl hc)

/-- The calls of a step. -/
def callsOf (n n' : Node) : List Occurrence := n'.st.trace.drop n.st.trace.length

theorem step_ownKeys {act : Act} (hr : Reach setup env (fun _ _ => True) n) (hs : step setup env n act = some n')
    (hm : isModule act = true) (hclear : ProbesClear n.st) : OwnKeysOnly (utf8 n.st.config.pfx) n.st n'.st := by
  rcases step_within hr hs hm with h | ⟨hk, -⟩
  · exact h.ownKeys hclear
  · exact fun db key hne => absurd (by rw [hk]) hne

theorem step_cost {act : Act} (hr : Reach setup env (fun _ _ => True) n) (hs : step setup env n act = some n')
    (hm : isModule act = true) (x : Expense) : (n.callsOf n').countP x.ofCall ≤ n.budgetOf act x := by
  rcases step_within hr hs hm with h | ⟨-, ht⟩
  · obtain ⟨calls, htrace, -, hb⟩ := h.calls
    rw [callsOf, htrace, List.drop_left]
    exact hb x
  · rw [callsOf, ht, List.drop_length]
    exact Nat.zero_le _

/-- A notification that calls nothing and dispatches nothing: at most it hands the pending markers to a job. -/
structure Rejected (n n' : Node) : Prop where
  trace : n'.st.trace = n.st.trace
  keyspace : n'.st.keyspace = n.st.keyspace
  dispatched : n'.dispatched = n.dispatched
  queue : n'.queue = n.queue
  lost : n'.lost = n.lost
  recorded : n'.st.recorded = n.st.recorded
  jobs : ∃ job : Option MarkerJob, n'.jobs = n.jobs ++ (job.map Job.markers).toList

theorem onKeyspaceEvent_own (hw : Wf setup n) {key : Bytes} (hk : utf8 n.st.config.pfx <+: key) (cls : NotifyEvent)
    (event : Str) (db : Int32) (contended registered markersRegistered : Bool) :
    Rejected n (n.onKeyspaceEvent setup env cls event key db contended registered markersRegistered) := by
  obtain ⟨st, hframe, e⟩ := onKeyspaceEvent_skips setup env n hk cls event db contended registered markersRegistered
  have hrec : (n.takeMarkers env markersRegistered).st.recorded = n.st.recorded :=
    (flushMarkers_cases env n.st markersRegistered hw.dirty).1
  have hstand : st.recorded = (n.takeMarkers env markersRegistered).st.recorded :=
    congrArg (fun s => s.2.2.1) hframe.standing
  have htrail : Trail env (fun _ _ => False) .none n.st
      (n.onKeyspaceEvent setup env cls event key db contended registered markersRegistered).st :=
    onKeyspaceEvent_trail n cls event key db contended registered markersRegistered
  obtain ⟨htrace, hkeyspace⟩ := htrail.silent
  rw [e] at htrace hkeyspace ⊢
  exact ⟨htrace, hkeyspace, rfl, rfl, rfl, hstand.trans hrec, ⟨(flushMarkers env n.st markersRegistered).2, rfl⟩⟩

/-- Only a notification of a key outside the prefix that a command sets off dispatches an event, and only one; and the
mode in force changes to `sync` only. -/
theorem step_dispatched {act : Act} (hw : Wf setup n) (hs : step setup env n act = some n') :
    (n'.dispatched = n.dispatched ∨ ∃ cls event key db contended registered markersRegistered q,
      act = .notify cls event key db contended registered markersRegistered ∧ n.atCommand ∧
        ¬ utf8 n.st.config.pfx <+: key ∧ n'.dispatched = n.dispatched ++ [q]) ∧
        (n'.activeMode = n.activeMode ∨ n'.activeMode = .sync) := by
  cases step_fires hs with
  | @notify cls event key db contended registered markersRegistered hmay =>
    rcases onKeyspaceEvent_cases env hw cls event db contended registered markersRegistered hmay with
      ⟨st, -, e⟩ | ⟨hcmd, -, e, lane, hr⟩
    · rw [e]
      exact ⟨Or.inl rfl, Or.inl rfl⟩
    · refine ⟨?_, Or.inl hr.control.2.2.2.1⟩
      by_cases hown : utf8 n.st.config.pfx <+: key
      · exact Or.inl (onKeyspaceEvent_own hw hown cls event db contended registered markersRegistered).dispatched
      · exact Or.inr ⟨_, _, _, _, _, _, _, _, rfl, hcmd, hown, hr.dispatched⟩
  | cron _ _ =>
    rcases cron_ticked env n with e | ⟨st, -, e⟩ | ⟨-, st, control, retention, -, -, -, -, e⟩
    all_goals
      rw [e]
      exact ⟨Or.inl rfl, Or.inl rfl⟩
  | @runJob job jobs _ _ _ _ =>
    cases job with
    | event q | fallback q | markers job => exact ⟨Or.inl rfl, Or.inl rfl⟩
  | @lock snapshot _ _ =>
    cases snapshot with
    | none => exact ⟨Or.inl rfl, Or.inl rfl⟩
    | some snapshot =>
      simp only [lockWorker]
      split <;> exact ⟨Or.inl rfl, Or.inl rfl⟩
  | requestStop _ _ _ => exact ⟨Or.inl rfl, Or.inr rfl⟩
  | acquire | release | command | setEnabled | configure | process | started | notStarted | wake | prepare | unlock
  | stopWaiting | stopSpinning | stopSync | join | finish => exact ⟨Or.inl rfl, Or.inl rfl⟩

/-- Every dispatched event is handed over once at most, in every mode. -/
theorem handed_once {allowed : Node → Act → Prop} (h : Reach setup env allowed n) :
    ∃ rest, (n.handed ++ rest).Perm n.dispatched := by
  have hruns := h.view_runs (Q := fun _ _ => True) (fun _ _ _ => trivial) fun _ _ _ _ _ _ => trivial
  have hpool := hruns.pooled
  rw [Lanes.pool, events_done] at hpool
  exact ⟨_, hpool⟩

end Confined

end Node

end EventStream

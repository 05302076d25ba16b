import EventStream.Confined
import EventStream.Envelope

/-!
# What the worker modes exclude

A load in a worker mode asks for the firehose off, fixed entries, no retention by age and no override of the cap. The
load alone checks it; the four settings can be set while the module runs.

- `Config.Narrow`: the four settings as the load asks for them;
- `step_excluded`: the steps that change them are `CONFIG SET`s;
- `keepsNarrow`: the steps that keep them, and `Excluding`, what holds in the runs of such steps;
- `exclusions_hold_iff`: the settings stay narrow exactly along such steps, and then all entries are alike.
-/

namespace EventStream

open Text (Str Bytes utf8)
open Client (Crates)

/-! ## The excluded settings -/

/-- The settings that a worker mode restricts. -/
def Config.excluded (config : Config) : Bool × EntryFormat × Int × List (Str × Int) :=
  (config.firehose, config.entryFormat, config.retentionMs, config.maxlenOverrides)

/-- The settings are as a worker mode asks for. -/
def Config.Narrow (config : Config) : Prop := config.excluded = (false, .fixed, 0, [])

instance (config : Config) : Decidable config.Narrow := inferInstanceAs (Decidable (_ = _))

/-- An event whose entry has the one shape of the worker modes. -/
structure Plain (e : PendingEvent) : Prop where
  format : e.format = .fixed
  entrySeq : e.entrySeq = false
  retention : e.dataRetention = ⟨e.firehoseRetention.maxlen, 0⟩

theorem Config.Captures.plain {config : Config} {e : PendingEvent} (h : config.Captures e) (hn : config.Narrow)
    (hs : config.entrySeq = false) : Plain e := by
  obtain ⟨st, cls, event, key, db, rfl, rfl, -⟩ := h.snapshot
  simp only [Config.Narrow, Config.excluded, Prod.mk.injEq] at hn
  obtain ⟨-, hformat, hretention, hoverrides⟩ := hn
  refine ⟨hformat, hs, ?_⟩
  simp only [EventStream.snapshot, hretention, hoverrides, effectiveMaxlen]
  rfl

/-- Entries of plain events read back as their records, an envelope's as well as a single event's. -/
theorem Records.expand {crates : Crates} (hc : crates.Standard) {fields : List Bytes} {es : List PendingEvent}
    (h : Records fields es) (hp : ∀ e ∈ es, Plain e) (hlen : es.length ≤ Client.usizeMax) (stream id : Str) :
    ∃ events, expandEntry crates stream ⟨id, fields⟩ = some events ∧ events.map readRecord = es.map recordOf := by
  rcases h with ⟨e, seq, rfl, henc⟩ | rfl
  · obtain ⟨fields', events, henc', hexp, hrec⟩ :=
      expandEntry_fixed crates stream id seq (hp e (List.mem_singleton_self e)).format
    rw [henc] at henc'
    injection henc' with hf
    rw [hf]
    exact ⟨events, hexp, hrec⟩
  · exact expandEntry_batch hc stream id hlen

theorem cmdPrune_config (env : Env) (st : State) : (cmdPrune env st).2.config = st.config := by
  refine cmdPrune_parts (I := fun s => s.config = st.config) (fun _ h => h) ?_ ?_ rfl
  · intro a b registry name r hcall h
    obtain ⟨_, _, _, rfl⟩ := call_rest hcall
    exact h
  · intro a name h
    unfold forgetStream
    simp only
    split <;> exact h

/-- Of the commands only the two setters touch the configuration. -/
theorem command_config (env : Env) (st : State) {op : Op} (h : Node.isCommand op = true) :
    (op.apply env st).config = st.config ∨ (∃ name, op = .setAutoGroup name) ∨ ∃ on, op = .setFirehose on := by
  cases op with
  | flush dbnum =>
    refine Or.inl ?_
    simp only [Op.apply, flushCommand, onFlushStarted]
    split <;> rfl
  | swapdb first second =>
    refine Or.inl ?_
    simp only [Op.apply, swapCommand, onSwapdb]
    split
    · rfl
    · split <;> rfl
  | prune => exact Or.inl (cmdPrune_config env st)
  | setAutoGroup name => exact Or.inr (Or.inl ⟨name, rfl⟩)
  | setFirehose on => exact Or.inr (Or.inr ⟨on, rfl⟩)
  | role master loading | client db key obj => exact Or.inl rfl
  | process h' | marker control action db retention | checkpoint control retention | reset perNode => cases h

/-- Only one of the two touches an excluded setting. -/
theorem command_excluded (env : Env) (st : State) {op : Op} (h : Node.isCommand op = true) :
    (op.apply env st).config.excluded = st.config.excluded ∨
      ∃ on, op = .setFirehose on ∧ (op.apply env st).config = { st.config with firehose := on } := by
  rcases command_config env st h with hc | ⟨name, rfl⟩ | ⟨on, rfl⟩
  · exact Or.inl (congrArg Config.excluded hc)
  · refine Or.inl ?_
    simp only [Op.apply, EventStream.setAutoGroup]
    split <;> rfl
  · exact Or.inr ⟨on, rfl, rfl⟩

namespace Node

section Exclusions

variable {setup : Setup} {env : Env} {n n' : Node}

/-- Only commands and settings change the configuration. -/
theorem step_config {act : Act} (hs : step setup env n act = some n') (hm : isModule act = true)
    (hset : isSetting act = false) : n'.st.config = n.st.config := by
  have hturn := step_turn hs
  generalize n'.st = st' at hturn
  cases hturn with
  | command op _ => cases hm
  | process task todo _ => exact (task.run_trail env n.st).config
  | setting ha _ =>
    rw [hset] at ha
    cases ha
  | idle h => exact h.config

/-- The excluded settings change by a `CONFIG SET` only. -/
theorem step_excluded {act : Act} (hs : step setup env n act = some n') :
    n'.st.config.excluded = n.st.config.excluded ∨
      (∃ config, act = .configure config ∧ n'.st.config = config) ∨
      ∃ on, act = .command (.setFirehose on) ∧ n'.st.config = { n.st.config with firehose := on } := by
  cases act with
  | command op =>
    cases step_fires hs with
    | command _ hop =>
      rcases command_excluded env n.st hop with h | ⟨on, rfl, h⟩
      · exact Or.inl h
      · exact Or.inr (Or.inr ⟨on, rfl, h⟩)
  | setEnabled on =>
    cases step_fires hs with
    | setEnabled _ =>
      refine Or.inl ?_
      simp only [note_st, enabledChanged]
      split <;> rfl
  | configure config =>
    cases step_fires hs with
    | configure _ _ => exact Or.inr (Or.inl ⟨config, rfl, rfl⟩)
  | _ => exact Or.inl (congrArg Config.excluded (step_config hs rfl rfl))

/-- While a worker mode is in force, every `CONFIG SET` leaves the excluded settings as the load asked for them. -/
def keepsNarrow (n : Node) : Act → Bool
  | .configure config => n.activeMode = .sync || decide config.Narrow
  | .command (.setFirehose on) => n.activeMode = .sync || !on
  | _ => true

theorem step_narrow_iff {act : Act} (hs : step setup env n act = some n') (hn : n.st.config.Narrow)
    (ha : n.activeMode ≠ .sync) : n'.st.config.Narrow ↔ n.keepsNarrow act = true := by
  rcases step_excluded hs with h | ⟨config, rfl, h⟩ | ⟨on, rfl, h⟩
  · have hn' : n'.st.config.Narrow := h.trans hn
    refine iff_of_true hn' ?_
    cases step_fires hs with
    | configure _ _ =>
      simp only [keepsNarrow, Bool.or_eq_true, decide_eq_true_eq]
      exact Or.inr hn'
    | @command op _ _ =>
      cases op with
      | setFirehose on =>
        have hoff : on = false := congrArg Prod.fst hn'
        simp [keepsNarrow, hoff]
      | _ => rfl
    | _ => rfl
  · rw [h]
    simp [keepsNarrow, ha]
  · rw [h]
    simp only [keepsNarrow, ha, decide_false, Bool.false_or, Bool.not_eq_true']
    simp only [Config.Narrow, Config.excluded, Prod.mk.injEq] at hn ⊢
    exact ⟨fun hall => hall.1, fun hoff => ⟨hoff, hn.2⟩⟩

/-! ## Copies -/

/-- The copies attempted so far. -/
def copies (n : Node) : Nat := n.st.trace.countP (Expense.attempt .firehose).ofCall

theorem copies_of_trail {P : Purpose → Command → Prop} {b : Budget} {st st' : State} (h : Trail env P b st st')
    (hb : b (.attempt .firehose) = 0) :
    st'.trace.countP (Expense.attempt .firehose).ofCall = st.trace.countP (Expense.attempt .firehose).ofCall := by
  obtain ⟨calls, htrace, -, hcount⟩ := h.calls
  have hzero := hcount (.attempt .firehose)
  rw [htrace, List.countP_append]
  omega

/-- With the firehose off a step attempts no copy. -/
theorem step_copies {act : Act} (hs : step setup env n act = some n') (hf : n.st.config.firehose = false) :
    n'.copies = n.copies := by
  unfold copies
  have hturn := step_turn hs
  generalize n'.st = st' at hturn
  cases hturn with
  | command op hop =>
    obtain ⟨upkeep, htrace, hup⟩ := command_trace env n.st hop
    have hzero : upkeep.countP (Expense.attempt .firehose).ofCall = 0 := by
      refine List.countP_eq_zero.2 fun o ho hcall => ?_
      have hupkeep := hup o ho
      cases o with
      | cleared | pruned name => cases hcall
      | call why cmd ok =>
        obtain ⟨rfl, key, member, rfl⟩ := removal_of_upkeep hupkeep
        cases hcall
    rw [htrace, List.countP_append, hzero, Nat.add_zero]
  | process task todo _ =>
    cases task with
    | event q =>
      obtain ⟨b, hb, htrail⟩ := processPendingEvent_uncopied env n.st q.event hf
      exact copies_of_trail htrail hb
    | envelope qs fields => exact copies_of_trail ((Task.envelope qs fields).run_trail env n.st) rfl
    | marker control retention m => exact copies_of_trail ((Task.marker control retention m).run_trail env n.st) rfl
    | noSlot m => exact copies_of_trail ((Task.noSlot m).run_trail env n.st) rfl
    | checkpoint control retention =>
      exact copies_of_trail ((Task.checkpoint control retention).run_trail env n.st) rfl
  | setting _ h => rw [h.trace]
  | idle h => exact copies_of_trail h rfl

/-! ## Runs -/

/-- What holds in a worker mode whose excluded settings stay narrow. -/
structure Excluding (setup : Setup) (n : Node) : Prop where
  narrow : n.st.config.Narrow
  entrySeq : n.st.config.entrySeq = false
  sourced : Sourced setup n.st.config.pfx Plain n
  records : EntriesRecord Plain n
  copies : n.copies = 0

theorem loaded_excluding (hmode : setup.mode ≠ .sync) (h : Loaded setup env n) : Excluding setup n := by
  have hsourced : Sourced setup n.st.config.pfx Plain n := loaded_sourced h
  have hrecords : EntriesRecord Plain n := loaded_entriesRecord h
  obtain ⟨config, host, ks, generation, master, loading, mode, hstart, rfl⟩ := h
  obtain ⟨_, _, _, hst⟩ := loadedState_eq env config host.cluster ks generation master loading
  obtain ⟨-, hfirehose, hseq, hformat, hretention, hoverrides⟩ := (startDispatchWorker_ok hstart).2 hmode
  refine ⟨?_, ?_, hsourced, hrecords, ?_⟩
  · rw [hst]
    change ({ config with perNode := host.cluster } : Config).excluded = _
    simp only [Config.excluded, hfirehose, hformat, hretention, hoverrides]
  · rw [hst]
    exact hseq
  · rw [hst]
    rfl

/-- A setting is changed at a command, where the mode in force is the configured one. -/
theorem step_narrow {act : Act} (hw : Wf setup n) (hmode : setup.mode ≠ .sync) (hk : n.keepsNarrow act = true)
    (hs : step setup env n act = some n') (hn : n.st.config.Narrow) : n'.st.config.Narrow := by
  have hactive : n.atCommand → n.activeMode ≠ .sync := by
    intro hcmd
    rw [hw.mode hcmd.2.1]
    exact hmode
  rcases step_excluded hs with h | ⟨config, rfl, -⟩ | ⟨on, rfl, -⟩
  · exact h.trans hn
  · cases step_fires hs with
    | configure hcmd _ => exact (step_narrow_iff hs hn (hactive hcmd)).2 hk
  · cases step_fires hs with
    | command hcmd _ => exact (step_narrow_iff hs hn (hactive hcmd)).2 hk

theorem step_excluding {act : Act} (hw : Wf setup n) (hmode : setup.mode ≠ .sync) (hk : n.keepsNarrow act = true)
    (hs : step setup env n act = some n') (h : Excluding setup n) : Excluding setup n' := by
  obtain ⟨hpfx, hrest⟩ := Prod.mk.inj (step_fixed hs)
  have hseq : n'.st.config.entrySeq = n.st.config.entrySeq := (Prod.mk.inj hrest).2
  refine ⟨step_narrow hw hmode hk hs h.narrow, hseq.trans h.entrySeq, ?_, ?_, ?_⟩
  · rw [hpfx]
    exact step_sourced hw hs rfl (fun e he => he.plain h.narrow h.entrySeq) h.sourced
  · exact step_entriesRecord hs h.sourced.todo h.records
  · rw [step_copies hs (congrArg Prod.fst h.narrow), h.copies]

theorem Reach.excluding (hmode : setup.mode ≠ .sync) (h : Reach setup env (fun n act => n.keepsNarrow act = true) n) :
    Excluding setup n :=
  Machine.Reach.invariant (I := Excluding setup) (fun _ hl => loaded_excluding hmode hl)
    (fun _ _ _ hr hk hs ih => step_excluding (Reach.wf hr) hmode hk hs ih) h

/-- The mode in force is the configured one, or `sync`. -/
theorem Reach.activeMode {allowed : Node → Act → Prop} (h : Reach setup env allowed n) :
    n.activeMode = setup.mode ∨ n.activeMode = .sync := by
  refine Machine.Reach.invariant (I := fun n => n.activeMode = setup.mode ∨ n.activeMode = .sync) ?_ ?_ h
  · rintro n ⟨config, host, ks, generation, master, loading, mode, hstart, rfl⟩
    exact Or.inl (startDispatchWorker_ok hstart).1
  · intro n act n' hr _ hs ih
    rcases (step_dispatched (Reach.wf hr) hs).2 with e | e
    · rwa [e]
    · exact Or.inr e

/-- **The exclusions of the worker modes.** In a run whose `CONFIG SET`s keep the excluded settings while a worker mode
is in force, they stay as the load asked for them, and a step from there leaves them so exactly if it is such a step.
All entries written in a worker mode then record plain events, those of an envelope and those of a single event read
back as the same records, and no copy is attempted. -/
theorem exclusions_hold_iff (setup : Setup) (env : Env) (n : Node)
    (h : Reach setup env (fun n act => n.keepsNarrow act = true) n) :
    (n.activeMode ≠ .sync → n.st.config.Narrow) ∧
    (∀ act n', step setup env n act = some n' → n'.activeMode ≠ .sync →
      (n'.st.config.Narrow ↔ n.keepsNarrow act = true)) ∧
    (setup.mode ≠ .sync → n.copies = 0 ∧ ∀ w ∈ writes n.st.trace, ∃ es, Records w.fields es ∧ (∀ e ∈ es, Plain e) ∧
      (es.length ≤ Client.usizeMax → ∀ crates : Crates, crates.Standard → ∀ stream id, ∃ events,
        expandEntry crates stream ⟨id, w.fields⟩ = some events ∧ events.map readRecord = es.map recordOf)) := by
  have hnarrow : n.activeMode ≠ .sync → n.st.config.Narrow := by
    intro ha
    rcases h.activeMode with e | e
    · exact (h.excluding (e ▸ ha)).narrow
    · exact absurd e ha
  refine ⟨hnarrow, fun act n' hs ha' => ?_, fun hmode => ?_⟩
  · have ha : n.activeMode ≠ .sync := by
      rcases (step_dispatched h.wf hs).2 with e | e
      · rwa [← e]
      · exact absurd e ha'
    exact step_narrow_iff hs (hnarrow ha) ha
  · have hex := h.excluding hmode
    refine ⟨hex.copies, fun w hw => ?_⟩
    obtain ⟨es, hes, hplain⟩ := hex.records w hw
    exact ⟨es, hes, hplain, fun hlen crates hc => hes.expand hc hplain hlen⟩

end Exclusions

/-- A change of another setting, and an event that the worker writes. -/
def narrowRun : List Act :=
  [.workerStart true, .configure { Config.defaults with maxlen := 5 }, expire [97], .runJob, .process,
    .release, .workerWake, .workerPrepare, .workerLock, .process]

theorem exclusions_hold_written :
    ∃ n, Machine.run (step narrow .calm) (fun n act => n.keepsNarrow act = true) narrowLoad narrowRun = some n ∧
      n.activeMode = .individual ∧ (writes n.st.trace).length = 1 ∧ n.st.config.Narrow ∧ n.copies = 0 := by
  have hrun : (Machine.run (step narrow .calm) (fun n act => n.keepsNarrow act = true) narrowLoad narrowRun).map
      (fun n => (n.activeMode, (writes n.st.trace).length)) = some (.individual, 1) := by
    decide +kernel
  obtain ⟨n, hn, hvalues⟩ := Option.map_eq_some_iff.1 hrun
  obtain ⟨hactive, hlen⟩ := Prod.mk.inj hvalues
  have hall := exclusions_hold_iff narrow .calm n (Machine.reach_of_run (.start narrowLoad_loaded) hn)
  exact ⟨n, hn, hactive, hlen, hall.1 (by rw [hactive]; decide), (hall.2.2 (by decide)).1⟩

/-- All four settings are set after the load, and then the worker writes an event. -/
def widenedRun : List Act :=
  [.workerStart true, .command (.setFirehose true),
    .configure { Config.defaults with
      firehose := true
      entryFormat := .json
      retentionMs := 1000
      maxlenOverrides := [("expired".toList, 5)] },
    expire [97], .runJob, .process, .release, .workerWake, .workerPrepare, .workerLock, .process]

/-- A worker mode with everything on that its load refuses, and a copy of the event it writes. -/
theorem set_after_load_widens : ∃ n, Reach narrow .calm (fun _ _ => True) n ∧ n.activeMode = .individual ∧
    n.st.config.excluded = (true, .json, 1000, [("expired".toList, 5)]) ∧ ¬ n.st.config.Narrow ∧ n.copies = 1 := by
  have hrun : (Machine.run (step narrow .calm) (fun _ _ => True) narrowLoad widenedRun).map
      (fun n => [decide (n.activeMode = .individual),
        decide (n.st.config.excluded = (true, .json, 1000, [("expired".toList, 5)])), n.copies = 1]) =
      some [true, true, true] := by
    decide +kernel
  obtain ⟨n, hn, hvalues⟩ := Option.map_eq_some_iff.1 hrun
  simp only [List.cons.injEq, decide_eq_true_eq, and_true] at hvalues
  obtain ⟨hactive, hexcluded, hcopies⟩ := hvalues
  refine ⟨n, Machine.reach_of_run (.start narrowLoad_loaded) hn, hactive, hexcluded, fun hnarrow => ?_, hcopies⟩
  rw [Config.Narrow, hexcluded] at hnarrow
  cases hnarrow

end Node

end EventStream

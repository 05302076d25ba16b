import EventStream.Client.Formats
import EventStream.Fences
import EventStream.Origins
import EventStream.Streams

/-!
# Sequence numbers

With `entry-seq` on every event draws a number in its job, after it has found a slot and before its first write. The
record of a run says for each event processed which numbers it drew and which calls were made for it.

- `Numbered`: the reachable nodes with the record of the run; every reachable node has one (`Reach.numbered`);
- `Numbering.Sound`: one event draws one number or none, every entry written for it carries that number, and no stream
  gets two entries for it;
- `Accounted`: what the record says about the run, with its step lemma `step_accounted`;
- `numbers_order_events`: the numbers are distinct, follow the order of the notifications, and increase along every
  stream.
-/

namespace EventStream

open Text (Str Bytes utf8)

/-! ## Entries and their numbers -/

/-- An attempt to write an entry of an event, the per-event one or its copy. -/
structure EntryWrite where
  key : Bytes
  fields : List Bytes
  ok : Bool
  deriving DecidableEq

def Occurrence.entryWrite : Occurrence → Option EntryWrite
  | .call why (.xadd key _ _ fields) ok => if why = .canonical ∨ why = .firehose then some ⟨key, fields, ok⟩ else none
  | _ => none

/-- The attempts among the calls of a trace. -/
def writes (trace : List Occurrence) : List EntryWrite := trace.filterMap Occurrence.entryWrite

/-- The entries written to a key, in the order of the stream. -/
def entriesAt (key : Bytes) (trace : List Occurrence) : List (List Bytes) :=
  ((writes trace).filter fun w => w.ok && w.key = key).map EntryWrite.fields

/-- The number that a reader finds in an entry. -/
def seqOf (fields : List Bytes) : Option Nat := (Client.readEntry fields).bind Client.Reading.seq

theorem writes_append (trace more : List Occurrence) : writes (trace ++ more) = writes trace ++ writes more :=
  List.filterMap_append

theorem entryWrite_upkeep {o : Occurrence} (h : Node.isUpkeep o = true) : o.entryWrite = none := by
  cases o with
  | cleared | pruned name => rfl
  | call why cmd ok =>
    obtain ⟨rfl, key, member, rfl⟩ := Node.removal_of_upkeep h
    rfl

/-- The encoder puts the number of the event into the entry, and the reader finds it there, in every format. -/
theorem seqOf_entrySpec {e : PendingEvent} {i : Nat} {fields : List Bytes} (hi : i < 2 ^ 64)
    (h : encodeEntryFields (entrySpec e (some i)) = .ok fields) : seqOf fields = some i := by
  have hu : (UInt64.ofNat i).toNat = i := UInt64.toNat_ofNat_of_lt hi
  obtain ⟨fields', he, hr⟩ := Client.readEntry_encode e.format e.event e.key e.db e.cls (some (UInt64.ofNat i))
  have hspec : Client.specOf e.format e.event e.key e.db e.cls (some (UInt64.ofNat i)) = entrySpec e (some i) := by
    rw [Client.specOf, entrySpec, Option.map_some, hu]
  rw [hspec, h] at he
  injection he with he
  rw [seqOf, he, hr]
  simp [Client.readingOf, hu]

/-! ## The calls of one event -/

/-- The purpose of a write that goes to one of the two destinations of an event. -/
inductive Destination (e : PendingEvent) (key : Bytes) : Purpose → Prop
  | canonical {seg : Str} (hseg : IsSegment seg) (hk : key = utf8 (streamOf e.pfx seg e.suffix)) :
      Destination e key .canonical
  | firehose {seg : Str} (hseg : IsSegment seg) (hk : key = utf8 (streamOf e.pfx seg "#firehose".toList)) :
      Destination e key .firehose

section Calls

variable {e : PendingEvent} {spec : EntrySpec} {why : Purpose} {cmd : Command} {ok : Bool} {w : EntryWrite}

/-- Where the entries of an event go, and what they hold. -/
theorem EventCall.entryWrite (h : EventCall e spec why cmd) (hw : (Occurrence.call why cmd ok).entryWrite = some w) :
    encodeEntryFields spec = .ok w.fields ∧ Destination e w.key why ∧
      ∀ x : Expense, x = .entry why → x.ofCall (.call why cmd ok) = w.ok := by
  cases h with
  | probe tag => cases hw
  | marker hseg trim fields => cases hw
  | canonical hseg hf hm =>
    cases hm with
    | sadd | group g => cases hw
    | xadd trim =>
      injection hw with hw
      subst hw
      refine ⟨hf, .canonical hseg rfl, ?_⟩
      rintro x rfl
      cases ok <;> rfl
  | firehose hseg hf hm =>
    cases hm with
    | sadd | group g => cases hw
    | xadd trim =>
      injection hw with hw
      subst hw
      refine ⟨hf, .firehose hseg rfl, ?_⟩
      rintro x rfl
      cases ok <;> rfl

/-- The per-event stream of an event is not the firehose: its name has no `#` behind the tag. -/
theorem Destination.unique {key : Bytes} {why' : Purpose} (hs : '#' ∉ e.suffix) (h : Destination e key why)
    (h' : Destination e key why') : why = why' := by
  have hne : ∀ {seg seg' : Str}, IsSegment seg →
      utf8 (streamOf e.pfx seg e.suffix) ≠ utf8 (streamOf e.pfx seg' "#firehose".toList) := by
    intro seg seg' hseg heq
    have hname := Text.utf8_injective heq
    rw [streamOf, streamOf, List.append_assoc, List.append_assoc] at hname
    have hrest : streamOf [] seg e.suffix = streamOf [] seg' "#firehose".toList := List.append_cancel_left hname
    have hder : eventDerived (streamOf [] seg e.suffix) = true := eventDerived_canonical List.not_mem_nil hs hseg
    rw [hrest, eventDerived_firehose] at hder
    cases hder
  cases h with
  | canonical hseg hk =>
    cases h' with
    | canonical _ _ => rfl
    | firehose _ hk' => exact absurd (hk.symm.trans hk') (hne hseg)
  | firehose hseg hk =>
    cases h' with
    | canonical hseg' hk' => exact absurd (hk'.symm.trans hk) (hne hseg')
    | firehose _ _ => rfl

/-- No stream gets two entries for one event: each destination is written once at most, and the two are distinct. -/
theorem entriesAt_le_one {calls : List Occurrence} (hs : '#' ∉ e.suffix)
    (hcalls : ∀ o ∈ calls, ∃ why cmd ok, o = .call why cmd ok ∧ EventCall e spec why cmd)
    (hbudget : ∀ x : Expense, calls.countP x.ofCall ≤ Budget.event x) (key : Bytes) :
    (entriesAt key calls).length ≤ 1 := by
  have hlen : (entriesAt key calls).length =
      calls.countP fun o => (o.entryWrite.map fun w => w.ok && decide (w.key = key)) = some true := by
    rw [entriesAt, writes, List.length_map, ← List.countP_eq_length_filter, List.countP_filterMap]
    refine List.countP_congr fun o _ => ?_
    cases o.entryWrite <;> simp
  -- all entries of a key have the purpose of the first one
  by_cases hany : ∃ why, Destination e key why
  · obtain ⟨why, hdest⟩ := hany
    have hone : Budget.event (.entry why) ≤ 1 := by cases hdest <;> exact le_refl _
    rw [hlen]
    refine le_trans (List.countP_mono_left fun o ho hat => ?_) ((hbudget (.entry why)).trans hone)
    obtain ⟨why', cmd, ok, rfl, hcall⟩ := hcalls o ho
    obtain ⟨w, hw, hok⟩ := Option.map_eq_some_iff.1 (of_decide_eq_true hat)
    obtain ⟨hwok, hkey⟩ := Bool.and_eq_true_iff.1 hok
    obtain ⟨-, hd, hspent⟩ := hcall.entryWrite hw
    rw [of_decide_eq_true hkey] at hd
    rw [hdest.unique hs hd]
    exact (hspent _ rfl).trans hwok
  · rw [hlen, List.countP_eq_zero.2]
    · exact Nat.zero_le 1
    · intro o ho hat
      obtain ⟨why, cmd, ok, rfl, hcall⟩ := hcalls o ho
      obtain ⟨w, hw, hok⟩ := Option.map_eq_some_iff.1 (of_decide_eq_true hat)
      obtain ⟨-, hd, -⟩ := hcall.entryWrite hw
      rw [of_decide_eq_true (Bool.and_eq_true_iff.1 hok).2] at hd
      exact hany ⟨why, hd⟩

end Calls

/-! ## The record of a run -/

theorem writes_of_calls {trace more : List Occurrence} (h : ∀ o ∈ more, o.entryWrite = none) :
    writes (trace ++ more) = writes trace := by
  rw [writes_append, show writes more = [] from List.filterMap_eq_nil_iff.2 h, List.append_nil]

/-- A trail whose calls are for neither destination writes no entry. -/
theorem Trail.writes {env : Env} {P : Purpose → Command → Prop} {b : Budget} {st st' : State} (h : Trail env P b st st')
    (hP : ∀ why cmd, P why cmd → why ≠ .canonical ∧ why ≠ .firehose) :
    EventStream.writes st'.trace = EventStream.writes st.trace := by
  obtain ⟨calls, htrace, hcalls, -⟩ := h.calls
  rw [htrace]
  refine writes_of_calls fun o ho => ?_
  obtain ⟨why, cmd, ok, rfl, hp⟩ := hcalls o ho
  obtain ⟨h₁, h₂⟩ := hP why cmd hp
  cases cmd with
  | xadd key nomk trim fields => exact if_neg (not_or.2 ⟨h₁, h₂⟩)
  | sadd | srem | xgroupCreate => rfl

theorem probeCall_apart {why : Purpose} {cmd : Command} (h : ProbeCall why cmd) :
    why ≠ .canonical ∧ why ≠ .firehose := by
  rw [h.1]
  exact ⟨by decide, by decide⟩

/-- What was recorded of one event processed: whether it got to its first write, the numbers drawn and the calls made.
-/
structure Numbering where
  queued : Queued
  placed : Bool
  drawn : List Nat
  calls : List Occurrence

/-- One number for an event that got to its first write, refused there or not, and none for the others; every entry
written for the event carries that number, and no stream gets two of them. -/
structure Numbering.Sound (x : Numbering) : Prop where
  count : x.drawn.length = if x.placed then 1 else 0
  seq : ∀ w ∈ writes x.calls, ∃ i, x.drawn = [i] ∧ (i < 2 ^ 64 → seqOf w.fields = some i)
  once : ∀ key, (entriesAt key x.calls).length ≤ 1

namespace Node

/-- What a step adds to the record. -/
def numbering (env : Env) (n : Node) (act : Act) (n' : Node) : List Numbering :=
  match n.processed act with
  | [.event q] =>
    [⟨q, reachesWrite env n.st, List.range' n.st.seq (n'.st.seq - n.st.seq), n'.st.trace.drop n.st.trace.length⟩]
  | _ => []

/-- The reachable nodes, with the record of the run. -/
inductive Numbered (setup : Setup) (env : Env) : Node → List Numbering → Prop
  | load {n : Node} (h : Loaded setup env n) : Numbered setup env n []
  | step {n n' : Node} {log : List Numbering} {act : Act} (h : Numbered setup env n log)
      (hs : step setup env n act = some n') : Numbered setup env n' (log ++ numbering env n act n')

section Numbered

variable {setup : Setup} {env : Env} {n n' : Node} {log : List Numbering}

theorem Numbered.reach (h : Numbered setup env n log) : Reach setup env (fun _ _ => True) n := by
  induction h with
  | load h => exact .start h
  | step _ hs ih => exact Machine.Reach.next ih trivial hs

theorem Reach.numbered (h : Reach setup env (fun _ _ => True) n) : ∃ log, Numbered setup env n log := by
  refine Machine.Reach.invariant (I := fun n => ∃ log, Numbered setup env n log) (fun n hl => ⟨[], .load hl⟩) ?_ h
  rintro n act n' - - hs ⟨log, hlog⟩
  exact ⟨_, hlog.step hs⟩

/-- What the record says: its events are those handed over, its numbers are all that were drawn, and its calls are all
writes of entries. -/
structure Accounted (n : Node) (log : List Numbering) : Prop where
  handed : log.map Numbering.queued = n.handed
  drawn : log.flatMap Numbering.drawn = List.range n.st.seq
  writes : EventStream.writes n.st.trace = log.flatMap fun x => EventStream.writes x.calls
  sound : ∀ x ∈ log, x.Sound

theorem handed_eq (n : Node) : n.handed = n.tasksDone.flatMap Task.queued := by
  rw [handed, tasksDone]
  induction n.history with
  | nil => rfl
  | cons d ds ih =>
    rw [List.flatMap_cons, ih]
    cases hd : d.task with
    | none => simp [hd]
    | some t => simp [hd]

/-- A step that hands over no event, draws no number and writes no entry. -/
theorem Accounted.of_same (h : Accounted n log) (hh : n'.handed = n.handed) (hseq : n'.st.seq = n.st.seq)
    (hw : EventStream.writes n'.st.trace = EventStream.writes n.st.trace) : Accounted n' log :=
  ⟨h.handed.trans hh.symm, by rw [h.drawn, hseq], by rw [hw, h.writes], h.sound⟩

/-- The record of one event. -/
theorem event_sound (env : Env) (st : State) {q : Queued} (hseq : q.event.entrySeq = true) (hs : '#' ∉ q.event.suffix) :
    let st' := (Task.event q).run env st
    let x : Numbering := ⟨q, reachesWrite env st, List.range' st.seq (st'.seq - st.seq), st'.trace.drop st.trace.length⟩
    x.Sound ∧ st'.trace = st.trace ++ x.calls ∧ List.range st.seq ++ x.drawn = List.range st'.seq := by
  intro st' x
  have hst : st' = processPendingEvent env st q.event := rfl
  cases hp : reachesWrite env st with
  | true =>
    obtain ⟨htrail, hnum⟩ := processPendingEvent_placed env st q.event hp
    obtain ⟨calls, htrace, hcalls, hbudget⟩ := htrail.calls
    rw [← hst] at hnum htrace
    rw [hseq, if_pos rfl] at hnum
    have hdrawn : x.drawn = [st.seq] := by
      change List.range' st.seq (st'.seq - st.seq) = _
      rw [hnum, Nat.add_sub_cancel_left]
      rfl
    have hxcalls : x.calls = calls := by
      change st'.trace.drop st.trace.length = calls
      rw [htrace, List.drop_left]
    refine ⟨⟨?_, fun w hw => ⟨st.seq, hdrawn, fun hlt => ?_⟩, ?_⟩, by rw [hxcalls, htrace], ?_⟩
    · rw [hdrawn]
      change 1 = if reachesWrite env st then 1 else 0
      rw [hp, if_pos rfl]
    · rw [hxcalls] at hw
      obtain ⟨o, ho, hwo⟩ := List.mem_filterMap.1 hw
      obtain ⟨why, cmd, ok, rfl, hcall⟩ := hcalls o ho
      have henc := (hcall.entryWrite hwo).1
      rw [numberOf, hseq, if_pos rfl] at henc
      exact seqOf_entrySpec hlt henc
    · rw [hxcalls]
      exact entriesAt_le_one hs hcalls hbudget
    · rw [hdrawn, hnum, List.range_succ]
  | false =>
    have htrail := processPendingEvent_unplaced env st q.event hp
    have hnum : st'.seq = st.seq := htrail.seq rfl
    obtain ⟨calls, htrace, hcalls, -⟩ := htrail.calls
    rw [← hst] at htrace
    have hdrawn : x.drawn = [] := by
      change List.range' st.seq (st'.seq - st.seq) = _
      rw [hnum, Nat.sub_self]
      rfl
    have hxcalls : x.calls = calls := by
      change st'.trace.drop st.trace.length = calls
      rw [htrace, List.drop_left]
    have hnone : writes x.calls = [] := by
      rw [hxcalls]
      refine List.filterMap_eq_nil_iff.2 fun o ho => ?_
      obtain ⟨why, cmd, ok, rfl, rfl, tag, rfl⟩ := hcalls o ho
      rfl
    refine ⟨⟨?_, ?_, fun key => ?_⟩, by rw [hxcalls, htrace], by rw [hdrawn, hnum, List.append_nil]⟩
    · rw [hdrawn]
      change 0 = if reachesWrite env st then 1 else 0
      rw [hp]
      rfl
    · rw [hnone]
      exact fun w hw => absurd hw List.not_mem_nil
    · rw [entriesAt, hnone]
      exact Nat.zero_le 1

/-- The tasks without events draw no number and write no entry. -/
theorem task_apart (env : Env) (st : State) {t : Task} (ht : t.queued = [])
    (he : ∀ qs fields, t ≠ .envelope qs fields) :
    (t.run env st).seq = st.seq ∧ writes (t.run env st).trace = writes st.trace := by
  have htrail := t.run_trail env st
  cases t with
  | event q => cases ht
  | envelope qs fields => exact absurd rfl (he qs fields)
  | marker control retention m =>
    refine ⟨htrail.seq rfl, htrail.writes ?_⟩
    rintro why cmd ⟨rfl, -⟩
    exact ⟨by decide, by decide⟩
  | noSlot m => exact ⟨htrail.seq rfl, htrail.writes fun why cmd h => h.elim⟩
  | checkpoint control retention =>
    refine ⟨htrail.seq rfl, htrail.writes ?_⟩
    rintro why cmd ⟨rfl, -⟩
    exact ⟨by decide, by decide⟩

/-- The step that processes a task. -/
theorem step_process {act : Act} {task : Task} (hs : step setup env n act = some n') (hp : task ∈ n.processed act) :
    n.processed act = [task] ∧ task ∈ n.todo ∧ n'.st = task.run env n.st := by
  cases step_fires hs with
  | process ht =>
    rw [processed, ht] at hp ⊢
    obtain rfl := List.mem_singleton.1 hp
    exact ⟨rfl, List.mem_cons_self, rfl⟩
  | _ => cases hp

/-- A step that processes no task draws no number and writes no entry. -/
theorem step_apart {act : Act} (hs : step setup env n act = some n') (hp : n.processed act = []) :
    n'.st.seq = n.st.seq ∧ writes n'.st.trace = writes n.st.trace := by
  have hturn := step_turn hs
  generalize n'.st = st' at hturn
  cases hturn with
  | command op hop =>
    obtain ⟨upkeep, htrace, hup⟩ := command_trace env n.st hop
    refine ⟨congrArg Prod.fst (command_fixtures env n.st hop), ?_⟩
    rw [htrace]
    exact writes_of_calls fun o ho => entryWrite_upkeep (hup o ho)
  | process task todo ht =>
    rw [processed, ht] at hp
    cases hp
  | setting _ h => exact ⟨h.seq, by rw [h.trace]⟩
  | idle h => exact ⟨h.seq rfl, h.writes fun _ _ => probeCall_apart⟩

theorem step_accounted {act : Act} (hmode : setup.mode = .sync) (hseq : n.st.config.entrySeq = true)
    (hr : Reach setup env (fun _ _ => True) n) (hs : step setup env n act = some n') (h : Accounted n log) :
    Accounted n' (log ++ numbering env n act n') := by
  have htasks := step_tasksDone hs
  have hhanded : n'.handed = n.handed ++ (n.processed act).flatMap Task.queued := by
    rw [handed_eq, handed_eq, htasks, List.flatMap_append]
  cases hp : n.processed act with
  | nil =>
    obtain ⟨hnum, hw⟩ := step_apart hs hp
    rw [hp, List.flatMap_nil, List.append_nil] at hhanded
    rw [numbering, hp, List.append_nil]
    exact h.of_same hhanded hnum hw
  | cons task rest =>
    obtain ⟨hone, hmem, hst⟩ := step_process hs (hp ▸ List.mem_cons_self)
    have hfrom := hr.stemmed.todo task hmem
    rw [hone, List.flatMap_singleton] at hhanded
    have hquiet : task.queued = [] → (∀ qs fields, task ≠ .envelope qs fields) → numbering env n act n' = [] →
        Accounted n' (log ++ numbering env n act n') := by
      intro hnone henv hlog
      obtain ⟨hnum, hw⟩ := task_apart env n.st hnone henv
      rw [hnone, List.append_nil] at hhanded
      rw [hlog, List.append_nil]
      exact h.of_same hhanded (by rw [hst, hnum]) (by rw [hst, hw])
    cases task with
    | event q =>
      -- the event stems from this configuration, so it is numbered, and its name has no `#`
      have hsharp : '#' ∉ q.event.suffix := fun hm => by
        rw [hfrom.suffix] at hm
        exact absurd (sanitize_passes q.event.event '#' hm) (by decide)
      obtain ⟨hsound, htrace, hrange⟩ := event_sound env n.st (hfrom.entrySeq.trans hseq) hsharp
      rw [← hst] at hsound htrace hrange
      have hlog : numbering env n act n' = [⟨q, reachesWrite env n.st, List.range' n.st.seq (n'.st.seq - n.st.seq),
          n'.st.trace.drop n.st.trace.length⟩] := by rw [numbering, hone]
      rw [hlog]
      refine ⟨?_, ?_, ?_, fun x hx => ?_⟩
      · rw [List.map_append, h.handed, hhanded]
        rfl
      · rw [List.flatMap_append, h.drawn, List.flatMap_singleton, hrange]
      · rw [List.flatMap_append, ← h.writes, List.flatMap_singleton, ← writes_append, ← htrace]
      · rcases List.mem_append.1 hx with hx | hx
        · exact h.sound x hx
        · rw [List.mem_singleton.1 hx]
          exact hsound
    | envelope qs fields => exact absurd hmode hfrom.1
    | marker control retention m => exact hquiet rfl (by simp) (by rw [numbering, hone])
    | noSlot m => exact hquiet rfl (by simp) (by rw [numbering, hone])
    | checkpoint control retention => exact hquiet rfl (by simp) (by rw [numbering, hone])

theorem loaded_accounted (h : Loaded setup env n) : Accounted n [] := by
  obtain ⟨config, host, ks, generation, master, loading, mode, -, rfl⟩ := h
  obtain ⟨_, _, _, hst⟩ := loadedState_eq env config host.cluster ks generation master loading
  rw [hst]
  exact ⟨rfl, rfl, rfl, by simp⟩

theorem Numbered.accounted (hmode : setup.mode = .sync) (h : Numbered setup env n log)
    (hseq : n.st.config.entrySeq = true) : Accounted n log := by
  induction h with
  | load h => exact loaded_accounted h
  | step h hs ih =>
    have hfixed := step_fixed hs
    have hsame := (Prod.mk.inj (Prod.mk.inj hfixed).2).2
    have hbefore := hsame.symm.trans hseq
    exact step_accounted hmode hbefore h.reach hs (ih hbefore)

/-! ## The order of the numbers -/

/-- Without a worker events are handed over in the order of their notifications. -/
theorem sync_handed {allowed : Node → Act → Prop} (hmode : setup.mode = .sync) (h : Reach setup env allowed n) :
    Ascending Queued.id n.handed ∧ n.handed ⊆ n.dispatched ∧ n.handed.length ≤ n.dispatched.length ∧
      n.dispatched.map Queued.id = List.range n.dispatched.length := by
  have hruns := h.view_runs (Q := fun _ _ => True) (fun _ _ _ => trivial) fun _ _ _ _ _ _ => trivial
  have hkeys : n.dispatched.map Queued.id = List.range n.dispatched.length := hruns.numbered.keys
  rw [show decide (setup.mode ≠ .sync) = false by simp [hmode]] at hruns
  have ha := hruns.aligned
  have hline := ha.ordered
  have hcomplete := ha.complete
  rw [Lanes.line, List.append_assoc, List.append_assoc] at hline hcomplete
  have hdone := (List.pairwise_append.1 hline).1
  rw [Lanes.events_append, events_done, List.append_assoc] at hcomplete
  refine ⟨?_, fun q hq => hcomplete.subset (List.mem_append_left _ hq), ?_, hkeys⟩
  · rw [← events_done setup n]
    refine hdone.filterMap _ ?_
    intro x y hxy q hq q' hq'
    cases x with
    | mark m => cases hq
    | event e =>
      cases y with
      | mark m => cases hq'
      | event e' =>
        cases hq
        cases hq'
        exact hxy
  · have hlen := hcomplete.length_eq
    rw [List.length_append] at hlen
    change _ = n.dispatched.length at hlen
    omega

/-- Every number belongs to an event of the record. -/
theorem drawn_length_le (hsound : ∀ x ∈ log, x.Sound) : (log.flatMap Numbering.drawn).length ≤ log.length := by
  induction log with
  | nil => exact le_refl _
  | cons x log ih =>
    have hrest := ih fun y hy => hsound y (List.mem_cons_of_mem _ hy)
    have hx := (hsound x List.mem_cons_self).count
    rw [List.flatMap_cons, List.length_append, List.length_cons]
    split at hx <;> omega

/-- The numbers of the entries at a key are a part of the numbers drawn, in that order. -/
theorem entriesAt_numbers (key : Bytes) (hsound : ∀ x ∈ log, x.Sound)
    (hlimit : ∀ x ∈ log, ∀ i ∈ x.drawn, i < 2 ^ 64) :
    ∃ numbers : List Nat, (log.flatMap fun x => entriesAt key x.calls).map seqOf = numbers.map some ∧
      numbers.Sublist (log.flatMap Numbering.drawn) := by
  induction log with
  | nil => exact ⟨[], rfl, .slnil⟩
  | cons x log ih =>
    obtain ⟨numbers, hmap, hsub⟩ := ih (fun y hy => hsound y (List.mem_cons_of_mem _ hy))
      fun y hy => hlimit y (List.mem_cons_of_mem _ hy)
    have hx := hsound x List.mem_cons_self
    have honce := hx.once key
    cases hent : entriesAt key x.calls with
    | nil =>
      refine ⟨numbers, ?_, ?_⟩
      · rw [List.flatMap_cons, hent, List.nil_append, hmap]
      · rw [List.flatMap_cons]
        exact hsub.trans (List.sublist_append_right _ _)
    | cons fields rest =>
      rw [hent, List.length_cons] at honce
      obtain rfl : rest = [] := List.eq_nil_of_length_eq_zero (by omega)
      obtain ⟨w, hw, rfl⟩ : ∃ w ∈ writes x.calls, w.fields = fields := by
        have hmem : fields ∈ entriesAt key x.calls := hent ▸ List.mem_cons_self
        obtain ⟨w, hw, he⟩ := List.mem_map.1 hmem
        exact ⟨w, List.mem_of_mem_filter hw, he⟩
      obtain ⟨i, hdrawn, hread⟩ := hx.seq w hw
      have hi : i < 2 ^ 64 := hlimit x List.mem_cons_self i (hdrawn ▸ List.mem_singleton_self i)
      refine ⟨i :: numbers, ?_, ?_⟩
      · rw [List.flatMap_cons, hent, List.map_append, hmap, List.map_cons, List.map_nil, hread hi]
        rfl
      · rw [List.flatMap_cons, hdrawn]
        exact hsub.cons_cons i

/-- **Sequence numbers order events.** The events handed over are numbered in the order of their notifications. Each
draws one number if it gets to its first write, whatever comes of that, and none otherwise, and no number is drawn
twice. All entries written for an event, in whatever format, carry its number, and along every stream the numbers
increase. -/
theorem numbers_order_events (setup : Setup) (env : Env) (n : Node) (log : List Numbering) (hmode : setup.mode = .sync)
    (hseq : n.st.config.entrySeq = true) (hshort : n.dispatched.length < 2 ^ 64) (h : Numbered setup env n log) :
    (log.map Numbering.queued = n.handed ∧ n.handed ⊆ n.dispatched ∧
      n.dispatched.map Queued.id = List.range n.dispatched.length) ∧
    (log.Pairwise fun x y => x.queued.id < y.queued.id ∧ ∀ i ∈ x.drawn, ∀ j ∈ y.drawn, i < j) ∧
    (log.flatMap Numbering.drawn = List.range n.st.seq ∧
      ∀ x ∈ log, x.drawn.length = if x.placed then 1 else 0) ∧
    (writes n.st.trace = log.flatMap (fun x => writes x.calls) ∧
      ∀ x ∈ log, ∀ w ∈ writes x.calls, ∃ i, x.drawn = [i] ∧ seqOf w.fields = some i) ∧
    ∀ key, ∃ numbers : List Nat, (entriesAt key n.st.trace).map seqOf = numbers.map some ∧
      numbers.Pairwise (· < ·) := by
  have ha := h.accounted hmode hseq
  obtain ⟨hasc, hsub, hlen, hkeys⟩ := sync_handed hmode h.reach
  have hpair : (log.flatMap Numbering.drawn).Pairwise (· < ·) := by
    rw [ha.drawn]
    exact List.pairwise_lt_range
  have hfew := drawn_length_le ha.sound
  have hlimit : ∀ x ∈ log, ∀ i ∈ x.drawn, i < 2 ^ 64 := by
    intro x hx i hi
    have hmem : i ∈ log.flatMap Numbering.drawn := List.mem_flatMap_of_mem hx hi
    have hlog : log.length = n.handed.length := by rw [← ha.handed, List.length_map]
    rw [ha.drawn, List.length_range] at hfew
    rw [ha.drawn, List.mem_range] at hmem
    omega
  refine ⟨⟨ha.handed, hsub, hkeys⟩, ?_, ⟨ha.drawn, fun x hx => (ha.sound x hx).count⟩, ⟨ha.writes, ?_⟩, ?_⟩
  · rw [← ha.handed] at hasc
    exact (List.pairwise_map.1 hasc).and (List.pairwise_flatMap.1 hpair).2
  · intro x hx w hw
    obtain ⟨i, hdrawn, hread⟩ := (ha.sound x hx).seq w hw
    exact ⟨i, hdrawn, hread (hlimit x hx i (hdrawn ▸ List.mem_singleton_self i))⟩
  · intro key
    obtain ⟨numbers, hmap, hnum⟩ := entriesAt_numbers key ha.sound hlimit
    refine ⟨numbers, ?_, hpair.sublist hnum⟩
    rw [← hmap, entriesAt, ha.writes, List.filter_flatMap, List.map_flatMap]
    rfl

/-- A server that refuses the first write of the second event. -/
def bumpyEnv : Env := { Env.calm with refuse := fun i _ _ => if i = 8 then some "ERR busy".toList else none }

def numberedConfig : Config := { Config.defaults with entrySeq := true, firehose := true }

def numberedLoad : Node :=
  initial .sync (loadedState bumpyEnv numberedConfig false .empty "0".toList true false)

theorem numberedLoad_loaded : Loaded plain bumpyEnv numberedLoad :=
  ⟨numberedConfig, ⟨false, true, false, .ok ()⟩, .empty, "0".toList, true, false, .sync, rfl, rfl⟩

/-- Three events, the last two in another format. -/
def numberedRun : List Act :=
  [expire [97], .runJob, .process, .runJob, .process, .configure { numberedConfig with entryFormat := .verbose },
    expire [98], .runJob, .process, expire [99], .runJob, .process]

theorem numbers_order_events_refused : ∃ n log, Numbered plain bumpyEnv n log ∧
    log.flatMap Numbering.drawn = [0, 1, 2] ∧
    (entriesAt (utf8 "events:expired".toList) n.st.trace).map seqOf = [some 0, some 2] ∧
    (entriesAt (utf8 "events:#firehose".toList) n.st.trace).map seqOf = [some 0, some 1, some 2] := by
  have hrun : (Machine.run (step plain bumpyEnv) (fun _ _ => True) numberedLoad numberedRun).map
      (fun n => (n.st.config.entrySeq, [n.st.seq, n.dispatched.length],
        ["events:expired", "events:#firehose"].map fun key => (entriesAt (utf8 key.toList) n.st.trace).map seqOf)) =
      some (true, [3, 3], [[some 0, some 2], [some 0, some 1, some 2]]) := by
    decide +kernel
  obtain ⟨n, hn, hvalues⟩ := Option.map_eq_some_iff.1 hrun
  simp only [Prod.mk.injEq, List.map_cons, List.map_nil, List.cons.injEq, and_true] at hvalues
  obtain ⟨hseq, ⟨hnum, hlen⟩, hexpired, hfirehose⟩ := hvalues
  obtain ⟨log, hlog⟩ := Reach.numbered (Machine.reach_of_run (.start numberedLoad_loaded) hn)
  have hshort : n.dispatched.length < 2 ^ 64 := by
    rw [hlen]
    decide
  have hall := numbers_order_events plain bumpyEnv n log rfl hseq hshort hlog
  refine ⟨n, log, hlog, ?_, hexpired, hfirehose⟩
  rw [hall.2.2.1.1, hnum]
  rfl

end Numbered

end Node

end EventStream

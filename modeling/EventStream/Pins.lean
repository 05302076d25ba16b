import EventStream.Turns
import EventStream.Fences

/-!
# Verified tags

A canonical write that fails with an unknown text is checked against the ownership of the pinned slot: a probe that is
refused means that the slot has left, and the node pins another one. A probe that is accepted is remembered, so that a
streak of failures is probed once. This module says what the memory costs: a slot that leaves while the tag is
remembered as verified is not noticed.

* `Verified`: the remembered tag is the pinned one, in every reachable state.
* `placement`: where the canonical write of an event is made.
* `LostUnseen`: the write fails with an unknown text after the slot has left.
* `lost_slot_repins_iff`: then the node re-pins exactly if the tag is not remembered as verified.
-/

namespace EventStream

open Text (Str Bytes utf8)

/-! ## The remembered tag -/

/-- The remembered tag is the pinned one, if any. -/
def Verified (st : State) : Prop := st.probeVerifiedTag = none ∨ st.probeVerifiedTag = st.nodeTag

theorem Does.verified {env : Env} {st st' : State} {d : Deed} (h : Does env st d st') (hv : Verified st) :
    Verified st' := by
  cases h with
  | call why cmd opts r h =>
    obtain ⟨_, _, _, rfl⟩ := call_rest h
    exact hv
  | still h =>
    rw [Verified, h.tags.1, h.tags.2]
    exact hv
  | written why stream counter count hc =>
    unfold Verified recordWrite
    simp only
    split
    · exact Or.inl rfl
    · exact hv
  | pin tag h =>
    -- nothing is remembered while no tag is pinned
    have hnone : st.probeVerifiedTag = none := hv.elim id fun e => e.trans h
    exact Or.inl hnone
  | verify tag h => exact Or.inr h.symm
  | unpin => exact Or.inl rfl
  | number | charge _ _ _ _ | drop _ _ _ _ _ | streamDrop _ _ _ _ _ | flagged _ _ _ => exact hv

theorem Trail.verified {env : Env} {P : Purpose → Command → Prop} {b : Budget} {st st' : State}
    (h : Trail env P b st st') (hv : Verified st) : Verified st' := by
  obtain ⟨ds, hp, _, _⟩ := h
  exact hp.invariant (fun _ _ _ _ hs => hs.verified) hv

/-! ## The canonical write of an event -/

section Writes

variable (env : Env) (st : State) (e : PendingEvent)

/-- Where the canonical write of an event is made: the segment, the entry, and the state. -/
def placement : Option (Str × EntrySpec × State) :=
  match selectDb env st with
  | (false, _) => none
  | (true, st) =>
    match tagSegment env st with
    | (none, _) => none
    | (some seg, st) => some (seg, entrySpec e (takeSeq st e.entrySeq).1, (takeSeq st e.entrySeq).2)

/-- The processor makes the canonical write there, and then the copy. -/
theorem processPendingEvent_of_placement {seg : Str} {spec : EntrySpec} {st₁ : State}
    (h : placement env st e = some (seg, spec, st₁)) :
    processPendingEvent env st e =
      if (settleEvent env st₁ e seg spec).config.firehose then
        mirrorFirehose env (settleEvent env st₁ e seg spec) e.pfx spec e.firehoseRetention
      else settleEvent env st₁ e seg spec := by
  unfold placement at h
  unfold processPendingEvent
  cases hs : selectDb env st with
  | mk sel st₀ =>
    rw [hs] at h
    cases sel with
    | false => cases h
    | true =>
      simp only at h ⊢
      cases ht : tagSegment env st₀ with
      | mk tag st₂ =>
        rw [ht] at h
        cases tag with
        | none => cases h
        | some seg' =>
          simp only [Option.some.injEq, Prod.mk.injEq] at h
          obtain ⟨rfl, rfl, rfl⟩ := h
          rfl

end Writes

/-- The canonical write fails with a text that says nothing of the slot, and a probe of the pinned tag would be refused
at that moment, though not for memory. -/
structure LostUnseen (env : Env) (e : PendingEvent) (seg : Str) (spec : EntrySpec) (st st' : State) (tag : Str) :
    Prop where
  failed : ∃ stream msg, mirrorEntry env st e.pfx seg e.suffix spec e.dataRetention e.maxStreams .forwarded =
    (.failed stream msg, st')
  perNode : st'.config.perNode = true
  pinned : st'.nodeTag = some tag
  lost : ∃ msg, (probeTagOwned env st' tag).1 = .error msg ∧ startsWith msg oomText = false

/-- A re-pin that a probe has found necessary: the tag is given up and another one selected, and both counters say so.
-/
structure Repinned (env : Env) (tag : Str) (st st' : State) : Prop where
  repins : st'.value .repins = st.value .repins + 1
  detected : st'.value .repinsProbeDetected = st.value .repinsProbeDetected + 1
  selected : st'.nodeTag =
    (selectOwnedTag env (unpinned ((probeTagOwned env st tag).2.charge .canonical .repinsProbeDetected 1))).1

section Repins

variable {env : Env} {e : PendingEvent} {seg : Str} {spec : EntrySpec} {st st' : State} {tag : Str}

theorem tagSegment_unpinned (h : st.config.perNode = true) :
    (tagSegment env (unpinned st)).2.nodeTag = (selectOwnedTag env (unpinned st)).1 := by
  have hp : (unpinned st).config.perNode = true := h
  have hn : (unpinned st).nodeTag = none := rfl
  unfold tagSegment
  rw [if_neg (by simp [hp]), hn]

theorem repinAndRetry_repinned (env : Env) (e : PendingEvent) (spec : EntrySpec) (hp : st.config.perNode = true) :
    let st' := repinAndRetry env (st.charge .canonical .repinsProbeDetected 1) e.pfx e.suffix spec e.dataRetention
      e.controlRetention e.maxStreams
    st'.value .repins = st.value .repins + 1 ∧ st'.value .repinsProbeDetected = st.value .repinsProbeDetected + 1 ∧
      st'.nodeTag = (selectOwnedTag env (unpinned (st.charge .canonical .repinsProbeDetected 1))).1 := by
  have hafter := repinAndRetry_after env (st.charge .canonical .repinsProbeDetected 1) e spec
  have hsel := tagSegment_trail env (unpinned (st.charge .canonical .repinsProbeDetected 1)) probeCall_allowsProbes
  have hcount : ∀ {c : Counter}, c.isRepin = true →
      (repinAndRetry env (st.charge .canonical .repinsProbeDetected 1) e.pfx e.suffix spec e.dataRetention
        e.controlRetention e.maxStreams).value c = (unpinned (st.charge .canonical .repinsProbeDetected 1)).value c :=
    fun hc => (hafter.repins rfl hc).trans (hsel.repins rfl hc)
  refine ⟨(hcount rfl).trans rfl, (hcount rfl).trans rfl, ?_⟩
  exact (hafter.nodeTag rfl).trans (tagSegment_unpinned hp)

/-- The failing write re-pins exactly if the tag is not remembered as verified; otherwise it counts a plain failure. -/
theorem settleEvent_lostUnseen (h : LostUnseen env e seg spec st st' tag) :
    (st'.probeVerifiedTag ≠ some tag → Repinned env tag st' (settleEvent env st e seg spec)) ∧
      (st'.probeVerifiedTag = some tag → ∃ stream msg,
        settleEvent env st e seg spec = countEventLostStream env st' .canonical stream .droppedXaddError msg) := by
  obtain ⟨⟨stream, msg, hf⟩, hp, ht, m, hm, hoom⟩ := h
  have hn : ¬ (¬ st'.config.perNode = true) := not_not_intro hp
  refine ⟨fun hv => ?_, fun hv => ⟨stream, msg, ?_⟩⟩
  · have hprobe : probeTagOwned env st' tag = (.error m, (probeTagOwned env st' tag).2) := Prod.ext hm rfl
    have hlost : pinnedTagLostByProbe env st' = (true, (probeTagOwned env st' tag).2) := by
      unfold pinnedTagLostByProbe
      rw [if_neg hn, ht]
      simp only [if_neg hv]
      rw [hprobe]
      simp [hoom]
    have hset : settleEvent env st e seg spec = repinAndRetry env
        ((probeTagOwned env st' tag).2.charge .canonical .repinsProbeDetected 1) e.pfx e.suffix spec e.dataRetention
        e.controlRetention e.maxStreams := by
      unfold settleEvent
      rw [hf]
      simp only
      rw [hlost]
    have htrail := probeTagOwned_trail env st' probeCall_allowsProbes hp tag
    have hconf : (probeTagOwned env st' tag).2.config.perNode = true := by
      rw [(Frame.of_probed (probeTagOwned_probed env st' tag)).config]
      exact hp
    obtain ⟨h₁, h₂, h₃⟩ := repinAndRetry_repinned env e spec hconf
    rw [htrail.repins rfl rfl] at h₁ h₂
    rw [hset]
    exact ⟨h₁, h₂, h₃⟩
  · have hlost : pinnedTagLostByProbe env st' = (false, st') := by
      unfold pinnedTagLostByProbe
      rw [if_neg hn, ht]
      simp only [if_pos hv]
    unfold settleEvent
    rw [hf]
    simp only
    rw [hlost]

theorem settleEvent_repins_iff (h : LostUnseen env e seg spec st st' tag) :
    Repinned env tag st' (settleEvent env st e seg spec) ↔ st'.probeVerifiedTag ≠ some tag := by
  obtain ⟨hre, hplain⟩ := settleEvent_lostUnseen h
  refine ⟨fun hr hv => ?_, hre⟩
  obtain ⟨stream, msg, e⟩ := hplain hv
  have hsame : (countEventLostStream env st' .canonical stream .droppedXaddError msg).value .repins =
      st'.value .repins := rfl
  have hup := hr.repins
  rw [e, hsame] at hup
  omega

end Repins

/-! ## What stays remembered until the write -/

section Memory

variable {env : Env} {st st' : State}

theorem selectFrom_verifiedTag (n slot : Nat) (st : State) :
    (selectFrom env n slot st).2.probeVerifiedTag = st.probeVerifiedTag := by
  induction n generalizing slot st with
  | zero => rfl
  | succ n ih =>
    unfold selectFrom
    cases candidate env slot with
    | none => exact ih _ st
    | some tag =>
      simp only
      cases hr : probeTagOwned env st tag with
      | mk r st₁ =>
        obtain ⟨_, _, _, rfl⟩ := call_rest hr
        cases r with
        | ok _ => rfl
        | error _ => exact ih _ _

theorem tagSegment_verifiedTag (env : Env) (st : State) :
    (tagSegment env st).2.probeVerifiedTag = st.probeVerifiedTag := by
  unfold tagSegment
  split
  · rfl
  · cases st.nodeTag with
    | some tag => rfl
    | none => exact selectFrom_verifiedTag slotCount 0 st

theorem placement_spec {e : PendingEvent} {seg : Str} {spec : EntrySpec}
    (h : placement env st e = some (seg, spec, st')) :
    st'.probeVerifiedTag = st.probeVerifiedTag ∧ ∀ {c : Counter}, c.isRepin = true → st'.value c = st.value c := by
  unfold placement at h
  have hsel : Trail env ProbeCall .none st (selectDb env st).2 := selectDb_trail st
  have hv₀ : (selectDb env st).2.probeVerifiedTag = st.probeVerifiedTag := rfl
  cases hs : selectDb env st with
  | mk sel st₀ =>
    rw [hs] at h hsel hv₀
    cases sel with
    | false => cases h
    | true =>
      have htag := tagSegment_trail env st₀ probeCall_allowsProbes
      have hv₁ := tagSegment_verifiedTag env st₀
      simp only at h
      cases ht : tagSegment env st₀ with
      | mk tag st₁ =>
        rw [ht] at h htag hv₁
        cases tag with
        | none => cases h
        | some seg' =>
          simp only [Option.some.injEq, Prod.mk.injEq] at h
          obtain ⟨-, -, rfl⟩ := h
          have hseq := takeSeq_trail env st₁ ProbeCall e.entrySeq
          have hv₂ : (takeSeq st₁ e.entrySeq).2.probeVerifiedTag = st₁.probeVerifiedTag := by
            unfold takeSeq
            split <;> rfl
          refine ⟨hv₂.trans (hv₁.trans hv₀), fun hc => ?_⟩
          exact (hseq.repins rfl hc).trans ((htag.repins rfl hc).trans (hsel.repins rfl hc))

/-- A write that fails has made its one call. -/
theorem mirrorEntry_failed {pfx seg suffix stream msg : Str} {spec : EntrySpec} {retention : Retention}
    {maxStreams : Int} {counter : Counter}
    (h : mirrorEntry env st pfx seg suffix spec retention maxStreams counter = (.failed stream msg, st')) :
    ∃ ks clock trace, st' = { st with keyspace := ks, clock := clock, trace := trace } := by
  unfold mirrorEntry at h
  cases he : encodeEntryFields spec with
  | error reason =>
    rw [he] at h
    cases h
  | ok fields =>
    rw [he] at h
    simp only [mirrorFields] at h
    split at h
    · cases h
    · cases hr : call env st (purposeOf counter) (.xadd (utf8 (streamOf pfx seg suffix)) false (trimOf env st retention)
        fields) (xaddCallOptions st) with
      | mk r st₁ =>
        rw [hr] at h
        cases r with
        | ok _ => cases h
        | error m =>
          obtain ⟨_, rfl⟩ := Prod.mk.inj h
          exact call_rest hr

end Memory

/-! ## Runs -/

namespace Node

variable {setup : Setup} {env : Env} {n : Node}

theorem loaded_verified (h : Loaded setup env n) : Verified n.st := by
  obtain ⟨config, host, ks, generation, master, loading, mode, -, rfl⟩ := h
  obtain ⟨_, _, _, hst⟩ := loadedState_eq env config host.cluster ks generation master loading
  rw [hst]
  exact Or.inl rfl

theorem verified_of_fixtures {st st' : State} (h : fixtures st' = fixtures st) (hv : Verified st) : Verified st' := by
  simp only [fixtures, Prod.mk.injEq] at h
  rw [Verified, h.2.1, h.2.2.1]
  exact hv

theorem Reach.verified {allowed : Node → Act → Prop} (h : Reach setup env allowed n) : Verified n.st := by
  refine h.invariant (I := fun n => Verified n.st) (fun n hl => loaded_verified hl) ?_
  intro n act n' _ _ hs hv
  have ht := step_turn hs
  generalize n'.st = st' at ht
  cases ht with
  | command op hop => exact verified_of_fixtures (command_fixtures env n.st hop) hv
  | process task todo _ => exact (task.run_trail env n.st).verified hv
  | setting _ hr => exact verified_of_fixtures hr.fixtures hv
  | idle hi => exact hi.verified hv

/-- In every reachable state the remembered tag is absent or the pinned one. When the canonical write of an event fails
with an unknown text after the pinned slot has left, the node re-pins exactly if the tag is not remembered as verified;
if it is, the failure is counted as a plain one. -/
theorem lost_slot_repins_iff (setup : Setup) (env : Env) (n : Node) (h : Reach setup env (fun _ _ => True) n) :
    (n.st.probeVerifiedTag = none ∨ n.st.probeVerifiedTag = n.st.nodeTag) ∧
    ∀ q todo seg spec st st' tag n', n.todo = .event q :: todo → placement env n.st q.event = some (seg, spec, st) →
      LostUnseen env q.event seg spec st st' tag → step setup env n .process = some n' →
      (Repinned env tag st' (settleEvent env st q.event seg spec) ∧
        n'.st.value .repins = n.st.value .repins + 1 ∧
        n'.st.value .repinsProbeDetected = n.st.value .repinsProbeDetected + 1 ↔ n.st.probeVerifiedTag ≠ some tag) ∧
      (n.st.probeVerifiedTag = some tag → ∃ stream msg, settleEvent env st q.event seg spec =
        countEventLostStream env st' .canonical stream .droppedXaddError msg) := by
  refine ⟨h.verified, fun q todo seg spec st st' tag n' htodo hplace hlost hstep => ?_⟩
  obtain ⟨hv, hrep⟩ := placement_spec hplace
  obtain ⟨stream, msg, hf⟩ := hlost.failed
  obtain ⟨_, _, _, hrest⟩ := mirrorEntry_failed hf
  have hv' : st'.probeVerifiedTag = n.st.probeVerifiedTag := by
    rw [← hv, hrest]
  have hcount : ∀ {c : Counter}, c.isRepin = true → st'.value c = n.st.value c := fun hc => by
    rw [← hrep hc, hrest]
    rfl
  have hst : n'.st = processPendingEvent env n.st q.event := by
    simp only [step, htodo, Option.some.injEq] at hstep
    rw [← hstep]
    rfl
  -- the copy counts no re-pin
  have hend : ∀ {c : Counter}, c.isRepin = true → n'.st.value c = (settleEvent env st q.event seg spec).value c :=
    fun hc => by
      rw [hst, processPendingEvent_of_placement env n.st q.event hplace]
      split
      · exact (mirrorFirehose_trail env _ q.event spec q.event.firehoseRetention).repins rfl hc
      · rfl
  rw [← hv']
  refine ⟨⟨fun hr => (settleEvent_repins_iff hlost).1 hr.1, fun hne => ?_⟩, (settleEvent_lostUnseen hlost).2⟩
  have hr := (settleEvent_repins_iff hlost).2 hne
  exact ⟨hr, by rw [hend rfl, hr.repins, hcount rfl], by rw [hend rfl, hr.detected, hcount rfl]⟩

/-- What the canonical write of the next event meets: its outcome, the mode, the pinned and the remembered tag, and the
refusal of a probe. -/
structure Outlook where
  outcome : MirrorOutcome
  perNode : Bool
  pinned : Option Str
  verified : Option Str
  refusal : Option Str
  deriving DecidableEq

def outlook (env : Env) (n : Node) : Option Outlook :=
  match n.todo with
  | .event q :: _ =>
    (placement env n.st q.event).map fun p =>
      let r := mirrorEntry env p.2.2 q.event.pfx p.1 q.event.suffix p.2.1 q.event.dataRetention
        q.event.maxStreams .forwarded
      { outcome := r.1
        perNode := r.2.config.perNode
        pinned := r.2.nodeTag
        verified := n.st.probeVerifiedTag
        refusal := r.2.nodeTag.bind fun tag =>
          match (probeTagOwned env r.2 tag).1 with
          | .error msg => some msg
          | .ok _ => none }
  | _ => none

theorem outlook_lost {stream msg tag m : Str} {verified : Option Str}
    (h : n.outlook env = some ⟨.failed stream msg, true, some tag, verified, some m⟩)
    (hm : startsWith m oomText = false) : n.st.probeVerifiedTag = verified ∧
      ∃ q todo seg spec st st', n.todo = .event q :: todo ∧ placement env n.st q.event = some (seg, spec, st) ∧
        LostUnseen env q.event seg spec st st' tag := by
  unfold outlook at h
  split at h
  · rename_i q todo htodo
    obtain ⟨⟨seg, spec, st⟩, hp, hr⟩ := Option.map_eq_some_iff.1 h
    simp only [Outlook.mk.injEq] at hr
    obtain ⟨hf, hn, ht, hv, hprobe⟩ := hr
    refine ⟨hv, q, todo, seg, spec, st, _, htodo, hp, ⟨stream, msg, Prod.ext hf rfl⟩, hn, ht, m, ?_, hm⟩
    rw [ht] at hprobe
    simp only [Option.bind_some] at hprobe
    split at hprobe
    · rename_i heq
      rw [heq, Option.some.inj hprobe]
    · cases hprobe
  · cases h

/-- A cluster node on which every slot has the name `t`, and on which the calls of some numbers are refused. -/
def shakyEnv (refused : Nat → Bool) : Env :=
  { Env.calm with
    canonicalName := some fun _ => some ['t']
    refuse := fun i _ _ => if refused i then some "ERR refused".toList else none }

def shakyLoad (env : Env) : Node := initial .sync (loadedState env .defaults true .empty "0".toList true false)

theorem shakyLoad_loaded (env : Env) : Loaded plain env (shakyLoad env) :=
  ⟨.defaults, ⟨true, true, false, .ok ()⟩, .empty, "0".toList, true, false, .sync, rfl, rfl⟩

def refusedWrite : MirrorOutcome :=
  .failed "events:\x7bt\x7dexpired".toList "XADD to 'events:\x7bt\x7dexpired' failed: ERR refused".toList

/-- The write of the first event and the probe behind it are refused. -/
def lostEnv : Env := shakyEnv fun i => i = 4 || i = 5

/-- An event up to its processing; the load's marker comes first. -/
def firstEvent : List Act := [expire [97], .runJob, .process, .runJob]

theorem lost_slot_repins_first : ∃ n n', Reach plain lostEnv (fun _ _ => True) n ∧
    step plain lostEnv n .process = some n' ∧ n.st.probeVerifiedTag = none ∧
    n'.st.value .repins = n.st.value .repins + 1 ∧
    n'.st.value .repinsProbeDetected = n.st.value .repinsProbeDetected + 1 := by
  have hrun : (Machine.run (step plain lostEnv) (fun _ _ => True) (shakyLoad lostEnv) firstEvent).map
      (fun n => n.outlook lostEnv) = some (some ⟨refusedWrite, true, some ['t'], none, some "ERR refused".toList⟩) := by
    decide +kernel
  obtain ⟨n, hn, hout⟩ := Option.map_eq_some_iff.1 hrun
  obtain ⟨hv, q, todo, seg, spec, st, st', htodo, hp, hlost⟩ := outlook_lost hout (by decide)
  have hstep : step plain lostEnv n .process =
      some { n.note (some (.event q)) ((Task.event q).run lostEnv n.st) with todo := todo } := by
    simp only [step, htodo]
  have hreach := Machine.reach_of_run (.start (shakyLoad_loaded lostEnv)) hn
  have hall := (lost_slot_repins_iff plain lostEnv n hreach).2 q todo seg spec st st' ['t'] _ htodo hp hlost hstep
  have hre := hall.1.2 (by rw [hv]; simp)
  exact ⟨n, _, hreach, hstep, hv, hre.2⟩

/-- The write of the first event is refused while the slot is owned; the slot has left when the second is written. -/
def movedEnv : Env := shakyEnv fun i => i = 4 || 7 ≤ i

def secondEvent : List Act := firstEvent ++ [.process, expire [98], .runJob]

/-- A streak of failures that spans a migration: the tag is remembered as verified from the first failure, so that the
second is not probed. The node stays on the lost slot and counts two plain failures. -/
theorem verified_tag_masks_migration : ∃ n q todo seg spec st st' n', Reach plain movedEnv (fun _ _ => True) n ∧
    n.todo = .event q :: todo ∧ placement movedEnv n.st q.event = some (seg, spec, st) ∧
    LostUnseen movedEnv q.event seg spec st st' ['t'] ∧ step plain movedEnv n .process = some n' ∧
    n'.st.nodeTag = some ['t'] ∧ n'.st.value .repins = 0 ∧ n'.st.value .repinsProbeDetected = 0 ∧
    n'.st.value .droppedXaddError = 2 := by
  have hrun : (Machine.run (step plain movedEnv) (fun _ _ => True) (shakyLoad movedEnv) secondEvent).map
      (fun n => (n.outlook movedEnv, (step plain movedEnv n .process).map fun n' => (n'.st.nodeTag,
        [Counter.repins, .repinsProbeDetected, .droppedXaddError].map n'.st.value))) =
      some (some ⟨refusedWrite, true, some ['t'], some ['t'], some "ERR refused".toList⟩,
        some (some ['t'], [0, 0, 2])) := by
    decide +kernel
  obtain ⟨n, hn, hout⟩ := Option.map_eq_some_iff.1 hrun
  obtain ⟨hout, hnext⟩ := Prod.mk.inj hout
  obtain ⟨_, q, todo, seg, spec, st, st', htodo, hp, hlost⟩ := outlook_lost hout (by decide)
  obtain ⟨n', hstep, hvals⟩ := Option.map_eq_some_iff.1 hnext
  simp only [Prod.mk.injEq, List.map_cons, List.map_nil, List.cons.injEq, and_true] at hvals
  obtain ⟨htag, h₁, h₂, h₃⟩ := hvals
  exact ⟨n, q, todo, seg, spec, st, st', n', Machine.reach_of_run (.start (shakyLoad_loaded movedEnv)) hn, htodo, hp,
    hlost, hstep, htag, h₁, h₂, h₃⟩

end Node

end EventStream

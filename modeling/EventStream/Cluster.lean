import EventStream.Stats

/-!
# Slot-pinned hash tags

In cluster per-node mode every key of the module carries a hash tag whose slot the node owns. The tag is selected lazily
by probing, cached, and given up when a write shows that the slot has left.

* `Probed st st'`: probing changes the two cached tags, the clock and the trace, and the keyspace only at probe keys.
* `selectFrom_probed`, `tagSegment_probed`, `pinnedTagLostByProbe_probed`: the functions of this module do no more.
-/

namespace EventStream

open Text (Str Bytes utf8 showNat)

def slotCount : Nat := 16384

/-! ## Candidate tags -/

/-- One bit of the CRC. -/
def crcBit (crc : BitVec 16) : BitVec 16 := if crc &&& 0x8000#16 ≠ 0#16 then (crc <<< 1) ^^^ 0x1021#16 else crc <<< 1

/-- CRC16 (XMODEM), as the server hashes keys. -/
def crc16 (data : Bytes) : BitVec 16 :=
  data.foldl (fun crc byte => crcBit^[8] (crc ^^^ ((BitVec.ofNat 16 byte.toNat) <<< 8))) 0#16

/-- The synthetic tag of an index. -/
def syntheticTag (i : Nat) : Str := "es".toList ++ showNat i

/-- The fill loop of the fallback table: candidates in order, the first of each slot kept, until no slot is left. -/
def fillTable : Nat → (Nat → Option Nat) → Nat → Nat → (Nat → Option Nat)
  | 0, table, _, _ => table
  | fuel + 1, table, remaining, i =>
    if remaining = 0 then table
    else
      let s := (crc16 (utf8 (syntheticTag i))).toNat % slotCount
      match table s with
      | some _ => fillTable fuel table remaining (i + 1)
      | none => fillTable fuel (Function.update table s (some i)) (remaining - 1) (i + 1)

def u32Max : Nat := 4294967295

/-- The tag of a slot on servers without canonical names. The candidate index is a 32-bit number. -/
def fallbackTagForSlot (slot : Nat) : Str :=
  syntheticTag ((fillTable (u32Max + 1) (fun _ => none) slotCount 0 slot).getD u32Max)

/-- The candidate tag of a slot: a name that cannot break the braces around it. -/
def candidate (env : Env) (slot : Nat) : Option Str :=
  match env.canonicalName with
  | some canonicalInSlot =>
    match canonicalInSlot slot with
    | none => none
    | some name => if name = [] ∨ '{' ∈ name ∨ '}' ∈ name then none else some name
  | none => some (fallbackTagForSlot slot)

/-! ## Probing -/

/-- A tag in its braces. -/
def braced (tag : Str) : Str := '{' :: (tag ++ ['}'])

def probeKey (tag : Str) : Bytes := utf8 (braced tag ++ "#slotprobe".toList)

/-- Probe whether the node owns a tag's slot, with a write that creates nothing. -/
def probeTagOwned (env : Env) (st : State) (tag : Str) : Except Str Unit × State :=
  call env st .probe (.xadd (probeKey tag) true none [utf8 ['f'], utf8 ['v']]) (xaddCallOptions st)

/-- The walk over the slots from one of them on. -/
def selectFrom (env : Env) : Nat → Nat → State → Option Str × State
  | 0, _, st => (none, st)
  | n + 1, slot, st =>
    match candidate env slot with
    | none => selectFrom env n ((slot + 2609) % slotCount) st
    | some tag =>
      match probeTagOwned env st tag with
      | (.ok _, st) => (some tag, st)
      | (.error _, st) => selectFrom env n ((slot + 2609) % slotCount) st

/-- Find a tag whose slot the node owns. -/
def selectOwnedTag (env : Env) (st : State) : Option Str × State := selectFrom env slotCount 0 st

/-- The tag segment of the module's keys: empty outside per-node mode, the braced tag in it, selected on first use. -/
def tagSegment (env : Env) (st : State) : Option Str × State :=
  if ¬ st.config.perNode then (some [], st)
  else
    match st.nodeTag with
    | some tag => (some (braced tag), st)
    | none =>
      match selectOwnedTag env st with
      | (tag, st) => (tag.map braced, { st with nodeTag := tag })

/-- The cached segment, without selecting one. -/
def tagSegmentCached (st : State) : Option Str :=
  if ¬ st.config.perNode then some [] else st.nodeTag.map braced

def startsWith (s pattern : Str) : Bool := pattern.isPrefixOf s

def oomText : Str := "OOM".toList

/-- Whether the pinned tag no longer probes as owned. A tag verified once is not probed again until a re-pin or a
written entry, and a probe refused for memory decides nothing. -/
def pinnedTagLostByProbe (env : Env) (st : State) : Bool × State :=
  if ¬ st.config.perNode then (false, st)
  else
    match st.nodeTag with
    | none => (false, st)
    | some tag =>
      if st.probeVerifiedTag = some tag then (false, st)
      else
        match probeTagOwned env st tag with
        | (.ok _, st) => (false, { st with probeVerifiedTag := some tag })
        | (.error msg, st) => (!startsWith msg oomText, st)

/-! ## Refusals -/

/-- A text occurs inside another. -/
def containsText (s pattern : Str) : Bool := s.tails.any fun t => pattern.isPrefixOf t

def isSlotMigrated (msg : Str) : Bool := containsText msg "non local key".toList

def isMigrationRefusal (msg : Str) : Bool :=
  startsWith msg "TRYAGAIN ".toList || msg = "TRYAGAIN".toList || startsWith msg "ASK ".toList

/-- Count an event dropped for want of an owned slot; a firehose copy or a marker is no lost event. -/
def countNoSlotDrop (env : Env) (st : State) (why : Purpose) (canonical : Bool) : State :=
  let st := if canonical then st.charge why .eventsLost 1 else st
  countDrop env st why .droppedNoOwnedSlot .noOwnedSlot
    ("tag selection walked all 16384 slots and found none that accepted a local write; event dropped " ++
      "(dropped_no_owned_slot). Selection is retried on the next captured event").toList

/-! ## What probing leaves alone -/

/-- A call of a probe. -/
def isProbe : Occurrence → Bool
  | .call .probe (.xadd _ true none _) _ => true
  | _ => false

/-- A keyspace in which only streams at probe keys have grown. -/
def ProbedKeys (ks ks' : Keyspace) : Prop :=
  ∀ db k, ks' db k = ks db k ∨ ∃ tag entries entries' groups, k = probeKey tag ∧ db = 0 ∧
    ks db k = some (.stream entries groups) ∧ ks' db k = some (.stream (entries ++ entries') groups)

theorem ProbedKeys.refl (ks : Keyspace) : ProbedKeys ks ks := fun _ _ => Or.inl rfl

theorem ProbedKeys.trans {ks₁ ks₂ ks₃ : Keyspace} (h : ProbedKeys ks₁ ks₂) (h' : ProbedKeys ks₂ ks₃) :
    ProbedKeys ks₁ ks₃ := by
  intro db k
  rcases h db k with e | ⟨tag, es, es', gs, hk, hdb, h1, h2⟩
  · rcases h' db k with e' | ⟨tag, es, es', gs, hk, hdb, h1, h2⟩
    · exact Or.inl (e'.trans e)
    · exact Or.inr ⟨tag, es, es', gs, hk, hdb, e ▸ h1, h2⟩
  · rcases h' db k with e' | ⟨tag', fs, fs', gs', _, _, h1', h2'⟩
    · exact Or.inr ⟨tag, es, es', gs, hk, hdb, h1, e'.trans h2⟩
    · rw [h2] at h1'
      injection h1' with h1'
      injection h1' with h1' h3
      subst h1' h3
      exact Or.inr ⟨tag, es, es' ++ fs', gs, hk, hdb, h1, by rw [h2', List.append_assoc]⟩

/-- A probe adds entries, and takes nothing away. -/
theorem ProbedKeys.grows {ks ks' : Keyspace} (h : ProbedKeys ks ks') : Grows ks ks' := by
  intro key
  rcases h 0 key with e | ⟨_, _, _, _, _, _, h1, h2⟩
  · simp [Keyspace.members, Keyspace.groups, e]
  · simp [Keyspace.members, Keyspace.groups, h1, h2]

/-- The two states differ by probes alone. -/
def Probed (st st' : State) : Prop :=
  ∃ nodeTag verified clock ks probes, st' = { st with
      nodeTag := nodeTag
      probeVerifiedTag := verified
      clock := clock
      keyspace := ks
      trace := st.trace ++ probes } ∧
    ProbedKeys st.keyspace ks ∧ ∀ o ∈ probes, isProbe o = true

theorem Probed.refl (st : State) : Probed st st :=
  ⟨st.nodeTag, st.probeVerifiedTag, st.clock, st.keyspace, [], by simp, .refl _, by simp⟩

theorem Probed.trans {st₁ st₂ st₃ : State} (h : Probed st₁ st₂) (h' : Probed st₂ st₃) : Probed st₁ st₃ := by
  obtain ⟨_, _, _, _, os, rfl, hk, ho⟩ := h
  obtain ⟨t, v, c, ks, os', rfl, hk', ho'⟩ := h'
  refine ⟨t, v, c, ks, os ++ os', by simp, hk.trans hk', fun o hm => ?_⟩
  rcases List.mem_append.1 hm with hm | hm
  · exact ho o hm
  · exact ho' o hm

/-- Giving a cached tag another value is no more than a probe does. -/
theorem Probed.tags (st : State) (nodeTag verified : Option Str) :
    Probed st { st with nodeTag := nodeTag, probeVerifiedTag := verified } :=
  ⟨nodeTag, verified, st.clock, st.keyspace, [], by simp, .refl _, by simp⟩

theorem probedKeys_exec {env : Env} {n : Nat} {ks ks' : Keyspace} {tag : Str} {fields : List Bytes}
    (h : exec env n ks (.xadd (probeKey tag) true none fields) = .ok ks') : ProbedKeys ks ks' := by
  intro db k
  by_cases hk : db = 0 ∧ k = probeKey tag
  · obtain ⟨rfl, rfl⟩ := hk
    simp only [exec] at h
    split at h
    · injection h with h
      exact Or.inl (by rw [← h]; rfl)
    · rename_i es gs hs
      injection h with h
      refine Or.inr ⟨tag, es, [⟨env.entryId n, fields⟩], gs, rfl, rfl, hs, ?_⟩
      rw [← h]
      simp
    · cases h
  · exact Or.inl (exec_frame h (not_and_or.1 hk))

theorem probeTagOwned_probed (env : Env) (st : State) (tag : Str) : Probed st (probeTagOwned env st tag).2 := by
  unfold probeTagOwned
  rcases call_cases env st .probe (.xadd (probeKey tag) true none [utf8 ['f'], utf8 ['v']]) (xaddCallOptions st) with
    ⟨ks, he, h⟩ | ⟨msg, h⟩
  · rw [h]
    exact ⟨_, _, _, ks, _, rfl, probedKeys_exec he, by simp [isProbe]⟩
  · rw [h]
    exact ⟨_, _, _, st.keyspace, _, rfl, .refl _, by simp [isProbe]⟩

theorem selectFrom_probed (env : Env) (n slot : Nat) (st : State) : Probed st (selectFrom env n slot st).2 := by
  induction n generalizing slot st with
  | zero => exact .refl st
  | succ n ih =>
    unfold selectFrom
    cases candidate env slot with
    | none => exact ih _ st
    | some tag =>
      have hp := probeTagOwned_probed env st tag
      simp only
      cases hr : probeTagOwned env st tag with
      | mk r st' =>
        rw [hr] at hp
        cases r with
        | ok _ => exact hp
        | error _ => exact hp.trans (ih _ st')

theorem tagSegment_probed (env : Env) (st : State) : Probed st (tagSegment env st).2 := by
  unfold tagSegment
  split
  · exact .refl st
  · cases st.nodeTag with
    | some tag => exact .refl st
    | none =>
      have hs : Probed st (selectOwnedTag env st).2 := selectFrom_probed env slotCount 0 st
      exact hs.trans (.tags _ _ (selectOwnedTag env st).2.probeVerifiedTag)

theorem pinnedTagLostByProbe_probed (env : Env) (st : State) : Probed st (pinnedTagLostByProbe env st).2 := by
  unfold pinnedTagLostByProbe
  split
  · exact .refl st
  · cases st.nodeTag with
    | none => exact .refl st
    | some tag =>
      simp only
      split
      · exact .refl st
      · have hp := probeTagOwned_probed env st tag
        cases hr : probeTagOwned env st tag with
        | mk r st' =>
          rw [hr] at hp
          cases r with
          | ok _ => exact hp.trans (.tags _ st'.nodeTag _)
          | error _ => exact hp

/-- Outside per-node mode the segment is empty and nothing is probed. -/
theorem tagSegment_of_not_perNode (env : Env) {st : State} (h : st.config.perNode = false) :
    tagSegment env st = (some [], st) := by
  simp [tagSegment, h]

end EventStream

import EventStream.Lib.Stride
import EventStream.Slots

/-!
# The selection of a tag

A node walks over all slots with a fixed stride and takes the first whose candidate tag it may write under. Servers
without canonical names get their candidates from a table that a loop fills with the first synthetic tag of each slot.

- `fillTable_eq`: the table has the first candidate of a slot, as far as the loop has come;
- `selectFrom_eq_along`: the selection is a search along the walk of the slots;
- `selectAlong_eq` and `selectAlong_trace`: what the search finds, and the probes it makes;
- `selectOwnedTag_exact`: every set of owned slots is searched completely, with at most one probe for a slot.
-/

namespace EventStream

open Text (Str Bytes utf8 showNat)

/-! ## The table of synthetic tags -/

/-- The slot of a synthetic tag. -/
def syntheticSlot (i : Nat) : Nat := slotOf (utf8 (syntheticTag i))

/-- The first of the first `n` synthetic tags on a slot. -/
def firstOn (n slot : Nat) : Option Nat := (List.range n).find? fun i => syntheticSlot i = slot

theorem firstOn_succ (n slot : Nat) :
    firstOn (n + 1) slot = (firstOn n slot).or (if syntheticSlot n = slot then some n else none) := by
  rw [firstOn, List.range_succ, List.find?_append, ← firstOn]
  congr 1
  by_cases h : syntheticSlot n = slot <;> simp [h]

theorem firstOn_eq_some {n slot i : Nat} :
    firstOn n slot = some i ↔ i < n ∧ syntheticSlot i = slot ∧ ∀ j < i, syntheticSlot j ≠ slot := by
  rw [firstOn, List.find?_range_eq_some, List.mem_range]
  simp only [decide_eq_true_eq, Bool.not_eq_true', decide_eq_false_iff_not]
  tauto

theorem firstOn_mono {n m slot i : Nat} (h : firstOn n slot = some i) (hle : n ≤ m) : firstOn m slot = some i := by
  rw [firstOn_eq_some] at h ⊢
  exact ⟨h.1.trans_le hle, h.2⟩

theorem syntheticSlot_lt (i : Nat) : syntheticSlot i < slotCount := Nat.mod_lt _ (by decide)

/-- The slots that have no tag yet. -/
def openSlots (table : Nat → Option Nat) : Finset Nat := (Finset.range slotCount).filter fun slot => table slot = none

theorem mem_openSlots {table : Nat → Option Nat} {slot : Nat} :
    slot ∈ openSlots table ↔ slot < slotCount ∧ table slot = none := by
  rw [openSlots, Finset.mem_filter, Finset.mem_range]

theorem openSlots_update (table : Nat → Option Nat) (slot i : Nat) :
    openSlots (Function.update table slot (some i)) = (openSlots table).erase slot := by
  ext s
  rw [Finset.mem_erase, mem_openSlots, mem_openSlots]
  by_cases h : s = slot
  · subst h
    simp
  · rw [Function.update_of_ne h]
    simp [h]

section Fill

variable (n : Nat) {i j remaining : Nat} {table : Nat → Option Nat}

theorem fillTable_taken (hrem : remaining ≠ 0) (h : table (syntheticSlot i) = some j) :
    fillTable (n + 1) table remaining i = fillTable n table remaining (i + 1) := by
  have h' : table ((crc16 (utf8 (syntheticTag i))).toNat % slotCount) = some j := h
  simp only [fillTable, if_neg hrem, h']

theorem fillTable_open (hrem : remaining ≠ 0) (h : table (syntheticSlot i) = none) :
    fillTable (n + 1) table remaining i =
      fillTable n (Function.update table (syntheticSlot i) (some i)) (remaining - 1) (i + 1) := by
  have h' : table ((crc16 (utf8 (syntheticTag i))).toNat % slotCount) = none := h
  simp only [fillTable, if_neg hrem, h']
  rfl

end Fill

/-- The loop: what is in the table is the first candidate, and the counter is the number of slots without one. -/
theorem fillTable_eq (n i : Nat) {table : Nat → Option Nat} {remaining : Nat}
    (htable : ∀ slot, table slot = firstOn i slot) (hrem : (openSlots table).card = remaining) {slot : Nat}
    (hslot : slot < slotCount) : fillTable n table remaining i slot = firstOn (i + n) slot := by
  induction n generalizing table remaining i with
  | zero => exact htable slot
  | succ n ih =>
    have hindex : i + (n + 1) = i + 1 + n := by omega
    by_cases hzero : remaining = 0
    · -- Every slot has its tag, so that later candidates change nothing.
      rw [fillTable, if_pos hzero]
      have hnone : openSlots table = ∅ := Finset.card_eq_zero.1 (hrem.trans hzero)
      cases ht : table slot with
      | none => exact absurd (mem_openSlots.2 ⟨hslot, ht⟩) (by simp [hnone])
      | some j =>
        rw [htable] at ht
        exact (firstOn_mono ht (by omega)).symm
    · rw [hindex]
      cases ht : table (syntheticSlot i) with
      | some j =>
        rw [fillTable_taken n hzero ht]
        refine ih (i + 1) (fun s => ?_) hrem
        rw [firstOn_succ, ← htable]
        by_cases hs : syntheticSlot i = s
        · rw [← hs, ht]
          rfl
        · rw [if_neg hs, Option.or_none]
      | none =>
        rw [fillTable_open n hzero ht]
        refine ih (i + 1) (fun s => ?_) ?_
        · rw [firstOn_succ, ← htable]
          by_cases hs : syntheticSlot i = s
          · rw [← hs, Function.update_self, ht, if_pos rfl]
            rfl
          · rw [Function.update_of_ne (Ne.symm hs), if_neg hs, Option.or_none]
        · rw [openSlots_update, Finset.card_erase_of_mem (mem_openSlots.2 ⟨syntheticSlot_lt i, ht⟩), hrem]

/-- The table when the loop has stopped. -/
def fallbackTable (slot : Nat) : Option Nat := fillTable (u32Max + 1) (fun _ => none) slotCount 0 slot

theorem fallbackTable_eq {slot : Nat} (hslot : slot < slotCount) : fallbackTable slot = firstOn (u32Max + 1) slot := by
  have hopen : openSlots (fun _ => none) = Finset.range slotCount := by
    ext s
    simp [mem_openSlots]
  have hcard : (openSlots fun _ => none).card = slotCount := by rw [hopen, Finset.card_range]
  have hstart : ∀ slot, (fun _ => none : Nat → Option Nat) slot = firstOn 0 slot := fun _ => rfl
  have h := fillTable_eq (u32Max + 1) 0 hstart hcard hslot
  rwa [Nat.zero_add] at h

/-- The loop ends: no slot is left without a tag. -/
def FillEnds : Prop := ∀ slot < slotCount, (fallbackTable slot).isSome

/-- The tag of a slot is then the first that falls on it. -/
theorem fallbackTag_least (h : FillEnds) {slot : Nat} (hslot : slot < slotCount) :
    ∃ i, fallbackTagForSlot slot = syntheticTag i ∧ syntheticSlot i = slot ∧ ∀ j < i, syntheticSlot j ≠ slot := by
  obtain ⟨i, hi⟩ := Option.isSome_iff_exists.1 (h slot hslot)
  have hfirst := hi
  rw [fallbackTable_eq hslot, firstOn_eq_some] at hfirst
  refine ⟨i, ?_, hfirst.2⟩
  rw [fallbackTagForSlot, ← fallbackTable, hi, Option.getD_some]

/-! ## The walk over the slots -/

/-- The slots in the order of the selection. -/
def slotWalk : List Nat := Stride.walk slotCount 2609 0 slotCount

theorem nodup_slotWalk : slotWalk.Nodup := Stride.nodup_walk (by decide) (by decide)

theorem mem_slotWalk (slot : Nat) : slot ∈ slotWalk ↔ slot < slotCount := Stride.mem_walk (by decide) (by decide) slot

/-- The selection along a list of slots. -/
def selectAlong (env : Env) : List Nat → State → Option Str × State
  | [], st => (none, st)
  | slot :: slots, st =>
    match candidate env slot with
    | none => selectAlong env slots st
    | some tag =>
      match probeTagOwned env st tag with
      | (.ok _, st) => (some tag, st)
      | (.error _, st) => selectAlong env slots st

theorem selectFrom_eq_along (env : Env) (n slot : Nat) (st : State) :
    selectFrom env n slot st = selectAlong env (Stride.walk slotCount 2609 slot n) st := by
  induction n generalizing slot st with
  | zero => rfl
  | succ n ih =>
    rw [selectFrom, Stride.walk_succ, selectAlong]
    cases candidate env slot with
    | none => exact ih _ st
    | some tag =>
      simp only
      cases hr : probeTagOwned env st tag with
      | mk r st' =>
        cases r with
        | ok _ => rfl
        | error _ => exact ih _ st'

/-! ## What the search finds -/

section Search

variable {env : Env} {st : State} {owned : Set Nat}

/-- A probe of a slot's candidate is accepted exactly on the slots of a set, also after other probes. -/
def ProbesOwned (env : Env) (st : State) (owned : Set Nat) : Prop :=
  ∀ st' slot tag, Probed st st' → slot < slotCount → candidate env slot = some tag →
    ((probeTagOwned env st' tag).1 = .ok () ↔ slot ∈ owned)

theorem ProbesOwned.probed {st' : State} (h : ProbesOwned env st owned) (hp : Probed st st') :
    ProbesOwned env st' owned := by
  intro st'' slot tag hp' hslot hc
  exact h st'' slot tag (hp.trans hp') hslot hc

/-- The search finds the first candidate of an owned slot. -/
theorem selectAlong_eq [DecidablePred (· ∈ owned)] (h : ProbesOwned env st owned) {slots : List Nat}
    (hslots : ∀ slot ∈ slots, slot < slotCount) :
    (selectAlong env slots st).1 = (slots.filter (· ∈ owned)).findSome? (candidate env) := by
  induction slots generalizing st with
  | nil => rfl
  | cons slot slots ih =>
    have hrest : ∀ s ∈ slots, s < slotCount := fun s hs => hslots s (List.mem_cons_of_mem _ hs)
    rw [selectAlong]
    cases hc : candidate env slot with
    | none =>
      by_cases hown : slot ∈ owned
      · rw [List.filter_cons_of_pos (by simpa using hown), List.findSome?_cons, hc]
        exact ih h hrest
      · rw [List.filter_cons_of_neg (by simpa using hown)]
        exact ih h hrest
    | some tag =>
      have hprobe := h st slot tag (.refl st) (hslots slot List.mem_cons_self) hc
      have hstep := probeTagOwned_probed env st tag
      simp only
      cases hr : probeTagOwned env st tag with
      | mk r st' =>
        rw [hr] at hprobe hstep
        cases r with
        | ok _ => rw [List.filter_cons_of_pos (by simpa using hprobe), List.findSome?_cons, hc]
        | error _ =>
          rw [List.filter_cons_of_neg (by simpa using hprobe)]
          exact ih (h.probed hstep) hrest

end Search

/-! ## The probes of the search -/

section Probes

variable {env : Env}

/-- The slot of a probe. -/
def probedSlot : Occurrence → Option Nat
  | .call .probe (.xadd key _ _ _) _ => some (keySlot key)
  | _ => none

theorem probeTagOwned_trace (env : Env) (st : State) (tag : Str) :
    ∃ o, (probeTagOwned env st tag).2.trace = st.trace ++ [o] ∧ isProbe o = true ∧
      probedSlot o = some (keySlot (probeKey tag)) := by
  unfold probeTagOwned
  rcases call_cases env st .probe (.xadd (probeKey tag) true none [utf8 ['f'], utf8 ['v']]) (xaddCallOptions st) with
    ⟨ks, _, h⟩ | ⟨msg, h⟩
  · rw [h]
    exact ⟨_, rfl, rfl, rfl⟩
  · rw [h]
    exact ⟨_, rfl, rfl, rfl⟩

/-- The probes go to slots of the list, in its order. -/
theorem selectAlong_trace {slots : List Nat} (hkeys : ∀ slot ∈ slots, ∀ tag, candidate env slot = some tag →
      keySlot (probeKey tag) = slot) (st : State) :
    ∃ probes, (selectAlong env slots st).2.trace = st.trace ++ probes ∧ (∀ o ∈ probes, isProbe o = true) ∧
      (probes.filterMap probedSlot).Sublist slots := by
  induction slots generalizing st with
  | nil => exact ⟨[], by simp [selectAlong], by simp, List.Sublist.refl _⟩
  | cons slot slots ih =>
    have hrest := ih fun s hs => hkeys s (List.mem_cons_of_mem _ hs)
    rw [selectAlong]
    cases hc : candidate env slot with
    | none =>
      obtain ⟨probes, htrace, hall, hsub⟩ := hrest st
      exact ⟨probes, htrace, hall, hsub.cons _⟩
    | some tag =>
      obtain ⟨o, ho, hprobe, hslot⟩ := probeTagOwned_trace env st tag
      rw [hkeys slot List.mem_cons_self tag hc] at hslot
      simp only
      cases hr : probeTagOwned env st tag with
      | mk r st' =>
        rw [hr] at ho
        cases r with
        | ok _ => exact ⟨[o], ho, by simpa using hprobe, by simp [hslot]⟩
        | error _ =>
          obtain ⟨probes, htrace, hall, hsub⟩ := hrest st'
          refine ⟨o :: probes, ?_, List.forall_mem_cons.2 ⟨hprobe, hall⟩, ?_⟩
          · rw [htrace, ho, List.append_assoc, List.singleton_append]
          · rw [List.filterMap_cons_some hslot]
            exact hsub.cons_cons _

end Probes

/-! ## Candidates -/

/-- The names that can stand between braces. -/
def usable (name : Str) : Bool := !(name = [] ∨ '{' ∈ name ∨ '}' ∈ name)

theorem candidate_of_names {env : Env} {f : Nat → Option Str} (h : env.canonicalName = some f) (slot : Nat) :
    candidate env slot = (f slot).filter usable := by
  rw [candidate, h]
  simp only
  cases f slot with
  | none => rfl
  | some name => by_cases hbad : name = [] ∨ '{' ∈ name ∨ '}' ∈ name <;> simp [Option.filter, usable, hbad]

/-- A candidate does not break the braces around it. -/
theorem candidate_closed {env : Env} {slot : Nat} {tag : Str} (h : candidate env slot = some tag) :
    tag ≠ [] ∧ '}' ∉ tag := by
  cases hn : env.canonicalName with
  | some names =>
    rw [candidate_of_names hn, Option.filter_eq_some_iff] at h
    have husable : ¬ (tag = [] ∨ '{' ∈ tag ∨ '}' ∈ tag) := by simpa [usable] using h.2
    push Not at husable
    exact ⟨husable.1, husable.2.2⟩
  | none =>
    rw [candidate, hn] at h
    injection h with h
    subst h
    refine ⟨by simp [fallbackTagForSlot, syntheticTag], ?_⟩
    rw [fallbackTagForSlot, syntheticTag, List.mem_append]
    rintro (hc | hc)
    · exact absurd hc (by decide)
    · exact absurd (Text.isDigit_of_mem_showNat hc) (by decide)

/-- What is assumed of the candidates: a canonical name falls on its slot, and the loop that fills the table ends. -/
structure Candidates (env : Env) : Prop where
  canonical : env.canonicalName.isSome → ∀ slot < slotCount, ∀ tag, candidate env slot = some tag →
    slotOf (utf8 tag) = slot
  fallback : env.canonicalName = none → FillEnds

/-- Without canonical names every slot has a candidate, the least synthetic tag on it. -/
theorem candidate_fallback {env : Env} (hc : env.canonicalName = none) (hends : FillEnds) {slot : Nat}
    (hslot : slot < slotCount) :
    ∃ i, candidate env slot = some (syntheticTag i) ∧ syntheticSlot i = slot ∧ ∀ j < i, syntheticSlot j ≠ slot := by
  obtain ⟨i, htag, hi⟩ := fallbackTag_least hends hslot
  refine ⟨i, ?_, hi⟩
  rw [candidate, hc, htag]

theorem Candidates.slot_eq {env : Env} (h : Candidates env) {slot : Nat} (hslot : slot < slotCount) {tag : Str}
    (hc : candidate env slot = some tag) : slotOf (utf8 tag) = slot := by
  cases hn : env.canonicalName with
  | some names => exact h.canonical (by rw [hn]; rfl) slot hslot tag hc
  | none =>
    obtain ⟨i, hcand, hi, -⟩ := candidate_fallback hn (h.fallback hn) hslot
    rw [hc] at hcand
    injection hcand with htag
    rw [htag]
    exact hi

theorem Candidates.keySlot_eq {env : Env} (h : Candidates env) {slot : Nat} (hslot : slot < slotCount) {tag : Str}
    (hc : candidate env slot = some tag) : keySlot (probeKey tag) = slot := by
  obtain ⟨hne, hclose⟩ := candidate_closed hc
  rw [keySlot_probeKey hne hclose, h.slot_eq hslot hc]

/-! ## The selection -/

/-- Whatever slots are owned, the selection finds a tag on one of them if one of them has a candidate, and gives up
otherwise; it probes no slot twice, since the walk comes to every slot once. -/
theorem selectOwnedTag_exact {env : Env} {st : State} {owned : Set Nat} (hcand : Candidates env)
    (hprobe : ProbesOwned env st owned) :
    (∀ tag, (selectOwnedTag env st).1 = some tag → slotOf (utf8 tag) ∈ owned) ∧
    ((selectOwnedTag env st).1.isSome ↔ ∃ slot ∈ owned, slot < slotCount ∧ (candidate env slot).isSome) ∧
    (∃ probes, (selectOwnedTag env st).2.trace = st.trace ++ probes ∧ (∀ o ∈ probes, isProbe o = true) ∧
      (probes.filterMap probedSlot).Nodup) ∧
    (slotWalk.Nodup ∧ ∀ slot, slot ∈ slotWalk ↔ slot < slotCount) ∧
    (env.canonicalName = none → ∀ slot < slotCount, ∃ i, candidate env slot = some (syntheticTag i) ∧
      syntheticSlot i = slot ∧ ∀ j < i, syntheticSlot j ≠ slot) := by
  classical
  have hwalk : selectOwnedTag env st = selectAlong env slotWalk st := selectFrom_eq_along env slotCount 0 st
  have hslots : ∀ slot ∈ slotWalk, slot < slotCount := fun slot h => (mem_slotWalk slot).1 h
  have hfound := selectAlong_eq hprobe hslots
  rw [hwalk]
  refine ⟨fun tag htag => ?_, ?_, ?_, ⟨nodup_slotWalk, mem_slotWalk⟩, fun hn slot hslot =>
    candidate_fallback hn (hcand.fallback hn) hslot⟩
  · rw [hfound] at htag
    obtain ⟨slot, hslot, hc⟩ := List.exists_of_findSome?_eq_some htag
    rw [List.mem_filter, decide_eq_true_eq] at hslot
    rw [hcand.slot_eq (hslots slot hslot.1) hc]
    exact hslot.2
  · rw [hfound, List.findSome?_isSome_iff]
    simp only [List.mem_filter, decide_eq_true_eq, mem_slotWalk]
    constructor
    · rintro ⟨slot, ⟨hslot, hown⟩, hc⟩
      exact ⟨slot, hown, hslot, hc⟩
    · rintro ⟨slot, hown, hslot, hc⟩
      exact ⟨slot, ⟨hslot, hown⟩, hc⟩
  · obtain ⟨probes, htrace, hall, hsub⟩ :=
      selectAlong_trace (fun slot hs tag hc => hcand.keySlot_eq (hslots slot hs) hc) st
    exact ⟨probes, htrace, hall, hsub.nodup nodup_slotWalk⟩

/-- A cluster in which the node owns the slot of one name, and no other slot has a name. -/
def oneName : Env :=
  { Env.calm with
    refuse := fun _ cmd _ =>
      match cmd with
      | .xadd key _ _ _ => if keySlot key = 15495 then none else some "ERR non local key".toList
      | _ => none
    canonicalName := some fun slot => if slot = 15495 then some ['a'] else none }

theorem oneName_candidate {slot : Nat} {tag : Str} (h : candidate oneName slot = some tag) :
    slot = 15495 ∧ tag = ['a'] := by
  rw [candidate_of_names (f := fun slot => if slot = 15495 then some ['a'] else none) rfl,
    Option.filter_eq_some_iff] at h
  simpa [eq_comm] using h.1

theorem oneName_probe {st : State} (hp : Probed (.fresh .defaults .empty) st) :
    (probeTagOwned oneName st ['a']).1 = .ok () := by
  have hnone : st.keyspace 0 (probeKey ['a']) = none := by
    obtain ⟨_, _, _, ks, _, rfl, hkeys, -⟩ := hp
    rcases hkeys 0 (probeKey ['a']) with h | ⟨_, _, _, _, _, _, h, _⟩
    · exact h
    · cases h
  have hslot : keySlot (probeKey ['a']) = 15495 := by decide +kernel
  have hrefuse : oneName.refuse st.clock (.xadd (probeKey ['a']) true none [utf8 ['f'], utf8 ['v']])
      (xaddCallOptions st) = none := by
    simp only [oneName]
    rw [if_pos hslot]
  simp only [probeTagOwned, call, hrefuse, exec, hnone]

theorem selectOwnedTag_exact_oneName :
    ∃ tag, (selectOwnedTag oneName (.fresh .defaults .empty)).1 = some tag ∧
      slotOf (utf8 tag) ∈ ({15495} : Set Nat) := by
  have hcand : Candidates oneName := by
    refine ⟨fun _ slot _ tag hc => ?_, fun hn => by cases hn⟩
    obtain ⟨rfl, rfl⟩ := oneName_candidate hc
    decide +kernel
  have hprobe : ProbesOwned oneName (.fresh .defaults .empty) {15495} := by
    intro st' slot tag hp _ hc
    obtain ⟨rfl, rfl⟩ := oneName_candidate hc
    simp [oneName_probe hp]
  obtain ⟨hsound, hcomplete, -⟩ := selectOwnedTag_exact hcand hprobe
  obtain ⟨tag, htag⟩ := Option.isSome_iff_exists.1 (hcomplete.2 ⟨15495, rfl, by decide, by decide⟩)
  exact ⟨tag, htag, hsound tag htag⟩

end EventStream

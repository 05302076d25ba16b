import EventStream.Encode

/-!
# The bounded queue

The FIFO between the notification callback and the worker, and the envelopes the worker prepares from it before it owns
the server's lock.

- `envelopeGroups_flatten`: the groups of a snapshot concatenate to the events it selected;
- `envelopeGroups_compatible`: every group is non-empty, and its events agree with its first on the destination, the
  trim policy and the cap;
- `sliceGroups_prepared`: cutting the snapshot by the lengths of its groups gives the groups back.
-/

namespace EventStream

open Text (Str Bytes)

/-- A queued event with the number it was dispatched under. -/
structure Queued where
  id : Nat
  event : PendingEvent
  deriving DecidableEq

/-- A group of an envelope snapshot: how many events, and their encoded fields. -/
structure PreparedGroup where
  len : Nat
  fields : List Bytes
  deriving DecidableEq

/-- An encoded view of the front of the queue, which stays queued. The events keep their numbers as a ghost. -/
structure EnvelopeSnapshot where
  firstId : Nat
  lastId : Nat
  count : Nat
  events : List Queued
  groups : List PreparedGroup
  deriving DecidableEq

/-! ## Queue operations -/

/-- Push at the back, unless the queue is full or its lock stays contended. -/
def tryPush (capacity : Nat) (queue : List Queued) (contended : Bool) (q : Queued) : Option (List Queued) :=
  if contended then none
  else if capacity ≤ queue.length then none
  else some (queue ++ [q])

/-- What a drain takes and what it leaves. -/
def drain (queue : List Queued) (limit : Nat) : List Queued × List Queued :=
  (queue.take (min queue.length limit), queue.drop (min queue.length limit))

def drainAll (queue : List Queued) : List Queued × List Queued := (queue, [])

/-- Drain only the events dispatched before a fallback event. -/
def drainBefore (queue : List Queued) (id : Nat) : List Queued × List Queued :=
  (queue.takeWhile fun q => q.id < id, queue.dropWhile fun q => q.id < id)

/-! ## Envelopes -/

/-- Events that may share an envelope. -/
def envelopeCompatible (left right : PendingEvent) : Bool :=
  left.pfx = right.pfx && left.suffix = right.suffix && left.dataRetention = right.dataRetention &&
    left.maxStreams = right.maxStreams

/-- The grouping loop: a group goes on as long as its events are compatible with its first. -/
def groupLoop (first : Queued) (group : List Queued) : List Queued → List (List Queued)
  | [] => [group]
  | q :: rest =>
    if envelopeCompatible first.event q.event then groupLoop first (group ++ [q]) rest
    else group :: groupLoop q [q] rest

def envelopeGroups : List Queued → List (List Queued)
  | [] => []
  | q :: rest => groupLoop q [q] rest

def prepareGroup (group : List Queued) : PreparedGroup := ⟨group.length, encodeBatchFields (group.map Queued.event)⟩

/-- Encode the front of the queue while leaving it queued. -/
def prepareEnvelopes (queue : List Queued) (limit : Nat) : Option EnvelopeSnapshot :=
  let count := min queue.length limit
  if count = 0 then none
  else
    match queue.head?, queue[count - 1]? with
    | some first, some last =>
      some ⟨first.id, last.id, count, queue.take count, (envelopeGroups (queue.take count)).map prepareGroup⟩
    | _, _ => none

/-- Take the snapshot's events off the queue, if they are still its front. -/
def drainSnapshot (queue : List Queued) (snapshot : EnvelopeSnapshot) : Option (List Queued) :=
  if queue.head?.map Queued.id = some snapshot.firstId ∧
      queue[snapshot.count - 1]?.map Queued.id = some snapshot.lastId then
    some (queue.drop snapshot.count)
  else none

/-- The events of a snapshot cut by the lengths of its groups. -/
def sliceGroups : List PreparedGroup → List Queued → List (List Queued × List Bytes)
  | [], _ => []
  | group :: groups, events => (events.take group.len, group.fields) :: sliceGroups groups (events.drop group.len)

/-! ## Grouping -/

theorem groupLoop_flatten (first : Queued) (group rest : List Queued) :
    (groupLoop first group rest).flatten = group ++ rest := by
  induction rest generalizing first group with
  | nil => simp [groupLoop]
  | cons q rest ih =>
    unfold groupLoop
    split
    · rw [ih, List.append_assoc, List.singleton_append]
    · rw [List.flatten_cons, ih, List.singleton_append]

theorem envelopeGroups_flatten (events : List Queued) : (envelopeGroups events).flatten = events := by
  cases events with
  | nil => rfl
  | cons q rest => exact groupLoop_flatten q [q] rest

/-- A group with its first event in front and compatible with it. -/
def Compatible (group : List Queued) : Prop :=
  ∃ first rest, group = first :: rest ∧ ∀ q ∈ group, envelopeCompatible first.event q.event = true

theorem envelopeCompatible_iff {left right : PendingEvent} : envelopeCompatible left right = true ↔
    left.pfx = right.pfx ∧ left.suffix = right.suffix ∧ left.dataRetention = right.dataRetention ∧
      left.maxStreams = right.maxStreams := by
  simp [envelopeCompatible, and_assoc]

theorem groupLoop_compatible (first : Queued) {group rest : List Queued} (hhead : ∃ tail, group = first :: tail)
    (hgroup : ∀ q ∈ group, envelopeCompatible first.event q.event = true) :
    ∀ g ∈ groupLoop first group rest, Compatible g := by
  have hdone : Compatible group := by
    obtain ⟨tail, e⟩ := hhead
    exact ⟨first, tail, e, hgroup⟩
  induction rest generalizing first group with
  | nil =>
    intro g hg
    rwa [List.mem_singleton.1 hg]
  | cons q rest ih =>
    unfold groupLoop
    split
    · rename_i hc
      obtain ⟨tail, rfl⟩ := hhead
      refine ih first ⟨tail ++ [q], rfl⟩ (fun x hx => ?_) ?_
      · rcases List.mem_append.1 hx with hx | hx
        · exact hgroup x hx
        · rwa [List.mem_singleton.1 hx]
      · obtain ⟨first', rest', e, hall⟩ := hdone
        injection e with e₁ e₂
        subst e₁ e₂
        refine ⟨first, tail ++ [q], rfl, fun x hx => ?_⟩
        rcases List.mem_append.1 hx with hx | hx
        · exact hall x hx
        · rwa [List.mem_singleton.1 hx]
    · intro g hg
      have hq : ∀ x ∈ [q], envelopeCompatible q.event x.event = true := by
        intro x hx
        rw [List.mem_singleton.1 hx]
        exact envelopeCompatible_iff.2 ⟨rfl, rfl, rfl, rfl⟩
      rcases List.mem_cons.1 hg with rfl | hg
      · exact hdone
      · exact ih q ⟨[], rfl⟩ hq ⟨q, [], rfl, hq⟩ g hg

theorem envelopeGroups_compatible (events : List Queued) : ∀ g ∈ envelopeGroups events, Compatible g := by
  cases events with
  | nil => simp [envelopeGroups]
  | cons q rest =>
    refine groupLoop_compatible q ⟨[], rfl⟩ fun x hx => ?_
    rw [List.mem_singleton.1 hx]
    exact envelopeCompatible_iff.2 ⟨rfl, rfl, rfl, rfl⟩

theorem sliceGroups_prepared (groups : List (List Queued)) :
    sliceGroups (groups.map prepareGroup) groups.flatten =
      groups.map fun g => (g, encodeBatchFields (g.map Queued.event)) := by
  induction groups with
  | nil => rfl
  | cons g groups ih =>
    simp only [List.map_cons, sliceGroups, List.flatten_cons, prepareGroup, List.take_left, List.drop_left]
    rw [ih]

/-! ## Snapshots -/

/-- The snapshot of a list of events. -/
def EnvelopeSnapshot.Of (events : List Queued) (snapshot : EnvelopeSnapshot) : Prop :=
  ∃ first rest, events = first :: rest ∧ snapshot.firstId = first.id ∧ snapshot.count = events.length ∧
    snapshot.events = events ∧ snapshot.groups = (envelopeGroups events).map prepareGroup

/-- A snapshot is that of a front that is not empty. -/
theorem prepareEnvelopes_eq_some {queue : List Queued} {limit : Nat} {snapshot : EnvelopeSnapshot}
    (h : prepareEnvelopes queue limit = some snapshot) :
    min queue.length limit ≠ 0 ∧ ∃ first last, queue.head? = some first ∧
      queue[min queue.length limit - 1]? = some last ∧
      snapshot = ⟨first.id, last.id, min queue.length limit, queue.take (min queue.length limit),
        (envelopeGroups (queue.take (min queue.length limit))).map prepareGroup⟩ := by
  unfold prepareEnvelopes at h
  simp only at h
  split at h
  · cases h
  · rename_i hne
    split at h
    · rename_i first last hf hl
      injection h with h
      exact ⟨hne, first, last, hf, hl, h.symm⟩
    · cases h

theorem prepareEnvelopes_of {queue : List Queued} {limit : Nat} {snapshot : EnvelopeSnapshot}
    (h : prepareEnvelopes queue limit = some snapshot) : snapshot.Of (queue.take limit) := by
  have hmin : queue.take (min queue.length limit) = queue.take limit := by
    rw [List.take_eq_take_iff]
    omega
  obtain ⟨hne, first, last, hf, -, h⟩ := prepareEnvelopes_eq_some h
  obtain ⟨rest, rfl⟩ := List.head?_eq_some_iff.1 hf
  rw [hmin] at h
  obtain ⟨limit, rfl⟩ : ∃ k, limit = k + 1 := Nat.exists_eq_succ_of_ne_zero (by
    rintro rfl
    simp at hne)
  refine ⟨first, rest.take limit, rfl, ?_, ?_, ?_, ?_⟩ <;> rw [h]
  simp only [List.length_take]
  omega

/-- The last id of a snapshot is that of its last event. -/
theorem prepareEnvelopes_last {queue : List Queued} {limit : Nat} {snapshot : EnvelopeSnapshot}
    (h : prepareEnvelopes queue limit = some snapshot) :
    snapshot.events.getLast?.map Queued.id = some snapshot.lastId := by
  obtain ⟨hne, first, last, -, hl, rfl⟩ := prepareEnvelopes_eq_some h
  simp only
  rw [List.getLast?_take, if_neg hne, hl]
  rfl

end EventStream

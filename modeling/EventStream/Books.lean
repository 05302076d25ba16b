import EventStream.WellFormed

/-!
# The books of a node

What the history of a node accounts for.

- `Books`: the calls and the charges of the history are the trace and the ledger; each event whose job could not be
  registered is counted as such, and so is each marker; each attempt at a marker is counted once (`Done.Settled`);
- `writeControlEntry_attempted`: the attempt itself;
- `step_books`, `Reach.books`: every step keeps the books.
-/

namespace EventStream

open Text (Str Bytes utf8)

/-! ## Charges for one purpose -/

/-- What was charged to a counter for one purpose. -/
def chargedFor (ledger : List Charge) (why : Purpose) (c : Counter) : Nat :=
  charged (ledger.filter fun x => x.why = why) c

theorem chargedFor_append (l l' : List Charge) (why : Purpose) (c : Counter) :
    chargedFor (l ++ l') why c = chargedFor l why c + chargedFor l' why c := by
  rw [chargedFor, List.filter_append, charged_append]
  rfl

/-- Charges for failed deferrals are found among the deferrals. -/
theorem chargedFor_deferrals (l : List Charge) {why : Purpose} {c : Counter}
    (h : ∀ n, isDeferral ⟨why, c, n⟩ = true) : chargedFor (l.filter isDeferral) why c = chargedFor l why c := by
  induction l with
  | nil => rfl
  | cons x l ih =>
    rw [← List.singleton_append, List.filter_append, chargedFor_append, chargedFor_append, ih]
    congr 1
    cases hx : isDeferral x with
    | true => rw [List.filter_singleton, hx]; rfl
    | false =>
      rw [List.filter_singleton, hx]
      -- a charge of this purpose and counter would be a deferral
      have hne : ¬ (x.why = why ∧ x.counter = c) := by
        rintro ⟨rfl, rfl⟩
        rw [h x.amount] at hx
        cases hx
      simp only [chargedFor, charged, List.filter_singleton]
      by_cases hw : x.why = why
      · have hc : x.counter ≠ c := fun hc => hne ⟨hw, hc⟩
        simp [hw, hc]
      · simp [hw]

/-! ## One attempt at a marker -/

/-- The counters that count a marker as dropped when it is attempted. -/
def markerDrops : List Counter := [.droppedXaddError, .droppedOom, .droppedNoOwnedSlot]

/-- The attempt at a control entry wrote the entry and counted it, or wrote nothing and counted a drop. -/
def Attempted (action : Action) (calls : List Occurrence) (charges : List Charge) : Prop :=
  (charges = [⟨.marker, .controlMarkers, 1⟩] ∧ ∃ control trim fields,
      calls = [.call .marker (.xadd control false trim fields) true] ∧
        fields.take 2 = [lit "action", utf8 action.text]) ∨
    (∃ c ∈ markerDrops, charges = [⟨.marker, c, 1⟩]) ∧ ∀ why cmd, Occurrence.call why cmd true ∉ calls

/-- What a step adds to the trace and to the ledger. -/
def Adds (st st' : State) (calls : List Occurrence) (charges : List Charge) : Prop :=
  st'.trace = st.trace ++ calls ∧ st'.counters.ledger = st.counters.ledger ++ charges

theorem recoverStream_books (st : State) (stream : Str) :
    (recoverStream st stream).counters = st.counters ∧ (recoverStream st stream).trace = st.trace := by
  unfold recoverStream
  split
  · exact ⟨rfl, rfl⟩
  · split <;> exact ⟨rfl, rfl⟩

theorem writeControlEntry_attempted (env : Env) (st : State) (control : Str) (action : Action) (retention : Retention)
    (extra : List (Str × Str)) (kind : Str) : ∃ calls charges,
      Adds st (writeControlEntry env st .marker control action retention extra .controlMarkers kind) calls charges ∧
        Attempted action calls charges := by
  unfold writeControlEntry
  cases hsel : selectDb env st with
  | mk sel st₁ =>
    have hst : st₁.trace = st.trace ∧ st₁.counters = st.counters := by
      rw [← (Prod.mk.inj hsel).2]
      exact ⟨rfl, rfl⟩
    cases sel with
    | false =>
      refine ⟨[], [⟨.marker, .droppedXaddError, 1⟩], ⟨?_, ?_⟩, Or.inr ⟨⟨_, by simp [markerDrops], rfl⟩, by simp⟩⟩
      · rw [List.append_nil, ← hst.1]
        rfl
      · rw [← hst.2]
        rfl
    | true =>
      have hfields : (controlFields st₁ action extra).take 2 = [lit "action", utf8 action.text] := rfl
      simp only
      generalize controlFields st₁ action extra = fields at hfields ⊢
      generalize trimOf env st₁ retention = trim
      rcases call_cases env st₁ .marker (.xadd (utf8 control) false trim fields) (xaddCallOptions st₁) with
        ⟨ks, -, hcall⟩ | ⟨msg, hcall⟩
      · rw [hcall]
        refine ⟨[.call .marker (.xadd (utf8 control) false trim fields) true], [⟨.marker, .controlMarkers, 1⟩],
          ⟨?_, ?_⟩, Or.inl ⟨rfl, _, _, _, rfl, hfields⟩⟩
        · rw [(recoverStream_books _ _).2, ← hst.1]
          rfl
        · rw [(recoverStream_books _ _).1, ← hst.2]
          rfl
      · rw [hcall]
        have hno : ∀ why cmd, Occurrence.call why cmd true ∉
            [Occurrence.call .marker (.xadd (utf8 control) false trim fields) false] := by
          intro why cmd hmem
          cases List.mem_singleton.1 hmem
        simp only
        split
        · refine ⟨_, [⟨.marker, .droppedOom, 1⟩], ⟨?_, ?_⟩, Or.inr ⟨⟨_, by simp [markerDrops], rfl⟩, hno⟩⟩
          · rw [← hst.1]
            rfl
          · rw [← hst.2]
            rfl
        · refine ⟨_, [⟨.marker, .droppedXaddError, 1⟩], ⟨?_, ?_⟩, Or.inr ⟨⟨_, by simp [markerDrops], rfl⟩, hno⟩⟩
          · rw [← hst.1]
            rfl
          · rw [← hst.2]
            rfl

/-- Every marker that a piece of the history settles was attempted once there. -/
def Done.Settled (d : Done) : Prop :=
  ∀ m, Lanes.Item.mark m ∈ d.items → Attempted m.marker.action d.calls d.charges

theorem countNoSlotDrop_attempted (env : Env) (st : State) (action : Action) : ∃ calls charges,
    Adds st (countNoSlotDrop env st .marker false) calls charges ∧ Attempted action calls charges :=
  ⟨[], [⟨.marker, .droppedNoOwnedSlot, 1⟩], ⟨(List.append_nil _).symm, rfl⟩,
    Or.inr ⟨⟨_, by simp [markerDrops], rfl⟩, by simp⟩⟩

namespace Node

/-! ## The books -/

structure Books (n : Node) : Prop where
  trace : n.st.trace = n.history.flatMap Done.calls
  ledger : n.st.counters.ledger = n.history.flatMap Done.charges
  lost : ∀ c ∈ [Counter.eventsLost, .droppedDeferError], chargedFor n.st.deferrals .dispatch c = n.lost.length
  dropped : chargedFor n.st.deferrals .marker .droppedDeferError = n.unregistered.length
  settled : ∀ d ∈ n.history, d.Settled

section Books

variable {setup : Setup} {env : Env} {n n' : Node}

/-- The books depend on the state, the history and the two lists of what was given up. -/
theorem Books.of_eq (hb : Books n) (hst : n'.st = n.st) (hh : n'.history = n.history) (hl : n'.lost = n.lost)
    (hu : n'.unregistered = n.unregistered) : Books n' := by
  obtain ⟨ht, hled, hlost, hdrop, hset⟩ := hb
  refine ⟨?_, ?_, ?_, ?_, ?_⟩
  · rw [hst, hh]
    exact ht
  · rw [hst, hh]
    exact hled
  · rw [hst, hl]
    exact hlost
  · rw [hst, hu]
    exact hdrop
  · rw [hh]
    exact hset

/-- A note keeps the trace, the ledger and the attempts; what it does to the deferrals is said separately. -/
theorem note_history (hb : Books n) (task : Option Task) {st : State}
    (hled : n.st.counters.ledger <+: st.counters.ledger) (ht : n.st.trace <+: st.trace)
    (hset : ∀ m, Lanes.Item.mark m ∈ task.elim [] Task.items → ∃ calls charges, Adds n.st st calls charges ∧
      Attempted m.marker.action calls charges) :
    (n.note task st).st.trace = (n.note task st).history.flatMap Done.calls ∧
      (n.note task st).st.counters.ledger = (n.note task st).history.flatMap Done.charges ∧
      ∀ d ∈ (n.note task st).history, d.Settled := by
  refine ⟨?_, ?_, fun d hd => ?_⟩
  · simp only [note, List.flatMap_append, List.flatMap_singleton, ← hb.trace]
    exact (List.prefix_iff_eq_append.1 ht).symm
  · simp only [note, List.flatMap_append, List.flatMap_singleton, ← hb.ledger]
    exact (List.prefix_iff_eq_append.1 hled).symm
  · rcases List.mem_append.1 hd with hd | hd
    · exact hb.settled d hd
    · intro m hm
      rw [List.mem_singleton.1 hd] at hm ⊢
      obtain ⟨calls, charges, ⟨htr, hle⟩, hatt⟩ := hset m hm
      simp only [htr, hle, List.drop_left]
      exact hatt

theorem note_books (hb : Books n) {st : State} (ho : Onward n.st st) : Books (n.note none st) := by
  obtain ⟨ht, hled, hset⟩ := note_history hb none ho.ledger ho.longer (by simp)
  refine ⟨ht, hled, ?_, ?_, hset⟩
  · change ∀ c ∈ _, chargedFor st.deferrals .dispatch c = n.lost.length
    rw [ho.deferrals]
    exact hb.lost
  · change chargedFor st.deferrals .marker .droppedDeferError = n.unregistered.length
    rw [ho.deferrals]
    exact hb.dropped

theorem process_books (hb : Books n) (task : Task) : Books (n.note (some task) (task.run env n.st)) := by
  have hf := task.run_frame env n.st
  obtain ⟨ht, hled, hset⟩ := note_history hb (some task) hf.ledger hf.longer (by
    intro m hm
    cases task with
    | event q => simp [Task.items] at hm
    | envelope qs fields => simp [Task.items] at hm
    | marker control retention m' =>
      obtain rfl : m = m' := by simpa [Task.items] using hm
      exact writeControlEntry_attempted env n.st control m.marker.action retention _ _
    | noSlot m' => exact countNoSlotDrop_attempted env n.st m.marker.action
    | checkpoint control retention => simp [Task.items] at hm)
  refine ⟨ht, hled, ?_, ?_, hset⟩
  · change ∀ c ∈ _, chargedFor (task.run env n.st).deferrals .dispatch c = n.lost.length
    rw [hf.deferrals]
    exact hb.lost
  · change chargedFor (task.run env n.st).deferrals .marker .droppedDeferError = n.unregistered.length
    rw [hf.deferrals]
    exact hb.dropped

/-- The two charges of an event whose job could not be registered. -/
theorem countDeferFailure_deferrals (env : Env) (st : State) : (countDeferFailure env st).deferrals =
    st.deferrals ++ [⟨.dispatch, .eventsLost, 1⟩, ⟨.dispatch, .droppedDeferError, 1⟩] := by
  unfold countDeferFailure countEventLost countEventsLost
  rw [countDrop_deferrals env _ _ _ rfl, charge_deferrals _ rfl, List.append_assoc]
  rfl

theorem lose_books (hb : Books n) (q : Queued) :
    Books { n.note none (countDeferFailure env n.st) with lost := n.lost ++ [q] } := by
  have hled : n.st.counters.ledger <+: (countDeferFailure env n.st).counters.ledger :=
    (List.prefix_append _ _).trans (List.prefix_append _ _)
  obtain ⟨ht, hl, hset⟩ := note_history hb none hled (List.prefix_refl _) (by simp)
  refine ⟨ht, hl, fun c hc => ?_, ?_, hset⟩
  · change chargedFor (countDeferFailure env n.st).deferrals .dispatch c = (n.lost ++ [q]).length
    rw [countDeferFailure_deferrals, chargedFor_append, hb.lost c hc, List.length_append]
    congr 1
    simp only [List.mem_cons, List.not_mem_nil, or_false] at hc
    rcases hc with rfl | rfl <;> rfl
  · change chargedFor (countDeferFailure env n.st).deferrals .marker .droppedDeferError = n.unregistered.length
    rw [countDeferFailure_deferrals, chargedFor_append, hb.dropped]
    rfl

theorem chargedFor_markerDeferrals {count : Nat} (h : 0 < count) :
    chargedFor (markerDeferrals count) .marker .droppedDeferError = count ∧
      ∀ c, chargedFor (markerDeferrals count) .dispatch c = 0 := by
  unfold markerDeferrals
  split
  · refine ⟨?_, fun c => rfl⟩
    change 1 + (count - 1 + 0) = count
    omega
  · refine ⟨?_, fun c => rfl⟩
    change 1 + 0 = count
    omega

theorem takeMarkers_books (env : Env) (hw : Wf setup n) (hb : Books n) (registered : Bool) :
    Books (n.takeMarkers env registered) := by
  obtain ⟨-, -, -, -, hcases⟩ := flushMarkers_cases env n.st registered hw.dirty
  unfold takeMarkers
  simp only
  rcases hcases with ⟨hnone, hp, -, -, ho⟩ | ⟨⟨hne, -⟩, hp, hnone, hled, ht, hdef⟩ | ⟨-, -, ho, hsome⟩
  · refine (note_books hb ho).of_eq rfl rfl rfl ?_
    simp only [hnone, hp, Option.isNone_none, true_and]
    change n.unregistered ++ _ = n.unregistered
    split
    · rename_i h
      rw [h, List.append_nil]
    · rw [List.append_nil]
  · obtain ⟨htr, hl, hset⟩ := note_history hb none hled (by rw [ht]) (by simp)
    have hpos : 0 < n.st.pendingMarkers.length := List.length_pos_iff.2 hne
    refine ⟨htr, hl, fun c hc => ?_, ?_, hset⟩
    · change chargedFor (flushMarkers env n.st registered).1.deferrals .dispatch c = n.lost.length
      rw [hdef, chargedFor_append, (chargedFor_markerDeferrals hpos).2 c, hb.lost c hc, Nat.add_zero]
    · change chargedFor (flushMarkers env n.st registered).1.deferrals .marker .droppedDeferError = _
      rw [hdef, chargedFor_append, (chargedFor_markerDeferrals hpos).1, hb.dropped]
      simp [hnone, hp]
  · refine (note_books hb ho).of_eq rfl rfl rfl ?_
    simp only [hsome, Option.isNone_some, Bool.false_eq_true, false_and, if_false]
    exact List.append_nil _

theorem dispatchPendingEvent_books (hb : Books n) (event : PendingEvent) (contended registered : Bool) :
    Books (dispatchPendingEvent setup env n event contended registered) := by
  have hb' : ∀ dispatched nextId, Books { n with dispatched := dispatched, nextId := nextId } :=
    fun _ _ => hb.of_eq rfl rfl rfl rfl
  have hdefer : ∀ {m : Node} (q : Queued), Books m → Books (deferPendingEvent env m q registered) := by
    intro m q hm
    unfold deferPendingEvent
    split
    · exact hm.of_eq rfl rfl rfl rfl
    · exact lose_books hm q
  have horder : ∀ {m : Node} (q : Queued), Books m → Books (deferOrderedFallback env m q registered) := by
    intro m q hm
    unfold deferOrderedFallback
    split
    · exact hm.of_eq rfl rfl rfl rfl
    · exact lose_books hm q
  unfold dispatchPendingEvent
  simp only
  split
  · exact hdefer _ (hb' _ n.nextId)
  · split
    · exact hdefer _ (note_books (hb' _ n.nextId) (charge_unmarked _ _ _ rfl).toOnward)
    · split
      · rename_i queue _
        have hq : Unmarked n.st (countEnqueued n.st queue.length) :=
          (charge_unmarked n.st .dispatch (c := .asyncEnqueued) 1 rfl).trans (.of_rfl rfl)
        exact (note_books (hb' _ (n.nextId + 1)) hq.toOnward).of_eq rfl rfl rfl rfl
      · exact horder _ (note_books (hb' _ _) (charge_unmarked _ _ _ rfl).toOnward)

theorem onKeyspaceEvent_books (hw : Wf setup n) (hb : Books n) (cls : NotifyEvent) (event : Str) (key : Bytes)
    (db : Int32) (contended registered markersRegistered : Bool) :
    Books (n.onKeyspaceEvent setup env cls event key db contended registered markersRegistered) := by
  unfold onKeyspaceEvent
  have hb₁ := takeMarkers_books env hw hb markersRegistered
  generalize n.takeMarkers env markersRegistered = n₁ at hb₁
  have hcases := selectEvent_cases n₁.st cls event key db
  simp only at hcases ⊢
  generalize selectEvent n₁.st cls event key db = r at hcases
  obtain ⟨st, e⟩ := r
  rcases hcases with ⟨rfl, hf⟩ | ⟨rfl, rfl, -, -⟩
  · exact note_books hb₁ hf.unmarked.toOnward
  · have ho : Onward n₁.st { n₁.st with selected := n₁.st.selected + 1 } := .of_eq rfl (List.prefix_refl _)
    exact dispatchPendingEvent_books (note_books hb₁ ho) _ _ _

theorem loaded_books (h : Loaded setup env n) : Books n := by
  obtain ⟨config, host, ks, generation, master, loading, mode, -, rfl⟩ := h
  obtain ⟨_, _, _, hst⟩ := loadedState_eq env config host.cluster ks generation master loading
  rw [hst]
  exact ⟨rfl, rfl, fun _ _ => rfl, rfl, fun d hd => by cases hd⟩

/-- Every step keeps the books. -/
theorem step_books {act : Act} (hw : Wf setup n) (hb : Books n) (h : step setup env n act = some n') : Books n' := by
  have hexit : ∀ {m : Node}, Books m → Books m.exitWorker := by
    intro m hm
    have ho : Onward m.st { m.st with asyncQueueDepth := m.st.asyncQueueDepth - m.queue.length } :=
      .of_eq rfl (List.prefix_refl _)
    exact (note_books hm ho).of_eq rfl rfl rfl rfl
  cases step_fires h with
  | acquire _ _ | release _ _ | started _ | wake _ _ _ | prepare _ | unlock _ _ _ | stopSync _ _ _ | requestStop _ _ _
  | finish _ _ => exact hb.of_eq rfl rfl rfl rfl
  | notify _ => exact onKeyspaceEvent_books hw hb _ _ _ _ _ _ _
  | command _ hop => exact note_books hb ((command_marks env n.st hop).elim Unmarked.toOnward Marks.toOnward)
  | setEnabled _ => exact note_books hb ((enabledChanged_marks n.st _).elim Unmarked.toOnward Marks.toOnward)
  | configure _ _ => exact note_books hb (.of_eq rfl (List.prefix_refl _))
  | cron _ _ =>
    rcases cron_ticked env n with e | ⟨st, hu, e⟩ | ⟨-, st, control, retention, -, -, -, ho, e⟩
    · rw [e]
      exact hb
    · rw [e]
      exact note_books hb hu.toOnward
    · rw [e]
      exact (note_books hb ho).of_eq rfl rfl rfl rfl
  | @runJob job jobs _ _ _ _ =>
    have hb' : Books { n with jobs := jobs } := hb.of_eq rfl rfl rfl rfl
    cases job with
    | event q => exact hb.of_eq rfl rfl rfl rfl
    | fallback q => exact (note_books hb' (countDrain_unmarked _ _).toOnward).of_eq rfl rfl rfl rfl
    | markers job => exact (note_books hb' (tagSegment_unmarked env _).toOnward).of_eq rfl rfl rfl rfl
  | process _ => exact (process_books hb _).of_eq rfl rfl rfl rfl
  | notStarted _ => exact hexit (note_books hb (charge_unmarked _ _ _ rfl).toOnward)
  | @lock snapshot _ _ =>
    cases snapshot with
    | none => exact (note_books hb (countDrain_unmarked _ _).toOnward).of_eq rfl rfl rfl rfl
    | some s =>
      simp only [lockWorker]
      split
      · exact (note_books hb (countDrain_unmarked _ _).toOnward).of_eq rfl rfl rfl rfl
      · exact hb.of_eq rfl rfl rfl rfl
  | stopWaiting _ _ | stopSpinning _ _ => exact hexit hb
  | join _ _ =>
    have ho : Onward n.st { n.st with asyncQueueDepth := 0 } := .of_eq rfl (List.prefix_refl _)
    exact (note_books hb ho).of_eq rfl rfl rfl rfl

theorem Reach.books {allowed : Node → Act → Prop} (h : Reach setup env allowed n) : Books n :=
  Machine.Reach.invariant (fun _ hl => loaded_books hl) (fun _ _ _ hr _ hs hb => step_books (Reach.wf hr) hb hs) h

end Books

end Node

end EventStream

import EventStream.Lib.Ascending
import EventStream.Lib.Machine

/-!
# Two lanes to one writer

Numbered events reach a writer by two lanes: a queue that a worker takes batches from, and jobs that the producer runs
itself, first in first out. Marks are recorded between events and travel by jobs only. An ordered job first takes what
is queued before its own event. The payloads are arbitrary: an event has a key, a mark an ordinal and a point, which is
the number of events dispatched before it.

- `Move`: what can happen, as a labelled relation;
- `Numbered`: keys, ordinals and points are what they stand for, and no mark is lost or doubled (`Move.numbered`);
- `pool`: no event is lost or doubled either (`Move.pooled`);
- `InOrder`: with a queue, events are handed over in the order of their keys (`Move.inOrder`) as long as `Orderly` steps
  are taken;
- `Runs`: whole runs (`Runs.numbered`, `Runs.pooled`, `Runs.inOrder`).
-/

namespace Lanes

/-- How events and marks are numbered. -/
structure Keys (ε μ : Type*) where
  key : ε → Nat
  ordinal : μ → Nat
  point : μ → Nat

inductive Item (ε μ : Type*)
  | event (e : ε)
  | mark (m : μ)

/-- A registered job: one event, one event with everything queued before it, or some marks. -/
inductive Job (ε μ : Type*)
  | event (e : ε)
  | ordered (e : ε)
  | marks (ms : List μ)

variable {ε μ : Type*}

/-! ## Events and marks of a line -/

def Item.event? : Item ε μ → Option ε
  | event e => some e
  | mark _ => none

def Item.mark? : Item ε μ → Option μ
  | event _ => none
  | mark m => some m

def events (l : List (Item ε μ)) : List ε := l.filterMap Item.event?

def marks (l : List (Item ε μ)) : List μ := l.filterMap Item.mark?

def Job.items : Job ε μ → List (Item ε μ)
  | event e => [.event e]
  | ordered e => [.event e]
  | marks ms => ms.map .mark

def Job.ordered? : Job ε μ → Option ε
  | ordered e => some e
  | _ => none

def jobItems (jobs : List (Job ε μ)) : List (Item ε μ) := jobs.flatMap Job.items

/-- The events of the ordered jobs. -/
def ordered (jobs : List (Job ε μ)) : List ε := jobs.filterMap Job.ordered?

section Lines

variable (l l' : List (Item ε μ)) (jobs jobs' : List (Job ε μ))

@[simp] theorem events_nil : events ([] : List (Item ε μ)) = [] := rfl
@[simp] theorem marks_nil : marks ([] : List (Item ε μ)) = [] := rfl
@[simp] theorem events_append : events (l ++ l') = events l ++ events l' := List.filterMap_append
@[simp] theorem marks_append : marks (l ++ l') = marks l ++ marks l' := List.filterMap_append
@[simp] theorem events_cons_event (e : ε) : events (.event e :: l) = e :: events l := rfl
@[simp] theorem events_cons_mark (m : μ) : events (.mark m :: l) = events l := rfl
@[simp] theorem marks_cons_event (e : ε) : marks (.event e :: l) = marks l := rfl
@[simp] theorem marks_cons_mark (m : μ) : marks (.mark m :: l) = m :: marks l := rfl

@[simp] theorem events_map_event (es : List ε) : events (es.map (Item.event (μ := μ))) = es := by
  simp [events, List.filterMap_map, Function.comp_def, Item.event?]

@[simp] theorem marks_map_event (es : List ε) : marks (es.map (Item.event (μ := μ))) = [] := by
  simp [marks, List.filterMap_map, Function.comp_def, Item.mark?]

@[simp] theorem events_map_mark (ms : List μ) : events (ms.map (Item.mark (ε := ε))) = [] := by
  simp [events, List.filterMap_map, Function.comp_def, Item.event?]

@[simp] theorem marks_map_mark (ms : List μ) : marks (ms.map (Item.mark (ε := ε))) = ms := by
  simp [marks, List.filterMap_map, Function.comp_def, Item.mark?]

@[simp] theorem mem_events {e : ε} : e ∈ events l ↔ .event e ∈ l := by
  simp only [events, List.mem_filterMap]
  constructor
  · rintro ⟨x, hx, h⟩
    cases x with
    | event e' =>
      cases h
      exact hx
    | mark m => cases h
  · intro h
    exact ⟨_, h, rfl⟩

@[simp] theorem mem_marks {m : μ} : m ∈ marks l ↔ .mark m ∈ l := by
  simp only [marks, List.mem_filterMap]
  constructor
  · rintro ⟨x, hx, h⟩
    cases x with
    | event e => cases h
    | mark m' =>
      cases h
      exact hx
  · intro h
    exact ⟨_, h, rfl⟩

@[simp] theorem jobItems_nil : jobItems ([] : List (Job ε μ)) = [] := rfl
@[simp] theorem jobItems_append : jobItems (jobs ++ jobs') = jobItems jobs ++ jobItems jobs' := List.flatMap_append
@[simp] theorem jobItems_cons (j : Job ε μ) : jobItems (j :: jobs) = j.items ++ jobItems jobs := rfl
@[simp] theorem ordered_nil : ordered ([] : List (Job ε μ)) = [] := rfl
@[simp] theorem ordered_append : ordered (jobs ++ jobs') = ordered jobs ++ ordered jobs' := List.filterMap_append
@[simp] theorem ordered_cons_event (e : ε) : ordered (.event e :: jobs) = ordered jobs := rfl
@[simp] theorem ordered_cons_ordered (e : ε) : ordered (.ordered e :: jobs) = e :: ordered jobs := rfl
@[simp] theorem ordered_cons_marks (ms : List μ) : ordered (.marks ms :: jobs) = ordered jobs := rfl

end Lines

/-! ## The machine -/

/-- The state: what is where. The first two fields say which lanes there are and what was dispatched; `lost` and
`dropped` hold what was given up because a job could not be registered. -/
structure Traffic (ε μ : Type*) where
  /-- Whether there is a queue. -/
  queued : Bool
  dispatched : List ε := []
  recorded : Nat := 0
  pending : List μ := []
  queue : List ε := []
  jobs : List (Job ε μ) := []
  /-- What the holder of the writer has taken and not handed over yet. -/
  taken : List (Item ε μ) := []
  /-- What a worker that quit gave back. -/
  returned : List ε := []
  done : List (Item ε μ) := []
  lost : List ε := []
  dropped : List μ := []

/-- The labels of moves. -/
inductive Action
  | record | take | drop | push | order | defer | lose | run | finish | grab | quit | rejoin | tick
  deriving DecidableEq

/-- The moves that bring in an event or a mark. -/
def Action.isArrival : Action → Bool
  | record | push | order | defer | lose => true
  | _ => false

/-- What can happen. An event is dispatched only while no mark is pending. -/
inductive Move (K : Keys ε μ) : Traffic ε μ → Action → Traffic ε μ → Prop
  | record (s : Traffic ε μ) (m : μ) (ho : K.ordinal m = s.recorded) (hp : K.point m = s.dispatched.length) :
      Move K s .record { s with pending := s.pending ++ [m], recorded := s.recorded + 1 }
  | take (s : Traffic ε μ) : Move K s .take { s with pending := [], jobs := s.jobs ++ [.marks s.pending] }
  | drop (s : Traffic ε μ) : Move K s .drop { s with pending := [], dropped := s.dropped ++ s.pending }
  | push (s : Traffic ε μ) (e : ε) (hq : s.queued = true) (hp : s.pending = []) (he : K.key e = s.dispatched.length) :
      Move K s .push { s with dispatched := s.dispatched ++ [e], queue := s.queue ++ [e] }
  | order (s : Traffic ε μ) (e : ε) (hq : s.queued = true) (hp : s.pending = []) (he : K.key e = s.dispatched.length) :
      Move K s .order { s with dispatched := s.dispatched ++ [e], jobs := s.jobs ++ [.ordered e] }
  | defer (s : Traffic ε μ) (e : ε) (hq : s.queued = false) (hp : s.pending = []) (he : K.key e = s.dispatched.length) :
      Move K s .defer { s with dispatched := s.dispatched ++ [e], jobs := s.jobs ++ [.event e] }
  | lose (s : Traffic ε μ) (e : ε) (hp : s.pending = []) (he : K.key e = s.dispatched.length) :
      Move K s .lose { s with dispatched := s.dispatched ++ [e], lost := s.lost ++ [e] }
  | runEvent (s : Traffic ε μ) (e : ε) (rest : List (Job ε μ)) (hj : s.jobs = .event e :: rest) (ht : s.taken = []) :
      Move K s .run { s with jobs := rest, taken := [.event e] }
  | runOrdered (s : Traffic ε μ) (e : ε) (rest : List (Job ε μ)) (hj : s.jobs = .ordered e :: rest)
      (ht : s.taken = []) : Move K s .run { s with
        jobs := rest
        queue := s.queue.dropWhile fun x => K.key x < K.key e
        taken := ((s.queue.takeWhile fun x => K.key x < K.key e) ++ [e]).map .event }
  | runMarks (s : Traffic ε μ) (ms : List μ) (rest : List (Job ε μ)) (hj : s.jobs = .marks ms :: rest)
      (ht : s.taken = []) : Move K s .run { s with jobs := rest, taken := ms.map .mark }
  | finish (s : Traffic ε μ) (xs rest : List (Item ε μ)) (ht : s.taken = xs ++ rest) :
      Move K s .finish { s with taken := rest, done := s.done ++ xs }
  | grab (s : Traffic ε μ) (n : Nat) (hq : s.queued = true) (hj : s.jobs = []) (ht : s.taken = [])
      (hr : s.returned = []) :
      Move K s .grab { s with queue := s.queue.drop n, taken := (s.queue.take n).map .event }
  | quit (s : Traffic ε μ) (hq : s.queued = true) (hr : s.returned = []) :
      Move K s .quit { s with returned := s.queue, queue := [] }
  | rejoin (s : Traffic ε μ) (hq : s.queued = true) (hj : s.jobs = []) (ht : s.taken = []) :
      Move K s .rejoin { s with returned := [], taken := s.returned.map .event }
  | tick (s : Traffic ε μ) (hj : s.jobs = []) (ht : s.taken = []) :
      Move K s .tick { s with pending := [], taken := s.pending.map .mark }

section Invariants

variable {K : Keys ε μ} {s s' : Traffic ε μ} {a : Action}

/-! ## Numbers -/

/-- All marks that were not given up, in the order they are handed over. -/
def markLine (s : Traffic ε μ) : List μ := marks s.done ++ marks s.taken ++ marks (jobItems s.jobs) ++ s.pending

/-- The order of marks: that of their ordinals, and along it the points do not decrease. -/
def MarkLt (K : Keys ε μ) (m m' : μ) : Prop := K.ordinal m < K.ordinal m' ∧ K.point m ≤ K.point m'

structure Numbered (K : Keys ε μ) (s : Traffic ε μ) : Prop where
  keys : s.dispatched.map K.key = List.range s.dispatched.length
  lost : s.lost.Sublist s.dispatched
  pending : ∀ m ∈ s.pending, K.point m = s.dispatched.length
  points : ∀ m ∈ markLine s, K.point m ≤ s.dispatched.length
  line : (markLine s).Pairwise (MarkLt K)
  once : ((markLine s ++ s.dropped).map K.ordinal).Perm (List.range s.recorded)

namespace Numbered

theorem key_lt (h : Numbered K s) {e : ε} (he : e ∈ s.dispatched) : K.key e < s.dispatched.length :=
  List.mem_range.1 (h.keys ▸ List.mem_map_of_mem he)

theorem ordinal_lt (h : Numbered K s) {m : μ} (hm : m ∈ markLine s) : K.ordinal m < s.recorded :=
  List.mem_range.1 (h.once.subset (List.mem_map_of_mem (List.mem_append_left _ hm)))

theorem ascending (h : Numbered K s) : Ascending K.key s.dispatched := .of_range h.keys

/-- A move that dispatches nothing and keeps the line of marks. -/
theorem of_line (h : Numbered K s) (hd : s'.dispatched = s.dispatched) (hl : s'.lost = s.lost)
    (hm : markLine s' = markLine s) (hp : ∀ m ∈ s'.pending, m ∈ s.pending) (hdr : s'.dropped = s.dropped)
    (hr : s'.recorded = s.recorded) : Numbered K s' where
  keys := by rw [hd]; exact h.keys
  lost := by rw [hl, hd]; exact h.lost
  pending m hmem := by rw [hd]; exact h.pending m (hp m hmem)
  points := by rw [hm, hd]; exact h.points
  line := by rw [hm]; exact h.line
  once := by rw [hm, hdr, hr]; exact h.once

/-- Dispatching an event while no mark is pending. -/
theorem dispatch (h : Numbered K s) {e : ε} (he : K.key e = s.dispatched.length) (hp : s.pending = [])
    (hd : s'.dispatched = s.dispatched ++ [e]) (hl : s'.lost.Sublist (s.lost ++ [e]))
    (hm : markLine s' = markLine s) (hp' : s'.pending = s.pending) (hdr : s'.dropped = s.dropped)
    (hr : s'.recorded = s.recorded) : Numbered K s' where
  keys := by
    rw [hd, List.map_append, h.keys, List.length_append, List.map_singleton, he, List.length_singleton,
      List.range_succ]
  lost := by
    rw [hd]
    exact hl.trans (h.lost.append_right _)
  pending m hmem := by simp [hp', hp] at hmem
  points m hmem := by
    rw [hm] at hmem
    rw [hd, List.length_append]
    exact (h.points m hmem).trans (Nat.le_add_right _ _)
  line := by rw [hm]; exact h.line
  once := by rw [hm, hdr, hr]; exact h.once

end Numbered

/-- Every move keeps the numbers right. -/
theorem Move.numbered (hm : Move K s a s') (h : Numbered K s) : Numbered K s' := by
  cases hm with
  | record m ho hp =>
    have hline : markLine { s with pending := s.pending ++ [m], recorded := s.recorded + 1 } = markLine s ++ [m] := by
      simp [markLine]
    refine ⟨h.keys, h.lost, fun x hx => ?_, fun x hx => ?_, ?_, ?_⟩
    · rcases List.mem_append.1 hx with hx | hx
      · exact h.pending x hx
      · rw [List.mem_singleton.1 hx, hp]
    · rw [hline] at hx
      rcases List.mem_append.1 hx with hx | hx
      · exact h.points x hx
      · rw [List.mem_singleton.1 hx, hp]
    · rw [hline, List.pairwise_append]
      refine ⟨h.line, List.pairwise_singleton _ _, fun x hx y hy => ?_⟩
      rw [List.mem_singleton.1 hy]
      exact ⟨ho ▸ h.ordinal_lt hx, hp ▸ h.points x hx⟩
    · rw [hline, List.range_succ, List.append_assoc, List.map_append, List.map_append, List.map_singleton, ho]
      have := h.once
      rw [List.map_append] at this
      refine List.Perm.trans ?_ (this.append_right _)
      rw [List.append_assoc]
      exact List.perm_append_comm.append_left _
  | take =>
    exact h.of_line rfl rfl (by simp [markLine, Job.items]) (by simp) rfl rfl
  | drop =>
    have hline : markLine s = markLine { s with pending := [], dropped := s.dropped ++ s.pending } ++ s.pending := by
      simp [markLine]
    refine ⟨h.keys, h.lost, by simp, fun x hx => ?_, ?_, ?_⟩
    · exact h.points x (by rw [hline]; exact List.mem_append_left _ hx)
    · have hl := h.line
      rw [hline] at hl
      exact (List.pairwise_append.1 hl).1
    · have ho := h.once
      rw [hline, List.append_assoc] at ho
      refine List.Perm.trans (List.Perm.map _ ?_) ho
      exact List.perm_append_comm.append_left _
  | push e hq hp he => exact h.dispatch he hp rfl (List.sublist_append_left _ _) rfl rfl rfl rfl
  | order e hq hp he =>
    exact h.dispatch he hp rfl (List.sublist_append_left _ _) (by simp [markLine, Job.items]) rfl rfl rfl
  | defer e hq hp he =>
    exact h.dispatch he hp rfl (List.sublist_append_left _ _) (by simp [markLine, Job.items]) rfl rfl rfl
  | lose e hp he =>
    exact h.dispatch he hp rfl (List.Sublist.refl _) rfl rfl rfl rfl
  | runEvent e rest hj ht =>
    exact h.of_line rfl rfl (by simp [markLine, hj, ht, Job.items]) (fun _ => id) rfl rfl
  | runOrdered e rest hj ht =>
    exact h.of_line rfl rfl (by simp [markLine, hj, ht, Job.items]) (fun _ => id) rfl rfl
  | runMarks ms rest hj ht =>
    exact h.of_line rfl rfl (by simp [markLine, hj, ht, Job.items]) (fun _ => id) rfl rfl
  | finish xs rest ht => exact h.of_line rfl rfl (by simp [markLine, ht]) (fun _ => id) rfl rfl
  | grab n hq hj ht hr =>
    exact h.of_line rfl rfl (by simp only [markLine, ht, marks_map_event, marks_nil]) (fun _ => id) rfl rfl
  | quit hq hr => exact h.of_line rfl rfl rfl (fun _ => id) rfl rfl
  | rejoin hq hj ht => exact h.of_line rfl rfl (by simp [markLine, ht]) (fun _ => id) rfl rfl
  | tick hj ht => exact h.of_line rfl rfl (by simp [markLine, hj, ht]) (by simp) rfl rfl

/-! ## The places of events -/

/-- Every place an event can be at. -/
def pool (s : Traffic ε μ) : List ε :=
  events s.done ++ (events s.taken ++ (events (jobItems s.jobs) ++ (s.returned ++ (s.queue ++ s.lost))))

/-- Every move keeps each dispatched event at one place. -/
theorem Move.pooled (hm : Move K s a s') (h : (pool s).Perm s.dispatched) : (pool s').Perm s'.dispatched := by
  -- an event that is dispatched joins one of the places
  have hjoin : ∀ (e : ε) (front back : List ε), pool s = front ++ back →
      (front ++ ([e] ++ back)).Perm (s.dispatched ++ [e]) := by
    intro e front back hsplit
    rw [hsplit] at h
    refine List.Perm.trans ?_ (h.append_right [e])
    rw [List.append_assoc]
    exact (List.perm_append_comm).append_left front
  cases hm with
  | record m ho hp => exact h
  | take => simpa [pool, Job.items] using h
  | drop => exact h
  | push e hq hp he =>
    have hp' := hjoin e (events s.done ++
      (events s.taken ++ (events (jobItems s.jobs) ++ (s.returned ++ s.queue)))) s.lost (by simp [pool])
    simpa [pool] using hp'
  | order e hq hp he | defer e hq hp he =>
    have hp' := hjoin e (events s.done ++ (events s.taken ++ events (jobItems s.jobs)))
      (s.returned ++ (s.queue ++ s.lost)) (by simp [pool])
    simpa [pool, Job.items] using hp'
  | lose e hp he =>
    have hp' := hjoin e (pool s) [] (by simp)
    simpa [pool] using hp'
  | runEvent e rest hj ht => simpa [pool, hj, ht, Job.items] using h
  | runOrdered e rest hj ht =>
    have htw : s.queue.takeWhile (fun x => K.key x < K.key e) ++ s.queue.dropWhile (fun x => K.key x < K.key e) =
        s.queue := List.takeWhile_append_dropWhile
    generalize s.queue.takeWhile (fun x => K.key x < K.key e) = A at htw ⊢
    generalize s.queue.dropWhile (fun x => K.key x < K.key e) = B at htw ⊢
    refine List.Perm.trans ?_ h
    simp only [pool, hj, ht, ← htw, jobItems_cons, Job.items, events_append, events_map_event, events_cons_event,
      events_nil, List.nil_append, List.append_assoc]
    -- the front of the queue passes the jobs and what was given back
    refine List.Perm.append_left _ (List.perm_append_comm_assoc A _ _ |>.trans ?_)
    refine List.Perm.append_left _ ((List.perm_append_comm_assoc A _ _).trans ?_)
    exact List.Perm.append_left _ (List.perm_append_comm_assoc A _ _)
  | runMarks ms rest hj ht => simpa [pool, hj, ht, Job.items] using h
  | finish xs rest ht => simpa [pool, ht] using h
  | grab n hq hj ht hr =>
    simp only [pool, ht, hj, hr, jobItems_nil, events_nil, List.nil_append] at h
    simp only [pool, hj, hr, jobItems_nil, events_nil, events_map_event, List.nil_append]
    rwa [← List.append_assoc (s.queue.take n), List.take_append_drop]
  | quit hq hr => simpa [pool, hr] using h
  | rejoin hq hj ht => simpa [pool, hj, ht] using h
  | tick hj ht => simpa [pool, hj, ht] using h

/-! ## The order of events, with a queue -/

/-- The dispatched events that were not given up. -/
def survivors (K : Keys ε μ) (s : Traffic ε μ) : List ε :=
  s.dispatched.filter fun e => K.key e ∉ s.lost.map K.key

/-- The events that wait: given back by the worker, queued, or the subject of an ordered job. -/
def waiting (s : Traffic ε μ) : List ε := s.returned ++ s.queue ++ ordered s.jobs

structure InOrder (K : Keys ε μ) (s : Traffic ε μ) : Prop where
  split : ∃ rest, survivors K s = events s.done ++ events s.taken ++ rest ∧ rest.Perm (waiting s)
  returned : Ascending K.key s.returned
  queue : Ascending K.key s.queue
  jobs : Ascending K.key (ordered s.jobs)
  plain : ∀ e, Job.event e ∉ s.jobs

/-- The steps that keep the order: an ordered job does not run past events that were given back, and nothing is queued
when these are taken up again. -/
def Orderly (s : Traffic ε μ) : Action → Prop
  | .run => ∀ e rest, s.jobs = .ordered e :: rest → s.returned = []
  | .rejoin => s.queue = []
  | _ => True

theorem mem_survivors {e : ε} : e ∈ survivors K s ↔ e ∈ s.dispatched ∧ K.key e ∉ s.lost.map K.key := by
  simp [survivors]

theorem survivors_ascending (h : Numbered K s) : Ascending K.key (survivors K s) :=
  h.ascending.sublist List.filter_sublist

/-- The survivors are all but the events given up. -/
theorem survivors_perm (h : Numbered K s) : (survivors K s ++ s.lost).Perm s.dispatched := by
  refine List.Perm.trans ?_ (List.filter_append_perm (fun e => K.key e ∉ s.lost.map K.key) s.dispatched)
  refine List.Perm.append_left _ ((List.perm_ext_iff_of_nodup ?_ ?_).2 fun e => ?_)
  · exact (h.ascending.sublist h.lost).nodup
  · exact h.ascending.nodup.filter _
  · rw [List.mem_filter, Bool.not_eq_true', decide_eq_false_iff_not, not_not, List.mem_map]
    constructor
    · exact fun he => ⟨h.lost.subset he, e, he, rfl⟩
    · rintro ⟨he, x, hx, hk⟩
      rw [← h.ascending.eq_of_key (h.lost.subset hx) he hk]
      exact hx

/-- A new event is a survivor unless it is given up at once. -/
theorem survivors_dispatch (h : Numbered K s) {e : ε} (he : K.key e = s.dispatched.length)
    (hd : s'.dispatched = s.dispatched ++ [e]) (hl : s'.lost = s.lost) : survivors K s' = survivors K s ++ [e] := by
  have hnew : K.key e ∉ s.lost.map K.key := by
    intro hmem
    obtain ⟨x, hx, hk⟩ := List.mem_map.1 hmem
    have := h.key_lt (h.lost.subset hx)
    omega
  simp only [survivors, hd, hl, List.filter_append]
  rw [List.filter_singleton]
  simp [hnew]

theorem survivors_lose (h : Numbered K s) {e : ε} (he : K.key e = s.dispatched.length)
    (hd : s'.dispatched = s.dispatched ++ [e]) (hl : s'.lost = s.lost ++ [e]) : survivors K s' = survivors K s := by
  simp only [survivors, hd, hl, List.filter_append]
  have hlast : ([e].filter fun x => decide (K.key x ∉ (s.lost ++ [e]).map K.key)) = [] := by simp
  rw [hlast, List.append_nil]
  refine List.filter_congr fun x hx => ?_
  have := h.key_lt hx
  have hne : K.key x ≠ K.key e := by omega
  simp [hne]

namespace InOrder

/-- An event anywhere in the machine was dispatched. -/
theorem mem_dispatched (h : InOrder K s) {e : ε} (he : e ∈ events s.done ++ events s.taken ++ waiting s) :
    e ∈ s.dispatched := by
  obtain ⟨rest, hs, hp⟩ := h.split
  have hmem : e ∈ survivors K s := by
    rw [hs]
    rcases List.mem_append.1 he with he | he
    · exact List.mem_append_left _ he
    · exact List.mem_append_right _ (hp.symm.subset he)
  exact (mem_survivors.1 hmem).1

/-- With a queue, the events of the jobs are those of the ordered jobs. -/
theorem mem_jobItems (h : InOrder K s) {e : ε} : Item.event e ∈ jobItems s.jobs ↔ e ∈ ordered s.jobs := by
  constructor
  · intro he
    obtain ⟨j, hj, he⟩ := List.mem_flatMap.1 he
    cases j with
    | event e' => exact absurd hj (h.plain e')
    | ordered e' =>
      cases List.mem_singleton.1 he
      exact List.mem_filterMap.2 ⟨_, hj, rfl⟩
    | marks ms =>
      obtain ⟨_, _, hc⟩ := List.mem_map.1 he
      cases hc
  · intro he
    obtain ⟨j, hj, hjo⟩ := List.mem_filterMap.1 he
    cases j with
    | event e' => cases hjo
    | ordered e' =>
      cases hjo
      exact List.mem_flatMap.2 ⟨_, hj, List.mem_singleton_self _⟩
    | marks ms => cases hjo

/-- A move that changes nothing about events but where taken ones are. -/
theorem of_events (h : InOrder K s) (hd : survivors K s' = survivors K s)
    (hdone : events s'.done ++ events s'.taken = events s.done ++ events s.taken) (hr : s'.returned = s.returned)
    (hq : s'.queue = s.queue) (hj : ordered s'.jobs = ordered s.jobs) (hpl : ∀ e, Job.event e ∉ s'.jobs) :
    InOrder K s' where
  split := by
    rw [hd, hdone, waiting, hr, hq, hj]
    exact h.split
  returned := hr ▸ h.returned
  queue := hq ▸ h.queue
  jobs := hj ▸ h.jobs
  plain := hpl

/-- Taking the first of the waiting events. -/
theorem taking (h : InOrder K s) (hn : Numbered K s) (xs ys : List ε) (ht : s.taken = [])
    (hw : (waiting s).Perm (xs ++ ys)) (hxs : Ascending K.key xs) (hxy : ∀ x ∈ xs, ∀ y ∈ ys, K.key x < K.key y)
    (hd : survivors K s' = survivors K s) (hdone : s'.done = s.done) (htaken : events s'.taken = xs)
    (hw' : (waiting s').Perm ys) :
    ∃ rest, survivors K s' = events s'.done ++ events s'.taken ++ rest ∧ rest.Perm (waiting s') := by
  obtain ⟨rest, hs, hp⟩ := h.split
  have hasc : Ascending K.key rest := (Ascending.append_iff.1 (hs ▸ survivors_ascending hn)).2.1
  obtain ⟨rest', e, hp'⟩ := hasc.split (hp.trans hw) hxs hxy
  refine ⟨rest', ?_, hp'.trans hw'.symm⟩
  rw [hd, hs, ht, hdone, htaken, e]
  simp

end InOrder

/-- Orderly moves keep the events in order. -/
theorem Move.inOrder (hm : Move K s a s') (hn : Numbered K s) (ho : Orderly s a) (hq : s.queued = true)
    (h : InOrder K s) : InOrder K s' := by
  have hlt : ∀ e, e ∈ waiting s → K.key e < s.dispatched.length :=
    fun e he => hn.key_lt (h.mem_dispatched (List.mem_append_right _ he))
  obtain ⟨rest, hs, hp⟩ := h.split
  cases hm with
  | record m hord hpt => exact h.of_events rfl rfl rfl rfl rfl h.plain
  | take =>
    refine h.of_events rfl rfl rfl rfl (by simp) fun e he => ?_
    rcases List.mem_append.1 he with he | he
    · exact h.plain e he
    · cases List.mem_singleton.1 he
  | drop => exact h.of_events rfl rfl rfl rfl rfl h.plain
  | push e hq hpn he =>
    refine ⟨⟨rest ++ [e], ?_, ?_⟩, h.returned, h.queue.concat fun x hx => ?_, h.jobs, h.plain⟩
    · refine Eq.trans (survivors_dispatch hn he rfl rfl) ?_
      rw [hs, List.append_assoc]
    · refine (hp.append_right [e]).trans ?_
      simp only [waiting, List.append_assoc]
      exact (List.perm_append_comm.append_left _).append_left _
    · rw [he]
      exact hlt x (List.mem_append_left _ (List.mem_append_right _ hx))
  | order e hq hpn he =>
    refine ⟨⟨rest ++ [e], ?_, ?_⟩, h.returned, h.queue, ?_, fun x hx => ?_⟩
    · refine Eq.trans (survivors_dispatch hn he rfl rfl) ?_
      rw [hs, List.append_assoc]
    · refine (hp.append_right [e]).trans (List.Perm.of_eq ?_)
      simp [waiting]
    · rw [ordered_append]
      refine h.jobs.concat fun x hx => ?_
      rw [he]
      exact hlt x (List.mem_append_right _ hx)
    · rcases List.mem_append.1 hx with hx | hx
      · exact h.plain x hx
      · cases List.mem_singleton.1 hx
  | defer e hq' hpn he => rw [hq] at hq'; cases hq'
  | lose e hpn he => exact h.of_events (survivors_lose hn he rfl rfl) rfl rfl rfl rfl h.plain
  | runEvent e rest hj ht => exact absurd (hj ▸ List.mem_cons_self ..) (h.plain e)
  | runOrdered e jobs hj ht =>
    have hret : s.returned = [] := ho e jobs hj
    have hjobs := h.jobs
    rw [hj, ordered_cons_ordered] at hjobs
    obtain ⟨hej, hjobs'⟩ := List.pairwise_cons.1 hjobs
    have htw : s.queue.takeWhile (fun x => K.key x < K.key e) ++ s.queue.dropWhile (fun x => K.key x < K.key e) =
        s.queue := List.takeWhile_append_dropWhile
    generalize hA : s.queue.takeWhile (fun x => K.key x < K.key e) = A at htw ⊢
    generalize hB : s.queue.dropWhile (fun x => K.key x < K.key e) = B at htw ⊢
    have hAe : ∀ x ∈ A, K.key x < K.key e := fun x hx => Ascending.takeWhile_lt (hA ▸ hx)
    have hBe : ∀ x ∈ B, K.key e ≤ K.key x := fun x hx => h.queue.dropWhile_le (hB ▸ hx)
    obtain ⟨hasc, hbsc, -⟩ := Ascending.append_iff.1 (htw ▸ h.queue)
    refine ⟨?_, h.returned, hbsc, hjobs', fun x hx => h.plain x (hj ▸ List.mem_cons_of_mem _ hx)⟩
    refine h.taking hn (A ++ [e]) (B ++ ordered jobs) ht ?_ (hasc.concat hAe) ?_ rfl rfl (by simp) ?_
    · simp only [waiting, hret, hj, ← htw, ordered_cons_ordered, List.nil_append, List.append_assoc,
        List.singleton_append]
      refine List.Perm.append_left _ ?_
      exact List.perm_middle
    · intro x hx y hy
      have hxe : K.key x ≤ K.key e := by
        rcases List.mem_append.1 hx with hx | hx
        · exact (hAe x hx).le
        · rw [List.mem_singleton.1 hx]
      rcases List.mem_append.1 hy with hy | hy
      · -- a queued event has another key than the event of the job: both are numbered places of one list
        have := hBe y hy
        have hne : K.key y ≠ K.key e := by
          intro heq
          have hw : Ascending K.key rest := (Ascending.append_iff.1 (hs ▸ survivors_ascending hn)).2.1
          have hnd : (rest.map K.key).Nodup := (List.pairwise_map.2 hw).imp Nat.ne_of_lt
          have hnd' : ((waiting s).map K.key).Nodup := (hp.map K.key).nodup_iff.1 hnd
          rw [waiting, hret, hj, ordered_cons_ordered, List.nil_append, List.map_append, List.nodup_append] at hnd'
          refine hnd'.2.2 (K.key y) (List.mem_map_of_mem ?_) (K.key e) (by simp) heq
          rw [← htw]
          exact List.mem_append_right _ hy
        omega
      · have := hej y hy
        omega
    · simp [waiting, hret]
  | runMarks ms jobs hj ht =>
    refine h.of_events rfl (by simp [ht]) rfl rfl (by simp [hj]) fun x hx => ?_
    exact h.plain x (hj ▸ List.mem_cons_of_mem _ hx)
  | finish xs rest' ht => exact h.of_events rfl (by simp [ht]) rfl rfl rfl h.plain
  | grab n hq' hj ht hr =>
    have hq := h.queue
    rw [← List.take_append_drop n s.queue] at hq
    obtain ⟨hta, htd, hcross⟩ := Ascending.append_iff.1 hq
    refine ⟨?_, h.returned, htd, h.jobs, h.plain⟩
    refine h.taking hn (s.queue.take n) (s.queue.drop n) ht ?_ hta hcross rfl rfl (events_map_event _) ?_
    · simp [waiting, hr, hj]
    · simp [waiting, hr, hj]
  | quit hq' hr =>
    refine ⟨⟨rest, hs, hp.trans ?_⟩, h.queue, .nil, h.jobs, h.plain⟩
    simp [waiting, hr]
  | rejoin hq' hj ht =>
    refine ⟨?_, .nil, h.queue, h.jobs, h.plain⟩
    refine h.taking hn s.returned [] ht ?_ h.returned (by simp) rfl rfl (by simp) ?_
    · rw [waiting, ho, hj]
      simp
    · have hempty : s.queue = [] := ho
      simp [waiting, hempty, hj]
  | tick hj ht => exact h.of_events rfl (by simp [ht]) rfl rfl rfl h.plain

end Invariants

/-! ## Runs -/

/-- The traffic that runs with (or without) a queue lead to, from nothing on. -/
abbrev Runs (K : Keys ε μ) (Q : Traffic ε μ → Action → Prop) (queued : Bool) : Traffic ε μ → Prop :=
  Machine.Reach (Move K) Q fun s => s = { queued := queued }

namespace Runs

variable {K : Keys ε μ} {Q : Traffic ε μ → Action → Prop} {q : Bool} {s : Traffic ε μ}

theorem queued (h : Runs K Q q s) : s.queued = q := by
  refine h.invariant (I := fun s => s.queued = q) ?_ ?_
  · rintro s rfl
    rfl
  · intro s a s' _ _ hm hq
    cases hm <;> exact hq

theorem numbered (h : Runs K Q q s) : Numbered K s := by
  refine h.invariant (I := Numbered K) ?_ fun _ _ _ _ _ hm hn => hm.numbered hn
  rintro s rfl
  exact ⟨rfl, List.Sublist.refl _, by simp, by simp [markLine], by simp [markLine], by simp [markLine]⟩

theorem pooled (h : Runs K Q q s) : (pool s).Perm s.dispatched := by
  refine h.invariant (I := fun s => (pool s).Perm s.dispatched) ?_ fun _ _ _ _ _ hm hp => hm.pooled hp
  rintro s rfl
  exact .refl _

theorem inOrder (hQ : ∀ s a, Q s a → Orderly s a) (h : Runs K Q true s) : InOrder K s := by
  refine h.invariant (I := InOrder K) ?_ fun s a _ hr ha hm hi => hm.inOrder (numbered hr) (hQ s a ha) (queued hr) hi
  rintro s rfl
  exact ⟨⟨[], rfl, .refl _⟩, .nil, .nil, .nil, by simp⟩

end Runs

end Lanes

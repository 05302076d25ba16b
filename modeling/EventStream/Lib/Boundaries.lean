import EventStream.Lib.Lanes

/-!
# Marks as boundaries

What a mark separates, for the machine of `Lanes`.

- `Before`: an event or a mark comes before another by their numbers alone;
- `Aligned`: without a queue, everything stands in one line that is ordered by `Before` (`Move.aligned`);
- `Bounded`: with a queue, what is handed over is ordered by `Before` (`Move.bounded`), as long as `Covering` steps are
  taken: marks are taken up only when an ordered job is ahead of them for everything that is queued;
- `OnTime`: whatever the moves, no mark is behind an event that was dispatched after it (`Move.onTime`);
- `Runs.aligned`, `Runs.bounded`, `Runs.onTime`: the same for whole runs.
-/

namespace Lanes

variable {ε μ : Type*}

/-- The order that the numbers prescribe. -/
def Before (K : Keys ε μ) : Item ε μ → Item ε μ → Prop
  | .event e, .event e' => K.key e < K.key e'
  | .event e, .mark m => K.key e < K.point m
  | .mark m, .event e => K.point m ≤ K.key e
  | .mark m, .mark m' => MarkLt K m m'

section Invariants

variable {K : Keys ε μ} {s s' : Traffic ε μ} {a : Action}

/-- A line of events is ordered as its keys are. -/
theorem pairwise_map_event {es : List ε} :
    (es.map (Item.event (μ := μ))).Pairwise (Before K) ↔ Ascending K.key es := List.pairwise_map

theorem pairwise_map_mark {ms : List μ} :
    (ms.map (Item.mark (ε := ε))).Pairwise (Before K) ↔ ms.Pairwise (MarkLt K) := List.pairwise_map

/-! ## Without a queue -/

/-- Everything that was not given up, in the order it is handed over. -/
def line (s : Traffic ε μ) : List (Item ε μ) := s.done ++ s.taken ++ jobItems s.jobs ++ s.pending.map .mark

structure Aligned (K : Keys ε μ) (s : Traffic ε μ) : Prop where
  ordered : (line s).Pairwise (Before K)
  complete : (events (line s) ++ s.lost).Perm s.dispatched
  unqueued : s.queue = [] ∧ s.returned = []
  plain : ∀ e, Job.ordered e ∉ s.jobs

namespace Aligned

theorem mem_dispatched (h : Aligned K s) {e : ε} (he : Item.event e ∈ line s) : e ∈ s.dispatched :=
  h.complete.subset (List.mem_append_left _ ((mem_events _).2 he))

/-- A move along the line. -/
theorem of_line (h : Aligned K s) (hl : line s' = line s) (hlost : s'.lost = s.lost)
    (hd : s'.dispatched = s.dispatched) (hq : s'.queue = s.queue) (hr : s'.returned = s.returned)
    (hj : ∀ e, Job.ordered e ∉ s'.jobs) : Aligned K s' where
  ordered := by rw [hl]; exact h.ordered
  complete := by rw [hl, hlost, hd]; exact h.complete
  unqueued := by rw [hq, hr]; exact h.unqueued
  plain := hj

/-- A new event joins the line at its end. -/
theorem before_event (h : Aligned K s) (hn : Numbered K s) {e : ε} (he : K.key e = s.dispatched.length) :
    ∀ x ∈ line s, Before K x (.event e) := by
  intro x hx
  cases x with
  | event e' =>
    have := hn.key_lt (h.mem_dispatched hx)
    simp only [Before]
    omega
  | mark m =>
    have hm : m ∈ markLine s := by
      have : m ∈ marks (line s) := (mem_marks _).2 hx
      simpa [line, markLine] using this
    have := hn.points m hm
    simp only [Before]
    omega

/-- So does a new mark. -/
theorem before_mark (h : Aligned K s) (hn : Numbered K s) {m : μ} (ho : K.ordinal m = s.recorded)
    (hp : K.point m = s.dispatched.length) : ∀ x ∈ line s, Before K x (.mark m) := by
  intro x hx
  cases x with
  | event e =>
    have := hn.key_lt (h.mem_dispatched hx)
    simp only [Before]
    omega
  | mark m' =>
    have hm : m' ∈ markLine s := by
      have : m' ∈ marks (line s) := (mem_marks _).2 hx
      simpa [line, markLine] using this
    exact ⟨ho ▸ hn.ordinal_lt hm, hp ▸ hn.points m' hm⟩

end Aligned

theorem Move.aligned (hm : Move K s a s') (hn : Numbered K s) (hq : s.queued = false) (h : Aligned K s) :
    Aligned K s' := by
  obtain ⟨hqu, hret⟩ := h.unqueued
  cases hm with
  | record m ho hp =>
    have hline : line { s with pending := s.pending ++ [m], recorded := s.recorded + 1 } = line s ++ [.mark m] := by
      simp [line]
    refine ⟨?_, ?_, h.unqueued, h.plain⟩
    · rw [hline, List.pairwise_append]
      refine ⟨h.ordered, List.pairwise_singleton _ _, fun x hx y hy => ?_⟩
      rw [List.mem_singleton.1 hy]
      exact h.before_mark hn ho hp x hx
    · rw [hline, events_append]
      simpa using h.complete
  | take =>
    refine h.of_line (by simp [line, Job.items]) rfl rfl rfl rfl fun e he => ?_
    rcases List.mem_append.1 he with he | he
    · exact h.plain e he
    · cases List.mem_singleton.1 he
  | drop =>
    have hline : line s = line { s with pending := [], dropped := s.dropped ++ s.pending } ++ s.pending.map .mark := by
      simp [line]
    refine ⟨?_, ?_, h.unqueued, h.plain⟩
    · have ho := h.ordered
      rw [hline] at ho
      exact (List.pairwise_append.1 ho).1
    · have hc := h.complete
      rw [hline, events_append, events_map_mark, List.append_nil] at hc
      exact hc
  | push e hq' hp he => rw [hq] at hq'; cases hq'
  | order e hq' hp he => rw [hq] at hq'; cases hq'
  | defer e hq' hp he =>
    have hline : line { s with dispatched := s.dispatched ++ [e], jobs := s.jobs ++ [.event e] } =
        line s ++ [.event e] := by
      simp [line, hp, Job.items]
    refine ⟨?_, ?_, h.unqueued, fun x hx => ?_⟩
    · rw [hline, List.pairwise_append]
      refine ⟨h.ordered, List.pairwise_singleton _ _, fun x hx y hy => ?_⟩
      rw [List.mem_singleton.1 hy]
      exact h.before_event hn he x hx
    · rw [hline, events_append]
      refine List.Perm.trans ?_ (h.complete.append_right [e])
      simp only [events_cons_event, events_nil, List.append_assoc]
      exact List.perm_append_comm.append_left _
    · rcases List.mem_append.1 hx with hx | hx
      · exact h.plain x hx
      · cases List.mem_singleton.1 hx
  | lose e hp he =>
    refine ⟨h.ordered, ?_, h.unqueued, h.plain⟩
    refine List.Perm.trans (List.Perm.of_eq ?_) (h.complete.append_right [e])
    rw [List.append_assoc]
    rfl
  | runEvent e rest hj ht =>
    refine h.of_line (by simp [line, hj, ht, Job.items]) rfl rfl rfl rfl fun x hx => ?_
    exact h.plain x (hj ▸ List.mem_cons_of_mem _ hx)
  | runOrdered e rest hj ht => exact absurd (hj ▸ List.mem_cons_self ..) (h.plain e)
  | runMarks ms rest hj ht =>
    refine h.of_line (by simp [line, hj, ht, Job.items]) rfl rfl rfl rfl fun x hx => ?_
    exact h.plain x (hj ▸ List.mem_cons_of_mem _ hx)
  | finish xs rest ht => exact h.of_line (by simp [line, ht]) rfl rfl rfl rfl h.plain
  | grab n hq' hj ht hr => rw [hq] at hq'; cases hq'
  | quit hq' hr => rw [hq] at hq'; cases hq'
  | rejoin hq' hj ht => rw [hq] at hq'; cases hq'
  | tick hj ht => exact h.of_line (by simp [line, hj, ht]) rfl rfl rfl rfl h.plain

/-! ## With a queue -/

/-- No mark of the jobs passes a waiting event: its point is not behind the event, or an ordered job ahead of it takes
the event first. -/
def Clear (K : Keys ε μ) (e : ε) : List (Job ε μ) → Prop
  | [] => True
  | .event _ :: jobs => Clear K e jobs
  | .ordered e' :: jobs => K.key e < K.key e' ∨ Clear K e jobs
  | .marks ms :: jobs => (∀ m ∈ ms, K.point m ≤ K.key e) ∧ Clear K e jobs

theorem Clear.append {e : ε} {jobs jobs' : List (Job ε μ)} (h : Clear K e jobs)
    (h' : Clear K e jobs' ∨ ∃ e' ∈ Lanes.ordered jobs, K.key e < K.key e') : Clear K e (jobs ++ jobs') := by
  induction jobs with
  | nil => simpa using h'
  | cons j jobs ih =>
    cases j with
    | event e' => exact ih h (by simpa using h')
    | ordered e' =>
      rcases h with h | h
      · exact Or.inl h
      · simp only [ordered_cons_ordered, List.mem_cons, exists_eq_or_imp] at h'
        rcases h' with h' | h' | h'
        · exact Or.inr (ih h (Or.inl h'))
        · exact Or.inl h'
        · exact Or.inr (ih h (Or.inr h'))
    | marks ms => exact ⟨h.1, ih h.2 (by simpa using h')⟩

theorem Clear.of_points {e : ε} {jobs : List (Job ε μ)} (h : ∀ m ∈ marks (jobItems jobs), K.point m ≤ K.key e) :
    Clear K e jobs := by
  induction jobs with
  | nil => trivial
  | cons j jobs ih =>
    rw [jobItems_cons, marks_append] at h
    have hrest : Clear K e jobs := ih fun m hm => h m (List.mem_append_right _ hm)
    cases j with
    | event e' => exact hrest
    | ordered e' => exact Or.inr hrest
    | marks ms => exact ⟨fun m hm => h m (List.mem_append_left _ (by simpa [Job.items] using hm)), hrest⟩

structure Bounded (K : Keys ε μ) (s : Traffic ε μ) : Prop where
  split : (s.done ++ s.taken).Pairwise (Before K)
  ahead : ∀ m, Item.mark m ∈ s.done ++ s.taken → ∀ e ∈ waiting s, K.point m ≤ K.key e
  behind : ∀ e, Item.event e ∈ s.done ++ s.taken → ∀ m ∈ marks (jobItems s.jobs) ++ s.pending, K.key e < K.point m
  jobs : (jobItems s.jobs).Pairwise (Before K)
  clear : ∀ e ∈ s.returned ++ s.queue, Clear K e s.jobs

/-- The steps that keep marks behind what they follow: when marks are taken up, nothing has been given back, and an
ordered job is ahead of them for every queued event. -/
def Covering (K : Keys ε μ) (s : Traffic ε μ) : Action → Prop
  | .take => s.returned = [] ∧ ∀ e ∈ s.queue, ∃ e' ∈ Lanes.ordered s.jobs, K.key e < K.key e'
  | .tick => s.pending = [] ∨ (s.returned = [] ∧ s.queue = [])
  | _ => True

namespace Bounded

/-- A move that neither takes anything up nor brings anything in. -/
theorem of_same (h : Bounded K s) (hdone : s'.done ++ s'.taken = s.done ++ s.taken)
    (hw : s'.returned ++ s'.queue = s.returned ++ s.queue) (hj : s'.jobs = s.jobs)
    (hp : ∀ m ∈ s'.pending, m ∈ s.pending) : Bounded K s' where
  split := by rw [hdone]; exact h.split
  ahead := by
    rw [hdone, waiting, hw, hj]
    exact h.ahead
  behind e he m hm := by
    rw [hdone] at he
    rw [hj] at hm
    refine h.behind e he m ?_
    rcases List.mem_append.1 hm with hm | hm
    · exact List.mem_append_left _ hm
    · exact List.mem_append_right _ (hp m hm)
  jobs := by rw [hj]; exact h.jobs
  clear := by rw [hw, hj]; exact h.clear

/-- Events that are taken up from the waiting ones. -/
theorem taking (h : Bounded K s) (hn : Numbered K s) (ho : InOrder K s) (ho' : InOrder K s') {es : List ε}
    (hn' : Numbered K s') (ht : s.taken = []) (hdone : s'.done = s.done) (htaken : s'.taken = es.map .event)
    (hsub : ∀ e ∈ es, e ∈ waiting s) (hw : ∀ e ∈ waiting s', e ∈ waiting s) (hpend : s'.pending = s.pending)
    (hjobs : ∀ m ∈ marks (jobItems s'.jobs), m ∈ marks (jobItems s.jobs) ∧ ∀ e ∈ es, K.key e < K.point m)
    (hj : (jobItems s'.jobs).Pairwise (Before K)) (hclear : ∀ e ∈ s'.returned ++ s'.queue, Clear K e s'.jobs) :
    Bounded K s' := by
  have hdone' : ∀ x, x ∈ s.done → x ∈ s.done ++ s.taken := fun x hx => List.mem_append_left _ hx
  obtain ⟨rest, hs, -⟩ := ho'.split
  have hasc := Ascending.append_iff.1 (Ascending.append_iff.1 (hs ▸ survivors_ascending hn')).1
  rw [hdone, htaken, events_map_event] at hasc
  refine ⟨?_, fun m hm e he => ?_, fun e he m hm => ?_, hj, hclear⟩
  · rw [hdone, htaken, List.pairwise_append]
    have hsplit := h.split
    rw [ht, List.append_nil] at hsplit
    refine ⟨hsplit, pairwise_map_event.2 hasc.2.1, fun x hx y hy => ?_⟩
    obtain ⟨e, he, rfl⟩ := List.mem_map.1 hy
    cases x with
    | event e' => exact hasc.2.2 e' ((mem_events _).2 hx) e he
    | mark m => exact h.ahead m (hdone' _ hx) e (hsub e he)
  · rw [hdone, htaken] at hm
    have hmd : Item.mark m ∈ s.done := by
      rcases List.mem_append.1 hm with hm | hm
      · exact hm
      · obtain ⟨_, _, hc⟩ := List.mem_map.1 hm
        cases hc
    exact h.ahead m (hdone' _ hmd) e (hw e he)
  · rw [hdone, htaken] at he
    rcases List.mem_append.1 hm with hm | hm
    · obtain ⟨hold, hnew⟩ := hjobs m hm
      rcases List.mem_append.1 he with he | he
      · exact h.behind e (hdone' _ he) m (List.mem_append_left _ hold)
      · obtain ⟨e', he', hc⟩ := List.mem_map.1 he
        cases hc
        exact hnew e he'
    · rw [hpend] at hm
      -- a pending mark was recorded behind everything dispatched so far
      rw [hn.pending m hm]
      refine hn.key_lt (ho.mem_dispatched ?_)
      rcases List.mem_append.1 he with he | he
      · exact List.mem_append_left _ (List.mem_append_left _ ((mem_events _).2 he))
      · obtain ⟨e', he', hc⟩ := List.mem_map.1 he
        cases hc
        exact List.mem_append_right _ (hsub e he')

/-- Marks that are taken up next. -/
theorem marking (h : Bounded K s) (hn' : Numbered K s') {ms : List μ} (ht : s.taken = []) (hdone : s'.done = s.done)
    (htaken : s'.taken = ms.map .mark) (hms : ∀ m ∈ ms, m ∈ marks (jobItems s.jobs) ++ s.pending)
    (hw : waiting s' = waiting s) (hpass : ∀ m ∈ ms, ∀ e ∈ waiting s, K.point m ≤ K.key e)
    (hrest : ∀ m ∈ marks (jobItems s'.jobs) ++ s'.pending, m ∈ marks (jobItems s.jobs) ++ s.pending)
    (hj : (jobItems s'.jobs).Pairwise (Before K)) (hclear : ∀ e ∈ s'.returned ++ s'.queue, Clear K e s'.jobs) :
    Bounded K s' := by
  have hdone' : ∀ x, x ∈ s.done → x ∈ s.done ++ s.taken := fun x hx => List.mem_append_left _ hx
  have hline := hn'.line
  rw [markLine, hdone, htaken, marks_map_mark, List.append_assoc] at hline
  have hmarks := List.pairwise_append.1 (List.pairwise_append.1 hline).1
  refine ⟨?_, fun m hm e he => ?_, fun e he m hm => ?_, hj, hclear⟩
  · rw [hdone, htaken, List.pairwise_append]
    have hsplit := h.split
    rw [ht, List.append_nil] at hsplit
    refine ⟨hsplit, pairwise_map_mark.2 hmarks.2.1, fun x hx y hy => ?_⟩
    obtain ⟨m, hm, rfl⟩ := List.mem_map.1 hy
    cases x with
    | event e => exact h.behind e (hdone' _ hx) m (hms m hm)
    | mark m' => exact hmarks.2.2 m' ((mem_marks _).2 hx) m hm
  · rw [hw] at he
    rw [hdone, htaken] at hm
    rcases List.mem_append.1 hm with hm | hm
    · exact h.ahead m (hdone' _ hm) e he
    · obtain ⟨m', hm', hc⟩ := List.mem_map.1 hm
      cases hc
      exact hpass m hm' e he
  · rw [hdone, htaken] at he
    rcases List.mem_append.1 he with he | he
    · exact h.behind e (hdone' _ he) m (hrest m hm)
    · obtain ⟨_, _, hc⟩ := List.mem_map.1 he
      cases hc

end Bounded

/-- Orderly and covering moves keep the boundaries. -/
theorem Move.bounded (hm : Move K s a s') (hn : Numbered K s) (ho : Orderly s a) (hc : Covering K s a)
    (hq : s.queued = true) (hio : InOrder K s) (h : Bounded K s) : Bounded K s' := by
  have hn' := hm.numbered hn
  have hio' := hm.inOrder hn ho hq hio
  have hlt : ∀ e, e ∈ waiting s → K.key e < s.dispatched.length :=
    fun e he => hn.key_lt (hio.mem_dispatched (List.mem_append_right _ he))
  have hpoint : ∀ m, m ∈ markLine s → K.point m ≤ s.dispatched.length := hn.points
  -- A new event is the last one dispatched, so every mark that was taken up lies ahead of it.
  have hnew : ∀ e, K.key e = s.dispatched.length → ∀ m, Item.mark m ∈ s.done ++ s.taken →
      ∀ x, x ∈ waiting s ∨ x = e → K.point m ≤ K.key x := by
    rintro e he m hm x (hx | rfl)
    · exact h.ahead m hm x hx
    · rw [he]
      refine hpoint m (List.mem_append_left _ (List.mem_append_left _ ?_))
      rw [← marks_append]
      exact (mem_marks _).2 hm
  cases hm with
  | record m hord hpt =>
    refine ⟨h.split, h.ahead, fun e he x hx => ?_, h.jobs, h.clear⟩
    rw [← List.append_assoc] at hx
    rcases List.mem_append.1 hx with hx | hx
    · exact h.behind e he x hx
    · rw [List.mem_singleton.1 hx, hpt]
      refine hn.key_lt (hio.mem_dispatched (List.mem_append_left _ ?_))
      rw [← events_append]
      exact (mem_events _).2 he
  | take =>
    obtain ⟨hret, hcov⟩ := hc
    refine ⟨h.split, ?_, fun e he m hm => ?_, ?_, fun e he => ?_⟩
    · intro m hm e he
      refine h.ahead m hm e ?_
      simpa [waiting] using he
    · refine h.behind e he m ?_
      simpa [Job.items] using hm
    · rw [jobItems_append, List.pairwise_append]
      have hline := hn.line
      rw [markLine, List.pairwise_append] at hline
      refine ⟨h.jobs, by simpa [Job.items] using pairwise_map_mark.2 hline.2.1, fun x hx y hy => ?_⟩
      obtain ⟨m, hmp, rfl⟩ : ∃ m ∈ s.pending, Item.mark m = y := by simpa [Job.items] using hy
      cases x with
      | event e =>
        -- the jobs hold ordered events only, and these were dispatched before the mark
        have := hlt e (List.mem_append_right _ (hio.mem_jobItems.1 hx))
        simp only [Before, hn.pending m hmp]
        omega
      | mark m' =>
        refine hline.2.2 m' ?_ m hmp
        exact List.mem_append_right _ ((mem_marks _).2 hx)
    · have heq : e ∈ s.queue := by simpa [hret] using he
      exact (h.clear e he).append (Or.inr (hcov e heq))
  | drop => exact h.of_same rfl rfl rfl (by simp)
  | push e hq' hp he =>
    have hpt : ∀ m ∈ markLine s, K.point m ≤ K.key e := fun m hm => he ▸ hpoint m hm
    refine ⟨h.split, fun m hm x hx => hnew e he m hm x ?_, h.behind, h.jobs, fun x hx => ?_⟩
    · simp only [waiting, List.mem_append, List.mem_singleton] at hx ⊢
      tauto
    · have hx' : x ∈ s.returned ++ s.queue ∨ x = e := by
        simp only [List.mem_append, List.mem_singleton] at hx ⊢
        tauto
      rcases hx' with hx' | rfl
      · exact h.clear x hx'
      · exact .of_points fun m hm => hpt m (List.mem_append_left _ (List.mem_append_right _ hm))
  | order e hq' hp he =>
    have hpt : ∀ m ∈ markLine s, K.point m ≤ K.key e := fun m hm => he ▸ hpoint m hm
    refine ⟨h.split, fun m hm x hx => hnew e he m hm x ?_, ?_, ?_,
      fun x hx => (h.clear x hx).append (Or.inl (Or.inr trivial))⟩
    · simp only [waiting, ordered_append, ordered_cons_ordered, ordered_nil, List.mem_append, List.mem_singleton]
        at hx ⊢
      tauto
    · simpa [Job.items] using h.behind
    · rw [jobItems_append, List.pairwise_append]
      refine ⟨h.jobs, by simp [Job.items], fun x hx y hy => ?_⟩
      obtain rfl : y = .event e := by simpa [Job.items] using hy
      cases x with
      | event e' =>
        have := hlt e' (List.mem_append_right _ (hio.mem_jobItems.1 hx))
        simp only [Before]
        omega
      | mark m =>
        exact hpt m (List.mem_append_left _ (List.mem_append_right _ ((mem_marks _).2 hx)))
  | defer e hq' hp he => rw [hq] at hq'; cases hq'
  | lose e hp he => exact h.of_same rfl rfl rfl fun _ => id
  | runEvent e rest hj ht => exact absurd (hj ▸ List.mem_cons_self ..) (hio.plain e)
  | runOrdered e jobs hj ht =>
    have hret : s.returned = [] := ho e jobs hj
    have hjobs := h.jobs
    rw [hj, jobItems_cons] at hjobs
    obtain ⟨-, hjobs', hcross⟩ := List.pairwise_append.1 hjobs
    have hclear := h.clear
    rw [hj] at hclear
    have hsub : ∀ x ∈ s.queue, x ∈ waiting s := fun x hx => List.mem_append_left _ (List.mem_append_right _ hx)
    have hew : e ∈ waiting s := List.mem_append_right _ (by simp [hj])
    refine h.taking hn hio hio' hn' ht rfl rfl (fun x hx => ?_) (fun x hx => ?_) rfl (fun m hm => ⟨?_, fun x hx => ?_⟩)
      hjobs' fun x hx => ?_
    · rcases List.mem_append.1 hx with hx | hx
      · exact hsub x ((List.takeWhile_sublist _).subset hx)
      · rwa [List.mem_singleton.1 hx]
    · simp only [waiting, hret, hj, List.nil_append, List.mem_append, ordered_cons_ordered, List.mem_cons] at hx ⊢
      rcases hx with hx | hx
      · exact Or.inl ((List.dropWhile_sublist _).subset hx)
      · exact Or.inr (Or.inr hx)
    · rw [hj, jobItems_cons, marks_append]
      exact List.mem_append_right _ hm
    · have hem : K.key e < K.point m := hcross (.event e) (by simp [Job.items]) (.mark m) ((mem_marks _).1 hm)
      rcases List.mem_append.1 hx with hx | hx
      · exact (Ascending.takeWhile_lt hx).trans hem
      · rwa [List.mem_singleton.1 hx]
    · -- what stays queued is not before the event, so the job was not what cleared it
      have hxq : x ∈ s.queue.dropWhile fun y => K.key y < K.key e := by simpa [hret] using hx
      have hle := hio.queue.dropWhile_le hxq
      rcases hclear x (List.mem_append_right _ ((List.dropWhile_sublist _).subset hxq)) with hlt' | hcl
      · omega
      · exact hcl
  | runMarks ms jobs hj ht =>
    have hjobs := h.jobs
    rw [hj, jobItems_cons] at hjobs
    obtain ⟨-, hjobs', hcross⟩ := List.pairwise_append.1 hjobs
    have hclear := h.clear
    rw [hj] at hclear
    have hmem : ∀ m, m ∈ ms → m ∈ marks (jobItems s.jobs) := by
      intro m hm
      rw [hj, jobItems_cons, marks_append]
      exact List.mem_append_left _ (by simpa [Job.items] using hm)
    refine h.marking hn' ht rfl rfl (fun m hm => List.mem_append_left _ (hmem m hm)) (by simp [waiting, hj])
      (fun m hm e he => ?_) (fun m hm => ?_) hjobs' fun e he => (hclear e he).2
    · rcases List.mem_append.1 he with he | he
      · exact (hclear e he).1 m hm
      · have hej : Item.event e ∈ jobItems jobs := by
          have := hio.mem_jobItems.2 he
          rw [hj, jobItems_cons] at this
          simpa [Job.items] using this
        exact hcross (.mark m) (by simpa [Job.items] using hm) (.event e) hej
    · rcases List.mem_append.1 hm with hm | hm
      · rw [hj, jobItems_cons, marks_append]
        exact List.mem_append_left _ (List.mem_append_right _ hm)
      · exact List.mem_append_right _ hm
  | finish xs rest ht => exact h.of_same (by simp [ht]) rfl rfl fun _ => id
  | grab n hq' hj ht hr =>
    refine h.taking hn hio hio' hn' ht rfl rfl (fun x hx => ?_) (fun x hx => ?_) rfl (by simp [hj]) (by simp [hj])
      (by simp [hj, Clear])
    · exact List.mem_append_left _ (List.mem_append_right _ (List.mem_of_mem_take hx))
    · simp only [waiting, List.mem_append] at hx ⊢
      exact hx.imp_left (Or.imp_right List.mem_of_mem_drop)
  | quit hq' hr => exact h.of_same rfl (by simp [hr]) rfl fun _ => id
  | rejoin hq' hj ht =>
    refine h.taking hn hio hio' hn' ht rfl rfl (fun x hx => ?_) (fun x hx => ?_) rfl (by simp [hj]) (by simp [hj])
      (by simp [hj, Clear])
    · exact List.mem_append_left _ (List.mem_append_left _ hx)
    · simp only [waiting, List.nil_append, List.mem_append] at hx ⊢
      tauto
  | tick hj ht =>
    refine h.marking hn' ht rfl rfl (fun m hm => List.mem_append_right _ hm) rfl (fun m hm e he => ?_)
      (by simp [hj]) (by simp [hj]) (by simp [hj, Clear])
    rcases hc with hc | ⟨hr, hqe⟩
    · simp [hc] at hm
    · simp [waiting, hr, hqe, hj] at he

/-! ## No mark is late -/

/-- An event is ahead of a mark only if it was dispatched before the mark was recorded. -/
def OnTime (K : Keys ε μ) : Item ε μ → Item ε μ → Prop
  | .event e, .mark m => K.key e < K.point m
  | _, _ => True

/-- What the writer has got and will get from the jobs, in that order. -/
def served (s : Traffic ε μ) : List (Item ε μ) := s.done ++ s.taken ++ jobItems s.jobs

theorem onTime_event (x : Item ε μ) (e : ε) : OnTime K x (.event e) := by
  cases x <;> trivial

theorem pairwise_onTime_events (es : List ε) : (es.map (Item.event (μ := μ))).Pairwise (OnTime K) :=
  List.pairwise_map.2 (List.pairwise_of_forall fun _ _ => trivial)

/-- Events may join the line at its end. -/
theorem onTime_events {l : List (Item ε μ)} (h : l.Pairwise (OnTime K)) (es : List ε) :
    (l ++ es.map Item.event).Pairwise (OnTime K) := by
  refine List.pairwise_append.2 ⟨h, pairwise_onTime_events es, fun x _ y hy => ?_⟩
  obtain ⟨e, _, rfl⟩ := List.mem_map.1 hy
  exact onTime_event x e

/-- So may marks that were recorded after everything dispatched. -/
theorem onTime_marks {l : List (Item ε μ)} (h : l.Pairwise (OnTime K)) {ms : List μ}
    (hlate : ∀ e, Item.event e ∈ l → ∀ m ∈ ms, K.key e < K.point m) : (l ++ ms.map Item.mark).Pairwise (OnTime K) := by
  refine List.pairwise_append.2 ⟨h, List.pairwise_map.2 (List.pairwise_of_forall fun _ _ => trivial),
    fun x hx y hy => ?_⟩
  obtain ⟨m, hm, rfl⟩ := List.mem_map.1 hy
  cases x with
  | event e => exact hlate e hx m hm
  | mark m' => trivial

/-- Every move keeps the marks on time. -/
theorem Move.onTime (hm : Move K s a s') (hn : Numbered K s) (hpool : (pool s).Perm s.dispatched)
    (h : (served s).Pairwise (OnTime K)) : (served s').Pairwise (OnTime K) := by
  -- a pending mark is recorded behind every event of the line
  have hpending : ∀ e, Item.event e ∈ served s → ∀ m ∈ s.pending, K.key e < K.point m := by
    intro e he m hm
    rw [hn.pending m hm]
    refine hn.key_lt (hpool.subset ?_)
    have hev : e ∈ events (served s) := (mem_events _).2 he
    simp only [served, events_append, List.mem_append] at hev
    simp only [pool, List.mem_append]
    tauto
  cases hm with
  | record m ho hp => exact h
  | take =>
    have hline : served { s with pending := [], jobs := s.jobs ++ [.marks s.pending] } =
        served s ++ s.pending.map .mark := by
      simp [served, Job.items]
    rw [hline]
    exact onTime_marks h hpending
  | drop | push _ _ _ _ | lose _ _ _ | quit _ _ => exact h
  | order e _ _ _ =>
    have hline : served { s with dispatched := s.dispatched ++ [e], jobs := s.jobs ++ [.ordered e] } =
        served s ++ [e].map .event := by
      simp [served, Job.items]
    rw [hline]
    exact onTime_events h [e]
  | defer e _ _ _ =>
    have hline : served { s with dispatched := s.dispatched ++ [e], jobs := s.jobs ++ [.event e] } =
        served s ++ [e].map .event := by
      simp [served, Job.items]
    rw [hline]
    exact onTime_events h [e]
  | runEvent e rest hj ht =>
    have hline : served { s with jobs := rest, taken := [.event e] } = served s := by
      simp [served, hj, ht, Job.items]
    rw [hline]
    exact h
  | runOrdered e rest hj ht =>
    -- what the job takes from the queue goes right before its event, and has a smaller key
    have hold : served s = s.done ++ (.event e :: jobItems rest) := by
      simp [served, hj, ht, Job.items]
    rw [hold] at h
    obtain ⟨hdone, hrest, hcross⟩ := List.pairwise_append.1 h
    obtain ⟨hhead, htail⟩ := List.pairwise_cons.1 hrest
    simp only [served]
    refine List.pairwise_append.2 ⟨onTime_events hdone _, htail, fun x hx y hy => ?_⟩
    rcases List.mem_append.1 hx with hx | hx
    · exact hcross x hx y (List.mem_cons_of_mem _ hy)
    · obtain ⟨e', he', rfl⟩ := List.mem_map.1 hx
      cases y with
      | event e'' => trivial
      | mark m =>
        have hem : K.key e < K.point m := hhead (.mark m) hy
        rcases List.mem_append.1 he' with he' | he'
        · exact (Ascending.takeWhile_lt he').trans hem
        · rw [List.mem_singleton.1 he']
          exact hem
  | runMarks ms rest hj ht =>
    have hline : served { s with jobs := rest, taken := ms.map .mark } = served s := by
      simp [served, hj, ht, Job.items]
    rw [hline]
    exact h
  | finish xs rest ht =>
    have hline : served { s with taken := rest, done := s.done ++ xs } = served s := by
      simp [served, ht]
    rw [hline]
    exact h
  | grab n _ hj ht _ =>
    have hold : served s = s.done := by simp [served, hj, ht]
    rw [hold] at h
    simp only [served, hj, jobItems_nil, List.append_nil]
    exact onTime_events h _
  | rejoin _ hj ht =>
    have hold : served s = s.done := by simp [served, hj, ht]
    rw [hold] at h
    simp only [served, hj, jobItems_nil, List.append_nil]
    exact onTime_events h _
  | tick hj ht =>
    have hold : served s = s.done := by simp [served, hj, ht]
    rw [hold] at h hpending
    simp only [served, hj, jobItems_nil, List.append_nil]
    exact onTime_marks h hpending

end Invariants

/-! ## Runs -/

section Runs

variable {K : Keys ε μ} {Q : Traffic ε μ → Action → Prop} {s : Traffic ε μ}

theorem Runs.aligned (h : Runs K Q false s) : Aligned K s := by
  refine h.invariant (I := Aligned K) ?_ fun _ _ _ hr _ hm hal => hm.aligned (Runs.numbered hr) (Runs.queued hr) hal
  rintro s rfl
  exact ⟨by simp [line], by simp [line], ⟨rfl, rfl⟩, by simp⟩

theorem Runs.bounded (hQ : ∀ s a, Q s a → Orderly s a ∧ Covering K s a) (h : Runs K Q true s) : Bounded K s := by
  refine h.invariant (I := Bounded K) ?_ fun s a _ hr ha hm hb => hm.bounded (Runs.numbered hr) (hQ s a ha).1
    (hQ s a ha).2 (Runs.queued hr) (Runs.inOrder (fun s a ha => (hQ s a ha).1) hr) hb
  rintro s rfl
  exact ⟨by simp, by simp, by simp, by simp, by simp⟩

theorem Runs.onTime {q : Bool} (h : Runs K Q q s) : (served s).Pairwise (OnTime K) := by
  refine h.invariant (I := fun s => (served s).Pairwise (OnTime K)) ?_
    fun _ _ _ hr _ hm ht => hm.onTime (Runs.numbered hr) (Runs.pooled hr) ht
  rintro s rfl
  exact List.Pairwise.nil

end Runs

end Lanes

import EventStream.WellFormed

/-!
# The two threads around the queue

Pushes and drains one atomic step at a time: the spinning on the queue's mutex, what is done while it is held, and the
gauge and the counters that are updated inside and outside of it. The main thread dispatches and runs the jobs of
fallbacks, the worker waits, prepares envelopes and drains; both push and drain under the server's lock only.

- `step`: the steps of the two threads;
- `Exclusive`, `Shaped`, `Balanced`: who holds what, the shape of the queue, and the sums of gauge and counters with
  what the threads have still to add to them (`Pc.gauge`, `Pc.uncounted`, `Pc.pushed`, `Pc.gone`);
- `queue_sound`: what this says where the mutex is free, or the main thread is between two dispatches or jobs.
-/

namespace EventStream

/-! ## Threads -/

inductive Thread
  | main | worker
  deriving DecidableEq

/-- What a drain takes: a batch, what was dispatched before a fallback, or a prepared envelope. -/
inductive Take
  | batch (limit : Nat)
  | before (id : Nat)
  | snapshot (s : EnvelopeSnapshot)

/-- How many events are removed, and what is left; a stale snapshot removes nothing. -/
def Take.cut (queue : List Queued) : Take → Option (Nat × List Queued)
  | batch limit => some ((drain queue limit).1.length, (drain queue limit).2)
  | before id => some ((drainBefore queue id).1.length, (drainBefore queue id).2)
  | snapshot s => (drainSnapshot queue s).map fun rest => (s.count, rest)

/-- Where a thread is. -/
inductive Pc
  /-- Between two operations on the queue. -/
  | idle
  /-- `try_push`: the id is drawn, and the mutex is tried. -/
  | spinning (q : Queued)
  /-- The mutex is held; is there room? -/
  | checking (q : Queued)
  /-- Pushed; the gauge is next. -/
  | publishing (depth : Nat)
  | unlocking (depth : Nat)
  /-- The mutex is free again; the event is to be counted as enqueued. -/
  | accepted (depth : Nat)
  | raising (depth : Nat)
  /-- No room; the mutex is still held. -/
  | full (q : Queued)
  /-- Not pushed; the event is to be counted as a fallback. -/
  | refused (q : Queued)
  | deferring (q : Queued)
  /-- `drain`, `drain_before` and `drain_snapshot`, before the mutex. -/
  | taking (what : Take)
  | cutting (what : Take)
  /-- Removed; the gauge is next. -/
  | lowering (count : Nat)
  | leaving (count : Nat)
  /-- The mutex is free again; the drain is to be counted. -/
  | drained (count : Nat)
  | summing (count : Nat)
  /-- `wait_until_ready`, or `prepare_envelopes` with its limit, before the mutex. -/
  | asking (limit : Option Nat)
  | reading (limit : Option Nat)

namespace Pc

def isIdle : Pc → Bool
  | idle => true
  | _ => false

/-- The thread holds the mutex. -/
def critical : Pc → Bool
  | checking _ | publishing _ | unlocking _ | full _ | cutting _ | lowering _ | leaving _ | reading _ => true
  | _ => false

/-- The thread pushes or drains. -/
def writing : Pc → Bool
  | idle | asking _ | reading _ => false
  | _ => true

/-- What the gauge has still to move by. -/
def gauge : Pc → Int
  | publishing _ => 1
  | lowering count => - count
  | _ => 0

/-- The thread has an event that is neither counted as enqueued nor as a fallback. -/
def uncounted : Pc → Nat
  | spinning _ | checking _ | publishing _ | unlocking _ | accepted _ | full _ | refused _ => 1
  | _ => 0

/-- The thread has pushed an event that it has not counted as enqueued. -/
def pushed : Pc → Nat
  | publishing _ | unlocking _ | accepted _ => 1
  | _ => 0

/-- What the thread has drained and not counted. -/
def gone : Pc → Nat
  | lowering count | leaving count | drained count | summing count => count
  | _ => 0

theorem gauge_eq_zero {p : Pc} (h : p.critical = false) : p.gauge = 0 := by
  cases p with
  | publishing depth | lowering count => cases h
  | _ => rfl

/-- A thread that does not push or drain has nothing to add. -/
theorem weights_of_reader {p : Pc} (h : p.writing = false) :
    p.gauge = 0 ∧ p.uncounted = 0 ∧ p.pushed = 0 ∧ p.gone = 0 := by
  cases p with
  | idle | asking _ | reading _ => exact ⟨rfl, rfl, rfl, rfl⟩
  | _ => cases h

end Pc

/-- The statics of the dispatch, and the two threads. -/
structure Threads where
  mutex : Option Thread
  /-- Who holds the server's lock. -/
  holder : Option Thread
  queue : List Queued
  nextId : Nat
  depth : Int
  highWater : Nat
  enqueued : Nat
  fallbacks : Nat
  drains : Nat
  drainEvents : Nat
  /-- The registered jobs of fallbacks. -/
  jobs : List Queued
  pc : Thread → Pc
  /-- Ghosts: the events dispatched, and the snapshots prepared. -/
  dispatched : List Queued
  taken : List EnvelopeSnapshot

namespace Threads

def initial : Threads where
  mutex := none
  holder := some .main
  queue := []
  nextId := 0
  depth := 0
  highWater := 0
  enqueued := 0
  fallbacks := 0
  drains := 0
  drainEvents := 0
  jobs := []
  pc := fun _ => .idle
  dispatched := []
  taken := []

def goto (w : Threads) (t : Thread) (p : Pc) : Threads := { w with pc := Function.update w.pc t p }

/-! ## Steps -/

/-- The next step of an operation under way. -/
def advance (capacity : Nat) (w : Threads) (t : Thread) : Option Threads :=
  match w.pc t with
  | .idle | .deferring _ => none
  | .spinning q => if w.mutex = none then some ({ w with mutex := some t }.goto t (.checking q)) else none
  | .checking q =>
    match tryPush capacity w.queue false q with
    | none => some (w.goto t (.full q))
    | some queue => some ({ w with queue := queue }.goto t (.publishing queue.length))
  | .publishing depth => some ({ w with depth := w.depth + 1 }.goto t (.unlocking depth))
  | .unlocking depth => some ({ w with mutex := none }.goto t (.accepted depth))
  | .accepted depth => some ({ w with enqueued := w.enqueued + 1 }.goto t (.raising depth))
  | .raising depth => some ({ w with highWater := max w.highWater depth }.goto t .idle)
  | .full q => some ({ w with mutex := none }.goto t (.refused q))
  | .refused q => some ({ w with fallbacks := w.fallbacks + 1 }.goto t (.deferring q))
  | .taking what => if w.mutex = none then some ({ w with mutex := some t }.goto t (.cutting what)) else none
  | .cutting what =>
    match what.cut w.queue with
    | none => some (w.goto t (.leaving 0))
    | some (count, queue) => some ({ w with queue := queue }.goto t (.lowering count))
  | .lowering count => some ({ w with depth := w.depth - count }.goto t (.leaving count))
  | .leaving count => some ({ w with mutex := none }.goto t (if count = 0 then .idle else .drained count))
  | .drained count => some ({ w with drains := w.drains + 1 }.goto t (.summing count))
  | .summing count => some ({ w with drainEvents := w.drainEvents + count }.goto t .idle)
  | .asking limit => if w.mutex = none then some ({ w with mutex := some t }.goto t (.reading limit)) else none
  | .reading none => some ({ w with mutex := none }.goto t .idle)
  | .reading (some limit) =>
    some ({ w with mutex := none, taken := w.taken ++ (prepareEnvelopes w.queue limit).toList }.goto t .idle)

inductive Act
  | acquire (t : Thread)
  | release (t : Thread)
  /-- The main thread begins to dispatch an event. -/
  | dispatch (event : PendingEvent)
  /-- Its spins are used up, or the mutex is poisoned. -/
  | giveUp
  /-- The job of the fallback is registered, or cannot be. -/
  | defer (registered : Bool)
  /-- The main thread runs the first job; the events it takes are processed in between the steps. -/
  | runJob
  /-- The worker looks at the queue, and prepares envelopes if there is a limit. -/
  | ask (limit : Option Nat)
  /-- The worker drains: a batch, or an envelope prepared before. -/
  | drainBatch (limit : Nat)
  | drainPrepared (s : EnvelopeSnapshot)
  | advance (t : Thread)

def step (capacity : Nat) (w : Threads) : Act → Option Threads
  | .acquire t => if w.holder = none ∧ (w.pc t).isIdle then some { w with holder := some t } else none
  | .release t => if w.holder = some t ∧ (w.pc t).isIdle ∧ w.jobs = [] then some { w with holder := none } else none
  | .dispatch event =>
    if w.holder = some .main ∧ (w.pc .main).isIdle then
      let q : Queued := ⟨w.nextId, event⟩
      some ({ w with nextId := w.nextId + 1, dispatched := w.dispatched ++ [q] }.goto .main (.spinning q))
    else none
  | .giveUp =>
    match w.pc .main with
    | .spinning q => some (w.goto .main (.refused q))
    | _ => none
  | .defer registered =>
    match w.pc .main with
    | .deferring q => some ({ w with jobs := if registered then w.jobs ++ [q] else w.jobs }.goto .main .idle)
    | _ => none
  | .runJob =>
    match w.jobs with
    | [] => none
    | q :: jobs =>
      if w.holder = some .main ∧ (w.pc .main).isIdle then
        some ({ w with jobs := jobs }.goto .main (.taking (.before q.id)))
      else none
  | .ask limit => if (w.pc .worker).isIdle then some (w.goto .worker (.asking limit)) else none
  | .drainBatch limit =>
    if w.holder = some .worker ∧ (w.pc .worker).isIdle then some (w.goto .worker (.taking (.batch limit))) else none
  | .drainPrepared s =>
    if w.holder = some .worker ∧ (w.pc .worker).isIdle ∧ s ∈ w.taken then
      some (w.goto .worker (.taking (.snapshot s)))
    else none
  | .advance t => w.advance capacity t

/-- The states of the runs of the two threads. -/
def Reach (capacity : Nat) : Threads → Prop :=
  Machine.Reach (fun w act w' => step capacity w act = some w') (fun _ _ => True) fun w => w = initial

/-! ## What a step does -/

/-- The steps with their conditions. A thread that begins to drain holds the server's lock. -/
inductive Moves (capacity : Nat) (w : Threads) : Threads → Prop
  | acquire (t : Thread) (h : w.holder = none) : Moves capacity w { w with holder := some t }
  | release (t : Thread) (h : w.holder = some t) (hpc : w.pc t = .idle) : Moves capacity w { w with holder := none }
  | dispatch (q : Queued) (hheld : w.holder = some .main) (hpc : w.pc .main = .idle) (hid : q.id = w.nextId) :
      Moves capacity w ({ w with nextId := w.nextId + 1, dispatched := w.dispatched ++ [q] }.goto .main (.spinning q))
  | giveUp (q : Queued) (hpc : w.pc .main = .spinning q) : Moves capacity w (w.goto .main (.refused q))
  | defer (q : Queued) (jobs : List Queued) (hpc : w.pc .main = .deferring q) :
      Moves capacity w ({ w with jobs := jobs }.goto .main .idle)
  | ask (t : Thread) (limit : Option Nat) (hpc : w.pc t = .idle) : Moves capacity w (w.goto t (.asking limit))
  | take (t : Thread) (what : Take) (jobs : List Queued) (hheld : w.holder = some t) (hpc : w.pc t = .idle)
      (hs : ∀ s, what = .snapshot s → s ∈ w.taken) :
      Moves capacity w ({ w with jobs := jobs }.goto t (.taking what))
  | lockPush (t : Thread) (q : Queued) (hpc : w.pc t = .spinning q) (hfree : w.mutex = none) :
      Moves capacity w ({ w with mutex := some t }.goto t (.checking q))
  | push (t : Thread) (q : Queued) (hpc : w.pc t = .checking q) (hroom : w.queue.length < capacity) :
      Moves capacity w ({ w with queue := w.queue ++ [q] }.goto t (.publishing (w.queue.length + 1)))
  | full (t : Thread) (q : Queued) (hpc : w.pc t = .checking q) : Moves capacity w (w.goto t (.full q))
  | publish (t : Thread) (depth : Nat) (hpc : w.pc t = .publishing depth) :
      Moves capacity w ({ w with depth := w.depth + 1 }.goto t (.unlocking depth))
  | unlockPush (t : Thread) (depth : Nat) (hpc : w.pc t = .unlocking depth) :
      Moves capacity w ({ w with mutex := none }.goto t (.accepted depth))
  | enqueued (t : Thread) (depth : Nat) (hpc : w.pc t = .accepted depth) :
      Moves capacity w ({ w with enqueued := w.enqueued + 1 }.goto t (.raising depth))
  | raise (t : Thread) (depth : Nat) (hpc : w.pc t = .raising depth) :
      Moves capacity w ({ w with highWater := max w.highWater depth }.goto t .idle)
  | unlockFull (t : Thread) (q : Queued) (hpc : w.pc t = .full q) :
      Moves capacity w ({ w with mutex := none }.goto t (.refused q))
  | fallback (t : Thread) (q : Queued) (hpc : w.pc t = .refused q) :
      Moves capacity w ({ w with fallbacks := w.fallbacks + 1 }.goto t (.deferring q))
  | lockTake (t : Thread) (what : Take) (hpc : w.pc t = .taking what) (hfree : w.mutex = none) :
      Moves capacity w ({ w with mutex := some t }.goto t (.cutting what))
  | stale (t : Thread) (what : Take) (hpc : w.pc t = .cutting what) : Moves capacity w (w.goto t (.leaving 0))
  | cut (t : Thread) (what : Take) (count : Nat) (queue : List Queued) (hpc : w.pc t = .cutting what)
      (hcut : what.cut w.queue = some (count, queue)) :
      Moves capacity w ({ w with queue := queue }.goto t (.lowering count))
  | lower (t : Thread) (count : Nat) (hpc : w.pc t = .lowering count) :
      Moves capacity w ({ w with depth := w.depth - count }.goto t (.leaving count))
  | unlockNone (t : Thread) (hpc : w.pc t = .leaving 0) : Moves capacity w ({ w with mutex := none }.goto t .idle)
  | unlockTake (t : Thread) (count : Nat) (hpc : w.pc t = .leaving count) :
      Moves capacity w ({ w with mutex := none }.goto t (.drained count))
  | drained (t : Thread) (count : Nat) (hpc : w.pc t = .drained count) :
      Moves capacity w ({ w with drains := w.drains + 1 }.goto t (.summing count))
  | sum (t : Thread) (count : Nat) (hpc : w.pc t = .summing count) :
      Moves capacity w ({ w with drainEvents := w.drainEvents + count }.goto t .idle)
  | lockRead (t : Thread) (limit : Option Nat) (hpc : w.pc t = .asking limit) (hfree : w.mutex = none) :
      Moves capacity w ({ w with mutex := some t }.goto t (.reading limit))
  | read (t : Thread) (limit : Option Nat) (taken : List EnvelopeSnapshot) (hpc : w.pc t = .reading limit)
      (htaken : ∀ s ∈ taken, s ∈ w.taken ∨ ∃ n, prepareEnvelopes w.queue n = some s) :
      Moves capacity w ({ w with mutex := none, taken := taken }.goto t .idle)

theorem eq_idle {p : Pc} (h : p.isIdle = true) : p = .idle := by
  cases p with
  | idle => rfl
  | _ => cases h

theorem advance_moves {capacity : Nat} {w w' : Threads} {t : Thread} (h : w.advance capacity t = some w') :
    Moves capacity w w' := by
  unfold advance at h
  split at h <;> rename_i hpc
  · cases h
  · cases h
  · simp only [Option.ite_none_right_eq_some, Option.some.injEq] at h
    obtain ⟨hfree, rfl⟩ := h
    exact .lockPush t _ hpc hfree
  · rename_i q
    cases hpush : tryPush capacity w.queue false q with
    | none =>
      rw [hpush] at h
      injection h with h
      subst h
      exact .full t q hpc
    | some queue =>
      rw [hpush] at h
      injection h with h
      subst h
      have hroom : w.queue.length < capacity := Node.tryPush_room hpush
      rw [Node.tryPush_some hpush, List.length_append, List.length_singleton]
      exact .push t q hpc hroom
  · injection h with h
    subst h
    exact .publish t _ hpc
  · injection h with h
    subst h
    exact .unlockPush t _ hpc
  · injection h with h
    subst h
    exact .enqueued t _ hpc
  · injection h with h
    subst h
    exact .raise t _ hpc
  · injection h with h
    subst h
    exact .unlockFull t _ hpc
  · injection h with h
    subst h
    exact .fallback t _ hpc
  · simp only [Option.ite_none_right_eq_some, Option.some.injEq] at h
    obtain ⟨hfree, rfl⟩ := h
    exact .lockTake t _ hpc hfree
  · rename_i what
    cases hcut : what.cut w.queue with
    | none =>
      rw [hcut] at h
      injection h with h
      subst h
      exact .stale t what hpc
    | some r =>
      rw [hcut] at h
      injection h with h
      subst h
      exact .cut t what r.1 r.2 hpc hcut
  · injection h with h
    subst h
    exact .lower t _ hpc
  · rename_i count
    injection h with h
    subst h
    by_cases hzero : count = 0
    · subst hzero
      exact .unlockNone t hpc
    · rw [if_neg hzero]
      exact .unlockTake t count hpc
  · injection h with h
    subst h
    exact .drained t _ hpc
  · injection h with h
    subst h
    exact .sum t _ hpc
  · simp only [Option.ite_none_right_eq_some, Option.some.injEq] at h
    obtain ⟨hfree, rfl⟩ := h
    exact .lockRead t _ hpc hfree
  · injection h with h
    subst h
    exact .read t none w.taken hpc fun s hs => Or.inl hs
  · rename_i limit
    injection h with h
    subst h
    refine .read t (some limit) _ hpc fun s hs => ?_
    rcases List.mem_append.1 hs with hs | hs
    · exact Or.inl hs
    · exact Or.inr ⟨limit, Option.mem_toList.1 hs⟩

theorem step_moves {capacity : Nat} {w w' : Threads} {act : Act} (h : step capacity w act = some w') :
    Moves capacity w w' := by
  cases act with
  | acquire t =>
    simp only [step, Option.ite_none_right_eq_some, Option.some.injEq] at h
    obtain ⟨⟨hfree, -⟩, rfl⟩ := h
    exact .acquire t hfree
  | release t =>
    simp only [step, Option.ite_none_right_eq_some, Option.some.injEq] at h
    obtain ⟨⟨hheld, hidle, -⟩, rfl⟩ := h
    exact .release t hheld (eq_idle hidle)
  | dispatch event =>
    simp only [step, Option.ite_none_right_eq_some, Option.some.injEq] at h
    obtain ⟨⟨hheld, hidle⟩, rfl⟩ := h
    exact .dispatch ⟨w.nextId, event⟩ hheld (eq_idle hidle) rfl
  | giveUp =>
    simp only [step] at h
    split at h
    · rename_i hpc
      injection h with h
      subst h
      exact .giveUp _ hpc
    · cases h
  | defer registered =>
    simp only [step] at h
    split at h
    · rename_i hpc
      injection h with h
      subst h
      exact .defer _ _ hpc
    · cases h
  | runJob =>
    simp only [step] at h
    split at h
    · cases h
    · simp only [Option.ite_none_right_eq_some, Option.some.injEq] at h
      obtain ⟨⟨hheld, hidle⟩, rfl⟩ := h
      exact .take .main _ _ hheld (eq_idle hidle) (by simp)
  | ask limit =>
    simp only [step, Option.ite_none_right_eq_some, Option.some.injEq] at h
    obtain ⟨hidle, rfl⟩ := h
    exact .ask .worker limit (eq_idle hidle)
  | drainBatch limit =>
    simp only [step, Option.ite_none_right_eq_some, Option.some.injEq] at h
    obtain ⟨⟨hheld, hidle⟩, rfl⟩ := h
    exact .take .worker (.batch limit) w.jobs hheld (eq_idle hidle) (by simp)
  | drainPrepared s =>
    simp only [step, Option.ite_none_right_eq_some, Option.some.injEq] at h
    obtain ⟨⟨hheld, hidle, hs⟩, rfl⟩ := h
    exact .take .worker (.snapshot s) w.jobs hheld (eq_idle hidle) (by simpa using hs)
  | advance t => exact advance_moves h

/-! ## Sums over the threads -/

/-- What the two threads have to add. -/
def total {M : Type*} [Add M] (f : Pc → M) (pc : Thread → Pc) : M := f (pc .main) + f (pc .worker)

theorem total_update {M : Type*} [AddCommMonoid M] (f : Pc → M) (pc : Thread → Pc) (t : Thread) (p : Pc) :
    total f (Function.update pc t p) + f (pc t) = total f pc + f p := by
  cases t with
  | main =>
    simp only [total, Function.update_self, Function.update_of_ne (show Thread.worker ≠ .main by decide)]
    ac_rfl
  | worker =>
    simp only [total, Function.update_self, Function.update_of_ne (show Thread.main ≠ .worker by decide)]
    ac_rfl

/-! ## Who holds what -/

/-- One thread at a time is inside the mutex, and one at a time pushes or drains. -/
structure Exclusive (w : Threads) : Prop where
  mutex : ∀ t, w.mutex = some t ↔ (w.pc t).critical = true
  holder : ∀ t, (w.pc t).writing = true → w.holder = some t

namespace Exclusive

variable {capacity : Nat} {w w' : Threads} {t : Thread} {p : Pc}

/-- A step of a thread that may take the mutex or give it back. -/
theorem goto (h : Exclusive w) (hpc : w'.pc = Function.update w.pc t p) (hh : w'.holder = w.holder)
    (hself : w'.mutex = some t ↔ p.critical = true) (hother : ∀ u, u ≠ t → (w'.mutex = some u ↔ w.mutex = some u))
    (hwrite : p.writing = true → w.holder = some t) : Exclusive w' := by
  refine ⟨fun u => ?_, fun u hu => ?_⟩
  · rw [hpc]
    by_cases he : u = t
    · subst he
      rw [Function.update_self]
      exact hself
    · rw [Function.update_of_ne he, hother u he]
      exact h.mutex u
  · rw [hh]
    rw [hpc] at hu
    by_cases he : u = t
    · subst he
      rw [Function.update_self] at hu
      exact hwrite hu
    · rw [Function.update_of_ne he] at hu
      exact h.holder u hu

/-- A step that leaves the mutex as it is. -/
theorem keep (h : Exclusive w) (hpc : w'.pc = Function.update w.pc t p) (hh : w'.holder = w.holder)
    (hm : w'.mutex = w.mutex) (hcrit : p.critical = (w.pc t).critical) (hwrite : p.writing = true → w.holder = some t) :
    Exclusive w' := by
  refine h.goto hpc hh ?_ (fun u _ => by rw [hm]) hwrite
  rw [hm, hcrit]
  exact h.mutex t

/-- A step that takes the mutex. -/
theorem lock (h : Exclusive w) (hpc : w'.pc = Function.update w.pc t p) (hh : w'.holder = w.holder)
    (hfree : w.mutex = none) (hm : w'.mutex = some t) (hcrit : p.critical = true)
    (hwrite : p.writing = true → w.holder = some t) : Exclusive w' := by
  refine h.goto hpc hh (by simp [hm, hcrit]) (fun u hu => ?_) hwrite
  simp [hm, hfree, Ne.symm hu]

/-- A step that gives the mutex back. -/
theorem unlock (h : Exclusive w) (hpc : w'.pc = Function.update w.pc t p) (hh : w'.holder = w.holder)
    (hheld : (w.pc t).critical = true) (hm : w'.mutex = none) (hcrit : p.critical = false)
    (hwrite : p.writing = true → w.holder = some t) : Exclusive w' := by
  have hmine : w.mutex = some t := (h.mutex t).2 hheld
  refine h.goto hpc hh (by simp [hm, hcrit]) (fun u hu => ?_) hwrite
  simp [hm, hmine, Ne.symm hu]

/-- The other thread is outside, as long as one is inside. -/
theorem outside (h : Exclusive w) (hheld : (w.pc t).critical = true) {u : Thread} (hu : u ≠ t) :
    (w.pc u).critical = false := by
  by_contra hc
  have hmine := (h.mutex t).2 hheld
  rw [(h.mutex u).2 (by simpa using hc)] at hmine
  exact hu (by simpa using hmine)

theorem reader (h : Exclusive w) (hwrite : (w.pc t).writing = true) {u : Thread} (hu : u ≠ t) :
    (w.pc u).writing = false := by
  by_contra hc
  have hmine := h.holder t hwrite
  rw [h.holder u (by simpa using hc)] at hmine
  exact hu (by simpa using hmine)

theorem moves (h : Exclusive w) (hm : Moves capacity w w') : Exclusive w' := by
  cases hm with
  | acquire t hfree =>
    have hnone : ∀ u, (w.pc u).writing = true → False := fun u hu => by
      have hheld := h.holder u hu
      rw [hfree] at hheld
      cases hheld
    exact ⟨h.mutex, fun u hu => (hnone u hu).elim⟩
  | release t hheld hpc =>
    refine ⟨h.mutex, fun u hu => ?_⟩
    have hu' := h.holder u hu
    rw [hheld] at hu'
    injection hu' with hu'
    subst hu'
    rw [hpc] at hu
    cases hu
  | dispatch q hheld hpc => exact h.keep rfl rfl rfl (by rw [hpc]; rfl) fun _ => hheld
  | giveUp q hpc => exact h.keep rfl rfl rfl (by rw [hpc]; rfl) fun _ => h.holder _ (by rw [hpc]; rfl)
  | defer q jobs hpc => exact h.keep rfl rfl rfl (by rw [hpc]; rfl) fun hw => by cases hw
  | ask t limit hpc => exact h.keep rfl rfl rfl (by rw [hpc]; rfl) fun hw => by cases hw
  | take t what jobs hheld hpc => exact h.keep rfl rfl rfl (by rw [hpc]; rfl) fun _ => hheld
  | lockPush t q hpc hfree => exact h.lock rfl rfl hfree rfl rfl fun _ => h.holder t (by rw [hpc]; rfl)
  | lockTake t what hpc hfree => exact h.lock rfl rfl hfree rfl rfl fun _ => h.holder t (by rw [hpc]; rfl)
  | lockRead t limit hpc hfree => exact h.lock rfl rfl hfree rfl rfl fun hw => by cases hw
  | push t q hpc | full t q hpc | publish t depth hpc | enqueued t depth hpc | fallback t q hpc | stale t what hpc
  | cut t what count queue hpc | lower t count hpc | drained t count hpc =>
    exact h.keep rfl rfl rfl (by rw [hpc]; rfl) fun _ => h.holder t (by rw [hpc]; rfl)
  | raise t depth hpc | sum t count hpc => exact h.keep rfl rfl rfl (by rw [hpc]; rfl) fun hw => by cases hw
  | unlockPush t depth hpc | unlockFull t q hpc | unlockTake t count hpc =>
    exact h.unlock rfl rfl (by rw [hpc]; rfl) rfl rfl fun _ => h.holder t (by rw [hpc]; rfl)
  | unlockNone t hpc => exact h.unlock rfl rfl (by rw [hpc]; rfl) rfl rfl fun hw => by cases hw
  | read t limit taken hpc => exact h.unlock rfl rfl (by rw [hpc]; rfl) rfl rfl fun hw => by cases hw

end Exclusive

/-! ## Gauge and counters -/

/-- A drain takes the front of the queue. -/
theorem cut_eq {queue rest : List Queued} {what : Take} {count : Nat} (h : what.cut queue = some (count, rest)) :
    ∃ front, front ++ rest = queue ∧ front.length = count := by
  cases what with
  | batch limit =>
    injection h with h
    injection h with hcount hrest
    subst hcount hrest
    exact ⟨_, List.take_append_drop _ _, rfl⟩
  | before id =>
    injection h with h
    injection h with hcount hrest
    subst hcount hrest
    exact ⟨_, List.takeWhile_append_dropWhile, rfl⟩
  | snapshot s =>
    obtain ⟨left, hleft, hpair⟩ := Option.map_eq_some_iff.1 h
    injection hpair with hcount hrest
    subst hcount hrest
    unfold drainSnapshot at hleft
    split at hleft
    · rename_i hmatch
      injection hleft with hleft
      subst hleft
      obtain ⟨last, hlast, -⟩ := Option.map_eq_some_iff.1 hmatch.2
      have hlt : s.count - 1 < queue.length := (List.getElem?_eq_some_iff.1 hlast).1
      exact ⟨queue.take s.count, List.take_append_drop _ _, by rw [List.length_take]; omega⟩
    · cases hleft

/-- The gauge and the counters, with what the threads have still to add to them. -/
structure Balanced (w : Threads) : Prop where
  gauge : w.depth + total Pc.gauge w.pc = w.queue.length
  counted : w.enqueued + w.fallbacks + total Pc.uncounted w.pc = w.dispatched.length
  moved : w.enqueued + total Pc.pushed w.pc = w.drainEvents + total Pc.gone w.pc + w.queue.length

namespace Balanced

variable {capacity : Nat} {w w' : Threads} {t : Thread} {p : Pc}

/-- A step of a thread, by what it adds and what it has no longer to add. -/
theorem goto (h : Balanced w) (hpc : w'.pc = Function.update w.pc t p)
    (hgauge : w'.depth + p.gauge + w.queue.length = w.depth + (w.pc t).gauge + w'.queue.length)
    (hcount : w'.enqueued + w'.fallbacks + p.uncounted + w.dispatched.length =
      w.enqueued + w.fallbacks + (w.pc t).uncounted + w'.dispatched.length)
    (hmoved : w'.enqueued + p.pushed + w.drainEvents + (w.pc t).gone + w.queue.length =
      w.enqueued + (w.pc t).pushed + w'.drainEvents + p.gone + w'.queue.length) : Balanced w' := by
  obtain ⟨hg, hc, hm⟩ := h
  have hgauge' := total_update Pc.gauge w.pc t p
  have hcount' := total_update Pc.uncounted w.pc t p
  have hpushed' := total_update Pc.pushed w.pc t p
  have hgone' := total_update Pc.gone w.pc t p
  rw [← hpc] at hgauge' hcount' hpushed' hgone'
  exact ⟨by omega, by omega, by omega⟩

theorem moves (h : Balanced w) (hm : Moves capacity w w') : Balanced w' := by
  cases hm with
  | acquire t hfree => exact ⟨h.gauge, h.counted, h.moved⟩
  | release t hheld hpc => exact ⟨h.gauge, h.counted, h.moved⟩
  | dispatch q hheld hpc =>
    refine h.goto rfl ?_ ?_ ?_ <;> rw [hpc]
    · rfl
    · simp only [Threads.goto, Pc.uncounted, List.length_append, List.length_singleton]
      omega
    · rfl
  | push t q hpc =>
    refine h.goto rfl ?_ ?_ ?_ <;> rw [hpc]
    · simp only [Threads.goto, Pc.gauge, List.length_append, List.length_singleton]
      omega
    · rfl
    · simp only [Threads.goto, Pc.gone, Pc.pushed, List.length_append, List.length_singleton]
      omega
  | publish t depth hpc =>
    refine h.goto rfl ?_ ?_ ?_ <;> rw [hpc]
    · simp only [Threads.goto, Pc.gauge]
      omega
    · rfl
    · rfl
  | enqueued t depth hpc =>
    refine h.goto rfl ?_ ?_ ?_ <;> rw [hpc]
    · rfl
    · simp only [Threads.goto, Pc.uncounted]
      omega
    · simp only [Threads.goto, Pc.gone, Pc.pushed]
  | fallback t q hpc =>
    refine h.goto rfl ?_ ?_ ?_ <;> rw [hpc]
    · rfl
    · simp only [Threads.goto, Pc.uncounted]
      omega
    · rfl
  | cut t what count queue hpc hcut =>
    obtain ⟨front, hfront, hlen⟩ := cut_eq hcut
    have hsum : w.queue.length = count + queue.length := by rw [← hfront, List.length_append, hlen]
    refine h.goto rfl ?_ ?_ ?_ <;> rw [hpc]
    · simp only [Threads.goto, Pc.gauge]
      omega
    · rfl
    · simp only [Threads.goto, Pc.gone, Pc.pushed]
      omega
  | lower t count hpc =>
    refine h.goto rfl ?_ ?_ ?_ <;> rw [hpc]
    · simp only [Threads.goto, Pc.gauge]
      omega
    · rfl
    · rfl
  | sum t count hpc =>
    refine h.goto rfl ?_ ?_ ?_ <;> rw [hpc]
    · rfl
    · rfl
    · simp only [Threads.goto, Pc.gone, Pc.pushed]
      omega
  | giveUp q hpc | defer q jobs hpc | ask t limit hpc | take t what jobs hheld hpc | lockPush t q hpc | full t q hpc
  | unlockPush t depth hpc | raise t depth hpc | unlockFull t q hpc | lockTake t what hpc | stale t what hpc
  | unlockNone t hpc | unlockTake t count hpc | drained t count hpc | lockRead t limit hpc | read t limit taken hpc =>
    exact h.goto rfl (by rw [hpc]; rfl) (by rw [hpc]; rfl) (by rw [hpc]; rfl)

end Balanced

/-! ## The shape of the queue -/

/-- What a thread knows of the queue: its new event comes after all that was queued, and the length it has read is
within bounds. -/
def Fits (capacity : Nat) (w : Threads) : Pc → Prop
  | .spinning q | .checking q =>
    (∀ x ∈ w.queue, x.id < q.id) ∧ (∀ s ∈ w.taken, s.firstId < q.id) ∧ q.id < w.nextId
  | .publishing depth => w.queue ≠ [] ∧ depth ≤ capacity
  | .unlocking depth | .accepted depth | .raising depth => depth ≤ capacity
  | _ => True

theorem Fits.of_reader {capacity : Nat} {w : Threads} {p : Pc} (h : p.writing = false) : Fits capacity w p := by
  cases p with
  | idle | asking _ | reading _ => trivial
  | _ => cases h

theorem Fits.gauge_le {capacity : Nat} {w : Threads} {p : Pc} (h : Fits capacity w p) : p.gauge ≤ w.queue.length := by
  cases p with
  | publishing depth =>
    have hpos := List.length_pos_iff.2 h.1
    simp only [Pc.gauge]
    omega
  | lowering count =>
    simp only [Pc.gauge]
    omega
  | _ => exact Int.natCast_nonneg _

/-- A snapshot that was prepared from the queue: its events are still the front, or its first is gone. -/
def Stands (w : Threads) (s : EnvelopeSnapshot) : Prop :=
  s.Of s.events ∧ s.events.getLast?.map Queued.id = some s.lastId ∧ s.firstId < w.nextId ∧
    (s.events <+: w.queue ∨ ∀ q ∈ w.queue, s.firstId < q.id)

structure Shaped (capacity : Nat) (w : Threads) : Prop where
  ascending : Ascending Queued.id w.queue
  below : ∀ q ∈ w.queue, q.id < w.nextId
  bounded : w.queue.length ≤ capacity
  high : w.highWater ≤ capacity
  fits : ∀ t, Fits capacity w (w.pc t)
  stands : ∀ s ∈ w.taken, Stands w s

/-- What a fresh snapshot is. -/
theorem prepared {queue : List Queued} {limit : Nat} {s : EnvelopeSnapshot}
    (h : prepareEnvelopes queue limit = some s) :
    s.Of s.events ∧ s.events.getLast?.map Queued.id = some s.lastId ∧ (∃ q ∈ queue, s.firstId = q.id) ∧
      s.events <+: queue := by
  obtain ⟨first, rest, hevents, hfirst, hcount, hs, hgroups⟩ := prepareEnvelopes_of h
  have hmem : first ∈ queue := (List.take_subset limit queue) (hevents ▸ List.mem_cons_self)
  exact ⟨⟨first, rest, hs.trans hevents, hfirst, hs ▸ hcount, rfl, hs ▸ hgroups⟩, prepareEnvelopes_last h,
    ⟨first, hmem, hfirst⟩, hs ▸ List.take_prefix limit queue⟩

namespace Shaped

variable {capacity : Nat} {w w' : Threads} {t : Thread} {p : Pc}

/-- A step that does not touch the queue. -/
theorem goto (h : Shaped capacity w) (hpc : w'.pc = Function.update w.pc t p) (hq : w'.queue = w.queue)
    (hn : w.nextId ≤ w'.nextId) (hhigh : w'.highWater ≤ capacity) (hfits : Fits capacity w' p)
    (htaken : ∀ s ∈ w'.taken, s ∈ w.taken ∨ ∃ n, prepareEnvelopes w.queue n = some s) : Shaped capacity w' := by
  have hbelow : ∀ q ∈ w.queue, q.id < w'.nextId := fun q hmem => (h.below q hmem).trans_le hn
  refine ⟨hq ▸ h.ascending, hq ▸ hbelow, hq ▸ h.bounded, hhigh, fun u => ?_, fun s hs => ?_⟩
  · rw [hpc]
    by_cases hu : u = t
    · subst hu
      rw [Function.update_self]
      exact hfits
    · rw [Function.update_of_ne hu]
      have hold := h.fits u
      cases hp : w.pc u with
      | spinning q | checking q =>
        rw [hp] at hold
        refine ⟨hq ▸ hold.1, fun s hs => ?_, hold.2.2.trans_le hn⟩
        rcases htaken s hs with hs | ⟨n, hs⟩
        · exact hold.2.1 s hs
        · obtain ⟨-, -, ⟨x, hx, he⟩, -⟩ := prepared hs
          rw [he]
          exact hold.1 x hx
      | publishing depth =>
        rw [hp] at hold
        exact ⟨hq ▸ hold.1, hold.2⟩
      | _ =>
        rw [hp] at hold
        exact hold
  · unfold Stands
    rw [hq]
    rcases htaken s hs with hs | ⟨n, hs⟩
    · obtain ⟨hof, hlast, hlt, hfront⟩ := h.stands s hs
      exact ⟨hof, hlast, hlt.trans_le hn, hfront⟩
    · obtain ⟨hof, hlast, ⟨x, hx, he⟩, hfront⟩ := prepared hs
      exact ⟨hof, hlast, he ▸ hbelow x hx, Or.inl hfront⟩

/-- A step of a thread between two looks at the queue. -/
theorem pass (h : Shaped capacity w) (hpc : w'.pc = Function.update w.pc t p) (hq : w'.queue = w.queue)
    (hn : w'.nextId = w.nextId) (hhigh : w'.highWater = w.highWater) (htaken : w'.taken = w.taken)
    (hfits : Fits capacity w' p) : Shaped capacity w' :=
  h.goto hpc hq hn.ge (hhigh ▸ h.high) hfits fun _ hs => Or.inl (htaken ▸ hs)

/-- A step that changes the queue; the other thread does not push at that time. -/
theorem change (h : Shaped capacity w) (hx : Exclusive w) (hwrite : (w.pc t).writing = true) {queue : List Queued}
    (hasc : Ascending Queued.id queue) (hbelow : ∀ q ∈ queue, q.id < w.nextId) (hlen : queue.length ≤ capacity)
    (hfits : Fits capacity { w with queue := queue } p) (hstands : ∀ s ∈ w.taken, Stands { w with queue := queue } s) :
    Shaped capacity ({ w with queue := queue }.goto t p) := by
  refine ⟨hasc, hbelow, hlen, h.high, fun u => ?_, hstands⟩
  by_cases hu : u = t
  · subst hu
    simp only [Threads.goto, Function.update_self]
    cases p <;> exact hfits
  · simp only [Threads.goto, Function.update_of_ne hu]
    exact Fits.of_reader (hx.reader hwrite hu)

theorem push (h : Shaped capacity w) (hx : Exclusive w) {q : Queued} (hpc : w.pc t = .checking q)
    (hroom : w.queue.length < capacity) :
    Shaped capacity ({ w with queue := w.queue ++ [q] }.goto t (.publishing (w.queue.length + 1))) := by
  have hq := h.fits t
  rw [hpc] at hq
  obtain ⟨hlast, hsnap, hid⟩ := hq
  refine h.change hx (by rw [hpc]; rfl) (h.ascending.concat hlast) (fun x hx => ?_) ?_ ⟨by simp, hroom⟩ fun s hs => ?_
  · rcases List.mem_append.1 hx with hx | hx
    · exact h.below x hx
    · rw [List.mem_singleton.1 hx]
      exact hid
  · rw [List.length_append, List.length_singleton]
    exact hroom
  · obtain ⟨hof, hend, hlt, hfront⟩ := h.stands s hs
    exact ⟨hof, hend, hlt, Node.snapshot_push hfront (hsnap s hs)⟩

theorem cut (h : Shaped capacity w) (hx : Exclusive w) {what : Take} {count : Nat} {queue : List Queued}
    (hpc : w.pc t = .cutting what) (hcut : what.cut w.queue = some (count, queue)) :
    Shaped capacity ({ w with queue := queue }.goto t (.lowering count)) := by
  obtain ⟨front, hfront, -⟩ := cut_eq hcut
  have hsub : queue.Sublist w.queue := hfront ▸ List.sublist_append_right front queue
  refine h.change hx (by rw [hpc]; rfl) (h.ascending.sublist hsub) (fun x hx => h.below x (hsub.subset hx))
    (hsub.length_le.trans h.bounded) trivial fun s hs => ?_
  obtain ⟨hof, hend, hlt, hstand⟩ := h.stands s hs
  have hasc := h.ascending
  rw [← hfront] at hasc hstand
  exact ⟨hof, hend, hlt, Node.snapshot_drain hof hasc hstand⟩

theorem moves (h : Shaped capacity w) (hx : Exclusive w) (hm : Moves capacity w w') : Shaped capacity w' := by
  have hfits := h.fits
  cases hm with
  | acquire t hfree => exact ⟨h.ascending, h.below, h.bounded, h.high, h.fits, h.stands⟩
  | release t hheld hpc => exact ⟨h.ascending, h.below, h.bounded, h.high, h.fits, h.stands⟩
  | dispatch q hheld hpc hid =>
    refine h.goto rfl rfl (Nat.le_succ _) h.high ⟨fun x hx => ?_, fun s hs => ?_, ?_⟩ fun _ hs => Or.inl hs
    · rw [hid]
      exact h.below x hx
    · rw [hid]
      exact (h.stands s hs).2.2.1
    · rw [hid]
      exact Nat.lt_succ_self _
  | lockPush t q hpc =>
    have hq := hfits t
    rw [hpc] at hq
    exact h.pass rfl rfl rfl rfl rfl hq
  | push t q hpc hroom => exact h.push hx hpc hroom
  | publish t depth hpc =>
    have hd := hfits t
    rw [hpc] at hd
    exact h.pass rfl rfl rfl rfl rfl hd.2
  | unlockPush t depth hpc | enqueued t depth hpc =>
    have hd := hfits t
    rw [hpc] at hd
    exact h.pass rfl rfl rfl rfl rfl hd
  | raise t depth hpc =>
    have hd := hfits t
    rw [hpc] at hd
    exact h.goto rfl rfl le_rfl (max_le h.high hd) trivial fun s hs => Or.inl hs
  | cut t what count queue hpc hcut => exact h.cut hx hpc hcut
  | read t limit taken hpc htaken => exact h.goto rfl rfl le_rfl h.high trivial htaken
  | giveUp q hpc | defer q jobs hpc | ask t limit hpc | take t what jobs hheld hpc | full t q hpc | unlockFull t q hpc
  | fallback t q hpc | lockTake t what hpc | stale t what hpc | lower t count hpc | unlockNone t hpc
  | unlockTake t count hpc | drained t count hpc | sum t count hpc | lockRead t limit hpc =>
    exact h.pass rfl rfl rfl rfl rfl trivial

end Shaped

/-! ## Runs -/

/-- All that holds throughout the runs. -/
structure Sound (capacity : Nat) (w : Threads) : Prop where
  exclusive : Exclusive w
  shaped : Shaped capacity w
  balanced : Balanced w

theorem initial_sound (capacity : Nat) : Sound capacity initial where
  exclusive := ⟨fun t => by simp [initial, Pc.critical], fun t h => by cases h⟩
  shaped := ⟨.nil, by simp [initial], Nat.zero_le _, Nat.zero_le _, fun _ => trivial, by simp [initial]⟩
  balanced := ⟨rfl, rfl, rfl⟩

theorem Reach.sound {capacity : Nat} {w : Threads} (h : Reach capacity w) : Sound capacity w := by
  refine Machine.Reach.invariant (I := Sound capacity) ?_ ?_ h
  · rintro w rfl
    exact initial_sound capacity
  · intro w act w' _ _ hstep hs
    have hm := step_moves hstep
    exact ⟨hs.exclusive.moves hm, hs.shaped.moves hs.exclusive hm, hs.balanced.moves hm⟩

/-- A snapshot is drained if it is the front of the queue, and what is drained are its events. -/
theorem drainSnapshot_iff {capacity : Nat} {w : Threads} (hw : Shaped capacity w) {s : EnvelopeSnapshot}
    (hs : s ∈ w.taken) (rest : List Queued) : drainSnapshot w.queue s = some rest ↔ w.queue = s.events ++ rest := by
  obtain ⟨⟨first, tail, hevents, hfirst, hcount, -, -⟩, hlast, -, hfront⟩ := hw.stands s hs
  have hmatch : s.events <+: w.queue → w.queue.head?.map Queued.id = some s.firstId ∧
      w.queue[s.count - 1]?.map Queued.id = some s.lastId := by
    rintro ⟨more, hmore⟩
    have hpos : s.count - 1 < s.events.length := by
      rw [hcount, hevents, List.length_cons]
      omega
    rw [← hmore]
    refine ⟨by rw [hevents, hfirst]; rfl, ?_⟩
    rw [List.getElem?_append_left hpos, hcount, ← List.getLast?_eq_getElem?, hlast]
  unfold drainSnapshot
  constructor
  · intro h
    split at h
    · rename_i hm
      injection h with h
      rcases hfront with hfront | hlater
      · obtain ⟨more, hmore⟩ := hfront
        rw [← h, ← hmore, hcount, List.drop_left]
      · -- the first event is gone, so that another one cannot have its id
        obtain ⟨q, hq, hid⟩ := Option.map_eq_some_iff.1 hm.1
        have hlt := hlater q (List.mem_of_mem_head? hq)
        omega
    · cases h
  · intro h
    rw [if_pos (hmatch ⟨rest, h.symm⟩), h, hcount, List.drop_left]

/-- In every run of the two threads: the ids of the queue increase, and its length and the high-water mark stay within
the capacity; the gauge is the length of the queue where the mutex is free, and never negative; a snapshot taken before
is drained exactly if it is still the front of the queue; and where the main thread has the server's lock and is between
two operations, every event dispatched is counted as enqueued or as a fallback, and every event enqueued as drained or
in the gauge. -/
theorem queue_sound {capacity : Nat} {w : Threads} (h : Reach capacity w) :
    w.queue.Pairwise (fun a b => a.id < b.id) ∧ w.queue.length ≤ capacity ∧ w.highWater ≤ capacity ∧
    (w.mutex = none → w.depth = w.queue.length) ∧ 0 ≤ w.depth ∧
    (∀ s ∈ w.taken, ∀ rest, drainSnapshot w.queue s = some rest ↔ w.queue = s.events ++ rest) ∧
    (w.holder = some .main → w.pc .main = .idle →
      w.enqueued + w.fallbacks = w.dispatched.length ∧ (w.enqueued : Int) = w.drainEvents + w.depth) := by
  obtain ⟨hx, hshape, hbal⟩ := h.sound
  have hgauge := hbal.gauge
  have hcounted := hbal.counted
  have hmoved := hbal.moved
  simp only [total] at hgauge hcounted hmoved
  refine ⟨hshape.ascending, hshape.bounded, hshape.high, fun hfree => ?_, ?_, fun s hs => drainSnapshot_iff hshape hs,
    fun hheld hidle => ?_⟩
  · have hzero : ∀ t, (w.pc t).gauge = 0 := fun t => Pc.gauge_eq_zero (by simpa [hfree] using hx.mutex t)
    rw [hzero, hzero] at hgauge
    omega
  · have hmain := (hshape.fits .main).gauge_le
    have hworker := (hshape.fits .worker).gauge_le
    -- at most one thread is inside the mutex
    by_cases hin : (w.pc .main).critical = true
    · rw [Pc.gauge_eq_zero (hx.outside hin (u := .worker) (by decide))] at hgauge
      omega
    · rw [Pc.gauge_eq_zero (p := w.pc .main) (by simpa using hin)] at hgauge
      omega
  · have hreads : (w.pc .worker).writing = false := by
      by_contra hwrite
      have hother := hx.holder .worker (by simpa using hwrite)
      rw [hheld] at hother
      cases hother
    obtain ⟨hg, hu, hp, hd⟩ := Pc.weights_of_reader hreads
    rw [hidle, hg] at hgauge
    rw [hidle, hu] at hcounted
    rw [hidle, hp, hd] at hmoved
    simp only [Pc.gauge, Pc.uncounted, Pc.pushed, Pc.gone] at hgauge hcounted hmoved
    omega

def tinyEvent : PendingEvent := snapshot (.fresh .defaults .empty) {.string} "set".toList [107] 0

/-- One event is queued and prepared; the next finds the queue full, and its job drains the first. -/
def overtakenRun : List Act :=
  .dispatch tinyEvent :: List.replicate 6 (.advance .main) ++ [.ask (some 4), .advance .worker, .advance .worker] ++
    .dispatch tinyEvent :: List.replicate 4 (.advance .main) ++ [.defer true, .runJob] ++
      List.replicate 6 (.advance .main)

theorem queue_sound_overtaken : ∃ w, Machine.run (step 1) (fun _ _ => True) initial overtakenRun = some w ∧
    w.taken.map (drainSnapshot w.queue) = [none] ∧ w.enqueued + w.fallbacks = 2 ∧
      (w.enqueued : Int) = w.drainEvents + w.depth := by
  have hrun : (Machine.run (step 1) (fun _ _ => True) initial overtakenRun).map (fun w =>
      (w.taken.map (drainSnapshot w.queue), w.dispatched.length, w.holder, (w.pc .main).isIdle)) =
        some ([none], 2, some .main, true) := by
    decide +kernel
  obtain ⟨w, hw, hvalues⟩ := Option.map_eq_some_iff.1 hrun
  simp only [Prod.mk.injEq] at hvalues
  obtain ⟨hstale, hcount, hheld, hidle⟩ := hvalues
  obtain ⟨-, -, -, -, -, -, hsums⟩ := queue_sound (Machine.reach_of_run (.start rfl) hw)
  obtain ⟨hdispatched, hdrained⟩ := hsums hheld (eq_idle hidle)
  exact ⟨w, hw, hstale, hdispatched.trans hcount, hdrained⟩

end Threads

end EventStream

import EventStream.Lib.Machine
import EventStream.Steps

/-!
# Deeds

The capture path taken apart into single deeds: one call to the server, one counter, one change of a stream's record,
one change of the cached tags. A processor is a path of deeds; the labels say what was called and what was counted, and
so what the path can have changed.

* `Deed`, `Does`: the deeds and their effect.
* `Trail env P b st st'`: a path of deeds whose calls satisfy `P` and whose number of calls of each kind is within the
  budget `b`.
* `processPendingEvent_trail`, `processPendingEnvelope_trail`, `writeControlEntry_trail`: the processors.
* `path_trace`, `Does.keyspace`, `Trail.seq`: what the labels of a path say about its two ends.
-/

namespace EventStream

open Text (Str Bytes utf8)
open Machine (Path)

/-! ## Deeds -/

/-- One thing the module does. -/
inductive Deed
  /-- Logs, latches, clocks and the pending markers. -/
  | still
  /-- Draw a sequence number. -/
  | number
  | charge (why : Purpose) (c : Counter)
  /-- Count a drop with no stream in hand. -/
  | drop (why : Purpose) (c : Counter)
  /-- Count a drop against a stream. -/
  | streamDrop (why : Purpose) (stream : Str) (c : Counter)
  /-- Account a written entry. -/
  | written (why : Purpose) (stream : Str) (counter : Counter) (count : Nat)
  /-- Change the record of a stream, but not what it counts. -/
  | flagged (stream : Str)
  | call (why : Purpose) (cmd : Command) (ok : Bool)
  | pin (tag : Option Str)
  | verify (tag : Str)
  | unpin
  deriving DecidableEq

/-- The counters that count what the per-stream records count. -/
def Counter.isTallied : Counter → Bool
  | .forwarded | .firehoseForwarded | .droppedOom | .droppedXaddError => true
  | _ => false

/-- The counters of re-pins. -/
def Counter.isRepin : Counter → Bool
  | .repins | .repinsProbeDetected => true
  | _ => false

/-- The counters of neither kind. -/
def Counter.isSide (c : Counter) : Bool := !c.isTallied && !c.isRepin

theorem Counter.isTallied_of_side {c : Counter} (h : c.isSide = true) : c.isTallied = false := by
  simp only [isSide, Bool.and_eq_true, Bool.not_eq_true'] at h
  exact h.1

theorem Counter.isRepin_of_side {c : Counter} (h : c.isSide = true) : c.isRepin = false := by
  simp only [isSide, Bool.and_eq_true, Bool.not_eq_true'] at h
  exact h.2

/-- What a deed that is `still` leaves alone. -/
structure Still (st st' : State) : Prop where
  config : st'.config = st.config
  counters : st'.counters = st.counters
  streamStats : st'.streamStats = st.streamStats
  keyspace : st'.keyspace = st.keyspace
  trace : st'.trace = st.trace
  seq : st'.seq = st.seq
  tags : st'.nodeTag = st.nodeTag ∧ st'.probeVerifiedTag = st.probeVerifiedTag

/-- The effect of a deed. A drop is counted as a failed write without a stream only if database 0 could not be selected,
and a probe is made in per-node mode only. -/
inductive Does (env : Env) : State → Deed → State → Prop
  | still {st st' : State} (h : Still st st') : Does env st .still st'
  | number (st : State) : Does env st .number { st with seq := st.seq + 1 }
  | charge (st : State) (why : Purpose) (c : Counter) (n : Nat) (hc : c.isTallied = false) :
      Does env st (.charge why c) (st.charge why c n)
  | drop (st : State) (why : Purpose) (c : Counter) (latch : Latch) (detail : Str)
      (hc : c.isTallied = false ∨ c = .droppedXaddError ∧ ∃ i, env.selectDb i = false) :
      Does env st (.drop why c) (countDrop env st why c latch detail)
  | streamDrop (st : State) (why : Purpose) (stream : Str) (c : Counter) (detail : Str)
      (hc : c = .droppedOom ∨ c = .droppedXaddError) :
      Does env st (.streamDrop why stream c) (countStreamDrop env st why stream c detail)
  | written (st : State) (why : Purpose) (stream : Str) (counter : Counter) (count : Nat)
      (hc : counter = .forwarded ∨ counter = .firehoseForwarded) :
      Does env st (.written why stream counter count) (recordWrite st why stream counter count)
  | flagged (st : State) (stream : Str) (s : StreamStats)
      (h : s.forwarded = (st.stats stream).forwarded ∧ s.dropped = (st.stats stream).dropped) :
      Does env st (.flagged stream) (st.setStats stream s)
  | call {st st' : State} (why : Purpose) (cmd : Command) (opts : CallOptions) (r : Except Str Unit)
      (h : EventStream.call env st why cmd opts = (r, st')) (hprobe : why = .probe → st.config.perNode = true) :
      Does env st (.call why cmd r.isOk) st'
  | pin (st : State) (tag : Option Str) (h : st.nodeTag = none) : Does env st (.pin tag) { st with nodeTag := tag }
  | verify (st : State) (tag : Str) (h : st.nodeTag = some tag) :
      Does env st (.verify tag) { st with probeVerifiedTag := some tag }
  | unpin (st : State) : Does env st .unpin { st with nodeTag := none, probeVerifiedTag := none }

/-! ## Budgets -/

/-- What is counted along a path: attempts to write and written entries, by purpose, the two side effects of a written
entry, sequence numbers, changes of the cached tag, and the counting of re-pins. -/
inductive Expense
  | attempt (why : Purpose)
  | entry (why : Purpose)
  | registration
  | group
  | number
  | pinning
  | repin
  deriving DecidableEq

/-- Whether a deed counts as an expense. -/
def Expense.of : Expense → Deed → Bool
  | attempt why, .call w (.xadd _ _ _ _) _ => w = why
  | entry why, .call w (.xadd _ _ _ _) true => w = why
  | registration, .call _ (.sadd _ _) _ => true
  | group, .call _ (.xgroupCreate _ _) _ => true
  | number, .number => true
  | pinning, .pin _ => true
  | pinning, .unpin => true
  | repin, .charge _ c => c.isRepin
  | repin, .drop _ c => c.isRepin
  | _, _ => false

abbrev Budget := Expense → Nat

namespace Budget

/-- Only deeds that are no expense. -/
def none : Budget := fun _ => 0

/-- One attempt to write for a purpose. -/
def xadd (why : Purpose) (ok : Bool) : Budget
  | .attempt w => if w = why then 1 else 0
  | .entry w => if w = why ∧ ok then 1 else 0
  | _ => 0

/-- A number of probes. -/
def probes (n : Nat) : Budget
  | .attempt .probe | .entry .probe => n
  | _ => 0

/-- The selection of a tag. -/
def select : Budget
  | .attempt .probe | .entry .probe => slotCount
  | .pinning => 1
  | _ => 0

def oneRegistration : Budget
  | .registration => 1
  | _ => 0

def oneGroup : Budget
  | .group => 1
  | _ => 0

def onePin : Budget
  | .pinning => 1
  | _ => 0

def oneRepin : Budget
  | .repin => 1
  | _ => 0

/-- A sequence number, if one is drawn. -/
def numbers (drawn : Bool) : Budget
  | .number => if drawn then 1 else 0
  | _ => 0

/-- One mirrored write; its registration and its group only if it succeeds. -/
def mirror (why : Purpose) (ok : Bool) : Budget := xadd why ok + if ok then oneRegistration + oneGroup else none

theorem xadd_le (why : Purpose) (ok : Bool) (x : Expense) : xadd why ok x ≤ xadd why true x := by
  cases x with
  | entry w => cases ok <;> simp [xadd]
  | attempt w | registration | group | number | pinning | repin => exact le_refl _

theorem mirror_le (why : Purpose) (ok : Bool) (x : Expense) : mirror why ok x ≤ mirror why true x := by
  have h := xadd_le why ok x
  cases ok with
  | true => exact le_refl _
  | false =>
    simp only [mirror, Pi.add_apply]
    exact h.trans (Nat.le_add_right _ _)

end Budget

/-- A path of deeds whose calls satisfy `P`, within a budget. -/
def Trail (env : Env) (P : Purpose → Command → Prop) (b : Budget) (st st' : State) : Prop :=
  ∃ ds, Path (Does env) st ds st' ∧ (∀ why cmd ok, Deed.call why cmd ok ∈ ds → P why cmd) ∧ ∀ x, ds.countP x.of ≤ b x

namespace Trail

variable {env : Env} {P : Purpose → Command → Prop} {b b' : Budget} {st st' st'' : State}

theorem refl (st : State) : Trail env P b st st := ⟨[], .nil st, by simp, by simp⟩

theorem trans (h : Trail env P b st st') (h' : Trail env P b' st' st'') : Trail env P (b + b') st st'' := by
  obtain ⟨ds, hp, hP, hb⟩ := h
  obtain ⟨ds', hp', hP', hb'⟩ := h'
  refine ⟨ds ++ ds', hp.append hp', fun why cmd ok hm => ?_, fun x => ?_⟩
  · rcases List.mem_append.1 hm with hm | hm
    · exact hP why cmd ok hm
    · exact hP' why cmd ok hm
  · rw [List.countP_append]
    exact Nat.add_le_add (hb x) (hb' x)

theorem mono (h : Trail env P b st st') (hb : ∀ x, b x ≤ b' x) : Trail env P b' st st' := by
  obtain ⟨ds, hp, hP, hd⟩ := h
  exact ⟨ds, hp, hP, fun x => (hd x).trans (hb x)⟩

theorem weaken {Q : Purpose → Command → Prop} (h : Trail env P b st st') (hPQ : ∀ why cmd, P why cmd → Q why cmd) :
    Trail env Q b st st' := by
  obtain ⟨ds, hp, hP, hd⟩ := h
  exact ⟨ds, hp, fun why cmd ok hm => hPQ why cmd (hP why cmd ok hm), hd⟩

/-- Deeds without expenses before. -/
theorem after (h : Trail env P b st' st'') (h₀ : Trail env P .none st st') : Trail env P b st st'' :=
  (h₀.trans h).mono fun x => by simp [Budget.none]

/-- Deeds without expenses behind. -/
theorem before (h : Trail env P b st st') (h₀ : Trail env P .none st' st'') : Trail env P b st st'' :=
  (h.trans h₀).mono fun x => by simp [Budget.none]

/-- A deed that is no call and draws no number. -/
theorem single {d : Deed} (h : Does env st d st') (hd : ∀ x, Expense.of x d = false)
    (hc : ∀ why cmd ok, d ≠ .call why cmd ok) : Trail env P b st st' :=
  ⟨[d], .single h, fun why cmd ok hm => absurd (List.mem_singleton.1 hm).symm (hc why cmd ok), fun x => by simp [hd x]⟩

theorem of_still (h : Still st st') : Trail env P b st st' :=
  single (.still h) (fun x => by cases x <;> rfl) (by simp)

theorem of_call {why : Purpose} {cmd : Command} {opts : CallOptions} {r : Except Str Unit}
    (h : EventStream.call env st why cmd opts = (r, st')) (hprobe : why = .probe → st.config.perNode = true)
    (hP : P why cmd) (hb : ∀ x, Expense.of x (.call why cmd r.isOk) = true → 1 ≤ b x) : Trail env P b st st' := by
  refine ⟨[.call why cmd r.isOk], .single (.call why cmd opts r h hprobe), fun w c ok hm => ?_, fun x => ?_⟩
  · cases List.mem_singleton.1 hm
    exact hP
  · cases hx : Expense.of x (.call why cmd r.isOk) with
    | true => simpa [hx] using hb x hx
    | false => simp [hx]

/-- A change of the cached tag. -/
theorem of_pinning {d : Deed} (h : Does env st d st') (hd : Expense.pinning.of d = true) :
    Trail env P .onePin st st' := by
  refine ⟨[d], .single h, fun why cmd ok hm => ?_, fun x => ?_⟩
  · rw [← List.mem_singleton.1 hm] at hd
    cases hd
  · cases d with
    | pin _ | unpin => cases x <;> simp [Expense.of, Budget.onePin]
    | _ => cases hd

/-- The counting of a re-pin. -/
theorem of_repin {why : Purpose} {c : Counter} (hc : c.isRepin = true) (n : Nat) :
    Trail env P .oneRepin st (st.charge why c n) := by
  have ht : c.isTallied = false := by cases c <;> first | rfl | cases hc
  refine ⟨[.charge why c], .single (.charge st why c n ht), by simp, fun x => ?_⟩
  cases x <;> simp [Expense.of, Budget.oneRepin, hc]

/-- An attempt to write. -/
theorem of_xadd {why : Purpose} {key : Bytes} {nomk : Bool} {trim : Option (TrimKeyword × Str)} {fields : List Bytes}
    {opts : CallOptions} {r : Except Str Unit}
    (h : EventStream.call env st why (.xadd key nomk trim fields) opts = (r, st'))
    (hprobe : why = .probe → st.config.perNode = true) (hP : P why (.xadd key nomk trim fields)) :
    Trail env P (.xadd why r.isOk) st st' := by
  refine of_call h hprobe hP fun x hx => ?_
  cases x with
  | attempt w =>
    have hw : why = w := by simpa [Expense.of] using hx
    simp [Budget.xadd, hw]
  | entry w =>
    cases hr : r.isOk with
    | true =>
      have hw : why = w := by simpa [Expense.of, hr] using hx
      simp [Budget.xadd, hw]
    | false => simp [Expense.of, hr] at hx
  | registration | group | number | pinning | repin => cases hx

end Trail

/-! ## What the labels say -/

/-- The occurrence of a call. -/
def Deed.occurrence : Deed → Option Occurrence
  | .call why cmd ok => some (.call why cmd ok)
  | _ => none

section Labels

variable {env : Env} {st st' : State} {d : Deed} {ds : List Deed}

/-- The trace records the calls, and nothing else. -/
theorem Does.trace (h : Does env st d st') : st'.trace = st.trace ++ d.occurrence.toList := by
  cases h with
  | call why cmd opts r h =>
    cases r with
    | ok _ =>
      obtain ⟨ks, _, rfl⟩ := call_ok h
      rfl
    | error msg =>
      rw [call_error h]
      rfl
  | still h => simp [Deed.occurrence, h.trace]
  | _ => simp [Deed.occurrence, countDrop, countStreamDrop, recordWrite, State.setStats, State.charge]

theorem path_trace (h : Path (Does env) st ds st') : st'.trace = st.trace ++ ds.filterMap Deed.occurrence := by
  induction h with
  | nil => simp
  | @cons s s' s'' d ds hd _ ih =>
    rw [ih, hd.trace, List.append_assoc]
    cases ho : d.occurrence <;> simp [ho]

/-- Whether a call counts as an expense. -/
def Expense.ofCall (x : Expense) : Occurrence → Bool
  | .call why cmd ok => x.of (.call why cmd ok)
  | _ => false

/-- What a trail adds to the trace: calls that satisfy `P`, within the budget. -/
theorem Trail.calls {P : Purpose → Command → Prop} {b : Budget} (h : Trail env P b st st') :
    ∃ calls, st'.trace = st.trace ++ calls ∧ (∀ o ∈ calls, ∃ why cmd ok, o = .call why cmd ok ∧ P why cmd) ∧
      ∀ x : Expense, calls.countP x.ofCall ≤ b x := by
  obtain ⟨ds, hp, hP, hb⟩ := h
  refine ⟨ds.filterMap Deed.occurrence, path_trace hp, fun o ho => ?_, fun x => ?_⟩
  · obtain ⟨d, hd, he⟩ := List.mem_filterMap.1 ho
    cases d with
    | call why cmd ok =>
      injection he with he
      exact ⟨why, cmd, ok, he.symm, hP why cmd ok hd⟩
    | _ => cases he
  · refine le_trans ?_ (hb x)
    rw [List.countP_filterMap]
    refine List.countP_mono_left fun d _ hd => ?_
    cases d with
    | call why cmd ok => exact hd
    | _ => cases hd

/-- A key changes only by an executed call on it, in database 0. -/
theorem Does.keyspace (h : Does env st d st') (db : Nat) (k : Bytes) :
    st'.keyspace db k = st.keyspace db k ∨ ∃ why cmd, d = .call why cmd true ∧ db = 0 ∧ cmd.key = k := by
  cases h with
  | call why cmd opts r h =>
    cases r with
    | ok _ =>
      obtain ⟨ks, he, rfl⟩ := call_ok h
      by_cases hk : db = 0 ∧ cmd.key = k
      · exact Or.inr ⟨why, cmd, rfl, hk.1, hk.2⟩
      · exact Or.inl (exec_frame he ((not_and_or.1 hk).imp_right Ne.symm))
    | error msg =>
      rw [call_error h]
      exact Or.inl rfl
  | still h => exact Or.inl (by rw [h.keyspace])
  | _ => exact Or.inl rfl

theorem Does.config (h : Does env st d st') : st'.config = st.config := by
  cases h with
  | call why cmd opts r h =>
    obtain ⟨_, _, _, rfl⟩ := call_rest h
    rfl
  | still h => exact h.config
  | _ => rfl

theorem Trail.config {P : Purpose → Command → Prop} {b : Budget} (h : Trail env P b st st') :
    st'.config = st.config := by
  obtain ⟨ds, hp, -, -⟩ := h
  exact hp.invariant (I := fun s => s.config = st.config) (fun s d s' _ hs hI => hs.config.trans hI) rfl

/-- What the deeds that are no such expense keep, a trail without a budget for it keeps. -/
theorem Trail.without {P : Purpose → Command → Prop} {b : Budget} (h : Trail env P b st st') {x : Expense}
    (hb : b x = 0) {I : State → Prop} (hstep : ∀ s d s', x.of d = false → Does env s d s' → I s → I s') (hI : I st) :
    I st' := by
  obtain ⟨ds, hp, _, hd⟩ := h
  have hzero : ds.countP x.of = 0 := Nat.le_zero.1 (hb ▸ hd x)
  refine hp.invariant (fun s d s' hm hs => hstep s d s' ?_ hs) hI
  exact Bool.eq_false_iff.2 (List.countP_eq_zero.1 hzero d hm)

/-- A trail that draws no number leaves the counter of the numbers. -/
theorem Trail.seq {P : Purpose → Command → Prop} {b : Budget} (h : Trail env P b st st') (hb : b .number = 0) :
    st'.seq = st.seq := by
  refine h.without hb (I := fun s => s.seq = st.seq) (fun s d s' hno hs hI => Eq.trans ?_ hI) rfl
  cases hs with
  | call why cmd opts r h =>
    obtain ⟨_, _, _, rfl⟩ := call_rest h
    rfl
  | still h => exact h.seq
  | number => cases hno
  | _ => rfl

/-- A trail that neither pins nor unpins leaves the cached tag. -/
theorem Trail.nodeTag {P : Purpose → Command → Prop} {b : Budget} (h : Trail env P b st st') (hb : b .pinning = 0) :
    st'.nodeTag = st.nodeTag := by
  refine h.without hb (I := fun s => s.nodeTag = st.nodeTag) (fun s d s' hno hs hI => Eq.trans ?_ hI) rfl
  cases hs with
  | call why cmd opts r h =>
    obtain ⟨_, _, _, rfl⟩ := call_rest h
    rfl
  | still h => exact h.tags.1
  | pin _ _ | unpin => cases hno
  | _ => rfl

/-- A trail that counts no re-pin leaves the two counters of re-pins. -/
theorem Trail.repins {P : Purpose → Command → Prop} {b : Budget} (h : Trail env P b st st') (hb : b .repin = 0)
    {c : Counter} (hc : c.isRepin = true) : st'.value c = st.value c := by
  refine h.without hb (I := fun s => s.value c = st.value c) (fun s d s' hno hs hI => Eq.trans ?_ hI) rfl
  have hne : ∀ {c' : Counter}, c'.isRepin = false → c ≠ c' := fun hc' e => by
    rw [e, hc'] at hc
    cases hc
  cases hs with
  | call why cmd opts r h =>
    obtain ⟨_, _, _, rfl⟩ := call_rest h
    rfl
  | still h => rw [State.value, State.value, h.counters]
  | charge why c' n _ => exact if_neg (hne hno)
  | drop why c' latch detail _ => exact if_neg (hne hno)
  | streamDrop why stream c' detail hd =>
    refine if_neg (hne ?_)
    rcases hd with rfl | rfl <;> rfl
  | written why stream counter count hd =>
    have hcount : c ≠ counter := hne (by rcases hd with rfl | rfl <;> rfl)
    have hactive : c ≠ .activeStreams := hne rfl
    rcases recordWrite_counters s why stream counter count with e | e <;>
      simp only [State.value, e, State.charge, Counters.add_value, if_neg hcount, if_neg hactive]
  | _ => rfl

end Labels

/-! ## Counting -/

section Counting

variable {env : Env} {P : Purpose → Command → Prop} {b : Budget} (st : State)

theorem charge_trail (why : Purpose) {c : Counter} (n : Nat) (hc : c.isSide = true) :
    Trail env P b st (st.charge why c n) :=
  .single (.charge st why c n (c.isTallied_of_side hc)) (fun x => by
    cases x with
    | repin => exact c.isRepin_of_side hc
    | attempt w | entry w | registration | group | number | pinning => rfl) (by simp)

theorem drop_trail (why : Purpose) {c : Counter} (latch : Latch) (detail : Str)
    (hc : c.isSide = true ∨ c = .droppedXaddError ∧ ∃ i, env.selectDb i = false) :
    Trail env P b st (countDrop env st why c latch detail) := by
  have hr : c.isRepin = false := by
    rcases hc with hc | ⟨rfl, _⟩
    · exact c.isRepin_of_side hc
    · rfl
  refine .single (.drop st why c latch detail (hc.imp_left c.isTallied_of_side)) (fun x => ?_) (by simp)
  cases x with
  | repin => exact hr
  | attempt w | entry w | registration | group | number | pinning => rfl

theorem streamDrop_trail (why : Purpose) (stream : Str) {c : Counter} (detail : Str)
    (hc : c = .droppedOom ∨ c = .droppedXaddError) : Trail env P b st (countStreamDrop env st why stream c detail) :=
  .single (.streamDrop st why stream c detail hc) (fun x => by cases x <;> rfl) (by simp)

theorem flagged_trail (stream : Str) (s : StreamStats)
    (h : s.forwarded = (st.stats stream).forwarded ∧ s.dropped = (st.stats stream).dropped) :
    Trail env P b st (st.setStats stream s) :=
  .single (.flagged st stream s h) (fun x => by cases x <;> rfl) (by simp)

/-- The loss of events, with and without a stream. -/
theorem eventsLost_trail (why : Purpose) (n : Nat) {c : Counter} (latch : Latch) (detail : Str)
    (hc : c.isSide = true ∨ c = .droppedXaddError ∧ ∃ i, env.selectDb i = false) :
    Trail env P b st (countEventsLost env st why n c latch detail) :=
  (drop_trail _ why latch detail hc).after (charge_trail st why n rfl)

theorem eventsLostStream_trail (why : Purpose) (n : Nat) (stream : Str) {c : Counter} (detail : Str)
    (hc : c = .droppedOom ∨ c = .droppedXaddError) :
    Trail env P b st (countEventsLostStream env st why n stream c detail) :=
  (streamDrop_trail _ why stream detail hc).after (charge_trail st why n rfl)

theorem noSlotDrop_trail (why : Purpose) (canonical : Bool) :
    Trail env P b st (countNoSlotDrop env st why canonical) := by
  cases canonical with
  | true => exact eventsLost_trail st why 1 _ _ (Or.inl rfl)
  | false => exact drop_trail st why _ _ (Or.inl rfl)

theorem selectDb_trail : Trail env P b st (selectDb env st).2 := .of_still ⟨rfl, rfl, rfl, rfl, rfl, rfl, rfl, rfl⟩

end Counting

/-! ## Tags -/

/-- The write of an ownership probe. -/
def probeCommand (tag : Str) : Command := .xadd (probeKey tag) true none [utf8 ['f'], utf8 ['v']]

section Tags

variable (env : Env) {P : Purpose → Command → Prop} (st : State)

/-- The calls of probes are allowed. -/
def AllowsProbes (P : Purpose → Command → Prop) : Prop := ∀ tag, P .probe (probeCommand tag)

theorem probeTagOwned_trail (hP : AllowsProbes P) (hn : st.config.perNode = true) (tag : Str) :
    Trail env P (.probes 1) st (probeTagOwned env st tag).2 := by
  unfold probeTagOwned
  refine (Trail.of_xadd rfl (fun _ => hn) (hP tag)).mono fun x => (Budget.xadd_le .probe _ x).trans ?_
  cases x with
  | attempt why | entry why => cases why <;> simp [Budget.xadd, Budget.probes]
  | registration | group | number | pinning | repin => exact le_refl 0

theorem probeTagOwned_nodeTag (tag : Str) : (probeTagOwned env st tag).2.nodeTag = st.nodeTag := by
  unfold probeTagOwned
  rcases call_cases env st .probe (.xadd (probeKey tag) true none [utf8 ['f'], utf8 ['v']]) (xaddCallOptions st) with
    ⟨ks, _, h⟩ | ⟨msg, h⟩ <;> rw [h]

theorem selectFrom_trail (hP : AllowsProbes P) (hn : st.config.perNode = true) (n slot : Nat) :
    Trail env P (.probes n) st (selectFrom env n slot st).2 := by
  induction n generalizing slot st with
  | zero => exact .refl st
  | succ n ih =>
    unfold selectFrom
    have hone : ∀ x, Budget.probes n x ≤ Budget.probes (n + 1) x := fun x => by
      unfold Budget.probes
      split <;> omega
    cases candidate env slot with
    | none => exact (ih st hn _).mono hone
    | some tag =>
      have hp := probeTagOwned_trail env st hP hn tag
      have hadd : ∀ x, (Budget.probes 1 + Budget.probes n) x ≤ Budget.probes (n + 1) x := fun x => by
        simp only [Pi.add_apply, Budget.probes]
        split <;> omega
      simp only
      cases hr : probeTagOwned env st tag with
      | mk r st' =>
        rw [hr] at hp
        cases r with
        | ok _ =>
          exact hp.mono fun x => by
            unfold Budget.probes
            split <;> omega
        | error _ => exact (hp.trans (ih st' (by rw [hp.config, hn]) _)).mono hadd

theorem selectFrom_nodeTag (n slot : Nat) : (selectFrom env n slot st).2.nodeTag = st.nodeTag := by
  induction n generalizing slot st with
  | zero => rfl
  | succ n ih =>
    unfold selectFrom
    cases candidate env slot with
    | none => exact ih st _
    | some tag =>
      have hp := probeTagOwned_nodeTag env st tag
      simp only
      cases hr : probeTagOwned env st tag with
      | mk r st' =>
        rw [hr] at hp
        cases r with
        | ok _ => exact hp
        | error _ => exact (ih st' _).trans hp

theorem tagSegment_trail (hP : AllowsProbes P) : Trail env P .select st (tagSegment env st).2 := by
  unfold tagSegment
  split
  · exact .refl st
  · rename_i hnode
    cases ht : st.nodeTag with
    | some tag => exact .refl st
    | none =>
      have hs := selectFrom_trail env st hP (not_not.1 hnode) slotCount 0
      have hn : (selectOwnedTag env st).2.nodeTag = none := (selectFrom_nodeTag env st slotCount 0).trans ht
      have hpin : Trail env P .onePin (selectOwnedTag env st).2
          { (selectOwnedTag env st).2 with nodeTag := (selectOwnedTag env st).1 } := .of_pinning (.pin _ _ hn) rfl
      refine (hs.trans hpin).mono fun x => ?_
      cases x with
      | attempt w | entry w => cases w <;> simp [Budget.probes, Budget.onePin, Budget.select]
      | registration | group | number | pinning | repin => exact le_refl _

theorem pinnedTagLostByProbe_trail (hP : AllowsProbes P) :
    Trail env P (.probes 1) st (pinnedTagLostByProbe env st).2 := by
  unfold pinnedTagLostByProbe
  split
  · exact .refl st
  · rename_i hnode
    cases ht : st.nodeTag with
    | none => exact .refl st
    | some tag =>
      simp only
      split
      · exact .refl st
      · have hp := probeTagOwned_trail env st hP (not_not.1 hnode) tag
        have hn := probeTagOwned_nodeTag env st tag
        cases hr : probeTagOwned env st tag with
        | mk r st' =>
          rw [hr] at hp hn
          cases r with
          | ok _ =>
            exact hp.before (.single (.verify _ _ (hn.trans ht)) (fun x => by cases x <;> rfl) (by simp))
          | error _ => exact hp

end Tags

/-! ## Control entries -/

section Control

variable (env : Env) {P : Purpose → Command → Prop} {b : Budget} (st : State)

theorem recoverStream_trail (stream : Str) : Trail env P b st (recoverStream st stream) := by
  unfold recoverStream
  cases hl : st.streamStats.lookup stream with
  | none => exact .refl st
  | some entry =>
    simp only
    cases entry.recordSuccess.2 with
    | none => exact .refl st
    | some drops =>
      have hs : st.stats stream = entry := by simp [State.stats, hl]
      have hsame : entry.recordSuccess.1.forwarded = (st.stats stream).forwarded ∧
          entry.recordSuccess.1.dropped = (st.stats stream).dropped := by
        rw [hs, StreamStats.recordSuccess]
        split <;> exact ⟨rfl, rfl⟩
      exact (flagged_trail st stream _ hsame).before (.of_still ⟨rfl, rfl, rfl, rfl, rfl, rfl, rfl, rfl⟩)

/-- A control entry is attempted at most once. -/
theorem writeControlEntry_trail {why : Purpose} (hwhy : why ≠ .probe) (control : Str)
    (hP : ∀ trim fields, P why (.xadd (utf8 control) false trim fields)) (action : Action) (retention : Retention)
    (extra : List (Str × Str)) {c : Counter} (hc : c.isSide = true) (kind : Str) :
    Trail env P (.xadd why true) st (writeControlEntry env st why control action retention extra c kind) := by
  unfold writeControlEntry
  have hsel : Trail env P .none st (selectDb env st).2 := selectDb_trail st
  cases hs : selectDb env st with
  | mk sel st₁ =>
    rw [hs] at hsel
    refine Trail.after ?_ hsel
    cases sel with
    | false => exact drop_trail st₁ why _ _ (Or.inr ⟨rfl, st.clock, congrArg Prod.fst hs⟩)
    | true =>
      simp only
      cases hr : call env st₁ why (.xadd (utf8 control) false (trimOf env st₁ retention)
        (controlFields st₁ action extra)) (xaddCallOptions st₁) with
      | mk r st₂ =>
        have hcall : Trail env P (.xadd why true) st₁ st₂ :=
          (Trail.of_xadd hr (fun h => absurd h hwhy) (hP _ _)).mono (Budget.xadd_le why r.isOk)
        refine hcall.before ?_
        cases r with
        | ok _ => exact (recoverStream_trail env _ control).after (charge_trail st₂ why 1 hc)
        | error msg =>
          simp only
          split
          · exact streamDrop_trail st₂ why control _ (Or.inl rfl)
          · exact streamDrop_trail st₂ why control _ (Or.inr rfl)

theorem writeMarker_trail (control : Str) (hP : ∀ trim fields, P .marker (.xadd (utf8 control) false trim fields))
    (action : Action) (db : Option Int32) (retention : Retention) :
    Trail env P (.xadd .marker true) st (writeMarker env st control action db retention) :=
  writeControlEntry_trail env st (by decide) control hP action retention _ rfl _

theorem writeCheckpoint_trail (control : Str)
    (hP : ∀ trim fields, P .checkpoint (.xadd (utf8 control) false trim fields)) (retention : Retention) :
    Trail env P (.xadd .checkpoint true) st (writeCheckpoint env st control retention) :=
  writeControlEntry_trail env st (by decide) control hP .checkpoint retention _ rfl _

end Control

/-! ## Mirrored writes -/

/-- The calls of a mirrored write with these fields. -/
inductive MirrorCall (pfx seg suffix : Str) (fields : List Bytes) : Command → Prop
  | xadd (trim : Option (TrimKeyword × Str)) :
      MirrorCall pfx seg suffix fields (.xadd (utf8 (streamOf pfx seg suffix)) false trim fields)
  | sadd : MirrorCall pfx seg suffix fields (.sadd (utf8 (registryOf pfx seg)) (utf8 (streamOf pfx seg suffix)))
  | group (g : Str) : MirrorCall pfx seg suffix fields (.xgroupCreate (utf8 (streamOf pfx seg suffix)) (utf8 g))

section Mirror

variable (env : Env) {P : Purpose → Command → Prop} (st : State)

theorem registerStream_trail {why : Purpose} (hwhy : why ≠ .probe) (registry stream : Str)
    (hP : P why (.sadd (utf8 registry) (utf8 stream))) :
    Trail env P .oneRegistration st (registerStream env st why registry stream) := by
  unfold registerStream
  split
  · exact .refl st
  · cases hr : call env st why (.sadd (utf8 registry) (utf8 stream)) (xaddCallOptions st) with
    | mk r st₁ =>
      have hcall : Trail env P .oneRegistration st st₁ := Trail.of_call hr (fun h => absurd h hwhy) hP fun x hx => by
        cases x <;> first | exact le_refl 1 | cases hx
      refine hcall.before ?_
      cases r with
      | ok _ =>
        have hflag : Trail env P .none st₁
            (st₁.setStats stream { st₁.stats stream with registered := true, registryFailed := false }) :=
          flagged_trail st₁ stream _ ⟨rfl, rfl⟩
        exact hflag.before (.of_still ⟨rfl, rfl, rfl, rfl, rfl, rfl, rfl, rfl⟩)
      | error msg =>
        have hflag : Trail env P .none st₁ (st₁.setStats stream { st₁.stats stream with registryFailed := true }) :=
          flagged_trail st₁ stream _ ⟨rfl, rfl⟩
        have hcount : Trail env P .none st₁
            ((st₁.setStats stream { st₁.stats stream with registryFailed := true }).charge why .registryErrors 1) :=
          (charge_trail _ why 1 rfl).after hflag
        exact hcount.before (.of_still ⟨rfl, rfl, rfl, rfl, rfl, rfl, rfl, rfl⟩)

theorem provisionGroup_trail {why : Purpose} (hwhy : why ≠ .probe) (stream : Str)
    (hP : ∀ group, P why (.xgroupCreate (utf8 stream) (utf8 group))) :
    Trail env P .oneGroup st (provisionGroup env st why stream) := by
  unfold provisionGroup
  split
  · cases groupName st with
    | none => exact .refl st
    | some group =>
      have hone : ∀ ok x, Expense.of x (.call why (.xgroupCreate (utf8 stream) (utf8 group)) ok) = true →
          1 ≤ Budget.oneGroup x := fun ok x hx => by
        cases x <;> first | exact le_refl 1 | cases hx
      have hflag : ∀ st₁ : State, Trail env P .none st₁
          (st₁.setStats stream { st₁.stats stream with groupCreated := true }) :=
        fun st₁ => flagged_trail st₁ stream _ ⟨rfl, rfl⟩
      simp only
      rcases createAutoGroup_cases env st why stream group with
        ⟨st₁, hc, h⟩ | ⟨msg, st₁, hc, ⟨_, h⟩ | ⟨latch, detail, h⟩⟩
      · rw [h]
        exact (Trail.of_call hc (fun h => absurd h hwhy) (hP group) (hone _)).before
          ((hflag _).after (charge_trail st₁ why 1 rfl))
      · rw [h]
        exact (Trail.of_call hc (fun h => absurd h hwhy) (hP group) (hone _)).before (hflag st₁)
      · rw [h]
        exact (Trail.of_call hc (fun h => absurd h hwhy) (hP group) (hone _)).before
          (drop_trail st₁ why latch detail (Or.inl rfl))
  · exact .refl st

/-- One attempt to write, with the side effects of a written entry. -/
theorem mirrorFields_trail (pfx seg suffix : Str) (fields : List Bytes) (retention : Retention) (maxStreams : Int)
    {counter : Counter} (count : Nat) (hc : counter = .forwarded ∨ counter = .firehoseForwarded)
    (hP : ∀ cmd, MirrorCall pfx seg suffix fields cmd → P (purposeOf counter) cmd) :
    let r := mirrorFields env st pfx seg suffix fields retention maxStreams counter count
    Trail env P (.mirror (purposeOf counter) (decide (r.1 = .written))) st r.2 := by
  unfold mirrorFields
  simp only
  split
  · exact .refl st
  · cases hr : call env st (purposeOf counter)
      (.xadd (utf8 (streamOf pfx seg suffix)) false (trimOf env st retention) fields) (xaddCallOptions st) with
    | mk r st₁ =>
      have hwhy : purposeOf counter ≠ .probe := by rcases hc with rfl | rfl <;> decide
      have hcall := Trail.of_xadd hr (fun h => absurd h hwhy) (hP _ (.xadd _))
      cases r with
      | ok _ =>
        have hrec : Trail env P .none st₁
            (recordWrite st₁ (purposeOf counter) (streamOf pfx seg suffix) counter count) :=
          .single (.written st₁ _ _ counter count hc) (fun x => by cases x <;> rfl) (by simp)
        have hreg := registerStream_trail env
          (recordWrite st₁ (purposeOf counter) (streamOf pfx seg suffix) counter count) hwhy _ _ (hP _ .sadd)
        exact hcall.trans ((hreg.after hrec).trans (provisionGroup_trail env _ hwhy _ fun g => hP _ (.group g)))
      | error msg =>
        simp only [classify_ne_written, decide_false]
        exact hcall.mono fun x => by simp [Budget.mirror, Except.isOk, Except.toBool]

theorem mirrorEntry_trail (pfx seg suffix : Str) (spec : EntrySpec) (retention : Retention) (maxStreams : Int)
    {counter : Counter} (hc : counter = .forwarded ∨ counter = .firehoseForwarded)
    (hP : ∀ fields cmd, encodeEntryFields spec = .ok fields → MirrorCall pfx seg suffix fields cmd →
      P (purposeOf counter) cmd) :
    let r := mirrorEntry env st pfx seg suffix spec retention maxStreams counter
    Trail env P (.mirror (purposeOf counter) (decide (r.1 = .written))) st r.2 := by
  unfold mirrorEntry
  cases he : encodeEntryFields spec with
  | error reason => exact .refl st
  | ok fields =>
    exact mirrorFields_trail env st pfx seg suffix fields retention maxStreams 1 hc fun cmd hm => hP fields cmd he hm

end Mirror

/-! ## Processors -/

/-- A tag segment. -/
def IsSegment (seg : Str) : Prop := seg = [] ∨ ∃ tag, seg = braced tag

/-- The calls made for an event whose entry is `spec`. -/
inductive EventCall (e : PendingEvent) (spec : EntrySpec) : Purpose → Command → Prop
  | probe (tag : Str) : EventCall e spec .probe (probeCommand tag)
  | canonical {seg : Str} {fields : List Bytes} {cmd : Command} (hseg : IsSegment seg)
      (hf : encodeEntryFields spec = .ok fields) (h : MirrorCall e.pfx seg e.suffix fields cmd) :
      EventCall e spec .canonical cmd
  | firehose {seg : Str} {fields : List Bytes} {cmd : Command} (hseg : IsSegment seg)
      (hf : encodeEntryFields spec = .ok fields) (h : MirrorCall e.pfx seg "#firehose".toList fields cmd) :
      EventCall e spec .firehose cmd
  | marker {seg : Str} (hseg : IsSegment seg) (trim : Option (TrimKeyword × Str)) (fields : List Bytes) :
      EventCall e spec .marker (.xadd (utf8 (controlStreamOf e.pfx seg)) false trim fields)

namespace Budget

/-- The retry of a re-pin, with the marker before it. -/
def retry : Budget := xadd .marker true + mirror .canonical true

/-- The re-pin. -/
def repinned : Budget := onePin + oneRepin + select + retry

/-- The canonical write of an event. -/
def settle : Budget
  | .attempt .canonical | .pinning | .repin => 2
  | .attempt .probe | .entry .probe => slotCount + 1
  | .entry .canonical | .attempt .marker | .entry .marker | .registration | .group => 1
  | _ => 0

/-- The firehose copy. -/
def firehose : Budget := select + mirror .firehose true

/-- One event: at most one canonical entry in at most two attempts, at most one copy, one marker and one number. -/
def event : Budget
  | .attempt .canonical | .registration | .group | .repin => 2
  | .attempt .probe | .entry .probe => 3 * slotCount + 1
  | .entry .canonical | .attempt .firehose | .entry .firehose | .attempt .marker | .entry .marker | .number => 1
  | .pinning => 4
  | _ => 0

theorem mirror_le_settle (x : Expense) : mirror .canonical true x ≤ settle x := by
  cases x with
  | attempt w | entry w => cases w <;> simp [mirror, xadd, oneRegistration, oneGroup, settle]
  | registration | group | number | pinning | repin => simp [mirror, xadd, oneRegistration, oneGroup, settle]

theorem refused_repin_le_settle (x : Expense) :
    (mirror .canonical false + (probes 1 + oneRepin + repinned)) x ≤ settle x := by
  cases x with
  | attempt w | entry w =>
    cases w <;> simp [mirror, xadd, oneRegistration, oneGroup, onePin, oneRepin, settle, repinned, retry,
      select, probes, none, Nat.add_comm]
  | registration | group | number | pinning | repin =>
    simp [mirror, xadd, oneRegistration, oneGroup, onePin, oneRepin, settle, repinned, retry, select, probes, none]

theorem parts_le_event (entrySeq : Bool) (x : Expense) :
    (none + select + numbers entrySeq + settle + firehose) x ≤ event x := by
  cases x with
  | attempt w | entry w =>
    cases w <;> simp [mirror, xadd, oneRegistration, oneGroup, numbers, settle, firehose, select, none, event]
    omega
  | registration | group | pinning | repin =>
    simp [mirror, xadd, oneRegistration, oneGroup, numbers, settle, firehose, select, none, event]
  | number =>
    cases entrySeq <;> simp [mirror, xadd, oneRegistration, oneGroup, numbers, settle, firehose, select, none, event]

end Budget

section Processors

variable (env : Env) {P : Purpose → Command → Prop} (st : State)

theorem tagSegment_isSegment {st₁ : State} {seg : Str} (h : tagSegment env st = (some seg, st₁)) : IsSegment seg :=
  (tagSegment_seg st h).2

/-- The firehose copy is attempted at most once. -/
theorem mirrorFirehose_trail (e : PendingEvent) (spec : EntrySpec) (retention : Retention) :
    Trail env (EventCall e spec) .firehose st (mirrorFirehose env st e.pfx spec retention) := by
  unfold mirrorFirehose
  have ht := tagSegment_trail env st (P := EventCall e spec) .probe
  cases hs : tagSegment env st with
  | mk seg st₁ =>
    rw [hs] at ht
    refine ht.trans ?_
    cases seg with
    | none => exact noSlotDrop_trail st₁ .firehose false
    | some seg =>
      have hseg := tagSegment_isSegment env st hs
      have hw := mirrorEntry_trail env
        (P := EventCall e spec) st₁ e.pfx seg "#firehose".toList spec retention 0 (Or.inr rfl)
        fun fields cmd hf hm => .firehose hseg hf hm
      simp only
      cases hr : mirrorEntry env st₁ e.pfx seg "#firehose".toList spec retention 0 .firehoseForwarded with
      | mk o st₂ =>
        rw [hr] at hw
        refine Trail.before (hw.mono (Budget.mirror_le _ _)) ?_
        cases o with
        | written | maxStreams _ => exact .refl st₂
        | oom stream msg => exact streamDrop_trail st₂ .firehose stream msg (Or.inl rfl)
        | failed stream msg => exact streamDrop_trail st₂ .firehose stream msg (Or.inr rfl)
        | slotMigrated | migrating _ | encodeError _ _ => exact drop_trail st₂ .firehose _ _ (Or.inl rfl)

/-- The tag is given up, and the re-pin is counted. -/
def unpinned (st : State) : State := { st with nodeTag := none, probeVerifiedTag := none }.charge .canonical .repins 1

/-- What follows the selection of another tag: the marker and the retry, or the drop of the event. -/
theorem repinAndRetry_after (e : PendingEvent) (spec : EntrySpec) :
    Trail env (EventCall e spec) .retry (tagSegment env (unpinned st)).2
      (repinAndRetry env st e.pfx e.suffix spec e.dataRetention e.controlRetention e.maxStreams) := by
  simp only [repinAndRetry]
  have hst : { st with nodeTag := none, probeVerifiedTag := none }.charge .canonical .repins 1 = unpinned st := rfl
  rw [hst]
  generalize unpinned st = st₀
  cases hs : tagSegment env st₀ with
  | mk seg st₁ =>
    cases seg with
    | none => exact noSlotDrop_trail st₁ .canonical true
    | some seg =>
      have hseg := tagSegment_isSegment env st₀ hs
      have hm := writeMarker_trail env (P := EventCall e spec) st₁ (controlStreamOf e.pfx seg)
        (fun trim fields => .marker hseg trim fields) .repinned none e.controlRetention
      refine hm.trans ?_
      simp only
      generalize writeMarker env st₁ (controlStreamOf e.pfx seg) .repinned none e.controlRetention = st₂
      have hw := mirrorEntry_trail env (P := EventCall e spec) st₂ e.pfx seg e.suffix spec e.dataRetention e.maxStreams
        (Or.inl rfl) fun fields cmd hf hm => .canonical hseg hf hm
      cases hr : mirrorEntry env st₂ e.pfx seg e.suffix spec e.dataRetention e.maxStreams .forwarded with
      | mk o st₃ =>
        rw [hr] at hw
        refine Trail.before (hw.mono (Budget.mirror_le _ _)) ?_
        cases o with
        | written => exact .refl st₃
        | oom stream msg => exact eventsLostStream_trail st₃ .canonical 1 stream msg (Or.inl rfl)
        | failed stream msg => exact eventsLostStream_trail st₃ .canonical 1 stream msg (Or.inr rfl)
        | slotMigrated | migrating _ | maxStreams _ | encodeError _ _ =>
          exact eventsLost_trail st₃ .canonical 1 _ _ (Or.inl rfl)

theorem repinAndRetry_trail (e : PendingEvent) (spec : EntrySpec) :
    Trail env (EventCall e spec) .repinned st
      (repinAndRetry env st e.pfx e.suffix spec e.dataRetention e.controlRetention e.maxStreams) := by
  have hun : Trail env (EventCall e spec) .onePin st { st with nodeTag := none, probeVerifiedTag := none } :=
    .of_pinning (.unpin st) rfl
  have hcount : Trail env (EventCall e spec) .oneRepin { st with nodeTag := none, probeVerifiedTag := none }
    (unpinned st) := .of_repin rfl 1
  have hsel := tagSegment_trail env (unpinned st) (P := EventCall e spec) .probe
  exact ((hun.trans hcount).trans hsel).trans (repinAndRetry_after env st e spec)

/-- The canonical write: a second attempt is made only if the first was refused. -/
theorem settleEvent_trail (e : PendingEvent) {seg : Str} (spec : EntrySpec) (hseg : IsSegment seg) :
    Trail env (EventCall e spec) .settle st (settleEvent env st e seg spec) := by
  unfold settleEvent
  have hw := mirrorEntry_trail env (P := EventCall e spec) st e.pfx seg e.suffix spec e.dataRetention e.maxStreams
    (Or.inl rfl) fun fields cmd hf hm => .canonical hseg hf hm
  have hend : ∀ {o : MirrorOutcome} {st₁ st₂ : State},
      Trail env (EventCall e spec) (.mirror .canonical (decide (o = .written))) st st₁ →
      Trail env (EventCall e spec) .none st₁ st₂ → Trail env (EventCall e spec) .settle st st₂ := fun h h' =>
    (h.before h').mono fun x => (Budget.mirror_le _ _ x).trans (Budget.mirror_le_settle x)
  have hagain : ∀ {st₁ st₂ : State}, Trail env (EventCall e spec) (.mirror .canonical false) st st₁ →
      Trail env (EventCall e spec) (.probes 1 + .oneRepin + .repinned) st₁ st₂ →
      Trail env (EventCall e spec) .settle st st₂ :=
    fun h h' => (h.trans h').mono Budget.refused_repin_le_settle
  have hretry : ∀ st₁, Trail env (EventCall e spec) (.probes 1 + .oneRepin + .repinned) st₁
      (repinAndRetry env st₁ e.pfx e.suffix spec e.dataRetention e.controlRetention e.maxStreams) := fun st₁ =>
    (repinAndRetry_trail env st₁ e spec).mono fun x => Nat.le_add_left _ _
  cases hr : mirrorEntry env st e.pfx seg e.suffix spec e.dataRetention e.maxStreams .forwarded with
  | mk o st₁ =>
    rw [hr] at hw
    cases o with
    | written => exact hend hw (.refl st₁)
    | slotMigrated => exact hagain hw (hretry st₁)
    | migrating _ => exact hagain hw (hretry st₁)
    | failed stream msg =>
      have hp := pinnedTagLostByProbe_trail env st₁ (P := EventCall e spec) .probe
      simp only
      cases hl : pinnedTagLostByProbe env st₁ with
      | mk lost st₂ =>
        rw [hl] at hp
        cases lost with
        | true =>
          exact hagain hw ((hp.trans (.of_repin rfl 1)).trans (repinAndRetry_trail env _ e spec))
        | false =>
          refine hagain hw
            ((hp.before (eventsLostStream_trail st₂ .canonical 1 stream msg (Or.inr rfl))).mono fun x => ?_)
          exact (Nat.le_add_right _ _).trans (Nat.le_add_right _ _)
    | oom stream msg => exact hend hw (eventsLostStream_trail st₁ .canonical 1 stream msg (Or.inl rfl))
    | maxStreams _ | encodeError _ _ => exact hend hw (eventsLost_trail st₁ .canonical 1 _ _ (Or.inl rfl))

/-- Whether an event gets to its first write: database 0 can be selected, and a slot is owned. -/
def reachesWrite (st : State) : Bool := env.selectDb st.clock && (tagSegment env (selectDb env st).2).1.isSome

/-- The number an event takes. -/
def numberOf (st : State) (e : PendingEvent) : Option Nat := if e.entrySeq then some st.seq else none

/-- An event that does not get to its first write is dropped after probes at most. -/
theorem processPendingEvent_unplaced (e : PendingEvent) (h : reachesWrite env st = false) :
    Trail env (fun why cmd => why = .probe ∧ ∃ tag, cmd = probeCommand tag) .select st
      (processPendingEvent env st e) := by
  unfold processPendingEvent
  cases hs : selectDb env st with
  | mk sel st₁ =>
    have hsel : env.selectDb st.clock = sel := congrArg Prod.fst hs
    have hst : (selectDb env st).2 = st₁ := congrArg Prod.snd hs
    have ht₁ : Trail env (fun why cmd => why = .probe ∧ ∃ tag, cmd = probeCommand tag) .none st st₁ := by
      rw [← hst]
      exact selectDb_trail st
    refine Trail.after ?_ ht₁
    cases sel with
    | false => exact eventsLost_trail st₁ .canonical 1 _ _ (Or.inr ⟨rfl, st.clock, hsel⟩)
    | true =>
      rw [reachesWrite, hsel, hst, Bool.true_and] at h
      have ht := tagSegment_trail env st₁ (P := fun why cmd => why = .probe ∧ ∃ tag, cmd = probeCommand tag)
        fun tag => ⟨rfl, tag, rfl⟩
      simp only
      cases hseg : tagSegment env st₁ with
      | mk seg st₂ =>
        rw [hseg] at ht h
        cases seg with
        | none => exact ht.before (noSlotDrop_trail st₂ .canonical true)
        | some seg => cases h

theorem takeSeq_trail (P : Purpose → Command → Prop) (entrySeq : Bool) :
    Trail env P (.numbers entrySeq) st (takeSeq st entrySeq).2 := by
  unfold takeSeq
  cases entrySeq with
  | true =>
    refine ⟨[.number], .single (.number st), by simp, fun x => ?_⟩
    cases x <;> simp [Expense.of, Budget.numbers]
  | false => exact .refl st

/-- An event that gets to its first write takes its number there, and all its calls are for the entry with that number.
What follows the canonical write is the copy, if the firehose is on. -/
theorem processPendingEvent_canonical (e : PendingEvent) (h : reachesWrite env st = true) :
    ∃ st', Trail env (EventCall e (entrySpec e (numberOf st e)))
      (.none + .select + .numbers e.entrySeq + .settle) st st' ∧
      st'.seq = st.seq + (if e.entrySeq then 1 else 0) ∧ processPendingEvent env st e =
        if st'.config.firehose then mirrorFirehose env st' e.pfx (entrySpec e (numberOf st e)) e.firehoseRetention
        else st' := by
  unfold processPendingEvent
  obtain ⟨hsel, hseg⟩ := Bool.and_eq_true_iff.1 h
  have hs : selectDb env st = (true, (selectDb env st).2) := by rw [← hsel]; rfl
  have h₁ : Trail env (EventCall e (entrySpec e (numberOf st e))) .none st (selectDb env st).2 := selectDb_trail st
  rw [hs]
  generalize (selectDb env st).2 = st₁ at hseg h₁
  obtain ⟨seg, ht⟩ := Option.isSome_iff_exists.1 hseg
  have h₂ := tagSegment_trail env st₁ (P := EventCall e (entrySpec e (numberOf st e))) .probe
  have hsegment := tagSegment_isSegment env st₁ (Prod.ext ht rfl)
  have hr : tagSegment env st₁ = (some seg, (tagSegment env st₁).2) := Prod.ext ht rfl
  simp only
  rw [hr]
  generalize (tagSegment env st₁).2 = st₂ at h₂
  have hseq : st₂.seq = st.seq := (h₂.seq rfl).trans (h₁.seq rfl)
  have h₃ := takeSeq_trail env st₂ (EventCall e (entrySpec e (numberOf st e))) e.entrySeq
  have hnum : (takeSeq st₂ e.entrySeq).1 = numberOf st e := by
    unfold takeSeq numberOf
    rw [hseq]
    split <;> rfl
  have hnext : (takeSeq st₂ e.entrySeq).2.seq = st.seq + if e.entrySeq then 1 else 0 := by
    unfold takeSeq
    rw [← hseq]
    split <;> rfl
  simp only
  rw [hnum]
  generalize (takeSeq st₂ e.entrySeq).2 = st₃ at h₃ hnext
  have h₄ := settleEvent_trail env st₃ e (entrySpec e (numberOf st e)) hsegment
  exact ⟨_, ((h₁.trans h₂).trans h₃).trans h₄, (h₄.seq rfl).trans hnext, rfl⟩

theorem processPendingEvent_placed (e : PendingEvent) (h : reachesWrite env st = true) :
    Trail env (EventCall e (entrySpec e (numberOf st e))) .event st (processPendingEvent env st e) ∧
      (processPendingEvent env st e).seq = st.seq + if e.entrySeq then 1 else 0 := by
  obtain ⟨st', hto, hseq, heq⟩ := processPendingEvent_canonical env st e h
  rw [heq, ← hseq]
  split
  · have hcopy := mirrorFirehose_trail env st' e (entrySpec e (numberOf st e)) e.firehoseRetention
    exact ⟨(hto.trans hcopy).mono (Budget.parts_le_event e.entrySeq), hcopy.seq rfl⟩
  · refine ⟨hto.mono fun x => ?_, rfl⟩
    exact (Nat.le_add_right _ (Budget.firehose x)).trans (Budget.parts_le_event e.entrySeq x)

/-- With the firehose off no copy is attempted. -/
theorem processPendingEvent_uncopied (e : PendingEvent) (hf : st.config.firehose = false) :
    ∃ b : Budget, b (.attempt .firehose) = 0 ∧
      Trail env (EventCall e (entrySpec e (numberOf st e))) b st (processPendingEvent env st e) := by
  cases h : reachesWrite env st with
  | true =>
    obtain ⟨st', hto, -, heq⟩ := processPendingEvent_canonical env st e h
    rw [hto.config, hf] at heq
    rw [heq]
    exact ⟨_, rfl, hto⟩
  | false =>
    refine ⟨.select, rfl, (processPendingEvent_unplaced env st e h).weaken ?_⟩
    rintro why cmd ⟨rfl, tag, rfl⟩
    exact .probe tag

theorem noSlotDrops_trail {b : Budget} (n : Nat) :
    Trail env P b st ((List.range n).foldl (fun st _ => countNoSlotDrop env st .canonical true) st) := by
  induction n with
  | zero => exact .refl st
  | succ n ih =>
    rw [List.range_succ, List.foldl_append]
    exact ih.before (noSlotDrop_trail _ .canonical true)

/-- The write of an envelope is attempted at most once. -/
theorem processPendingEnvelope_trail (hP : AllowsProbes P) (events : List PendingEvent) (fields : List Bytes)
    (hm : ∀ first ∈ events.head?, ∀ seg cmd, IsSegment seg → MirrorCall first.pfx seg first.suffix fields cmd →
      P .canonical cmd) :
    Trail env P (.select + .mirror .canonical true) st (processPendingEnvelope env st events fields) := by
  unfold processPendingEnvelope
  cases events with
  | nil => exact .refl st
  | cons first rest =>
    simp only
    generalize hn : (first :: rest).length = n
    have hsel : Trail env P .none st (selectDb env st).2 := selectDb_trail st
    cases hs : selectDb env st with
    | mk sel st₁ =>
      rw [hs] at hsel
      refine Trail.after ?_ hsel
      cases sel with
      | false => exact eventsLost_trail st₁ .canonical n _ _ (Or.inr ⟨rfl, st.clock, congrArg Prod.fst hs⟩)
      | true =>
        simp only
        have ht := tagSegment_trail env st₁ hP
        cases hseg : tagSegment env st₁ with
        | mk seg st₂ =>
          rw [hseg] at ht
          refine ht.trans ?_
          cases seg with
          | none => exact noSlotDrops_trail env st₂ n
          | some seg =>
            have hw := mirrorFields_trail env st₂ first.pfx seg first.suffix fields first.dataRetention
              first.maxStreams n (Or.inl rfl) fun cmd => hm first rfl seg cmd (tagSegment_isSegment env st₁ hseg)
            simp only
            cases hr : mirrorFields env st₂ first.pfx seg first.suffix fields first.dataRetention first.maxStreams
              .forwarded n with
            | mk o st₃ =>
              rw [hr] at hw
              refine Trail.before (hw.mono (Budget.mirror_le _ _)) ?_
              cases o with
              | written => exact (charge_trail _ .canonical n rfl).after (charge_trail st₃ .canonical 1 rfl)
              | oom stream msg => exact eventsLostStream_trail st₃ .canonical n stream msg (Or.inl rfl)
              | failed stream msg => exact eventsLostStream_trail st₃ .canonical n stream msg (Or.inr rfl)
              | slotMigrated | migrating _ | maxStreams _ | encodeError _ _ =>
                exact eventsLost_trail st₃ .canonical n _ _ (Or.inl rfl)

end Processors

end EventStream

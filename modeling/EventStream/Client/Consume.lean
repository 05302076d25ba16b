import EventStream.Client.Decoded
import EventStream.Client.Naming

/-!
# The consumer

The loop of the `consume` command: it reads the matched streams round by round, counts the events and prints them,
writes a checkpoint of its progress after each round, looks for new streams from time to time, and returns when it has
counted enough or nothing has come for long enough.

* `ConsumeOptions`, `ConsumerCheckpoint`, `Consumer`: the options, the record of the progress, and the variables of the
  loop.
* `Pass`: what one pass through the loop meets; `pass`: the pass; `Reach`: the consumers that some passes lead to.
* `countEvents_cases`, `pass_passes`: what a pass does, said once.
* `Exact`: what was counted against what was read, and what the checkpoints say (`Reach.exact`).
* `consume_accounts`: the count, the output and the checkpoints of every run.
* `idle_exit_complete`: a consumer that returns because it is idle has delivered each event of its streams once.
-/

namespace EventStream.Client

open Text (Str trim)

/-! ## The loop -/

structure ConsumeOptions where
  events : Option Str
  /-- `from`. -/
  origin : Str
  count : Option Int
  quiet : Bool
  idleExitMs : Option Nat
  readCount : Nat

namespace ConsumeOptions

variable (options : ConsumeOptions)

/-- The names of the wanted events. -/
def wanted : Option (List Str) := options.events.map fun s => (s.splitOn ',').map trim

def fromZero : Bool := options.origin = zeroCursor

def limit : Int := options.count.getD i64Max

end ConsumeOptions

/-- The record of `write_consumer_checkpoint`. -/
structure ConsumerCheckpoint where
  logicalEvents : Nat
  targetLogicalEvents : Option Int
  streams : Nat
  done : Bool
  idleExit : Bool
  updatedUnixMs : Nat
  deriving DecidableEq

/-- Why the command returned. -/
inductive Outcome
  | noStreams
  | limit
  | idle
  | undecodable (e : DecodeError)
  /-- A checkpoint could not be written. -/
  | unwritable
  deriving DecidableEq

structure Consumer where
  world : World
  seen : Nat
  idleSince : Nat
  lastDiscovery : Nat
  /-- The events printed. -/
  output : List LogicalEvent
  /-- The checkpoints written. -/
  checkpoints : List ConsumerCheckpoint
  outcome : Option Outcome
  /-- Ghost: the events counted. -/
  delivered : List LogicalEvent

/-- What one pass meets: what happens around its requests, its readings of the clock, the streams there are when it
looks for new ones, and for its two checkpoints, the last one of the run and the other, when it is written, if it can
be. -/
structure Pass where
  traffic : Traffic
  polledAt : Nat
  checkedAt : Nat
  discoveredAt : Nat
  discovered : List Str
  adding : Traffic
  saves : Bool → Option Nat

/-- The cadence of the discovery. -/
def rediscoverEvery : Nat := 5000

/-- The world after a round, whose entries are kept as a reply. -/
def World.round (w : World) (count : Nat) (traffic : Traffic) : World :=
  let r := w.reader.pollPhysical w.logs traffic count
  { w with logs := r.1, reader := r.2.1, replies := w.replies ++ [.physical r.2.2] }

/-- The world after streams were added from their beginning. -/
def World.extend (w : World) (candidates : List Str) (traffic : Traffic) : World :=
  let r := w.reader.addStreams w.logs traffic candidates true
  { w with logs := r.logs, reader := r.reader, starts := fun s => (w.starts s).or (r.reader.cursors.lookup s) }

namespace Consumer

variable (crates : Crates) (pfx : Str) (options : ConsumeOptions)

/-- `write_consumer_checkpoint`. -/
def save (c : Consumer) (time : Option Nat) (done idleExit : Bool) : Consumer :=
  match time with
  | none => { c with outcome := some .unwritable }
  | some ms =>
    { c with
      checkpoints := c.checkpoints ++
        [⟨c.seen, options.count, c.world.reader.streams.length, done, idleExit, ms⟩] }

/-- Return, unless the checkpoint before it failed. -/
def finish (c : Consumer) (outcome : Outcome) : Consumer := { c with outcome := c.outcome.or (some outcome) }

/-- Count and print one event. -/
def count (c : Consumer) (e : LogicalEvent) : Consumer :=
  { c with
    seen := c.seen + 1
    output := if options.quiet then c.output else c.output ++ [e]
    delivered := c.delivered ++ [e] }

/-- The loop over the events of a round. -/
def countEvents (time : Option Nat) (c : Consumer) : List LogicalEvent → Consumer
  | [] => c
  | e :: events =>
    let c := c.count options e
    if options.limit ≤ c.seen then (c.save options time true false).finish .limit
    else countEvents time c events

/-- The rest of a pass, once its round has decoded. -/
def proceed (c : Consumer) (p : Pass) (events : List LogicalEvent) : Consumer :=
  let c := c.countEvents options (p.saves true) events
  if c.outcome.isSome then c
  else
    let c := c.save options (p.saves false) false false
    if c.outcome.isSome then c
    else if events.isEmpty && options.idleExitMs.any fun ms => ms ≤ p.checkedAt - c.idleSince then
      (c.save options (p.saves true) true true).finish .idle
    else if rediscoverEvery ≤ p.discoveredAt - c.lastDiscovery then
      { c with
        lastDiscovery := p.discoveredAt
        world := c.world.extend (matched pfx options.wanted p.discovered) p.adding }
    else c

/-- One pass through the loop. -/
def pass (c : Consumer) (p : Pass) : Consumer :=
  let readCount := max options.readCount 1
  let world := c.world.round readCount p.traffic
  match (c.world.reader.pollDecoded crates c.world.logs p.traffic readCount).2.2 with
  | .error e => { c with world := world, outcome := some (.undecodable e) }
  | .ok events =>
    proceed pfx options
      { c with world := world, idleSince := if events.isEmpty then c.idleSince else p.polledAt } p events

/-- What comes before the loop. -/
def start (logs : Logs) (traffic : Traffic) (discovered : List Str) (now : Nat) (time : Option Nat) : Consumer :=
  let streams := matched pfx options.wanted discovered
  let new := MergedReader.new logs traffic streams options.fromZero
  let c : Consumer := ⟨⟨new.1, new.2, new.2.cursors.lookup, []⟩, 0, now, now, [], [], none, []⟩
  if streams.isEmpty then (c.save options time true options.idleExitMs.isSome).finish .noStreams
  else c.save options time false false

/-- A consumer before its first pass, on streams whose IDs increase. -/
def Started (c : Consumer) : Prop := ∃ logs traffic discovered now time,
  (∀ s, Tail.Increasing Item.key (logs s)) ∧ c = start pfx options logs traffic discovered now time

/-- The consumers that some passes lead to. -/
def Reach : Consumer → Prop :=
  Machine.Reach (fun c p c' => c.outcome = none ∧ pass crates pfx options c p = c') (fun _ _ => True)
    (Started pfx options)

/-! ## What a pass does -/

variable {crates pfx options} {c c' : Consumer} {time : Option Nat}

/-- Count some events. -/
def counts (options : ConsumeOptions) (c : Consumer) (events : List LogicalEvent) : Consumer :=
  { c with
    seen := c.seen + events.length
    output := if options.quiet then c.output else c.output ++ events
    delivered := c.delivered ++ events }

theorem count_eq (c : Consumer) (e : LogicalEvent) : c.count options e = c.counts options [e] := rfl

theorem counts_nil (c : Consumer) : c.counts options [] = c := by
  simp only [counts, List.append_nil, List.length_nil, Nat.add_zero, ite_self]

theorem counts_counts (c : Consumer) (events events' : List LogicalEvent) :
    (c.counts options events).counts options events' = c.counts options (events ++ events') := by
  simp only [counts, List.length_append, Nat.add_assoc]
  split <;> simp only [List.append_assoc]

/-- The loop counts all events and stays below the limit, or ends at the event that reaches it. -/
theorem countEvents_cases (options : ConsumeOptions) (time : Option Nat) (c : Consumer) (events : List LogicalEvent) :
    (c.countEvents options time events = c.counts options events ∧
      (events = [] ∨ ((c.seen + events.length : Nat) : Int) < options.limit)) ∨
    ∃ front e rest, events = front ++ e :: rest ∧
      c.countEvents options time events =
        ((c.counts options (front ++ [e])).save options time true false).finish .limit ∧
      options.limit ≤ ((c.seen + front.length + 1 : Nat) : Int) ∧
      (front = [] ∨ ((c.seen + front.length : Nat) : Int) < options.limit) := by
  induction events generalizing c with
  | nil => exact Or.inl ⟨(counts_nil c).symm, Or.inl rfl⟩
  | cons e events ih =>
    by_cases hlimit : options.limit ≤ ((c.count options e).seen : Int)
    · refine Or.inr ⟨[], e, events, rfl, ?_, hlimit, Or.inl rfl⟩
      rw [countEvents]
      exact if_pos hlimit
    · have hnext : c.countEvents options time (e :: events) = (c.count options e).countEvents options time events := by
        rw [countEvents]
        exact if_neg hlimit
      have hlen : (c.count options e).seen = c.seen + 1 := rfl
      rw [hnext]
      rcases ih (c.count options e) with ⟨heq, hless⟩ | ⟨front, e', rest, rfl, heq, hreach, hless⟩
      · refine Or.inl ⟨?_, Or.inr ?_⟩
        · rw [heq, count_eq, counts_counts]
          rfl
        · rcases hless with rfl | hless
          · rw [List.length_singleton]
            omega
          · rw [List.length_cons]
            omega
      · refine Or.inr ⟨e :: front, e', rest, rfl, ?_, ?_, Or.inr ?_⟩
        · rw [heq, count_eq, counts_counts]
          rfl
        · rw [List.length_cons]
          omega
        · rcases hless with rfl | hless
          · rw [List.length_singleton]
            omega
          · rw [List.length_cons]
            omega

/-- The entries of the next round. -/
def batch (options : ConsumeOptions) (c : Consumer) (p : Pass) : List PhysicalEntry :=
  (c.world.reader.pollPhysical c.world.logs p.traffic (max options.readCount 1)).2.2

/-- The consumer after a round that decoded. -/
def polled (options : ConsumeOptions) (c : Consumer) (p : Pass) (idleSince : Nat) : Consumer :=
  { c with world := c.world.round (max options.readCount 1) p.traffic, idleSince := idleSince }

/-- The last checkpoint is written and the consumer returns, or the checkpoint cannot be written. -/
structure Returns (v : Consumer) (outcome : Outcome) (c' : Consumer) : Prop where
  world : c'.world = v.world
  seen : c'.seen = v.seen
  output : c'.output = v.output
  delivered : c'.delivered = v.delivered
  ends : (c'.outcome = some .unwritable ∧ c'.checkpoints = v.checkpoints) ∨ (c'.outcome = some outcome ∧
    ∃ cp, c'.checkpoints = v.checkpoints ++ [cp] ∧ cp.logicalEvents = v.seen ∧ cp.done = true)

theorem Returns.of_finish (options : ConsumeOptions) (v : Consumer) (hv : v.outcome = none) (time : Option Nat)
    (idleExit : Bool) (outcome : Outcome) : Returns v outcome ((v.save options time true idleExit).finish outcome) := by
  cases time with
  | none => exact ⟨rfl, rfl, rfl, rfl, Or.inl ⟨rfl, rfl⟩⟩
  | some ms =>
    refine ⟨rfl, rfl, rfl, rfl, Or.inr ⟨?_, _, rfl, rfl, rfl⟩⟩
    change v.outcome.or (some outcome) = some outcome
    rw [hv]
    rfl

theorem Returns.outcome_ne_none {v : Consumer} {outcome : Outcome} (h : Returns v outcome c') : c'.outcome ≠ none := by
  rcases h.ends with ⟨ho, -⟩ | ⟨ho, -⟩ <;> rw [ho] <;> exact Option.some_ne_none _

/-- The ways a pass can go. -/
inductive Passes (crates : Crates) (pfx : Str) (options : ConsumeOptions) (c : Consumer) (p : Pass) : Consumer → Prop
  | undecodable {e : DecodeError} (hdec : decodeBatch crates (c.batch options p) = .error e) :
      Passes crates pfx options c p
        { c with world := c.world.round (max options.readCount 1) p.traffic, outcome := some (.undecodable e) }
  /-- An event reaches the limit. -/
  | limit {front rest : List LogicalEvent} {e : LogicalEvent} (idleSince : Nat)
      (hdec : decodeBatch crates (c.batch options p) = .ok (front ++ e :: rest))
      (hreach : options.limit ≤ ((c.seen + front.length + 1 : Nat) : Int))
      (hless : front = [] ∨ ((c.seen + front.length : Nat) : Int) < options.limit) {c' : Consumer}
      (hret : Returns ((c.polled options p idleSince).counts options (front ++ [e])) .limit c') :
      Passes crates pfx options c p c'
  /-- All events are counted, and the checkpoint cannot be written. -/
  | unwritable {events : List LogicalEvent} (idleSince : Nat)
      (hdec : decodeBatch crates (c.batch options p) = .ok events)
      (hless : events = [] ∨ ((c.seen + events.length : Nat) : Int) < options.limit) : Passes crates pfx options c p
        { (c.polled options p idleSince).counts options events with outcome := some .unwritable }
  /-- Nothing came, and nothing has come for long enough. -/
  | idle {ms : Nat} (hdec : decodeBatch crates (c.batch options p) = .ok []) {c' : Consumer}
      (hret : Returns ((c.polled options p c.idleSince).save options (some ms) false false) .idle c') :
      Passes crates pfx options c p c'
  /-- The loop goes on, with more streams or without. -/
  | goesOn {events : List LogicalEvent} {ms : Nat} (idleSince lastDiscovery : Nat) (world : World)
      (hdec : decodeBatch crates (c.batch options p) = .ok events)
      (hless : events = [] ∨ ((c.seen + events.length : Nat) : Int) < options.limit)
      (hworld : world = c.world.round (max options.readCount 1) p.traffic ∨
        world = (c.world.round (max options.readCount 1) p.traffic).extend
          (matched pfx options.wanted p.discovered) p.adding) :
      Passes crates pfx options c p { ((c.polled options p idleSince).counts options events).save options
        (some ms) false false with
        lastDiscovery := lastDiscovery, world := world }

theorem pass_passes (c : Consumer) (p : Pass) (hrun : c.outcome = none) :
    Passes crates pfx options c p (pass crates pfx options c p) := by
  have hpass : pass crates pfx options c p = match decodeBatch crates (c.batch options p) with
      | .error e =>
        { c with world := c.world.round (max options.readCount 1) p.traffic, outcome := some (.undecodable e) }
      | .ok events => proceed pfx options
          (c.polled options p (if events.isEmpty then c.idleSince else p.polledAt)) p events := rfl
  rw [hpass]
  cases hdec : decodeBatch crates (c.batch options p) with
  | error e => exact .undecodable hdec
  | ok events =>
    simp only
    generalize hidle : (if events.isEmpty = true then c.idleSince else p.polledAt) = idleSince
    have hnone : (c.polled options p idleSince).outcome = none := hrun
    rcases countEvents_cases options (p.saves true) (c.polled options p idleSince) events with
      ⟨hall, hless⟩ | ⟨front, e, rest, rfl, hlimit, hreach, hless⟩
    · have hcounted : ((c.polled options p idleSince).counts options events).outcome = none := hnone
      rw [proceed, hall]
      dsimp only
      rw [if_neg (by simp [hcounted])]
      cases hsave : p.saves false with
      | none =>
        have hfailed : (((c.polled options p idleSince).counts options events).save options none false
            false).outcome.isSome = true := rfl
        rw [if_pos hfailed]
        exact .unwritable idleSince hdec hless
      | some ms =>
        have hsaved : (((c.polled options p idleSince).counts options events).save options
            (some ms) false false).outcome = none := hnone
        rw [if_neg (by simp [hsaved])]
        split
        · rename_i hexit
          have hnil : events = [] := by
            simp only [Bool.and_eq_true, List.isEmpty_iff] at hexit
            exact hexit.1
          subst hnil
          rw [counts_nil] at hsaved ⊢
          have hsame : idleSince = c.idleSince := hidle.symm
          rw [hsame] at hsaved ⊢
          exact .idle hdec (.of_finish options _ hsaved _ _ _)
        · split
          · exact .goesOn idleSince p.discoveredAt _ hdec hless (Or.inr rfl)
          · exact .goesOn idleSince c.lastDiscovery _ hdec hless (Or.inl rfl)
    · have hcounted : ((c.polled options p idleSince).counts options (front ++ [e])).outcome = none := hnone
      have hret := Returns.of_finish options _ hcounted (p.saves true) false .limit
      rw [proceed, hlimit]
      dsimp only
      rw [if_pos (Option.isSome_iff_ne_none.2 hret.outcome_ne_none)]
      exact .limit idleSince hdec hreach hless hret

/-! ## The count and the checkpoints -/

/-- The outcomes that the last checkpoint tells of. -/
def finished : Option Outcome → Bool
  | some .noStreams | some .limit | some .idle => true
  | _ => false

/-- The checkpoints tell the count as of their time, and only the last one can tell of the end. -/
structure Logged (c : Consumer) : Prop where
  bounded : ∀ cp ∈ c.checkpoints, cp.logicalEvents ≤ c.seen
  sorted : c.checkpoints.Pairwise fun a b => a.logicalEvents ≤ b.logicalEvents
  earlier : ∀ cp ∈ c.checkpoints.dropLast, cp.done = false
  last : c.outcome ≠ some .unwritable → ∃ cp, c.checkpoints.getLast? = some cp ∧ cp.logicalEvents = c.seen ∧
    cp.done = finished c.outcome

theorem Logged.first {cp : ConsumerCheckpoint} (h : c.checkpoints = [cp]) (hcount : cp.logicalEvents = c.seen)
    (hdone : cp.done = finished c.outcome) : Logged c := by
  refine ⟨?_, ?_, ?_, fun _ => ⟨cp, by rw [h]; rfl, hcount, hdone⟩⟩
  · rw [h]
    exact List.forall_mem_singleton.2 (Nat.le_of_eq hcount)
  · rw [h]
    exact List.pairwise_singleton _ _
  · rw [h]
    exact List.forall_mem_nil _

/-- One more checkpoint, while the loop runs. -/
theorem Logged.append (h : Logged c) (hrun : c.outcome = none) {cp : ConsumerCheckpoint}
    (hcps : c'.checkpoints = c.checkpoints ++ [cp]) (hle : c.seen ≤ c'.seen) (hcount : cp.logicalEvents = c'.seen)
    (hdone : cp.done = finished c'.outcome) : Logged c' := by
  obtain ⟨old, hold, -, hopen⟩ := h.last (by rw [hrun]; decide)
  rw [hrun] at hopen
  refine ⟨fun x hx => ?_, ?_, fun x hx => ?_, fun _ => ⟨cp, ?_, hcount, hdone⟩⟩
  · rw [hcps] at hx
    rcases List.mem_append.1 hx with hx | hx
    · exact (h.bounded x hx).trans hle
    · rw [List.mem_singleton.1 hx, hcount]
  · rw [hcps]
    refine List.pairwise_append.2 ⟨h.sorted, List.pairwise_singleton _ _, fun x hx y hy => ?_⟩
    rw [List.mem_singleton.1 hy, hcount]
    exact (h.bounded x hx).trans hle
  · rw [hcps, List.dropLast_concat] at hx
    -- the checkpoint that was the last one tells that the loop runs
    rcases List.eq_nil_or_concat c.checkpoints with hnil | ⟨front, y, hy⟩
    · rw [hnil] at hx
      cases hx
    · rw [List.concat_eq_append] at hy
      rw [hy, List.getLast?_concat] at hold
      rw [hy] at hx
      rcases List.mem_append.1 hx with hx | hx
      · exact h.earlier x (by rw [hy, List.dropLast_concat]; exact hx)
      · rw [List.mem_singleton.1 hx, Option.some.inj hold]
        exact hopen
  · rw [hcps, List.getLast?_concat]

/-- No new checkpoint: the end of the loop by an error. -/
theorem Logged.ended (h : Logged c) (hrun : c.outcome = none) (hcps : c'.checkpoints = c.checkpoints)
    (hle : c.seen ≤ c'.seen) (hend : c'.outcome = some .unwritable ∨ (c'.seen = c.seen ∧ finished c'.outcome = false)) :
    Logged c' := by
  refine ⟨fun x hx => (h.bounded x (hcps ▸ hx)).trans hle, hcps ▸ h.sorted,
    fun x hx => h.earlier x (hcps ▸ hx), fun hne => ?_⟩
  obtain ⟨hseen, hopen⟩ := hend.resolve_left hne
  obtain ⟨cp, hcp, hcount, hdone⟩ := h.last (by rw [hrun]; decide)
  rw [hrun] at hdone
  exact ⟨cp, hcps ▸ hcp, hcount.trans hseen.symm, hdone.trans hopen.symm⟩

/-- The end of the loop, with a last checkpoint if it can be written. -/
theorem Returns.logged {v : Consumer} {outcome : Outcome} (hret : Returns v outcome c') (h : Logged c)
    (hrun : c.outcome = none) (hcps : v.checkpoints = c.checkpoints) (hle : c.seen ≤ v.seen)
    (hend : finished (some outcome) = true) : Logged c' := by
  rcases hret.ends with ⟨ho, hc⟩ | ⟨ho, cp, hc, hcount, hdone⟩
  · exact h.ended hrun (hc.trans hcps) (hret.seen ▸ hle) (Or.inl ho)
  · refine h.append hrun (by rw [hc, hcps]) (hret.seen ▸ hle) (hcount.trans hret.seen.symm) ?_
    rw [ho, hdone, hend]

theorem pass_logged (hrun : c.outcome = none) (h : Logged c) {p : Pass} (hp : Passes crates pfx options c p c') :
    Logged c' := by
  cases hp with
  | undecodable hdec => exact h.ended hrun rfl (Nat.le_refl _) (Or.inr ⟨rfl, rfl⟩)
  | limit idleSince hdec hreach hless hret => exact hret.logged h hrun rfl (Nat.le_add_right _ _) rfl
  | unwritable idleSince hdec hless => exact h.ended hrun rfl (Nat.le_add_right _ _) (Or.inl rfl)
  | idle hdec hret =>
    rename_i ms
    have hsaved : Logged ((c.polled options p c.idleSince).save options (some ms) false false) :=
      h.append hrun rfl (Nat.le_refl _) rfl (by change false = Consumer.finished c.outcome; rw [hrun]; rfl)
    exact hret.logged hsaved hrun rfl (Nat.le_refl _) rfl
  | goesOn idleSince lastDiscovery world hdec hless hworld =>
    refine h.append hrun rfl (Nat.le_add_right _ _) rfl ?_
    change false = Consumer.finished c.outcome
    rw [hrun]
    rfl

/-- What is counted, printed and left to count. -/
structure Tallied (options : ConsumeOptions) (c : Consumer) : Prop where
  count : c.seen = c.delivered.length
  output : c.output = if options.quiet then [] else c.delivered
  bounded : (c.seen : Int) ≤ max 1 options.limit
  below : c.outcome = none → c.seen = 0 ∨ (c.seen : Int) < options.limit
  limit : c.outcome = some .limit → (c.seen : Int) = max 1 options.limit

/-- The same count with another outcome. -/
theorem Tallied.ended (h : Tallied options c) (hd : c'.delivered = c.delivered) (hs : c'.seen = c.seen)
    (ho : c'.output = c.output) (hend : c'.outcome ≠ none ∧ c'.outcome ≠ some .limit) : Tallied options c' :=
  ⟨by rw [hs, hd, h.count], by rw [ho, hd, h.output], by rw [hs]; exact h.bounded, fun hn => absurd hn hend.1,
    fun hl => absurd hl hend.2⟩

/-- Some more events are counted. -/
theorem Tallied.counts (h : Tallied options c) {events : List LogicalEvent} (hd : c'.delivered = c.delivered ++ events)
    (hs : c'.seen = c.seen + events.length) (ho : c'.output = if options.quiet then c.output else c.output ++ events)
    (hbounded : (c'.seen : Int) ≤ max 1 options.limit)
    (hbelow : c'.outcome = none → c'.seen = 0 ∨ (c'.seen : Int) < options.limit)
    (hlimit : c'.outcome = some .limit → (c'.seen : Int) = max 1 options.limit) : Tallied options c' := by
  refine ⟨by rw [hs, hd, List.length_append, h.count], ?_, hbounded, hbelow, hlimit⟩
  rw [ho, hd, h.output]
  split <;> rfl

/-- Events that stay below the limit. -/
theorem Tallied.below_limit (h : Tallied options c) (hrun : c.outcome = none) {events : List LogicalEvent}
    (hless : events = [] ∨ ((c.seen + events.length : Nat) : Int) < options.limit) :
    c.seen + events.length = 0 ∨ ((c.seen + events.length : Nat) : Int) < options.limit := by
  rcases hless with rfl | hless
  · exact h.below hrun
  · exact Or.inr hless

theorem pass_tallied (hrun : c.outcome = none) (h : Tallied options c) {p : Pass}
    (hp : Passes crates pfx options c p c') : Tallied options c' := by
  cases hp with
  | undecodable hdec => exact h.ended rfl rfl rfl ⟨Option.some_ne_none _, by simp⟩
  | limit idleSince hdec hreach hless hret =>
    rename_i front rest e
    have hbelow := h.below hrun
    have hseen : c'.seen = c.seen + (front ++ [e]).length := hret.seen
    have hexact : (c'.seen : Int) = max 1 options.limit := by
      rw [hseen, List.length_append, List.length_singleton]
      rcases hless with rfl | hless
      · rw [List.length_nil] at hreach ⊢
        omega
      · omega
    exact h.counts hret.delivered hseen hret.output hexact.le (fun hn => absurd hn hret.outcome_ne_none) fun _ => hexact
  | unwritable idleSince hdec hless =>
    have hbelow := h.below_limit hrun hless
    exact h.counts rfl rfl rfl (by change ((c.seen + _ : Nat) : Int) ≤ _; omega) (fun _ => hbelow) fun hl => by cases hl
  | idle hdec hret =>
    refine h.ended hret.delivered hret.seen hret.output ⟨hret.outcome_ne_none, ?_⟩
    rcases hret.ends with ⟨ho, -⟩ | ⟨ho, -⟩ <;> rw [ho] <;> simp
  | goesOn idleSince lastDiscovery world hdec hless hworld =>
    have hbelow := h.below_limit hrun hless
    refine h.counts rfl rfl rfl (by change ((c.seen + _ : Nat) : Int) ≤ _; omega) (fun _ => hbelow) fun hl => ?_
    rw [show c.outcome = _ from hl] at hrun
    cases hrun

/-! ## What was read -/

end Consumer

/-- The entries of a round. -/
def Reply.entries : Reply → List PhysicalEntry
  | physical batch => batch
  | plain _ => []

theorem decodeBatch_eq_ok {crates : Crates} {batch : List PhysicalEntry} {events : List LogicalEvent}
    (h : decodeBatch crates batch = .ok events) : (∀ entry ∈ batch, Decodes crates entry) ∧
      batch.flatMap (fun entry => returned (decodeEntry crates entry)) = events := by
  have hall := decodeBatch_accepts_iff.1 ⟨events, h⟩
  rw [decodeBatch_ok hall] at h
  exact ⟨hall, Except.ok.inj h⟩

/-- The streams of a reader are those it had and candidates. -/
theorem MergedReader.addStreams_streams (reader : MergedReader) (logs : Logs) (traffic : Traffic)
    (candidates : List Str) (fromZero : Bool) {s : Str}
    (hs : s ∈ (reader.addStreams logs traffic candidates fromZero).reader.streams) :
    s ∈ reader.streams ∨ s ∈ candidates := by
  suffices hfold : ∀ (ps : List (Str × Nat)) (acc : Adding),
      s ∈ (ps.foldl (addStream traffic fromZero) acc).reader.streams → s ∈ acc.reader.streams ∨ ∃ p ∈ ps, p.1 = s by
    rcases hfold _ _ hs with h | ⟨p, hp, rfl⟩
    · exact Or.inl h
    · exact Or.inr (List.fst_mem_of_mem_zipIdx hp)
  intro ps
  induction ps with
  | nil => exact fun acc h => Or.inl h
  | cons p ps ih =>
    intro acc h
    rcases ih _ h with h | ⟨q, hq, rfl⟩
    · unfold addStream at h
      split at h
      · exact Or.inl h
      · rcases List.mem_append.1 h with h | h
        · exact Or.inl h
        · exact Or.inr ⟨p, List.mem_cons_self, (List.mem_singleton.1 h).symm⟩
    · exact Or.inr ⟨q, List.mem_cons_of_mem _ hq, rfl⟩

/-- New streams that are read from the beginning start at zero. -/
theorem MergedReader.addStreams_lookup (reader : MergedReader) (logs : Logs) (traffic : Traffic) (candidates : List Str)
    {s cursor : Str} (hs : (reader.addStreams logs traffic candidates true).reader.cursors.lookup s = some cursor) :
    reader.cursors.lookup s = some cursor ∨ cursor = zeroCursor := by
  suffices hfold : ∀ (ps : List (Str × Nat)) (acc : Adding),
      (ps.foldl (addStream traffic true) acc).reader.cursors.lookup s = some cursor →
      acc.reader.cursors.lookup s = some cursor ∨ cursor = zeroCursor from hfold _ _ hs
  intro ps
  induction ps with
  | nil => exact fun acc h => Or.inl h
  | cons p ps ih =>
    intro acc h
    rcases ih _ h with h | h
    · unfold addStream at h
      split at h
      · exact Or.inl h
      · by_cases heq : s = p.1
        · rw [heq, AList.lookup_insert] at h
          exact Or.inr (Option.some.inj h).symm
        · rw [AList.lookup_insert_ne heq] at h
          exact Or.inl h
    · exact Or.inr h

theorem MergedReader.new_lookup (logs : Logs) (traffic : Traffic) (streams : List Str) {s cursor : Str}
    (hs : (new logs traffic streams true).2.cursors.lookup s = some cursor) : cursor = zeroCursor := by
  suffices hfold : ∀ (ps : List (Str × Nat)) (acc : Logs × Cursors), (∀ c, acc.2.lookup s = some c → c = zeroCursor) →
      ∀ c, (ps.foldl (newStream traffic true) acc).2.lookup s = some c → c = zeroCursor by
    refine hfold _ _ (fun c hc => ?_) cursor hs
    rw [AList.lookup_empty] at hc
    cases hc
  intro ps
  induction ps with
  | nil => exact fun acc h => h
  | cons p ps ih =>
    intro acc h
    refine ih _ fun c hc => ?_
    unfold newStream at hc
    by_cases heq : s = p.1
    · rw [heq, AList.lookup_insert] at hc
      exact (Option.some.inj hc).symm
    · rw [AList.lookup_insert_ne heq] at hc
      exact h c hc

namespace Consumer

variable {crates : Crates} {pfx : Str} {options : ConsumeOptions} {c c' : Consumer}

/-- The entries read so far. -/
def read (c : Consumer) : List PhysicalEntry := c.world.replies.flatMap Reply.entries

/-- What they decode to. -/
def decoded (crates : Crates) (c : Consumer) : List LogicalEvent :=
  c.read.flatMap fun entry => returned (decodeEntry crates entry)

/-- A stream the consumer asks for. -/
def Wanted (pfx : Str) (options : ConsumeOptions) (s : Str) : Prop :=
  '#' ∉ s ∧ ∀ names ∈ options.wanted, ∃ e, eventName pfx s = some e ∧ e ∈ names

/-- The world of a consumer: a reader on the wanted streams, and what it returned. -/
structure Covers (pfx : Str) (options : ConsumeOptions) (w : World) : Prop where
  sound : ∀ texts, w.Sound texts
  physical : ∀ reply ∈ w.replies, reply.positions = reply.entries.map PhysicalEntry.position
  wanted : ∀ s ∈ w.reader.streams, Wanted pfx options s
  zero : options.fromZero = true → ∀ s start, w.starts s = some start → start = zeroCursor

theorem Covers.round {w : World} (h : Covers pfx options w) (count : Nat) (traffic : Traffic) :
    Covers pfx options (w.round count traffic) := by
  refine ⟨fun texts => (h.sound texts).step (.pollPhysical count traffic), fun reply hr => ?_, h.wanted, h.zero⟩
  rcases List.mem_append.1 hr with hr | hr
  · exact h.physical reply hr
  · rw [List.mem_singleton.1 hr]
    rfl

theorem Covers.extend {w : World} (h : Covers pfx options w) (discovered : List Str) (traffic : Traffic) :
    Covers pfx options (w.extend (matched pfx options.wanted discovered) traffic) := by
  refine ⟨fun texts => (h.sound texts).step (.addStreams _ true traffic), h.physical, fun s hs => ?_,
    fun hz s start hs => ?_⟩
  · rcases MergedReader.addStreams_streams _ _ _ _ _ hs with hs | hs
    · exact h.wanted s hs
    · exact (mem_matched.1 hs).2
  · cases hold : w.starts s with
    | some old =>
      have hsame : (w.starts s).or _ = some start := hs
      rw [hold] at hsame
      cases hsame
      exact h.zero hz s start hold
    | none =>
      have hnew : (w.starts s).or
          ((w.reader.addStreams w.logs traffic (matched pfx options.wanted discovered) true).reader.cursors.lookup
          s) = some start := hs
      rw [hold, Option.none_or] at hnew
      rcases MergedReader.addStreams_lookup _ _ _ _ hnew with hcur | hcur
      · have hknown := (h.sound ⟨fun _ => [], fun _ => []⟩).sound.known s (by rw [hcur]; rfl)
        rw [hold] at hknown
        cases hknown
      · exact hcur

/-- What was counted against what was read. -/
structure Delivers (crates : Crates) (c : Consumer) : Prop where
  within : c.delivered <+: c.decoded crates
  complete : c.outcome = none ∨ c.outcome = some .idle →
    c.delivered = c.decoded crates ∧ ∀ entry ∈ c.read, Decodes crates entry

theorem decoded_of_read {batch : List PhysicalEntry} (h : c'.read = c.read ++ batch) :
    c'.decoded crates = c.decoded crates ++ batch.flatMap fun entry => returned (decodeEntry crates entry) := by
  rw [decoded, h, List.flatMap_append]
  rfl

/-- A round that decodes, of which some events were counted, or all of them. -/
theorem Delivers.of_round (h : Delivers crates c) (hrun : c.outcome = none) {batch : List PhysicalEntry}
    (front rest : List LogicalEvent) (hread : c'.read = c.read ++ batch)
    (hdec : decodeBatch crates batch = .ok (front ++ rest)) (hd : c'.delivered = c.delivered ++ front)
    (hrest : rest = [] ∨ (c'.outcome ≠ none ∧ c'.outcome ≠ some .idle)) : Delivers crates c' := by
  obtain ⟨hall, hevents⟩ := decodeBatch_eq_ok hdec
  obtain ⟨hcomplete, hdecodes⟩ := h.complete (Or.inl hrun)
  have hsplit : c'.decoded crates = c'.delivered ++ rest := by
    rw [decoded_of_read hread, hevents, hd, hcomplete, List.append_assoc]
  refine ⟨⟨rest, hsplit.symm⟩, fun hgoes => ?_⟩
  rcases hrest with rfl | ⟨hn, hi⟩
  · refine ⟨by rw [hsplit, List.append_nil], fun entry hmem => ?_⟩
    rw [hread] at hmem
    rcases List.mem_append.1 hmem with hmem | hmem
    · exact hdecodes entry hmem
    · exact hall entry hmem
  · rcases hgoes with hg | hg
    · exact absurd hg hn
    · exact absurd hg hi

theorem read_of_round (options : ConsumeOptions) (p : Pass)
    (h : c'.world.replies = (c.world.round (max options.readCount 1) p.traffic).replies) :
    c'.read = c.read ++ c.batch options p := by
  rw [read, h]
  change (c.world.replies ++ [Reply.physical _]).flatMap Reply.entries = _
  rw [List.flatMap_append, List.flatMap_singleton]
  rfl

theorem pass_delivers (hrun : c.outcome = none) (h : Delivers crates c) {p : Pass}
    (hp : Passes crates pfx options c p c') : Delivers crates c' := by
  cases hp with
  | undecodable hdec =>
    refine ⟨?_, fun hgoes => by rcases hgoes with hg | hg <;> cases hg⟩
    rw [decoded_of_read (read_of_round options p rfl), ← (h.complete (Or.inl hrun)).1]
    exact List.prefix_append _ _
  | limit idleSince hdec hreach hless hret =>
    rename_i front rest e
    refine h.of_round hrun (front ++ [e]) rest (read_of_round options p (by rw [hret.world]; rfl)) ?_ hret.delivered
      (Or.inr ⟨hret.outcome_ne_none, ?_⟩)
    · rw [hdec, List.append_assoc]
      rfl
    · rcases hret.ends with ⟨ho, -⟩ | ⟨ho, -⟩ <;> rw [ho] <;> simp
  | unwritable idleSince hdec hless =>
    rename_i events
    exact h.of_round hrun events [] (read_of_round options p rfl) (by rw [hdec, List.append_nil]) rfl (Or.inl rfl)
  | idle hdec hret =>
    exact h.of_round hrun [] [] (read_of_round options p (by rw [hret.world]; rfl)) hdec
      (by rw [hret.delivered, List.append_nil]; rfl) (Or.inl rfl)
  | goesOn idleSince lastDiscovery world hdec hless hworld =>
    rename_i events ms
    refine h.of_round hrun events [] (read_of_round options p ?_) (by rw [hdec, List.append_nil]) rfl (Or.inl rfl)
    rcases hworld with rfl | rfl <;> rfl

theorem pass_covers (h : Covers pfx options c.world) {p : Pass} (hp : Passes crates pfx options c p c') :
    Covers pfx options c'.world := by
  have hround := h.round (max options.readCount 1) p.traffic
  cases hp with
  | undecodable hdec => exact hround
  | limit idleSince hdec hreach hless hret =>
    rw [hret.world]
    exact hround
  | unwritable idleSince hdec hless => exact hround
  | idle hdec hret =>
    rw [hret.world]
    exact hround
  | goesOn idleSince lastDiscovery world hdec hless hworld =>
    rcases hworld with rfl | rfl
    · exact hround
    · exact hround.extend p.discovered p.adding

/-! ## Every run -/

/-- What holds of the consumer in every run. -/
structure Exact (crates : Crates) (pfx : Str) (options : ConsumeOptions) (c : Consumer) : Prop where
  covers : Covers pfx options c.world
  delivers : Delivers crates c
  tallied : Tallied options c
  logged : Logged c

/-- The world before the first pass. -/
def fresh (pfx : Str) (options : ConsumeOptions) (logs : Logs) (traffic : Traffic) (discovered : List Str) : World :=
  let new := MergedReader.new logs traffic (matched pfx options.wanted discovered) options.fromZero
  ⟨new.1, new.2, new.2.cursors.lookup, []⟩

theorem covers_fresh {logs : Logs} (hlogs : ∀ s, Tail.Increasing Item.key (logs s)) (traffic : Traffic)
    (discovered : List Str) : Covers pfx options (fresh pfx options logs traffic discovered) := by
  refine ⟨fun texts => World.sound_of_fresh ⟨logs, traffic, _, _, hlogs, rfl, rfl, rfl⟩, List.forall_mem_nil _,
    fun s hs => ?_, fun hz s start hs => ?_⟩
  · exact (mem_matched.1 hs).2
  · have hlook : (MergedReader.new logs traffic
        (matched pfx options.wanted discovered) options.fromZero).2.cursors.lookup s = some start := hs
    rw [hz] at hlook
    exact MergedReader.new_lookup _ _ _ hlook

/-- How the command comes to its loop, or returns before it. -/
theorem start_cases (pfx : Str) (options : ConsumeOptions) (logs : Logs) (traffic : Traffic) (discovered : List Str)
    (now : Nat) (time : Option Nat) : ∃ cps outcome, start pfx options logs traffic discovered now time =
        ⟨fresh pfx options logs traffic discovered, 0, now, now, [], cps, outcome, []⟩ ∧
      ((cps = [] ∧ outcome = some .unwritable) ∨
        ∃ cp, cps = [cp] ∧ cp.logicalEvents = 0 ∧ cp.done = finished outcome ∧
          (outcome = none ∨ outcome = some .noStreams)) := by
  unfold start
  dsimp only
  cases time with
  | none =>
    refine ⟨[], some .unwritable, ?_, Or.inl ⟨rfl, rfl⟩⟩
    split <;> rfl
  | some ms =>
    split
    · exact ⟨_, some .noStreams, rfl, Or.inr ⟨_, rfl, rfl, rfl, Or.inr rfl⟩⟩
    · exact ⟨_, none, rfl, Or.inr ⟨_, rfl, rfl, rfl, Or.inl rfl⟩⟩

theorem Started.exact (h : Started pfx options c) : Exact crates pfx options c := by
  obtain ⟨logs, traffic, discovered, now, time, hlogs, rfl⟩ := h
  obtain ⟨cps, outcome, hstart, hends⟩ := start_cases pfx options logs traffic discovered now time
  rw [hstart]
  have houtcome : outcome ≠ some .limit := by
    rcases hends with ⟨-, rfl⟩ | ⟨cp, -, -, -, rfl | rfl⟩ <;> simp
  refine ⟨covers_fresh hlogs traffic discovered, ⟨List.nil_prefix, fun _ => ⟨rfl, List.forall_mem_nil _⟩⟩, ?_, ?_⟩
  · refine ⟨rfl, (ite_self _).symm, ?_, fun _ => Or.inl rfl, fun hl => absurd hl houtcome⟩
    exact (Int.zero_le_ofNat 1).trans (le_max_left _ _)
  · rcases hends with ⟨rfl, rfl⟩ | ⟨cp, rfl, hcount, hdone, -⟩
    · exact ⟨List.forall_mem_nil _, .nil, List.forall_mem_nil _, fun hne => absurd rfl hne⟩
    · exact .first rfl hcount hdone

theorem Reach.exact (h : Reach crates pfx options c) : Exact crates pfx options c := by
  refine Machine.Reach.invariant (I := Exact crates pfx options) (fun _ => Started.exact) ?_ h
  rintro c p c' - - ⟨hrun, rfl⟩ ih
  have hp : Passes crates pfx options c p _ := pass_passes c p hrun
  exact ⟨pass_covers ih.covers hp, pass_delivers hrun ih.delivers hp, pass_tallied hrun ih.tallied hp,
    pass_logged hrun ih.logged hp⟩

/-- The entries read are those the reader returned. -/
theorem Covers.positions (h : Covers pfx options c.world) : c.world.seen = c.read.map PhysicalEntry.position := by
  rw [World.seen, read, List.map_flatMap]
  exact List.flatMap_congr h.physical

end Consumer

/-- **What a consumer has counted.** In every run the count is the number of the events delivered, and these are what is
printed, unless the consumer is quiet. They are the first of the events of the entries that were read, and all of them
while the consumer runs and when it returns because it is idle; no entry is read twice. The count ends at the limit, or
at one event if the limit is less. The checkpoints never go back, only the last one says that the run is over, and it
tells the count; a consumer reads no other streams than those it wants. -/
theorem consume_accounts {crates : Crates} {pfx : Str} {options : ConsumeOptions} {c : Consumer}
    (h : c.Reach crates pfx options) :
    c.seen = c.delivered.length ∧ c.output = (if options.quiet then [] else c.delivered) ∧
    c.delivered <+: c.decoded crates ∧ (c.read.map PhysicalEntry.position).Nodup ∧
    (c.outcome = none ∨ c.outcome = some .idle → c.delivered = c.decoded crates) ∧
    (c.seen : Int) ≤ max 1 options.limit ∧ (c.outcome = some .limit → (c.seen : Int) = max 1 options.limit) ∧
    c.checkpoints.Pairwise (fun a b => a.logicalEvents ≤ b.logicalEvents) ∧
    (∀ cp ∈ c.checkpoints.dropLast, cp.done = false) ∧
    (c.outcome ≠ some .unwritable →
      ∃ cp, c.checkpoints.getLast? = some cp ∧ cp.logicalEvents = c.seen ∧ cp.done = Consumer.finished c.outcome) ∧
    ∀ s ∈ c.world.reader.streams, Consumer.Wanted pfx options s := by
  obtain ⟨hcovers, hdelivers, htallied, hlogged⟩ := h.exact
  have hnodup := nodup_of_ascending (hcovers.sound ⟨fun _ => [], fun _ => []⟩).sound.ascending
  rw [hcovers.positions] at hnodup
  exact ⟨htallied.count, htallied.output, hdelivers.within, hnodup, fun hgoes => (hdelivers.complete hgoes).1,
    htallied.bounded, htallied.limit, hlogged.sorted, hlogged.earlier, hlogged.last, hcovers.wanted⟩

/-- Options that count to a limit, if there is one, and return after 100 ms without an event. -/
def tailing (count : Option Int) : ConsumeOptions := ⟨none, zeroCursor, count, false, some 100, 10⟩

/-- A consumer of a stream with one event. -/
def consuming (count : Option Int) : Consumer := .start [] (tailing count) (twoLogs []) .quiet [['a']] 0 (some 0)

/-- A pass that checks its clock half a second after the start. -/
def halfSecond : Pass := ⟨.quiet, 0, 500, 500, [], .quiet, fun _ => some 0⟩

theorem consuming_reach (count : Option Int) : (consuming count).Reach .reference [] (tailing count) := by
  refine .start ⟨twoLogs [], .quiet, [['a']], 0, some 0, fun s => ?_, rfl⟩
  unfold twoLogs
  split
  · exact List.pairwise_singleton _ _
  · split
    · exact List.Pairwise.nil
    · exact List.Pairwise.nil

/-- A limit of no events is reached by the first event. -/
theorem consume_accounts_zero : ∃ c : Consumer, c.Reach .reference [] (tailing (some 0)) ∧ c.outcome = some .limit ∧
    c.output = [plainEvent] ∧ (c.seen : Int) = max 1 0 := by
  have hreach : ((consuming (some 0)).pass .reference [] (tailing (some 0)) halfSecond).Reach .reference []
      (tailing (some 0)) := (consuming_reach _).next trivial ⟨rfl, rfl⟩
  exact ⟨_, hreach, rfl, rfl, (consume_accounts hreach).2.2.2.2.2.2.1 rfl⟩

/-! ## The idle exit -/

section Empty

variable {traffic : Traffic} {count : Nat}

/-- A read that adds nothing to the batch: the batch was empty before it, the cursors stay, and the reply was empty. -/
theorem pollStream_empty {r : Round} {p : Str × Nat} (h : (MergedReader.pollStream traffic count r p).batch = []) :
    r.batch = [] ∧ (MergedReader.pollStream traffic count r p).logs = traffic.before p.2 r.logs ∧
      (MergedReader.pollStream traffic count r p).cursors = r.cursors ∧
      (traffic.fails p.2 = false →
        ∀ items, xread (traffic.before p.2 r.logs p.1) ((r.cursors.lookup p.1).getD zeroCursor) count =
        some items → items = []) := by
  unfold MergedReader.pollStream at h ⊢
  dsimp only at h ⊢
  split at h
  · rename_i hf
    rw [if_pos hf]
    exact ⟨h, rfl, rfl, fun hok => by rw [hf] at hok; cases hok⟩
  · rename_i hf
    rw [if_neg hf]
    split at h
    · rename_i hx
      rw [hx]
      exact ⟨h, rfl, rfl, fun _ items hi => by cases hi⟩
    · rename_i items hx
      rw [hx]
      obtain ⟨hl, hb, hc⟩ := foldl_pushEntry p.1 items { r with logs := traffic.before p.2 r.logs }
      rw [hb, List.append_eq_nil_iff, List.map_eq_nil_iff] at h
      obtain ⟨hbatch, rfl⟩ := h
      refine ⟨hbatch, rfl, rfl, fun _ items hi => (Option.some.inj hi).symm⟩

/-- A round that reads nothing: each of its requests that did not fail came back empty. -/
theorem foldl_pollStream_empty {ps : List (Str × Nat)} {r : Round}
    (h : (ps.foldl (MergedReader.pollStream traffic count) r).batch = []) :
    r.batch = [] ∧ ∀ p ∈ ps, traffic.fails p.2 = false → ∃ logs : Logs, (∀ s, r.logs s ⊆ logs s) ∧
      ∀ items, xread (logs p.1) ((r.cursors.lookup p.1).getD zeroCursor) count = some items → items = [] := by
  induction ps generalizing r with
  | nil => exact ⟨h, List.forall_mem_nil _⟩
  | cons q ps ih =>
    obtain ⟨hnext, hrest⟩ := ih h
    obtain ⟨hbatch, hlogs, hcursors, hempty⟩ := pollStream_empty hnext
    refine ⟨hbatch, fun p hp hok => ?_⟩
    rcases List.mem_cons.1 hp with rfl | hp
    · exact ⟨_, traffic.subset_before p.2 r.logs, hempty hok⟩
    · obtain ⟨logs, hsub, hnone⟩ := hrest p hp hok
      rw [hcursors] at hnone
      refine ⟨logs, fun s => List.Subset.trans ?_ (hsub s), hnone⟩
      rw [hlogs]
      exact traffic.subset_before q.2 r.logs s

/-- After a round that reads nothing and in which no request fails, all entries that were there before it and came after
the start of a stream have been seen. -/
theorem pollPhysical_empty {starts : Str → Option Str} {seen : List PhysicalPosition} {reader : MergedReader}
    {logs : Logs} (hsound : Sound starts logs reader.cursors seen) (hok : ∀ i, traffic.fails i = false)
    (hcount : count ≠ 0) (h : (reader.pollPhysical logs traffic count).2.2 = []) {s : Str} (hs : s ∈ reader.streams)
    {start : Str} (hstart : starts s = some start) : ∃ a, cursorKey start = some a ∧
      ofStream s seen = ((logs s).filter fun item => a < item.key).map (Item.position s) := by
  have hbatch : (reader.streams.zipIdx.foldl (MergedReader.pollStream traffic count) ⟨logs, reader.cursors, []⟩).batch =
      [] := by
    have hperm := List.perm_insertionSort batchLe
      (reader.streams.zipIdx.foldl (MergedReader.pollStream traffic count) ⟨logs, reader.cursors, []⟩).batch
    rw [show List.insertionSort batchLe _ = [] from h] at hperm
    exact hperm.symm.eq_nil
  obtain ⟨cursor, hcursor, a, c, ha, hc, -, -, hseen⟩ := hsound.follows s start hstart
  obtain ⟨i, hi⟩ := List.mem_iff_getElem?.1 hs
  obtain ⟨logs', hsub, hnone⟩ := (foldl_pollStream_empty hbatch).2 (s, i) (List.mk_mem_zipIdx_iff_getElem?.2 hi) (hok i)
  have hread : xread (logs' s) ((reader.cursors.lookup s).getD zeroCursor) count =
      some (Tail.next Item.key (logs' s) c (readLimit (logs' s) count)) := by
    rw [hcursor, Option.getD_some, xread, hc]
    rfl
  have hle : ∀ item ∈ logs s, item.key ≤ c := by
    intro item hitem
    refine Tail.le_of_next_eq_nil ?_ (hnone _ hread) (hsub s hitem)
    rw [readLimit, if_neg hcount]
    exact hcount
  refine ⟨a, ha, ?_⟩
  rw [hseen, Tail.between]
  congr 1
  exact List.filter_congr fun item hitem => by simp [hle item hitem]

theorem pollPhysical_streams (reader : MergedReader) (logs : Logs) (traffic : Traffic) (count : Nat)
    {entry : PhysicalEntry} (h : entry ∈ (reader.pollPhysical logs traffic count).2.2) :
    entry.stream ∈ reader.streams := by
  suffices hfold : ∀ (ps : List (Str × Nat)) (r : Round),
      entry ∈ (ps.foldl (MergedReader.pollStream traffic count) r).batch →
      entry ∈ r.batch ∨ ∃ p ∈ ps, p.1 = entry.stream by
    rcases hfold _ _ ((List.mem_insertionSort batchLe).1 h) with hmem | ⟨p, hp, hstream⟩
    · cases hmem
    · rw [← hstream]
      exact List.fst_mem_of_mem_zipIdx hp
  intro ps
  induction ps with
  | nil => exact fun r hr => Or.inl hr
  | cons p ps ih =>
    intro r hr
    rcases ih _ hr with hmem | ⟨q, hq, hstream⟩
    · unfold MergedReader.pollStream at hmem
      dsimp only at hmem
      split at hmem
      · exact Or.inl hmem
      split at hmem
      · exact Or.inl hmem
      · rw [(foldl_pushEntry p.1 _ _).2.1] at hmem
        rcases List.mem_append.1 hmem with hmem | hmem
        · exact Or.inl hmem
        · obtain ⟨item, -, rfl⟩ := List.mem_map.1 hmem
          exact Or.inr ⟨p, List.mem_cons_self, rfl⟩
    · exact Or.inr ⟨q, List.mem_cons_of_mem _ hq, hstream⟩

end Empty

/-- Entries of a stream are known by their positions. -/
theorem eq_map_physical {log : List Item} (hinc : Tail.Increasing Item.key log) {s : Str} {entries : List PhysicalEntry}
    (hgenuine : ∀ e ∈ entries, ∃ item ∈ log, e = item.physical s) {items : List Item}
    (hitems : ∀ item ∈ items, item ∈ log) (h : entries.map PhysicalEntry.position = items.map (Item.position s)) :
    entries = items.map (Item.physical s) := by
  induction entries generalizing items with
  | nil =>
    rw [List.map_nil, eq_comm, List.map_eq_nil_iff] at h
    rw [h]
    rfl
  | cons e entries ih =>
    cases items with
    | nil => cases h
    | cons item items =>
      rw [List.map_cons, List.map_cons, List.cons.injEq] at h
      obtain ⟨item', hitem', rfl⟩ := hgenuine e List.mem_cons_self
      have hkey : item'.key = item.key := by
        have htext : item'.id.text = item.id.text := congrArg PhysicalPosition.entryId h.1
        rw [Item.key, Item.key, ← entryIdSortKey_text, htext, entryIdSortKey_text]
      rw [hinc.eq_of_key hitem' (hitems item List.mem_cons_self) hkey, List.map_cons,
        ih (fun x hx => hgenuine x (List.mem_cons_of_mem _ hx)) (fun x hx => hitems x (List.mem_cons_of_mem _ hx)) h.2]

theorem returned_stream {crates : Crates} {entry : PhysicalEntry} {ev : LogicalEvent}
    (hev : ev ∈ returned (decodeEntry crates entry)) : ev.source.physical.stream = entry.stream := by
  have hloc := decodeEntry_located entry crates
  cases hd : decodeEntry crates entry with
  | error e =>
    rw [hd] at hev
    cases hev
  | ok events =>
    rw [hd] at hev hloc
    exact congrArg PhysicalPosition.stream (hloc ev hev)

/-- The events of one stream are those of its entries. -/
theorem filter_stream_flatMap (crates : Crates) (s : Str) (entries : List PhysicalEntry) :
    (entries.flatMap fun entry => returned (decodeEntry crates entry)).filter
      (fun ev => ev.source.physical.stream = s) =
      (entries.filter fun entry => entry.stream = s).flatMap fun entry => returned (decodeEntry crates entry) := by
  induction entries with
  | nil => rfl
  | cons entry entries ih =>
    rw [List.flatMap_cons, List.filter_append, ih]
    by_cases hs : entry.stream = s
    · rw [List.filter_cons_of_pos (by simpa using hs), List.flatMap_cons,
        List.filter_eq_self.2 fun ev hev => by simpa using (returned_stream hev).trans hs]
    · rw [List.filter_cons_of_neg (by simpa using hs),
        List.filter_eq_nil_iff.2 fun ev hev => by simpa using fun h => hs ((returned_stream hev).symm.trans h),
        List.nil_append]

namespace Consumer

variable {crates : Crates} {pfx : Str} {options : ConsumeOptions} {c : Consumer} {p : Pass}

/-- The last pass of a consumer that returns because it is idle: where every entry that decodes has an event, its round
was empty. -/
theorem idle_round (hcovers : Covers pfx options c.world) (hrun : c.outcome = none)
    (hidle : (c.pass crates pfx options p).outcome = some .idle)
    (hevents : ∀ s ∈ c.world.reader.streams, ∀ item ∈ (c.pass crates pfx options p).world.logs s,
      decodeEntry crates (item.physical s) ≠ .ok []) :
    c.batch options p = [] ∧ (c.pass crates pfx options p).delivered = c.delivered := by
  have hp : Passes crates pfx options c p _ := pass_passes c p hrun
  generalize pass crates pfx options c p = c' at *
  cases hp with
  | undecodable hdec => cases hidle
  | limit idleSince hdec hreach hless hret =>
    rcases hret.ends with ⟨ho, -⟩ | ⟨ho, -⟩ <;> rw [ho] at hidle <;> cases hidle
  | unwritable idleSince hdec hless => cases hidle
  | goesOn idleSince lastDiscovery world hdec hless hworld =>
    have hnone : c.outcome = some .idle := hidle
    rw [hrun] at hnone
    cases hnone
  | idle hdec hret =>
    have hlogs : c'.world.logs = (c.world.round (max options.readCount 1) p.traffic).logs := by
      rw [hret.world]
      rfl
    refine ⟨List.eq_nil_iff_forall_not_mem.2 fun entry hmem => ?_, hret.delivered⟩
    obtain ⟨hall, hnone⟩ := decodeBatch_eq_ok hdec
    have hsound := hcovers.sound ⟨fun _ => [], fun _ => []⟩
    have hgenuine := (pollPhysical_sound hsound.sound hsound.covered p.traffic (max options.readCount 1)).2.1
    obtain ⟨item, hitem, heq⟩ := hgenuine entry hmem
    obtain ⟨events, hev⟩ := hall entry hmem
    have hempty := List.flatMap_eq_nil_iff.1 hnone entry hmem
    rw [hev] at hempty
    refine hevents entry.stream (pollPhysical_streams _ _ _ _ hmem) item (by rw [hlogs]; exact hitem) ?_
    rw [← heq, hev]
    exact congrArg Except.ok hempty

/-- At a round that reads nothing, what was delivered of a stream are the events of its entries, in their order. -/
theorem Exact.delivered_of_stream (h : Exact crates pfx options c) (hrun : c.outcome = none)
    (hbatch : c.batch options p = []) (hok : ∀ i, p.traffic.fails i = false) {s : Str}
    (hs : s ∈ c.world.reader.streams) :
    ∃ start a, c.world.starts s = some start ∧ cursorKey start = some a ∧
      (options.fromZero = true → start = zeroCursor) ∧
      (∀ item ∈ c.world.logs s, a < item.key → Decodes crates (item.physical s)) ∧
      c.delivered.filter (fun ev => ev.source.physical.stream = s) =
        ((c.world.logs s).filter fun item => a < item.key).flatMap fun item =>
          returned (decodeEntry crates (item.physical s)) := by
  obtain ⟨hcomplete, hdecodes⟩ := h.delivers.complete (Or.inl hrun)
  have hsound := h.covers.sound ⟨fun _ => [], fun _ => []⟩
  obtain ⟨start, hstart⟩ := Option.isSome_iff_exists.1 (hsound.covered s hs)
  obtain ⟨a, ha, hseen⟩ := pollPhysical_empty hsound.sound hok (by omega) hbatch hs hstart
  have hread : c.read.filter (fun entry => entry.stream = s) =
      ((c.world.logs s).filter fun item => a < item.key).map (Item.physical s) := by
    refine eq_map_physical (hsound.sound.increasing s) (fun e he => ?_)
      (fun item hitem => List.mem_of_mem_filter hitem) ?_
    · obtain ⟨hmem, hstream⟩ := List.mem_filter.1 he
      obtain ⟨reply, hreply, hentry⟩ := List.mem_flatMap.1 hmem
      cases reply with
      | plain batch => cases hentry
      | physical batch =>
        obtain ⟨item, hitem, heq⟩ := (hsound.replies _ hreply).2 e hentry
        rw [of_decide_eq_true hstream] at hitem heq
        exact ⟨item, hitem, heq⟩
    · rw [← ofStream_positions, ← h.covers.positions]
      exact hseen
  refine ⟨start, a, hstart, ha, fun hz => h.covers.zero hz s start hstart, fun item hitem hlt => ?_, ?_⟩
  · have hmem : item.physical s ∈ c.read.filter fun entry => entry.stream = s := by
      rw [hread]
      exact List.mem_map_of_mem (List.mem_filter.2 ⟨hitem, decide_eq_true hlt⟩)
    exact hdecodes _ (List.mem_of_mem_filter hmem)
  · rw [hcomplete, decoded, filter_stream_flatMap, hread, List.flatMap_map]

end Consumer

/-- **The idle exit is complete.** When a consumer returns because nothing has come for long enough, no request of its
last round failed and every entry of its streams that decodes has an event, then what it has delivered of a stream are
the events of the entries that came after the start of the stream and before the last round, all of them, once and in
their order; the start is the beginning of the stream if it reads from there. -/
theorem idle_exit_complete {crates : Crates} {pfx : Str} {options : ConsumeOptions} {c : Consumer}
    (h : c.Reach crates pfx options) (hrun : c.outcome = none) (p : Pass)
    (hidle : (c.pass crates pfx options p).outcome = some .idle) (hok : ∀ i, p.traffic.fails i = false)
    (hevents : ∀ s ∈ c.world.reader.streams, ∀ item ∈ (c.pass crates pfx options p).world.logs s,
      decodeEntry crates (item.physical s) ≠ .ok []) {s : Str} (hs : s ∈ c.world.reader.streams) :
    ∃ start a, c.world.starts s = some start ∧ cursorKey start = some a ∧
      (options.fromZero = true → start = zeroCursor) ∧
      (∀ item ∈ c.world.logs s, a < item.key → Decodes crates (item.physical s)) ∧
      (c.pass crates pfx options p).delivered.filter (fun ev => ev.source.physical.stream = s) =
        ((c.world.logs s).filter fun item => a < item.key).flatMap fun item =>
          returned (decodeEntry crates (item.physical s)) := by
  obtain ⟨hbatch, hdelivered⟩ := Consumer.idle_round h.exact.covers hrun hidle hevents
  rw [hdelivered]
  exact h.exact.delivered_of_stream hrun hbatch hok hs

/-- One event, and nothing for half a second. -/
theorem idle_exit_complete_one : ∃ c : Consumer, (c.pass .reference [] (tailing none) halfSecond).outcome = some .idle ∧
    (c.pass .reference [] (tailing none) halfSecond).delivered.filter (fun ev => ev.source.physical.stream = ['a']) =
      [plainEvent] := by
  have hreach : ((consuming none).pass .reference [] (tailing none) halfSecond).Reach .reference [] (tailing none) :=
    (consuming_reach _).next trivial ⟨rfl, rfl⟩
  have hevents : ∀ s ∈ [['a']], ∀ item ∈ twoLogs [] s, decodeEntry .reference (item.physical s) ≠ .ok [] := by
    intro s hs item hitem
    rw [List.mem_singleton.1 hs] at hitem ⊢
    rw [List.mem_singleton.1 hitem, decodeEntry_plain]
    simp
  obtain ⟨start, a, hstart, ha, hzero, -, hall⟩ := idle_exit_complete hreach rfl halfSecond rfl (fun _ => rfl) hevents
    (s := ['a']) List.mem_cons_self
  rw [hzero rfl, cursorKey_zeroCursor] at ha
  have hlog : (twoLogs [] ['a']).filter (fun item => a < item.key) = [plainItem 1 one_valid] := by
    rw [← Option.some.inj ha]
    exact List.filter_eq_self.2 fun item _ => decide_eq_true item.id.zero_lt_key
  refine ⟨_, rfl, hall.trans ?_⟩
  refine (congrArg _ hlog).trans ?_
  rfl

/-! ## The streams of a run -/

/-- A reader keeps its streams. -/
theorem MergedReader.subset_addStreams (reader : MergedReader) (logs : Logs) (traffic : Traffic) (candidates : List Str)
    (fromZero : Bool) : reader.streams ⊆ (reader.addStreams logs traffic candidates fromZero).reader.streams := by
  suffices hfold : ∀ (ps : List (Str × Nat)) (acc : Adding),
      acc.reader.streams ⊆ (ps.foldl (addStream traffic fromZero) acc).reader.streams from hfold _ ⟨logs, reader, []⟩
  intro ps
  induction ps with
  | nil => exact fun acc => List.Subset.refl _
  | cons p ps ih =>
    intro acc
    refine List.Subset.trans ?_ (ih _)
    unfold addStream
    split
    · exact List.Subset.refl _
    · exact List.subset_append_left _ _

namespace Consumer

variable {crates : Crates} {pfx : Str} {options : ConsumeOptions} {c c' : Consumer} {p : Pass}

/-- A pass reads its batch from streams that it keeps, and adds streams that it found. -/
theorem Passes.reads (hp : Passes crates pfx options c p c') :
    c'.read = c.read ++ c.batch options p ∧ c.world.reader.streams ⊆ c'.world.reader.streams ∧
      ∀ s ∈ c'.world.reader.streams, s ∈ c.world.reader.streams ∨ s ∈ p.discovered := by
  have hround : ∀ {c' : Consumer}, c'.world = c.world.round (max options.readCount 1) p.traffic →
      c'.read = c.read ++ c.batch options p ∧ c.world.reader.streams ⊆ c'.world.reader.streams ∧
        ∀ s ∈ c'.world.reader.streams, s ∈ c.world.reader.streams ∨ s ∈ p.discovered := by
    intro c' hworld
    refine ⟨read_of_round options p (by rw [hworld]), ?_, ?_⟩ <;> rw [hworld]
    · exact List.Subset.refl _
    · exact fun s => Or.inl
  cases hp with
  | undecodable hdec => exact hround rfl
  | limit idleSince hdec hreach hless hret => exact hround hret.world
  | unwritable idleSince hdec hless => exact hround rfl
  | idle hdec hret => exact hround hret.world
  | goesOn idleSince lastDiscovery world hdec hless hworld =>
    rcases hworld with rfl | rfl
    · exact hround rfl
    · refine ⟨read_of_round options p rfl,
        MergedReader.subset_addStreams (c.world.round (max options.readCount 1) p.traffic).reader _ _ _ _,
        fun s hs => ?_⟩
      rcases MergedReader.addStreams_streams _ _ _ _ _ hs with hs | hs
      · exact Or.inl hs
      · exact Or.inr (mem_matched.1 hs).1

/-- The last pass of a consumer that returns because it is idle adds no streams. -/
theorem idle_streams (hrun : c.outcome = none) (hidle : (c.pass crates pfx options p).outcome = some .idle) :
    (c.pass crates pfx options p).world.reader.streams = c.world.reader.streams := by
  have hp : Passes crates pfx options c p _ := pass_passes c p hrun
  generalize pass crates pfx options c p = c' at *
  cases hp with
  | undecodable hdec => cases hidle
  | limit idleSince hdec hreach hless hret => rw [hret.world]; rfl
  | unwritable idleSince hdec hless => cases hidle
  | idle hdec hret => rw [hret.world]; rfl
  | goesOn idleSince lastDiscovery world hdec hless hworld =>
    have hnone : c.outcome = some .idle := hidle
    rw [hrun] at hnone
    cases hnone

/-- What was delivered comes from the streams of the reader. -/
theorem Reach.delivered_streams (h : Reach crates pfx options c) :
    ∀ ev ∈ c.delivered, ev.source.physical.stream ∈ c.world.reader.streams := by
  have hread : ∀ entry ∈ c.read, entry.stream ∈ c.world.reader.streams := by
    refine Machine.Reach.invariant (I := fun c => ∀ entry ∈ c.read, entry.stream ∈ c.world.reader.streams)
      (fun c hc => ?_) ?_ h
    · obtain ⟨logs, traffic, discovered, now, time, -, rfl⟩ := hc
      obtain ⟨cps, outcome, hstart, -⟩ := start_cases pfx options logs traffic discovered now time
      rw [hstart]
      exact List.forall_mem_nil _
    · rintro c p c' - - ⟨hrun, rfl⟩ ih entry hmem
      have hp : Passes crates pfx options c p _ := pass_passes c p hrun
      obtain ⟨hreads, hsub, -⟩ := hp.reads
      rw [hreads] at hmem
      rcases List.mem_append.1 hmem with hmem | hmem
      · exact hsub (ih entry hmem)
      · exact hsub (pollPhysical_streams _ _ _ _ hmem)
  intro ev hev
  obtain ⟨entry, hentry, hmem⟩ := List.mem_flatMap.1 (h.exact.delivers.within.subset hev)
  rw [returned_stream hmem]
  exact hread entry hentry

/-- The consumers that some passes lead to from one. -/
def From (crates : Crates) (pfx : Str) (options : ConsumeOptions) (allowed : Pass → Prop) (c₀ : Consumer) :
    Consumer → Prop :=
  Machine.Reach (fun c p c' => c.outcome = none ∧ pass crates pfx options c p = c') (fun _ p => allowed p) (· = c₀)

section From

variable {allowed : Pass → Prop} {c₀ : Consumer}

theorem From.reach (h : From crates pfx options allowed c₀ c) (h₀ : Started pfx options c₀) :
    Reach crates pfx options c := by
  obtain ⟨c₁, rfl, hpath⟩ := h
  exact ⟨c₁, h₀, Relation.ReflTransGen.mono (fun _ _ ⟨p, _, hs⟩ => ⟨p, trivial, hs⟩) _ _ hpath⟩

/-- The streams of a consumer stay with it. -/
theorem From.streams (h : From crates pfx options allowed c₀ c) : c₀.world.reader.streams ⊆ c.world.reader.streams := by
  refine Machine.Reach.invariant (I := fun c => c₀.world.reader.streams ⊆ c.world.reader.streams) ?_ ?_ h
  · rintro c rfl
    exact List.Subset.refl _
  · rintro c p c' - - ⟨hrun, rfl⟩ ih
    have hp : Passes crates pfx options c p _ := pass_passes c p hrun
    exact List.Subset.trans ih hp.reads.2.1

/-- A consumer reads streams that it found. -/
theorem From.found {P : Str → Prop} (h : From crates pfx options allowed c₀ c) (h₀ : ∀ s ∈ c₀.world.reader.streams, P s)
    (hallowed : ∀ p, allowed p → ∀ s ∈ p.discovered, P s) : ∀ s ∈ c.world.reader.streams, P s := by
  refine Machine.Reach.invariant (I := fun c => ∀ s ∈ c.world.reader.streams, P s) ?_ ?_ h
  · rintro c rfl
    exact h₀
  · rintro c p c' - hp ⟨hrun, rfl⟩ ih s hs
    have hpass : Passes crates pfx options c p _ := pass_passes c p hrun
    rcases hpass.reads.2.2 s hs with hs | hs
    · exact ih s hs
    · exact hallowed p hp s hs

end From

end Consumer

end EventStream.Client

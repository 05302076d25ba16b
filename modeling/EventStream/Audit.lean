import EventStream.Client.Discovery
import EventStream.Delivery

/-!
# The counting audit

A consumer that reads all streams and returns when it is idle writes down how many events it has seen. Here this number
is compared with what the module counts: the streams are found by scans, read to their end, and hold what the module
wrote.

* `perm_of_classes`: lists that agree class by class are permutations of each other.
* `Node.Posted.name`: what the client makes of the name of a stream that was written to.
* `counting_audit`: the last checkpoint of the consumer against the counter of the module.
-/

namespace EventStream

open Text (Str Bytes utf8)
open Client (Crates Item Consumer ConsumeOptions Pass Sweep Logs Traffic foundStreams scanPattern)

/-! ## Lists by classes -/

section Classes

variable {α β κ ρ : Type*} [DecidableEq κ]

theorem count_pair [DecidableEq ρ] (l : List α) (f : α → κ) (r : α → ρ) (k : κ) (v : ρ) :
    (l.map fun x => (f x, r x)).count (k, v) = ((l.filter fun x => f x = k).map r).count v := by
  rw [List.count, List.countP_map, List.count, List.countP_map, List.countP_filter]
  refine List.countP_congr fun x _ => ?_
  simp [and_comm]

/-- Two lists whose elements of each class have the same values have the same values. -/
theorem perm_of_classes {f : α → κ} {g : β → κ} {r : α → ρ} {r' : β → ρ} {l : List α} {l' : List β}
    (h : ∀ k, (l.filter fun x => f x = k).map r = (l'.filter fun y => g y = k).map r') :
    (l.map r).Perm (l'.map r') := by
  classical
  have hpairs : (l.map fun x => (f x, r x)).Perm (l'.map fun y => (g y, r' y)) := by
    rw [List.perm_iff_count]
    rintro ⟨k, v⟩
    rw [count_pair, count_pair, h k]
  simpa only [List.map_map, Function.comp_def] using hpairs.map Prod.snd

end Classes

/-! ## Names -/

/-- The streams that were written to have no tag with one of these characters. -/
def PlainTags (pfx : Str) (trace : List Occurrence) : Prop :=
  ∀ tag suffix, utf8 (pfx ++ braced tag ++ suffix) ∈ (posted trace).map Prod.fst → '#' ∉ tag ∧ '}' ∉ tag

/-- What a client makes of the name of a stream that was written to. -/
theorem Node.Posted.name {n : Node} {posts : List Post} (hposts : Posted n posts)
    (hreadable : ∀ p ∈ posts, p.Sound ∧ Faithful p.call) (hp : validatePrefix n.st.config.pfx = .ok ())
    (htags : PlainTags n.st.config.pfx n.st.trace) {w : Str × PendingEvent} (hw : w ∈ writtenEvents posts) :
    n.st.config.pfx <+: w.1 ∧ '#' ∉ w.1 ∧ Client.eventName n.st.config.pfx w.1 = some w.2.suffix := by
  obtain ⟨p, hmem, hstream, he⟩ := of_written hw
  obtain ⟨seg, hseg, hname⟩ := written_named hreadable hw
  obtain ⟨hpfx, -, hsuffix, -⟩ := hposts.stems p hmem w.2 he
  have hkey : utf8 w.1 ∈ (posted n.st.trace).map Prod.fst := by
    rw [hposts.trace, hstream, List.map_map]
    exact List.mem_map_of_mem (f := Prod.fst ∘ Post.entry) hmem
  have hpfxhash : '#' ∉ n.st.config.pfx := fun h => absurd (validatePrefix_chars hp h) (by decide)
  have hsuffixhash : '#' ∉ w.2.suffix := by
    rw [hsuffix]
    exact fun h => absurd ((Client.sanitize_shape w.2.event).2 '#' h) (by decide)
  rw [hpfx, streamOf] at hname
  rw [hname] at hkey ⊢
  refine ⟨by rw [List.append_assoc]; exact List.prefix_append _ _, ?_⟩
  rcases hseg with rfl | ⟨tag, rfl⟩
  · rw [List.append_nil]
    exact ⟨by simp [hpfxhash, hsuffixhash], Client.eventName_plain _ (Client.suffix_no_brace (Or.inl hsuffix))⟩
  · obtain ⟨hhash, hclose⟩ := htags tag w.2.suffix hkey
    exact ⟨by simp [hpfxhash, hsuffixhash, braced, hhash], Client.eventName_tagged _ hclose⟩

/-! ## The audit -/

/-- A pass whose discovery scans the masters. -/
def Scans (pfx : Str) (p : Pass) : Prop :=
  ∃ masters fuel, (∀ sw, some sw ∈ masters → sw.steps.length ≤ fuel) ∧ p.discovered = foundStreams masters fuel pfx

/-- The events that a consumer asks for. -/
def asksFor (options : ConsumeOptions) (e : PendingEvent) : Prop := ∀ names ∈ options.wanted, e.suffix ∈ names

instance (options : ConsumeOptions) : DecidablePred (asksFor options) := fun e =>
  inferInstanceAs (Decidable (∀ names ∈ options.wanted, e.suffix ∈ names))

theorem start_streams (pfx : Str) (options : ConsumeOptions) (logs : Logs) (traffic : Traffic) (discovered : List Str)
    (now : Nat) (time : Option Nat) :
    (Consumer.start pfx options logs traffic discovered now time).world.reader.streams =
      Client.matched pfx options.wanted discovered := by
  obtain ⟨cps, outcome, hstart, -⟩ := Consumer.start_cases pfx options logs traffic discovered now time
  rw [hstart]
  rfl

/-- Events that are delivered from some streams, stream by stream as they were written, are all that was asked for if
the events asked for are those in these streams. -/
theorem delivered_perm {options : ConsumeOptions} {streams : List Str} {delivered : List Client.LogicalEvent}
    {written : List (Str × PendingEvent)} (hfrom : ∀ ev ∈ delivered, ev.source.physical.stream ∈ streams)
    (hread : ∀ w ∈ written, (asksFor options w.2 ↔ w.1 ∈ streams))
    (hstreams : ∀ s ∈ streams, (delivered.filter fun ev => ev.source.physical.stream = s).map readRecord =
      (written.filter fun w => w.1 = s).map fun w => recordOf w.2) :
    (delivered.map readRecord).Perm (((written.map Prod.snd).filter fun e => asksFor options e).map recordOf) := by
  have hmap : ((written.map Prod.snd).filter fun e => asksFor options e).map recordOf =
      (written.filter fun w => asksFor options w.2).map fun w => recordOf w.2 := by
    rw [List.filter_map, List.map_map]
    rfl
  rw [hmap]
  refine perm_of_classes (f := fun ev => ev.source.physical.stream) (g := Prod.fst) fun s => ?_
  by_cases hs : s ∈ streams
  · rw [hstreams s hs, List.filter_filter]
    congr 1
    refine List.filter_congr fun w hw => ?_
    by_cases hstream : w.1 = s
    · simp [hstream, (hread w hw).2 (hstream ▸ hs)]
    · simp [hstream]
  · have hnone : delivered.filter (fun ev => ev.source.physical.stream = s) = [] := by
      refine List.filter_eq_nil_iff.2 fun ev hev hstream => hs ?_
      rw [← of_decide_eq_true hstream]
      exact hfrom ev hev
    have hnone' : (written.filter fun w => asksFor options w.2).filter (fun w => w.1 = s) = [] := by
      refine List.filter_eq_nil_iff.2 fun w hw hstream => hs ?_
      obtain ⟨hmem, hasks⟩ := List.mem_filter.1 hw
      rw [← of_decide_eq_true hstream]
      exact (hread w hmem).1 (of_decide_eq_true hasks)
    rw [hnone, hnone']
    rfl

/-- **The counting audit is exact.** Take any run of a node, in any mode, whose events have the fixed format, with an
accepted prefix and tags that are plain; let a consumer find the streams by scans, read from the beginning and return
because it is idle, with no request of its last round failing (`n` is the node when that round begins, `n'` when it
ends). If the data streams under the prefix hold what the node wrote to them, and each one that has an entry was there
throughout the first scan of a master whose requests were all answered, then the consumer has delivered the events
written that it asked for, each once, and nothing else; its last checkpoint says that it is done and tells their number,
which is the number of forwarded events if it asked for all. The events written were dispatched, each as often at most,
and stand in the order of the dispatch if the worker obtained its context. -/
theorem counting_audit (setup : Setup) (env : Env) (n n' : Node) (hbatch : setup.batch ≤ Client.usizeMax)
    (h : n.Reach setup env fun _ _ => True) (h' : n'.Reach setup env fun _ _ => True)
    (hfixed : ∀ q ∈ n.dispatched, q.event.format = .fixed) (hfixed' : ∀ q ∈ n'.dispatched, q.event.format = .fixed)
    (pfx : Str) (hpfx : n.st.config.pfx = pfx) (hp : validatePrefix pfx = .ok ()) (htags : PlainTags pfx n.st.trace)
    (crates : Crates) (hc : crates.Standard) (options : ConsumeOptions) (hzero : options.fromZero = true)
    (masters : List (Option Sweep)) (fuel : Nat) (hfuel : ∀ sw, some sw ∈ masters → sw.steps.length ≤ fuel)
    (logs : Logs) (hinc : ∀ s, Tail.Increasing Item.key (logs s)) (traffic : Traffic) (now : Nat) (time : Option Nat)
    (c : Consumer) (hfrom : Consumer.From crates pfx options (Scans pfx)
      (.start pfx options logs traffic (foundStreams masters fuel pfx) now time) c) (hrun : c.outcome = none) (p : Pass)
    (hidle : (c.pass crates pfx options p).outcome = some .idle) (hok : ∀ i, p.traffic.fails i = false)
    (hlogs : ∀ s, pfx <+: s → '#' ∉ s → Holds n.st.trace s (c.world.logs s))
    (hlogs' : ∀ s, pfx <+: s → '#' ∉ s → Holds n'.st.trace s ((c.pass crates pfx options p).world.logs s))
    (hlasting : ∀ s, pfx <+: s → c.world.logs s ≠ [] →
      ∃ sw, some sw ∈ masters ∧ (∀ j, sw.Answers (scanPattern pfx) j) ∧ sw.Lasting s) :
    ∃ written : List PendingEvent, written.Subperm (n.dispatched.map Queued.event) ∧
      (n.Reach setup env (fun _ act => Node.obtainsContext act = true) →
        written.Sublist (n.dispatched.map Queued.event)) ∧
      written.length = n.st.value .forwarded ∧
      ((c.pass crates pfx options p).delivered.map readRecord).Perm
        ((written.filter fun e => asksFor options e).map recordOf) ∧
      ∃ cp, (c.pass crates pfx options p).checkpoints.getLast? = some cp ∧ cp.done = true ∧
        cp.logicalEvents = (written.filter fun e => asksFor options e).length ∧
        (options.events = none → cp.logicalEvents = n.st.value .forwarded) := by
  have hreach := hfrom.reach ⟨logs, traffic, _, now, time, hinc, rfl⟩
  obtain ⟨posts, hposts⟩ := Node.Reach.posted h
  obtain ⟨posts', hposts'⟩ := Node.Reach.posted h'
  have hreadable := hposts.readable h hbatch hfixed
  have hreadable' := hposts'.readable h' hbatch hfixed'
  have hname : ∀ w ∈ writtenEvents posts, pfx <+: w.1 ∧ '#' ∉ w.1 ∧ Client.eventName pfx w.1 = some w.2.suffix := by
    intro w hw
    subst hpfx
    exact hposts.name hreadable hp htags hw
  have hprefixed : ∀ s ∈ c.world.reader.streams, pfx <+: s := by
    refine hfrom.found (fun s hs => ?_) fun q hq s hs => ?_
    · rw [start_streams] at hs
      exact ((Client.mem_foundStreams hp hfuel).1 (Client.mem_matched.1 hs).1).1
    · obtain ⟨masters', fuel', hfuel', hd⟩ := hq
      rw [hd] at hs
      exact ((Client.mem_foundStreams hp hfuel').1 hs).1
  have hwanted := hreach.exact.covers.wanted
  -- of the events written, those asked for are in the streams that are read
  have hread : ∀ w ∈ writtenEvents posts, (asksFor options w.2 ↔ w.1 ∈ c.world.reader.streams) := by
    intro w hw
    obtain ⟨hunder, hhash, hevent⟩ := hname w hw
    constructor
    · intro hasks
      refine hfrom.streams ?_
      rw [start_streams, Client.mem_matched]
      refine ⟨?_, hhash, fun names hnames => ⟨_, hevent, hasks names hnames⟩⟩
      have hentry : c.world.logs w.1 ≠ [] := by
        intro hnil
        have hholds := posts_of_holds (hlogs w.1 hunder hhash) hposts.trace
        rw [hnil, List.forall₂_nil_left_iff, List.filter_eq_nil_iff] at hholds
        obtain ⟨q, hq, hstream, -⟩ := Node.Posted.of_written hw
        exact hholds q hq (decide_eq_true hstream.symm)
      obtain ⟨sw, hsw, hall, hlast⟩ := hlasting w.1 hunder hentry
      exact Client.foundStreams_of_lasting hp hfuel hsw hall hunder hlast
    · intro hmem names hnames
      obtain ⟨e, he, hin⟩ := (hwanted w.1 hmem).2 names hnames
      rw [hevent] at he
      rwa [← Option.some.inj he] at hin
  have hpass : (c.pass crates pfx options p).Reach crates pfx options := hreach.next trivial ⟨hrun, rfl⟩
  have hperm : ((c.pass crates pfx options p).delivered.map readRecord).Perm
      ((((writtenEvents posts).map Prod.snd).filter fun e => asksFor options e).map recordOf) := by
    refine delivered_perm (fun ev hev => ?_) hread fun s => ?_
    · rw [← Consumer.idle_streams hrun hidle]
      exact hpass.delivered_streams ev hev
    · exact delivered_of_posts hc hzero hreach hrun hidle hok hposts.trace hposts'.trace hreadable hreadable'
        (fun s hs => hlogs s (hprefixed s hs) (hwanted s hs).1) fun s hs => hlogs' s (hprefixed s hs) (hwanted s hs).1
  have hlength : ((writtenEvents posts).map Prod.snd).length = n.st.value .forwarded := by
    rw [List.length_map, hposts.written_length]
  obtain ⟨cp, hlast, hcount, hdone⟩ := hpass.exact.logged.last (by rw [hidle]; simp)
  have hseen : cp.logicalEvents = (((writtenEvents posts).map Prod.snd).filter fun e => asksFor options e).length := by
    rw [hcount, hpass.exact.tallied.count]
    simpa only [List.length_map] using hperm.length_eq
  refine ⟨(writtenEvents posts).map Prod.snd, hposts.written_subperm h, hposts.written_sublist, hlength,
    hperm, cp, hlast, ?_, hseen, fun hall => ?_⟩
  · rw [hdone, hidle]
    rfl
  · rw [hseen, ← hlength]
    congr 1
    refine List.filter_eq_self.2 fun e _ => decide_eq_true fun names hnames => ?_
    rw [ConsumeOptions.wanted, hall] at hnames
    cases hnames

/-- What is found where there is one stream. -/
theorem foundStreams_one {pfx name : Str} (hp : validatePrefix pfx = .ok ()) (hname : pfx <+: name) :
    foundStreams [none, some (Client.twoSteps name)] 2 pfx = [name] := by
  have hmem : ∀ s ∈ foundStreams [none, some (Client.twoSteps name)] 2 pfx, s = name := by
    intro s hs
    obtain ⟨-, sw, k, step, hsw, hstep, -, -, hstream⟩ := (Client.mem_foundStreams hp (Client.twoSteps_fuel name)).1 hs
    simp only [List.mem_cons, reduceCtorEq, Option.some.injEq, List.not_mem_nil, or_false, false_or] at hsw
    rw [hsw] at hstep
    rw [Client.twoSteps_keyspace (List.mem_of_getElem? hstep), Client.isStream_oneStream] at hstream
    exact Text.utf8_injective hstream
  have hself : name ∈ foundStreams [none, some (Client.twoSteps name)] 2 pfx :=
    Client.foundStreams_of_lasting hp (Client.twoSteps_fuel name) (List.mem_cons_of_mem _ List.mem_cons_self)
      (Client.twoSteps_answers name _) hname (Client.twoSteps_lasting name)
  have hsorted := Client.pairwise_discoverAll
    ([none, some (Client.twoSteps name)].map fun master => master.map fun sw => Client.scanStreams sw.answer 2 pfx)
  change (foundStreams [none, some (Client.twoSteps name)] 2 pfx).Pairwise (· < ·) at hsorted
  generalize foundStreams [none, some (Client.twoSteps name)] 2 pfx = found at *
  cases found with
  | nil => cases hself
  | cons s rest =>
    rw [hmem s List.mem_cons_self]
    cases rest with
    | nil => rfl
    | cons t rest =>
      have hlt := List.rel_of_pairwise_cons hsorted (List.mem_cons_self (a := t))
      rw [hmem s List.mem_cons_self, hmem t (List.mem_cons_of_mem _ List.mem_cons_self)] at hlt
      exact absurd hlt (lt_irrefl _)

theorem counting_audit_one : ∃ (n : Node) (c : Consumer) (cp : Client.ConsumerCheckpoint) (written : List PendingEvent),
    n.st.value .forwarded = 1 ∧ written.Sublist (n.dispatched.map Queued.event) ∧ written.length = 1 ∧
    (c.pass .reference "events:".toList (Client.tailing none) Client.halfSecond).checkpoints.getLast? = some cp ∧
      cp.done = true ∧ cp.logicalEvents = 1 := by
  obtain ⟨n, hreach, hforwarded, hposted, hpfx, hfixed⟩ := oneWritten_reach
  have hany : n.Reach Node.narrow .calm fun _ _ => True := Machine.Reach.strengthen hreach fun _ _ _ _ _ _ => trivial
  have hfound : foundStreams [none, some (Client.twoSteps "events:expired".toList)] 2 "events:".toList =
      ["events:expired".toList] := foundStreams_one (by decide) ⟨"expired".toList, rfl⟩
  have hfrom : Consumer.From .reference "events:".toList (Client.tailing none) (Scans "events:".toList)
      (.start "events:".toList (Client.tailing none) expiredLogs .quiet
        (foundStreams [none, some (Client.twoSteps "events:expired".toList)] 2 "events:".toList) 0
          (some 0)) expiredRead := by
    rw [hfound]
    refine Machine.Reach.next (a := Client.halfSecond) (.start rfl) ⟨[], 0, by simp, rfl⟩ ⟨?_, rfl⟩
    decide +kernel
  have htags : PlainTags "events:".toList n.st.trace := by
    intro tag suffix hmem
    rw [hposted, List.map_singleton, List.mem_singleton] at hmem
    have hname := Text.utf8_injective hmem
    simp [braced] at hname
  have hinc : ∀ s, Tail.Increasing Item.key (expiredLogs s) := by
    intro s
    unfold expiredLogs
    split
    · exact List.pairwise_singleton _ _
    · exact List.Pairwise.nil
  have hlasting : ∀ s, "events:".toList <+: s → expiredLogs s ≠ [] → ∃ sw,
      some sw ∈ [none, some (Client.twoSteps "events:expired".toList)] ∧
        (∀ j, sw.Answers (scanPattern "events:".toList) j) ∧ sw.Lasting s := by
    intro s _ hs
    unfold expiredLogs at hs
    split at hs
    · rename_i hname
      rw [hname]
      exact ⟨_, List.mem_cons_of_mem _ List.mem_cons_self, Client.twoSteps_answers _ _, Client.twoSteps_lasting _⟩
    · exact absurd rfl hs
  obtain ⟨written, -, horder, hlength, -, cp, hlast, hdone, -, hall⟩ := counting_audit Node.narrow .calm n n (by decide)
    hany hany hfixed hfixed "events:".toList hpfx (by decide) htags .reference Client.Crates.reference_standard
    (Client.tailing none) rfl _ 2 (Client.twoSteps_fuel _) expiredLogs hinc .quiet 0 (some 0) expiredRead hfrom
    (by decide +kernel) Client.halfSecond (by decide +kernel) (fun _ => rfl) (fun s _ _ => expiredLogs_holds hposted s)
    (fun s _ _ => expiredLogs_holds hposted s) hlasting
  exact ⟨n, expiredRead, cp, written, hforwarded, horder hreach, hlength.trans hforwarded, hlast, hdone,
    (hall rfl).trans hforwarded⟩

end EventStream

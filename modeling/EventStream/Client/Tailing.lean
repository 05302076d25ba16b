import EventStream.Client.Merged

/-!
# Readers that start at the tail

A reader that is not to see the history asks for the last entry of each stream and reads on from it. When the question
fails, it starts at the zero cursor instead.

- `Tailing`: the world of a reader, with the last entry of each stream when it was asked for, and whether the answer
  came;
- `Marked`: the start cursor of a stream is its tail, or zero if the answer did not come;
- `Tailing.marked_of_reach` and `Tailing.Later.tails`: this holds in every run, and a stream keeps its tail;
- `poll_finds`: a round that asks for enough finds every entry after the cursor;
- `tail_kept_iff`: the history of a stream is never returned exactly if the question for its tail was answered.
-/

namespace EventStream.Client

open Text (Str)

/-! ## Tails -/

/-- The last entry of each stream that is read from its tail, when the tail was asked for, and whether this failed. -/
abbrev Tails := Str → Option (IdKey × Bool)

def tailOf (log : List Item) (fails fromZero : Bool) : Option (IdKey × Bool) :=
  if fromZero then none else log.getLast?.map fun item => (item.key, fails)

/-- One stream of a new reader. -/
def newTail (traffic : Traffic) (fromZero : Bool) (acc : (Logs × Cursors) × Tails) (p : Str × Nat) :
    (Logs × Cursors) × Tails :=
  let next := MergedReader.newStream traffic fromZero acc.1 p
  (next, Function.update acc.2 p.1 (tailOf (next.1 p.1) (traffic.fails p.2) fromZero))

/-- One candidate; a covered one keeps its tail. -/
def addTail (traffic : Traffic) (fromZero : Bool) (acc : Adding × Tails) (p : Str × Nat) : Adding × Tails :=
  let next := MergedReader.addStream traffic fromZero acc.1 p
  if (acc.1.reader.cursors.lookup p.1).isSome then (next, acc.2)
  else (next, Function.update acc.2 p.1 (tailOf (next.logs p.1) (traffic.fails p.2) fromZero))

structure Tailing where
  world : World
  tails : Tails

namespace Tailing

/-- A new reader. -/
def new (logs : Logs) (traffic : Traffic) (streams : List Str) (fromZero : Bool) : Tailing :=
  let r := MergedReader.new logs traffic streams fromZero
  { world := ⟨r.1, r.2, r.2.cursors.lookup, []⟩
    tails := (streams.zipIdx.foldl (newTail traffic fromZero) ((logs, ∅), fun _ => none)).2 }

def step (texts : Texts) (t : Tailing) (act : World.Act) : Tailing where
  world := t.world.step texts act
  tails :=
    match act with
    | .addStreams candidates fromZero traffic =>
      (candidates.zipIdx.foldl (addTail traffic fromZero) (⟨t.world.logs, t.world.reader, []⟩, t.tails)).2
    | _ => t.tails

def Fresh (t : Tailing) : Prop :=
  ∃ logs traffic streams fromZero, (∀ s, Tail.Increasing Item.key (logs s)) ∧ t = new logs traffic streams fromZero

/-- The states that some interleaving leads to, with rounds of any count. -/
def Reach (texts : Texts) : Tailing → Prop :=
  Machine.Reach (fun t act t' => step texts t act = t') (fun _ _ => True) Fresh

/-- The states that some interleaving leads to from another. -/
def Later (texts : Texts) : Tailing → Tailing → Prop :=
  Relation.ReflTransGen (Machine.Next (fun t act t' => step texts t act = t') fun _ _ => True)

end Tailing

/-! ## Start cursors -/

/-- The start of a stream that is read from its tail is the tail, or zero if the question for it failed. -/
def Marked (tails : Tails) (starts : Str → Option Str) (logs : Logs) : Prop :=
  ∀ s k failed, tails s = some (k, failed) → (∃ e ∈ logs s, e.key = k) ∧
    ∃ start, starts s = some start ∧ cursorKey start = some (if failed then toLex (0, 0) else k)

namespace Marked

variable {tails : Tails} {starts starts' : Str → Option Str} {logs logs' : Logs}

theorem mono (h : Marked tails starts logs) (hlogs : ∀ s, logs s ⊆ logs' s)
    (hstarts : ∀ s start, starts s = some start → starts' s = some start) : Marked tails starts' logs' := by
  intro s k failed hs
  obtain ⟨⟨e, he, hk⟩, start, hstart, hkey⟩ := h s k failed hs
  exact ⟨⟨e, hlogs s he, hk⟩, start, hstarts s start hstart, hkey⟩

/-- A stream is started. -/
theorem start (h : Marked tails starts logs) (t : Str) (fails fromZero : Bool) :
    Marked (Function.update tails t (tailOf (logs t) fails fromZero))
      (Function.update starts t (some (startCursor (logs t) fails fromZero))) logs := by
  intro s k failed hs
  by_cases hst : s = t
  · subst hst
    rw [Function.update_self] at hs ⊢
    cases fromZero with
    | true => cases hs
    | false =>
      obtain ⟨item, hlast, heq⟩ := Option.map_eq_some_iff.1 hs
      obtain ⟨rfl, rfl⟩ := Prod.mk.inj heq
      refine ⟨⟨item, List.mem_of_getLast? hlast, rfl⟩, _, rfl, ?_⟩
      cases fails with
      | true => exact cursorKey_zeroCursor
      | false =>
        have hstart : startCursor (logs s) false false = item.id.text := by simp [startCursor, lastId, hlast]
        rw [hstart]
        exact cursorKey_text item.id
  · rw [Function.update_of_ne hst] at hs ⊢
    exact h s k failed hs

end Marked

/-! ## New readers and new streams -/

section Adding

variable (traffic : Traffic) (fromZero : Bool)

theorem foldl_newTail_fst (ps : List (Str × Nat)) (acc : (Logs × Cursors) × Tails) :
    (ps.foldl (newTail traffic fromZero) acc).1 = ps.foldl (MergedReader.newStream traffic fromZero) acc.1 := by
  induction ps generalizing acc with
  | nil => rfl
  | cons p ps ih => exact ih _

theorem newTail_marked {acc : (Logs × Cursors) × Tails} (h : Marked acc.2 acc.1.2.lookup acc.1.1) (p : Str × Nat) :
    let r := newTail traffic fromZero acc p
    Marked r.2 r.1.2.lookup r.1.1 := by
  have hserved : Marked acc.2 acc.1.2.lookup (traffic.before p.2 acc.1.1) :=
    h.mono (traffic.subset_before p.2 acc.1.1) fun _ _ hs => hs
  have hstarted := hserved.start p.1 (traffic.fails p.2) fromZero
  rwa [update_lookup] at hstarted

theorem foldl_newTail_marked (ps : List (Str × Nat)) {acc : (Logs × Cursors) × Tails}
    (h : Marked acc.2 acc.1.2.lookup acc.1.1) :
    let r := ps.foldl (newTail traffic fromZero) acc
    Marked r.2 r.1.2.lookup r.1.1 := by
  induction ps generalizing acc with
  | nil => exact h
  | cons p ps ih => exact ih (newTail_marked traffic fromZero h p)

/-- A new reader has cursors for its streams only. -/
theorem mem_of_foldl_newStream {s : Str} (ps : List (Str × Nat)) {acc : Logs × Cursors}
    (h : ((ps.foldl (MergedReader.newStream traffic fromZero) acc).2.lookup s).isSome) :
    (acc.2.lookup s).isSome ∨ s ∈ ps.map Prod.fst := by
  induction ps generalizing acc with
  | nil => exact .inl h
  | cons p ps ih =>
    rw [List.map_cons, List.mem_cons]
    rcases ih h with hold | hmem
    · by_cases hsp : s = p.1
      · exact .inr (.inl hsp)
      · rw [MergedReader.newStream, AList.lookup_insert_ne hsp] at hold
        exact .inl hold
    · exact .inr (.inr hmem)

theorem foldl_addTail_fst (ps : List (Str × Nat)) (acc : Adding × Tails) :
    (ps.foldl (addTail traffic fromZero) acc).1 = ps.foldl (MergedReader.addStream traffic fromZero) acc.1 := by
  induction ps generalizing acc with
  | nil => rfl
  | cons p ps ih =>
    have hfst : (addTail traffic fromZero acc p).1 = MergedReader.addStream traffic fromZero acc.1 p := by
      unfold addTail
      split <;> rfl
    rw [List.foldl_cons, List.foldl_cons, ih, hfst]

variable {starts : Str → Option Str} {reader : MergedReader} {logs : Logs} {seen : List PhysicalPosition}

/-- The loop over the candidates, with the tails. -/
structure AddingMarked (starts : Str → Option Str) (reader : MergedReader) (logs : Logs)
    (seen : List PhysicalPosition) (acc : Adding × Tails) : Prop where
  sound : acc.1.Sound starts reader logs seen
  marked : Marked acc.2 (fun s => (starts s).or (acc.1.reader.cursors.lookup s)) acc.1.logs
  listed : ∀ s, (acc.1.reader.cursors.lookup s).isSome → s ∈ acc.1.reader.streams

theorem AddingMarked.add {acc : Adding × Tails} (h : AddingMarked starts reader logs seen acc) (p : Str × Nat) :
    AddingMarked starts reader logs seen (addTail traffic fromZero acc p) := by
  have hsound : Adding.Sound starts reader logs seen (MergedReader.addStream traffic fromZero acc.1 p) :=
    addStream_sound h.sound p
  unfold addTail
  split
  · rename_i hcovered
    have hskip : MergedReader.addStream traffic fromZero acc.1 p = acc.1 := if_pos hcovered
    exact ⟨hsound, by simpa only [hskip] using h.marked, by simpa only [hskip] using h.listed⟩
  · rename_i hnew
    have hnone : acc.1.reader.cursors.lookup p.1 = none := by simpa using hnew
    have hserved := h.marked.mono (traffic.subset_before p.2 acc.1.logs) fun _ _ hs => hs
    have hstarted := hserved.start p.1 (traffic.fails p.2) fromZero
    rw [or_lookup_insert (h.sound.starts_eq_none hnone)] at hstarted
    have hadd : MergedReader.addStream traffic fromZero acc.1 p = _ := if_neg hnew
    refine ⟨hsound, by simpa only [hadd] using hstarted, ?_⟩
    intro s hs
    simp only [hadd, List.mem_append, List.mem_singleton] at hs ⊢
    by_cases hsp : s = p.1
    · exact .inr hsp
    · rw [AList.lookup_insert_ne hsp] at hs
      exact .inl (h.listed s hs)

theorem AddingMarked.addAll {acc : Adding × Tails} (h : AddingMarked starts reader logs seen acc)
    (ps : List (Str × Nat)) : AddingMarked starts reader logs seen (ps.foldl (addTail traffic fromZero) acc) := by
  induction ps generalizing acc with
  | nil => exact h
  | cons p ps ih => exact ih (h.add traffic fromZero p)

/-- A covered stream keeps its tail. -/
theorem foldl_addTail_kept {s : Str} (ps : List (Str × Nat)) {acc : Adding × Tails}
    (h : (acc.1.reader.cursors.lookup s).isSome) : (ps.foldl (addTail traffic fromZero) acc).2 s = acc.2 s := by
  induction ps generalizing acc with
  | nil => rfl
  | cons p ps ih =>
    rw [List.foldl_cons]
    by_cases hcovered : (acc.1.reader.cursors.lookup p.1).isSome
    · have hskip : addTail traffic fromZero acc p = acc := by
        rw [addTail, if_pos hcovered, MergedReader.addStream, if_pos hcovered]
      rw [hskip, ih h]
    · have hne : s ≠ p.1 := by
        rintro rfl
        exact hcovered h
      rw [ih]
      · rw [addTail, if_neg hcovered]
        exact Function.update_of_ne hne _ _
      · rw [addTail, if_neg hcovered, MergedReader.addStream, if_neg hcovered, AList.lookup_insert_ne hne]
        exact h

end Adding

/-! ## Every interleaving -/

namespace Tailing

/-- The invariant of the runs. -/
structure Sound (texts : Texts) (t : Tailing) : Prop where
  world : t.world.Sound texts
  marked : Marked t.tails t.world.starts t.world.logs
  listed : ∀ s, (t.world.starts s).isSome → s ∈ t.world.reader.streams

variable {texts : Texts} {t t' : Tailing}

theorem sound_of_fresh (h : t.Fresh) : t.Sound texts := by
  obtain ⟨logs, traffic, streams, fromZero, hinc, rfl⟩ := h
  refine ⟨World.sound_of_fresh ⟨logs, traffic, streams, fromZero, hinc, rfl, rfl, rfl⟩, ?_, fun s hs => ?_⟩
  swap
  · rcases mem_of_foldl_newStream traffic fromZero streams.zipIdx hs with hnone | hmem
    · cases hnone
    · rwa [List.zipIdx_map_fst] at hmem
  have hmarked : let r := streams.zipIdx.foldl (newTail traffic fromZero) ((logs, ∅), fun _ => none)
      Marked r.2 r.1.2.lookup r.1.1 :=
    foldl_newTail_marked traffic fromZero streams.zipIdx fun s k failed hs => by cases hs
  simp only [foldl_newTail_fst] at hmarked
  exact hmarked

theorem Sound.step (h : t.Sound texts) (act : World.Act) : (t.step texts act).Sound texts := by
  have hworld := h.world.step act
  cases act with
  | append stream item =>
    exact ⟨hworld, h.marked.mono (t.world.logs.subset_append (stream, item)) fun _ _ hs => hs, h.listed⟩
  | pollPhysical count traffic =>
    obtain ⟨-, -, hgrow, -⟩ := pollPhysical_sound h.world.sound h.world.covered traffic count
    exact ⟨hworld, h.marked.mono hgrow fun _ _ hs => hs, h.listed⟩
  | poll count traffic =>
    obtain ⟨-, -, hgrow, -⟩ := pollPhysical_sound h.world.sound h.world.covered traffic count
    exact ⟨hworld, h.marked.mono hgrow fun _ _ hs => hs, h.listed⟩
  | addStreams candidates fromZero traffic =>
    have hstart : AddingMarked t.world.starts t.world.reader t.world.logs t.world.seen
        (⟨t.world.logs, t.world.reader, []⟩, t.tails) := by
      refine ⟨addStreams_sound h.world.sound h.world.covered traffic [] fromZero, ?_, ?_⟩
      · exact h.marked.mono (fun s => List.Subset.refl _) fun s start hs => by rw [hs]; rfl
      · exact fun s hs => h.listed s (h.world.sound.known s hs)
    have hend := hstart.addAll traffic fromZero candidates.zipIdx
    have hmarked := hend.marked
    have hlisted := hend.listed
    rw [foldl_addTail_fst] at hmarked hlisted
    refine ⟨hworld, hmarked, fun s hs => hlisted s ?_⟩
    obtain ⟨start, hs⟩ := Option.isSome_iff_exists.1 hs
    obtain ⟨cursor, hcursor, -⟩ := hworld.sound.follows s start hs
    exact Option.isSome_iff_exists.2 ⟨cursor, hcursor⟩

theorem sound_of_reach (h : t.Reach texts) : t.Sound texts :=
  Machine.Reach.invariant (fun _ ht => sound_of_fresh ht)
    (fun _ act _ _ _ hstep ht => by
      subst hstep
      exact ht.step act) h

theorem Later.sound (h : Later texts t t') (ht : t.Sound texts) : t'.Sound texts := by
  induction h with
  | refl => exact ht
  | tail _ hn ih =>
    obtain ⟨act, -, rfl⟩ := hn
    exact ih.step act

/-- A stream keeps its tail. -/
theorem Later.tails (h : Later texts t t') (ht : t.Sound texts) {s : Str} {x : IdKey × Bool} (hs : t.tails s = some x) :
    t'.tails s = some x := by
  induction h with
  | refl => exact hs
  | @tail t₁ _ hpath hn ih =>
    obtain ⟨act, -, rfl⟩ := hn
    have hsound : t₁.Sound texts := Later.sound hpath ht
    cases act with
    | append stream item => exact ih
    | pollPhysical count traffic => exact ih
    | poll count traffic => exact ih
    | addStreams candidates fromZero traffic =>
      obtain ⟨k, failed⟩ := x
      obtain ⟨-, start, hstart, -⟩ := hsound.marked s k failed ih
      obtain ⟨cursor, hcursor, -⟩ := hsound.world.sound.follows s start hstart
      have hcovered : (t₁.world.reader.cursors.lookup s).isSome := by rw [hcursor]; rfl
      exact (foldl_addTail_kept traffic fromZero candidates.zipIdx hcovered).trans ih

end Tailing

/-! ## A round that finds everything -/

section Round

variable {logs : Logs} {s cursor : Str} {c : IdKey} {e : Item}

/-- Every entry after a cursor is in a reply that is long enough. -/
theorem mem_next_of_lt {log : List Item} (he : e ∈ log) (hlt : c < e.key) :
    e ∈ Tail.next Item.key log c log.length := by
  rw [Tail.next, List.take_of_length_le (List.length_filter_le _ _), List.mem_filter]
  exact ⟨he, decide_eq_true hlt⟩

/-- A round until it comes to a stream: the cursor is where it was, or the entry has been found. -/
structure Seeking (logs : Logs) (s cursor : Str) (e : Item) (r : Round) : Prop where
  logs : r.logs = logs
  found : e.physical s ∈ r.batch ∨ r.cursors.lookup s = some cursor

theorem pollStream_quiet (n : Nat) (r : Round) (p : Str × Nat) :
    MergedReader.pollStream .quiet n r p =
      ((xread (r.logs p.1) ((r.cursors.lookup p.1).getD zeroCursor) n).getD []).foldl
        (MergedReader.pushEntry p.1) r := by
  have hserved : Traffic.quiet.before p.2 r.logs = r.logs := rfl
  rw [MergedReader.pollStream, hserved]
  simp only [Traffic.quiet, Bool.false_eq_true, if_false]
  cases xread (r.logs p.1) ((r.cursors.lookup p.1).getD zeroCursor) n <;> rfl

theorem Seeking.poll (he : e ∈ logs s) (hc : cursorKey cursor = some c) (hlt : c < e.key) {r : Round}
    (h : Seeking logs s cursor e r) (p : Str × Nat) :
    let r' := MergedReader.pollStream .quiet (logs s).length r p
    Seeking logs s cursor e r' ∧ (e.physical s ∈ r.batch ∨ p.1 = s → e.physical s ∈ r'.batch) := by
  intro r'
  obtain ⟨hlogs, hbatch, hcursors⟩ := foldl_pushEntry p.1
    ((xread (r.logs p.1) ((r.cursors.lookup p.1).getD zeroCursor) (logs s).length).getD []) r
  rw [← pollStream_quiet] at hlogs hbatch hcursors
  change r'.logs = _ at hlogs
  change r'.batch = _ at hbatch
  change ∀ s, r'.cursors.lookup s = _ at hcursors
  by_cases hfound : e.physical s ∈ r.batch
  · have hkept : e.physical s ∈ r'.batch := by
      rw [hbatch]
      exact List.mem_append_left _ hfound
    exact ⟨⟨hlogs.trans h.logs, .inl hkept⟩, fun _ => hkept⟩
  have hcursor := h.found.resolve_left hfound
  by_cases hp : p.1 = s
  · have hread : xread (r.logs p.1) ((r.cursors.lookup p.1).getD zeroCursor) (logs s).length =
        some (Tail.next Item.key (logs s) c (logs s).length) := by
      have hlimit : readLimit (logs s) (logs s).length = (logs s).length := by
        unfold readLimit
        split <;> rfl
      rw [hp, hcursor, h.logs, Option.getD_some, xread, hc, hlimit]
      rfl
    have hnow : e.physical s ∈ r'.batch := by
      rw [hbatch, hread, hp]
      exact List.mem_append_right _ (List.mem_map_of_mem (mem_next_of_lt he hlt))
    exact ⟨⟨hlogs.trans h.logs, .inl hnow⟩, fun _ => hnow⟩
  · refine ⟨⟨hlogs.trans h.logs, .inr ?_⟩, fun hor => absurd hor (not_or.2 ⟨hfound, hp⟩)⟩
    rw [hcursors, if_neg (Ne.symm hp), hcursor]

theorem Seeking.foldl (he : e ∈ logs s) (hc : cursorKey cursor = some c) (hlt : c < e.key) (ps : List (Str × Nat))
    {r : Round} (h : Seeking logs s cursor e r) (hps : e.physical s ∈ r.batch ∨ s ∈ ps.map Prod.fst) :
    e.physical s ∈ (ps.foldl (MergedReader.pollStream .quiet (logs s).length) r).batch := by
  induction ps generalizing r with
  | nil =>
    rcases hps with hfound | hnone
    · exact hfound
    · cases hnone
  | cons p ps ih =>
    obtain ⟨hnext, hnow⟩ := h.poll he hc hlt p
    apply ih hnext
    rcases hps with hfound | hmem
    · exact .inl (hnow (.inl hfound))
    · rw [List.map_cons, List.mem_cons] at hmem
      rcases hmem with heq | hrest
      · exact .inl (hnow (.inr heq.symm))
      · exact .inr hrest

/-- A round that asks for enough finds every entry after the cursor. -/
theorem poll_finds {reader : MergedReader} (hs : s ∈ reader.streams) (hcursor : reader.cursors.lookup s = some cursor)
    (hc : cursorKey cursor = some c) (he : e ∈ logs s) (hlt : c < e.key) :
    e.physical s ∈ (reader.pollPhysical logs .quiet (logs s).length).2.2 := by
  rw [MergedReader.pollPhysical, List.mem_insertionSort]
  refine Seeking.foldl he hc hlt _ ⟨rfl, .inr hcursor⟩ (.inr ?_)
  rwa [List.zipIdx_map_fst]

end Round

/-! ## Replays -/

namespace Tailing

variable {texts : Texts} {t : Tailing} {s : Str} {k : IdKey}

/-- What was answered keeps the history away. -/
theorem Sound.after_tail (h : t.Sound texts) (hs : t.tails s = some (k, false)) :
    ∀ p ∈ ofStream s t.world.seen, k < entryIdSortKey p.entryId := by
  obtain ⟨-, start, hstart, hkey⟩ := h.marked s k false hs
  obtain ⟨cursor, -, a, c, ha, -, -, -, hseen⟩ := h.world.sound.follows s start hstart
  obtain rfl : k = a := Option.some.inj (hkey.symm.trans ha)
  intro p hp
  rw [hseen] at hp
  obtain ⟨e, he, rfl⟩ := List.mem_map.1 hp
  have hlt : k < e.key := by
    have := (List.mem_filter.1 he).2
    rw [decide_eq_true_eq] at this
    exact this.1
  rwa [Item.position, entryIdSortKey_text]

/-- After a failed question, the tail itself has been returned or is returned by a round that asks for enough. -/
theorem Sound.replays (h : t.Sound texts) (hs : t.tails s = some (k, true)) :
    ∃ t', Later texts t t' ∧ ∃ p ∈ ofStream s t'.world.seen, entryIdSortKey p.entryId = k := by
  obtain ⟨⟨e, he, hk⟩, start, hstart, hkey⟩ := h.marked s k true hs
  obtain ⟨cursor, hcursor, a, c, ha, hc, -, -, hseen⟩ := h.world.sound.follows s start hstart
  have hzero : a = toLex (0, 0) := Option.some.inj (ha.symm.trans hkey)
  have hentry : entryIdSortKey (e.position s).entryId = k := by rw [Item.position, entryIdSortKey_text]; exact hk
  by_cases hle : e.key ≤ c
  · refine ⟨t, .refl, e.position s, ?_, hentry⟩
    rw [hseen]
    apply List.mem_map_of_mem
    rw [Tail.between, List.mem_filter, decide_eq_true_eq, hzero]
    exact ⟨he, e.id.zero_lt_key, hle⟩
  · have hfound := poll_finds (h.listed s (by rw [hstart]; rfl)) hcursor hc he (not_le.1 hle)
    refine ⟨t.step texts (.pollPhysical (t.world.logs s).length .quiet), .single ⟨_, trivial, rfl⟩, e.position s, ?_,
      hentry⟩
    have hseen' : (t.step texts (.pollPhysical (t.world.logs s).length .quiet)).world.seen = t.world.seen ++
        (t.world.reader.pollPhysical t.world.logs .quiet (t.world.logs s).length).2.2.map PhysicalEntry.position := by
      simp [Tailing.step, World.step, World.seen, Reply.positions]
    rw [ofStream, hseen', List.mem_filter]
    exact ⟨List.mem_append_right _ (List.mem_map_of_mem hfound), decide_eq_true rfl⟩

end Tailing

/-- The history of a stream is never returned exactly if the question for its tail was answered. -/
theorem tail_kept_iff (texts : Texts) {t : Tailing} (h : t.Reach texts) {s : Str} {k : IdKey} {failed : Bool}
    (hs : t.tails s = some (k, failed)) :
    (∀ t', Tailing.Later texts t t' → ∀ p ∈ ofStream s t'.world.seen, k < entryIdSortKey p.entryId) ↔
      failed = false := by
  have hsound := Tailing.sound_of_reach h
  constructor
  · intro hall
    cases failed with
    | false => rfl
    | true =>
      obtain ⟨t', hlater, p, hp, hk⟩ := hsound.replays hs
      exact absurd hk (hall t' hlater p hp).ne'
  · rintro rfl t' hlater
    exact (hlater.sound hsound).after_tail (hlater.tails hsound hs)

theorem one_le_u64Max : 0 < 1 ∧ 1 ≤ u64Max := by decide

/-- A stream with an entry, read from its tail by a reader whose question for it fails or not. -/
def tailedReader (fails : Bool) : Tailing :=
  Tailing.new (fun s => if s = ['a'] then [sampleItem 1 one_le_u64Max] else [])
    ⟨fun _ => [], fun _ => fails⟩ [['a']] false

theorem tailedReader_reach (fails : Bool) : (tailedReader fails).Reach sampleTexts := by
  refine Machine.Reach.start ⟨_, _, _, _, fun s => ?_, rfl⟩
  by_cases hs : s = ['a']
  · simp [hs, Tail.Increasing]
  · simp [hs, Tail.Increasing]

theorem tail_kept_answered :
    (tailedReader false).tails ['a'] = some (toLex (1, 0), false) ∧
      ∀ t', Tailing.Later sampleTexts (tailedReader false) t' →
        ∀ p ∈ ofStream ['a'] t'.world.seen, toLex (1, 0) < entryIdSortKey p.entryId :=
  ⟨rfl, (tail_kept_iff sampleTexts (tailedReader_reach false) rfl).2 rfl⟩

/-- The question for the tail fails, and the next round returns the entry that was there. -/
theorem failed_tail_replays :
    (tailedReader true).tails ['a'] = some (toLex (1, 0), true) ∧
      ((tailedReader true).step sampleTexts (.poll 10 .quiet)).world.seen = [⟨['a'], "1-0".toList⟩] := by
  decide +kernel

end EventStream.Client

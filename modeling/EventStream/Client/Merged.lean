import EventStream.Client.Reader

/-!
# What the merged reader returns

The invariant says, stream by stream, what was seen so far: the stretch of the stream from its start to its cursor. Each
loop of the reader has a step lemma for it, and each call follows by induction over the loop.

* `Follows`: one stream was read up to a cursor; kept by new entries (`Follows.concat`) and extended by a reply
  (`Follows.read`).
* `Sound`: all streams; `Sound.before`, `Sound.start` and `Sound.reorder` are its three changes.
* `pollPhysical_sound`, `addStreams_sound`, `new_sound`: the calls.
* `merged_reader_exact`: nothing is lost and nothing is repeated.
-/

namespace EventStream.Client

open Text (Str)

/-! ## What a reader of one stream has seen -/

section Streams

variable {log : List Item} {stream start cursor : Str} {seen : List PhysicalPosition}

/-- A cursor is at an entry or before all of them. -/
def Stands (log : List Item) (c : IdKey) : Prop := c = toLex (0, 0) ∨ ∃ e ∈ log, e.key = c

/-- The stream was read from `start` up to `cursor`, and this is what was seen of it. -/
def Follows (log : List Item) (stream start cursor : Str) (seen : List PhysicalPosition) : Prop :=
  ∃ a c, cursorKey start = some a ∧ cursorKey cursor = some c ∧ a ≤ c ∧ Stands log c ∧
    seen = (Tail.between Item.key log a c).map (Item.position stream)

theorem startCursor_stands (log : List Item) (fails fromZero : Bool) :
    ∃ a, cursorKey (startCursor log fails fromZero) = some a ∧ Stands log a := by
  have hzero : ∃ a, cursorKey zeroCursor = some a ∧ Stands log a := ⟨_, cursorKey_zeroCursor, Or.inl rfl⟩
  unfold startCursor lastId
  split
  · exact hzero
  split
  · exact hzero
  · cases hl : log.getLast? with
    | none => exact hzero
    | some item => exact ⟨item.key, cursorKey_text item.id, Or.inr ⟨item, List.mem_of_getLast? hl, rfl⟩⟩

/-- Nothing is seen at the start. -/
theorem follows_start (h : ∃ a, cursorKey start = some a ∧ Stands log a) : Follows log stream start start [] := by
  obtain ⟨a, ha, hs⟩ := h
  exact ⟨a, a, ha, ha, le_rfl, hs, by rw [Tail.between_self]; rfl⟩

namespace Follows

/-- A new entry comes after the cursor. -/
theorem concat {item : Item} (h : Follows log stream start cursor seen) (hi : ∀ e ∈ log, e.key < item.key) :
    Follows (log ++ [item]) stream start cursor seen := by
  obtain ⟨a, c, ha, hc, hac, hs, rfl⟩ := h
  have hlt : c < item.key := by
    rcases hs with rfl | ⟨e, he, rfl⟩
    · exact item.id.zero_lt_key
    · exact hi e he
  refine ⟨a, c, ha, hc, hac, ?_, by rw [Tail.between_concat hlt]⟩
  rcases hs with h0 | ⟨e, he, hk⟩
  · exact Or.inl h0
  · exact Or.inr ⟨e, List.mem_append_left _ he, hk⟩

/-- The cursor can be read, and the reply continues what was seen. -/
theorem read (h : Follows log stream start cursor seen) (hinc : Tail.Increasing Item.key log) (count : Nat) :
    ∃ items, xread log cursor count = some items ∧ (∀ e ∈ items, e ∈ log) ∧
      Follows log stream start ((items.getLast?.map fun e => e.id.text).getD cursor)
        (seen ++ items.map (Item.position stream)) := by
  obtain ⟨a, c, ha, hc, hac, hs, rfl⟩ := h
  refine ⟨Tail.next Item.key log c (readLimit log count), by rw [xread, hc]; rfl, fun e he => (Tail.mem_next he).1, ?_⟩
  generalize readLimit log count = count
  refine ⟨a, Tail.advance Item.key c (Tail.next Item.key log c count), ha, ?_, ?_, ?_, ?_⟩
  · unfold Tail.advance
    cases (Tail.next Item.key log c count).getLast? with
    | none => exact hc
    | some e => exact cursorKey_text e.id
  · exact hac.trans (Tail.le_advance fun e he => (Tail.mem_next he).2)
  · have hmoved : Tail.advance Item.key c (Tail.next Item.key log c count) = c ∨ ∃ e ∈ log, e.key = _ :=
      Tail.advance_mem count
    rcases hmoved with heq | hmem
    · rwa [heq]
    · exact Or.inr hmem
  · rw [← Tail.between_append_next hinc hac, List.map_append]

/-- What was seen of a stream is in the order of the IDs. -/
theorem ascending (h : Follows log stream start cursor seen) (hinc : Tail.Increasing Item.key log) :
    seen.Pairwise fun p q => entryIdSortKey p.entryId < entryIdSortKey q.entryId := by
  obtain ⟨a, c, -, -, -, -, rfl⟩ := h
  rw [List.pairwise_map]
  refine (Tail.increasing_between hinc).imp fun {x y} hxy => ?_
  rw [Item.position, Item.position, entryIdSortKey_text, entryIdSortKey_text]
  exact hxy

end Follows

end Streams

/-! ## What a reader of all streams has seen -/

/-- The positions of one stream. -/
def ofStream (stream : Str) (seen : List PhysicalPosition) : List PhysicalPosition :=
  seen.filter fun p => p.stream = stream

theorem ofStream_append (s : Str) (xs ys : List PhysicalPosition) :
    ofStream s (xs ++ ys) = ofStream s xs ++ ofStream s ys := List.filter_append xs ys

theorem ofStream_eq_nil {s : Str} {xs : List PhysicalPosition} (h : ∀ p ∈ xs, p.stream ≠ s) : ofStream s xs = [] := by
  rw [ofStream, List.filter_eq_nil_iff]
  intro p hp
  simpa using h p hp

theorem ofStream_map_position (s t : Str) (items : List Item) :
    ofStream s (items.map (Item.position t)) = if t = s then items.map (Item.position t) else [] := by
  rw [ofStream, List.filter_map]
  by_cases h : t = s
  · rw [if_pos h, List.filter_eq_self.2 fun e _ => by simp [Item.position, h]]
  · rw [if_neg h, List.filter_eq_nil_iff.2 fun e _ => by simp [Item.position, h]]
    rfl

theorem ofStream_positions (s : Str) (batch : List PhysicalEntry) :
    ofStream s (batch.map PhysicalEntry.position) =
      (batch.filter fun e => e.stream = s).map PhysicalEntry.position := by
  rw [ofStream, List.filter_map]
  rfl

/-- An `XADD` leaves a stream as it is, or appends an entry that is greater than all of it. -/
theorem Logs.append_cases (logs : Logs) (p : Str × Item) (s : Str) :
    logs.append p s = logs s ∨ ((∀ e ∈ logs s, e.key < p.2.key) ∧ logs.append p s = logs s ++ [p.2]) := by
  unfold Logs.append
  split
  · rename_i hp
    by_cases hsp : s = p.1
    · subst hsp
      exact Or.inr ⟨hp, Function.update_self _ _ _⟩
    · exact Or.inl (Function.update_of_ne hsp _ _)
  · exact Or.inl rfl

theorem Logs.increasing_append {logs : Logs} (h : ∀ s, Tail.Increasing Item.key (logs s)) (p : Str × Item) (s : Str) :
    Tail.Increasing Item.key (logs.append p s) := by
  rcases logs.append_cases p s with he | ⟨hp, he⟩ <;> rw [he]
  · exact h s
  · exact Tail.increasing_concat (h s) hp

/-- Streams keep their order while others write to them. -/
theorem Traffic.increasing_before (traffic : Traffic) (i : Nat) {logs : Logs}
    (h : ∀ s, Tail.Increasing Item.key (logs s)) : ∀ s, Tail.Increasing Item.key (traffic.before i logs s) := by
  unfold Traffic.before
  induction traffic.arrivals i generalizing logs with
  | nil => exact h
  | cons p ps ih => exact ih (Logs.increasing_append h p)

/-- Each covered stream was read from its start up to its cursor, and nothing else was seen. -/
structure Sound (starts : Str → Option Str) (logs : Logs) (cursors : Cursors) (seen : List PhysicalPosition) :
    Prop where
  increasing : ∀ s, Tail.Increasing Item.key (logs s)
  follows : ∀ s start, starts s = some start →
    ∃ cursor, cursors.lookup s = some cursor ∧ Follows (logs s) s start cursor (ofStream s seen)
  known : ∀ s, (cursors.lookup s).isSome → (starts s).isSome
  covered : ∀ p ∈ seen, (starts p.stream).isSome

namespace Sound

variable {starts : Str → Option Str} {logs : Logs} {cursors : Cursors} {seen : List PhysicalPosition}

theorem append (h : Sound starts logs cursors seen) (p : Str × Item) : Sound starts (logs.append p) cursors seen := by
  refine { h with increasing := Logs.increasing_append h.increasing p, follows := fun s start hs => ?_ }
  obtain ⟨cursor, hc, hf⟩ := h.follows s start hs
  refine ⟨cursor, hc, ?_⟩
  rcases logs.append_cases p s with he | ⟨hp, he⟩ <;> rw [he]
  · exact hf
  · exact hf.concat hp

theorem before (h : Sound starts logs cursors seen) (traffic : Traffic) (i : Nat) :
    Sound starts (traffic.before i logs) cursors seen := by
  unfold Traffic.before
  induction traffic.arrivals i generalizing logs with
  | nil => exact h
  | cons p ps ih => exact ih (h.append p)

/-- A stream of which nothing was seen is read from a new start. -/
theorem start (h : Sound starts logs cursors seen) {t : Str} (ht : ∀ p ∈ seen, p.stream ≠ t) (fails fromZero : Bool) :
    Sound (Function.update starts t (some (startCursor (logs t) fails fromZero))) logs
      (cursors.insert t (startCursor (logs t) fails fromZero)) seen where
  increasing := h.increasing
  follows s start hs := by
    by_cases hst : s = t
    · subst hst
      rw [Function.update_self] at hs
      obtain rfl := Option.some.inj hs
      refine ⟨_, AList.lookup_insert _, ?_⟩
      rw [ofStream_eq_nil ht]
      exact follows_start (startCursor_stands _ _ _)
    · rw [Function.update_of_ne hst] at hs
      rw [AList.lookup_insert_ne hst]
      exact h.follows s start hs
  known s hs := by
    by_cases hst : s = t
    · subst hst
      rw [Function.update_self]
      rfl
    · rw [Function.update_of_ne hst]
      rw [AList.lookup_insert_ne hst] at hs
      exact h.known s hs
  covered p hp := by
    rw [Function.update_of_ne (ht p hp)]
    exact h.covered p hp

/-- Only the order within each stream matters. -/
theorem reorder (h : Sound starts logs cursors seen) {seen' : List PhysicalPosition}
    (heq : ∀ s, ofStream s seen' = ofStream s seen) : Sound starts logs cursors seen' where
  increasing := h.increasing
  follows s start hs := by
    rw [heq s]
    exact h.follows s start hs
  known := h.known
  covered p hp := by
    have hmem : p ∈ ofStream p.stream seen' := List.mem_filter.2 ⟨hp, by simp⟩
    rw [heq] at hmem
    exact h.covered p (List.mem_filter.1 hmem).1

theorem ascending (h : Sound starts logs cursors seen) (s : Str) :
    (ofStream s seen).Pairwise fun p q => entryIdSortKey p.entryId < entryIdSortKey q.entryId := by
  cases hs : starts s with
  | none =>
    have hnone : ofStream s seen = [] := ofStream_eq_nil fun p hp hps => by
      have := h.covered p hp
      rw [hps, hs] at this
      cases this
    rw [hnone]
    exact List.Pairwise.nil
  | some start =>
    obtain ⟨cursor, _, hf⟩ := h.follows s start hs
    exact hf.ascending (h.increasing s)

end Sound

theorem Logs.subset_append (logs : Logs) (p : Str × Item) (s : Str) : logs s ⊆ logs.append p s := by
  rcases logs.append_cases p s with he | ⟨-, he⟩ <;> rw [he]
  · exact List.Subset.refl _
  · exact List.subset_append_left _ _

theorem Traffic.subset_before (traffic : Traffic) (i : Nat) (logs : Logs) (s : Str) :
    logs s ⊆ traffic.before i logs s := by
  unfold Traffic.before
  induction traffic.arrivals i generalizing logs with
  | nil => exact List.Subset.refl _
  | cons p ps ih => exact List.Subset.trans (logs.subset_append p s) (ih _)

/-! ## Rounds -/

section Rounds

variable {starts : Str → Option Str} {seen : List PhysicalPosition} {traffic : Traffic} {count : Nat}

/-- The entries of a batch are entries of the streams. -/
def Genuine (logs : Logs) (batch : List PhysicalEntry) : Prop :=
  ∀ e ∈ batch, ∃ item ∈ logs e.stream, e = item.physical e.stream

theorem Genuine.mono {logs logs' : Logs} {batch : List PhysicalEntry} (h : Genuine logs batch)
    (hs : ∀ s, logs s ⊆ logs' s) : Genuine logs' batch := by
  intro e he
  obtain ⟨item, hi, heq⟩ := h e he
  exact ⟨item, hs _ hi, heq⟩

theorem foldl_pushEntry (t : Str) (items : List Item) (acc : Round) :
    let r := items.foldl (MergedReader.pushEntry t) acc
    r.logs = acc.logs ∧ r.batch = acc.batch ++ items.map (Item.physical t) ∧
      ∀ s, r.cursors.lookup s =
        if s = t then (items.getLast?.map fun e => e.id.text).or (acc.cursors.lookup s) else acc.cursors.lookup s := by
  induction items generalizing acc with
  | nil => simp
  | cons item items ih =>
    obtain ⟨hl, hb, hc⟩ := ih (MergedReader.pushEntry t acc item)
    refine ⟨hl, by rw [List.foldl_cons, hb]; simp [MergedReader.pushEntry], fun s => ?_⟩
    rw [List.foldl_cons, hc s]
    by_cases hst : s = t
    · subst hst
      cases hlast : items.getLast? with
      | none => simp [MergedReader.pushEntry, List.getLast?_cons, hlast]
      | some e => simp [List.getLast?_cons, hlast]
    · rw [if_neg hst, if_neg hst, MergedReader.pushEntry, AList.lookup_insert_ne hst]

/-- The invariant of a round. -/
structure Round.Sound (starts : Str → Option Str) (seen : List PhysicalPosition) (logs : Logs) (r : Round) : Prop where
  sound : Client.Sound starts r.logs r.cursors (seen ++ r.batch.map PhysicalEntry.position)
  genuine : Genuine r.logs r.batch
  grown : ∀ s, logs s ⊆ r.logs s

theorem Round.Sound.served {logs : Logs} {r : Round} (h : r.Sound starts seen logs) (i : Nat) :
    Round.Sound starts seen logs { r with logs := traffic.before i r.logs } where
  sound := h.sound.before traffic i
  genuine := h.genuine.mono (traffic.subset_before i r.logs)
  grown s := List.Subset.trans (h.grown s) (traffic.subset_before i r.logs s)

/-- A reply continues what was seen of its stream. -/
theorem Round.Sound.push {logs : Logs} {r : Round} (h : r.Sound starts seen logs) {t : Str} (count : Nat)
    (ht : (starts t).isSome) : ∃ items, xread (r.logs t) ((r.cursors.lookup t).getD zeroCursor) count = some items ∧
      Round.Sound starts seen logs (items.foldl (MergedReader.pushEntry t) r) := by
  obtain ⟨start, hstart⟩ := Option.isSome_iff_exists.1 ht
  obtain ⟨cursor, hc, hf⟩ := h.sound.follows t start hstart
  obtain ⟨items, hx, hsub, hnew⟩ := hf.read (h.sound.increasing t) count
  obtain ⟨hl, hb, hlook⟩ := foldl_pushEntry t items r
  refine ⟨items, by rw [hc]; exact hx, ?_, ?_, ?_⟩
  · generalize items.foldl (MergedReader.pushEntry t) r = r' at hl hb hlook
    have hpos : seen ++ r'.batch.map PhysicalEntry.position =
        (seen ++ r.batch.map PhysicalEntry.position) ++ items.map (Item.position t) := by
      rw [hb, List.map_append, List.append_assoc, List.map_map]
      rfl
    rw [hpos]
    refine ⟨by rw [hl]; exact h.sound.increasing, fun s start' hs => ?_, fun s hs => ?_, fun p hp => ?_⟩
    · rw [hlook s, ofStream_append, ofStream_map_position, hl]
      by_cases hst : s = t
      · subst hst
        obtain rfl := Option.some.inj (hstart.symm.trans hs)
        rw [if_pos rfl, if_pos rfl, hc]
        refine ⟨_, ?_, hnew⟩
        cases items.getLast? <;> rfl
      · rw [if_neg hst, if_neg (Ne.symm hst), List.append_nil]
        exact h.sound.follows s start' hs
    · rw [hlook s] at hs
      by_cases hst : s = t
      · rwa [hst]
      · rw [if_neg hst] at hs
        exact h.sound.known s hs
    · rcases List.mem_append.1 hp with hp | hp
      · exact h.sound.covered p hp
      · obtain ⟨item, _, rfl⟩ := List.mem_map.1 hp
        exact ht
  · rw [hl, hb]
    intro e he
    rcases List.mem_append.1 he with he | he
    · exact h.genuine e he
    · obtain ⟨item, hi, rfl⟩ := List.mem_map.1 he
      exact ⟨item, hsub item hi, rfl⟩
  · rw [hl]
    exact h.grown

theorem pollStream_sound {logs : Logs} {r : Round} (h : r.Sound starts seen logs) (p : Str × Nat)
    (hp : (starts p.1).isSome) : Round.Sound starts seen logs (MergedReader.pollStream traffic count r p) := by
  have hserved : Round.Sound starts seen logs { r with logs := traffic.before p.2 r.logs } := h.served p.2
  unfold MergedReader.pollStream
  simp only
  split
  · exact hserved
  · obtain ⟨items, hx, hnew⟩ := hserved.push count hp
    rw [hx]
    exact hnew

theorem foldl_pollStream_sound (traffic : Traffic) (count : Nat) {logs : Logs} {ps : List (Str × Nat)}
    (hps : ∀ p ∈ ps, (starts p.1).isSome) {r : Round} (h : r.Sound starts seen logs) :
    Round.Sound starts seen logs (ps.foldl (MergedReader.pollStream traffic count) r) := by
  induction ps generalizing r with
  | nil => exact h
  | cons p ps ih =>
    exact ih (fun q hq => hps q (List.mem_cons_of_mem _ hq)) (pollStream_sound h p (hps p List.mem_cons_self))

/-- The order of what a round returns. -/
def Ordered (positions : List PhysicalPosition) : Prop :=
  (positions.Pairwise fun p q => entryIdSortKey p.entryId ≤ entryIdSortKey q.entryId) ∧
    ∀ s, (ofStream s positions).Pairwise fun p q => entryIdSortKey p.entryId < entryIdSortKey q.entryId

/-- The sort of a batch leaves every stream's own part as it is. -/
theorem ofStream_sorted {batch : List PhysicalEntry}
    (h : ∀ s, (ofStream s (batch.map PhysicalEntry.position)).Pairwise
      fun p q => entryIdSortKey p.entryId < entryIdSortKey q.entryId) (s : Str) :
    ofStream s ((batch.insertionSort batchLe).map PhysicalEntry.position) =
      ofStream s (batch.map PhysicalEntry.position) := by
  rw [ofStream_positions, ofStream_positions]
  congr 1
  apply Tail.filter_insertionSort
  have hs := h s
  rw [ofStream_positions, List.pairwise_map] at hs
  exact hs.imp fun hab => hab.le

theorem pairwise_sorted (batch : List PhysicalEntry) : (batch.insertionSort batchLe).Pairwise batchLe := by
  have : Std.Total batchLe := ⟨fun a b => le_total a.sortKey b.sortKey⟩
  have : IsTrans PhysicalEntry batchLe := ⟨fun _ _ _ hab hbc => le_trans (α := IdKey) hab hbc⟩
  exact List.pairwise_insertionSort batchLe batch

/-- A round continues what was seen, in order, with entries of the streams. -/
theorem pollPhysical_sound {reader : MergedReader} {logs : Logs} (h : Sound starts logs reader.cursors seen)
    (hcov : ∀ s ∈ reader.streams, (starts s).isSome) (traffic : Traffic) (count : Nat) :
    let r := reader.pollPhysical logs traffic count
    Sound starts r.1 r.2.1.cursors (seen ++ r.2.2.map PhysicalEntry.position) ∧ Genuine r.1 r.2.2 ∧
      (∀ s, logs s ⊆ r.1 s) ∧ Ordered (r.2.2.map PhysicalEntry.position) := by
  have hstart : Round.Sound starts seen logs ⟨logs, reader.cursors, []⟩ :=
    ⟨by simpa using h, fun e he => (by cases he), fun s => List.Subset.refl _⟩
  have hall : ∀ p ∈ reader.streams.zipIdx, (starts p.1).isSome := fun p hp =>
    hcov p.1 (List.fst_mem_of_mem_zipIdx hp)
  obtain ⟨hsound, hgen, hgrow⟩ := foldl_pollStream_sound traffic count hall hstart
  unfold MergedReader.pollPhysical
  simp only
  generalize reader.streams.zipIdx.foldl (MergedReader.pollStream traffic count) ⟨logs, reader.cursors, []⟩ = r at *
  have hasc : ∀ s, (ofStream s (r.batch.map PhysicalEntry.position)).Pairwise
      fun p q => entryIdSortKey p.entryId < entryIdSortKey q.entryId := by
    intro s
    have hs := hsound.ascending s
    rw [ofStream_append] at hs
    exact (List.pairwise_append.1 hs).2.1
  refine ⟨hsound.reorder fun s => ?_, ?_, hgrow, ?_, fun s => ?_⟩
  · rw [ofStream_append, ofStream_append, ofStream_sorted hasc]
  · exact fun e he => hgen e ((List.mem_insertionSort batchLe).1 he)
  · rw [List.pairwise_map]
    exact pairwise_sorted r.batch
  · rw [ofStream_sorted hasc]
    exact hasc s

end Rounds

/-! ## New streams -/

section Adding

variable {logs : Logs} {traffic : Traffic} {fromZero : Bool}

theorem update_lookup (cursors : Cursors) (t start : Str) :
    Function.update cursors.lookup t (some start) = (cursors.insert t start).lookup := by
  funext s
  by_cases hs : s = t
  · subst hs
    rw [Function.update_self, AList.lookup_insert]
  · rw [Function.update_of_ne hs, AList.lookup_insert_ne hs]

theorem newStream_sound {acc : Logs × Cursors} (h : Sound acc.2.lookup acc.1 acc.2 []) (p : Str × Nat) :
    let r := MergedReader.newStream traffic fromZero acc p
    Sound r.2.lookup r.1 r.2 [] := by
  have hs := (h.before traffic p.2).start (t := p.1) (by simp) (traffic.fails p.2) fromZero
  rwa [update_lookup] at hs

theorem new_sound (h : ∀ s, Tail.Increasing Item.key (logs s)) (traffic : Traffic) (streams : List Str)
    (fromZero : Bool) :
    let r := MergedReader.new logs traffic streams fromZero
    Sound r.2.cursors.lookup r.1 r.2.cursors [] ∧ ∀ s ∈ r.2.streams, (r.2.cursors.lookup s).isSome := by
  have hfold : ∀ (ps : List (Str × Nat)) (acc : Logs × Cursors), Sound acc.2.lookup acc.1 acc.2 [] →
      let r := ps.foldl (MergedReader.newStream traffic fromZero) acc
      Sound r.2.lookup r.1 r.2 [] ∧
        ∀ s, (s ∈ ps.map Prod.fst ∨ (acc.2.lookup s).isSome) → (r.2.lookup s).isSome := by
    intro ps
    induction ps with
    | nil => exact fun acc hacc => ⟨hacc, fun s hs => by simpa using hs⟩
    | cons p ps ih =>
      intro acc hacc
      obtain ⟨hs, hcov⟩ := ih _ (newStream_sound hacc p)
      refine ⟨hs, fun s hs => hcov s ?_⟩
      by_cases hsp : s = p.1
      · subst hsp
        exact Or.inr (by rw [MergedReader.newStream, AList.lookup_insert]; rfl)
      · rcases hs with hs | hs
        · exact Or.inl (by simpa [hsp] using hs)
        · exact Or.inr (by rwa [MergedReader.newStream, AList.lookup_insert_ne hsp])
  have hempty : Sound (∅ : Cursors).lookup logs ∅ [] :=
    ⟨h, fun s start hs => (by simp at hs), fun s hs => (by simp at hs), fun p hp => (by cases hp)⟩
  obtain ⟨hs, hcov⟩ := hfold streams.zipIdx (logs, ∅) hempty
  have hstreams : (MergedReader.new logs traffic streams fromZero).2.streams = streams := rfl
  refine ⟨hs, fun s hmem => hcov s (Or.inl ?_)⟩
  rwa [List.zipIdx_map_fst, ← hstreams]

/-- The invariant of the loop over the candidates: the streams covered before keep their cursors. -/
structure Adding.Sound (starts : Str → Option Str) (reader : MergedReader) (logs : Logs)
    (seen : List PhysicalPosition) (r : Adding) : Prop where
  sound : Client.Sound (fun s => (starts s).or (r.reader.cursors.lookup s)) r.logs r.reader.cursors seen
  covered : ∀ s ∈ r.reader.streams, (r.reader.cursors.lookup s).isSome
  grown : ∀ s, logs s ⊆ r.logs s
  kept : ∀ s cursor, reader.cursors.lookup s = some cursor → r.reader.cursors.lookup s = some cursor

/-- An uncovered name has no start. -/
theorem Adding.Sound.starts_eq_none {starts : Str → Option Str} {reader : MergedReader} {seen : List PhysicalPosition}
    {r : Adding} (h : r.Sound starts reader logs seen) {t : Str} (hnone : r.reader.cursors.lookup t = none) :
    starts t = none := by
  cases hs : starts t with
  | none => rfl
  | some start =>
    obtain ⟨cursor, hc, _⟩ := h.sound.follows t start (by simp [hs])
    rw [hnone] at hc
    cases hc

theorem or_lookup_insert {starts : Str → Option Str} {t : Str} (h : starts t = none) (cursors : Cursors) (start : Str) :
    Function.update (fun s => (starts s).or (cursors.lookup s)) t (some start) =
      fun s => (starts s).or ((cursors.insert t start).lookup s) := by
  funext s
  by_cases hst : s = t
  · subst hst
    rw [Function.update_self, AList.lookup_insert, h]
    rfl
  · rw [Function.update_of_ne hst, AList.lookup_insert_ne hst]

theorem addStream_sound {starts : Str → Option Str} {reader : MergedReader} {seen : List PhysicalPosition} {r : Adding}
    (h : r.Sound starts reader logs seen) (p : Str × Nat) :
    Adding.Sound starts reader logs seen (MergedReader.addStream traffic fromZero r p) := by
  unfold MergedReader.addStream
  split
  · exact h
  rename_i hnew
  have hnone : r.reader.cursors.lookup p.1 = none := by simpa using hnew
  have hstart := h.starts_eq_none hnone
  have hunseen : ∀ q ∈ seen, q.stream ≠ p.1 := fun q hq heq => by
    have := h.sound.covered q hq
    rw [heq, hstart, hnone] at this
    cases this
  have hs := (h.sound.before traffic p.2).start hunseen (traffic.fails p.2) fromZero
  rw [or_lookup_insert hstart] at hs
  refine ⟨hs, fun s hmem => ?_, fun s => ?_, fun s cursor hc => ?_⟩
  · by_cases hsp : s = p.1
    · subst hsp
      rw [AList.lookup_insert]
      rfl
    · rw [AList.lookup_insert_ne hsp]
      exact h.covered s (by simpa [hsp] using hmem)
  · exact List.Subset.trans (h.grown s) (traffic.subset_before p.2 r.logs s)
  · have hold := h.kept s cursor hc
    have hsp : s ≠ p.1 := fun hsp => by
      rw [hsp, hnone] at hold
      cases hold
    rwa [AList.lookup_insert_ne hsp]

theorem addStreams_sound {starts : Str → Option Str} {reader : MergedReader} {seen : List PhysicalPosition}
    (h : Sound starts logs reader.cursors seen) (hcov : ∀ s ∈ reader.streams, (starts s).isSome) (traffic : Traffic)
    (candidates : List Str) (fromZero : Bool) :
    Adding.Sound starts reader logs seen (reader.addStreams logs traffic candidates fromZero) := by
  have hfold : ∀ (ps : List (Str × Nat)) (r : Adding), r.Sound starts reader logs seen →
      Adding.Sound starts reader logs seen (ps.foldl (MergedReader.addStream traffic fromZero) r) := by
    intro ps
    induction ps with
    | nil => exact fun r hr => hr
    | cons p ps ih => exact fun r hr => ih _ (addStream_sound hr p)
  have hlook : ∀ s, (starts s).isSome → ∃ cursor, reader.cursors.lookup s = some cursor := fun s hs => by
    obtain ⟨start, hstart⟩ := Option.isSome_iff_exists.1 hs
    obtain ⟨cursor, hc, _⟩ := h.follows s start hstart
    exact ⟨cursor, hc⟩
  -- all cursors have a start, so the loop begins with the old starts
  have heq : (fun s => (starts s).or (reader.cursors.lookup s)) = starts := by
    funext s
    cases hs : starts s with
    | some start => rfl
    | none =>
      cases hl : reader.cursors.lookup s with
      | none => rfl
      | some cursor =>
        have := h.known s (by rw [hl]; rfl)
        rw [hs] at this
        cases this
  refine hfold _ _ ⟨by simpa only [heq] using h, fun s hs => ?_, fun s => List.Subset.refl _, fun s cursor hc => hc⟩
  obtain ⟨cursor, hc⟩ := hlook s (hcov s hs)
  exact Option.isSome_iff_exists.2 ⟨cursor, hc⟩

end Adding

/-! ## Every interleaving -/

/-- The entries of a reply are entries of the streams. -/
def Reply.Genuine (texts : Texts) (logs : Logs) : Reply → Prop
  | physical batch => Client.Genuine logs batch
  | plain batch => ∃ physical, Client.Genuine logs physical ∧ batch = physical.map (Entry.ofPhysical texts)

theorem Reply.Genuine.mono {texts : Texts} {logs logs' : Logs} {reply : Reply} (h : reply.Genuine texts logs)
    (hs : ∀ s, logs s ⊆ logs' s) : reply.Genuine texts logs' := by
  cases reply with
  | physical batch => exact Client.Genuine.mono h hs
  | plain batch =>
    obtain ⟨physical, hp, heq⟩ := h
    exact ⟨physical, hp.mono hs, heq⟩

theorem Reply.positions_plain (texts : Texts) (batch : List PhysicalEntry) :
    (Reply.plain (batch.map (Entry.ofPhysical texts))).positions = batch.map PhysicalEntry.position := by
  simp [Reply.positions, Entry.ofPhysical, PhysicalEntry.position]

namespace World

/-- The invariant of the runs. -/
structure Sound (texts : Texts) (w : World) : Prop where
  sound : Client.Sound w.starts w.logs w.reader.cursors w.seen
  covered : ∀ s ∈ w.reader.streams, (w.starts s).isSome
  replies : ∀ reply ∈ w.replies, Ordered reply.positions ∧ reply.Genuine texts w.logs

variable {texts : Texts} {w : World}

theorem sound_of_fresh (h : w.Fresh) : w.Sound texts := by
  obtain ⟨logs, traffic, streams, fromZero, hinc, hw, hstarts, hreplies⟩ := h
  obtain ⟨hsound, hcov⟩ := new_sound hinc traffic streams fromZero
  rw [← hw] at hsound hcov
  have hseen : w.seen = [] := by rw [seen, hreplies]; rfl
  refine ⟨?_, ?_, ?_⟩
  · rw [hseen, hstarts]
    exact hsound
  · rw [hstarts]
    exact hcov
  · rw [hreplies]
    exact fun reply hr => (by cases hr)

/-- A round that returns this reply. -/
theorem Sound.round (h : w.Sound texts) {logs : Logs} {reader : MergedReader} (reply : Reply)
    (hs : Client.Sound w.starts logs reader.cursors (w.seen ++ reply.positions))
    (hstreams : reader.streams = w.reader.streams)
    (hg : reply.Genuine texts logs) (hgrow : ∀ s, w.logs s ⊆ logs s) (ho : Ordered reply.positions) :
    Sound texts { w with logs := logs, reader := reader, replies := w.replies ++ [reply] } where
  sound := by
    have hseen : seen { w with logs := logs, reader := reader, replies := w.replies ++ [reply] } =
        w.seen ++ reply.positions := by simp [seen]
    rw [hseen]
    exact hs
  covered s hmem := h.covered s (by rwa [← hstreams])
  replies r hr := by
    rcases List.mem_append.1 hr with hr | hr
    · exact ⟨(h.replies r hr).1, (h.replies r hr).2.mono hgrow⟩
    · rw [List.mem_singleton.1 hr]
      exact ⟨ho, hg⟩

theorem Sound.step (h : w.Sound texts) (act : Act) : (w.step texts act).Sound texts := by
  cases act with
  | append stream item =>
    exact ⟨h.sound.append (stream, item), h.covered, fun r hr =>
      ⟨(h.replies r hr).1, (h.replies r hr).2.mono (w.logs.subset_append (stream, item))⟩⟩
  | pollPhysical count traffic =>
    obtain ⟨hs, hg, hgrow, ho⟩ := pollPhysical_sound h.sound h.covered traffic count
    exact h.round (.physical _) hs rfl hg hgrow ho
  | poll count traffic =>
    obtain ⟨hs, hg, hgrow, ho⟩ := pollPhysical_sound h.sound h.covered traffic count
    rw [← Reply.positions_plain texts] at hs ho
    exact h.round (.plain _) hs rfl ⟨_, hg, rfl⟩ hgrow ho
  | addStreams candidates fromZero traffic =>
    obtain ⟨hs, hcov, hgrow, _⟩ := addStreams_sound h.sound h.covered traffic candidates fromZero
    refine ⟨hs, fun s hmem => ?_, fun r hr => ⟨(h.replies r hr).1, (h.replies r hr).2.mono hgrow⟩⟩
    have hsome := hcov s hmem
    show ((w.starts s).or _).isSome
    rw [Option.isSome_or, Bool.or_eq_true]
    exact Or.inr hsome

theorem sound_of_reach (h : w.Reach texts) : w.Sound texts :=
  Machine.Reach.invariant (fun _ hw => sound_of_fresh hw)
    (fun _ act _ _ _ hstep hw => by
      subst hstep
      exact hw.step act) h

end World

/-- The merged reader neither loses nor repeats entries. In every interleaving of appends, rounds (requests may fail)
and additions, for each covered stream the entries returned so far are one contiguous run of the stream: those after its
start cursor and up to its current one. Adding streams moves no cursor of a covered stream, and every batch is in the
order of the numeric IDs, strictly within each stream. -/
theorem merged_reader_exact (texts : Texts) {w : World} (h : w.Reach texts) :
    (∀ s ∈ w.reader.streams, ∃ start cursor a c old run new,
      w.starts s = some start ∧ w.reader.cursors.lookup s = some cursor ∧
      cursorKey start = some a ∧ cursorKey cursor = some c ∧ a ≤ c ∧
      w.logs s = old ++ run ++ new ∧ (∀ e ∈ old, e.key ≤ a) ∧ (∀ e ∈ run, a < e.key ∧ e.key ≤ c) ∧
      (∀ e ∈ new, c < e.key) ∧ ofStream s w.seen = run.map (Item.position s)) ∧
    (∀ traffic candidates fromZero s cursor, w.reader.cursors.lookup s = some cursor →
      (w.reader.addStreams w.logs traffic candidates fromZero).reader.cursors.lookup s = some cursor) ∧
    ∀ reply ∈ w.replies, Ordered reply.positions ∧ reply.Genuine texts w.logs := by
  have hw := World.sound_of_reach h
  refine ⟨fun s hs => ?_, fun traffic candidates fromZero s cursor hc => ?_, hw.replies⟩
  · obtain ⟨start, hstart⟩ := Option.isSome_iff_exists.1 (hw.covered s hs)
    obtain ⟨cursor, hcursor, a, c, ha, hc, hac, _, hseen⟩ := hw.sound.follows s start hstart
    obtain ⟨old, new, hlog, hold, hnew⟩ := Tail.exists_eq_append_between (hw.sound.increasing s) hac
    refine ⟨start, cursor, a, c, old, _, new, hstart, hcursor, ha, hc, hac, hlog, hold, fun e he => ?_, hnew, hseen⟩
    simpa using (List.mem_filter.1 he).2
  · exact (addStreams_sound hw.sound hw.covered traffic candidates fromZero).kept s cursor hc

/-- A server with the entry `1-0` of a stream `a`, and the entry `2-0` that arrives during a round. -/
def sampleItem (ms : Nat) (h : 0 < ms ∧ ms ≤ u64Max) : Item :=
  ⟨⟨ms, 0, h.2, by decide, Or.inl (by omega)⟩, fun _ => none⟩

def sampleTexts : Texts := ⟨fun bytes => bytes.map fun b => Char.ofNat b.toNat, fun _ => []⟩

def sampleTraffic : Traffic := ⟨fun i => if i = 1 then [(['a'], sampleItem 2 (by decide))] else [], fun _ => false⟩

/-- The reader was given the stream twice, so that a round reads it twice. -/
def sampleWorld : World :=
  let logs : Logs := fun s => if s = ['a'] then [sampleItem 1 (by decide)] else []
  let r := MergedReader.new logs ⟨fun _ => [], fun _ => false⟩ [['a'], ['a']] true
  ⟨r.1, r.2, r.2.cursors.lookup, []⟩

theorem merged_reader_exact_sample :
    ∃ w, World.Reach sampleTexts w ∧ w.seen = [⟨['a'], "1-0".toList⟩, ⟨['a'], "2-0".toList⟩] ∧
      ∀ reply ∈ w.replies, Ordered reply.positions := by
  have hfresh : sampleWorld.Fresh := by
    refine ⟨_, _, _, _, fun s => ?_, rfl, rfl, rfl⟩
    by_cases hs : s = ['a']
    · simp [hs, Tail.Increasing]
    · simp [hs, Tail.Increasing]
  have hallowed : sampleWorld.Allowed (.pollPhysical 1 sampleTraffic) := le_refl 1
  have hreach : World.Reach sampleTexts (sampleWorld.step sampleTexts (.pollPhysical 1 sampleTraffic)) :=
    (Machine.Reach.start hfresh).next hallowed rfl
  exact ⟨_, hreach, by decide +kernel, fun reply hr => ((merged_reader_exact sampleTexts hreach).2.2 reply hr).1⟩

end EventStream.Client

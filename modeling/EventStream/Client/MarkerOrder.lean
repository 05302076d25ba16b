import EventStream.Client.Control
import EventStream.Client.Merged

/-!
# The order of the markers

Markers are returned in the order of the text of their entry IDs, while a stream is ordered by the numbers in them. The
two orders differ where numbers have different lengths.

- `controlReplies_nodup` and `controlReplies_increasing`: each control stream is read once, in its order;
- `markersOf_stream`: the markers of a stream among those of all;
- `gap_markers_ordered_iff`: the markers come in the order of the streams exactly if the text of the IDs that were read
  does.
-/

namespace EventStream.Client

open Text (Str)

/-! ## The replies -/

section Replies

variable {masters : List (Option (List Str))} {logs : Logs} {traffic : Traffic} {cursor : Str}

theorem discoverAll_nodup (masters : List (Option (List Str))) : (discoverAll masters).Nodup :=
  (List.perm_insertionSort _ _).nodup_iff.2 (List.nodup_dedup _)

/-- What the loop over the control streams keeps: the streams in their order, and replies with increasing IDs, of
streams it has come to. -/
structure Replied (names : List Str) (acc : Logs × List (Str × List Item)) : Prop where
  logs : ∀ s, Tail.Increasing Item.key (acc.1 s)
  replies : ∀ r ∈ acc.2, Tail.Increasing Item.key r.2
  names : (acc.2.map Prod.fst).Sublist names

theorem Replied.read {names : List Str} {acc : Logs × List (Str × List Item)} (h : Replied names acc) (p : Str × Nat) :
    Replied (names ++ [p.1]) (readControl traffic cursor acc p) := by
  have hlogs := traffic.increasing_before p.2 h.logs
  have hskip : Replied (names ++ [p.1]) (traffic.before p.2 acc.1, acc.2) :=
    ⟨hlogs, h.replies, h.names.trans (List.sublist_append_left _ _)⟩
  rw [readControl]
  split
  · exact hskip
  cases hread : xreadAll (traffic.before p.2 acc.1 p.1) cursor with
  | none => exact hskip
  | some items =>
    refine ⟨hlogs, ?_, ?_⟩
    · intro r hr
      rcases List.mem_append.1 hr with hold | hnew
      · exact h.replies r hold
      · rw [List.mem_singleton.1 hnew]
        obtain ⟨c, -, rfl⟩ := Option.map_eq_some_iff.1 hread
        exact (hlogs p.1).filter _
    · rw [List.map_append]
      exact h.names.append (List.Sublist.refl _)

theorem Replied.foldl {names : List Str} {acc : Logs × List (Str × List Item)} (h : Replied names acc)
    (ps : List (Str × Nat)) : Replied (names ++ ps.map Prod.fst) (ps.foldl (readControl traffic cursor) acc) := by
  induction ps generalizing names acc with
  | nil => simpa using h
  | cons p ps ih => simpa using ih (h.read p)

theorem replied (hlogs : ∀ s, Tail.Increasing Item.key (logs s)) :
    Replied (controlStreams masters)
      ((controlStreams masters).zipIdx.foldl (readControl traffic cursor) (logs, [])) := by
  have hstart : Replied [] (logs, []) := ⟨hlogs, by simp, by simp⟩
  simpa [List.zipIdx_map_fst] using hstart.foldl (controlStreams masters).zipIdx

theorem controlReplies_nodup (hlogs : ∀ s, Tail.Increasing Item.key (logs s)) :
    ((controlReplies masters logs traffic cursor).map Prod.fst).Nodup :=
  ((discoverAll_nodup masters).filter _).sublist (replied hlogs).names

end Replies

/-! ## The markers of a stream -/

theorem mem_markersOf {texts : Texts} {replies : List (Str × List Item)} {m : GapMarker} :
    m ∈ markersOf texts replies ↔ ∃ r ∈ replies, ∃ item ∈ r.2, GapMarker.ofItem texts r.1 item = m := by
  simp only [markersOf, List.mem_flatMap, List.mem_map]

theorem filter_ofItem (texts : Texts) (s t : Str) (items : List Item) :
    (items.map (GapMarker.ofItem texts t)).filter (·.stream = s) =
      if t = s then items.map (GapMarker.ofItem texts t) else [] := by
  by_cases h : t = s
  · rw [if_pos h, List.filter_eq_self]
    intro m hm
    obtain ⟨item, -, rfl⟩ := List.mem_map.1 hm
    exact decide_eq_true h
  · rw [if_neg h, List.filter_eq_nil_iff]
    intro m hm
    obtain ⟨item, -, rfl⟩ := List.mem_map.1 hm
    exact fun heq => h (of_decide_eq_true heq)

/-- The markers of a stream that was read once stand in its order. -/
theorem markersOf_stream (texts : Texts) {replies : List (Str × List Item)} (h : (replies.map Prod.fst).Nodup)
    {r : Str × List Item} (hr : r ∈ replies) :
    (markersOf texts replies).filter (·.stream = r.1) = r.2.map (GapMarker.ofItem texts r.1) := by
  induction replies with
  | nil => cases hr
  | cons r₀ replies ih =>
    rw [List.map_cons, List.nodup_cons] at h
    rw [markersOf, List.flatMap_cons, List.filter_append, filter_ofItem]
    rcases List.mem_cons.1 hr with rfl | hr'
    · have hnone : (markersOf texts replies).filter (·.stream = r.1) = [] := by
        rw [List.filter_eq_nil_iff]
        intro m hm heq
        obtain ⟨r', hr', item, -, rfl⟩ := mem_markersOf.1 hm
        exact h.1 (List.mem_map.2 ⟨r', hr', of_decide_eq_true heq⟩)
      rw [if_pos rfl, ← markersOf, hnone, List.append_nil]
    · have hne : r₀.1 ≠ r.1 := by
        intro heq
        exact h.1 (List.mem_map.2 ⟨r, hr', heq.symm⟩)
      rw [if_neg hne, List.nil_append, ← markersOf, ih h.2 hr']

theorem pairwise_idLe (markers : List GapMarker) : (markers.insertionSort idLe).Pairwise idLe := by
  have : Std.Total idLe := ⟨fun a b => le_total a.id b.id⟩
  have : IsTrans GapMarker idLe := ⟨fun _ _ _ hab hbc => le_trans (α := Str) hab hbc⟩
  exact List.pairwise_insertionSort idLe markers

/-! ## The order of all markers -/

/-- The text of IDs orders the entries of some replies as their numbers do. -/
def TextOrdered (replies : List (Str × List Item)) : Prop :=
  ∀ r ∈ replies, ∀ r' ∈ replies, ∀ a ∈ r.2, ∀ b ∈ r'.2, a.key < b.key → a.id.text ≤ b.id.text

/-- Markers in the order of the logs: those of each stream as they were written, all by their numbers, and so that the
restarts inferred for a stream are those of what was written. -/
structure LogOrdered (texts : Texts) (replies : List (Str × List Item)) (out : List GapMarker) : Prop where
  streams : ∀ r ∈ replies, out.filter (·.stream = r.1) = r.2.map (GapMarker.ofItem texts r.1)
  numeric : out.Pairwise fun a b => entryIdSortKey a.id ≤ entryIdSortKey b.id
  restarts : ∀ r ∈ replies, (assessRestartBoundaries out).filter (·.stream = r.1) =
    assessRestartBoundaries (r.2.map (GapMarker.ofItem texts r.1))

section Order

variable {texts : Texts} {replies : List (Str × List Item)}

theorem entryIdSortKey_ofItem (t : Str) (item : Item) : entryIdSortKey (GapMarker.ofItem texts t item).id = item.key :=
  entryIdSortKey_text item.id

theorem mem_sorted {m : GapMarker} : m ∈ (markersOf texts replies).insertionSort idLe ↔
    ∃ r ∈ replies, ∃ item ∈ r.2, GapMarker.ofItem texts r.1 item = m := by
  rw [List.mem_insertionSort, mem_markersOf]

/-- In a list that has both orders, the numbers and the texts of any two IDs agree. -/
theorem textOrdered_of_numeric (h : ((markersOf texts replies).insertionSort idLe).Pairwise
    fun a b => entryIdSortKey a.id ≤ entryIdSortKey b.id) : TextOrdered replies := by
  let both : GapMarker → GapMarker → Prop := fun a b => idLe a b ∧ entryIdSortKey a.id ≤ entryIdSortKey b.id
  let either : GapMarker → GapMarker → Prop := fun a b => both a b ∨ both b a
  have hsorted : ((markersOf texts replies).insertionSort idLe).Pairwise either :=
    ((pairwise_idLe _).and h).imp Or.inl
  have : Std.Symm either := ⟨fun _ _ => Or.symm⟩
  have hrefl : ∀ m ∈ (markersOf texts replies).insertionSort idLe, either m m :=
    fun m _ => .inl ⟨le_refl (α := Str) _, le_refl _⟩
  intro r hr r' hr' a ha b hb hlt
  have hpair := List.Pairwise.forall_of_forall hrefl hsorted (mem_sorted.2 ⟨r, hr, a, ha, rfl⟩)
    (mem_sorted.2 ⟨r', hr', b, hb, rfl⟩)
  rcases hpair with ⟨htext, -⟩ | ⟨-, hnum⟩
  · exact htext
  · rw [entryIdSortKey_ofItem, entryIdSortKey_ofItem] at hnum
    exact absurd hlt (not_lt.2 hnum)

theorem EntryId.key_eq_of_text {a b : EntryId} (h : a.text = b.text) : a.key = b.key := by
  rw [← entryIdSortKey_text a, ← entryIdSortKey_text b, h]

theorem numeric_of_textOrdered (h : TextOrdered replies) : ((markersOf texts replies).insertionSort idLe).Pairwise
    fun a b => entryIdSortKey a.id ≤ entryIdSortKey b.id := by
  refine (pairwise_idLe _).imp_of_mem ?_
  intro m m' hm hm' hle
  obtain ⟨r, hr, a, ha, rfl⟩ := mem_sorted.1 hm
  obtain ⟨r', hr', b, hb, rfl⟩ := mem_sorted.1 hm'
  rw [entryIdSortKey_ofItem, entryIdSortKey_ofItem]
  by_contra hlt
  -- The numbers say the opposite of the texts, so the texts are equal, and then the numbers are.
  have htext : b.id.text ≤ a.id.text := h r' hr' r hr b hb a ha (not_le.1 hlt)
  have heq : a.key = b.key := EntryId.key_eq_of_text (le_antisymm (α := Str) hle htext)
  exact hlt heq.le

theorem streams_of_textOrdered (texts : Texts) (h : TextOrdered replies) (hnodup : (replies.map Prod.fst).Nodup)
    (hinc : ∀ r ∈ replies, Tail.Increasing Item.key r.2) {r : Str × List Item} (hr : r ∈ replies) :
    ((markersOf texts replies).insertionSort idLe).filter (·.stream = r.1) = r.2.map (GapMarker.ofItem texts r.1) := by
  rw [Tail.filter_insertionSort, markersOf_stream texts hnodup hr]
  rw [markersOf_stream texts hnodup hr, List.pairwise_map]
  refine (hinc r hr).imp_of_mem ?_
  intro a b ha hb hlt
  exact h r hr r hr a ha b hb hlt

end Order

theorem readGapMarkers_eq {texts : Texts} {masters : List (Option (List Str))} {opens : Bool} {logs : Logs}
    {traffic : Traffic} {cursor : Str} {out : List GapMarker}
    (h : readGapMarkers texts masters opens logs traffic cursor = some out) :
    out = (markersOf texts (controlReplies masters logs traffic cursor)).insertionSort idLe := by
  rw [readGapMarkers] at h
  split at h
  · rename_i hnone
    rw [Option.some.injEq] at h
    rw [controlReplies, hnone, ← h]
    rfl
  · split at h
    · exact (Option.some.inj h).symm
    · cases h

/-- The markers come in the order of the logs exactly if the text of the IDs that were read is ordered as their numbers.
-/
theorem gap_markers_ordered_iff (texts : Texts) (masters : List (Option (List Str))) (opens : Bool) (logs : Logs)
    (traffic : Traffic) (cursor : Str) (hlogs : ∀ s, Tail.Increasing Item.key (logs s)) (out : List GapMarker)
    (hout : readGapMarkers texts masters opens logs traffic cursor = some out) :
    LogOrdered texts (controlReplies masters logs traffic cursor) out ↔
      TextOrdered (controlReplies masters logs traffic cursor) := by
  have hnodup : ((controlReplies masters logs traffic cursor).map Prod.fst).Nodup := controlReplies_nodup hlogs
  have hinc : ∀ r ∈ controlReplies masters logs traffic cursor, Tail.Increasing Item.key r.2 := (replied hlogs).replies
  rw [readGapMarkers_eq hout]
  constructor
  · intro h
    exact textOrdered_of_numeric h.numeric
  · intro h
    have hstreams : ∀ r ∈ controlReplies masters logs traffic cursor, _ :=
      fun r hr => streams_of_textOrdered texts h hnodup hinc hr
    refine ⟨hstreams, numeric_of_textOrdered h, ?_⟩
    intro r hr
    rw [assess_filter, hstreams r hr]

/-- An entry of a control stream in the fifth millisecond. -/
def controlItem (seq : Nat) (h : seq ≤ u64Max) (action generation : Str) : Item where
  id := ⟨5, seq, by decide, h, .inl (by decide)⟩
  fields name :=
    if name = "action".toList then some (.bulkString (Text.utf8 action))
    else if name = "generation".toList then some (.bulkString (Text.utf8 generation))
    else none

def controlName : Str := "events:#control".toList

/-- A module is unloaded and loaded again within a millisecond. -/
def restartItems (seq : Nat) (h : seq + 1 ≤ u64Max) : List Item :=
  [controlItem seq (by omega) unloading ['a'], controlItem (seq + 1) h loaded ['b']]

def restartLogs (seq : Nat) (h : seq + 1 ≤ u64Max) : Logs := fun s => if s = controlName then restartItems seq h else []

theorem restartLogs_increasing (seq : Nat) (h : seq + 1 ≤ u64Max) (s : Str) :
    Tail.Increasing Item.key (restartLogs seq h s) := by
  rw [restartLogs]
  split
  · refine List.pairwise_pair.2 ?_
    change toLex (5, seq) < toLex (5, seq + 1)
    rw [Prod.Lex.toLex_lt_toLex]
    exact .inr ⟨rfl, Nat.lt_succ_self seq⟩
  · exact List.Pairwise.nil

/-- With counters of one digit, the restart is seen as it was. -/
theorem gap_markers_ordered_single_digit :
    ∃ out, readGapMarkers sampleTexts [some [controlName]] true (restartLogs 8 (by decide)) .quiet zeroCursor =
        some out ∧
      LogOrdered sampleTexts [(controlName, restartItems 8 (by decide))] out := by
  have hreplies : controlReplies [some [controlName]] (restartLogs 8 (by decide)) .quiet zeroCursor =
      [(controlName, restartItems 8 (by decide))] := by
    rfl
  obtain ⟨out, hout⟩ : ∃ out, readGapMarkers sampleTexts [some [controlName]] true (restartLogs 8 (by decide))
      .quiet zeroCursor = some out := ⟨_, rfl⟩
  refine ⟨out, hout, ?_⟩
  rw [← hreplies]
  refine (gap_markers_ordered_iff sampleTexts [some [controlName]] true (restartLogs 8 (by decide)) .quiet
    zeroCursor (restartLogs_increasing 8 _) out hout).2 ?_
  rw [hreplies, TextOrdered]
  decide +kernel

/-- With counters of one and two digits, the load comes before the unload, and the restart is not seen. -/
theorem two_digits_misorder :
    (readGapMarkers sampleTexts [some [controlName]] true (restartLogs 9 (by decide)) .quiet zeroCursor).map
        (fun out => (out.map (·.id), assessRestartBoundaries out)) =
        some (["5-10".toList, "5-9".toList], []) ∧
      assessRestartBoundaries ((restartItems 9 (by decide)).map (GapMarker.ofItem sampleTexts controlName)) =
        [⟨controlName, "5-10".toList, ['a'], ['b'], .graceful⟩] := by
  decide +kernel

end EventStream.Client

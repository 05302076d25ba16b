import EventStream.Client.Reader
import Mathlib.Data.Char
import Mathlib.Data.List.Dedup
import Mathlib.Data.List.Lex
import Mathlib.Data.List.SplitBy

/-!
# The control streams

A module writes markers to its control stream: one when it is loaded, one when it is unloaded, and more in between. The
client reads the markers of all control streams and infers from them where a load of the module was followed by another.

- `GapMarker`, `discoverAll` and `readGapMarkers`: the markers, and the client's reading of them;
- `assessRestartBoundaries`: one pass over markers that keeps, for each stream, the last generation and whether it was
  closed;
- `assess_stream`: what is inferred for a stream depends on its own markers only;
- `track_run` and `track_runs`: the pass over a run of markers of one generation, and over several runs;
- `assess_exact`: the boundaries of a stream are read off its runs.
-/

namespace EventStream.Client

open Text (Str Bytes)

/-! ## Markers -/

structure GapMarker where
  stream : Str
  id : Str
  action : Str
  db : Option Int
  moduleVersion : Option Str
  generation : Option Str
  reason : Option Str
  checkpointMs : Option Nat
  resolvedEvents : Option Nat
  forwarded : Option Nat
  eventsLost : Option Nat
  dropped : Option Nat
  asyncEnqueued : Option Nat
  asyncQueueDepth : Option Int
  asyncDrainEvents : Option Nat
  asyncWorkerErrors : Option Nat
  handlerPanics : Option Nat
  lastErrorTime : Option Nat
  deriving DecidableEq

def loaded : Str := "loaded".toList

def unloading : Str := "unloading".toList

def GapMarker.closes (m : GapMarker) : Bool := m.action = unloading

/-- A marker from an entry of a control stream. -/
def GapMarker.ofItem (texts : Texts) (stream : Str) (item : Item) : GapMarker where
  stream := stream
  id := item.id.text
  action := (field "action".toList).getD []
  db := i64Field "db".toList
  moduleVersion := field "module-version".toList
  generation := field "generation".toList
  reason := field "reason".toList
  checkpointMs := u64Field "checkpoint-ms".toList
  resolvedEvents := u64Field "resolved-events".toList
  forwarded := u64Field "forwarded".toList
  eventsLost := u64Field "events-lost".toList
  dropped := u64Field "dropped".toList
  asyncEnqueued := u64Field "async-enqueued".toList
  asyncQueueDepth := i64Field "async-queue-depth".toList
  asyncDrainEvents := u64Field "async-drain-events".toList
  asyncWorkerErrors := u64Field "async-worker-errors".toList
  handlerPanics := u64Field "handler-panics".toList
  lastErrorTime := u64Field "last-error-time".toList
where
  field (name : Str) : Option Str :=
    match item.fields name with
    | some (.bulkString bytes) => some (texts.fromUtf8Lossy bytes)
    | some value => some (texts.debug value)
    | none => none
  u64Field (name : Str) : Option Nat := (field name).bind (Text.parseUnsigned u64Max)
  i64Field (name : Str) : Option Int := (field name).bind (Text.parseSigned i64Min i64Max)

/-! ## Reading the control streams -/

/-- The streams that the scans of the masters found, each once; a master that cannot be reached has none. -/
def discoverAll (masters : List (Option (List Str))) : List Str :=
  (masters.filterMap id).flatten.dedup.insertionSort (· ≤ ·)

def controlSuffix : Str := "#control".toList

/-- `XREAD STREAMS stream cursor`: all entries after the cursor. -/
def xreadAll (log : List Item) (cursor : Str) : Option (List Item) :=
  (cursorKey cursor).map fun c => log.filter fun e => c < e.key

/-- The read of one control stream; one that fails is skipped. -/
def readControl (traffic : Traffic) (cursor : Str) (acc : Logs × List (Str × List Item)) (p : Str × Nat) :
    Logs × List (Str × List Item) :=
  let logs := traffic.before p.2 acc.1
  if traffic.fails p.2 then (logs, acc.2)
  else
    match xreadAll (logs p.1) cursor with
    | none => (logs, acc.2)
    | some items => (logs, acc.2 ++ [(p.1, items)])

def controlStreams (masters : List (Option (List Str))) : List Str :=
  (discoverAll masters).filter fun s => controlSuffix <:+ s

/-- The replies of the control streams. -/
def controlReplies (masters : List (Option (List Str))) (logs : Logs) (traffic : Traffic) (cursor : Str) :
    List (Str × List Item) :=
  ((controlStreams masters).zipIdx.foldl (readControl traffic cursor) (logs, [])).2

/-- The order of the markers that are returned: that of the text of their IDs. -/
def idLe (a b : GapMarker) : Prop := a.id ≤ b.id

instance : DecidableRel idLe := fun a b => inferInstanceAs (Decidable (a.id ≤ b.id))

/-- The markers of all replies, as they are collected. -/
def markersOf (texts : Texts) (replies : List (Str × List Item)) : List GapMarker :=
  replies.flatMap fun r => r.2.map (GapMarker.ofItem texts r.1)

/-- The markers of the control streams after a cursor; nothing if there are some and no connection can be opened. -/
def readGapMarkers (texts : Texts) (masters : List (Option (List Str))) (opens : Bool) (logs : Logs) (traffic : Traffic)
    (cursor : Str) : Option (List GapMarker) :=
  if controlStreams masters = [] then some []
  else if opens then some ((markersOf texts (controlReplies masters logs traffic cursor)).insertionSort idLe)
  else none

/-! ## Restarts -/

inductive RestartBoundaryKind
  | graceful | uncertain
  deriving DecidableEq

structure RestartBoundary where
  stream : Str
  id : Str
  previousGeneration : Str
  generation : Str
  kind : RestartBoundaryKind
  deriving DecidableEq

/-- What the pass keeps of a stream: the last generation, and whether it was closed. -/
abbrev Cell := Option (Str × Bool)

/-- One marker of a generation: the new cell of its stream, and the boundary it makes. -/
def assessMarker (cell : Cell) (marker : GapMarker) (generation : Str) : (Str × Bool) × List RestartBoundary :=
  let r : (Str × Bool) × List RestartBoundary :=
    match cell with
    | none => ((generation, false), [])
    | some (previous, closed) =>
      if previous ≠ generation then
        ((generation, false),
          if marker.action = loaded then
            [{ stream := marker.stream
               id := marker.id
               previousGeneration := previous
               generation := generation
               kind := if closed then .graceful else .uncertain }]
          else [])
      else ((previous, closed), [])
  if marker.action = unloading ∧ r.1.1 = generation then ((r.1.1, true), r.2) else r

/-- One marker; those without a generation are skipped. -/
def assessStep (acc : (Str → Cell) × List RestartBoundary) (marker : GapMarker) :
    (Str → Cell) × List RestartBoundary :=
  match marker.generation with
  | none => acc
  | some generation =>
    let r := assessMarker (acc.1 marker.stream) marker generation
    (Function.update acc.1 marker.stream (some r.1), acc.2 ++ r.2)

def assessRestartBoundaries (markers : List GapMarker) : List RestartBoundary :=
  (markers.foldl assessStep (fun _ => none, [])).2

/-! ## One stream -/

/-- The pass over the markers of one stream. -/
def track (acc : Cell × List RestartBoundary) (marker : GapMarker) : Cell × List RestartBoundary :=
  match marker.generation with
  | none => acc
  | some generation =>
    let r := assessMarker acc.1 marker generation
    (some r.1, acc.2 ++ r.2)

section Marker

variable {m : GapMarker} {p g s : Str} {closed : Bool}

theorem assessMarker_none : assessMarker none m g = ((g, m.closes), []) := by
  by_cases h : m.action = unloading <;> simp [assessMarker, GapMarker.closes, h]

theorem assessMarker_same : assessMarker (some (g, closed)) m g = ((g, closed || m.closes), []) := by
  by_cases h : m.action = unloading <;> simp [assessMarker, GapMarker.closes, h]

theorem assessMarker_new (hne : p ≠ g) :
    assessMarker (some (p, closed)) m g = ((g, m.closes),
      if m.action = loaded then [⟨m.stream, m.id, p, g, if closed then .graceful else .uncertain⟩] else []) := by
  by_cases h : m.action = unloading <;> simp [assessMarker, GapMarker.closes, h, hne]

/-- A boundary is reported for the stream of the marker that makes it. -/
theorem stream_of_mem_assessMarker {cell : Cell} {b : RestartBoundary} (hb : b ∈ (assessMarker cell m g).2) :
    b.stream = m.stream := by
  cases cell with
  | none =>
    rw [assessMarker_none] at hb
    cases hb
  | some c =>
    obtain ⟨p, closed⟩ := c
    by_cases hp : p = g
    · subst hp
      rw [assessMarker_same] at hb
      cases hb
    · rw [assessMarker_new hp] at hb
      split at hb
      · rw [List.mem_singleton.1 hb]
      · cases hb

end Marker

/-- What a pass over all markers keeps and reports of a stream is what the pass over its own markers does. -/
theorem assess_track (markers : List GapMarker) (s : Str) (state : Str → Cell) (out : List RestartBoundary) :
    let all := markers.foldl assessStep (state, out)
    let own := (markers.filter (·.stream = s)).foldl track (state s, out.filter (·.stream = s))
    all.1 s = own.1 ∧ all.2.filter (·.stream = s) = own.2 := by
  induction markers generalizing state out with
  | nil => exact ⟨rfl, rfl⟩
  | cons m markers ih =>
    cases hg : m.generation with
    | none =>
      have hskip : assessStep (state, out) m = (state, out) := by simp [assessStep, hg]
      have hskip' : ∀ acc, track acc m = acc := by simp [track, hg]
      by_cases hs : m.stream = s <;> simpa [hs, hskip, hskip'] using ih state out
    | some g =>
      have hall : assessStep (state, out) m = (Function.update state m.stream
          (some (assessMarker (state m.stream) m g).1), out ++ (assessMarker (state m.stream) m g).2) := by
        simp [assessStep, hg]
      have hreported : ∀ b ∈ (assessMarker (state m.stream) m g).2, b.stream = m.stream :=
        fun b => stream_of_mem_assessMarker
      rw [List.foldl_cons, hall]
      by_cases hs : m.stream = s
      · subst hs
        have hkept : (assessMarker (state m.stream) m g).2.filter (·.stream = m.stream) =
            (assessMarker (state m.stream) m g).2 := by
          rw [List.filter_eq_self]
          intro b hb
          exact decide_eq_true (hreported b hb)
        have hown : track (state m.stream, out.filter (·.stream = m.stream)) m =
            (some (assessMarker (state m.stream) m g).1,
              out.filter (·.stream = m.stream) ++ (assessMarker (state m.stream) m g).2) := by
          simp [track, hg]
        have := ih (Function.update state m.stream (some (assessMarker (state m.stream) m g).1))
          (out ++ (assessMarker (state m.stream) m g).2)
        simpa [hown, hkept] using this
      · have hnone : (assessMarker (state m.stream) m g).2.filter (·.stream = s) = [] := by
          rw [List.filter_eq_nil_iff]
          intro b hb
          simpa [hreported b hb] using hs
        have := ih (Function.update state m.stream (some (assessMarker (state m.stream) m g).1))
          (out ++ (assessMarker (state m.stream) m g).2)
        simpa [hs, hnone, Function.update_of_ne (Ne.symm hs)] using this

theorem track_skip (acc : Cell × List RestartBoundary) (markers : List GapMarker) :
    markers.foldl track acc = (markers.filter (·.generation.isSome)).foldl track acc := by
  induction markers generalizing acc with
  | nil => rfl
  | cons m markers ih =>
    cases hg : m.generation with
    | none =>
      have hskip : track acc m = acc := by simp [track, hg]
      simp [hg, hskip, ih]
    | some g => simp [hg, ih]

/-- What is reported for a stream, from its own markers. -/
theorem assess_stream (markers : List GapMarker) (s : Str) :
    (assessRestartBoundaries markers).filter (·.stream = s) =
      ((markers.filter (·.stream = s)).foldl track (none, [])).2 :=
  (assess_track markers s (fun _ => none) []).2

/-- Only streams with markers are reported. -/
theorem stream_of_mem_assess {markers : List GapMarker} {b : RestartBoundary}
    (hb : b ∈ assessRestartBoundaries markers) : ∃ m ∈ markers, m.stream = b.stream := by
  have hmem : b ∈ (assessRestartBoundaries markers).filter (·.stream = b.stream) :=
    List.mem_filter.2 ⟨hb, decide_eq_true rfl⟩
  rw [assess_stream] at hmem
  cases hown : markers.filter (·.stream = b.stream) with
  | nil =>
    rw [hown] at hmem
    cases hmem
  | cons m rest =>
    have hm : m ∈ markers.filter (·.stream = b.stream) := by rw [hown]; exact List.mem_cons_self
    rw [List.mem_filter, decide_eq_true_eq] at hm
    exact ⟨m, hm⟩

/-- The markers of one stream are reported for that stream. -/
theorem assess_own {markers : List GapMarker} {s : Str} (h : ∀ m ∈ markers, m.stream = s) :
    assessRestartBoundaries markers = (markers.foldl track (none, [])).2 := by
  have hself : markers.filter (·.stream = s) = markers := by
    rw [List.filter_eq_self]
    exact fun m hm => decide_eq_true (h m hm)
  have hreported : (assessRestartBoundaries markers).filter (·.stream = s) = assessRestartBoundaries markers := by
    rw [List.filter_eq_self]
    intro b hb
    obtain ⟨m, hm, hstream⟩ := stream_of_mem_assess hb
    exact decide_eq_true (hstream.symm.trans (h m hm))
  rw [← hreported, assess_stream, hself]

/-- The other streams do not matter. -/
theorem assess_filter (markers : List GapMarker) (s : Str) :
    (assessRestartBoundaries markers).filter (·.stream = s) =
      assessRestartBoundaries (markers.filter (·.stream = s)) := by
  have hown : ∀ m ∈ markers.filter (·.stream = s), m.stream = s := by
    intro m hm
    exact of_decide_eq_true (List.mem_filter.1 hm).2
  rw [assess_stream, assess_own hown]

/-! ## Runs of one generation -/

/-- The generation of a run. -/
def genOf (run : List GapMarker) : Str := (run.head?.bind (·.generation)).getD []

/-- The markers of a stream that carry a generation, in maximal runs of one generation. -/
def runsOf (s : Str) (markers : List GapMarker) : List (List GapMarker) :=
  (markers.filter fun m => m.stream = s ∧ m.generation.isSome).splitBy fun a b => a.generation = b.generation

/-- The boundary between two runs, if the later one starts with a load. -/
def boundaryBetween (previous run : List GapMarker) : Option RestartBoundary :=
  run.head?.bind fun m =>
    if m.action = loaded then
      some
        { stream := m.stream
          id := m.id
          previousGeneration := genOf previous
          generation := genOf run
          kind := if previous.any GapMarker.closes then .graceful else .uncertain }
    else none

/-- A run: it is not empty, and all its markers are of its generation. -/
structure IsRun (run : List GapMarker) : Prop where
  ne_nil : run ≠ []
  generation : ∀ m ∈ run, m.generation = some (genOf run)

/-- Markers of the generation the cell has already. -/
theorem track_same {g : Str} {markers : List GapMarker} (h : ∀ m ∈ markers, m.generation = some g) (closed : Bool)
    (out : List RestartBoundary) :
    markers.foldl track (some (g, closed), out) = (some (g, closed || markers.any GapMarker.closes), out) := by
  induction markers generalizing closed with
  | nil => simp
  | cons m markers ih =>
    have hm : track (some (g, closed), out) m = (some (g, closed || m.closes), out) := by
      simp [track, h m List.mem_cons_self, assessMarker_same]
    rw [List.foldl_cons, hm, ih fun m' hm' => h m' (List.mem_cons_of_mem _ hm'), List.any_cons, Bool.or_assoc]

/-- The first run of a stream. -/
theorem track_first {run : List GapMarker} (h : IsRun run) (out : List RestartBoundary) :
    run.foldl track (none, out) = (some (genOf run, run.any GapMarker.closes), out) := by
  obtain ⟨m, rest, rfl⟩ := List.exists_cons_of_ne_nil h.ne_nil
  have hm : track (none, out) m = (some (genOf (m :: rest), m.closes), out) := by
    simp [track, h.generation m List.mem_cons_self, assessMarker_none]
  rw [List.foldl_cons, hm, track_same fun m' hm' => h.generation m' (List.mem_cons_of_mem _ hm'), List.any_cons]

/-- A run after another. -/
theorem track_next {previous run : List GapMarker} (h : IsRun run) (hne : genOf previous ≠ genOf run)
    (out : List RestartBoundary) :
    run.foldl track (some (genOf previous, previous.any GapMarker.closes), out) =
      (some (genOf run, run.any GapMarker.closes), out ++ (boundaryBetween previous run).toList) := by
  obtain ⟨m, rest, rfl⟩ := List.exists_cons_of_ne_nil h.ne_nil
  have hm : track (some (genOf previous, previous.any GapMarker.closes), out) m =
      (some (genOf (m :: rest), m.closes), out ++ (boundaryBetween previous (m :: rest)).toList) := by
    simp only [track, h.generation m List.mem_cons_self, assessMarker_new hne, boundaryBetween, List.head?_cons,
      Option.bind_some]
    split <;> rfl
  rw [List.foldl_cons, hm, track_same fun m' hm' => h.generation m' (List.mem_cons_of_mem _ hm'), List.any_cons]

/-- The runs after the first: each is compared with the one before it. -/
theorem track_runs {runs : List (List GapMarker)} (h : ∀ run ∈ runs, IsRun run) (previous : List GapMarker)
    (hne : (previous :: runs).IsChain fun a b => genOf a ≠ genOf b) (out : List RestartBoundary) :
    (runs.flatten.foldl track (some (genOf previous, previous.any GapMarker.closes), out)).2 =
      out ++ ((previous :: runs).zip runs).filterMap fun p => boundaryBetween p.1 p.2 := by
  induction runs generalizing previous out with
  | nil => simp
  | cons run runs ih =>
    rw [List.isChain_cons_cons] at hne
    rw [List.flatten_cons, List.foldl_append, track_next (h run List.mem_cons_self) hne.1,
      ih (fun r hr => h r (List.mem_cons_of_mem _ hr)) run hne.2, List.zip_cons_cons, List.filterMap_cons]
    cases boundaryBetween previous run <;> simp

/-! ## The runs of a stream -/

theorem flatten_runsOf (s : Str) (markers : List GapMarker) :
    (runsOf s markers).flatten = (markers.filter (·.stream = s)).filter (·.generation.isSome) := by
  rw [runsOf, List.flatten_splitBy, List.filter_filter]
  apply List.filter_congr
  intro m _
  simp [Bool.and_comm]

theorem isRun_of_mem_runsOf {s : Str} {markers run : List GapMarker} (h : run ∈ runsOf s markers) : IsRun run := by
  have hne : run ≠ [] := List.ne_nil_of_mem_splitBy h
  obtain ⟨m, rest, rfl⟩ := List.exists_cons_of_ne_nil hne
  refine ⟨hne, ?_⟩
  have hsome : m.generation.isSome := by
    have hm : m ∈ (runsOf s markers).flatten := List.mem_flatten.2 ⟨_, h, List.mem_cons_self⟩
    rw [flatten_runsOf] at hm
    exact (List.mem_filter.1 hm).2
  obtain ⟨g, hg⟩ := Option.isSome_iff_exists.1 hsome
  have hgen : genOf (m :: rest) = g := by simp [genOf, hg]
  -- Neighbours in a run have the same generation, so all have that of the first.
  have hchain : (m :: rest).IsChain fun a b => a.generation = b.generation := by
    simpa using List.isChain_of_mem_splitBy h
  have : IsTrans GapMarker fun a b => a.generation = b.generation := ⟨fun _ _ _ => Eq.trans⟩
  have hfirst := (List.pairwise_cons.1 (List.isChain_iff_pairwise.1 hchain)).1
  intro m' hm'
  rw [hgen, ← hg]
  rcases List.mem_cons.1 hm' with rfl | hrest
  · rfl
  · exact (hfirst m' hrest).symm

theorem runsOf_isChain (s : Str) (markers : List GapMarker) :
    (runsOf s markers).IsChain fun a b => genOf a ≠ genOf b := by
  have hchain : (runsOf s markers).IsChain _ := List.isChain_getLast_head_splitBy _ _
  refine hchain.imp_of_mem_imp ?_
  rintro a b ha hb ⟨hane, hbne, hdiff⟩ heq
  have hlast := (isRun_of_mem_runsOf ha).generation _ (List.getLast_mem hane)
  have hhead := (isRun_of_mem_runsOf hb).generation _ (List.head_mem hbne)
  rw [hlast, hhead, heq] at hdiff
  exact of_decide_eq_false hdiff rfl

/-- The boundaries of a stream: they depend on its own markers that carry a generation, and there is one for each run
after the first that starts with a load. -/
theorem assess_exact (markers : List GapMarker) (s : Str) :
    (assessRestartBoundaries markers).filter (·.stream = s) =
        assessRestartBoundaries (markers.filter (·.stream = s)) ∧
      assessRestartBoundaries (markers.filter (·.stream = s)) =
        assessRestartBoundaries ((markers.filter (·.stream = s)).filter (·.generation.isSome)) ∧
      (assessRestartBoundaries markers).filter (·.stream = s) =
        ((runsOf s markers).zip (runsOf s markers).tail).filterMap fun p => boundaryBetween p.1 p.2 := by
  have hown : ∀ m ∈ markers.filter (·.stream = s), m.stream = s := by
    intro m hm
    exact of_decide_eq_true (List.mem_filter.1 hm).2
  have hownGen : ∀ m ∈ (markers.filter (·.stream = s)).filter (·.generation.isSome), m.stream = s :=
    fun m hm => hown m (List.mem_filter.1 hm).1
  refine ⟨assess_filter markers s, ?_, ?_⟩
  · rw [assess_own hown, assess_own hownGen, track_skip]
  · rw [assess_stream, track_skip, ← flatten_runsOf]
    have hruns : ∀ run ∈ runsOf s markers, IsRun run := fun run => isRun_of_mem_runsOf
    have hchain := runsOf_isChain s markers
    cases hr : runsOf s markers with
    | nil => rfl
    | cons run runs =>
      rw [hr] at hruns hchain
      rw [List.flatten_cons, List.foldl_append, track_first (hruns run List.mem_cons_self),
        track_runs (fun r hr' => hruns r (List.mem_cons_of_mem _ hr')) run hchain, List.nil_append, List.tail_cons]

end EventStream.Client

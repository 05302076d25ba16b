import EventStream.ControlLog
import EventStream.Reload

/-!
# Restarts, as a client sees them

A server loads the module, unloads it, loads it again, and may crash at any moment and come back with whatever it had
persisted. All its generations write to the same control stream. A client reads what is left of the stream and tells the
graceful restarts from the uncertain ones.

* `deinit_controlLog`: what a generation has written after its end.
* `Era`, `Chronicle`: a server with the generations that have ended, whether by an unload or by a crash;
  `Chronicle.step` and `Chronicle.Sound`, which holds along all histories.
* `Chronicle.Reads`: what is left of a stream, any part of what each generation wrote; `restarts`: the restarts this
  shows.
* `restarts_assessed`: the client's assessment is exactly that, and a restart it calls graceful was one.
-/

namespace EventStream

open Text (Str Bytes utf8)

/-! ## The end of a generation -/

theorem ControlLog.closing {generation : Str} {trace : List Occurrence} (h : ControlLog generation false trace) :
    ControlLog generation true trace :=
  ⟨fun o ho hcontrol => have ⟨action, _, hsigned⟩ := h.signed o ho hcontrol; ⟨action, fun _ => rfl, hsigned⟩,
    h.loadedFirst⟩

/-- Calls of entries with one action are added. -/
theorem ControlLog.append {generation : Str} {trace new : List Occurrence} {action : Action}
    (h : ControlLog generation true trace) (hnew : ∀ o ∈ new, o.isControl = true → Signed generation action o)
    (hfirst : LoadedFirst (trace ++ new)) : ControlLog generation true (trace ++ new) := by
  refine ⟨fun o ho hcontrol => ?_, hfirst⟩
  rcases List.mem_append.1 ho with ho | ho
  · exact h.signed o ho hcontrol
  · exact ⟨action, fun _ => rfl, hnew o ho hcontrol⟩

theorem ControlLog.silent {generation : Str} {trace new : List Occurrence} (h : ControlLog generation true trace)
    (hnew : ∀ o ∈ new, o.isControl = false) : ControlLog generation true (trace ++ new) := by
  refine ⟨fun o ho hcontrol => ?_, h.loadedFirst.append fun o ho => ?_⟩
  · rcases List.mem_append.1 ho with ho | ho
    · exact h.signed o ho hcontrol
    · rw [hnew o ho] at hcontrol
      cases hcontrol
  · rw [Occurrence.isEntry, hnew o ho]
    rfl

/-- The probes of a slot are no entries. -/
theorem Probed.silent {st st' : State} (h : Probed st st') :
    st'.generationId = st.generationId ∧ ∃ probes, st'.trace = st.trace ++ probes ∧
    ∀ o ∈ probes, o.isControl = false := by
  obtain ⟨_, _, _, _, probes, rfl, -, hprobes⟩ := h
  refine ⟨rfl, probes, rfl, fun o ho => ?_⟩
  have hprobe := hprobes o ho
  cases o with
  | call why cmd ok =>
    cases why with
    | marker | checkpoint => cases hprobe
    | canonical | firehose | probe | dispatch | prune => rfl
  | cleared | pruned name => rfl

/-- Markers that are written one after the other, of which only the first may be `loaded`, and only in an empty log. -/
theorem writeMarkers_controlLog (env : Env) (control : Str) (retention : Retention) {markers : List Recorded}
    {st : State} (horder : markers.Pairwise fun m m' => m.ordinal < m'.ordinal)
    (hfirst : ∀ m ∈ markers, m.marker.action = .loaded → m.ordinal = 0)
    (hquiet : (∃ m ∈ markers, m.ordinal = 0) → ∀ o ∈ st.trace, o.isControl = false)
    (hlog : ControlLog st.generationId true st.trace) :
    (writeMarkers env st control retention markers).generationId = st.generationId ∧
      ControlLog st.generationId true (writeMarkers env st control retention markers).trace := by
  induction markers generalizing st with
  | nil => exact ⟨rfl, hlog⟩
  | cons m markers ih =>
    obtain ⟨hg, new, htrace, hone, hnew⟩ := writeMarker_calls env st control m.marker.action m.marker.db retention
    obtain ⟨hhead, htail⟩ := List.pairwise_cons.1 horder
    have hloaded : LoadedFirst (st.trace ++ new) := by
      by_cases ha : m.marker.action = .loaded
      · exact .of_quiet (hquiet ⟨m, List.mem_cons_self, hfirst m List.mem_cons_self ha⟩) hone
      · exact hlog.loadedFirst.signed (fun o ho _ => hnew o ho) ha
    have hnext := @ih (writeMarker env st control m.marker.action m.marker.db retention) htail
      (fun m' hm' => hfirst m' (List.mem_cons_of_mem _ hm')) ?_ ?_
    · rw [hg] at hnext
      exact hnext
    · rintro ⟨m', hm', hzero⟩
      have hlt := hhead m' hm'
      omega
    · rw [hg, htrace]
      exact hlog.append (fun o ho _ => hnew o ho) hloaded

/-- The markers of an unload: those that were pending, and `unloading`. -/
theorem closing_controlLog (env : Env) (control : Str) (retention : Retention) {markers : List Recorded} {st : State}
    (horder : markers.Pairwise fun m m' => m.ordinal < m'.ordinal)
    (hfirst : ∀ m ∈ markers, m.marker.action = .loaded → m.ordinal = 0)
    (hquiet : (∃ m ∈ markers, m.ordinal = 0) → ∀ o ∈ st.trace, o.isControl = false)
    (hlog : ControlLog st.generationId true st.trace) :
    let st' := writeMarker env (writeMarkers env st control retention markers) control .unloading none retention
    st'.generationId = st.generationId ∧ ControlLog st.generationId true st'.trace := by
  obtain ⟨hg, hlog'⟩ := writeMarkers_controlLog env control retention horder hfirst hquiet hlog
  generalize writeMarkers env st control retention markers = st₁ at hg hlog'
  obtain ⟨hg', new, htrace, -, hnew⟩ := writeMarker_calls env st₁ control .unloading none retention
  rw [hg] at hg' hnew
  refine ⟨hg', ?_⟩
  rw [htrace]
  exact hlog'.append (fun o ho _ => hnew o ho) (hlog'.loadedFirst.signed (fun o ho _ => hnew o ho) (by decide))

/-- What a generation has written when it is unloaded. -/
theorem deinit_controlLog {setup : Setup} {env : Env} {n : Node} (h : Node.Reach setup env (fun _ _ => True) n) :
    (Image.deinit env n.st).generationId = n.st.generationId ∧
      ControlLog n.st.generationId true (Image.deinit env n.st).trace := by
  have hopen := h.opening
  have hlog := h.controlLog.closing
  have hpending : ∀ m ∈ n.st.pendingMarkers, m ∈ n.left := fun m hm => List.mem_append_right _ hm
  have horder : n.st.pendingMarkers.Pairwise fun m m' => m.ordinal < m'.ordinal :=
    h.attempted_before.sublist ((List.sublist_append_right _ _).trans (List.sublist_append_right _ _))
  unfold Image.deinit
  split
  · exact ⟨rfl, hlog⟩
  · have hprobed := (tagSegment_probed env { n.st with pendingMarkers := [], markersDirty := false }).silent
    have hquiet : ∀ {st : State} {probes : List Occurrence}, st.trace = n.st.trace ++ probes →
        (∀ o ∈ probes, o.isControl = false) → (∃ m ∈ n.st.pendingMarkers, m.ordinal = 0) →
        ∀ o ∈ st.trace, o.isControl = false := by
      rintro st probes htrace hsilent ⟨m, hm, hzero⟩ o ho
      rw [htrace] at ho
      rcases List.mem_append.1 ho with ho | ho
      · exact hopen.quiet ⟨m, hpending m hm, hzero⟩ o ho
      · exact hsilent o ho
    simp only
    split
    · rename_i st he
      rw [he] at hprobed
      obtain ⟨hg, probes, htrace, hsilent⟩ := hprobed
      exact ⟨hg, htrace ▸ hlog.silent hsilent⟩
    · rename_i seg st he
      rw [he] at hprobed
      obtain ⟨hg, probes, htrace, hsilent⟩ := hprobed
      have hclose := closing_controlLog env (controlStreamOf st.config.pfx seg) (controlRetention st) horder
        (fun m hm ha => (hopen.first m (hpending m hm) (Or.inl ha)).1) (hquiet htrace hsilent)
        (by rw [hg, htrace]; exact hlog.silent hsilent)
      rw [hg] at hclose
      exact hclose

/-! ## Eras -/

/-- A generation: its node, and whether it was unloaded. -/
structure Era where
  setup : Setup
  env : Env
  node : Node
  closed : Bool

/-- The fields of a control entry that was added to a stream. -/
def Occurrence.entryOf (stream : Str) : Occurrence → Option (List Bytes)
  | .call .marker (.xadd key _ _ fields) true | .call .checkpoint (.xadd key _ _ fields) true =>
    if key = utf8 stream then some fields else none
  | _ => none

/-- The entry says this action. -/
def hasAction (action : Action) (fields : List Bytes) : Bool := fields[1]? = some (utf8 action.text)

namespace Era

def generation (e : Era) : Str := e.node.st.generationId

/-- What the generation added to a control stream. -/
def entries (e : Era) (stream : Str) : List (List Bytes) := e.node.st.trace.filterMap (Occurrence.entryOf stream)

/-- A run of the module, up to now or to a crash, or up to its unload. -/
def Ran (e : Era) : Prop :=
  ∃ n, Node.Reach e.setup e.env (fun _ _ => True) n ∧
    ((e.closed = false ∧ e.node = n) ∨
      (e.closed = true ∧ n.phase = .stopped ∧ e.node = n.note none (Image.deinit e.env n.st)))

theorem Ran.controlLog {e : Era} (h : e.Ran) : ControlLog e.generation e.closed e.node.st.trace := by
  obtain ⟨n, hn, ⟨hclosed, he⟩ | ⟨hclosed, -, he⟩⟩ := h
  · rw [generation, hclosed, he]
    exact hn.controlLog
  · obtain ⟨hg, hlog⟩ := deinit_controlLog hn
    rw [generation, hclosed, he]
    change ControlLog (Image.deinit e.env n.st).generationId true (Image.deinit e.env n.st).trace
    rw [hg]
    exact hlog

/-- A generation that was unloaded had stopped, and had settled all its events but those of a queue that no worker took.
-/
theorem Ran.stopped {e : Era} (h : e.Ran) (hc : e.closed = true) :
    e.node.phase = .stopped ∧ e.node.inFlight = e.node.queue := by
  obtain ⟨n, hn, ⟨hclosed, -⟩ | ⟨-, hphase, he⟩⟩ := h
  · rw [hclosed] at hc
    cases hc
  · rw [he]
    exact ⟨hphase, hn.stopped_inFlight hphase⟩

end Era

/-! ## The server -/

/-- A server with the module's image, and the generations that have ended. -/
structure Chronicle where
  image : Image
  past : List Era

namespace Chronicle

/-- The generation that runs, if there is one. -/
def running (c : Chronicle) : List Era :=
  match c.image.subscription with
  | none => []
  | some _ => [⟨c.image.settings.setup, c.image.env, c.image.node, false⟩]

/-- All generations, the oldest first. -/
def eras (c : Chronicle) : List Era := c.past ++ c.running

inductive Act
  | image (act : Image.Act)
  /-- The server dies, and a new process starts with what was persisted. -/
  | crash (env : Env) (ks : Keyspace) (master loading : Bool)

/-- The generation that a step of the image ends. -/
def ended (i : Image) : Image.Act → List Era
  | .unload => [⟨i.settings.setup, i.env, i.node, true⟩]
  | .load _ | .module _ | .set _ | .policy _ | .server _ _ _ => []

def step (c : Chronicle) : Act → Option Chronicle
  | .image act => (c.image.step act).map fun i => ⟨i, c.past ++ ended i act⟩
  | .crash env ks master loading => some ⟨.boot env ks master loading, c.eras⟩

/-- A load draws a name that no generation had. -/
def fresh (c : Chronicle) : Act → Prop
  | .image (.load l) => l.generation ∉ c.eras.map Era.generation
  | _ => True

instance (c : Chronicle) (act : Act) : Decidable (c.fresh act) :=
  match act with
  | .image (.load l) => inferInstanceAs (Decidable (l.generation ∉ c.eras.map Era.generation))
  | .image (.module _) | .image (.set _) | .image (.policy _) | .image .unload | .image (.server _ _ _)
  | .crash _ _ _ _ => .isTrue trivial

/-- The histories of a server whose generations have different names. -/
def Reach : Chronicle → Prop :=
  Machine.Reach (fun c act c' => step c act = some c') fresh fun c =>
    ∃ env ks master loading, c = ⟨.boot env ks master loading, []⟩

structure Sound (c : Chronicle) : Prop where
  image : c.image.Sound
  ran : ∀ e ∈ c.past, e.Ran
  names : (c.eras.map Era.generation).Nodup

variable {c c' : Chronicle}

theorem running_of_unloaded (h : c.image.subscription = none) : c.running = [] := by
  rw [running, h]

theorem running_of_loaded (h : c.image.subscription ≠ none) :
    c.running = [⟨c.image.settings.setup, c.image.env, c.image.node, false⟩] := by
  obtain ⟨mask, hm⟩ := Option.ne_none_iff_exists'.1 h
  rw [running, hm]

theorem Sound.all_ran (h : c.Sound) : ∀ e ∈ c.eras, e.Ran := by
  intro e he
  rcases List.mem_append.1 he with he | he
  · exact h.ran e he
  · by_cases hu : c.image.subscription = none
    · rw [running_of_unloaded hu] at he
      cases he
    · rw [running_of_loaded hu, List.mem_singleton] at he
      rw [he]
      exact ⟨_, (h.image.live hu).running, Or.inl ⟨rfl, rfl⟩⟩

/-- The image goes on, and the generations keep their names. -/
theorem Sound.going (h : c.Sound) {i : Image} (hi : i.Sound)
    (hnames : (running ⟨i, c.past⟩).map Era.generation = c.running.map Era.generation) : Sound ⟨i, c.past⟩ := by
  refine ⟨hi, h.ran, ?_⟩
  have hall := h.names
  rw [eras, List.map_append] at hall ⊢
  rw [hnames]
  exact hall

/-- A loaded image stays loaded, and its node keeps the name of the generation. -/
theorem Sound.running_step (h : c.Sound) {i : Image} (hi : i.Sound) (hm : c.image.subscription ≠ none)
    (hsub : i.subscription = c.image.subscription) (hg : i.node.st.generationId = c.image.node.st.generationId) :
    Sound ⟨i, c.past⟩ := by
  refine h.going hi ?_
  have hm' : (⟨i, c.past⟩ : Chronicle).image.subscription ≠ none := by
    rw [hsub]
    exact hm
  rw [running_of_loaded hm', running_of_loaded hm]
  simp only [List.map_cons, List.map_nil, Era.generation, hg]

/-- An image that is not loaded has no generation. -/
theorem Sound.idle_step (h : c.Sound) {i : Image} (hi : i.Sound) (hsub : i.subscription = none) :
    Sound ⟨i, c.past⟩ := by
  refine ⟨hi, h.ran, ?_⟩
  have hall := h.names
  rw [eras, List.map_append] at hall
  rw [eras, running_of_unloaded hsub, List.append_nil]
  exact (List.nodup_append.1 hall).1

theorem load_generation {l : Load} {i i' : Image} (hi : i.Ready) (h : i.load l = (.ok (), i')) :
    i'.node.st.generationId = l.generation := by
  rcases Image.load_cases l hi with ⟨r, i₁, he, -⟩ | ⟨settings, mode, risk, he, -⟩
  · rw [he] at h
    cases h
  · rw [he] at h
    cases h
    simp only [Image.finishInit]
    split <;> split <;> rfl

theorem load_sound (h : c.Sound) (l : Load) (hu : c.image.subscription = none)
    (hfresh : l.generation ∉ c.eras.map Era.generation) : Sound ⟨(c.image.load l).2, c.past⟩ := by
  have hready := h.image.ready hu
  have hi := Image.load_sound l hready
  by_cases hsub : (c.image.load l).2.subscription = none
  · exact h.idle_step hi hsub
  · -- the load was accepted
    have hok : c.image.load l = (.ok (), (c.image.load l).2) := by
      rcases Image.load_cases l hready with ⟨r, i', he, hi', -⟩ | ⟨settings, mode, risk, he, -⟩
      · rw [he] at hsub
        exact absurd hi'.unloaded hsub
      · rw [he]
    have hg := load_generation hready hok
    refine ⟨hi, h.ran, ?_⟩
    have hall := h.names
    rw [eras, running_of_unloaded hu, List.append_nil] at hall hfresh
    rw [eras, running_of_loaded hsub, List.map_append, List.nodup_append]
    refine ⟨hall, List.nodup_singleton _, fun a ha b hb => ?_⟩
    rw [List.map_cons, List.map_nil, List.mem_singleton] at hb
    rintro rfl
    rw [hb, Era.generation, hg] at ha
    exact hfresh ha

theorem step_sound {act : Act} (h : c.Sound) (hfresh : c.fresh act) (hs : step c act = some c') : c'.Sound := by
  cases act with
  | crash env ks master loading =>
    cases hs
    refine ⟨(Image.boot_ready env ks master loading).sound, h.all_ran, ?_⟩
    rw [eras, running_of_unloaded rfl, List.append_nil]
    exact h.names
  | image act =>
    obtain ⟨i, hi, rfl⟩ := Option.map_eq_some_iff.1 hs
    have hsound := Image.step_sound hi h.image
    cases Image.step_turn hi with
    | load l hu =>
      rw [ended, List.append_nil]
      exact load_sound h l hu hfresh
    | server ks master loading hu =>
      rw [ended, List.append_nil]
      exact h.idle_step hsound hu
    | module hm hd hn =>
      rw [ended, List.append_nil]
      exact h.running_step hsound (by rw [hm]; exact Option.some_ne_none _) rfl (Node.step_generation hn)
    | @set x hm hc hx =>
      rw [ended, List.append_nil]
      refine h.running_step hsound hm (Image.set_kept c.image x).subscription ?_
      rcases Image.set_step (h.image.live hm) hc hx with he | ⟨-, -, -, act, hn⟩
      · rw [he]
      · exact Node.step_generation hn
    | policy reply risk hm =>
      rw [ended, List.append_nil]
      exact h.running_step hsound hm rfl rfl
    | unload hm hp =>
      have hlive := h.image.live hm
      refine ⟨hsound, fun e he => ?_, ?_⟩
      · rcases List.mem_append.1 he with he | he
        · exact h.ran e he
        · rw [List.mem_singleton.1 he]
          exact ⟨c.image.node, hlive.running, Or.inr ⟨rfl, hp, rfl⟩⟩
      · have hall := h.names
        rw [eras, running_of_loaded hm] at hall
        rw [eras, running_of_unloaded rfl, List.append_nil]
        have hg : (ended c.image.unload .unload).map Era.generation = [c.image.node.st.generationId] :=
          congrArg (fun name => [name]) (deinit_controlLog hlive.running).1
        rw [List.map_append] at hall ⊢
        rw [hg]
        exact hall

theorem Reach.sound (h : Reach c) : c.Sound := by
  refine Machine.Reach.invariant (I := Sound) ?_ (fun _ _ _ _ hf hs ih => step_sound ih hf hs) h
  rintro c ⟨env, ks, master, loading, rfl⟩
  exact ⟨(Image.boot_ready env ks master loading).sound, List.forall_mem_nil _, List.nodup_nil⟩

end Chronicle

/-! ## What a client finds -/

open Client (EntryId Texts GapMarker RestartBoundary assessRestartBoundaries)

section Reading

variable {generation : Str} {closed : Bool} {trace : List Occurrence} {stream : Str}

theorem entryOf_eq_some {o : Occurrence} {fields : List Bytes} (h : o.entryOf stream = some fields) :
    o.isControl = true ∧ ∃ why trim nomk, o = .call why (.xadd (utf8 stream) nomk trim fields) true := by
  unfold Occurrence.entryOf at h
  split at h
  · split at h
    · rename_i hkey
      cases h
      rw [hkey]
      exact ⟨rfl, _, _, _, rfl⟩
    · cases h
  · split at h
    · rename_i hkey
      cases h
      rw [hkey]
      exact ⟨rfl, _, _, _, rfl⟩
    · cases h
  · cases h

/-- An entry that is found is signed by its generation. -/
theorem ControlLog.entry (h : ControlLog generation closed trace) {fields : List Bytes}
    (hf : fields ∈ trace.filterMap (Occurrence.entryOf stream)) :
    ∃ action extra, (action = .unloading → closed = true) ∧ (controlNames ++ extra.map Prod.fst).Nodup ∧
      fields = signedFields generation action extra := by
  obtain ⟨o, ho, he⟩ := List.mem_filterMap.1 hf
  obtain ⟨hcontrol, _, _, _, rfl⟩ := entryOf_eq_some he
  obtain ⟨action, hclosed, _, _, _, extra, _, hnames, heq⟩ := h.signed _ ho hcontrol
  injection heq with _ hcmd
  injection hcmd with _ _ _ hfields
  exact ⟨action, extra, hclosed, hnames, hfields⟩

theorem hasAction_signed {action other : Action} {extra : List (Str × Str)} :
    hasAction other (signedFields generation action extra) = true ↔ other = action := by
  rw [hasAction, decide_eq_true_eq]
  constructor
  · intro h
    exact (Action.text_injective (Text.utf8_injective (Option.some.inj h))).symm
  · rintro rfl
    rfl

/-- No entry that is found is ahead of `loaded`. -/
theorem ControlLog.entries_loadedFirst (h : ControlLog generation closed trace) :
    (trace.filterMap (Occurrence.entryOf stream)).Pairwise fun _ fields => hasAction .loaded fields = false := by
  have hcontrol : trace.filterMap (Occurrence.entryOf stream) =
      (trace.filter Occurrence.isControl).filterMap (Occurrence.entryOf stream) := by
    rw [List.filterMap_filter]
    refine List.filterMap_congr fun o _ => ?_
    cases he : o.entryOf stream with
    | none => split <;> rfl
    | some fields => rw [if_pos (entryOf_eq_some he).1]
  rw [hcontrol]
  refine List.Pairwise.filterMap _ (fun a b hab x hx y hy => ?_) h.loadedFirst
  obtain ⟨hb, _, _, _, rfl⟩ := entryOf_eq_some hy
  rw [Occurrence.isEntry, hb, Bool.true_and, decide_eq_false_iff_not] at hab
  rw [hasAction, decide_eq_false_iff_not]
  intro hy'
  refine hab ?_
  cases y with
  | nil => cases hy'
  | cons name values =>
    cases values with
    | nil => cases hy'
    | cons action rest => exact hy'

end Reading

/-- What is left of an era in a stream: entries with their IDs. -/
abbrev Remains := List (EntryId × List Bytes)

/-- What is left of a stream: any part of what each generation added to it. -/
def Chronicle.Reads (c : Chronicle) (stream : Str) (kept : List Remains) : Prop :=
  List.Forall₂ (fun (e : Era) k => (k.map Prod.snd).Sublist (e.entries stream)) c.eras kept

/-- The restart between two generations, if the later one still shows its `loaded`. It is graceful if the earlier one
still shows its `unloading`. -/
def report (stream : Str) (previous next : Era × Remains) : Option RestartBoundary :=
  (next.2.find? fun x => hasAction .loaded x.2).map fun x =>
    { stream := stream
      id := x.1.text
      previousGeneration := previous.1.generation
      generation := next.1.generation
      kind := if previous.2.any fun x => hasAction .unloading x.2 then .graceful else .uncertain }

/-- The restarts that a stream shows: those between neighbours among the generations that have left something. -/
def restarts (stream : Str) (eras : List (Era × Remains)) : List RestartBoundary :=
  let shown := eras.filter fun p => !p.2.isEmpty
  (shown.zip shown.tail).filterMap fun p => report stream p.1 p.2

section Assessment

variable {texts : Texts} {stream : Str}

/-- The client's markers of what is left. -/
def markersFrom (texts : Texts) (stream : Str) (k : Remains) : List GapMarker :=
  k.filterMap fun x => GapMarker.ofFields texts stream x.1 x.2

/-- A marker of an entry of a generation. -/
structure Tells (stream generation : Str) (x : EntryId × List Bytes) (m : GapMarker) : Prop where
  stream : m.stream = stream
  id : m.id = x.1.text
  generation : m.generation = some generation
  loads : m.action = Client.loaded ↔ hasAction .loaded x.2 = true
  closes : m.closes = hasAction .unloading x.2

theorem tells_of_entry (ht : texts.Faithful) {e : Era} (he : e.Ran) {x : EntryId × List Bytes}
    (hx : x.2 ∈ e.entries stream) :
    ∃ m, GapMarker.ofFields texts stream x.1 x.2 = some m ∧ Tells stream e.generation x m := by
  obtain ⟨action, extra, -, hnames, hfields⟩ := he.controlLog.entry hx
  obtain ⟨m, hm, hstream, hid, haction, hgeneration⟩ := Client.ofFields_signed ht stream x.1 e.generation action hnames
  rw [← hfields] at hm
  have hiff : ∀ other : Action, m.action = other.text ↔ hasAction other x.2 = true := by
    intro other
    rw [hfields, hasAction_signed, haction]
    exact ⟨fun h => (Action.text_injective h).symm, fun h => by rw [h]⟩
  refine ⟨m, hm, hstream, hid, hgeneration, hiff .loaded, ?_⟩
  rw [GapMarker.closes, Bool.eq_iff_iff, decide_eq_true_eq]
  exact hiff .unloading

/-- The client reads every entry that is left. -/
theorem markersFrom_tells (ht : texts.Faithful) {e : Era} (he : e.Ran) {k : Remains}
    (hk : ∀ x ∈ k, x.2 ∈ e.entries stream) :
    List.Forall₂ (Tells stream e.generation) k (markersFrom texts stream k) := by
  induction k with
  | nil => exact .nil
  | cons x k ih =>
    obtain ⟨m, hm, htells⟩ := tells_of_entry ht he (hk x List.mem_cons_self)
    rw [markersFrom, List.filterMap_cons, hm]
    exact .cons htells (ih fun y hy => hk y (List.mem_cons_of_mem _ hy))

section Groups

variable {generation : Str} {k : Remains} {ms : List GapMarker}

theorem any_closes (h : List.Forall₂ (Tells stream generation) k ms) :
    ms.any GapMarker.closes = k.any fun x => hasAction .unloading x.2 := by
  induction h with
  | nil => rfl
  | cons hx _ ih => rw [List.any_cons, List.any_cons, hx.closes, ih]

theorem genOf_tells (h : List.Forall₂ (Tells stream generation) k ms) (hne : k ≠ []) :
    Client.genOf ms = generation := by
  cases h with
  | nil => exact absurd rfl hne
  | cons hx _ => simp only [Client.genOf, List.head?_cons, Option.bind_some, hx.generation, Option.getD_some]

theorem generation_tells (h : List.Forall₂ (Tells stream generation) k ms) :
    ∀ m ∈ ms, m.generation = some generation := by
  induction h with
  | nil => exact List.forall_mem_nil _
  | cons hx _ ih => exact List.forall_mem_cons.2 ⟨hx.generation, ih⟩

theorem isRun_tells (h : List.Forall₂ (Tells stream generation) k ms) (hne : k ≠ []) : Client.IsRun ms := by
  refine ⟨?_, fun m hm => ?_⟩
  · rintro rfl
    cases h
    exact hne rfl
  · rw [genOf_tells h hne]
    exact generation_tells h m hm

end Groups

/-- The boundary that the client finds between two runs of markers is the restart between their generations. -/
theorem boundaryBetween_tells {p q : Era × Remains} {ms ms' : List GapMarker}
    (h : List.Forall₂ (Tells stream p.1.generation) p.2 ms) (h' : List.Forall₂ (Tells stream q.1.generation) q.2 ms')
    (hp : p.2 ≠ []) (hq : q.2 ≠ [])
    (hfirst : (q.2.map Prod.snd).Pairwise fun _ fields => hasAction .loaded fields = false) :
    Client.boundaryBetween ms ms' = report stream p q := by
  have hgen := genOf_tells h hp
  have hgen' := genOf_tells h' hq
  obtain ⟨e, k⟩ := q
  cases h' with
  | nil => exact absurd rfl hq
  | @cons x m k ms' hx hrest =>
    -- the first entry is `loaded`, or none is
    have hnone : k.find? (fun x => hasAction .loaded x.2) = none := by
      rw [List.find?_eq_none]
      intro y hy
      rw [List.map_cons, List.pairwise_cons] at hfirst
      rw [hfirst.1 y.2 (List.mem_map_of_mem hy)]
      exact Bool.false_ne_true
    rw [Client.boundaryBetween, report, List.head?_cons, Option.bind_some, List.find?_cons, hnone, hgen, hgen',
      any_closes h, hx.stream, hx.id]
    by_cases hl : m.action = Client.loaded
    · rw [if_pos hl, hx.loads.1 hl]
      rfl
    · rw [if_neg hl, Bool.eq_false_iff.2 fun ha => hl (hx.loads.2 ha)]
      rfl

/-- What is left of an era that has left something. -/
structure Shown (stream : Str) (p : Era × Remains) : Prop where
  ran : p.1.Ran
  ne : p.2 ≠ []
  entries : (p.2.map Prod.snd).Sublist (p.1.entries stream)

theorem Shown.tells (ht : texts.Faithful) {p : Era × Remains} (h : Shown stream p) :
    List.Forall₂ (Tells stream p.1.generation) p.2 (markersFrom texts stream p.2) :=
  markersFrom_tells ht h.ran fun _ hx => h.entries.subset (List.mem_map_of_mem hx)

/-- The pass of the client over what the generations have left, one after the other. -/
theorem track_shown (ht : texts.Faithful) {shown : List (Era × Remains)} (h : ∀ p ∈ shown, Shown stream p)
    (hnames : (shown.map fun p => p.1.generation).Nodup) :
    ((shown.map fun p => markersFrom texts stream p.2).flatten.foldl Client.track (none, [])).2 =
      (shown.zip shown.tail).filterMap fun p => report stream p.1 p.2 := by
  cases shown with
  | nil => rfl
  | cons p rest =>
    have hrun : ∀ q ∈ p :: rest, Client.IsRun (markersFrom texts stream q.2) := fun q hq =>
      isRun_tells ((h q hq).tells ht) (h q hq).ne
    have hgen : ∀ q ∈ p :: rest, Client.genOf (markersFrom texts stream q.2) = q.1.generation := fun q hq =>
      genOf_tells ((h q hq).tells ht) (h q hq).ne
    have hchain : ((p :: rest).map fun q => markersFrom texts stream q.2).IsChain
        fun a b => Client.genOf a ≠ Client.genOf b := by
      refine List.Pairwise.isChain (List.pairwise_map.2 ?_)
      refine (List.pairwise_map.1 hnames).imp_of_mem fun {a b} ha hb hne => ?_
      rw [hgen a ha, hgen b hb]
      exact hne
    have hruns : ∀ run ∈ rest.map fun q => markersFrom texts stream q.2, Client.IsRun run := by
      intro run hmem
      obtain ⟨q, hq, rfl⟩ := List.mem_map.1 hmem
      exact hrun q (List.mem_cons_of_mem _ hq)
    rw [List.map_cons, List.flatten_cons, List.foldl_append, Client.track_first (hrun p List.mem_cons_self),
      Client.track_runs hruns _ hchain, List.nil_append]
    change (((p :: rest).map fun q => markersFrom texts stream q.2).zip
      (rest.map fun q => markersFrom texts stream q.2)).filterMap
      _ = ((p :: rest).zip rest).filterMap _
    rw [List.zip_map, List.filterMap_map]
    refine List.filterMap_congr fun q hq => ?_
    obtain ⟨hprevious, hnext⟩ := List.of_mem_zip hq
    have hnext' := h q.2 (List.mem_cons_of_mem _ hnext)
    exact boundaryBetween_tells ((h q.1 hprevious).tells ht) (hnext'.tells ht) (h q.1 hprevious).ne hnext'.ne
      (hnext'.ran.controlLog.entries_loadedFirst.sublist hnext'.entries)

/-- Generations that have left nothing do not count. -/
theorem flatten_shown (eras : List (Era × Remains)) :
    ((eras.filter fun p => !p.2.isEmpty).map fun p => markersFrom texts stream p.2).flatten =
      (eras.map fun p => markersFrom texts stream p.2).flatten := by
  induction eras with
  | nil => rfl
  | cons p eras ih =>
    obtain ⟨e, k⟩ := p
    cases k with
    | nil => exact ih
    | cons x k => exact congrArg (markersFrom texts stream (x :: k) ++ ·) ih

end Assessment

/-- **What a client makes of restarts.** Take any history of a server: loads, unloads, crashes at any moment, and all
that happens in between, with different names for the generations. Take any part of what each generation wrote to a
control stream, as trimming and lost writes may leave it, and any list of markers whose markers of this stream are read
from it. Then the client reports for the stream exactly the restarts between neighbours among the generations it still
sees, where the later one still shows `loaded`; and each restart it calls graceful follows a generation that was
unloaded, after its worker had stopped and with nothing left to write but what a queue without a worker held. -/
theorem restarts_assessed (texts : Texts) (htexts : texts.Faithful) (c : Chronicle) (h : c.Reach) (stream : Str)
    (kept : List Remains) (hkept : c.Reads stream kept) (markers : List GapMarker)
    (hmarkers : markers.filter (·.stream = stream) = (kept.map (markersFrom texts stream)).flatten) :
    (assessRestartBoundaries markers).filter (·.stream = stream) = restarts stream (c.eras.zip kept) ∧
      ∀ p ∈ c.eras.zip kept, (p.2.any fun x => hasAction .unloading x.2) = true →
        p.1.closed = true ∧ p.1.node.phase = .stopped ∧ p.1.node.inFlight = p.1.node.queue := by
  have hsound := h.sound
  have hpair : ∀ p ∈ c.eras.zip kept, p.1.Ran ∧ (p.2.map Prod.snd).Sublist (p.1.entries stream) := by
    intro p hp
    exact ⟨hsound.all_ran p.1 (List.of_mem_zip hp).1, List.forall₂_zip hkept hp⟩
  refine ⟨?_, fun p hp hany => ?_⟩
  · have hall : (kept.map (markersFrom texts stream)).flatten =
        ((c.eras.zip kept).map fun p => markersFrom texts stream p.2).flatten := by
      have hsnd : kept = (c.eras.zip kept).map Prod.snd := (List.map_snd_zip hkept.length_eq.ge).symm
      conv_lhs => rw [hsnd]
      rw [List.map_map]
      rfl
    rw [Client.assess_stream, hmarkers, hall, ← flatten_shown, restarts]
    refine track_shown htexts (fun p hp => ?_) ?_
    · obtain ⟨hmem, hne⟩ := List.mem_filter.1 hp
      obtain ⟨hran, hentries⟩ := hpair p hmem
      exact ⟨hran, by simpa using hne, hentries⟩
    · have hfst : ((c.eras.zip kept).map fun p => p.1.generation) = c.eras.map Era.generation := by
        conv_rhs => rw [← List.map_fst_zip hkept.length_eq.le]
        rw [List.map_map]
        rfl
      exact (hfst ▸ hsound.names).sublist (List.filter_sublist.map _)
  · obtain ⟨hran, hentries⟩ := hpair p hp
    obtain ⟨x, hx, ha⟩ := List.any_eq_true.1 hany
    obtain ⟨action, extra, hclosed, -, hfields⟩ := hran.controlLog.entry (hentries.subset (List.mem_map_of_mem hx))
    rw [hfields, hasAction_signed] at ha
    have hc := hclosed ha.symm
    exact ⟨hc, hran.stopped hc⟩

/-- The smallest ID. -/
def firstId : EntryId := ⟨0, 1, Nat.zero_le _, Nat.le_of_ble_eq_true rfl, Or.inr Nat.one_ne_zero⟩

/-- A stream that has lost nothing. -/
def Chronicle.whole (c : Chronicle) (stream : Str) : List Remains :=
  c.eras.map fun e => (e.entries stream).map fun fields => (firstId, fields)

theorem Chronicle.reads_whole (c : Chronicle) (stream : Str) : c.Reads stream (c.whole stream) := by
  rw [Reads, whole, List.forall₂_map_right_iff, List.forall₂_same]
  intro e _
  have hsnd : ((e.entries stream).map fun fields => (firstId, fields)).map Prod.snd = e.entries stream := by
    rw [List.map_map]
    exact List.map_id _
  rw [hsnd]

theorem markersFrom_stream (texts : Texts) (stream : Str) (kept : List Remains) :
    let markers := (kept.map (markersFrom texts stream)).flatten
    markers.filter (·.stream = stream) = markers := by
  refine List.filter_eq_self.2 fun m hm => decide_eq_true ?_
  obtain ⟨ms, hms, hm⟩ := List.mem_flatten.1 hm
  obtain ⟨k, -, rfl⟩ := List.mem_map.1 hms
  obtain ⟨x, -, hx⟩ := List.mem_filterMap.1 hm
  obtain ⟨_, -, rfl⟩ := Option.map_eq_some_iff.1 hx
  rfl

/-- An unload and a crash, each after an event. -/
def twoRestarts : List Chronicle.Act :=
  let load (name : Str) : Chronicle.Act := .image (.load { Image.smoothLoad {} with generation := name })
  let expired : List Chronicle.Act := [Node.expire [97], .runJob, .process, .runJob, .process].map fun act =>
    .image (.module act)
  load ['a'] :: expired ++ [.image (.module .requestStop), .image .unload] ++ load ['b'] :: expired ++
    [.crash .calm .empty true false] ++ load ['c'] :: expired

theorem restarts_assessed_two :
    ∃ c, Machine.run Chronicle.step Chronicle.fresh ⟨.boot .calm .empty true false, []⟩ twoRestarts =
      some c ∧
    let stream := "events:#control".toList
    let boundaries := (assessRestartBoundaries ((c.whole stream).map (markersFrom .strict stream)).flatten).filter
      (·.stream = stream)
    boundaries.map (fun b => (b.previousGeneration, b.generation, b.kind)) =
      [(['a'], ['b'], .graceful), (['b'], ['c'], .uncertain)] := by
  have hrun : (Machine.run Chronicle.step Chronicle.fresh ⟨.boot .calm .empty true false, []⟩ twoRestarts).map (fun c =>
      (restarts "events:#control".toList (c.eras.zip (c.whole "events:#control".toList))).map
        fun b => (b.previousGeneration, b.generation, b.kind)) =
      some [(['a'], ['b'], .graceful), (['b'], ['c'], .uncertain)] := by decide +kernel
  obtain ⟨c, hc, hkinds⟩ := Option.map_eq_some_iff.1 hrun
  have hreach : c.Reach := Machine.reach_of_run (.start ⟨_, _, _, _, rfl⟩) hc
  refine ⟨c, hc, ?_⟩
  dsimp only
  rw [(restarts_assessed .strict Client.Texts.strict_faithful c hreach _ _ (c.reads_whole _) _
    (markersFrom_stream .strict _ _)).1]
  exact hkinds

end EventStream

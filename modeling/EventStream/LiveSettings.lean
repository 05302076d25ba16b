import EventStream.Grammars
import EventStream.Reload

/-!
# Settings of a loaded module

A list is stored as a text beside what was parsed from it, the group name beside a flag, and the classes of the events
filter depend on a mask that was fixed when the module was loaded. These cells are written by different setters, each of
which may refuse a value after it was parsed.

- `Settings.Coherent`: each stored form is that of its text; kept by every setter (`Settings.set_coherent`);
- `Image.Coherent`: so it is along all histories, and the filter of a loaded module names only classes of its
  subscription (`Image.Reach.coherent`);
- `Attempt`, `configSet`, `configGet`: `CONFIG SET` with arbitrary bytes, and `CONFIG GET`;
- `configSets_truthful`: what holds after any attempts on a loaded module.
-/

namespace EventStream

open Text (Str Bytes ofUtf8)

/-! ## What is stored -/

/-- What is stored beside a text is what the text says. -/
structure Settings.Coherent (s : Settings) : Prop where
  events : parseFilter s.events.raw = .ok s.events.parsed
  keyFilter : parseKeyFilter s.keyFilter.raw = .ok s.keyFilter.parsed
  sourceDbs : parseSourceDbs s.sourceDbs.raw = .ok s.sourceDbs.parsed
  maxlenOverrides : parseMaxlenOverrides s.maxlenOverrides.raw = .ok s.maxlenOverrides.parsed
  autoGroup : s.autoGroupEnabled = true ↔ s.autoGroup ≠ []

namespace Settings

variable {subscribed : Option NotifyEvent} {s s' : Settings} {x : Setting}

theorem initial_coherent : initial.Coherent where
  events := by decide +kernel
  keyFilter := by decide +kernel
  sourceDbs := by decide +kernel
  maxlenOverrides := by decide +kernel
  autoGroup := by decide

theorem parseText_ok {α : Type} {parse : Str → Except Str α} {text : Str} {c : TextConfig α}
    (h : parseText parse text = .ok c) : c.raw = text ∧ parse text = .ok c.parsed := by
  obtain ⟨parsed, hp, rfl⟩ := map_ok h
  exact ⟨rfl, hp⟩

/-- An accepted filter names only extra classes of the mask, if there is one. -/
theorem setFilter_ok {text : Str} {c : TextConfig ParsedFilter} (h : setFilter subscribed text = .ok c) :
    c.raw = text ∧ parseFilter text = .ok c.parsed ∧
      ∀ mask, subscribed = some mask → extraClassesNamed c.parsed ⊆ mask := by
  unfold setFilter at h
  cases hp : parseFilter text with
  | error e =>
    rw [hp] at h
    cases h
  | ok parsed =>
    rw [hp] at h
    obtain ⟨u, hcheck, rfl⟩ := map_ok h
    refine ⟨rfl, rfl, ?_⟩
    rintro mask rfl
    simp only [checkSubscribed] at hcheck
    split at hcheck
    · rename_i hnone
      exact Finset.sdiff_eq_empty_iff_subset.1 hnone
    · cases hcheck

theorem set_coherent (hs : s.Coherent) (h : s.set subscribed x = .ok s') : s'.Coherent := by
  cases x with
  | events text =>
    obtain ⟨c, hc, rfl⟩ := map_ok h
    obtain ⟨hraw, hparsed, -⟩ := setFilter_ok hc
    exact ⟨by rw [hraw]; exact hparsed, hs.keyFilter, hs.sourceDbs, hs.maxlenOverrides, hs.autoGroup⟩
  | keyFilter text =>
    obtain ⟨c, hc, rfl⟩ := map_ok h
    obtain ⟨hraw, hparsed⟩ := parseText_ok hc
    exact ⟨hs.events, by rw [hraw]; exact hparsed, hs.sourceDbs, hs.maxlenOverrides, hs.autoGroup⟩
  | sourceDbs text =>
    obtain ⟨c, hc, rfl⟩ := map_ok h
    obtain ⟨hraw, hparsed⟩ := parseText_ok hc
    exact ⟨hs.events, hs.keyFilter, by rw [hraw]; exact hparsed, hs.maxlenOverrides, hs.autoGroup⟩
  | maxlenOverrides text =>
    obtain ⟨c, hc, rfl⟩ := map_ok h
    obtain ⟨hraw, hparsed⟩ := parseText_ok hc
    exact ⟨hs.events, hs.keyFilter, hs.sourceDbs, by rw [hraw]; exact hparsed, hs.autoGroup⟩
  | autoGroup name =>
    obtain ⟨-, -, rfl⟩ := map_ok h
    exact ⟨hs.events, hs.keyFilter, hs.sourceDbs, hs.maxlenOverrides, by simp⟩
  | enabled on | firehose on | verifyOom on | entrySeq on | entryFormat format | writeMode mode =>
    cases h
    exact ⟨hs.events, hs.keyFilter, hs.sourceDbs, hs.maxlenOverrides, hs.autoGroup⟩
  | _ =>
    obtain ⟨v, -, rfl⟩ := map_ok h
    exact ⟨hs.events, hs.keyFilter, hs.sourceDbs, hs.maxlenOverrides, hs.autoGroup⟩

/-- A setter leaves the events filter, or sets one that names only extra classes of the mask. -/
theorem set_named {mask : NotifyEvent} (hs : extraClassesNamed s.events.parsed ⊆ mask)
    (h : s.set (some mask) x = .ok s') : extraClassesNamed s'.events.parsed ⊆ mask := by
  cases x with
  | events text =>
    obtain ⟨c, hc, rfl⟩ := map_ok h
    exact (setFilter_ok hc).2.2 mask rfl
  | enabled on | firehose on | verifyOom on | entrySeq on | entryFormat format | writeMode mode =>
    cases h
    exact hs
  | _ =>
    obtain ⟨v, -, rfl⟩ := map_ok h
    exact hs

end Settings

/-! ## Along all histories -/

namespace Image

variable {i : Image}

/-- The stored forms are those of the texts, and the filter of a loaded module names only classes that it subscribed to.
-/
structure Coherent (i : Image) : Prop where
  stored : i.settings.Coherent
  subscribed : ∀ mask, i.subscription = some mask → ∃ extra, i.subscribedExtra = some extra ∧
    mask = defaultClasses ∪ extra ∧ extraClassesNamed i.settings.events.parsed ⊆ extra

/-- Any setter, with any value. -/
theorem Coherent.set (hi : Coherent i) (x : Setting) : Coherent (i.set x).2 := by
  cases hset : i.settings.set i.subscribedExtra x with
  | error e =>
    rw [set_error hset]
    exact hi
  | ok s =>
    obtain ⟨-, hs, hk⟩ := set_ok hset
    refine ⟨?_, ?_⟩
    · rw [hs]
      exact Settings.set_coherent hi.stored hset
    · intro mask hmask
      rw [hk.subscription] at hmask
      obtain ⟨extra, hextra, heq, hnamed⟩ := hi.subscribed mask hmask
      rw [hextra] at hset
      refine ⟨extra, hk.subscribedExtra.trans hextra, heq, ?_⟩
      rw [hs]
      exact Settings.set_named hnamed hset

theorem loadConfigs_coherent (hi : i.settings.Coherent) (xs : List Setting) :
    (i.loadConfigs xs).2.settings.Coherent := by
  induction xs generalizing i with
  | nil => exact hi
  | cons x xs ih =>
    unfold loadConfigs
    cases hx : i.settings.set i.subscribedExtra x with
    | error e =>
      rw [set_error hx]
      exact hi
    | ok s =>
      obtain ⟨hok, hs, -⟩ := set_ok hx
      rw [← Prod.eta (i.set x), hok]
      refine ih ?_
      rw [hs]
      exact Settings.set_coherent hi hx

theorem start_settings (l : Load) (i : Image) : (start l i).2.settings = i.settings := by
  rcases start_cases l i with ⟨r, risk, h, -⟩ | ⟨mode, risk, -, h⟩
  · rw [h]
  · rw [h]
    rfl

theorem subscribe_settings (l : Load) (i : Image) : (subscribe l i).2.settings = i.settings := by
  unfold subscribe
  split
  · rfl
  · simp only
    split
    · exact setPerNode_settings i l.cluster
    · rw [start_settings]
      exact setPerNode_settings i l.cluster

/-- What the setters of a load have stored stays, whether the load is accepted or refused. -/
theorem init_settings (l : Load) (i : Image) : (init l i).2.settings = i.settings := by
  unfold init
  cases preflight l with
  | error r => rfl
  | ok _ => exact subscribe_settings l _

theorem load_stored (l : Load) (hi : i.settings.Coherent) : (i.load l).2.settings.Coherent := by
  have hc := loadConfigs_coherent (i := { i with env := l.env }) hi l.args.settings
  unfold load
  generalize ({ i with env := l.env } : Image).loadConfigs l.args.settings = r at hc
  obtain ⟨r, j⟩ := r
  cases r with
  | error e => exact hc
  | ok _ =>
    simp only [init_settings]
    exact hc

/-- The subscription of a load has the extra classes that its filter names. -/
theorem extraClassesNamed_subset (f : ParsedFilter) : extraClassesNamed f ⊆ subscribedBy f := by
  unfold subscribedBy
  split
  · exact Finset.inter_subset_right
  · exact Finset.Subset.refl _

theorem load_coherent (l : Load) (hr : Ready i) (hi : i.settings.Coherent) : Coherent (i.load l).2 := by
  refine ⟨load_stored l hi, fun mask hmask => ?_⟩
  rcases load_cases l hr with ⟨r, i', he, hi', -⟩ | ⟨settings, mode, risk, he, -⟩
  · rw [he] at hmask
    rw [hi'.unloaded] at hmask
    cases hmask
  · rw [he] at hmask ⊢
    cases hmask
    exact ⟨_, rfl, rfl, extraClassesNamed_subset settings.events.parsed⟩

theorem Coherent.step {i' : Image} {act : Act} (hs : Image.step i act = some i') (hsound : Sound i) (hi : Coherent i) :
    Coherent i' := by
  cases step_turn hs with
  | load l hu => exact load_coherent l (hsound.ready hu) hi.stored
  | server ks master loading hu => exact ⟨hi.stored, hi.subscribed⟩
  | module hm hd hn => exact ⟨hi.stored, hi.subscribed⟩
  | @set x hm hc hx => exact hi.set x
  | policy reply risk hm => exact ⟨hi.stored, hi.subscribed⟩
  | unload hm hp =>
    refine ⟨hi.stored, fun mask hmask => ?_⟩
    cases hmask

theorem Reach.coherent {allowed : Image → Act → Prop} (h : Reach allowed i) : Coherent i := by
  refine Machine.Reach.invariant (I := Coherent) ?_ (fun _ _ _ hr _ hs ih => ih.step hs (Reach.sound hr)) h
  rintro i ⟨env, ks, master, loading, rfl⟩
  refine ⟨Settings.initial_coherent, fun mask hmask => ?_⟩
  cases hmask

end Image

/-! ## `CONFIG SET` and `CONFIG GET` -/

/-- The settings that are texts and can be set after the load. -/
inductive TextSetting
  | events | keyFilter | sourceDbs | maxlenOverrides | autoGroup
  deriving DecidableEq, Repr

def TextSetting.setting : TextSetting → Str → Setting
  | events, s => .events s
  | keyFilter, s => .keyFilter s
  | sourceDbs, s => .sourceDbs s
  | maxlenOverrides, s => .maxlenOverrides s
  | autoGroup, s => .autoGroup s

/-- The text that is stored. -/
def Settings.text (s : Settings) : TextSetting → Str
  | .events => s.events.raw
  | .keyFilter => s.keyFilter.raw
  | .sourceDbs => s.sourceDbs.raw
  | .maxlenOverrides => s.maxlenOverrides.raw
  | .autoGroup => s.autoGroup

/-- An accepted text is stored. -/
theorem Settings.set_text {subscribed : Option NotifyEvent} {s s' : Settings} {t : TextSetting} {text : Str}
    (h : s.set subscribed (t.setting text) = .ok s') : s'.text t = text := by
  cases t with
  | events =>
    obtain ⟨c, hc, rfl⟩ := map_ok h
    exact (setFilter_ok hc).1
  | keyFilter | sourceDbs | maxlenOverrides =>
    obtain ⟨c, hc, rfl⟩ := map_ok h
    exact (parseText_ok hc).1
  | autoGroup =>
    obtain ⟨-, -, rfl⟩ := map_ok h
    rfl

/-- A value for one of them, which the server passes on as it is. -/
structure Attempt where
  setting : TextSetting
  value : Bytes

namespace Image

variable {i : Image}

/-- `CONFIG SET`; the binding says `notUtf8` of a value that is no text. -/
def configSet (notUtf8 : Str) (i : Image) (a : Attempt) : Except Str Unit × Image :=
  match ofUtf8 a.value with
  | none => (.error notUtf8, i)
  | some s => i.set (a.setting.setting s)

def configGet (i : Image) (t : TextSetting) : Str := i.settings.text t

/-- Attempts one after the other. -/
def configSets (notUtf8 : Str) (i : Image) (attempts : List Attempt) : Image :=
  attempts.foldl (fun i a => (i.configSet notUtf8 a).2) i

/-- What `CONFIG GET` says is in force: the parsed forms are those of the texts, the module runs with them, the flag of
the group tells whether there is one, and every class that the filter names can fire. -/
structure Truthful (i : Image) (mask : NotifyEvent) : Prop where
  events : ∃ f, parseFilter (i.configGet .events) = .ok f ∧ i.settings.events.parsed = f ∧
    i.node.st.config.filter = f.matches
  keyFilter : ∃ f, parseKeyFilter (i.configGet .keyFilter) = .ok f ∧ i.settings.keyFilter.parsed = f ∧
    i.node.st.config.keyFilter = f.matches
  sourceDbs : ∃ f, parseSourceDbs (i.configGet .sourceDbs) = .ok f ∧ i.settings.sourceDbs.parsed = f ∧
    i.node.st.config.sourceDbs = f.matches
  maxlenOverrides : ∃ m, parseMaxlenOverrides (i.configGet .maxlenOverrides) = .ok m ∧
    i.settings.maxlenOverrides.parsed = m ∧ i.node.st.config.maxlenOverrides = m
  autoGroup : (i.settings.autoGroupEnabled = true ↔ i.configGet .autoGroup ≠ []) ∧
    i.node.st.config.autoGroup = i.configGet .autoGroup ∧
      i.node.st.config.autoGroupEnabled = i.settings.autoGroupEnabled
  subscription : i.subscription = some mask
  subscribed : extraClassesNamed i.settings.events.parsed ⊆ mask
  fires : i.settings.events.parsed.classes ⊆ mask

/-- The classes of a filter are classes that have a name. -/
theorem classes_subset {s : Str} {f : ParsedFilter} (h : parseFilter s = .ok f) :
    f.classes ⊆ defaultClasses ∪ extraClasses := by
  have hnamed : ∀ p ∈ named, p.1 ∈ defaultClasses ∪ extraClasses := by decide
  intro bit hbit
  obtain ⟨p, -, name, -, hmem⟩ := (parseFilter_classes h bit).1 hbit
  exact hnamed _ hmem

theorem Coherent.truthful (hi : Coherent i) (hs : i.Synced) {mask : NotifyEvent} (hmask : i.subscription = some mask) :
    Truthful i mask := by
  obtain ⟨extra, -, rfl, hnamed⟩ := hi.subscribed mask hmask
  have hsub : extraClassesNamed i.settings.events.parsed ⊆ defaultClasses ∪ extra :=
    hnamed.trans Finset.subset_union_right
  have hfires : i.settings.events.parsed.classes ⊆ defaultClasses ∪ extra := by
    intro bit hbit
    -- a class of the filter is a default one, or an extra one that the filter names
    rcases Finset.mem_union.1 (classes_subset hi.stored.events hbit) with hd | hx
    · exact Finset.mem_union_left _ hd
    · exact hsub (Finset.mem_inter.2 ⟨hbit, hx⟩)
  exact {
    events := ⟨_, hi.stored.events, rfl, congrArg Config.filter hs⟩
    keyFilter := ⟨_, hi.stored.keyFilter, rfl, congrArg Config.keyFilter hs⟩
    sourceDbs := ⟨_, hi.stored.sourceDbs, rfl, congrArg Config.sourceDbs hs⟩
    maxlenOverrides := ⟨_, hi.stored.maxlenOverrides, rfl, congrArg Config.maxlenOverrides hs⟩
    autoGroup := ⟨hi.stored.autoGroup, congrArg Config.autoGroup hs, congrArg Config.autoGroupEnabled hs⟩
    subscription := hmask
    subscribed := hsub
    fires := hfires }

/-- A refused value changes nothing, and an accepted one is what `CONFIG GET` says. -/
theorem configSet_cases (notUtf8 : Str) (i : Image) (a : Attempt) :
    (∃ e, i.configSet notUtf8 a = (.error e, i)) ∨
      ((i.configSet notUtf8 a).1 = .ok () ∧ ofUtf8 a.value = some ((i.configSet notUtf8 a).2.configGet a.setting)) := by
  unfold configSet
  cases hv : ofUtf8 a.value with
  | none => exact Or.inl ⟨_, rfl⟩
  | some s =>
    cases hset : i.settings.set i.subscribedExtra (a.setting.setting s) with
    | error e => exact Or.inl ⟨e, set_error hset⟩
    | ok settings =>
      obtain ⟨hok, hs, -⟩ := set_ok hset
      refine Or.inr ⟨hok, ?_⟩
      rw [configGet, hs, Settings.set_text hset]

theorem configSet_kept (notUtf8 : Str) (i : Image) (a : Attempt) : Kept i (i.configSet notUtf8 a).2 := by
  unfold configSet
  cases ofUtf8 a.value with
  | none => exact Kept.refl i
  | some s => exact set_kept i _

theorem configSet_coherent (notUtf8 : Str) (hi : Coherent i) (a : Attempt) : Coherent (i.configSet notUtf8 a).2 := by
  unfold configSet
  cases ofUtf8 a.value with
  | none => exact hi
  | some s => exact hi.set _

theorem configSets_coherent (notUtf8 : Str) (attempts : List Attempt) (hi : Coherent i) :
    Coherent (i.configSets notUtf8 attempts) ∧ Kept i (i.configSets notUtf8 attempts) := by
  unfold configSets
  induction attempts generalizing i with
  | nil => exact ⟨hi, Kept.refl i⟩
  | cons a attempts ih =>
    obtain ⟨hc, hk⟩ := ih (configSet_coherent notUtf8 hi a)
    exact ⟨hc, (configSet_kept notUtf8 i a).trans hk⟩

/-- **Live settings are atomic and truthful.** After any history of loads, steps and unloads that leaves the module
loaded, and any attempts to set the text settings to arbitrary bytes: what `CONFIG GET` returns is in force, with the
subscription of the load, and the next attempt either is refused and changes nothing or stores the text it was given. -/
theorem configSets_truthful (notUtf8 : Str) {i : Image} (h : Reach (fun _ _ => True) i) {mask : NotifyEvent}
    (hmask : i.subscription = some mask) (attempts : List Attempt) :
    (i.configSets notUtf8 attempts).Truthful mask ∧
      ∀ a, (∃ e, (i.configSets notUtf8 attempts).configSet notUtf8 a = (.error e, i.configSets notUtf8 attempts)) ∨
        (((i.configSets notUtf8 attempts).configSet notUtf8 a).1 = .ok () ∧
          ofUtf8 a.value = some (((i.configSets notUtf8 attempts).configSet notUtf8 a).2.configGet a.setting)) := by
  have hloaded : i.subscription ≠ none := Option.ne_none_iff_exists'.2 ⟨mask, hmask⟩
  obtain ⟨hc, hk⟩ := configSets_coherent notUtf8 attempts h.coherent
  refine ⟨hc.truthful (hk.synced (h.sound.live hloaded).synced) (hk.subscription.trans hmask), ?_⟩
  exact configSet_cases notUtf8 (i.configSets notUtf8 attempts)

/-- A module that was loaded with `expired,@missed`; a filter that names `@new` is refused, then a key filter and a
group are accepted, and bytes that are no text are refused. -/
def someAttempts : List Attempt :=
  [⟨.events, Text.utf8 "@new".toList⟩, ⟨.keyFilter, Text.utf8 "session:*".toList⟩, ⟨.autoGroup, Text.utf8 "g".toList⟩,
    ⟨.sourceDbs, [255]⟩]

theorem configSets_truthful_loaded : ∃ i mask, Reach (fun _ _ => True) i ∧ i.subscription = some mask ∧
    (i.configSets [] someAttempts).configGet .events = "expired,@missed".toList ∧
    (i.configSets [] someAttempts).configGet .keyFilter = "session:*".toList ∧
    (i.configSets [] someAttempts).configGet .autoGroup = "g".toList ∧
    (i.configSets [] someAttempts).configGet .sourceDbs = "*".toList ∧
    (i.configSets [] someAttempts).Truthful mask := by
  have hrun : (Machine.run step (fun _ _ => True) (boot .calm .empty true false)
      [.load (smoothLoad { events := "expired,@missed".toList })]).map (fun i => (decide (i.subscription ≠ none),
        [TextSetting.events, .keyFilter, .autoGroup, .sourceDbs].map (i.configSets [] someAttempts).configGet)) =
      some (true, ["expired,@missed".toList, "session:*".toList, "g".toList, "*".toList]) := by
    decide +kernel
  obtain ⟨i, hi, hvalues⟩ := Option.map_eq_some_iff.1 hrun
  simp only [Prod.mk.injEq, decide_eq_true_eq, List.map_cons, List.map_nil, List.cons.injEq, and_true] at hvalues
  obtain ⟨hloaded, hevents, hkeys, hgroup, hdbs⟩ := hvalues
  obtain ⟨mask, hmask⟩ := Option.ne_none_iff_exists'.1 hloaded
  have hreach : Reach (fun _ _ => True) i := Machine.reach_of_run (.start ⟨.calm, .empty, true, false, rfl⟩) hi
  exact ⟨i, mask, hreach, hmask, hevents, hkeys, hgroup, hdbs, (configSets_truthful [] hreach hmask someAttempts).1⟩

end Image

end EventStream

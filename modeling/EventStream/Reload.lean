import EventStream.Exclusions
import EventStream.Settings

/-!
# Loads and unloads of one library image

A server may keep the library of an unloaded module in memory, with all its statics, and load the module again into it.
An `Image` is such a library; it is loaded, runs, is unloaded, and is loaded again, and a load may be refused at each of
its gates.

- `load`: the setters, and then `init` with its gates; `unload`: `deinit` once the worker has stopped;
- `load_live`: an accepted load leaves a freshly loaded module, whatever the image went through before;
- `Reach.running`: so the module of every generation is one of the runs of `Node.step`;
- `load_of_covers` and `load_of_lacks`: a load does what it does in a new process, unless an extra class that an earlier
  load subscribed to is missing;
- `reload_fresh_iff`: when a load is like one in a new process, along all histories of an image.
-/

namespace EventStream

open Text (Str Bytes utf8 showNat)

/-! ## What a load meets -/

/-- A load: its arguments, and what the server and the process answer. -/
structure Load where
  args : Args
  env : Env
  version : Except Str (Nat × Nat × Nat)
  /-- The server offers post-notification jobs. -/
  deferral : Bool
  cluster : Bool
  /-- The server accepts the subscription to keyspace events. -/
  keyspaceEvents : Bool
  /-- The server accepts the subscription to its cron loop. -/
  cronLoop : Bool
  tryLock : Bool
  spawn : Except Str Unit
  /-- The reply to `CONFIG GET maxmemory-policy`, if there is one. -/
  policy : Option Str
  generation : Str

/-- The gates of a load, in their order. -/
inductive Gate
  | setting | version | deferral | cluster | keyspaceEvents | cronLoop | worker
  deriving DecidableEq, Repr

/-- The gates behind the subscription to keyspace events. -/
def Gate.isLate : Gate → Bool
  | cronLoop | worker => true
  | _ => false

/-- Where a load is refused, and what is said about it. -/
structure Refusal where
  gate : Gate
  text : Str
  deriving DecidableEq, Repr

def versionSupported (major minor : Nat) : Bool := 7 < major || (major = 7 && 2 ≤ minor)

/-- The classes that are always subscribed to. -/
def defaultClasses : NotifyEvent :=
  {.generic, .string, .list, .set, .hash, .zset, .stream, .expired, .evicted, .module}

/-- The extra classes that a filter subscribes to. -/
def subscribedBy (f : ParsedFilter) : NotifyEvent := if f.star then extraClasses else extraClassesNamed f

/-- A handle of the worker is kept. -/
def Worker.hasHandle : Worker → Bool
  | absent | joined => false
  | _ => true

/-! ## The image -/

/-- The statics of a library image, and what runs of it. -/
structure Image where
  settings : Settings
  lastEnabled : Bool
  /-- Nothing stands for the value before the subscription. -/
  subscribedExtra : Option NotifyEvent
  evictionRisk : Bool
  /-- The other statics, the threads and the server. -/
  node : Node
  env : Env
  /-- What the server notifies the module of, while it is loaded. -/
  subscription : Option NotifyEvent

namespace Image

/-- The statics of a process that has just started. -/
def boot (env : Env) (ks : Keyspace) (master loading : Bool) : Image where
  settings := .initial
  lastEnabled := true
  subscribedExtra := none
  evictionRisk := false
  node := .initial .sync { State.fresh (Settings.initial.config false) ks with master := master, loading := loading }
  env := env
  subscription := none

/-- A new process beside the same server. -/
def fresh (i : Image) : Image := boot i.env i.node.st.keyspace i.node.st.master i.node.st.loading

/-! ## Settings -/

/-- Set one value. The on-changed callback of `enabled` records a marker if the value is not the last one it saw. -/
def set (i : Image) (x : Setting) : Except Str Unit × Image :=
  match i.settings.set i.subscribedExtra x with
  | .error e => (.error e, i)
  | .ok settings =>
    let st := { i.node.st with config := settings.config i.node.st.config.perNode }
    match x with
    | .enabled now =>
      let changed := { st with
        log := st.log ++
          [LogLine.notice ("eventstream: enabled set to ".toList ++ if now then "yes".toList else "no".toList)] }
      let st :=
        if i.lastEnabled = now then st
        else recordPendingMarker changed (.simple (if now then .enabled else .disabled))
      (.ok (), { i with settings := settings, lastEnabled := now, node := i.node.note none st })
    | _ => (.ok (), { i with settings := settings, node := i.node.note none st })

/-- The setters of a load; the first value that is not accepted ends it. -/
def loadConfigs (i : Image) : List Setting → Except Str Unit × Image
  | [] => (.ok (), i)
  | x :: xs =>
    match i.set x with
    | (.error e, i) => (.error e, i)
    | (.ok _, i) => i.loadConfigs xs

/-! ## `init` -/

/-- The dispatch part of the reset. The handle of the worker is not touched. -/
def resetDispatchGeneration (n : Node) : Node :=
  { n with slot := false, queue := [], stop := false, activeMode := .sync, nextId := 0 }

/-- The ghosts start over with a generation, and the main thread is at its command. -/
def startOver (n : Node) : Node where
  st := { n.st with recorded := 0, selected := 0, clock := 0, log := [], trace := [] }
  holder := .main
  phase := .running
  jobs := []
  todo := []
  activeMode := n.activeMode
  slot := n.slot
  queue := n.queue
  nextId := n.nextId
  worker := if n.worker.hasHandle then n.worker else .absent
  stop := n.stop
  dispatched := []
  lost := []
  unregistered := []
  history := []

def resetGenerationState (i : Image) : Image :=
  { i with
    evictionRisk := false
    lastEnabled := i.settings.enabled
    node := startOver (resetDispatchGeneration { i.node with st := EventStream.resetGenerationState i.node.st }) }

/-- Read the eviction policy; without a reply the flag stays. -/
def recheckEvictionRisk (i : Image) (policy : Option Str) : Image :=
  match policy with
  | none => i
  | some policy => { i with evictionRisk := startsWith policy "allkeys-".toList }

/-- The end of `init`: the identity of the generation, the markers of the load, and the schedule of the checkpoints. -/
def finishInit (l : Load) (i : Image) (mode : WriteMode) : Image :=
  let st := { i.node.st with generationId := l.generation, pendingMarkers := [] }
  let st := recordPendingMarker st (.simple .loaded)
  let st := if i.settings.enabled then st else recordPendingMarker st (.simple .disabled)
  let st := if i.settings.controlCheckpointMs = 0 then st else { st with lastCheckpointMs := i.env.nowMs st.clock }
  { i with
    subscription := some (defaultClasses ∪ i.subscribedExtra.getD ∅)
    node := { i.node with
      st := st
      activeMode := mode
      slot := mode ≠ .sync
      worker := if mode = .sync then i.node.worker else .starting } }

/-- The gates behind the subscription. -/
def start (l : Load) (i : Image) : Except Refusal Unit × Image :=
  let i := i.recheckEvictionRisk l.policy
  if 0 < i.settings.controlCheckpointMs ∧ ¬ l.cronLoop then
    (.error ⟨.cronLoop, ("eventstream: failed to subscribe to the cron-loop server event; refusing to load because " ++
      "control checkpoints were requested").toList⟩, i)
  else
    match startDispatchWorker i.settings.setup i.node.st.config
      ⟨l.cluster, l.tryLock, i.node.slot || i.node.worker.hasHandle, l.spawn⟩ with
    | .error e =>
      (.error ⟨.worker, "eventstream: cannot start experimental write dispatch: ".toList ++ e ++
        "; refusing to load".toList⟩, i)
    | .ok mode => (.ok (), i.finishInit l mode)

/-- On a cluster node the streams are pinned to the node. -/
def setPerNode (i : Image) (cluster : Bool) : Image :=
  if cluster then
    { i with node := { i.node with st := { i.node.st with config := { i.node.st.config with perNode := true } } } }
  else i

/-- The gates between the reset and the subscription, and the subscription. -/
def subscribe (l : Load) (i : Image) : Except Refusal Unit × Image :=
  if l.cluster ∧ i.settings.clusterStreams ≠ "per-node".toList then
    (.error ⟨.cluster, ("eventstream refuses to load in cluster mode (keyspace notifications are node-local and a " ++
      "fixed stream name hashes to a slot this node may not own, SPEC.md section 10). Set " ++
      "eventstream.cluster-streams per-node to enable per-node capture; refusing to load.").toList⟩, i)
  else
    let i := i.setPerNode l.cluster
    if ¬ l.keyspaceEvents then
      (.error ⟨.keyspaceEvents, "eventstream: failed to subscribe to keyspace events; refusing to load".toList⟩, i)
    else start l { i with subscribedExtra := some (subscribedBy i.settings.events.parsed) }

/-- The gates before the reset, which leave the image alone. -/
def preflight (l : Load) : Except Refusal Unit :=
  match l.version with
  | .error e => .error ⟨.version, "eventstream: cannot determine Redis version: ".toList ++ e⟩
  | .ok (major, minor, patch) =>
    if ¬ versionSupported major minor then
      .error ⟨.version,
        "eventstream requires Redis 7.2 or newer (RM_AddPostNotificationJob); running server is ".toList ++
        showNat major ++ ['.'] ++ showNat minor ++ ['.'] ++ showNat patch⟩
    else if ¬ l.deferral then
      .error ⟨.deferral, ("eventstream requires RedisModule_AddPostNotificationJob (Redis 7.2 or newer); the " ++
        "running server does not provide it; refusing to load.").toList⟩
    else .ok ()

def init (l : Load) (i : Image) : Except Refusal Unit × Image :=
  match preflight l with
  | .error r => (.error r, i)
  | .ok _ => i.resetGenerationState.subscribe l

/-- A load into the image: the setters run before `init`, and a failure of either does not run `deinit`. -/
def load (l : Load) (i : Image) : Except Refusal Unit × Image :=
  match ({ i with env := l.env } : Image).loadConfigs l.args.settings with
  | (.error e, i) => (.error ⟨.setting, e⟩, i)
  | (.ok _, i) => i.init l

/-! ## `deinit` -/

/-- What `deinit` does once the worker has stopped: it writes the pending markers and its own. -/
def deinit (env : Env) (st : State) : State :=
  if ¬ st.capturing then st
  else
    let drained := st.pendingMarkers
    match tagSegment env { st with pendingMarkers := [], markersDirty := false } with
    | (none, st) => st
    | (some seg, st) =>
      let control := controlStreamOf st.config.pfx seg
      let retention := controlRetention st
      writeMarker env (writeMarkers env st control retention drained) control .unloading none retention

/-- The server forgets the subscription, and the sentinel is restored for the next load. -/
def unload (i : Image) : Image :=
  { i with node := i.node.note none (deinit i.env i.node.st), subscribedExtra := none, subscription := none }

/-! ## Steps -/

inductive Act
  | load (l : Load)
  /-- A step of the loaded module. -/
  | module (act : Node.Act)
  /-- `CONFIG SET` of the loaded module. -/
  | set (x : Setting)
  /-- The server's configuration changes, and the module reads the policy. -/
  | policy (reply : Option Str)
  | unload
  /-- The server goes on without the module. -/
  | server (ks : Keyspace) (master loading : Bool)

/-- The steps of a loaded module: events come by the subscription, and settings by their setters. -/
def delivers (mask : NotifyEvent) : Node.Act → Bool
  | .notify cls _ _ _ _ _ _ => cls ∩ mask ≠ ∅
  | .setEnabled _ | .configure _ | .command (.setAutoGroup _) | .command (.setFirehose _) => false
  | _ => true

def step (i : Image) (act : Act) : Option Image :=
  match i.subscription, act with
  | none, .load l => some (i.load l).2
  | none, .server ks master loading =>
    some { i with
      node := i.node.note none { i.node.st with keyspace := ks, master := master, loading := loading } }
  | some mask, .module act =>
    if delivers mask act then (Node.step i.settings.setup i.env i.node act).map fun n => { i with node := n } else none
  | some _, .set x => if i.node.atCommand ∧ x.isMutable then some (i.set x).2 else none
  | some _, .policy reply => if i.node.atCommand then some (i.recheckEvictionRisk reply) else none
  | some _, .unload => if i.node.phase = .stopped then some i.unload else none
  | _, _ => none

/-- The images of the histories that take allowed steps only. -/
def Reach (allowed : Image → Act → Prop) : Image → Prop :=
  Machine.Reach (fun i act i' => step i act = some i') allowed fun i =>
    ∃ env ks master loading, i = boot env ks master loading

/-! ## What the setters leave -/

/-- The configuration in force is that of the stored settings. -/
def Synced (i : Image) : Prop := i.node.st.config = i.settings.config i.node.st.config.perNode

/-- What the setters keep, and what they see to. -/
structure Kept (i i' : Image) : Prop where
  subscribedExtra : i'.subscribedExtra = i.subscribedExtra
  subscription : i'.subscription = i.subscription
  env : i'.env = i.env
  keyspace : i'.node.st.keyspace = i.node.st.keyspace
  role : i'.node.st.master = i.node.st.master ∧ i'.node.st.loading = i.node.st.loading
  worker : i'.node.worker = i.node.worker
  synced : i.Synced → i'.Synced

theorem Kept.refl (i : Image) : Kept i i := ⟨rfl, rfl, rfl, rfl, ⟨rfl, rfl⟩, rfl, fun h => h⟩

theorem Kept.trans {i j k : Image} (h : Kept i j) (h' : Kept j k) : Kept i k where
  subscribedExtra := h'.subscribedExtra.trans h.subscribedExtra
  subscription := h'.subscription.trans h.subscription
  env := h'.env.trans h.env
  keyspace := h'.keyspace.trans h.keyspace
  role := ⟨h'.role.1.trans h.role.1, h'.role.2.trans h.role.2⟩
  worker := h'.worker.trans h.worker
  synced hs := h'.synced (h.synced hs)

theorem set_error {i : Image} {x : Setting} {e : Str} (h : i.settings.set i.subscribedExtra x = .error e) :
    i.set x = (.error e, i) := by
  simp only [set, h]

theorem set_ok {i : Image} {x : Setting} {s : Settings} (h : i.settings.set i.subscribedExtra x = .ok s) :
    (i.set x).1 = .ok () ∧ (i.set x).2.settings = s ∧ Kept i (i.set x).2 := by
  simp only [set, h]
  cases x with
  | enabled now =>
    simp only
    split
    · exact ⟨trivial, trivial, rfl, rfl, rfl, rfl, ⟨rfl, rfl⟩, rfl, fun _ => rfl⟩
    · exact ⟨trivial, trivial, rfl, rfl, rfl, rfl, ⟨rfl, rfl⟩, rfl, fun _ => rfl⟩
  | _ => exact ⟨rfl, rfl, rfl, rfl, rfl, rfl, ⟨rfl, rfl⟩, rfl, fun _ => rfl⟩

theorem loadConfigs_kept (i : Image) (xs : List Setting) : Kept i (i.loadConfigs xs).2 := by
  induction xs generalizing i with
  | nil => exact Kept.refl i
  | cons x xs ih =>
    unfold loadConfigs
    cases hx : i.settings.set i.subscribedExtra x with
    | error e =>
      rw [set_error hx]
      exact Kept.refl i
    | ok s =>
      obtain ⟨hok, -, hk⟩ := set_ok hx
      rw [← Prod.eta (i.set x), hok]
      exact hk.trans (ih _)

/-- The setters of a load accept and store what they accept and store one by one. -/
theorem loadConfigs_stored (i : Image) (xs : List Setting) :
    (i.loadConfigs xs).1.map (fun _ => (i.loadConfigs xs).2.settings) = i.settings.setAll i.subscribedExtra xs := by
  induction xs generalizing i with
  | nil => rfl
  | cons x xs ih =>
    unfold loadConfigs Settings.setAll
    rw [List.foldlM_cons]
    cases hx : i.settings.set i.subscribedExtra x with
    | error e =>
      rw [set_error hx]
      rfl
    | ok s =>
      obtain ⟨hok, hs, hk⟩ := set_ok hx
      have := ih (i.set x).2
      rw [hs, hk.subscribedExtra] at this
      rw [← Prod.eta (i.set x), hok]
      exact this

/-! ## Loads -/

/-- An image that is not loaded: no worker is left of an earlier generation. -/
structure Ready (i : Image) : Prop where
  unloaded : i.subscription = none
  synced : i.Synced
  idle : i.node.worker.hasHandle = false

theorem Kept.ready {i i' : Image} (h : Kept i i') (hi : Ready i) : Ready i' :=
  ⟨h.subscription.trans hi.unloaded, h.synced hi.synced, by rw [h.worker]; exact hi.idle⟩

theorem boot_ready (env : Env) (ks : Keyspace) (master loading : Bool) : Ready (boot env ks master loading) :=
  ⟨rfl, rfl, rfl⟩

/-- The same server beside two images. -/
structure SameServer (i j : Image) : Prop where
  env : i.env = j.env
  keyspace : i.node.st.keyspace = j.node.st.keyspace
  role : i.node.st.master = j.node.st.master ∧ i.node.st.loading = j.node.st.loading

/-- The reset leaves nothing of an earlier generation but the classes it subscribed to. -/
theorem resetGenerationState_eq {i : Image} (hi : Ready i) : i.resetGenerationState =
    { boot i.env i.node.st.keyspace i.node.st.master i.node.st.loading with
      settings := i.settings
      lastEnabled := i.settings.enabled
      subscribedExtra := i.subscribedExtra
      node := .initial .sync { State.fresh (i.settings.config false) i.node.st.keyspace with
        master := i.node.st.master, loading := i.node.st.loading } } := by
  have hconfig : { i.node.st.config with perNode := false } = i.settings.config false := by
    rw [show i.node.st.config = _ from hi.synced]
    rfl
  have hworker : (if i.node.worker.hasHandle then i.node.worker else .absent) = .absent := by
    rw [hi.idle]
    rfl
  simp only [resetGenerationState, startOver, resetDispatchGeneration, EventStream.resetGenerationState,
    hconfig, hworker, boot, hi.unloaded, Node.initial, State.fresh]
  rfl

/-- What the gates behind the reset do does not depend on an earlier subscription. -/
theorem subscribe_congr (l : Load) (i : Image) (extra : Option NotifyEvent) :
    (subscribe l { i with subscribedExtra := extra }).1 = (subscribe l i).1 ∧
      ((subscribe l i).1.isOk = true →
        (subscribe l { i with subscribedExtra := extra }).2 = (subscribe l i).2) := by
  unfold subscribe
  split
  · exact ⟨rfl, fun h => by cases h⟩
  · simp only
    split
    · exact ⟨rfl, fun h => by cases h⟩
    · cases l.cluster <;> exact ⟨rfl, fun _ => rfl⟩

theorem init_congr (l : Load) {i j : Image} (hi : Ready i) (hj : Ready j) (hs : i.settings = j.settings)
    (hserver : SameServer i j) :
    (init l i).1 = (init l j).1 ∧ ((init l j).1.isOk = true → (init l i).2 = (init l j).2) := by
  unfold init
  cases preflight l with
  | error r => exact ⟨rfl, fun h => by cases h⟩
  | ok _ =>
    have hreset : i.resetGenerationState = { j.resetGenerationState with subscribedExtra := i.subscribedExtra } := by
      rw [resetGenerationState_eq hi, resetGenerationState_eq hj, hs, hserver.env, hserver.keyspace, hserver.role.1,
        hserver.role.2]
    simp only [hreset]
    exact subscribe_congr l _ _

/-- Two images beside the same server whose setters agree do the same. -/
theorem load_congr (l : Load) {i j : Image} (hi : Ready i) (hj : Ready j)
    (hserver : SameServer { i with env := l.env } { j with env := l.env })
    (hset : i.settings.setAll i.subscribedExtra l.args.settings = j.settings.setAll j.subscribedExtra l.args.settings) :
    (i.load l).1 = (j.load l).1 ∧ ((j.load l).1.isOk = true → (i.load l).2 = (j.load l).2) := by
  have hstored := loadConfigs_stored { i with env := l.env } l.args.settings
  have hstored' := loadConfigs_stored { j with env := l.env } l.args.settings
  have hk := loadConfigs_kept { i with env := l.env } l.args.settings
  have hk' := loadConfigs_kept { j with env := l.env } l.args.settings
  rw [show ({ i with env := l.env } : Image).settings.setAll _ _ = _ from hset, ← hstored'] at hstored
  unfold load
  generalize ({ i with env := l.env } : Image).loadConfigs l.args.settings = r at hstored hk
  generalize ({ j with env := l.env } : Image).loadConfigs l.args.settings = r' at hstored hk'
  obtain ⟨r, i'⟩ := r
  obtain ⟨r', j'⟩ := r'
  cases r with
  | error e =>
    cases r' with
    | error e' =>
      cases hstored
      exact ⟨rfl, fun h => by cases h⟩
    | ok _ => cases hstored
  | ok _ =>
    cases r' with
    | error e' => cases hstored
    | ok _ =>
      refine init_congr l (hk.ready ⟨hi.unloaded, hi.synced, hi.idle⟩) (hk'.ready ⟨hj.unloaded, hj.synced, hj.idle⟩)
        (Except.ok.inj hstored) ⟨?_, ?_, ?_, ?_⟩
      · rw [hk.env, hk'.env]
      · rw [hk.keyspace, hk'.keyspace, hserver.keyspace]
      · rw [hk.role.1, hk'.role.1, hserver.role.1]
      · rw [hk.role.2, hk'.role.2, hserver.role.2]

/-- A load that names no class an earlier subscription lacks does what it does in a new process. -/
theorem load_of_covers {l : Load} {i : Image} (hi : Ready i) (h : lacks i.subscribedExtra l.args.events = false) :
    (i.load l).1 = (i.fresh.load l).1 ∧ ((i.fresh.load l).1.isOk = true → (i.load l).2 = (i.fresh.load l).2) := by
  refine load_congr l hi (boot_ready _ _ _ _) ⟨rfl, rfl, rfl, rfl⟩ ?_
  rw [Settings.setAll_subscribed h, Settings.setAll_stored none i.settings i.fresh.settings]
  rfl

/-- A load that names such a class is refused. -/
theorem load_of_lacks {l : Load} {i : Image} (h : lacks i.subscribedExtra l.args.events = true) :
    ∃ e, (i.load l).1 = .error ⟨.setting, e⟩ := by
  obtain ⟨e, he⟩ := Settings.setAll_lacks h i.settings
  have hstored := loadConfigs_stored { i with env := l.env } l.args.settings
  rw [show ({ i with env := l.env } : Image).settings.setAll _ _ = _ from he] at hstored
  unfold load
  generalize ({ i with env := l.env } : Image).loadConfigs l.args.settings = r at hstored
  obtain ⟨r, i'⟩ := r
  cases r with
  | error e' => exact ⟨e', rfl⟩
  | ok _ => cases hstored

/-- A load does what it does in a new process: it is accepted or refused alike, and if it is accepted, it leaves the
same image. -/
def AsFresh (i : Image) (l : Load) : Prop :=
  (i.load l).1.isOk = (i.fresh.load l).1.isOk ∧ ((i.fresh.load l).1.isOk = true → (i.load l).2 = (i.fresh.load l).2)

theorem asFresh_iff {i : Image} (hi : Ready i) (l : Load) :
    i.AsFresh l ↔ ((i.fresh.load l).1.isOk = true → lacks i.subscribedExtra l.args.events = false) := by
  cases hl : lacks i.subscribedExtra l.args.events with
  | false =>
    obtain ⟨hsame, himage⟩ := load_of_covers hi hl
    exact iff_of_true ⟨by rw [hsame], himage⟩ fun _ => rfl
  | true =>
    obtain ⟨e, he⟩ := load_of_lacks hl
    have hrefused : (i.load l).1.isOk = false := by rw [he]; rfl
    constructor
    · intro h hok
      rw [h.1, hok] at hrefused
      cases hrefused
    · intro h
      have hfresh : (i.fresh.load l).1.isOk = false := by
        cases hok : (i.fresh.load l).1.isOk with
        | false => rfl
        | true => cases h hok
      exact ⟨hrefused.trans hfresh.symm, fun hok => by rw [hfresh] at hok; cases hok⟩

/-! ## Generations -/

theorem recheckEvictionRisk_eq (i : Image) (policy : Option Str) :
    ∃ risk, i.recheckEvictionRisk policy = { i with evictionRisk := risk } := by
  cases policy with
  | none => exact ⟨i.evictionRisk, rfl⟩
  | some policy => exact ⟨_, rfl⟩

/-- The gates behind the subscription either refuse and leave the image alone, or let the worker start. -/
theorem start_cases (l : Load) (i : Image) :
    (∃ r risk, start l i = (.error r, { i with evictionRisk := risk }) ∧ r.gate.isLate = true) ∨
    ∃ mode risk, startDispatchWorker i.settings.setup i.node.st.config
        ⟨l.cluster, l.tryLock, i.node.slot || i.node.worker.hasHandle, l.spawn⟩ = .ok mode ∧
      start l i = (.ok (), finishInit l { i with evictionRisk := risk } mode) := by
  obtain ⟨risk, hrisk⟩ := i.recheckEvictionRisk_eq l.policy
  unfold start
  simp only [hrisk]
  split
  · exact Or.inl ⟨_, risk, rfl, rfl⟩
  · split
    · exact Or.inl ⟨_, risk, rfl, rfl⟩
    · rename_i mode hmode
      exact Or.inr ⟨mode, risk, hmode, rfl⟩

theorem setPerNode_settings (i : Image) (cluster : Bool) : (i.setPerNode cluster).settings = i.settings := by
  cases cluster <;> rfl

theorem setPerNode_ready {i : Image} (hi : Ready i) (cluster : Bool) :
    Ready (i.setPerNode cluster) ∧ (i.setPerNode cluster).subscribedExtra = i.subscribedExtra := by
  cases cluster with
  | false => exact ⟨hi, rfl⟩
  | true =>
    refine ⟨⟨hi.unloaded, ?_, hi.idle⟩, rfl⟩
    change { i.node.st.config with perNode := true } = i.settings.config true
    rw [show i.node.st.config = _ from hi.synced]
    rfl

/-- The gates between the reset and the subscription either refuse, or let the load go on. -/
theorem subscribe_cases (l : Load) {i : Image} (hi : Ready i) :
    (∃ r i', subscribe l i = (.error r, i') ∧ r.gate.isLate = false ∧ Ready i' ∧
      i'.subscribedExtra = i.subscribedExtra) ∨
    subscribe l i =
      start l { i.setPerNode l.cluster with subscribedExtra := some (subscribedBy i.settings.events.parsed) } := by
  obtain ⟨hready, hextra⟩ := setPerNode_ready hi l.cluster
  unfold subscribe
  split
  · exact Or.inl ⟨_, i, rfl, rfl, hi, rfl⟩
  · simp only
    split
    · exact Or.inl ⟨_, _, rfl, rfl, hready, hextra⟩
    · rw [setPerNode_settings]
      exact Or.inr rfl

/-- A reset leaves an image that can be loaded. -/
theorem resetGenerationState_ready {i : Image} (hi : Ready i) :
    Ready i.resetGenerationState ∧ i.resetGenerationState.subscribedExtra = i.subscribedExtra := by
  rw [resetGenerationState_eq hi]
  exact ⟨⟨rfl, rfl, rfl⟩, rfl⟩

/-- What a load comes to: it is refused by a setter, before the subscription or behind it, or the worker starts in an
image that has been reset. -/
theorem load_cases (l : Load) {i : Image} (hi : Ready i) :
    (∃ r i', i.load l = (.error r, i') ∧ Ready i' ∧ (r.gate.isLate = false → i'.subscribedExtra = i.subscribedExtra)) ∨
    ∃ settings mode risk, i.load l = (.ok (), finishInit l { (boot l.env i.node.st.keyspace i.node.st.master
        i.node.st.loading) with
          settings := settings
          lastEnabled := settings.enabled
          subscribedExtra := some (subscribedBy settings.events.parsed)
          evictionRisk := risk
          node := .initial .sync { State.fresh (settings.config l.cluster) i.node.st.keyspace with
            master := i.node.st.master, loading := i.node.st.loading } } mode) ∧
      startDispatchWorker settings.setup (settings.config l.cluster) ⟨l.cluster, l.tryLock, false, l.spawn⟩ =
        .ok mode := by
  have hk := loadConfigs_kept { i with env := l.env } l.args.settings
  unfold load
  generalize ({ i with env := l.env } : Image).loadConfigs l.args.settings = r at hk
  obtain ⟨r, j⟩ := r
  have hj : Ready j := hk.ready ⟨hi.unloaded, hi.synced, hi.idle⟩
  cases r with
  | error e => exact Or.inl ⟨_, j, rfl, hj, fun _ => hk.subscribedExtra⟩
  | ok _ =>
    simp only [init]
    cases preflight l with
    | error r => exact Or.inl ⟨r, j, rfl, hj, fun _ => hk.subscribedExtra⟩
    | ok _ =>
      obtain ⟨hready, hextra⟩ := resetGenerationState_ready hj
      rcases subscribe_cases l hready with ⟨r, i', he, -, hi', hx⟩ | he
      · exact Or.inl ⟨r, i', he, hi', fun _ => hx.trans (hextra.trans hk.subscribedExtra)⟩
      · simp only [he]
        have hpinned := (setPerNode_ready hready l.cluster).1
        rcases start_cases l { (j.resetGenerationState).setPerNode l.cluster with
            subscribedExtra := some (subscribedBy j.resetGenerationState.settings.events.parsed) } with
          ⟨r, risk, hs, hlate⟩ | ⟨mode, risk, hmode, hs⟩
        · refine Or.inl ⟨r, _, hs, ⟨hpinned.unloaded, hpinned.synced, hpinned.idle⟩, fun hearly => ?_⟩
          rw [hlate] at hearly
          cases hearly
        · refine Or.inr ⟨j.settings, mode, risk, ?_, ?_⟩
          · rw [hs, resetGenerationState_eq hj, hk.env, hk.keyspace, hk.role.1, hk.role.2]
            cases l.cluster <;> rfl
          · rw [resetGenerationState_eq hj] at hmode
            cases hc : l.cluster <;> rw [hc] at hmode <;> exact hmode

/-- A loaded image: its settings are in force, and its module runs from a load. -/
structure Live (i : Image) : Prop where
  synced : i.Synced
  enabled : i.lastEnabled = i.settings.enabled
  running : Node.Reach i.settings.setup i.env (fun _ _ => True) i.node

/-- An accepted load leaves a freshly loaded module. -/
theorem load_live {l : Load} {i i' : Image} (hi : Ready i) (h : i.load l = (.ok (), i')) : Live i' := by
  rcases load_cases l hi with ⟨r, i₁, he, -⟩ | ⟨settings, mode, risk, he, hmode⟩
  · rw [he] at h
    cases h
  · rw [he] at h
    cases h
    refine ⟨?_, rfl, .start ⟨settings.config l.cluster, ⟨l.cluster, l.tryLock, false, l.spawn⟩, i.node.st.keyspace,
      l.generation, i.node.st.master, i.node.st.loading, mode, hmode, ?_⟩⟩
    · simp only [Synced, finishInit]
      split <;> split <;> rfl
    · rfl

end Image

namespace Node

section Stopped

variable {setup : Setup} {env : Env} {n n' : Node}

/-- Once the worker is joined no handle of it is left. -/
def HandleTaken (n : Node) : Prop := n.phase = .finishing ∨ n.phase = .stopped → n.worker.hasHandle = false

theorem step_handleTaken {act : Act} (hw : Wf setup n) (hs : step setup env n act = some n') (h : HandleTaken n) :
    HandleTaken n' := by
  cases hst : isSteady act with
  | true =>
    obtain ⟨-, hphase, hworker⟩ := (step_steady hw hs hst).control
    intro hp
    rw [hphase] at hp
    rw [hworker]
    exact h hp
  | false =>
    -- the steps of the worker are steps of one that has a handle, so the main thread has not joined it
    have hkeep : n.worker.hasHandle = true → n'.phase = n.phase → HandleTaken n' := by
      intro hhas hphase hp
      rw [hphase] at hp
      rw [h hp] at hhas
      cases hhas
    cases step_fires hs with
    | started hwk | notStarted hwk | wake hwk _ _ | prepare hwk | stopWaiting _ hwk | stopSpinning _ hwk =>
      exact hkeep (by rw [hwk]; rfl) rfl
    | lock hwk _ => exact hkeep (by rw [hwk]; rfl) (lockWorker_control setup n _).2.1
    | unlock hhold _ _ => exact hkeep (by rw [hw.lock.1 hhold]; rfl) rfl
    | stopSync hcmd _ hsync =>
      intro _
      change n.worker.hasHandle = false
      rw [hw.absent ((hw.mode hcmd.2.1).symm.trans hsync)]
      rfl
    | requestStop _ _ _ => rintro (hp | hp) <;> cases hp
    | join _ _ => exact fun _ => rfl
    | finish hfin _ => exact fun _ => h (Or.inl hfin)
    | _ => cases hst

theorem Reach.handleTaken {allowed : Node → Act → Prop} (h : Reach setup env allowed n) : HandleTaken n := by
  refine Machine.Reach.invariant (I := HandleTaken) ?_ (fun _ _ _ hr _ hs ih => step_handleTaken (Reach.wf hr) hs ih) h
  rintro n ⟨config, host, ks, generation, master, loading, mode, -, rfl⟩ (hp | hp) <;> cases hp

/-- The steps that a subscription delivers leave the configuration alone. -/
theorem step_config_of_delivers {mask : NotifyEvent} {act : Act} (hs : step setup env n act = some n')
    (hd : Image.delivers mask act = true) : n'.st.config = n.st.config := by
  cases act with
  | command op =>
    cases step_fires hs with
    | command _ hop =>
      rcases command_config env n.st hop with hc | ⟨name, rfl⟩ | ⟨on, rfl⟩
      · exact hc
      · cases hd
      · cases hd
  | setEnabled on | configure config => cases hd
  | _ => exact step_config hs rfl rfl

end Stopped

end Node

namespace Image

/-- A `CONFIG SET` of the loaded module is a step of it, or changes nothing. -/
theorem set_step {i : Image} {x : Setting} (hi : Live i) (hc : i.node.atCommand) (hx : x.isMutable = true) :
    (i.set x).2 = i ∨ ((i.set x).2.settings.setup = i.settings.setup ∧ (i.set x).2.env = i.env ∧
      (i.set x).2.lastEnabled = (i.set x).2.settings.enabled ∧
      ∃ act, Node.step i.settings.setup i.env i.node act = some (i.set x).2.node) := by
  cases hset : i.settings.set i.subscribedExtra x with
  | error e =>
    rw [set_error hset]
    exact Or.inl rfl
  | ok s =>
    refine Or.inr ?_
    obtain ⟨-, hs, hk⟩ := set_ok hset
    have hfixed := Settings.set_fixed hx hset
    simp only [Settings.fixed, Prod.mk.injEq] at hfixed
    obtain ⟨hsetup, hpfx, hseq, hms⟩ := hfixed
    refine ⟨by rw [hs, hsetup], hk.env, ?_⟩
    have hsynced := hi.synced
    by_cases hon : ∃ on, x = .enabled on
    · obtain ⟨now, rfl⟩ := hon
      cases hset
      have hsynced' : i.settings.config i.node.st.config.perNode = i.node.st.config := hsynced.symm
      have hconfig : ({ i.settings with enabled := now } : Settings).config i.node.st.config.perNode =
          { i.node.st.config with enabled := now } := by
        rw [show i.node.st.config = _ from hsynced]
        rfl
      have henabled : i.node.st.config.enabled = i.lastEnabled := by
        rw [hi.enabled, hsynced]
        rfl
      refine ⟨rfl, .setEnabled now, ?_⟩
      simp only [Node.step, if_pos hc, set, Settings.set, hconfig, Node.enabledChanged, henabled]
      by_cases hsame : i.lastEnabled = now
      · have hnow : { i.node.st.config with enabled := now } = i.node.st.config := by
          rw [← hsame, ← henabled]
        simp only [if_pos hsame, hnow]
      · simp only [if_neg hsame]
    · have hother : ∀ on, x ≠ .enabled on := fun on e => hon ⟨on, e⟩
      have henabled := Settings.set_enabled hother hset
      have hi' : (i.set x).2 = { i with
          settings := s
          node := i.node.note none { i.node.st with config := s.config i.node.st.config.perNode } } := by
        simp only [set, hset]
      rw [hi']
      refine ⟨hi.enabled.trans henabled.symm, .configure (s.config i.node.st.config.perNode), ?_⟩
      have hmutable : Node.mutable i.node.st.config (s.config i.node.st.config.perNode) = true := by
        rw [show i.node.st.config = _ from hsynced]
        simp only [Node.mutable, Settings.config, hpfx, hseq, hms, henabled, decide_true, Bool.and_self]
      simp only [Node.step, if_pos (And.intro hc hmutable)]

/-! ## Histories -/

/-- An image that is not loaded is ready for a load, and one that is loaded runs. -/
structure Sound (i : Image) : Prop where
  ready : i.subscription = none → Ready i
  live : i.subscription ≠ none → Live i

theorem Ready.sound {i : Image} (h : Ready i) : Sound i := ⟨fun _ => h, fun hs => absurd h.unloaded hs⟩

theorem Live.sound {i : Image} (h : Live i) (hs : i.subscription ≠ none) : Sound i :=
  ⟨fun hn => absurd hn hs, fun _ => h⟩

theorem load_sound (l : Load) {i : Image} (hi : Ready i) : Sound (i.load l).2 := by
  rcases load_cases l hi with ⟨r, i', he, hi', -⟩ | ⟨settings, mode, risk, he, -⟩
  · rw [he]
    exact hi'.sound
  · have hlive := load_live hi he
    rw [he]
    refine hlive.sound fun hn => ?_
    cases hn

theorem writeMarkers_config (env : Env) (control : Str) (retention : Retention) (markers : List Recorded) (st : State) :
    (writeMarkers env st control retention markers).config = st.config := by
  unfold writeMarkers
  induction markers generalizing st with
  | nil => rfl
  | cons m markers ih =>
    rw [List.foldl_cons, ih]
    exact (writeMarker_trail env st (P := fun _ _ => True) control (fun _ _ => trivial) _ _ retention).config

theorem deinit_config (env : Env) (st : State) : (deinit env st).config = st.config := by
  unfold deinit
  split
  · rfl
  · have htag := (tagSegment_trail env { st with pendingMarkers := [], markersDirty := false } (P := fun _ _ => True)
      fun _ => trivial).config
    simp only
    split
    · rename_i st₁ he
      rw [he] at htag
      exact htag
    · rename_i seg st₁ he
      rw [he] at htag
      rw [(writeMarker_trail env _ (P := fun _ _ => True) _ (fun _ _ => trivial) _ _ _).config, writeMarkers_config]
      exact htag

/-- A stopped module is unloaded without leaving a worker. -/
theorem unload_ready {i : Image} (hi : Live i) (hphase : i.node.phase = .stopped) : Ready i.unload := by
  refine ⟨rfl, ?_, hi.running.handleTaken (Or.inr hphase)⟩
  change (deinit i.env i.node.st).config = i.settings.config (deinit i.env i.node.st).config.perNode
  rw [deinit_config]
  exact hi.synced

theorem set_kept (i : Image) (x : Setting) : Kept i (i.set x).2 := by
  cases hset : i.settings.set i.subscribedExtra x with
  | error e =>
    rw [set_error hset]
    exact Kept.refl i
  | ok s => exact (set_ok hset).2.2

/-- A step of the loaded module. -/
theorem module_live {i : Image} {mask : NotifyEvent} {act : Node.Act} {n : Node} (hi : Live i)
    (hn : Node.step i.settings.setup i.env i.node act = some n) (hd : delivers mask act = true) :
    Live { i with node := n } := by
  refine ⟨?_, hi.enabled, hi.running.next trivial hn⟩
  change n.st.config = i.settings.config n.st.config.perNode
  rw [Node.step_config_of_delivers hn hd]
  exact hi.synced

theorem set_live {i : Image} {x : Setting} (hi : Live i) (hc : i.node.atCommand) (hx : x.isMutable = true) :
    Live (i.set x).2 := by
  rcases set_step hi hc hx with he | ⟨hsetup, henv, henabled, act, hn⟩
  · rw [he]
    exact hi
  · refine ⟨(set_kept i x).synced hi.synced, henabled, ?_⟩
    rw [hsetup, henv]
    exact hi.running.next trivial hn

/-- What a step does to an image. -/
inductive Turn (i : Image) : Act → Image → Prop
  | load (l : Load) (hu : i.subscription = none) : Turn i (.load l) (i.load l).2
  | server (ks : Keyspace) (master loading : Bool) (hu : i.subscription = none) :
    Turn i (.server ks master loading) { i with
      node := i.node.note none { i.node.st with keyspace := ks, master := master, loading := loading } }
  | module {mask : NotifyEvent} {act : Node.Act} {n : Node} (hm : i.subscription = some mask)
    (hd : delivers mask act = true) (hn : Node.step i.settings.setup i.env i.node act = some n) :
    Turn i (.module act) { i with node := n }
  | set {x : Setting} (hm : i.subscription ≠ none) (hc : i.node.atCommand) (hx : x.isMutable = true) :
    Turn i (.set x) (i.set x).2
  | policy (reply : Option Str) (risk : Bool) (hm : i.subscription ≠ none) :
    Turn i (.policy reply) { i with evictionRisk := risk }
  | unload (hm : i.subscription ≠ none) (hp : i.node.phase = .stopped) : Turn i .unload i.unload

theorem step_turn {i i' : Image} {act : Act} (hs : step i act = some i') : Turn i act i' := by
  unfold step at hs
  split at hs
  · rename_i l hu
    cases hs
    exact .load l hu
  · rename_i ks master loading hu
    cases hs
    exact .server ks master loading hu
  · rename_i mask act hm
    simp only [Option.ite_none_right_eq_some] at hs
    obtain ⟨hd, hs⟩ := hs
    obtain ⟨n, hn, rfl⟩ := Option.map_eq_some_iff.1 hs
    exact .module hm hd hn
  · rename_i mask x hm
    simp only [Option.ite_none_right_eq_some, Option.some.injEq] at hs
    obtain ⟨⟨hc, hx⟩, rfl⟩ := hs
    exact .set (Option.ne_none_iff_exists'.2 ⟨mask, hm⟩) hc hx
  · rename_i mask reply hm
    simp only [Option.ite_none_right_eq_some, Option.some.injEq] at hs
    obtain ⟨-, rfl⟩ := hs
    obtain ⟨risk, hrisk⟩ := i.recheckEvictionRisk_eq reply
    rw [hrisk]
    exact .policy reply risk (Option.ne_none_iff_exists'.2 ⟨mask, hm⟩)
  · rename_i mask hm
    simp only [Option.ite_none_right_eq_some, Option.some.injEq] at hs
    obtain ⟨hp, rfl⟩ := hs
    exact .unload (Option.ne_none_iff_exists'.2 ⟨mask, hm⟩) hp
  · cases hs

/-- A step keeps an image ready or running. -/
theorem step_sound {i i' : Image} {act : Act} (hs : step i act = some i') (hi : Sound i) : Sound i' := by
  cases step_turn hs with
  | load l hu => exact load_sound l (hi.ready hu)
  | server ks master loading hu =>
    have hready := hi.ready hu
    exact Ready.sound ⟨hready.unloaded, hready.synced, hready.idle⟩
  | module hm hd hn =>
    have hloaded := Option.ne_none_iff_exists'.2 ⟨_, hm⟩
    exact (module_live (hi.live hloaded) hn hd).sound hloaded
  | @set x hm hc hx =>
    refine (set_live (hi.live hm) hc hx).sound ?_
    rw [(set_kept i x).subscription]
    exact hm
  | policy reply risk hm =>
    have hlive := hi.live hm
    exact Live.sound ⟨hlive.synced, hlive.enabled, hlive.running⟩ hm
  | unload hm hp => exact (unload_ready (hi.live hm) hp).sound

theorem Reach.sound {allowed : Image → Act → Prop} {i : Image} (h : Reach allowed i) : Sound i := by
  refine Machine.Reach.invariant (I := Sound) ?_ (fun _ _ _ _ _ hs ih => step_sound hs ih) h
  rintro i ⟨env, ks, master, loading, rfl⟩
  exact (boot_ready env ks master loading).sound

/-- The module of every generation runs as a module that was loaded in a new process. -/
theorem Reach.running {allowed : Image → Act → Prop} {i : Image} (h : Reach allowed i) (hs : i.subscription ≠ none) :
    Node.Reach i.settings.setup i.env (fun _ _ => True) i.node :=
  (h.sound.live hs).running

/-- A load that is refused is refused before it has subscribed. -/
def failsEarly (i : Image) : Act → Bool
  | .load l =>
    match (i.load l).1 with
    | .error r => !r.gate.isLate
    | .ok _ => true
  | _ => true

/-- Between two generations nothing is subscribed to, unless a load failed behind its subscription. -/
theorem Reach.subscribedExtra {i : Image} (h : Reach (fun i act => i.failsEarly act = true) i)
    (hu : i.subscription = none) : i.subscribedExtra = none := by
  refine Machine.Reach.invariant (I := fun i => i.subscription = none → i.subscribedExtra = none) ?_ ?_ h hu
  · rintro i ⟨env, ks, master, loading, rfl⟩ -
    rfl
  · intro i act i' hr hearly hs ih hu'
    cases step_turn hs with
    | load l hu =>
      rcases load_cases l ((Reach.sound hr).ready hu) with ⟨r, i', he, -, hextra⟩ | ⟨settings, mode, risk, he, -⟩
      · rw [failsEarly, he] at hearly
        rw [he]
        exact (hextra (by simpa using hearly)).trans (ih hu)
      · rw [he] at hu'
        cases hu'
    | server ks master loading hu => exact ih hu
    | module hm hd hn => exact ih hu'
    | @set x hm hc hx => exact absurd ((set_kept i x).subscription.symm.trans hu') hm
    | policy reply risk hm => exact absurd hu' hm
    | unload hm hp => rfl

/-- **Reloads.** After every history of an image, the next load does what it does in a new process beside the same
server exactly if the new process refuses it, or it names no extra class that an earlier load has left behind as not
subscribed to. Nothing is left behind in the histories whose refused loads are refused before the subscription. -/
theorem reload_fresh_iff (i : Image) (h : Reach (fun _ _ => True) i) (hu : i.subscription = none) (l : Load) :
    (i.AsFresh l ↔ ((i.fresh.load l).1.isOk = true → lacks i.subscribedExtra l.args.events = false)) ∧
      (Reach (fun i act => i.failsEarly act = true) i → i.AsFresh l) := by
  have hiff := asFresh_iff (h.sound.ready hu) l
  refine ⟨hiff, fun hearly => hiff.2 fun _ => ?_⟩
  rw [hearly.subscribedExtra hu]
  rfl

/-- A load on a server that answers everything. -/
def smoothLoad (args : Args) : Load where
  args := args
  env := .calm
  version := .ok (7, 4, 0)
  deferral := true
  cluster := false
  keyspaceEvents := true
  cronLoop := true
  tryLock := true
  spawn := .ok ()
  policy := some "noeviction".toList
  generation := "0".toList

/-- A load, an event that is written behind the marker of the load, and an unload. -/
def capturedOnce : List Act :=
  [.load (smoothLoad { events := "expired,@missed".toList }), .module (Node.expire [97]), .module .runJob,
    .module .process, .module .runJob, .module .process, .module .requestStop, .unload]

theorem reload_fresh_captured : ∃ i, Machine.run step (fun i act => i.failsEarly act = true)
    (boot .calm .empty true false) capturedOnce = some i ∧ i.subscription = none ∧ i.node.st.value .forwarded = 1 ∧
      (i.load (smoothLoad { events := "@new".toList })).1.isOk = true ∧
      i.AsFresh (smoothLoad { events := "@new".toList }) := by
  have hrun : (Machine.run step (fun i act => i.failsEarly act = true) (boot .calm .empty true false) capturedOnce).map
      (fun i => [decide (i.subscription = none), i.node.st.value .forwarded = 1,
        (i.load (smoothLoad { events := "@new".toList })).1.isOk]) = some [true, true, true] := by
    decide +kernel
  obtain ⟨i, hi, hvalues⟩ := Option.map_eq_some_iff.1 hrun
  simp only [List.cons.injEq, decide_eq_true_eq, and_true] at hvalues
  obtain ⟨hu, hforwarded, hok⟩ := hvalues
  have hearly : Reach (fun i act => i.failsEarly act = true) i :=
    Machine.reach_of_run (.start ⟨.calm, .empty, true, false, rfl⟩) hi
  have hany : Reach (fun _ _ => True) i := Machine.Reach.strengthen hearly fun _ _ _ _ _ _ => trivial
  exact ⟨i, hi, hu, hforwarded, hok, (reload_fresh_iff i hany hu _).2 hearly⟩

/-- A load that asks for a worker and the firehose is refused when the worker is to start, behind the subscription. -/
def refusedLate : List Act := [.load (smoothLoad { writeMode := .individual, firehose := true })]

/-- After it, a load that a new process accepts is refused by the setter of its events filter. -/
theorem refused_load_blocks_missed : ∃ i, Reach (fun _ _ => True) i ∧ i.subscription = none ∧
    (i.fresh.load (smoothLoad { events := "@missed".toList })).1 = .ok () ∧
    (i.load (smoothLoad { events := "@missed".toList })).1 = .error ⟨.setting, "@missed".toList ++ fixedAtLoad⟩ ∧
    ¬ i.AsFresh (smoothLoad { events := "@missed".toList }) := by
  have hrun : (Machine.run step (fun _ _ => True) (boot .calm .empty true false) refusedLate).map
      (fun i => [decide (i.subscription = none),
        (i.fresh.load (smoothLoad { events := "@missed".toList })).1 = .ok (),
        (i.load (smoothLoad { events := "@missed".toList })).1 =
          .error ⟨.setting, "@missed".toList ++ fixedAtLoad⟩]) = some [true, true, true] := by
    decide +kernel
  obtain ⟨i, hi, hvalues⟩ := Option.map_eq_some_iff.1 hrun
  simp only [List.cons.injEq, decide_eq_true_eq, and_true] at hvalues
  obtain ⟨hu, hfresh, hrefused⟩ := hvalues
  refine ⟨i, Machine.reach_of_run (.start ⟨.calm, .empty, true, false, rfl⟩) hi, hu, hfresh, hrefused, fun h => ?_⟩
  have hsame := h.1
  rw [hrefused, hfresh] at hsame
  cases hsame

end Image

end EventStream

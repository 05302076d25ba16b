import EventStream.Notify
import EventStream.Steps

/-!
# Lifecycle points and commands

The operations that touch the per-stream records from outside the write path: flushes and database swaps with the
callbacks the module hooks on them, `EVENTSTREAM.PRUNE` and `EVENTSTREAM.STREAMS`, the `auto-group` setting, and the
reset of a new generation. `Op` lists them beside the processors, and `runOps` is a run.
-/

namespace EventStream

open Text (Str Bytes utf8 ofUtf8 showNat)

/-! ## Flushes and swaps -/

/-- What `FLUSHDB` or, at `-1`, `FLUSHALL` leaves of the keyspace. -/
def Keyspace.flush (ks : Keyspace) (dbnum : Int32) : Keyspace := fun db k =>
  if dbnum = -1 ∨ dbnum.toInt = db then none else ks db k

/-- What `SWAPDB` makes of the keyspace. -/
def Keyspace.swap (ks : Keyspace) (first second : Nat) : Keyspace := fun db k =>
  ks (if db = first then second else if db = second then first else db) k

/-- The start of a flush: the records go on any role, the marker is recorded on the capturing master only. -/
def onFlushStarted (st : State) (dbnum : Int32) : State :=
  let st := st.clearStats
  if st.capturing then recordPendingMarker st (.flushed dbnum) else st

/-- On every role the start of a flush clears the records and keeps the settings. -/
theorem onFlushStarted_clears (st : State) (dbnum : Int32) :
    (onFlushStarted st dbnum).config = st.config ∧ (onFlushStarted st dbnum).streamStats = ∅ ∧
      (onFlushStarted st dbnum).currentStreams = 0 ∧ (onFlushStarted st dbnum).trace = st.trace ++ [.cleared] := by
  unfold onFlushStarted
  simp only
  split <;> exact ⟨rfl, rfl, rfl, rfl⟩

/-- A swap that moves database 0; unlike a flush it is ignored as a whole outside the capturing master. -/
def onSwapdb (st : State) (first second : Nat) : State :=
  if first ≠ 0 ∧ second ≠ 0 then st
  else if ¬ st.capturing then st
  else
    let st := { st with log := st.log ++ [LogLine.warning ("eventstream: SWAPDB ".toList ++ showNat first ++
      " ".toList ++ showNat second ++ (" moved database 0; the destination streams and their consumer groups now " ++
        "live in the swapped database, and fresh streams will be created in db 0 (SPEC.md section 6). A 'swapdb' " ++
        "gap marker delimits the boundary.").toList)] }
    recordPendingMarker st.clearStats (.simple .swapdb)

/-- A flush command: the callback runs before the keys go. -/
def flushCommand (st : State) (dbnum : Int32) : State :=
  let st := onFlushStarted st dbnum
  { st with keyspace := st.keyspace.flush dbnum }

/-- A swap command: the callback runs after the swap. -/
def swapCommand (st : State) (first second : Nat) : State :=
  onSwapdb { st with keyspace := st.keyspace.swap first second } first second

/-! ## Commands -/

/-- An error reply: a text of the module or the server, or one made by the binding. -/
inductive CommandError
  | text (msg : Str)
  | binding
  deriving DecidableEq, Repr

def selectFailed : Str := "failed to select database 0".toList

/-- `SMEMBERS` in database 0. -/
def smembers (st : State) (key : Bytes) : Except CommandError (List Bytes) :=
  match st.keyspace 0 key with
  | none => .ok []
  | some (.set members) => .ok members
  | some _ => .error (.text wrongType)

/-- `EXISTS` in database 0; `none` for a call that fails. -/
def existsKey (env : Env) (n : Nat) (ks : Keyspace) (key : Bytes) : Option Bool :=
  if env.existsAnswered n key then some (ks 0 key).isSome else none

theorem existsKey_absent {env : Env} {n : Nat} {ks : Keyspace} {key : Bytes} (h : existsKey env n ks key = some false) :
    ks 0 key = none := by
  unfold existsKey at h
  split at h
  · simpa using h
  · cases h

/-- Take a removed name out of the cap and of the registration dedupe. -/
def forgetStream (st : State) (name : Str) : State :=
  let st := { st with trace := st.trace ++ [Occurrence.pruned name] }
  match st.streamStats.lookup name with
  | none => st
  | some entry =>
    { st.setStats name { entry with counted := false, registered := false, registryFailed := false } with
      currentStreams := if entry.counted then st.currentStreams - 1 else st.currentStreams }

/-- The loop of a prune: members whose key is absent are removed. A call of `EXISTS` that fails removes nothing. -/
def pruneNames (env : Env) (registry : Str) : List Bytes → Nat → State → Except CommandError Nat × State
  | [], pruned, st => (.ok pruned, st)
  | member :: rest, pruned, st =>
    match ofUtf8 member with
    | none => (.error .binding, st)
    | some name =>
      if existsKey env st.clock st.keyspace (utf8 name) ≠ some false then pruneNames env registry rest pruned st
      else
        match call env st .prune (.srem (utf8 registry) (utf8 name)) pruneCallOptions with
        | (.ok _, st) => pruneNames env registry rest (pruned + 1) (forgetStream st name)
        | (.error _, st) => pruneNames env registry rest pruned st

def pruneInDb0 (env : Env) (st : State) (registry : Str) : Except CommandError Nat × State :=
  match smembers st (utf8 registry) with
  | .error e => (.error e, st)
  | .ok names => pruneNames env registry names 0 st

/-- `EVENTSTREAM.PRUNE`. -/
def cmdPrune (env : Env) (st : State) : Except CommandError Nat × State :=
  match tagSegmentCached st with
  | none => (.ok 0, st)
  | some seg =>
    match selectDb env st with
    | (false, st) => (.error (.text selectFailed), st)
    | (true, st) => pruneInDb0 env st (registryOf st.config.pfx seg)

/-- One small step of a prune: bookkeeping, a refused removal, or the removal of a name whose key is absent. -/
inductive PruneStep (env : Env) : State → State → Prop
  | aside {st st' : State} (h : Aside st st') : PruneStep env st st'
  | refused {st st' : State} (registry name msg : Str)
      (h : call env st .prune (.srem (utf8 registry) (utf8 name)) pruneCallOptions = (.error msg, st')) :
      PruneStep env st st'
  | removed {st st' : State} (registry name : Str) (habsent : st.keyspace 0 (utf8 name) = none)
      (h : call env st .prune (.srem (utf8 registry) (utf8 name)) pruneCallOptions = (.ok (), st')) :
      PruneStep env st (forgetStream st' name)

theorem pruneNames_steps (env : Env) (registry : Str) (members : List Bytes) (n : Nat) (st : State) :
    Relation.ReflTransGen (PruneStep env) st (pruneNames env registry members n st).2 := by
  induction members generalizing n st with
  | nil => exact .refl
  | cons member rest ih =>
    unfold pruneNames
    cases ofUtf8 member with
    | none => exact .refl
    | some name =>
      simp only
      split
      · exact ih n st
      · rename_i hn
        cases hr : call env st .prune (.srem (utf8 registry) (utf8 name)) pruneCallOptions with
        | mk r st₁ =>
          cases r with
          | ok _ => exact .head (.removed registry name (existsKey_absent (not_not.1 hn)) hr) (ih (n + 1) _)
          | error msg => exact .head (.refused registry name msg hr) (ih n st₁)

/-- A prune takes small steps only. -/
theorem cmdPrune_steps (env : Env) (st : State) : Relation.ReflTransGen (PruneStep env) st (cmdPrune env st).2 := by
  unfold cmdPrune
  cases tagSegmentCached st with
  | none => exact .refl
  | some seg =>
    have hsel : PruneStep env st (selectDb env st).2 := .aside (selectDb_aside st)
    simp only
    cases hs : selectDb env st with
    | mk sel st₁ =>
      rw [hs] at hsel
      cases sel with
      | false => exact .single hsel
      | true =>
        refine .head hsel ?_
        simp only [pruneInDb0]
        cases smembers st₁ (utf8 (registryOf st₁.config.pfx seg)) with
        | error e => exact .refl
        | ok names => exact pruneNames_steps env _ names 0 st₁

/-- What every small step of a prune keeps, a prune keeps. -/
theorem cmdPrune_invariant {env : Env} {I : State → Prop} (hstep : ∀ {a b}, PruneStep env a b → I a → I b) {st : State}
    (h : I st) : I (cmdPrune env st).2 := by
  have hs := cmdPrune_steps env st
  generalize (cmdPrune env st).2 = st' at hs ⊢
  induction hs with
  | refl => exact h
  | tail _ hp ih => exact hstep hp ih

/-- The same with each part of a prune on its own: the selection, the removals and the forgotten names. -/
theorem cmdPrune_parts {env : Env} {I : State → Prop} (hselect : ∀ st, I st → I (selectDb env st).2)
    (hcall : ∀ {st st' : State} {registry name : Str} {r : Except Str Unit},
      call env st .prune (.srem (utf8 registry) (utf8 name)) pruneCallOptions = (r, st') → I st → I st')
    (hforget : ∀ st name, I st → I (forgetStream st name)) {st : State} (h : I st) : I (cmdPrune env st).2 := by
  have hnames : ∀ (registry : Str) (members : List Bytes) (n : Nat) (st : State), I st →
      I (pruneNames env registry members n st).2 := by
    intro registry members
    induction members with
    | nil => exact fun _ _ h => h
    | cons member rest ih =>
      intro n st h
      unfold pruneNames
      cases ofUtf8 member with
      | none => exact h
      | some name =>
        simp only
        split
        · exact ih n st h
        · cases hr : call env st .prune (.srem (utf8 registry) (utf8 name)) pruneCallOptions with
          | mk r st₁ =>
            cases r with
            | ok _ => exact ih (n + 1) _ (hforget st₁ name (hcall hr h))
            | error msg => exact ih n st₁ (hcall hr h)
  unfold cmdPrune
  cases tagSegmentCached st with
  | none => exact h
  | some seg =>
    have hsel := hselect st h
    simp only
    cases hs : selectDb env st with
    | mk sel st₁ =>
      rw [hs] at hsel
      cases sel with
      | false => exact hsel
      | true =>
        simp only [pruneInDb0]
        cases smembers st₁ (utf8 (registryOf st₁.config.pfx seg)) with
        | error e => exact hsel
        | ok names => exact hnames _ names 0 st₁ hsel

inductive StreamsMode
  | bare | withStats | verbose
  deriving DecidableEq, Repr

inductive StreamsReply
  | names (members : List Bytes)
  | stats (rows : List (Str × Nat × Nat))
  | liveness (rows : List (Str × Nat × Nat))
  deriving DecidableEq

/-- Whether a name exists and how long its stream is. Here a call of `EXISTS` that fails shows as an absent key. -/
def streamLiveness (env : Env) (st : State) (name : Str) : Nat × Nat :=
  (if existsKey env st.clock st.keyspace (utf8 name) = some true then 1 else 0,
    (st.keyspace.entries (utf8 name)).length)

/-- A row per name; a name that is no text fails the command. -/
def streamRows (row : Str → Nat × Nat) (members : List Bytes) : Except CommandError (List (Str × Nat × Nat)) :=
  members.mapM fun m =>
    match ofUtf8 m with
    | none => .error .binding
    | some name => .ok (name, row name)

def streamsInDb0 (env : Env) (st : State) (registry : Str) (mode : StreamsMode) : Except CommandError StreamsReply :=
  match smembers st (utf8 registry) with
  | .error e => .error e
  | .ok members =>
    match mode with
    | .bare => .ok (.names members)
    | .withStats =>
      (streamRows (fun name => ((st.stats name).forwarded, (st.stats name).dropped)) members).map .stats
    | .verbose => (streamRows (streamLiveness env st) members).map .liveness

/-- `EVENTSTREAM.STREAMS`, which only reads. -/
def cmdStreams (env : Env) (st : State) (mode : StreamsMode) : Except CommandError StreamsReply × State :=
  match tagSegmentCached st with
  | none => (.ok (.names []), st)
  | some seg =>
    match selectDb env st with
    | (false, st) => (.error (.text selectFailed), st)
    | (true, st) => (streamsInDb0 env st (registryOf st.config.pfx seg) mode, st)

/-! ## Settings -/

def maxPrefixLen : Nat := 128

/-- The characters of a group name. -/
def isGroupChar (c : Char) : Bool :=
  ('A' ≤ c && c ≤ 'Z') || ('a' ≤ c && c ≤ 'z') || ('0' ≤ c && c ≤ '9') || c = ':' || c = '.' || c = '_' || c = '-'

def isPrefixChar (c : Char) : Bool := isGroupChar c || c = '{' || c = '}'

/-- The length check and the character check shared by the two validators. -/
def validateName (what : Str) (allowed : Char → Bool) (name : Str) : Except Str Unit :=
  if maxPrefixLen < (utf8 name).length then
    .error (what ++ " exceeds ".toList ++ showNat maxPrefixLen ++ " bytes".toList)
  else
    match name.find? fun c => !allowed c with
    | some bad => .error (what ++ " contains disallowed character '".toList ++ [bad] ++ "'".toList)
    | none => .ok ()

/-- An accepted value has passed every gate before it. -/
theorem ok_of_gate {ε α : Type} {p : Prop} [Decidable p] {e : ε} {r : Except ε α} {a : α}
    (h : (if p then .error e else r) = .ok a) : ¬ p ∧ r = .ok a := by
  by_cases hp : p
  · rw [if_pos hp] at h
    cases h
  · rw [if_neg hp] at h
    exact ⟨hp, h⟩

theorem validateName_chars {what name : Str} {allowed : Char → Bool} (h : validateName what allowed name = .ok ())
    {c : Char} (hc : c ∈ name) : allowed c = true := by
  obtain ⟨-, h⟩ := ok_of_gate h
  cases hf : name.find? fun c => !allowed c with
  | some bad =>
    rw [hf] at h
    cases h
  | none => simpa using List.find?_eq_none.1 hf c hc

def validatePrefix (pfx : Str) : Except Str Unit :=
  if pfx = [] then .error "stream-prefix must not be empty".toList
  else validateName "stream-prefix".toList isPrefixChar pfx

theorem validatePrefix_chars {pfx : Str} (h : validatePrefix pfx = .ok ()) {c : Char} (hc : c ∈ pfx) :
    isPrefixChar c = true :=
  validateName_chars (ok_of_gate h).2 hc

def validateAutoGroup (name : Str) : Except Str Unit :=
  if name = [] then .ok () else validateName "auto-group".toList isGroupChar name

/-- `CONFIG SET eventstream.auto-group`. A rejected name changes nothing. -/
def setAutoGroup (st : State) (name : Str) : Except Str Unit × State :=
  match validateAutoGroup name with
  | .error e => (.error e, st)
  | .ok _ => (.ok (), { st with config := { st.config with autoGroup := name, autoGroupEnabled := name ≠ [] } })

/-! ## Generations -/

/-- The reset at load: a library image that was kept starts over. -/
def resetGenerationState (st : State) : State :=
  { st with
    config := { st.config with perNode := false }
    counters := .zero
    latched := fun _ => false
    streamStats := ∅
    currentStreams := 0
    lastErrorTime := 0
    asyncQueueDepth := 0
    asyncQueueHighWater := 0
    nodeTag := none
    probeVerifiedTag := none
    seq := 0
    generationId := []
    pendingMarkers := []
    markersDirty := false
    lastCheckpointMs := 0
    trace := st.trace ++ [.cleared] }

/-! ## Runs -/

/-- One operation of a run. -/
inductive Op
  /-- A call of a processor. -/
  | process (h : Handoff)
  /-- A control entry. -/
  | marker (control : Str) (action : Action) (db : Option Int32) (retention : Retention)
  | checkpoint (control : Str) (retention : Retention)
  | flush (dbnum : Int32)
  | swapdb (first second : Nat)
  | prune
  | setAutoGroup (name : Str)
  | setFirehose (on : Bool)
  /-- A promotion, a demotion, or a change of the loading flag. -/
  | role (master loading : Bool)
  /-- A client writes or deletes a key. -/
  | client (db : Nat) (key : Bytes) (obj : Option Obj)
  /-- A new generation, in per-node mode or not. -/
  | reset (perNode : Bool)

/-- Write or delete a key. -/
def Keyspace.put (ks : Keyspace) (db : Nat) (key : Bytes) (obj : Option Obj) : Keyspace := fun d k =>
  if d = db ∧ k = key then obj else ks d k

def Op.apply (env : Env) (st : State) : Op → State
  | process h => h.process env st
  | marker control action db retention => writeMarker env st control action db retention
  | checkpoint control retention => writeCheckpoint env st control retention
  | flush dbnum => flushCommand st dbnum
  | swapdb first second => swapCommand st first second
  | prune => (cmdPrune env st).2
  | setAutoGroup name => (EventStream.setAutoGroup st name).2
  | setFirehose on => { st with config := { st.config with firehose := on } }
  | role master loading => { st with master := master, loading := loading }
  | client db key obj => { st with keyspace := st.keyspace.put db key obj }
  | reset perNode =>
    let st := resetGenerationState st
    { st with config := { st.config with perNode := perNode } }

/-- The state after a run. -/
def runOps (env : Env) (st : State) (ops : List Op) : State := ops.foldl (Op.apply env) st

@[simp] theorem runOps_nil (env : Env) (st : State) : runOps env st [] = st := rfl

@[simp] theorem runOps_cons (env : Env) (st : State) (op : Op) (ops : List Op) :
    runOps env st (op :: ops) = runOps env (op.apply env st) ops := rfl

theorem runOps_append (env : Env) (st : State) (ops ops' : List Op) :
    runOps env st (ops ++ ops') = runOps env (runOps env st ops) ops' := List.foldl_append

/-- Every operation of a run meets a condition on the state it is applied to. -/
def Meets (env : Env) (P : State → Op → Prop) : State → List Op → Prop
  | _, [] => True
  | st, op :: ops => P st op ∧ Meets env P (op.apply env st) ops

/-- What every operation that meets the condition keeps, a run keeps. -/
theorem runOps_invariant {env : Env} {P : State → Op → Prop} {I : State → Prop}
    (hstep : ∀ st op, P st op → I st → I (op.apply env st)) {st : State} {ops : List Op} (h : Meets env P st ops)
    (hI : I st) : I (runOps env st ops) := by
  induction ops generalizing st with
  | nil => exact hI
  | cons op ops ih => exact ih h.2 (hstep st op h.1 hI)

/-- A freshly loaded module. -/
def State.fresh (config : Config) (ks : Keyspace) : State := { config := config, keyspace := ks }

/-- The default settings, the filters in their parsed form. -/
def Config.defaults : Config where
  pfx := "events:".toList
  enabled := true
  filter _ event := event = "expired".toList
  keyFilter _ := true
  sourceDbs _ := true
  maxlen := 10000
  maxlenOverrides := []
  retentionMs := 0
  maxStreams := 0
  entryFormat := .fixed
  entrySeq := false
  firehose := false
  verifyOom := true
  autoGroup := []
  autoGroupEnabled := false
  controlCheckpointMs := 0
  perNode := false

/-- A server that refuses nothing and trims nothing. -/
def Env.calm : Env where
  refuse _ _ _ := none
  selectDb _ := true
  existsAnswered _ _ := true
  unixNow n := n
  nowMs n := n
  entryId n := showNat n ++ "-0".toList
  trimmed _ := 0
  canonicalName := none

/-- The empty keyspace. -/
def Keyspace.empty : Keyspace := fun _ _ => none

end EventStream

import EventStream.Node

/-!
# The settings of the module

The grammars of the text settings, the setter of each setting, and the configuration that the stored values put in
force.

- `parseFilter`, `parseKeyFilter`, `parseSourceDbs` and `parseMaxlenOverrides`: the four lists, and what the filters
  match;
- `Setting` and `Settings.set`: one value for one setting, and what its setter makes of it;
- `Args`: what a load sets, each setting to its argument or its default;
- `setAll_stored`: what a load leaves stored does not depend on what was stored before it;
- `setAll_subscribed`: the mask of an earlier subscription matters to it only by the classes it lacks.
-/

namespace EventStream

open Text (Str Bytes utf8 showInt trim isWhitespace)

/-! ## The events filter -/

structure ParsedFilter where
  star : Bool := false
  classes : NotifyEvent := ∅
  names : Finset Str := ∅
  deriving DecidableEq

def ParsedFilter.matches (f : ParsedFilter) (cls : NotifyEvent) (event : Str) : Bool :=
  f.star || decide (f.classes ∩ cls ≠ ∅) || decide (event ∈ f.names)

/-- The class of a class token. -/
def classBit (cls : Str) : Option EventClass := (named.find? fun p => p.2 = cls).map Prod.fst

/-- Why a class that exists cannot be captured. -/
def uncapturableClass (cls : Str) : Option Str :=
  if cls = "loaded".toList then
    some ("'@loaded' fires only while the server loads its dataset, when stream writes are unavailable (the " ++
      "not-LOADING gate and the deferred-write API both refuse during load); it cannot be captured").toList
  else if cls = "trimmed".toList then
    some ("'@trimmed' fires during cluster reshard trimming, on the source node for keys leaving in the migration " ++
      "window; it is reshard bookkeeping, not a user keyspace change, and is not captured (SPEC.md section 10)").toList
  else none

/-- One token of the filter. -/
def filterToken (f : ParsedFilter) (raw : Str) : Except Str ParsedFilter :=
  match trim raw with
  | [] => .error "empty event filter token; to pause the module use 'eventstream.enabled no'".toList
  | ['*'] => .ok { f with star := true }
  | '@' :: cls =>
    match classBit cls with
    | some bit => .ok { f with classes := f.classes ∪ {bit} }
    | none =>
      match uncapturableClass cls with
      | some reason => .error reason
      | none => .error ("unknown event class '@".toList ++ cls ++ "'".toList)
  | token =>
    if token.any isWhitespace then .error ("event name '".toList ++ token ++ "' contains whitespace".toList)
    else .ok { f with names := insert token f.names }

def parseFilter (s : Str) : Except Str ParsedFilter := (s.splitOn ',').foldlM filterToken {}

/-- The classes outside of the default subscription. -/
def extraClasses : NotifyEvent := {.missed, .new}

/-- The extra classes that a filter names by their tokens. -/
def extraClassesNamed (f : ParsedFilter) : NotifyEvent := f.classes ∩ extraClasses

/-- What is said about extra classes that come too late. -/
def fixedAtLoad : Str :=
  (" must be enabled as a load-time module argument; the keyspace subscription mask is fixed at load and cannot be " ++
    "widened at runtime").toList

/-- A filter that is set once the module is subscribed may name only extra classes of the subscription. -/
def checkSubscribed (subscribed : Option NotifyEvent) (f : ParsedFilter) : Except Str Unit :=
  match subscribed with
  | none => .ok ()
  | some mask =>
    let missing := extraClassesNamed f \ mask
    if missing = ∅ then .ok ()
    else
      let names := (if .missed ∈ missing then ["@missed".toList] else []) ++
        if .new ∈ missing then ["@new".toList] else []
      .error (List.intercalate " and ".toList names ++ fixedAtLoad)

/-! ## The key filter -/

/-- The number of stars in a row, from a position on. -/
def starsFrom (pat : Bytes) (pi : Nat) : Nat := ((pat.drop pi).takeWhile (· = 42)).length

/-- The loop over a character class: it ends at the closing bracket, or at the last byte of the pattern, and says
whether the class has the byte. -/
def classLoop (pat : Bytes) (c : UInt8) : Nat → Nat → Bool → Option (Nat × Bool)
  | 0, _, _ => none
  | fuel + 1, pi, matched =>
    if pat.length ≤ pi then if pi = 0 then none else some (pi - 1, matched)
    else do
      let p ← pat[pi]?
      if p = 92 ∧ 2 ≤ pat.length - pi then
        let escaped ← pat[pi + 1]?
        classLoop pat c fuel (pi + 2) (matched || escaped = c)
      else if p = 93 then some (pi, matched)
      else if 3 ≤ pat.length - pi ∧ pat[pi + 1]? = some 45 then
        let last ← pat[pi + 2]?
        classLoop pat c fuel (pi + 3) (matched || (min p last ≤ c && c ≤ max p last))
      else classLoop pat c fuel (pi + 1) (matched || p = c)

/-- One byte against what stands at a position of the pattern and is not a star: whether it matches, and the last
position that was read. -/
def matchByte (pat : Bytes) (pi : Nat) (c : UInt8) : Option (Nat × Bool) := do
  let p ← pat[pi]?
  if p = 63 then some (pi, true)
  else if p = 91 then
    let negate := pat[pi + 1]? = some 94
    let (pi, matched) ← classLoop pat c (pat.length + 1) (if negate then pi + 2 else pi + 1) false
    some (pi, if negate then !matched else matched)
  else if p = 92 ∧ 2 ≤ pat.length - pi then
    let escaped ← pat[pi + 1]?
    some (pi + 1, escaped = c)
  else some (pi, p = c)

/-- A star in front of more pattern: the rest of the pattern is tried at every position of the string, until one fails
in a way that a later one cannot mend. -/
def starLoop (rest : Nat → Bool → Option (Bool × Bool)) : Nat → Nat → Bool → Option (Bool × Bool)
  | 0, _, _ => some (false, true)
  | left + 1, si, skipLonger => do
    let (matched, skipLonger) ← rest si skipLonger
    if matched then some (true, skipLonger)
    else if skipLonger then some (false, skipLonger)
    else starLoop rest left (si + 1) skipLonger

/-- The loop of the matcher, with the flag its calls share; nothing is returned if an index is out of bounds. Every
round moves on in the pattern, so its length is enough fuel. -/
def globMatchImpl (pat s : Bytes) : Nat → Nat → Nat → Bool → Nat → Option (Bool × Bool)
  | 0, _, _, _, _ => none
  | fuel + 1, pi, si, skipLonger, nesting =>
    if 1000 < nesting then some (false, skipLonger)
    else if pi < pat.length ∧ si < s.length then do
      let p ← pat[pi]?
      if p = 42 then
        let pi := pi + starsFrom pat (pi + 1)
        if pi + 1 = pat.length then some (true, skipLonger)
        else
          starLoop (fun si skipLonger => globMatchImpl pat s fuel (pi + 1) si skipLonger (nesting + 1))
            (s.length - si) si skipLonger
      else
        let c ← s[si]?
        let (pi, matched) ← matchByte pat pi c
        if ¬ matched then some (false, skipLonger)
        else if si + 1 = s.length then some (pi + 1 + starsFrom pat (pi + 1) = pat.length, skipLonger)
        else globMatchImpl pat s fuel (pi + 1) (si + 1) skipLonger nesting
    else some (pi = pat.length && si = s.length, skipLonger)

def globMatch (pat s : Bytes) : Option Bool := (globMatchImpl pat s (pat.length + 1) 0 0 false 0).map Prod.fst

structure ParsedKeyFilter where
  star : Bool := false
  patterns : List Bytes := []
  deriving DecidableEq

def ParsedKeyFilter.matches (f : ParsedKeyFilter) (key : Bytes) : Bool :=
  f.star || f.patterns.any fun p => globMatch p key = some true

def keyFilterToken (f : ParsedKeyFilter) (raw : Str) : Except Str ParsedKeyFilter :=
  match trim raw with
  | [] => .error "empty key-filter pattern; to pause the module use 'eventstream.enabled no'".toList
  | ['*'] => .ok { f with star := true }
  | token => .ok { f with patterns := f.patterns ++ [utf8 token] }

def parseKeyFilter (s : Str) : Except Str ParsedKeyFilter := (s.splitOn ',').foldlM keyFilterToken {}

/-! ## Source databases and overrides -/

structure ParsedDbFilter where
  star : Bool := false
  dbs : Finset Nat := ∅
  deriving DecidableEq

def ParsedDbFilter.matches (f : ParsedDbFilter) (db : Int32) : Bool :=
  f.star || (0 ≤ db.toInt && decide (db.toInt.toNat ∈ f.dbs))

def sourceDbToken (f : ParsedDbFilter) (raw : Str) : Except Str ParsedDbFilter :=
  match trim raw with
  | [] => .error "empty source-dbs token; to pause the module use 'eventstream.enabled no'".toList
  | ['*'] => .ok { f with star := true }
  | token =>
    match Text.parseUnsigned (2 ^ 32 - 1) token with
    | some db => .ok { f with dbs := insert db f.dbs }
    | none => .error ("source-dbs token '".toList ++ token ++ "' is not a non-negative database index".toList)

def parseSourceDbs (s : Str) : Except Str ParsedDbFilter := (s.splitOn ',').foldlM sourceDbToken {}

/-- One `event=cap` entry; a later cap of the same name replaces an earlier one. -/
def overrideToken (overrides : List (Str × Int)) (raw : Str) : Except Str (List (Str × Int)) :=
  let token := trim raw
  if token = [] then
    .error "empty maxlen-overrides token; leave the value empty to clear all overrides".toList
  else
    match Text.splitOnce '=' token with
    | none => .error ("maxlen-overrides entry '".toList ++ token ++ "' is not 'event=cap'".toList)
    | some (name, cap) =>
      let name := trim name
      let cap := trim cap
      if name = [] then .error ("maxlen-overrides entry '".toList ++ token ++ "' has an empty event name".toList)
      else
        match Text.parseSigned (-2 ^ 63) (2 ^ 63 - 1) cap with
        | none =>
          .error ("maxlen-overrides cap for '".toList ++ name ++ "' is not an integer: '".toList ++ cap ++ "'".toList)
        | some value =>
          if value < 0 then
            .error ("maxlen-overrides cap for '".toList ++ name ++
              "' must be 0 (trimming disabled) or positive, got ".toList ++ showInt value)
          else .ok ((name, value) :: overrides.filter fun p => p.1 ≠ name)

def parseMaxlenOverrides (s : Str) : Except Str (List (Str × Int)) :=
  if trim s = [] then .ok [] else (s.splitOn ',').foldlM overrideToken []

/-! ## The stored values -/

/-- A setting that keeps its text beside what was parsed from it. -/
structure TextConfig (α : Type) where
  raw : Str
  parsed : α
  deriving DecidableEq

/-- A positive number up to a maximum. -/
structure AsyncPositiveConfig (max : Int) where
  value : Nat
  pos : 0 < value
  le : (value : Int) ≤ max
  deriving DecidableEq

structure Settings where
  maxlen : Int
  maxStreams : Int
  retentionMs : Int
  asyncQueueCapacity : AsyncPositiveConfig 10000000
  asyncBatchSize : AsyncPositiveConfig 10000
  asyncMaxWaitMs : AsyncPositiveConfig 60000
  controlCheckpointMs : Int
  streamPrefix : Str
  events : TextConfig ParsedFilter
  keyFilter : TextConfig ParsedKeyFilter
  sourceDbs : TextConfig ParsedDbFilter
  maxlenOverrides : TextConfig (List (Str × Int))
  clusterStreams : Str
  autoGroup : Str
  autoGroupEnabled : Bool
  enabled : Bool
  firehose : Bool
  verifyOom : Bool
  entrySeq : Bool
  entryFormat : EntryFormat
  writeMode : WriteMode
  deriving DecidableEq

/-- A value for one of the settings. -/
inductive Setting
  | maxlen (v : Int) | maxStreams (v : Int) | retentionMs (v : Int)
  | asyncQueueCapacity (v : Int) | asyncBatchSize (v : Int) | asyncMaxWaitMs (v : Int) | controlCheckpointMs (v : Int)
  | streamPrefix (s : Str) | events (s : Str) | keyFilter (s : Str) | sourceDbs (s : Str) | maxlenOverrides (s : Str)
  | clusterStreams (s : Str) | autoGroup (s : Str)
  | enabled (on : Bool) | firehose (on : Bool) | verifyOom (on : Bool) | entrySeq (on : Bool)
  | entryFormat (format : EntryFormat) | writeMode (mode : WriteMode)

/-- The settings that can be set after the load. -/
def Setting.isMutable : Setting → Bool
  | asyncQueueCapacity _ | asyncBatchSize _ | asyncMaxWaitMs _ | controlCheckpointMs _ | streamPrefix _
  | clusterStreams _ | entrySeq _ | writeMode _ => false
  | _ => true

/-- The check of the numbers that may be zero: what the number is, and what zero stands for. -/
def nonNegative (what zero : Str) (v : Int) : Except Str Int :=
  if v < 0 then .error (what ++ " must be 0 (".toList ++ zero ++ ") or positive, got ".toList ++ showInt v) else .ok v

def asyncPositive (name : Str) (max v : Int) : Except Str (AsyncPositiveConfig max) :=
  if h : 1 ≤ v ∧ v ≤ max then .ok ⟨v.toNat, by omega, by omega⟩
  else .error (name ++ " must be between 1 and ".toList ++ showInt max ++ ", got ".toList ++ showInt v)

def checkCheckpointMs (v : Int) : Except Str Int :=
  if v ≠ 0 ∧ ¬ (100 ≤ v ∧ v ≤ 86400000) then
    .error ("control-checkpoint-ms must be 0 (disabled) or between 100 and 86400000, got ".toList ++ showInt v)
  else .ok v

def checkClusterStreams (s : Str) : Except Str Str :=
  if s ≠ "refuse".toList ∧ s ≠ "per-node".toList then
    .error ("cluster-streams must be 'refuse' or 'per-node', got '".toList ++ s ++ "'".toList)
  else .ok s

/-- Parse a text and keep both. -/
def parseText {α : Type} (parse : Str → Except Str α) (s : Str) : Except Str (TextConfig α) :=
  (parse s).map fun parsed => ⟨s, parsed⟩

/-- The events filter is parsed, and then checked against the subscription. -/
def setFilter (subscribed : Option NotifyEvent) (s : Str) : Except Str (TextConfig ParsedFilter) :=
  (parseFilter s).bind fun parsed => (checkSubscribed subscribed parsed).map fun _ => ⟨s, parsed⟩

namespace Settings

/-- The setters; a value that is not accepted leaves everything as it was. -/
def set (subscribed : Option NotifyEvent) (s : Settings) : Setting → Except Str Settings
  | .maxlen v => (nonNegative "maxlen".toList "trimming disabled".toList v).map fun v => { s with maxlen := v }
  | .maxStreams v => (nonNegative "max-streams".toList "unlimited".toList v).map fun v => { s with maxStreams := v }
  | .retentionMs v => (nonNegative "retention-ms".toList "disabled".toList v).map fun v => { s with retentionMs := v }
  | .asyncQueueCapacity v =>
    (asyncPositive "async-queue-capacity".toList 10000000 v).map fun v => { s with asyncQueueCapacity := v }
  | .asyncBatchSize v => (asyncPositive "async-batch-size".toList 10000 v).map fun v => { s with asyncBatchSize := v }
  | .asyncMaxWaitMs v => (asyncPositive "async-max-wait-ms".toList 60000 v).map fun v => { s with asyncMaxWaitMs := v }
  | .controlCheckpointMs v => (checkCheckpointMs v).map fun v => { s with controlCheckpointMs := v }
  | .streamPrefix name => (validatePrefix name).map fun _ => { s with streamPrefix := name }
  | .events text => (setFilter subscribed text).map fun c => { s with events := c }
  | .keyFilter text => (parseText parseKeyFilter text).map fun c => { s with keyFilter := c }
  | .sourceDbs text => (parseText parseSourceDbs text).map fun c => { s with sourceDbs := c }
  | .maxlenOverrides text => (parseText parseMaxlenOverrides text).map fun c => { s with maxlenOverrides := c }
  | .clusterStreams text => (checkClusterStreams text).map fun c => { s with clusterStreams := c }
  | .autoGroup name =>
    (validateAutoGroup name).map fun _ => { s with autoGroup := name, autoGroupEnabled := name ≠ [] }
  | .enabled on => .ok { s with enabled := on }
  | .firehose on => .ok { s with firehose := on }
  | .verifyOom on => .ok { s with verifyOom := on }
  | .entrySeq on => .ok { s with entrySeq := on }
  | .entryFormat format => .ok { s with entryFormat := format }
  | .writeMode mode => .ok { s with writeMode := mode }

/-- The initial values of the statics. -/
def initial : Settings where
  maxlen := 10000
  maxStreams := 0
  retentionMs := 0
  asyncQueueCapacity := ⟨65536, by decide, by decide⟩
  asyncBatchSize := ⟨64, by decide, by decide⟩
  asyncMaxWaitMs := ⟨1, by decide, by decide⟩
  controlCheckpointMs := 0
  streamPrefix := "events:".toList
  events := ⟨"expired".toList, (parseFilter "expired".toList).toOption.getD {}⟩
  keyFilter := ⟨"*".toList, (parseKeyFilter "*".toList).toOption.getD {}⟩
  sourceDbs := ⟨"*".toList, (parseSourceDbs "*".toList).toOption.getD {}⟩
  maxlenOverrides := ⟨[], (parseMaxlenOverrides []).toOption.getD []⟩
  clusterStreams := "refuse".toList
  autoGroup := []
  autoGroupEnabled := false
  enabled := true
  firehose := false
  verifyOom := true
  entrySeq := false
  entryFormat := .fixed
  writeMode := .sync

/-- The configuration that the stored values put in force. -/
def config (s : Settings) (perNode : Bool) : Config where
  pfx := s.streamPrefix
  enabled := s.enabled
  filter := s.events.parsed.matches
  keyFilter := s.keyFilter.parsed.matches
  sourceDbs := s.sourceDbs.parsed.matches
  maxlen := s.maxlen
  maxlenOverrides := s.maxlenOverrides.parsed
  retentionMs := s.retentionMs
  maxStreams := s.maxStreams
  entryFormat := s.entryFormat
  entrySeq := s.entrySeq
  firehose := s.firehose
  verifyOom := s.verifyOom
  autoGroup := s.autoGroup
  autoGroupEnabled := s.autoGroupEnabled
  controlCheckpointMs := s.controlCheckpointMs
  perNode := perNode

/-- The load-time settings of the dispatch. -/
def setup (s : Settings) : Setup :=
  ⟨s.writeMode, s.asyncQueueCapacity.value, s.asyncBatchSize.value, s.asyncQueueCapacity.pos, s.asyncBatchSize.pos⟩

/-- What is fixed at the load. -/
def fixed (s : Settings) : Setup × Str × Bool × Int := (s.setup, s.streamPrefix, s.entrySeq, s.controlCheckpointMs)

/-- A setter that has stored a value has accepted it. -/
theorem map_ok {α β : Type} {e : Except Str α} {f : α → β} {b : β} (h : e.map f = .ok b) :
    ∃ a, e = .ok a ∧ b = f a := by
  cases e with
  | error msg => cases h
  | ok a =>
    cases h
    exact ⟨a, rfl, rfl⟩

/-- A setting that can be set after the load touches nothing that is fixed there. -/
theorem set_fixed {subscribed : Option NotifyEvent} {s s' : Settings} {x : Setting} (hx : x.isMutable = true)
    (h : s.set subscribed x = .ok s') : s'.fixed = s.fixed := by
  cases x with
  | asyncQueueCapacity v | asyncBatchSize v | asyncMaxWaitMs v | controlCheckpointMs v | streamPrefix v
  | clusterStreams v | entrySeq v | writeMode v => cases hx
  | enabled v | firehose v | verifyOom v | entryFormat v =>
    cases h
    rfl
  | maxlen v | maxStreams v | retentionMs v | events v | keyFilter v | sourceDbs v | maxlenOverrides v | autoGroup v =>
    obtain ⟨-, -, rfl⟩ := map_ok h
    rfl

theorem set_enabled {subscribed : Option NotifyEvent} {s s' : Settings} {x : Setting} (hx : ∀ on, x ≠ .enabled on)
    (h : s.set subscribed x = .ok s') : s'.enabled = s.enabled := by
  cases x with
  | enabled on => exact absurd rfl (hx on)
  | firehose v | verifyOom v | entrySeq v | entryFormat v | writeMode v =>
    cases h
    rfl
  | _ =>
    obtain ⟨-, -, rfl⟩ := map_ok h
    rfl

end Settings

/-! ## The arguments of a load -/

/-- What a load sets: each setting to its argument, or to the default it is registered with. -/
structure Args where
  maxlen : Int := 10000
  maxStreams : Int := 0
  retentionMs : Int := 0
  asyncQueueCapacity : Int := 65536
  asyncBatchSize : Int := 64
  asyncMaxWaitMs : Int := 1
  controlCheckpointMs : Int := 0
  streamPrefix : Str := "events:".toList
  events : Str := "expired".toList
  keyFilter : Str := "*".toList
  sourceDbs : Str := "*".toList
  maxlenOverrides : Str := []
  clusterStreams : Str := "refuse".toList
  autoGroup : Str := []
  enabled : Bool := true
  firehose : Bool := false
  verifyOom : Bool := true
  entrySeq : Bool := false
  entryFormat : EntryFormat := .fixed
  writeMode : WriteMode := .sync

namespace Args

/-- What is set before the events filter. -/
def front (a : Args) : List Setting :=
  [.maxlen a.maxlen, .maxStreams a.maxStreams, .retentionMs a.retentionMs, .asyncQueueCapacity a.asyncQueueCapacity,
    .asyncBatchSize a.asyncBatchSize, .asyncMaxWaitMs a.asyncMaxWaitMs, .controlCheckpointMs a.controlCheckpointMs,
    .streamPrefix a.streamPrefix]

/-- What is set after the events filter. -/
def back (a : Args) : List Setting :=
  [.keyFilter a.keyFilter, .sourceDbs a.sourceDbs, .maxlenOverrides a.maxlenOverrides, .clusterStreams a.clusterStreams,
    .autoGroup a.autoGroup, .enabled a.enabled, .firehose a.firehose, .verifyOom a.verifyOom, .entrySeq a.entrySeq,
    .entryFormat a.entryFormat, .writeMode a.writeMode]

/-- The settings in the order in which they are registered. -/
def settings (a : Args) : List Setting := a.front ++ .events a.events :: a.back

end Args

namespace Settings

/-- Set one value after the other, until one is not accepted. -/
def setAll (subscribed : Option NotifyEvent) (s : Settings) (xs : List Setting) : Except Str Settings :=
  xs.foldlM (set subscribed) s

/-- Every setting is set, so nothing of what was stored before is left. -/
theorem setAll_stored (subscribed : Option NotifyEvent) (s s' : Settings) (a : Args) :
    setAll subscribed s a.settings = setAll subscribed s' a.settings := by
  have after : ∀ {α β γ : Type} (e : Except Str α) (f : α → β) (g : β → Except Str γ),
      (e.map f).bind g = e.bind fun v => g (f v) := by
    intro α β γ e f g
    cases e <;> rfl
  have done : ∀ {α β : Type} (v : α) (g : α → Except Str β), (Except.ok v).bind g = g v := fun _ _ => rfl
  simp only [setAll, Args.settings, Args.front, Args.back, List.cons_append, List.nil_append, List.foldlM_cons,
    List.foldlM_nil, bind, pure, Except.pure, set, after, done]

/-- Of the setters only the one of the events filter looks at the subscription. -/
theorem setAll_elsewhere (subscribed subscribed' : Option NotifyEvent) {xs : List Setting}
    (hx : ∀ text, .events text ∉ xs) (s : Settings) : setAll subscribed s xs = setAll subscribed' s xs := by
  induction xs generalizing s with
  | nil => rfl
  | cons x xs ih =>
    have hset : s.set subscribed x = s.set subscribed' x := by
      cases x with
      | events text => exact absurd List.mem_cons_self (hx text)
      | _ => rfl
    have hrest : ∀ text, .events text ∉ xs := fun text hmem => hx text (List.mem_cons_of_mem _ hmem)
    simp only [setAll, List.foldlM_cons, hset]
    exact congrArg _ (funext fun s => ih hrest s)

end Settings

/-! ## The subscription and the events filter -/

/-- An events filter names an extra class that the subscription lacks. -/
def lacks (subscribed : Option NotifyEvent) (text : Str) : Bool :=
  match subscribed, parseFilter text with
  | some mask, .ok f => extraClassesNamed f \ mask ≠ ∅
  | _, _ => false

theorem setFilter_of_covers {subscribed : Option NotifyEvent} {text : Str} (h : lacks subscribed text = false) :
    setFilter subscribed text = setFilter none text := by
  unfold lacks at h
  unfold setFilter
  cases subscribed with
  | none => rfl
  | some mask =>
    cases hp : parseFilter text with
    | error e => rfl
    | ok f =>
      rw [hp] at h
      have hnone : extraClassesNamed f \ mask = ∅ := by simpa using h
      simp only [Except.bind, checkSubscribed, hnone, if_true]

theorem setFilter_of_lacks {subscribed : Option NotifyEvent} {text : Str} (h : lacks subscribed text = true) :
    ∃ e, setFilter subscribed text = .error e := by
  unfold lacks at h
  unfold setFilter
  cases subscribed with
  | none => cases h
  | some mask =>
    cases hp : parseFilter text with
    | error e =>
      rw [hp] at h
      cases h
    | ok f =>
      rw [hp] at h
      have hsome : ¬ extraClassesNamed f \ mask = ∅ := by simpa using h
      simp only [Except.bind, checkSubscribed, hsome, if_false]
      exact ⟨_, rfl⟩

namespace Settings

theorem setAll_args (subscribed : Option NotifyEvent) (s : Settings) (a : Args) :
    setAll subscribed s a.settings = (setAll none s a.front).bind fun s =>
      ((setFilter subscribed a.events).map fun c => { s with events := c }).bind fun s => setAll none s a.back := by
  have hfront : ∀ text, Setting.events text ∉ a.front := by simp [Args.front]
  have hback : ∀ text, Setting.events text ∉ a.back := by simp [Args.back]
  have hparts : setAll subscribed s a.settings = (setAll subscribed s a.front).bind fun s =>
      (s.set subscribed (.events a.events)).bind fun s => setAll subscribed s a.back := by
    simp only [setAll, Args.settings, List.foldlM_append, List.foldlM_cons, bind]
  rw [hparts, setAll_elsewhere subscribed none hfront]
  simp only [setAll_elsewhere subscribed none hback, set]

/-- A load that an earlier subscription covers sets what a load without one sets. -/
theorem setAll_subscribed {subscribed : Option NotifyEvent} {a : Args} (h : lacks subscribed a.events = false)
    (s : Settings) : setAll subscribed s a.settings = setAll none s a.settings := by
  rw [setAll_args, setAll_args, setFilter_of_covers h]

/-- A load that names a class an earlier subscription lacks is refused. -/
theorem setAll_lacks {subscribed : Option NotifyEvent} {a : Args} (h : lacks subscribed a.events = true)
    (s : Settings) : ∃ e, setAll subscribed s a.settings = .error e := by
  obtain ⟨e, he⟩ := setFilter_of_lacks h
  rw [setAll_args, he]
  cases setAll none s a.front with
  | error e' => exact ⟨e', rfl⟩
  | ok s => exact ⟨e, rfl⟩

/-- Every default passes its own check, and the statics start with the defaults. -/
theorem setAll_defaults (s : Settings) : setAll none s ({} : Args).settings = .ok initial := by
  rw [setAll_stored none s initial]
  decide +kernel

end Settings

end EventStream

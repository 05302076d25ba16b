import EventStream.Confined

/-!
# What the module's own writes set off

The server notifies the module of every key that changes, also of those that the module changes itself. `Loopback` is a
node with the notifications that its own calls have raised: the lock holder is notified of a changed key, whatever key
it is. With no stream of a user where an ownership probe may go (`ProbesClear`), such a run is a run of the node alone.

- `Reach.sound`: every key raised is under the prefix, and every notification of one is a step of the node;
- `own_namespace`: the module changes its own keys only, and its writes set off no others: every call of a run is
  covered by the events, markers and checkpoints that came from outside;
- `probe_feeds_back`: with a stream of a user in the way neither holds.
-/

namespace EventStream

open Text (Str Bytes utf8)
open Machine (Path)

/-- A node, and the keys its own calls have changed and that the server has still to notify it of. -/
structure Loopback where
  node : Node
  raised : List Bytes

/-- The key of an executed call. -/
def Occurrence.written : Occurrence → Option Bytes
  | .call _ cmd true => some cmd.key
  | _ => none

namespace Loopback

inductive Act
  | node (act : Node.Act)
  /-- A notification that a call of the module has raised; the calls run in database 0. -/
  | echo (cls : NotifyEvent) (event : Str) (key : Bytes) (contended registered markersRegistered : Bool)

/-- The keys that the calls of a step have changed. -/
def changed (n n' : Node) : List Bytes :=
  ((n.callsOf n').filterMap Occurrence.written).filter fun key => n'.st.keyspace 0 key ≠ n.st.keyspace 0 key

/-- Somebody holds the lock and may write. -/
def writing (n : Node) : Prop := n.holder ≠ .free ∧ n.phase ≠ .joining ∧ n.phase ≠ .stopped

instance (n : Node) : Decidable (writing n) := inferInstanceAs (Decidable (_ ∧ _ ∧ _))

/-- What the commands of clients change they are notified of as steps of the node. -/
def step (setup : Setup) (env : Env) (w : Loopback) : Act → Option Loopback
  | .node act => (Node.step setup env w.node act).map fun n' =>
      ⟨n', w.raised ++ if Node.isModule act then changed w.node n' else []⟩
  | .echo cls event key contended registered markersRegistered =>
    if w.raised.contains key ∧ writing w.node then
      some ⟨w.node.onKeyspaceEvent setup env cls event key 0 contended registered markersRegistered, w.raised.erase key⟩
    else none

/-- What a step brings in: an echo brings in nothing. -/
def Act.allowance (pfx : Bytes) : Act → Budget
  | .node act => Node.allowance pfx act
  | .echo .. => .none

def Act.isModule : Act → Bool
  | .node act => Node.isModule act
  | .echo .. => true

/-- The runs from a load in which no stream stands in the way of the probes before any step. -/
abbrev Reach (setup : Setup) (env : Env) : Loopback → Prop :=
  Machine.Reach (fun w act w' => step setup env w act = some w') (fun w _ => ProbesClear w.node.st)
    fun w => Node.Loaded setup env w.node ∧ w.raised = []

variable {setup : Setup} {env : Env} {w w' : Loopback}

theorem step_cases {act : Act} (h : step setup env w act = some w') :
    (∃ a, act = .node a ∧ Node.step setup env w.node a = some w'.node ∧
      ∀ key ∈ w'.raised, key ∈ w.raised ∨ Node.isModule a = true ∧ key ∈ changed w.node w'.node) ∨
    ∃ cls event key contended registered markersRegistered,
      act = .echo cls event key contended registered markersRegistered ∧ key ∈ w.raised ∧ writing w.node ∧
      w' = ⟨w.node.onKeyspaceEvent setup env cls event key 0 contended registered markersRegistered,
        w.raised.erase key⟩ := by
  cases act with
  | node a =>
    obtain ⟨n', hn', rfl⟩ := Option.map_eq_some_iff.1 h
    refine Or.inl ⟨a, rfl, hn', fun key hkey => ?_⟩
    rcases List.mem_append.1 hkey with hkey | hkey
    · exact Or.inl hkey
    · split at hkey
      · exact Or.inr ⟨‹_›, hkey⟩
      · cases hkey
  | echo cls event key contended registered markersRegistered =>
    simp only [step, List.contains_iff_mem, Option.ite_none_right_eq_some, Option.some.injEq] at h
    obtain ⟨⟨hraised, hwriting⟩, rfl⟩ := h
    exact Or.inr ⟨cls, event, key, contended, registered, markersRegistered, rfl, hraised, hwriting, rfl⟩

/-- The notification of a key under the prefix is a step of the node. -/
theorem echo_step (hw : writing w.node) {key : Bytes} (hk : utf8 w.node.st.config.pfx <+: key) (cls : NotifyEvent)
    (event : Str) (contended registered markersRegistered : Bool) :
    Node.step setup env w.node (.notify cls event key 0 contended registered markersRegistered) =
      some (w.node.onKeyspaceEvent setup env cls event key 0 contended registered markersRegistered) := by
  have hmay : w.node.mayNotify key := Or.inr ⟨hw.1, hw.2.1, hw.2.2, List.isPrefixOf_iff_prefix.2 hk⟩
  simp only [Node.step, if_pos hmay]

/-- A node that is reached by itself, and owes notifications of keys under the prefix only. -/
structure Sound (setup : Setup) (env : Env) (w : Loopback) : Prop where
  node : Node.Reach setup env (fun _ _ => True) w.node
  raised : ∀ key ∈ w.raised, utf8 w.node.st.config.pfx <+: key

/-- Every step of a sound state is a step of the node, and an echo brings in nothing. -/
theorem Sound.step_node (hs : Sound setup env w) {act : Act} (h : step setup env w act = some w') :
    ∃ a, Node.step setup env w.node a = some w'.node ∧
      Node.allowance (utf8 w.node.st.config.pfx) a = act.allowance (utf8 w.node.st.config.pfx) := by
  rcases step_cases h with ⟨a, rfl, ha, -⟩ | ⟨cls, event, key, contended, registered, markersRegistered,
    rfl, hr, hw, rfl⟩
  · exact ⟨a, ha, rfl⟩
  · have hown := hs.raised key hr
    exact ⟨_, echo_step hw hown cls event contended registered markersRegistered,
      if_pos (List.isPrefixOf_iff_prefix.2 hown)⟩

theorem Sound.step (hs : Sound setup env w) (hclear : ProbesClear w.node.st) {act : Act}
    (h : Loopback.step setup env w act = some w') : Sound setup env w' := by
  obtain ⟨b, hb, -⟩ := hs.step_node h
  refine ⟨Machine.Reach.next hs.node trivial hb, fun key hkey => ?_⟩
  rw [Node.step_pfx hb]
  rcases step_cases h with ⟨a, rfl, ha, hraised⟩ | ⟨_, _, key', _, _, _, rfl, -, -, rfl⟩
  · rcases hraised key hkey with hold | ⟨hm, hnew⟩
    · exact hs.raised key hold
    · have hne := of_decide_eq_true (List.mem_filter.1 hnew).2
      exact (Node.step_ownKeys hs.node ha hm hclear 0 key hne).2
  · exact hs.raised key (List.mem_of_mem_erase hkey)

theorem Reach.sound (h : Reach setup env w) : Sound setup env w := by
  refine Machine.Reach.invariant (I := Sound setup env) ?_ (fun _ _ _ _ hclear hs ih => ih.step hclear hs) h
  rintro w ⟨hl, hr⟩
  refine ⟨.start hl, fun key hkey => ?_⟩
  rw [hr] at hkey
  cases hkey

/-- The paths along which no stream stands in the way of the probes. -/
abbrev ClearPath (setup : Setup) (env : Env) : Loopback → List Act → Loopback → Prop :=
  Path fun w act w' => ProbesClear w.node.st ∧ step setup env w act = some w'

/-- The calls of a path, and what is outstanding at its end, are covered by what was outstanding at its beginning and
the allowances of its steps. -/
theorem ClearPath.calls_le {acts : List Act} (h : ClearPath setup env w acts w') (hs : Sound setup env w)
    (x : Expense) : w'.node.st.calls x + w'.node.outstanding x ≤ w.node.st.calls x + w.node.outstanding x +
      (acts.map fun act => act.allowance (utf8 w.node.st.config.pfx) x).sum := by
  refine (Path.sum_le (I := fun v => Sound setup env v ∧ v.node.st.config.pfx = w.node.st.config.pfx)
    (m := fun v => v.node.st.calls x + v.node.outstanding x) ?_ h ⟨hs, rfl⟩).2
  rintro v act v' ⟨hclear, hstep⟩ ⟨hsound, hpfx⟩
  obtain ⟨a, ha, hallow⟩ := hsound.step_node hstep
  refine ⟨⟨hsound.step hclear hstep, (Node.step_pfx ha).trans hpfx⟩, ?_⟩
  have hpaid := Node.step_paidFor hsound.node.wf ha x
  rw [hallow, hpfx] at hpaid
  exact hpaid

/-- **The module's own namespace.** In the runs in which no stream of a user stands where a probe may go, a step of the
module changes keys under the prefix only, and these are the keys whose notifications it raises. Notifications of keys
under the prefix are rejected, and no entry records such a key. Only notifications of other keys that a command has set
off dispatch events, one each; every event dispatched is handed over once at most and every marker recorded is attempted
once at most. The calls of each step are within its budget; and those of a whole run, with what is still outstanding,
are covered by what was outstanding and by what came from outside, to which the echoes of the module's own writes add
nothing. -/
theorem own_namespace (setup : Setup) (env : Env) (w : Loopback) (h : Reach setup env w) :
    (∀ act w', step setup env w act = some w' → act.isModule = true → ProbesClear w.node.st →
      OwnKeysOnly (utf8 w.node.st.config.pfx) w.node.st w'.node.st) ∧
    (∀ key ∈ w.raised, utf8 w.node.st.config.pfx <+: key) ∧
    (∀ cls event key contended registered markersRegistered w',
      step setup env w (.echo cls event key contended registered markersRegistered) = some w' →
      Node.Rejected w.node w'.node) ∧
    (∀ cls event key db contended registered markersRegistered w', utf8 w.node.st.config.pfx <+: key →
      step setup env w (.node (.notify cls event key db contended registered markersRegistered)) = some w' →
      Node.Rejected w.node w'.node) ∧
    w.node.EntriesRecord (fun e => ¬ utf8 w.node.st.config.pfx <+: e.key) ∧
    (∀ act w', step setup env w act = some w' → w'.node.dispatched = w.node.dispatched ∨
      ∃ cls event key db contended registered markersRegistered q,
        act = .node (.notify cls event key db contended registered markersRegistered) ∧ w.node.atCommand ∧
          ¬ utf8 w.node.st.config.pfx <+: key ∧ w'.node.dispatched = w.node.dispatched ++ [q]) ∧
    ((∃ rest, (w.node.handed ++ rest).Perm w.node.dispatched) ∧ ∃ rest : List Recorded,
      ((w.node.attempted ++ rest).map Recorded.ordinal).Perm (List.range w.node.st.recorded)) ∧
    (∀ act n', Node.step setup env w.node act = some n' → Node.isModule act = true → ∀ x : Expense,
      (w.node.callsOf n').countP x.ofCall ≤ w.node.budgetOf act x) ∧
    (∀ acts w', ClearPath setup env w acts w' → ∀ x : Expense,
      w'.node.st.calls x + w'.node.outstanding x ≤ w.node.st.calls x + w.node.outstanding x +
        (acts.map fun act => act.allowance (utf8 w.node.st.config.pfx) x).sum) := by
  have hs := h.sound
  have hecho : ∀ {cls event key contended registered markersRegistered w'},
      step setup env w (.echo cls event key contended registered markersRegistered) = some w' →
      Node.Rejected w.node w'.node := by
    intro cls event key contended registered markersRegistered w' hstep
    rcases step_cases hstep with ⟨a, ha, -⟩ | ⟨cls', event', key', c, r, m, -, hr, -, rfl⟩
    · cases ha
    · exact Node.onKeyspaceEvent_own hs.node.wf (hs.raised key' hr) cls' event' 0 c r m
  refine ⟨?_, hs.raised, fun _ _ _ _ _ _ _ => hecho, ?_, ?_, ?_, ⟨Node.handed_once hs.node, ?_⟩,
    fun act n' => Node.step_cost hs.node, fun acts w' hp => hp.calls_le hs⟩
  · intro act w' hstep hm hclear
    rcases step_cases hstep with ⟨a, rfl, ha, -⟩ | ⟨cls, event, key, c, r, m, rfl, hr, hw, rfl⟩
    · exact Node.step_ownKeys hs.node ha hm hclear
    · exact Node.step_ownKeys hs.node (echo_step hw (hs.raised key hr) cls event c r m) rfl hclear
  · intro cls event key db contended registered markersRegistered w' hk hstep
    obtain ⟨n', hn', rfl⟩ := Option.map_eq_some_iff.1 hstep
    simp only [Node.step, Option.ite_none_right_eq_some, Option.some.injEq] at hn'
    obtain ⟨-, rfl⟩ := hn'
    exact Node.onKeyspaceEvent_own hs.node.wf hk cls event db contended registered markersRegistered
  · intro e he
    obtain ⟨es, hes, hstems⟩ := hs.node.entriesRecord e he
    exact ⟨es, hes, fun e he => (hstems e he).outside⟩
  · intro act w' hstep
    cases act with
    | echo cls event key contended registered markersRegistered => exact Or.inl (hecho hstep).dispatched
    | node a =>
      obtain ⟨n', hn', rfl⟩ := Option.map_eq_some_iff.1 hstep
      rcases (Node.step_dispatched hs.node.wf hn').1 with hsame | ⟨_, _, _, _, _, _, _, q, rfl, hcmd, hforeign, hq⟩
      · exact Or.inl hsame
      · exact Or.inr ⟨_, _, _, _, _, _, _, q, rfl, hcmd, hforeign, hq⟩
  · have honce := (Node.marker_once hs.node).1
    rw [List.append_assoc, List.append_assoc] at honce
    exact ⟨_, honce⟩

/-! ## A node of a cluster -/

/-- A cluster node that owns every slot. -/
def taggedEnv : Env := { Env.calm with canonicalName := some fun _ => some ['t'] }

/-- It captures every event. -/
def taggedConfig : Config := { Config.defaults with filter := fun _ _ => true }

def taggedLoad (ks : Keyspace) : Loopback :=
  ⟨.initial .sync (Node.loadedState taggedEnv taggedConfig true ks "0".toList true false), []⟩

theorem taggedLoad_loaded (ks : Keyspace) :
    Node.Loaded Node.plain taggedEnv (taggedLoad ks).node ∧ (taggedLoad ks).raised = [] :=
  ⟨⟨taggedConfig, ⟨true, true, false, .ok ()⟩, ks, "0".toList, true, false, .sync, rfl, rfl⟩, rfl⟩

/-- The first event: the job of the load's marker is registered, and will select a tag. -/
def taggedFirst (ks : Keyspace) : Loopback :=
  ⟨(taggedLoad ks).node.onKeyspaceEvent Node.plain taggedEnv {.expired} "expired".toList [97] 0 false true true, []⟩

theorem taggedFirst_step (ks : Keyspace) :
    step Node.plain taggedEnv (taggedLoad ks) (.node (Node.expire [97])) = some (taggedFirst ks) := by
  have hmay : (taggedLoad ks).node.mayNotify [97] := Or.inl ⟨rfl, rfl, rfl⟩
  simp only [step, Node.step, Node.expire, if_pos hmay]
  rfl

theorem taggedFirst_reach : Reach Node.plain taggedEnv (taggedFirst .empty) := by
  refine Machine.Reach.next (.start (taggedLoad_loaded .empty)) ?_ (taggedFirst_step .empty)
  intro _ tag _ entries groups hstream
  cases hstream

/-- Without a stream in the way the selection of the tag leaves all other keys alone, and probes once. -/
theorem own_namespace_empty : ∃ w', step Node.plain taggedEnv (taggedFirst .empty) (.node .runJob) = some w' ∧
    w'.node.st.nodeTag = some ['t'] ∧ w'.node.st.calls (.attempt .probe) = 1 ∧
    OwnKeysOnly (utf8 (taggedFirst .empty).node.st.config.pfx) (taggedFirst .empty).node.st w'.node.st ∧
    w'.node.st.calls (.attempt .probe) + w'.node.outstanding (.attempt .probe) ≤
      (taggedFirst .empty).node.outstanding (.attempt .probe) := by
  have hrun : (step Node.plain taggedEnv (taggedFirst .empty) (.node .runJob)).map (fun w' =>
      (w'.node.st.nodeTag, w'.node.st.calls (.attempt .probe))) = some (some ['t'], 1) := by
    decide +kernel
  have hbefore : (taggedFirst .empty).node.st.calls (.attempt .probe) = 0 := by decide +kernel
  obtain ⟨w', hw', hall⟩ := Option.map_eq_some_iff.1 hrun
  obtain ⟨htag, hcalls⟩ := Prod.mk.inj hall
  have hclear : ProbesClear (taggedFirst .empty).node.st := fun _ tag _ entries groups hstream => by cases hstream
  obtain ⟨hown, -, -, -, -, -, -, -, hpath⟩ := own_namespace Node.plain taggedEnv (taggedFirst .empty) taggedFirst_reach
  have hle := hpath [.node .runJob] w' (.single ⟨hclear, hw'⟩) (.attempt .probe)
  rw [hbefore, Nat.zero_add] at hle
  exact ⟨w', hw', htag, hcalls, hown (.node .runJob) w' hw' rfl hclear, hle⟩

/-- The key of the probe of a tag. -/
def slotprobe : Bytes := utf8 "\x7bt\x7d#slotprobe".toList

/-- A stream of a user, where the probe of the tag goes. -/
def occupied : Keyspace := Keyspace.empty.store slotprobe (.stream [⟨"1-0".toList, [utf8 ['k'], utf8 ['w']]⟩] [])

/-- The selection of a tag adds an entry to a stream of a user, outside the prefix; and the notification of that entry
is dispatched as an event. -/
theorem probe_feeds_back :
    ∃ w w', Machine.Reach (fun w act w' => step Node.plain taggedEnv w act = some w') (fun _ _ => True)
      (fun w => Node.Loaded Node.plain taggedEnv w.node ∧ w.raised = []) (taggedFirst occupied) ∧
    step Node.plain taggedEnv (taggedFirst occupied) (.node .runJob) = some w ∧
    (taggedFirst occupied).node.st.keyspace 0 slotprobe = some (.stream [⟨"1-0".toList, [utf8 ['k'], utf8 ['w']]⟩] []) ∧
    w.node.st.keyspace 0 slotprobe =
      some (.stream [⟨"1-0".toList, [utf8 ['k'], utf8 ['w']]⟩, ⟨"0-0".toList, [utf8 ['f'], utf8 ['v']]⟩] []) ∧
    ¬ utf8 (taggedFirst occupied).node.st.config.pfx <+: slotprobe ∧
    ¬ OwnKeysOnly (utf8 (taggedFirst occupied).node.st.config.pfx) (taggedFirst occupied).node.st w.node.st ∧
    step Node.plain taggedEnv w (.echo {.stream} "xadd".toList slotprobe false true true) = some w' ∧
    w.node.dispatched.map (fun q => q.event.key) = [[97]] ∧
    w'.node.dispatched.map (fun q => q.event.key) = [[97], slotprobe] := by
  have hbefore : (taggedFirst occupied).node.st.keyspace 0 slotprobe =
      some (.stream [⟨"1-0".toList, [utf8 ['k'], utf8 ['w']]⟩] []) := by
    decide +kernel
  have hrun : (step Node.plain taggedEnv (taggedFirst occupied) (.node .runJob)).map (fun w =>
      (w.node.st.keyspace 0 slotprobe, w.node.dispatched.map fun q => q.event.key)) =
      some (some (.stream [⟨"1-0".toList, [utf8 ['k'], utf8 ['w']]⟩, ⟨"0-0".toList, [utf8 ['f'], utf8 ['v']]⟩] []),
        [[97]]) := by
    decide +kernel
  have hecho : ((step Node.plain taggedEnv (taggedFirst occupied) (.node .runJob)).bind fun w =>
      (step Node.plain taggedEnv w (.echo {.stream} "xadd".toList slotprobe false true true)).map fun w' =>
        w'.node.dispatched.map fun q => q.event.key) = some [[97], slotprobe] := by
    decide +kernel
  have houtside : ¬ utf8 (taggedFirst occupied).node.st.config.pfx <+: slotprobe := by
    decide +kernel
  obtain ⟨w, hw, hall⟩ := Option.map_eq_some_iff.1 hrun
  obtain ⟨hafter, hkeys⟩ := Prod.mk.inj hall
  rw [hw, Option.bind_some] at hecho
  obtain ⟨w', hw', hfed⟩ := Option.map_eq_some_iff.1 hecho
  refine ⟨w, w', ?_, hw, hbefore, hafter, houtside, fun hown => ?_, hw', hkeys, hfed⟩
  · exact Machine.Reach.next (.start (taggedLoad_loaded occupied)) trivial (taggedFirst_step occupied)
  · refine houtside (hown 0 slotprobe ?_).2
    rw [hbefore, hafter]
    decide

end Loopback

end EventStream

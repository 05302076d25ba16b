import EventStream.Registry

/-!
# The prune

`EVENTSTREAM.PRUNE` takes the names without a key out of the registry, and out of the caches the write path dedupes on.

- `pruneNames_spec`: the loop, for every pattern of answers to its lookups and its removals (`answers`);
- `Pruned`: what it leaves of the registry, of the records and of the cap counter;
- `cmdPrune_again`: a second prune finds nothing to do;
- `Later.unlisted`, `mirrorFields_lists`: a removed name stays unlisted until it is written, and the write lists it
  again;
- `prune_reconciles`: the command as a whole.
-/

namespace EventStream

open Text (Str Bytes utf8 ofUtf8)

/-! ## The answers of the server -/

/-- The removal of a name from a registry. -/
def removal (registry name : Str) : Command := .srem (utf8 registry) (utf8 name)

/-- The names that `EXISTS` shows to be absent, each with the answer to its removal; every removal is one call. -/
def answers (env : Env) (registry : Str) (ks : Keyspace) : Nat → List Str → List (Str × Bool)
  | _, [] => []
  | n, name :: rest =>
    if existsKey env n ks (utf8 name) ≠ some false then answers env registry ks n rest
    else
      (name, (env.refuse n (removal registry name) pruneCallOptions).isNone) :: answers env registry ks (n + 1) rest

/-- The names whose removal succeeded. -/
def removedOf (tries : List (Str × Bool)) : List Str := (tries.filter fun x => x.2).map Prod.fst

/-- What a try leaves in the trace. -/
def tryTrace (registry : Str) (x : Str × Bool) : List Occurrence :=
  .call .prune (removal registry x.1) x.2 :: if x.2 then [.pruned x.1] else []

/-- The names without a key. -/
def absentIn (ks : Keyspace) (names : List Str) : List Str := names.filter fun name => (ks 0 (utf8 name)).isNone

section Answers

variable {env : Env} {registry : Str} {ks : Keyspace}

theorem answers_seen {n : Nat} {name : Str} (h : existsKey env n ks (utf8 name) = some false) (rest : List Str) :
    answers env registry ks n (name :: rest) =
      (name, (env.refuse n (removal registry name) pruneCallOptions).isNone) ::
        answers env registry ks (n + 1) rest := by
  rw [answers, if_neg (not_not.2 h)]

theorem answers_skipped {n : Nat} {name : Str} (h : existsKey env n ks (utf8 name) ≠ some false) (rest : List Str) :
    answers env registry ks n (name :: rest) = answers env registry ks n rest := by
  rw [answers, if_pos h]

/-- Only removals of absent names are tried. -/
theorem answers_names (n : Nat) (names : List Str) :
    ((answers env registry ks n names).map Prod.fst).Sublist (absentIn ks names) := by
  induction names generalizing n with
  | nil => exact .slnil
  | cons name rest ih =>
    by_cases hseen : existsKey env n ks (utf8 name) = some false
    · rw [answers_seen hseen, absentIn, List.filter_cons_of_pos (by simp [existsKey_absent hseen])]
      exact (ih (n + 1)).cons_cons name
    · rw [answers_skipped hseen]
      exact (ih n).trans ((List.sublist_cons_self name rest).filter _)

/-- A server that answers every `EXISTS` has every absent name tried. -/
theorem answers_all (hexists : ∀ n key, env.existsAnswered n key = true) (n : Nat) (names : List Str) :
    (answers env registry ks n names).map Prod.fst = absentIn ks names := by
  induction names generalizing n with
  | nil => rfl
  | cons name rest ih =>
    have hkey : existsKey env n ks (utf8 name) = some (ks 0 (utf8 name)).isSome := if_pos (hexists n _)
    cases hk : ks 0 (utf8 name) with
    | none =>
      rw [answers_seen (by rw [hkey, hk]; rfl), List.map_cons, ih, absentIn, absentIn,
        List.filter_cons_of_pos (by simp [hk])]
    | some obj =>
      rw [answers_skipped (by rw [hkey, hk]; simp), ih, absentIn, absentIn, List.filter_cons_of_neg (by simp [hk])]

/-- The answers depend on the keyspace by the presence of the names only. -/
theorem answers_congr {ks' : Keyspace} {names : List Str}
    (h : ∀ s ∈ names, (ks' 0 (utf8 s)).isSome = (ks 0 (utf8 s)).isSome) (n : Nat) :
    answers env registry ks' n names = answers env registry ks n names := by
  induction names generalizing n with
  | nil => rfl
  | cons name rest ih =>
    have hrest := ih fun s hs => h s (List.mem_cons_of_mem _ hs)
    have hkey : existsKey env n ks' (utf8 name) = existsKey env n ks (utf8 name) := by
      rw [existsKey, existsKey, h name (List.mem_cons_self ..)]
    rw [answers, answers, hkey, hrest, hrest]

theorem removedOf_sublist (n : Nat) (names : List Str) :
    (removedOf (answers env registry ks n names)).Sublist (absentIn ks names) :=
  (List.filter_sublist.map Prod.fst).trans (answers_names n names)

end Answers

theorem removedOf_accepted (name : Str) (tries : List (Str × Bool)) :
    removedOf ((name, (none : Option Str).isNone) :: tries) = name :: removedOf tries := rfl

theorem removedOf_refused (name msg : Str) (tries : List (Str × Bool)) :
    removedOf ((name, (some msg).isNone) :: tries) = removedOf tries := rfl

/-! ## What is left -/

/-- A record that is neither counted nor registered. -/
def StreamStats.forgotten (r : StreamStats) : StreamStats :=
  { r with counted := false, registered := false, registryFailed := false }

/-- The names were removed from the registry and forgotten, and nothing else changed. -/
structure Pruned (registry : Str) (removed : List Str) (st st' : State) : Prop where
  members : ∀ ms, smembers st (utf8 registry) = .ok ms →
    smembers st' (utf8 registry) = .ok (ms.filter (· ∉ removed.map utf8))
  keys : ∀ db k, db ≠ 0 ∨ k ≠ utf8 registry → st'.keyspace db k = st.keyspace db k
  records : ∀ s, st'.streamStats.lookup s =
    (st.streamStats.lookup s).map fun r => if s ∈ removed then r.forgotten else r
  current : st'.currentStreams = st.currentStreams - removed.countP fun s => (st.stats s).counted
  rest : st' = { st with
    keyspace := st'.keyspace
    streamStats := st'.streamStats
    currentStreams := st'.currentStreams
    clock := st'.clock
    trace := st'.trace }

namespace Pruned

variable {registry : Str} {removed : List Str} {st st' st'' : State}

theorem of_same (hk : st'.keyspace = st.keyspace) (hs : st'.streamStats = st.streamStats)
    (hc : st'.currentStreams = st.currentStreams)
    (hrest : st' = { st with clock := st'.clock, trace := st'.trace }) : Pruned registry [] st st' where
  members ms h := by
    rw [smembers, hk, ← smembers, h]
    simp
  keys db k _ := by rw [hk]
  records s := by
    rw [hs]
    simp
  current := by
    rw [hc]
    simp
  rest := by rw [hk, hs, hc]; exact hrest

/-- One name more. -/
theorem cons {name : Str} (h : Pruned registry [name] st st') (h' : Pruned registry removed st' st'')
    (hne : name ∉ removed) : Pruned registry (name :: removed) st st'' where
  members ms hms := by
    rw [h'.members _ (h.members ms hms), List.filter_filter]
    congr 1
    apply List.filter_congr
    intro m _
    simp [Bool.and_comm]
  keys db k hk := (h'.keys db k hk).trans (h.keys db k hk)
  records s := by
    rw [h'.records, h.records, Option.map_map]
    congr 1
    funext r
    by_cases hs : s = name
    · subst hs
      simp [hne]
    · simp [hs]
  current := by
    have hstats : ∀ s ∈ removed, st'.stats s = st.stats s := fun s hs => by
      have hsn : s ≠ name := fun e => hne (e ▸ hs)
      rw [State.stats, State.stats, h.records]
      simp [hsn]
    have hcount : removed.countP (fun s => (st'.stats s).counted) = removed.countP fun s => (st.stats s).counted := by
      apply List.countP_congr
      intro s hs
      rw [hstats s hs]
    have hfirst := h.current
    have hothers := h'.current
    rw [List.countP_singleton] at hfirst
    rw [hcount] at hothers
    rw [List.countP_cons]
    omega
  rest := by
    rw [h'.rest, h.rest]

/-- What was counted for a stream stays. -/
theorem counts (h : Pruned registry removed st st') (s : Str) :
    (st'.stats s).forwarded = (st.stats s).forwarded ∧ (st'.stats s).dropped = (st.stats s).dropped := by
  rw [State.stats, State.stats, h.records]
  cases st.streamStats.lookup s with
  | none => exact ⟨rfl, rfl⟩
  | some r => by_cases hs : s ∈ removed <;> simp [hs, StreamStats.forgotten]

/-- A removed name is neither counted nor registered. -/
theorem bits (h : Pruned registry removed st st') {s : Str} (hs : s ∈ removed) :
    (st'.stats s).counted = false ∧ (st'.stats s).registered = false := by
  rw [State.stats, h.records]
  cases st.streamStats.lookup s with
  | none => exact ⟨rfl, rfl⟩
  | some r => simp [hs, StreamStats.forgotten]

end Pruned

section Forget

variable (st : State) (name : Str)

theorem forgetStream_records (s : Str) : (forgetStream st name).streamStats.lookup s =
    (st.streamStats.lookup s).map fun r => if s = name then r.forgotten else r := by
  unfold forgetStream
  simp only
  cases hl : st.streamStats.lookup name with
  | none =>
    by_cases hs : s = name
    · subst hs
      simp [hl]
    · simp [hs]
  | some entry =>
    by_cases hs : s = name
    · subst hs
      simp [State.setStats, hl, StreamStats.forgotten]
    · simp [State.setStats, hs, AList.lookup_insert_ne hs]

theorem forgetStream_current :
    (forgetStream st name).currentStreams = st.currentStreams - if (st.stats name).counted then 1 else 0 := by
  unfold forgetStream
  simp only
  cases hl : st.streamStats.lookup name with
  | none => simp [State.stats, hl]
  | some entry => cases hc : entry.counted <;> simp [State.stats, hl, hc]

theorem forgetStream_eq : forgetStream st name = { st with
    streamStats := (forgetStream st name).streamStats
    currentStreams := (forgetStream st name).currentStreams
    trace := st.trace ++ [.pruned name] } := by
  unfold forgetStream
  simp only
  cases st.streamStats.lookup name <;> rfl

end Forget

/-- An executed removal, as `SMEMBERS` shows it. -/
theorem exec_srem_smembers {env : Env} {n : Nat} {st st' : State} {key member : Bytes} {ms : List Bytes}
    (hms : smembers st key = .ok ms) (h : exec env n st.keyspace (.srem key member) = .ok st'.keyspace) :
    smembers st' key = .ok (ms.filter (· ≠ member)) := by
  unfold smembers at hms ⊢
  simp only [exec] at h
  cases hk : st.keyspace 0 key with
  | none =>
    rw [hk] at hms h
    injection hms with hms
    injection h with h
    rw [← h, hk, ← hms]
    rfl
  | some obj =>
    cases obj with
    | set members =>
      rw [hk] at hms h
      injection hms with hms
      injection h with h
      rw [← h, ← hms]
      simp only [and_self, if_true]
      by_cases hrest : members.filter (· ≠ member) = []
      · rw [if_pos hrest, hrest]
      · rw [if_neg hrest]
    | stream entries groups | other =>
      rw [hk] at hms
      cases hms

/-- The registry is a set, so that the removal is executed unless the server refuses it. -/
theorem removal_cases (env : Env) {registry : Str} (name : Str) {st : State} {ms : List Bytes}
    (hms : smembers st (utf8 registry) = .ok ms) :
    (env.refuse st.clock (removal registry name) pruneCallOptions = none ∧
      ∃ ks, exec env st.clock st.keyspace (removal registry name) = .ok ks ∧
        call env st .prune (removal registry name) pruneCallOptions = (.ok (), { st with
          keyspace := ks, clock := st.clock + 1, trace := st.trace ++ [.call .prune (removal registry name) true] })) ∨
    (∃ msg, env.refuse st.clock (removal registry name) pruneCallOptions = some msg ∧
      call env st .prune (removal registry name) pruneCallOptions = (.error msg, { st with
        clock := st.clock + 1, trace := st.trace ++ [.call .prune (removal registry name) false] })) := by
  have hexec : ∃ ks, exec env st.clock st.keyspace (removal registry name) = .ok ks := by
    simp only [removal, exec]
    cases hk : st.keyspace 0 (utf8 registry) with
    | none => exact ⟨_, rfl⟩
    | some obj =>
      cases obj with
      | set members => exact ⟨_, rfl⟩
      | stream entries groups | other =>
        rw [smembers, hk] at hms
        cases hms
  obtain ⟨ks, hks⟩ := hexec
  unfold call
  cases hr : env.refuse st.clock (removal registry name) pruneCallOptions with
  | none => exact Or.inl ⟨rfl, ks, hks, by simp only [hks]⟩
  | some msg => exact Or.inr ⟨msg, rfl, rfl⟩

/-- The removal of one name. -/
theorem removed_pruned {env : Env} {n : Nat} {registry name : Str} {st : State} {ks : Keyspace}
    (h : exec env n st.keyspace (removal registry name) = .ok ks) (clock : Nat) (trace : List Occurrence) :
    Pruned registry [name] st (forgetStream { st with keyspace := ks, clock := clock, trace := trace } name) := by
  have heq := forgetStream_eq { st with keyspace := ks, clock := clock, trace := trace } name
  have hrecords := forgetStream_records { st with keyspace := ks, clock := clock, trace := trace } name
  have hcurrent := forgetStream_current { st with keyspace := ks, clock := clock, trace := trace } name
  generalize forgetStream { st with keyspace := ks, clock := clock, trace := trace } name =
    st' at heq hrecords hcurrent ⊢
  have hks : st'.keyspace = ks := by rw [heq]
  refine ⟨fun ms hms => ?_, fun db k hk => ?_, fun s => ?_, ?_, ?_⟩
  · rw [exec_srem_smembers hms (hks ▸ h)]
    simp
  · rw [hks]
    exact exec_frame h hk
  · rw [hrecords]
    simp
  · rw [hcurrent, List.countP_singleton]
    change _ - (if (st.stats name).counted = true then 1 else 0) = _
    cases (st.stats name).counted <;> simp
  · rw [heq]

/-! ## The loop -/

/-- A key that holds a member is there. -/
theorem smembers_there {st : State} {key m : Bytes} {ms : List Bytes} (hms : smembers st key = .ok ms) (hm : m ∈ ms) :
    (st.keyspace 0 key).isSome = true := by
  cases hk : st.keyspace 0 key with
  | some obj => rfl
  | none =>
    rw [smembers, hk] at hms
    injection hms with hms
    rw [← hms] at hm
    cases hm

/-- Whether the names that are still to come have a key does not change with the removal of another. -/
theorem present_removed {env : Env} {n : Nat} {registry name : Str} {st : State} {ks : Keyspace} {ms : List Bytes}
    {rest : List Str} (hms : smembers st (utf8 registry) = .ok ms) (hsub : ∀ s ∈ rest, utf8 s ∈ ms)
    (hname : name ∉ rest) (h : exec env n st.keyspace (removal registry name) = .ok ks) :
    ∀ s ∈ rest, (ks 0 (utf8 s)).isSome = (st.keyspace 0 (utf8 s)).isSome := by
  intro s hs
  by_cases hreg : s = registry
  · -- the registry lists itself, and so it is there as long as this name is in it
    subst hreg
    have hne : utf8 s ≠ utf8 name := fun e => hname (Text.utf8_injective e ▸ hs)
    have hleft : smembers { st with keyspace := ks } (utf8 s) = .ok (ms.filter (· ≠ utf8 name)) :=
      exec_srem_smembers hms h
    have hbefore := smembers_there hms (hsub s hs)
    have hafter : (ks 0 (utf8 s)).isSome = true :=
      smembers_there hleft (List.mem_filter.2 ⟨hsub s hs, by simpa using hne⟩)
    rw [hbefore, hafter]
  · rw [exec_frame h (Or.inr fun e => hreg (Text.utf8_injective e))]

theorem pruneNames_spec (env : Env) (registry : Str) (names : List Str) (n : Nat) {st : State} {ms : List Bytes}
    (hnodup : names.Nodup) (hms : smembers st (utf8 registry) = .ok ms) (hsub : ∀ name ∈ names, utf8 name ∈ ms) :
    ∃ st', pruneNames env registry (names.map utf8) n st =
        (.ok (n + (removedOf (answers env registry st.keyspace st.clock names)).length), st') ∧
      Pruned registry (removedOf (answers env registry st.keyspace st.clock names)) st st' ∧
      st'.trace = st.trace ++ (answers env registry st.keyspace st.clock names).flatMap (tryTrace registry) := by
  induction names generalizing n st ms with
  | nil => exact ⟨st, rfl, .of_same rfl rfl rfl rfl, by simp [answers]⟩
  | cons name rest ih =>
    obtain ⟨hname, hrest⟩ := List.nodup_cons.1 hnodup
    have hsub' : ∀ s ∈ rest, utf8 s ∈ ms := fun s hs => hsub s (List.mem_cons_of_mem _ hs)
    rw [List.map_cons, pruneNames, Text.ofUtf8_utf8]
    simp only
    by_cases hseen : existsKey env st.clock st.keyspace (utf8 name) = some false
    · rw [if_neg (not_not.2 hseen), answers_seen hseen]
      rcases removal_cases env name hms with ⟨hr, ks, hks, hcall⟩ | ⟨msg, hr, hcall⟩
      · have hstep := removed_pruned hks (st.clock + 1) (st.trace ++ [.call .prune (removal registry name) true])
        have heq := forgetStream_eq { st with
          keyspace := ks, clock := st.clock + 1, trace := st.trace ++ [.call .prune (removal registry name) true] } name
        have hsame : answers env registry ks (st.clock + 1) rest =
            answers env registry st.keyspace (st.clock + 1) rest :=
          answers_congr (present_removed hms hsub' hname hks) _
        rw [← removal, hcall, hr, removedOf_accepted]
        simp only
        generalize forgetStream { st with
          keyspace := ks
          clock := st.clock + 1
          trace := st.trace ++ [.call .prune (removal registry name) true] } name = next at hstep heq ⊢
        have hclock : next.clock = st.clock + 1 := by rw [heq]
        have hkeys : next.keyspace = ks := by rw [heq]
        have htrace : next.trace = st.trace ++ [.call .prune (removal registry name) true] ++
            [.pruned name] := by rw [heq]
        have hmem : ∀ s ∈ rest, utf8 s ∈ ms.filter (· ∉ [name].map utf8) := fun s hs => by
          have hne : utf8 s ≠ utf8 name := fun e => hname (Text.utf8_injective e ▸ hs)
          exact List.mem_filter.2 ⟨hsub' s hs, by simpa using hne⟩
        obtain ⟨st', hrun, hpruned, hmore⟩ := ih (n + 1) hrest (hstep.members ms hms) hmem
        rw [hclock, hkeys, hsame] at hrun hpruned hmore
        have hfirst : name ∉ removedOf (answers env registry st.keyspace (st.clock + 1) rest) := fun h =>
          hname (List.mem_of_mem_filter ((removedOf_sublist _ _).subset h))
        refine ⟨st', ?_, hstep.cons hpruned hfirst, ?_⟩
        · rw [hrun, List.length_cons]
          congr 2
          omega
        · rw [hmore, htrace]
          simp [tryTrace]
      · have hms' : smembers { st with
            clock := st.clock + 1, trace := st.trace ++ [.call .prune (removal registry name) false] } (utf8 registry) =
              .ok ms := hms
        obtain ⟨st', hrun, hpruned, hmore⟩ := ih n hrest hms' hsub'
        rw [← removal, hcall, hr, removedOf_refused]
        refine ⟨st', hrun, ⟨hpruned.members, hpruned.keys, hpruned.records, hpruned.current, hpruned.rest⟩, ?_⟩
        rw [hmore]
        simp [tryTrace]
    · rw [if_pos hseen, answers_skipped hseen]
      exact ih n hrest hms hsub'

/-! ## The command and the client's database -/

/-- `RedisModule_SelectDb`: an index out of range leaves the selected database. -/
def selectClientDb (databases current db : Nat) : Nat := if db < databases then db else current

/-- `cmd_prune` with the database the client has selected: the reply, the database selected afterwards, and the state.
-/
def cmdPruneFrom (env : Env) (databases origDb : Nat) (st : State) : (Except CommandError Nat × Nat) × State :=
  match tagSegmentCached st with
  | none => ((.ok 0, origDb), st)
  | some seg =>
    match selectDb env st with
    | (false, st) => ((.error (.text selectFailed), origDb), st)
    | (true, st) =>
      let out := pruneInDb0 env st (registryOf st.config.pfx seg)
      -- database 0 is selected here, whatever the reply is
      ((out.1, selectClientDb databases 0 origDb), out.2)

section Client

variable {env : Env} {databases db : Nat} {st : State}

theorem cmdPruneFrom_eq (env : Env) (hdb : db < databases) (st : State) :
    cmdPruneFrom env databases db st = (((cmdPrune env st).1, db), (cmdPrune env st).2) := by
  unfold cmdPruneFrom cmdPrune
  cases tagSegmentCached st with
  | none => rfl
  | some seg =>
    simp only [selectDb, selectClientDb, if_pos hdb]
    cases env.selectDb st.clock <;> rfl

theorem cmdPrune_selected {seg : Str} (hseg : tagSegmentCached st = some seg) (hsel : env.selectDb st.clock = true) :
    cmdPrune env st = pruneInDb0 env { st with clock := st.clock + 1 } (registryOf st.config.pfx seg) := by
  simp only [cmdPrune, hseg, selectDb, hsel]

end Client

/-! ## A second prune -/

theorem pruneNames_present (env : Env) (registry : Str) {names : List Str} (n : Nat) {st : State}
    (h : ∀ name ∈ names, (st.keyspace 0 (utf8 name)).isSome = true) :
    pruneNames env registry (names.map utf8) n st = (.ok n, st) := by
  induction names with
  | nil => rfl
  | cons name rest ih =>
    rw [List.map_cons, pruneNames, Text.ofUtf8_utf8]
    simp only
    have hthere := h name (List.mem_cons_self ..)
    have hseen : existsKey env st.clock st.keyspace (utf8 name) ≠ some false := fun e => by
      rw [existsKey_absent e] at hthere
      cases hthere
    rw [if_pos hseen]
    exact ih fun s hs => h s (List.mem_cons_of_mem _ hs)

section Names

variable {registry : Str} {names removed : List Str} {st st' : State}

/-- The members that are left, as names. -/
theorem Pruned.left (h : Pruned registry removed st st') (hms : smembers st (utf8 registry) = .ok (names.map utf8)) :
    smembers st' (utf8 registry) = .ok ((names.filter (· ∉ removed)).map utf8) := by
  rw [h.members _ hms, List.filter_map]
  congr 2
  apply List.filter_congr
  intro s _
  have hiff : utf8 s ∈ removed.map utf8 ↔ s ∈ removed := List.mem_map_of_injective fun _ _ => Text.utf8_injective
  simp only [Function.comp_apply, hiff]

/-- After the removal of all names without a key, every member has one. -/
theorem Pruned.present (h : Pruned registry (absentIn st.keyspace names) st st')
    (hms : smembers st (utf8 registry) = .ok (names.map utf8)) :
    ∀ name ∈ names.filter (· ∉ absentIn st.keyspace names), (st'.keyspace 0 (utf8 name)).isSome = true := by
  intro name hname
  by_cases hreg : name = registry
  · rw [hreg]
    exact smembers_there (h.left hms) (List.mem_map_of_mem hname)
  · obtain ⟨hmem, hkept⟩ := List.mem_filter.1 hname
    rw [h.keys 0 _ (Or.inr fun e => hreg (Text.utf8_injective e))]
    cases hk : st.keyspace 0 (utf8 name) with
    | some obj => rfl
    | none => simp [absentIn, hmem, hk] at hkept

/-- A second prune finds nothing to do. -/
theorem cmdPrune_again {env : Env} {seg : Str}
    (h : Pruned (registryOf st.config.pfx seg) (absentIn st.keyspace names) st st')
    (hms : smembers st (utf8 (registryOf st.config.pfx seg)) = .ok (names.map utf8))
    (hseg : tagSegmentCached st = some seg) (hsel : env.selectDb st'.clock = true) :
    cmdPrune env st' = (.ok 0, { st' with clock := st'.clock + 1 }) := by
  have hconf : st'.config = st.config := by rw [h.rest]
  have hreg : registryOf st'.config.pfx seg = registryOf st.config.pfx seg := by rw [hconf]
  have hseg' : tagSegmentCached st' = some seg := by
    rw [← hseg, h.rest]
    rfl
  rw [cmdPrune_selected hseg' hsel, hreg, pruneInDb0]
  have hleft : smembers { st' with clock := st'.clock + 1 } (utf8 (registryOf st.config.pfx seg)) = _ := h.left hms
  rw [hleft]
  exact pruneNames_present env _ 0 (h.present hms)

end Names

/-! ## Until the next write -/

/-- What happens on the server after a state: operations, and the small steps inside them. -/
inductive Later (env : Env) (st : State) : State → Prop
  | refl : Later env st st
  | op {a : State} (op : Op) (h : Later env st a) : Later env st (op.apply env a)
  | micro {a b : State} (h : Later env st a) (hm : Micro env (fun _ => True) a b) : Later env st b

/-- Neither counted nor registered since a state, unless written in between. -/
structure Unlisted (name : Str) (st st' : State) : Prop where
  trace : st.trace <+: st'.trace
  bits : ¬ WrittenBetween st st' name → (st'.stats name).counted = false ∧ (st'.stats name).registered = false

section Unlisted

variable {env : Env} {name : Str} {st a b : State}

/-- A longer trace shows the same writes. -/
theorem WrittenBetween.mono (ht : a.trace <+: b.trace) (h : WrittenBetween st a name) : WrittenBetween st b name := by
  obtain ⟨o, ho, hk⟩ := h
  obtain ⟨more, hmore⟩ := ht
  refine ⟨o, ?_, hk⟩
  rw [← hmore]
  exact (List.drop_append ▸ List.mem_append_left _ ho :)

/-- A step that leaves the record, or clears it. -/
theorem Unlisted.kept (h : Unlisted name st a) (ht : a.trace <+: b.trace)
    (hc : (b.stats name).counted = true → (a.stats name).counted = true)
    (hr : (b.stats name).registered = true → (a.stats name).registered = true) : Unlisted name st b := by
  refine ⟨h.trace.trans ht, fun hw => ?_⟩
  obtain ⟨hac, har⟩ := h.bits fun hwa => hw (hwa.mono ht)
  exact ⟨Bool.eq_false_iff.2 fun e => by simp [hc e] at hac, Bool.eq_false_iff.2 fun e => by simp [hr e] at har⟩

theorem Unlisted.of_same (h : Unlisted name st a) (ht : a.trace <+: b.trace) (hs : b.streamStats = a.streamStats) :
    Unlisted name st b :=
  h.kept ht (by rw [State.stats_congr hs]; exact id) (by rw [State.stats_congr hs]; exact id)

theorem Micro.unlisted (hm : Micro env (fun _ => True) a b) (h : Unlisted name st a) : Unlisted name st b := by
  have ht : a.trace <+: b.trace := hm.frame.longer
  cases hm with
  | aside ha => exact h.of_same ht ha.streamStats
  | probed hp =>
    obtain ⟨_, _, _, _, probes, rfl, _, _⟩ := hp
    exact h.of_same ht rfl
  | record stream r hb =>
    by_cases hs : name = stream
    · subst hs
      refine h.kept ht ?_ ?_
      · rw [State.setStats_stats_same, hb.1]
        exact id
      · rw [State.setStats_stats_same, hb.2.1]
        exact id
    · refine h.kept ht ?_ ?_ <;> rw [a.setStats_stats_ne r hs] <;> exact id
  | refused why cmd opts msg hc =>
    rw [call_error hc] at ht ⊢
    exact h.of_same ht rfl
  | control why key trim fields opts hw hc =>
    obtain ⟨ks, _, rfl⟩ := call_ok hc
    exact h.of_same ht rfl
  | mirrored w trim fields counter count opts hok hw hseg hcap hc hcall =>
    have hwr := mirrored_written w.registry count hw hc hcall
    by_cases hs : name = w.stream
    · refine ⟨h.trace.trans ht, fun hno => absurd ?_ hno⟩
      obtain ⟨o, calls, htr, ho, -⟩ := hwr.trace
      refine ⟨o, ?_, hs ▸ ho⟩
      rw [htr, List.drop_append_of_le_length h.trace.length_le]
      exact List.mem_append_right _ (List.mem_cons_self ..)
    · refine h.kept ht ?_ ?_ <;> rw [hwr.stats_ne name hs] <;> exact id

/-- A step that clears the records. -/
theorem Unlisted.cleared (h : Unlisted name st a) (ht : a.trace <+: b.trace) (hs : b.streamStats = ∅) :
    Unlisted name st b := by
  have hstats : b.stats name = {} := by
    rw [State.stats, hs]
    rfl
  refine ⟨h.trace.trans ht, fun _ => ?_⟩
  rw [hstats]
  exact ⟨rfl, rfl⟩

theorem PruneStep.unlisted (hp : PruneStep env a b) (h : Unlisted name st a) : Unlisted name st b := by
  cases hp with
  | aside ha => exact h.of_same ha.longer ha.streamStats
  | refused registry s msg hc =>
    rw [call_error hc]
    exact h.of_same (List.prefix_append _ _) rfl
  | removed registry s habsent hc =>
    obtain ⟨ks, _, rfl⟩ := call_ok hc
    have hrecords := forgetStream_records { a with
      keyspace := ks
      clock := a.clock + 1
      trace := a.trace ++ [.call .prune (.srem (utf8 registry) (utf8 s)) true] } s name
    have heq := forgetStream_eq { a with
      keyspace := ks
      clock := a.clock + 1
      trace := a.trace ++ [.call .prune (.srem (utf8 registry) (utf8 s)) true] } s
    generalize forgetStream { a with
      keyspace := ks
      clock := a.clock + 1
      trace := a.trace ++ [.call .prune (.srem (utf8 registry) (utf8 s)) true] } s = b at hrecords heq
    have ht : a.trace <+: b.trace := by
      rw [heq]
      exact (List.prefix_append _ _).trans (List.prefix_append _ _)
    refine h.kept ht ?_ ?_ <;> rw [State.stats, State.stats, hrecords] <;>
      cases a.streamStats.lookup name <;> by_cases hs : name = s <;> simp [hs, StreamStats.forgotten]

theorem apply_unlisted (op : Op) (h : Unlisted name st a) : Unlisted name st (op.apply env a) := by
  have hrun : ∀ {b}, Steps env (fun _ => True) a b → Unlisted name st b := fun hs =>
    Steps.invariant (fun hm hu => hm.unlisted hu) hs h
  cases op with
  | process hand => exact hrun (process_steps a hand fun _ _ _ _ => trivial)
  | marker control action db retention => exact hrun (writeMarker_steps a control action db retention)
  | checkpoint control retention => exact hrun (writeCheckpoint_steps a control retention)
  | flush dbnum =>
    obtain ⟨-, hs, -, ht⟩ := onFlushStarted_clears a dbnum
    exact h.cleared ⟨_, ht.symm⟩ hs
  | swapdb first second =>
    simp only [Op.apply, swapCommand, onSwapdb]
    split
    · exact h.of_same (List.prefix_refl _) rfl
    split
    · exact h.of_same (List.prefix_refl _) rfl
    · exact h.cleared (List.prefix_append _ _) rfl
  | prune => exact cmdPrune_invariant (fun hp hu => hp.unlisted hu) h
  | setAutoGroup group =>
    simp only [Op.apply, EventStream.setAutoGroup]
    split
    · exact h
    · exact h.of_same (List.prefix_refl _) rfl
  | setFirehose on | role master loading | client db key obj => exact h.of_same (List.prefix_refl _) rfl
  | reset perNode => exact h.cleared (List.prefix_append _ _) rfl

theorem Later.unlisted (hl : Later env st a) (h : Unlisted name st st) : Unlisted name st a := by
  induction hl with
  | refl => exact h
  | op op _ ih => exact apply_unlisted op ih
  | micro _ hm ih => exact hm.unlisted ih

end Unlisted

/-! ## The next write -/

section Write

variable {env : Env} {st st' : State} {pfx seg suffix : Str} {fields : List Bytes} {retention : Retention}
  {maxStreams : Int} {counter : Counter} {count : Nat}

theorem mirrorFields_written
    (h : mirrorFields env st pfx seg suffix fields retention maxStreams counter count = (.written, st')) :
    ∃ st₁, call env st (purposeOf counter)
      (.xadd (utf8 (streamOf pfx seg suffix)) false (trimOf env st retention) fields)
        (xaddCallOptions st) = (.ok (), st₁) ∧
      st' = provisionGroup env
        (registerStream env (recordWrite st₁ (purposeOf counter) (streamOf pfx seg suffix) counter
        count) (purposeOf counter) (registryOf pfx seg) (streamOf pfx seg suffix)) (purposeOf counter)
        (streamOf pfx seg suffix) := by
  unfold mirrorFields at h
  simp only at h
  split at h
  · cases h
  · split at h
    · rename_i st₁ hcall
      exact ⟨st₁, hcall, (Prod.mk.inj h).2.symm⟩
    · exact absurd (Prod.mk.inj h).1 (classify_ne_written _ _)

/-- An unregistered stream is registered by one `SADD`, and the bit is its answer. -/
theorem registerStream_answer (env : Env) {st : State} (why : Purpose) (registry : Str) {stream : Str}
    (h : (st.stats stream).registered = false) :
    (registerStream env st why registry stream).trace = st.trace ++ [.call why (.sadd (utf8 registry) (utf8 stream))
      ((registerStream env st why registry stream).stats stream).registered] := by
  unfold registerStream
  rw [if_neg (by simp [h])]
  rcases call_cases env st why (.sadd (utf8 registry) (utf8 stream)) (xaddCallOptions st) with ⟨ks, _, hc⟩ | ⟨msg, hc⟩
  · rw [hc]
    simp only
    rw [markRegistered_stats, State.setStats_stats_same]
    rfl
  · rw [hc]
    simp only
    rw [markRegistryFailed_stats, State.setStats_stats_same]
    change _ = _ ++ [Occurrence.call why _ (st.stats stream).registered]
    rw [h]
    rfl

/-- A stream that was not listed is: it is counted, and its registration is tried. -/
structure ListedAgain (why : Purpose) (registry stream : Str) (st st' : State) : Prop where
  counted : (st'.stats stream).counted = true
  currentStreams : st'.currentStreams = st.currentStreams + 1
  activeStreams : st'.value .activeStreams = st.value .activeStreams + 1
  tried : .call why (.sadd (utf8 registry) (utf8 stream)) (st'.stats stream).registered ∈
    st'.trace.drop st.trace.length
  registered : (st'.stats stream).registered = true → utf8 stream ∈ st'.keyspace.members (utf8 registry)

theorem mirrorFields_lists (hc : counter.isPlain = true)
    (hcounted : (st.stats (streamOf pfx seg suffix)).counted = false)
    (hregistered : (st.stats (streamOf pfx seg suffix)).registered = false)
    (h : mirrorFields env st pfx seg suffix fields retention maxStreams counter count = (.written, st')) :
    ListedAgain (purposeOf counter) (registryOf pfx seg) (streamOf pfx seg suffix) st st' := by
  obtain ⟨st₁, hcall, rfl⟩ := mirrorFields_written h
  have hw := mirrored_written (registryOf pfx seg) count (purposeOf_cases counter) hc hcall
  refine ⟨hw.counted, ?_, ?_, ?_, fun hr => ?_⟩
  · rw [hw.currentStreams, hcounted]
    rfl
  · rw [hw.active, hcounted]
    rfl
  · have hbit : ((recordWrite st₁ (purposeOf counter) (streamOf pfx seg suffix) counter count).stats
        (streamOf pfx seg suffix)).registered = false := by
      rw [(recordWrite_bits st₁ _ _ counter count).1, call_xadd_stats hcall, hregistered]
    have htried := registerStream_answer env (purposeOf counter) (registryOf pfx seg) hbit
    obtain ⟨calls, hcalls, -⟩ := (provisionGroup_aftermath env (registerStream env (recordWrite st₁ (purposeOf counter)
      (streamOf pfx seg suffix) counter count) (purposeOf counter) (registryOf pfx seg) (streamOf pfx seg suffix))
      (purposeOf counter) (streamOf pfx seg suffix)).trace
    have hlonger : st.trace <+: (recordWrite st₁ (purposeOf counter) (streamOf pfx seg suffix) counter count).trace :=
      (Frame.of_call hcall).longer.trans (recordWrite_frame st₁ _ _ count hc).longer
    rw [hcalls, htried, provisionGroup_registered, List.append_assoc,
      List.drop_append_of_le_length hlonger.length_le]
    exact List.mem_append_right _ (List.mem_cons_self ..)
  · rcases mirrored_registered hcall hr with hb | hm
    · rw [hregistered] at hb
      cases hb
    · exact hm

end Write

/-! ## The whole command -/

theorem removedOf_all {tries : List (Str × Bool)} (h : ∀ x ∈ tries, x.2 = true) :
    removedOf tries = tries.map Prod.fst := by
  rw [removedOf, List.filter_eq_self.2 h]

/-- **A prune reconciles exactly.** Whatever the registry, the keyspace, the records and the answers of the server are:
the client's database is selected again; the names that go are those seen without a key whose removal was accepted, and
their number is the reply, where every name without a key is seen unless a call of `EXISTS` fails; the cap counter loses
those of them that were counted, and nothing else changes; a prune right after one without failures has nothing to do;
and the next write to a removed name counts and registers it again. -/
theorem prune_reconciles (env : Env) {databases db : Nat} (hdb : db < databases) (st : State) :
    (cmdPruneFrom env databases db st).1.2 = db ∧
    ∀ (seg : Str) (names : List Str), tagSegmentCached st = some seg → env.selectDb st.clock = true → names.Nodup →
      smembers st (utf8 (registryOf st.config.pfx seg)) = .ok (names.map utf8) →
      let registry := registryOf st.config.pfx seg
      let tries := answers env registry st.keyspace (st.clock + 1) names
      ((∀ n key, env.existsAnswered n key = true) → tries.map Prod.fst = absentIn st.keyspace names) ∧
      ∃ st', cmdPruneFrom env databases db st = ((.ok (removedOf tries).length, db), st') ∧
        st'.trace = st.trace ++ tries.flatMap (tryTrace registry) ∧
        smembers st' (utf8 registry) = .ok ((names.filter (· ∉ removedOf tries)).map utf8) ∧
        (∀ name, (st.keyspace 0 (utf8 name)).isSome = true → name ∉ removedOf tries) ∧
        Pruned registry (removedOf tries) st st' ∧
        (∀ s, (st'.stats s).forwarded = (st.stats s).forwarded ∧ (st'.stats s).dropped = (st.stats s).dropped) ∧
        (tries.map Prod.fst = absentIn st.keyspace names → (∀ x ∈ tries, x.2 = true) →
          ∀ db' < databases, env.selectDb st'.clock = true →
            cmdPruneFrom env databases db' st' = ((.ok 0, db'), { st' with clock := st'.clock + 1 })) ∧
        ∀ name ∈ removedOf tries, ∀ st₂, Later env st' st₂ → ¬ WrittenBetween st' st₂ name →
          ∀ pfx seg suffix fields retention maxStreams counter count st₃, counter.isPlain = true →
            streamOf pfx seg suffix = name →
            mirrorFields env st₂ pfx seg suffix fields retention maxStreams counter count = (.written, st₃) →
            ListedAgain (purposeOf counter) (registryOf pfx seg) name st₂ st₃ := by
  refine ⟨by rw [cmdPruneFrom_eq env hdb], fun seg names hseg hsel hnodup hms => ?_⟩
  intro registry tries
  have hms' : smembers { st with clock := st.clock + 1 } (utf8 registry) = .ok (names.map utf8) := hms
  obtain ⟨st', hrun, hpruned', htrace⟩ :=
    pruneNames_spec env registry names 0 hnodup hms' fun s hs => List.mem_map_of_mem hs
  have hpruned : Pruned registry (removedOf tries) st st' :=
    ⟨hpruned'.members, hpruned'.keys, hpruned'.records, hpruned'.current, hpruned'.rest⟩
  have hprune : cmdPrune env st = (.ok (removedOf tries).length, st') := by
    rw [Nat.zero_add] at hrun
    rw [cmdPrune_selected hseg hsel, pruneInDb0, hms']
    exact hrun
  refine ⟨fun hexists => answers_all hexists _ names, st', by rw [cmdPruneFrom_eq env hdb, hprune], htrace,
    hpruned.left hms, fun name hkey hname => ?_, hpruned, hpruned.counts, fun hseen hall db' hdb' hsel' => ?_,
    fun name hname st₂ hlater hno _ _ _ _ _ _ _ _ _ hc hstream hwritten => ?_⟩
  · have habsent := (List.mem_filter.1 ((removedOf_sublist _ _).subset hname)).2
    cases hk : st.keyspace 0 (utf8 name) <;> simp [hk] at hkey habsent
  · have hall' : removedOf tries = absentIn st.keyspace names := by
      rw [removedOf_all hall, hseen]
    rw [cmdPruneFrom_eq env hdb', cmdPrune_again (hall' ▸ hpruned) hms hseg hsel']
  · have hstart : Unlisted name st' st' := ⟨List.prefix_refl _, fun _ => hpruned.bits hname⟩
    obtain ⟨hcounted, hregistered⟩ := (hlater.unlisted hstart).bits hno
    subst hstream
    exact mirrorFields_lists hc hcounted hregistered hwritten

/-- Two streams are listed and counted; the key of the first is gone. -/
def staleState : State :=
  let registry := utf8 "events:#streams".toList
  let gone := "events:expired".toList
  let live := "events:del".toList
  let ks := (Keyspace.empty.put 0 registry (some (.set [utf8 gone, utf8 live]))).put 0 (utf8 live) (some .other)
  let listed : StreamStats := { forwarded := 1, counted := true, registered := true }
  { ((State.fresh .defaults ks).setStats gone listed).setStats live listed with currentStreams := 2 }

theorem prune_reconciles_stale :
    ∃ st', cmdPruneFrom .calm 16 3 staleState = ((.ok 1, 3), st') ∧ st'.currentStreams = 1 ∧
      smembers st' (utf8 "events:#streams".toList) = .ok [utf8 "events:del".toList] ∧
      cmdPruneFrom .calm 16 5 st' = ((.ok 0, 5), { st' with clock := st'.clock + 1 }) := by
  obtain ⟨-, st', hrun, -, hleft, -, hpruned, -, hagain, -⟩ :=
    (prune_reconciles .calm (show 3 < 16 by decide) staleState).2 [] ["events:expired".toList, "events:del".toList]
      (by decide +kernel) rfl (by decide +kernel) (by decide +kernel)
  refine ⟨st', hrun.trans ?_, hpruned.current.trans (by decide +kernel), hleft.trans ?_,
    hagain (by decide +kernel) (by decide +kernel) 5 (by decide) rfl⟩
  · congr 2
  · decide +kernel

end EventStream

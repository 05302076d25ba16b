import EventStream.Client.MarkerOrder
import EventStream.Client.Naming
import EventStream.Globs

/-!
# Finding the streams

The client finds the streams of a deployment by scanning the keyspace of every master, and joins what it finds. A scan
is a sequence of requests, each with the cursor that the one before it answered with, while keys come and go on the
server.

* `scanStreams`: the loop of requests; `Sweep`: the iteration of a server, and what it promises.
* `mem_scanFrom`: the names that a scan collects.
* `accepts_pattern`: what the pattern of an accepted prefix matches.
* `discoverAll_exact`: the streams that are found.
-/

namespace EventStream.Client

open Text (Str Bytes utf8 ofUtf8)
open Glob (accepts)

/-! ## The scan -/

/-- What a server answers to the `SCAN` of a number, with a cursor and a pattern: the next cursor and the keys. -/
abbrev Scanner := Nat → Str → Bytes → Option (Str × List Bytes)

/-- The loop of `scan_streams` from one of its requests on. An answer with a name that is not UTF-8 cannot be converted,
which ends the loop as a request that fails does. -/
def scanFrom (answer : Scanner) (pattern : Bytes) : Nat → Nat → Str → List Str
  | 0, _, _ => []
  | fuel + 1, i, cursor =>
    match answer i cursor pattern with
    | none => []
    | some (next, keys) =>
      match keys.mapM ofUtf8 with
      | none => []
      | some names => names ++ if next = zeroCursor then [] else scanFrom answer pattern fuel (i + 1) next

def scanPattern (pfx : Str) : Bytes := utf8 (pfx ++ ['*'])

def scanStreams (answer : Scanner) (fuel : Nat) (pfx : Str) : List Str :=
  scanFrom answer (scanPattern pfx) fuel 0 zeroCursor

/-! ## The server's side -/

def isStream : Option Obj → Bool
  | some (.stream _ _) => true
  | _ => false

/-- One step of an iteration: the keyspace it finds, the keys it looks at and the cursor it answers with. -/
structure ScanStep where
  keyspace : Keyspace
  looksAt : List Bytes
  next : Str

/-- The keys it answers with under `MATCH` and `TYPE stream`. -/
def ScanStep.keys (step : ScanStep) (pattern : Bytes) : List Bytes :=
  step.looksAt.filter fun key => isStream (step.keyspace 0 key) && accepts (tokens pattern) key

/-- An iteration over the keys of a server. It ends where the cursor 0 is answered, and a key that is there all the time
is looked at; a key that comes or goes meanwhile may be missed, and any key may be looked at again. -/
structure Sweep where
  steps : List ScanStep
  fails : Nat → Bool
  ends : ∀ i step, steps[i]? = some step → (step.next = zeroCursor ↔ i + 1 = steps.length)
  covers : ∀ key, (∀ step ∈ steps, (step.keyspace 0 key).isSome) → ∃ step ∈ steps, key ∈ step.looksAt

namespace Sweep

variable (sw : Sweep) (pattern : Bytes)

/-- The cursor that belongs to a request. -/
def cursor : Nat → Str
  | 0 => zeroCursor
  | i + 1 => (sw.steps[i]?.map ScanStep.next).getD zeroCursor

def answer : Scanner := fun i cursor pattern =>
  if sw.fails i ∨ cursor ≠ sw.cursor i then none
  else sw.steps[i]?.map fun step => (step.next, step.keys pattern)

/-- A request that does not fail and whose answer has only names that are UTF-8. -/
def Answers (i : Nat) : Prop :=
  sw.fails i = false ∧ ∀ step, sw.steps[i]? = some step → ∀ key ∈ step.keys pattern, ∃ name, key = utf8 name

end Sweep

/-! ## What a scan collects -/

/-- The names of an answer, or a key that is none. -/
theorem names_cases (keys : List Bytes) :
    (∃ names, keys.mapM ofUtf8 = some names ∧ keys = names.map utf8) ∨
      (keys.mapM ofUtf8 = none ∧ ∃ key ∈ keys, ∀ name, key ≠ utf8 name) := by
  induction keys with
  | nil => exact Or.inl ⟨[], rfl, rfl⟩
  | cons key keys ih =>
    cases hk : ofUtf8 key with
    | none =>
      refine Or.inr ⟨by rw [List.mapM_cons, hk]; rfl, key, List.mem_cons_self, fun name hname => ?_⟩
      rw [Text.ofUtf8_eq_some.2 hname] at hk
      cases hk
    | some name =>
      rcases ih with ⟨names, hmap, hkeys⟩ | ⟨hmap, bad, hbad, hno⟩
      · refine Or.inl ⟨name :: names, by rw [List.mapM_cons, hk, hmap]; rfl, ?_⟩
        rw [List.map_cons, ← hkeys, Text.ofUtf8_eq_some.1 hk]
      · exact Or.inr ⟨by rw [List.mapM_cons, hk, hmap]; rfl, bad, List.mem_cons_of_mem _ hbad, hno⟩

section Scan

variable (sw : Sweep) (pattern : Bytes)

/-- The names of an answer are collected, and the loop goes on with its cursor. -/
theorem scanFrom_answered {i : Nat} {step : ScanStep} (hstep : sw.steps[i]? = some step) (hans : sw.Answers pattern i)
    (fuel : Nat) : ∃ names, step.keys pattern = names.map utf8 ∧
      scanFrom sw.answer pattern (fuel + 1) i (sw.cursor i) =
        names ++ if step.next = zeroCursor then [] else scanFrom sw.answer pattern fuel (i + 1)
          (sw.cursor (i + 1)) := by
  have hanswer : sw.answer i (sw.cursor i) pattern = some (step.next, step.keys pattern) := by
    simp [Sweep.answer, hans.1, hstep]
  have hcursor : sw.cursor (i + 1) = step.next := by simp [Sweep.cursor, hstep]
  rcases names_cases (step.keys pattern) with ⟨names, hmap, hkeys⟩ | ⟨-, bad, hbad, hno⟩
  · refine ⟨names, hkeys, ?_⟩
    simp only [scanFrom, hanswer, hmap, hcursor]
  · obtain ⟨name, hname⟩ := hans.2 step hstep bad hbad
    exact absurd hname (hno name)

/-- Nothing is collected from an answer that fails. -/
theorem scanFrom_failed {i : Nat} (hfail : ∀ step, sw.steps[i]? = some step → ¬ sw.Answers pattern i) (fuel : Nat) :
    scanFrom sw.answer pattern fuel i (sw.cursor i) = [] := by
  cases fuel with
  | zero => rfl
  | succ fuel =>
    cases hanswer : sw.answer i (sw.cursor i) pattern with
    | none => simp only [scanFrom, hanswer]
    | some reply =>
      have hgood : sw.fails i = false ∧ ∃ step, sw.steps[i]? = some step ∧ (step.next, step.keys pattern) = reply := by
        simpa [Sweep.answer] using hanswer
      obtain ⟨hfails, step, hstep, rfl⟩ := hgood
      rcases names_cases (step.keys pattern) with ⟨names, -, hkeys⟩ | ⟨hmap, -⟩
      · refine absurd ⟨hfails, fun step' hstep' key hkey => ?_⟩ (hfail step hstep)
        rw [hstep] at hstep'
        cases hstep'
        rw [hkeys] at hkey
        obtain ⟨name, -, rfl⟩ := List.mem_map.1 hkey
        exact ⟨name, rfl⟩
      · simp only [scanFrom, hanswer, hmap]

/-- A scan collects the names of the answers before the first one that fails. -/
theorem mem_scanFrom {fuel i : Nat} (hfuel : sw.steps.length ≤ i + fuel) (name : Str) :
    name ∈ scanFrom sw.answer pattern fuel i (sw.cursor i) ↔
      ∃ k step, i ≤ k ∧ sw.steps[k]? = some step ∧ (∀ j, i ≤ j → j ≤ k → sw.Answers pattern j) ∧
        utf8 name ∈ step.keys pattern := by
  -- The induction is on the fuel, which lasts for the steps that are left.
  induction fuel generalizing i with
  | zero =>
    simp only [scanFrom, List.not_mem_nil, false_iff]
    rintro ⟨k, step, hk, hstep, -⟩
    have := (List.getElem?_eq_some_iff.1 hstep).1
    omega
  | succ fuel ih =>
    by_cases hhere : ∃ step, sw.steps[i]? = some step ∧ sw.Answers pattern i
    · obtain ⟨step, hstep, hans⟩ := hhere
      obtain ⟨names, hkeys, hscan⟩ := scanFrom_answered sw pattern hstep hans fuel
      have hnames : name ∈ names ↔ utf8 name ∈ step.keys pattern := by
        rw [hkeys]
        refine ⟨fun h => List.mem_map_of_mem h, fun h => ?_⟩
        obtain ⟨name', hmem, heq⟩ := List.mem_map.1 h
        rwa [← Text.utf8_injective heq]
      have hlater : name ∈ (if step.next = zeroCursor then []
            else scanFrom sw.answer pattern fuel (i + 1) (sw.cursor (i + 1))) ↔
          ∃ k step, i + 1 ≤ k ∧ sw.steps[k]? = some step ∧ (∀ j, i + 1 ≤ j → j ≤ k → sw.Answers pattern j) ∧
            utf8 name ∈ step.keys pattern := by
        split
        · rename_i hend
          have hlast := (sw.ends i step hstep).1 hend
          simp only [List.not_mem_nil, false_iff]
          rintro ⟨k, step', hk, hstep', -⟩
          have := (List.getElem?_eq_some_iff.1 hstep').1
          omega
        · exact ih (by omega)
      rw [hscan, List.mem_append, hnames, hlater]
      constructor
      · rintro (h | ⟨k, step', hk, hstep', hall, h⟩)
        · refine ⟨i, step, le_rfl, hstep, fun j hj hj' => ?_, h⟩
          rwa [show j = i by omega]
        · refine ⟨k, step', by omega, hstep', fun j hj hj' => ?_, h⟩
          rcases hj.eq_or_lt with rfl | hj
          · exact hans
          · exact hall j hj hj'
      · rintro ⟨k, step', hk, hstep', hall, h⟩
        rcases hk.eq_or_lt with rfl | hk
        · rw [hstep] at hstep'
          cases hstep'
          exact Or.inl h
        · exact Or.inr ⟨k, step', hk, hstep', fun j hj hj' => hall j (by omega) hj', h⟩
    · rw [scanFrom_failed sw pattern fun step hstep hans => hhere ⟨step, hstep, hans⟩]
      simp only [List.not_mem_nil, false_iff]
      rintro ⟨k, step, hk, hstep, hall, -⟩
      have hle := (List.getElem?_eq_some_iff.1 hstep).1
      exact hhere ⟨_, List.getElem?_eq_getElem (by omega), hall i le_rfl hk⟩

end Scan

/-! ## The pattern -/

/-- No character of an accepted prefix has a meaning of its own in a pattern. -/
theorem prefix_literal {pfx : Str} (hp : validatePrefix pfx = .ok ()) : ∀ b ∈ utf8 pfx, isLiteral b = true := by
  intro b hb
  have hno : ∀ c : Char, c.toNat ≤ 127 → isPrefixChar c = false → b ≠ UInt8.ofNat c.toNat := by
    rintro c hc hbad rfl
    have hgood := validatePrefix_chars hp ((Text.mem_utf8_ascii hc pfx).1 hb)
    rw [hbad] at hgood
    cases hgood
  simp only [isLiteral, ne_eq, Bool.and_eq_true, decide_eq_true_eq]
  exact ⟨⟨⟨hno '*' (by decide) (by decide), hno '?' (by decide) (by decide)⟩, hno '[' (by decide) (by decide)⟩,
    hno '\\' (by decide) (by decide)⟩

/-- The pattern of an accepted prefix matches the keys that begin with it. -/
theorem accepts_pattern {pfx : Str} (hp : validatePrefix pfx = .ok ()) (key : Bytes) :
    accepts (tokens (scanPattern pfx)) key = true ↔ utf8 pfx <+: key := by
  have hpattern : scanPattern pfx = utf8 pfx ++ [42] := by
    rw [scanPattern, Text.utf8_append, Text.utf8_cons_ascii (by decide)]
    rfl
  rw [hpattern, tokens_literal_star (prefix_literal hp), Glob.accepts_literal_star]

theorem mem_keys {pfx : Str} (hp : validatePrefix pfx = .ok ()) (step : ScanStep) (name : Str) :
    utf8 name ∈ step.keys (scanPattern pfx) ↔
      pfx <+: name ∧ utf8 name ∈ step.looksAt ∧ isStream (step.keyspace 0 (utf8 name)) = true := by
  rw [ScanStep.keys, List.mem_filter, Bool.and_eq_true, accepts_pattern hp, Text.utf8_isPrefix_iff]
  tauto

/-! ## All masters -/

theorem mem_discoverAll {masters : List (Option (List Str))} {s : Str} :
    s ∈ discoverAll masters ↔ ∃ names, some names ∈ masters ∧ s ∈ names := by
  simp only [discoverAll, List.mem_insertionSort, List.mem_dedup, List.mem_flatten, List.mem_filterMap, id_eq,
    exists_eq_right]

theorem pairwise_discoverAll (masters : List (Option (List Str))) : (discoverAll masters).Pairwise (· < ·) := by
  have hle : (discoverAll masters).Pairwise (· ≤ ·) := List.pairwise_insertionSort _ _
  have hne : (discoverAll masters).Pairwise (· ≠ ·) := discoverAll_nodup masters
  exact (hle.and hne).imp fun h => lt_of_le_of_ne h.1 h.2

/-- The streams that a client finds on the masters of a deployment; one that cannot be reached is left out. -/
def foundStreams (masters : List (Option Sweep)) (fuel : Nat) (pfx : Str) : List Str :=
  discoverAll (masters.map fun master => master.map fun sw => scanStreams sw.answer fuel pfx)

section Found

variable {masters : List (Option Sweep)} {fuel : Nat} {pfx s : Str}

theorem mem_foundStreams (hp : validatePrefix pfx = .ok ()) (hfuel : ∀ sw, some sw ∈ masters → sw.steps.length ≤ fuel) :
    s ∈ foundStreams masters fuel pfx ↔ pfx <+: s ∧ ∃ sw k step, some sw ∈ masters ∧ sw.steps[k]? = some step ∧
      (∀ j ≤ k, sw.Answers (scanPattern pfx) j) ∧ utf8 s ∈ step.looksAt ∧
      isStream (step.keyspace 0 (utf8 s)) = true := by
  have hscan : ∀ sw, some sw ∈ masters → (s ∈ scanStreams sw.answer fuel pfx ↔ ∃ k step, sw.steps[k]? = some step ∧
      (∀ j ≤ k, sw.Answers (scanPattern pfx) j) ∧ utf8 s ∈ step.keys (scanPattern pfx)) := by
    intro sw hsw
    have henough : sw.steps.length ≤ 0 + fuel := by
      rw [Nat.zero_add]
      exact hfuel sw hsw
    refine (mem_scanFrom sw (scanPattern pfx) henough s).trans ?_
    simp only [Nat.zero_le, true_and, forall_const]
  rw [foundStreams, mem_discoverAll]
  constructor
  · rintro ⟨names, hnames, hs⟩
    obtain ⟨_ | sw, hsw, hmap⟩ := List.mem_map.1 hnames
    · cases hmap
    · cases hmap
      obtain ⟨k, step, hstep, hall, hkey⟩ := (hscan sw hsw).1 hs
      obtain ⟨hpfx, hlooks, hstream⟩ := (mem_keys hp step s).1 hkey
      exact ⟨hpfx, sw, k, step, hsw, hstep, hall, hlooks, hstream⟩
  · rintro ⟨hpfx, sw, k, step, hsw, hstep, hall, hlooks, hstream⟩
    refine ⟨_, List.mem_map_of_mem hsw, (hscan sw hsw).2 ⟨k, step, hstep, hall, ?_⟩⟩
    exact (mem_keys hp step s).2 ⟨hpfx, hlooks, hstream⟩

/-- A stream that is there all the time. -/
def Sweep.Lasting (sw : Sweep) (s : Str) : Prop := ∀ step ∈ sw.steps, isStream (step.keyspace 0 (utf8 s)) = true

/-- Such a stream is found, if all requests are answered. -/
theorem foundStreams_of_lasting (hp : validatePrefix pfx = .ok ())
    (hfuel : ∀ sw, some sw ∈ masters → sw.steps.length ≤ fuel) {sw : Sweep} (hsw : some sw ∈ masters)
    (hall : ∀ j, sw.Answers (scanPattern pfx) j) (hpfx : pfx <+: s) (hlast : sw.Lasting s) :
    s ∈ foundStreams masters fuel pfx := by
  have hsome : ∀ o : Option Obj, isStream o = true → o.isSome = true := by
    intro o ho
    cases o with
    | none => cases ho
    | some _ => rfl
  obtain ⟨step, hstep, hlooks⟩ := sw.covers (utf8 s) fun step hstep => hsome _ (hlast step hstep)
  obtain ⟨k, hk⟩ := List.mem_iff_getElem?.1 hstep
  exact (mem_foundStreams hp hfuel).2 ⟨hpfx, sw, k, step, hsw, hk, fun j _ => hall j, hlooks, hlast step hstep⟩

end Found

/-- **Discovery is exact.** For every accepted prefix, every set of masters and whatever happens to their keys
meanwhile: the streams that are found are listed in order and once; they are the streams with the prefix that an answer
of a master holds before the first request of its scan that fails, or that is answered with a name that is not UTF-8. So
every stream with the prefix that is there all the time on a master whose requests are all answered is found. -/
theorem foundStreams_exact (masters : List (Option Sweep)) (fuel : Nat) (pfx : Str) (hp : validatePrefix pfx = .ok ())
    (hfuel : ∀ sw, some sw ∈ masters → sw.steps.length ≤ fuel) :
    (foundStreams masters fuel pfx).Pairwise (· < ·) ∧
    (∀ s, s ∈ foundStreams masters fuel pfx ↔ pfx <+: s ∧ ∃ sw k step, some sw ∈ masters ∧ sw.steps[k]? = some step ∧
      (∀ j ≤ k, sw.Answers (scanPattern pfx) j) ∧ utf8 s ∈ step.looksAt ∧
      isStream (step.keyspace 0 (utf8 s)) = true) ∧
    ∀ sw, some sw ∈ masters → (∀ j, sw.Answers (scanPattern pfx) j) → ∀ s, pfx <+: s → sw.Lasting s →
      s ∈ foundStreams masters fuel pfx :=
  ⟨pairwise_discoverAll _, fun _ => mem_foundStreams hp hfuel,
    fun _ hsw hall _ => foundStreams_of_lasting hp hfuel hsw hall⟩

/-- A keyspace with one stream. -/
def oneStream (name : Str) : Keyspace := fun db key => if db = 0 ∧ key = utf8 name then some (.stream [] []) else none

theorem isStream_oneStream (name : Str) (key : Bytes) : isStream (oneStream name 0 key) = true ↔ key = utf8 name := by
  by_cases h : key = utf8 name <;> simp [oneStream, isStream, h]

/-- A scan in two steps, the first of which looks at nothing. -/
def twoSteps (name : Str) : Sweep where
  steps := [⟨oneStream name, [], "7".toList⟩, ⟨oneStream name, [utf8 name, [255]], zeroCursor⟩]
  fails _ := false
  ends i step h := by
    rcases i with _ | _ | i
    · cases h
      change "7".toList = zeroCursor ↔ 0 + 1 = 2
      decide
    · cases h
      exact ⟨fun _ => rfl, fun _ => rfl⟩
    · cases h
  covers key h := by
    refine ⟨_, List.mem_cons_of_mem _ List.mem_cons_self, ?_⟩
    have hkey := h _ List.mem_cons_self
    simp only [oneStream, true_and] at hkey
    split at hkey
    · rename_i hname
      rw [hname]
      exact List.mem_cons_self
    · cases hkey

theorem twoSteps_keyspace {name : Str} {step : ScanStep} (h : step ∈ (twoSteps name).steps) :
    step.keyspace = oneStream name := by
  simp only [twoSteps, List.mem_cons, List.not_mem_nil, or_false] at h
  rcases h with rfl | rfl <;> rfl

theorem twoSteps_answers (name : Str) (pattern : Bytes) (j : Nat) : (twoSteps name).Answers pattern j := by
  refine ⟨rfl, fun step hstep key hkey => ⟨name, ?_⟩⟩
  obtain ⟨-, hkey⟩ := List.mem_filter.1 hkey
  rw [twoSteps_keyspace (List.mem_of_getElem? hstep), Bool.and_eq_true, isStream_oneStream] at hkey
  exact hkey.1

theorem twoSteps_lasting (name : Str) : (twoSteps name).Lasting name := by
  intro step hstep
  rw [twoSteps_keyspace hstep]
  exact (isStream_oneStream name _).2 rfl

theorem twoSteps_fuel (name : Str) : ∀ sw, some sw ∈ [none, some (twoSteps name)] → sw.steps.length ≤ 2 := by
  intro sw hsw
  simp only [List.mem_cons, reduceCtorEq, Option.some.injEq, List.not_mem_nil, or_false, false_or] at hsw
  rw [hsw]
  exact le_rfl

theorem foundStreams_exact_two :
    "events:set".toList ∈ foundStreams [none, some (twoSteps "events:set".toList)] 2 "events:".toList :=
  (foundStreams_exact [none, some (twoSteps "events:set".toList)] 2 "events:".toList (by decide)
    (twoSteps_fuel _)).2.2 _
    (List.mem_cons_of_mem _ List.mem_cons_self) (twoSteps_answers _ _) _ ⟨"set".toList, rfl⟩ (twoSteps_lasting _)

end EventStream.Client

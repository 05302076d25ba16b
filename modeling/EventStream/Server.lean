import EventStream.Event

/-!
# The server

The commands the module issues, the keyspace they act on, and the answers they get. The module's calls run in database
0. A command is either refused with an error text (out of memory, a slot that is not local, anything else) or executed:
an executed command fails on a key of the wrong type, as the server does, and otherwise changes the one key it names.

`Env` holds everything the module asks of the outside: the refusals, whether a database can be selected, the clocks, the
generated entry IDs and what an approximate trim removes. Each is indexed by the number of the call, so that a run may
meet any sequence of answers.
-/

namespace EventStream

open Text (Str Bytes utf8)

/-! ## Keyspace -/

structure Entry where
  id : Str
  fields : List Bytes
  deriving DecidableEq

inductive Obj
  | stream (entries : List Entry) (groups : List Bytes)
  | set (members : List Bytes)
  | other
  deriving DecidableEq

/-- The keys of each database. -/
abbrev Keyspace := Nat → Bytes → Option Obj

namespace Keyspace

/-- Store an object in database 0. -/
def store (ks : Keyspace) (key : Bytes) (obj : Obj) : Keyspace := fun db k =>
  if db = 0 ∧ k = key then some obj else ks db k

/-- The entries of a stream of database 0. -/
def entries (ks : Keyspace) (key : Bytes) : List Entry :=
  match ks 0 key with
  | some (.stream entries _) => entries
  | _ => []

/-- The consumer groups of a stream of database 0. -/
def groups (ks : Keyspace) (key : Bytes) : List Bytes :=
  match ks 0 key with
  | some (.stream _ groups) => groups
  | _ => []

/-- The members of a set of database 0. -/
def members (ks : Keyspace) (key : Bytes) : List Bytes :=
  match ks 0 key with
  | some (.set members) => members
  | _ => []

@[simp] theorem store_same (ks : Keyspace) (key : Bytes) (obj : Obj) : ks.store key obj 0 key = some obj := by
  simp [store]

end Keyspace

/-! ## Commands -/

/-- The options of a call: replicated, errors as replies, refused under `maxmemory`. -/
structure CallOptions where
  replicate : Bool
  errorsAsReplies : Bool
  verifyOom : Bool
  deriving DecidableEq, Repr

inductive Command
  | xadd (key : Bytes) (nomkstream : Bool) (trim : Option (TrimKeyword × Str)) (fields : List Bytes)
  | sadd (key member : Bytes)
  | srem (key member : Bytes)
  | xgroupCreate (key group : Bytes)
  deriving DecidableEq

/-- The key a command writes. -/
def Command.key : Command → Bytes
  | xadd key _ _ _ => key
  | sadd key _ => key
  | srem key _ => key
  | xgroupCreate key _ => key

/-- The answers of the outside, by call number. -/
structure Env where
  /-- The error text of a call that is refused before it executes. -/
  refuse : Nat → Command → CallOptions → Option Str
  selectDb : Nat → Bool
  /-- Whether `EXISTS` of a key is answered with a number. -/
  existsAnswered : Nat → Bytes → Bool
  unixNow : Nat → Nat
  nowMs : Nat → Int
  /-- The ID generated for an added entry. -/
  entryId : Nat → Str
  /-- How many of the oldest entries an approximate trim removes. -/
  trimmed : Nat → Nat
  /-- The canonical key name of a slot; absent on servers without that function. -/
  canonicalName : Option (Nat → Option Str)

def wrongType : Str := "WRONGTYPE Operation against a key holding the wrong kind of value".toList

def busyGroup : Str := "BUSYGROUP Consumer Group name already exists".toList

def noSuchKey : Str :=
  "ERR The XGROUP subcommand requires the key to exist.".toList

/-- Execute a command in database 0. -/
def exec (env : Env) (n : Nat) (ks : Keyspace) : Command → Except Str Keyspace
  | .xadd key nomkstream trim fields =>
    let entry : Entry := ⟨env.entryId n, fields⟩
    let cut := if trim.isSome then env.trimmed n else 0
    match ks 0 key with
    | none => .ok (if nomkstream then ks else ks.store key (.stream ([entry].drop cut) []))
    | some (.stream entries groups) => .ok (ks.store key (.stream ((entries ++ [entry]).drop cut) groups))
    | some _ => .error wrongType
  | .sadd key member =>
    match ks 0 key with
    | none => .ok (ks.store key (.set [member]))
    | some (.set members) => .ok (ks.store key (.set (if member ∈ members then members else members ++ [member])))
    | some _ => .error wrongType
  | .srem key member =>
    match ks 0 key with
    | none => .ok ks
    | some (.set members) =>
      -- The server deletes a set that becomes empty.
      let rest := members.filter (· ≠ member)
      .ok fun db k => if db = 0 ∧ k = key then (if rest = [] then none else some (.set rest)) else ks db k
    | some _ => .error wrongType
  | .xgroupCreate key group =>
    match ks 0 key with
    | none => .error noSuchKey
    | some (.stream entries groups) =>
      if group ∈ groups then .error busyGroup else .ok (ks.store key (.stream entries (groups ++ [group])))
    | some _ => .error wrongType

/-- A command changes no key but its own, and nothing outside database 0. -/
theorem exec_frame {env : Env} {n : Nat} {ks ks' : Keyspace} {cmd : Command} (h : exec env n ks cmd = .ok ks')
    {db : Nat} {k : Bytes} (hk : db ≠ 0 ∨ k ≠ cmd.key) : ks' db k = ks db k := by
  have hne : ¬ (db = 0 ∧ k = cmd.key) := by
    rintro ⟨h1, h2⟩
    rcases hk with hk | hk
    · exact hk h1
    · exact hk h2
  cases cmd with
  | xadd key nomkstream trim fields =>
    simp only [exec] at h
    split at h
    · injection h with h
      subst h
      split
      · rfl
      · exact if_neg hne
    · injection h with h
      subst h
      exact if_neg hne
    · cases h
  | sadd key member =>
    simp only [exec] at h
    split at h
    · injection h with h
      subst h
      exact if_neg hne
    · injection h with h
      subst h
      exact if_neg hne
    · cases h
  | srem key member =>
    simp only [exec] at h
    split at h
    · injection h with h
      rw [h]
    · injection h with h
      subst h
      exact if_neg hne
    · cases h
  | xgroupCreate key group =>
    simp only [exec] at h
    split at h
    · cases h
    · split at h
      · cases h
      · injection h with h
        subst h
        exact if_neg hne
    · cases h

/-! ## What an executed command leaves behind -/

section Exec

variable {env : Env} {n : Nat} {ks ks' : Keyspace} {key : Bytes}

/-- An executed `XADD` appends its entry, then trims. -/
theorem exec_xadd_entries {trim : Option (TrimKeyword × Str)} {fields : List Bytes}
    (h : exec env n ks (.xadd key false trim fields) = .ok ks') :
    ks'.entries key = (ks.entries key ++ [Entry.mk (env.entryId n) fields]).drop
      (if trim.isSome then env.trimmed n else 0) ∧ ks'.groups key = ks.groups key := by
  simp only [exec] at h
  split at h
  · rename_i hk
    injection h with h
    subst h
    simp [Keyspace.entries, Keyspace.groups, hk]
  · rename_i hk
    injection h with h
    subst h
    simp [Keyspace.entries, Keyspace.groups, hk]
  · cases h

/-- An executed `SADD` leaves the member in the set and removes none. -/
theorem exec_sadd_members {member : Bytes} (h : exec env n ks (.sadd key member) = .ok ks') :
    member ∈ ks'.members key ∧ ∀ m ∈ ks.members key, m ∈ ks'.members key := by
  simp only [exec] at h
  split at h
  · rename_i hk
    injection h with h
    subst h
    simp [Keyspace.members, hk]
  · rename_i hk
    injection h with h
    subst h
    simp only [Keyspace.members, hk, Keyspace.store_same]
    split
    · exact ⟨by assumption, fun m hm => hm⟩
    · exact ⟨by simp, fun m hm => by simp [hm]⟩
  · cases h

/-- An executed `SREM` removes the member and nothing else. -/
theorem exec_srem_members {member : Bytes} (h : exec env n ks (.srem key member) = .ok ks') (m : Bytes) :
    m ∈ ks'.members key ↔ m ∈ ks.members key ∧ m ≠ member := by
  simp only [exec] at h
  split at h
  · rename_i hk
    injection h with h
    subst h
    simp [Keyspace.members, hk]
  · rename_i members hk
    injection h with h
    subst h
    have hm : m ∈ members.filter (fun x => decide (x ≠ member)) ↔ m ∈ members ∧ m ≠ member := by simp
    simp only [Keyspace.members, hk, and_self, if_true]
    rw [← hm]
    split
    · rename_i heq
      split at heq
      · cases heq
      · injection heq with heq
        injection heq with heq
        rw [heq]
    · rename_i hne
      split at hne
      · rename_i hnil
        rw [hnil]
      · exact absurd rfl (hne _)
  · cases h

/-- An executed `XGROUP CREATE` adds the group and keeps the entries. -/
theorem exec_xgroupCreate {group : Bytes} (h : exec env n ks (.xgroupCreate key group) = .ok ks') :
    group ∈ ks'.groups key ∧ (∀ g ∈ ks.groups key, g ∈ ks'.groups key) ∧ ks'.entries key = ks.entries key := by
  simp only [exec] at h
  split at h
  · cases h
  · rename_i hk
    split at h
    · cases h
    · injection h with h
      subst h
      simp only [Keyspace.groups, Keyspace.entries, hk, Keyspace.store_same]
      exact ⟨by simp, fun g hg => by simp [hg], trivial⟩
  · cases h

/-- Only `XADD` changes the entries of a stream. -/
theorem exec_entries {cmd : Command} (h : exec env n ks cmd = .ok ks')
    (hx : ∀ key nomk trim fields, cmd ≠ .xadd key nomk trim fields) (k : Bytes) : ks'.entries k = ks.entries k := by
  by_cases hk : k = cmd.key
  · subst hk
    cases cmd with
    | xadd key nomk trim fields => exact absurd rfl (hx key nomk trim fields)
    | sadd key member =>
      have hkey : (Command.sadd key member).key = key := rfl
      rw [hkey]
      simp only [exec] at h
      split at h
      · rename_i hn
        injection h with h
        subst h
        simp [Keyspace.entries, hn]
      · rename_i members hs
        injection h with h
        subst h
        simp [Keyspace.entries, hs]
      · cases h
    | srem key member =>
      have hkey : (Command.srem key member).key = key := rfl
      rw [hkey]
      simp only [exec] at h
      split at h
      · injection h with h
        rw [h]
      · rename_i members hs
        injection h with h
        subst h
        simp only [Keyspace.entries, hs, and_self, if_true]
        split
        · rename_i heq
          split at heq <;> cases heq
        · rfl
      · cases h
    | xgroupCreate key group => exact (exec_xgroupCreate h).2.2
  · simp only [Keyspace.entries, exec_frame h (Or.inr hk)]

end Exec

/-! ## Members and groups stay -/

/-- No set has lost a member and no stream a consumer group. -/
def Grows (ks ks' : Keyspace) : Prop :=
  ∀ key, (∀ m ∈ ks.members key, m ∈ ks'.members key) ∧ ∀ g ∈ ks.groups key, g ∈ ks'.groups key

theorem Grows.refl (ks : Keyspace) : Grows ks ks := fun _ => ⟨fun _ h => h, fun _ h => h⟩

theorem Grows.trans {ks₁ ks₂ ks₃ : Keyspace} (h : Grows ks₁ ks₂) (h' : Grows ks₂ ks₃) : Grows ks₁ ks₃ := fun key =>
  ⟨fun m hm => (h' key).1 m ((h key).1 m hm), fun g hg => (h' key).2 g ((h key).2 g hg)⟩

/-- Only `SREM` removes anything: a write to a key of another type fails. -/
theorem exec_grows {env : Env} {n : Nat} {ks ks' : Keyspace} {cmd : Command} (h : exec env n ks cmd = .ok ks')
    (hc : ∀ key member, cmd ≠ .srem key member) : Grows ks ks' := by
  intro key
  by_cases hk : key = cmd.key
  · subst hk
    cases cmd with
    | xadd key nomkstream trim fields =>
      have hk : (Command.xadd key nomkstream trim fields).key = key := rfl
      rw [hk]
      simp only [exec] at h
      split at h
      · rename_i hn
        simp [Keyspace.members, Keyspace.groups, hn]
      · rename_i entries groups hs
        injection h with h
        subst h
        simp [Keyspace.members, Keyspace.groups, hs]
      · cases h
    | sadd key member =>
      have hk : (Command.sadd key member).key = key := rfl
      rw [hk]
      refine ⟨(exec_sadd_members h).2, fun g hg => ?_⟩
      simp only [exec] at h
      split at h
      · rename_i hn
        simp [Keyspace.groups, hn] at hg
      · rename_i members hs
        simp [Keyspace.groups, hs] at hg
      · cases h
    | srem key member => exact absurd rfl (hc key member)
    | xgroupCreate key group =>
      have hk : (Command.xgroupCreate key group).key = key := rfl
      rw [hk]
      refine ⟨fun m hm => ?_, (exec_xgroupCreate h).2.1⟩
      simp only [exec] at h
      split at h
      · cases h
      · rename_i entries groups hs
        simp [Keyspace.members, hs] at hm
      · cases h
  · have he : ks' 0 key = ks 0 key := exec_frame h (Or.inr hk)
    have hm : ks'.members key = ks.members key := by simp only [Keyspace.members, he]
    have hg : ks'.groups key = ks.groups key := by simp only [Keyspace.groups, he]
    rw [hm, hg]
    exact ⟨fun _ h => h, fun _ h => h⟩

end EventStream

import EventStream.Lib.Words
import Mathlib.Data.Char
import Mathlib.Data.List.Infix
import Mathlib.Data.List.Lex
import Mathlib.Data.List.Sort

/-!
# The serving masters of a cluster

The client learns the nodes of a cluster from the text of `CLUSTER NODES` and keeps the addresses of those it may query.
It looks for the names of flags anywhere in the field of flags.

- `mastersFromClusterNodes`: the client's reading of the text;
- `ClusterNode` and `clusterNodesText`: the nodes, and the text a server prints for them;
- `ClusterNode.Serving` and `servingMasters`: the nodes that are meant;
- `masterOfLine_line`: what the client makes of the line of a node;
- `masters_eq_serving_iff`: it finds the serving masters exactly if none of them has failover switched off.
-/

namespace EventStream.Client

open Text (Str lines splitWhitespace showNat isWhitespace IsWord)

/-! ## Reading the text -/

/-- `str::contains`. -/
def contains (s sub : Str) : Bool := decide (sub <:+: s)

/-- One line: the address before the bus port, if the flags allow it. -/
def masterOfLine (line : Str) : Option Str :=
  match splitWhitespace line with
  | _ :: addr :: flags :: _ =>
    if ¬ contains flags "master".toList ∨ contains flags "fail".toList ∨ contains flags "noaddr".toList ∨
        contains flags "handshake".toList then none
    else some (addr.takeWhile (· ≠ '@'))
  | _ => none

/-- Strings are sorted by their bytes, which is the order of their scalar values. -/
def mastersFromClusterNodes (nodes : Str) : List Str :=
  ((lines nodes).filterMap masterOfLine).insertionSort (· ≤ ·)

/-! ## The nodes of a cluster -/

inductive Flag
  | myself | master | slave | pfail | fail | handshake | noaddr | nofailover | noflags
  deriving DecidableEq

def Flag.text : Flag → Str
  | myself => "myself".toList
  | master => "master".toList
  | slave => "slave".toList
  | pfail => "fail?".toList
  | fail => "fail".toList
  | handshake => "handshake".toList
  | noaddr => "noaddr".toList
  | nofailover => "nofailover".toList
  | noflags => "noflags".toList

/-- A node as a server lists it; the fields after the flags are of no interest here. -/
structure ClusterNode where
  id : Str
  ip : Str
  port : Nat
  busPort : Nat
  hostname : Option Str
  flags : List Flag
  rest : List Str
  id_word : IsWord id
  ip_clean : ∀ c ∈ ip, isWhitespace c = false ∧ c ≠ '@'
  hostname_clean : ∀ h ∈ hostname, ∀ c ∈ h, isWhitespace c = false
  flags_ne_nil : flags ≠ []
  rest_words : ∀ w ∈ rest, IsWord w

namespace ClusterNode

/-- `ip:port`. -/
def hostPort (n : ClusterNode) : Str := n.ip ++ ':' :: showNat n.port

/-- `ip:port@busport[,hostname]`. -/
def address (n : ClusterNode) : Str :=
  n.hostPort ++ '@' :: (showNat n.busPort ++ (n.hostname.map fun h => ',' :: h).getD [])

def flagsField (n : ClusterNode) : Str := [','].intercalate (n.flags.map Flag.text)

def line (n : ClusterNode) : Str := [' '].intercalate (n.id :: n.address :: n.flagsField :: n.rest)

/-- A master that is reachable and has joined. -/
def Serving (n : ClusterNode) : Prop :=
  .master ∈ n.flags ∧ .fail ∉ n.flags ∧ .pfail ∉ n.flags ∧ .noaddr ∉ n.flags ∧ .handshake ∉ n.flags

instance (n : ClusterNode) : Decidable n.Serving :=
  inferInstanceAs (Decidable (_ ∧ _ ∧ _ ∧ _ ∧ _))

end ClusterNode

/-- The text of `CLUSTER NODES`. -/
def clusterNodesText (nodes : List ClusterNode) : Str := (nodes.map ClusterNode.line).flatMap (· ++ ['\n'])

/-- The sorted addresses of the serving masters, each as often as it occurs. -/
def servingMasters (nodes : List ClusterNode) : List Str :=
  ((nodes.filter fun n => decide n.Serving).map ClusterNode.hostPort).insertionSort (· ≤ ·)

/-! ## The line of a node -/

theorem showNat_clean {n : Nat} {c : Char} (h : c ∈ showNat n) : isWhitespace c = false ∧ c ≠ '@' := by
  have hd := Text.isDigit_of_mem_showNat h
  rw [Char.isDigit, Bool.and_eq_true, decide_eq_true_eq, decide_eq_true_eq, ge_iff_le, UInt32.le_iff_toNat_le,
    UInt32.le_iff_toNat_le] at hd
  have hn : 48 ≤ c.toNat ∧ c.toNat ≤ 57 := hd
  constructor
  · rw [Bool.eq_false_iff]
    simp only [isWhitespace, ne_eq, Bool.or_eq_true, Bool.and_eq_true, decide_eq_true_eq, beq_iff_eq]
    omega
  · rintro rfl
    exact absurd hn (by decide)

theorem Flag.text_word (f : Flag) : IsWord f.text := by
  cases f <;> decide

theorem Flag.comma_not_mem_text (f : Flag) : ',' ∉ f.text := by
  cases f <;> decide

namespace ClusterNode

variable (n : ClusterNode)

theorem hostPort_clean {c : Char} (h : c ∈ n.hostPort) : isWhitespace c = false ∧ c ≠ '@' := by
  rw [hostPort, List.mem_append, List.mem_cons] at h
  rcases h with h | rfl | h
  · exact n.ip_clean c h
  · decide
  · exact showNat_clean h

theorem address_word : IsWord n.address where
  ne_nil := by simp [address]
  not_white := by
    intro c h
    rw [address, List.mem_append, List.mem_cons, List.mem_append] at h
    rcases h with h | rfl | h | h
    · exact (n.hostPort_clean h).1
    · decide
    · exact (showNat_clean h).1
    · cases hh : n.hostname with
      | none => simp [hh] at h
      | some host =>
        simp only [hh, Option.map_some, Option.getD_some, List.mem_cons] at h
        rcases h with rfl | h
        · decide
        · exact n.hostname_clean host hh c h

theorem flagsField_word : IsWord n.flagsField where
  ne_nil := by
    obtain ⟨f, fs, hf⟩ := List.exists_cons_of_ne_nil n.flags_ne_nil
    have hsome : f.text <:+: n.flagsField := by
      rw [flagsField, Text.infix_intercalate f.comma_not_mem_text f.text_word.ne_nil]
      exact ⟨f.text, List.mem_map_of_mem (by rw [hf]; exact List.mem_cons_self), List.infix_rfl⟩
    intro hnil
    rw [hnil] at hsome
    exact f.text_word.ne_nil (List.eq_nil_of_infix_nil hsome)
  not_white := by
    intro c h
    rcases Text.mem_intercalate h with rfl | ⟨t, ht, hc⟩
    · decide
    · obtain ⟨f, -, rfl⟩ := List.mem_map.1 ht
      exact f.text_word.not_white c hc

theorem takeWhile_address : n.address.takeWhile (· ≠ '@') = n.hostPort := by
  have hall : ∀ c ∈ n.hostPort, decide (c ≠ '@') = true := by
    intro c h
    exact decide_eq_true (n.hostPort_clean h).2
  rw [address, List.takeWhile_append_of_pos hall]
  simp

theorem fields_words : ∀ w ∈ n.id :: n.address :: n.flagsField :: n.rest, IsWord w := by
  simp only [List.forall_mem_cons]
  exact ⟨n.id_word, n.address_word, n.flagsField_word, n.rest_words⟩

theorem splitWhitespace_line : splitWhitespace n.line = n.id :: n.address :: n.flagsField :: n.rest :=
  Text.splitWhitespace_intercalate n.fields_words

theorem newline_not_mem_line : '\n' ∉ n.line := by
  intro h
  rcases Text.mem_intercalate h with heq | ⟨w, hw, hc⟩
  · exact absurd heq (by decide)
  · exact absurd ((n.fields_words w hw).not_white _ hc) (by decide)

/-- A text is found in the field of flags if one of the flags has it in its name. -/
theorem contains_flagsField {sub : Str} {P : Flag → Prop} (hc : ',' ∉ sub) (hne : sub ≠ [])
    (hname : ∀ f : Flag, sub <:+: f.text ↔ P f) : contains n.flagsField sub = true ↔ ∃ f ∈ n.flags, P f := by
  rw [contains, decide_eq_true_eq, flagsField, Text.infix_intercalate hc hne]
  simp only [List.mem_map, exists_exists_and_eq_and, hname]

theorem contains_master : contains n.flagsField "master".toList = true ↔ .master ∈ n.flags := by
  rw [n.contains_flagsField (P := (· = .master)) (by decide) (by decide) (by intro f; cases f <;> decide +kernel)]
  simp

theorem contains_noaddr : contains n.flagsField "noaddr".toList = true ↔ .noaddr ∈ n.flags := by
  rw [n.contains_flagsField (P := (· = .noaddr)) (by decide) (by decide) (by intro f; cases f <;> decide +kernel)]
  simp

theorem contains_handshake : contains n.flagsField "handshake".toList = true ↔ .handshake ∈ n.flags := by
  rw [n.contains_flagsField (P := (· = .handshake)) (by decide) (by decide) (by intro f; cases f <;> decide +kernel)]
  simp

/-- Three flags have the text that stands for two. -/
theorem contains_fail :
    contains n.flagsField "fail".toList = true ↔ .fail ∈ n.flags ∨ .pfail ∈ n.flags ∨ .nofailover ∈ n.flags := by
  rw [n.contains_flagsField (P := fun f => f = .fail ∨ f = .pfail ∨ f = .nofailover) (by decide) (by decide)
    (by intro f; cases f <;> decide +kernel)]
  simp only [and_or_left, exists_or, exists_eq_right]

theorem masterOfLine_line :
    masterOfLine n.line = if n.Serving ∧ .nofailover ∉ n.flags then some n.hostPort else none := by
  rw [masterOfLine, n.splitWhitespace_line]
  simp only [n.contains_master, n.contains_fail, n.contains_noaddr, n.contains_handshake, n.takeWhile_address]
  by_cases h : n.Serving ∧ .nofailover ∉ n.flags
  · rw [if_pos h, if_neg]
    unfold Serving at h
    tauto
  · rw [if_neg h, if_pos]
    unfold Serving at h
    tauto

end ClusterNode

/-! ## The whole text -/

theorem masterOfLine_stripCr (l : Str) : masterOfLine (Text.stripCr l) = masterOfLine l := by
  rw [masterOfLine, masterOfLine, Text.splitWhitespace_stripCr]

/-- What the client finds: the serving masters, without those that have failover switched off. -/
theorem mastersFromClusterNodes_text (nodes : List ClusterNode) :
    mastersFromClusterNodes (clusterNodesText nodes) =
      (((nodes.filter fun n => decide n.Serving).filter fun n => decide (.nofailover ∉ n.flags)).map
        ClusterNode.hostPort).insertionSort (· ≤ ·) := by
  have hlines : lines (clusterNodesText nodes) = (nodes.map ClusterNode.line).map Text.stripCr := by
    apply Text.lines_flatMap
    intro l hl
    obtain ⟨n, -, rfl⟩ := List.mem_map.1 hl
    exact n.newline_not_mem_line
  rw [mastersFromClusterNodes, hlines]
  congr 1
  clear hlines
  induction nodes with
  | nil => rfl
  | cons n nodes ih =>
    simp only [List.map_cons, List.filterMap_cons, masterOfLine_stripCr, n.masterOfLine_line, List.filter_cons, ih]
    by_cases hserving : n.Serving
    · by_cases hfailover : .nofailover ∈ n.flags <;> simp [hserving, hfailover]
    · simp [hserving]

/-- The client finds the serving masters exactly if none of them has failover switched off. -/
theorem masters_eq_serving_iff (nodes : List ClusterNode) :
    mastersFromClusterNodes (clusterNodesText nodes) = servingMasters nodes ↔
      ∀ n ∈ nodes, n.Serving → .nofailover ∉ n.flags := by
  rw [mastersFromClusterNodes_text, servingMasters]
  constructor
  · intro h n hn hserving
    -- The two lists have the same length, so nothing of the longer one was left out.
    have hlength := congrArg List.length h
    simp only [List.length_insertionSort, List.length_map, List.length_filter_eq_length_iff] at hlength
    simpa using hlength n (List.mem_filter.2 ⟨hn, decide_eq_true hserving⟩)
  · intro h
    congr 2
    rw [List.filter_eq_self]
    intro n hn
    rw [List.mem_filter, decide_eq_true_eq] at hn
    exact decide_eq_true (h n hn.1 hn.2)

/-- A master that has failover switched off and is well otherwise. -/
def steadyMaster : ClusterNode where
  id := "07c37dfeb235213a872192d90877d0cd55635b91".toList
  ip := "127.0.0.1".toList
  port := 7001
  busPort := 17001
  hostname := none
  flags := [.myself, .master, .nofailover]
  rest := ["-".toList, "0".toList, "0".toList, "1".toList, "connected".toList, "0-16383".toList]
  id_word := by decide
  ip_clean c hc := by
    have hall := List.all_eq_true.1
      (show ("127.0.0.1".toList.all fun c => !isWhitespace c && c != '@') = true by decide) c hc
    simpa using hall
  hostname_clean := by simp
  flags_ne_nil := by decide
  rest_words := by decide

/-- Such a master is not found. -/
theorem steadyMaster_missed :
    clusterNodesText [steadyMaster] = ("07c37dfeb235213a872192d90877d0cd55635b91 127.0.0.1:7001@17001 " ++
        "myself,master,nofailover - 0 0 1 connected 0-16383\n").toList ∧
      mastersFromClusterNodes (clusterNodesText [steadyMaster]) = [] ∧
      servingMasters [steadyMaster] = ["127.0.0.1:7001".toList] := by
  decide +kernel

end EventStream.Client

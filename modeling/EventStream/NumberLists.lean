import EventStream.Client.Naming
import EventStream.Grammars
import EventStream.Reload

/-!
# The lists of numbers

The source databases are numbers, and the overrides give streams a cap each. Both parsers leave the reading of a number
to the standard library, which takes a sign, and the parser of the overrides takes every name for a stream. Here what
they accept is compared with the grammars, and an accepted override with the writes it can reach.

- `DbPiece` and `OverridePiece`: the grammars; `SignedDb` and `LoosePiece`: what the parsers take beside them
  (`parseSourceDbs_iff`, `parseMaxlenOverrides_iff`);
- `Gives`: what a piece gives a suffix; `effectiveMaxlen_last`, `effectiveMaxlen_unnamed`: the last piece of a suffix
  counts;
- `CapOf`: the retention a module gives to a write; `reached_iff`: the names that a write asks for;
- `numberLists_exact`: the whole comparison.
-/

namespace EventStream

open Text (Str Bytes utf8 trim digits unsigned splitOnce)

/-! ## Source databases -/

/-- A run of digits that is the index of a database. -/
def DbNumber (p : Str) : Prop := ∃ n, digits p = some n ∧ n < 2 ^ 32

/-- A piece of the grammar: a star or an index. -/
def DbPiece (p : Str) : Prop := p = ['*'] ∨ DbNumber p

/-- An index with a plus sign in front of it. -/
def SignedDb (p : Str) : Prop := ∃ rest, p = '+' :: rest ∧ DbNumber rest

theorem parseUnsigned_isSome (p : Str) :
    (∃ n, Text.parseUnsigned (2 ^ 32 - 1) p = some n) ↔ DbNumber p ∨ SignedDb p := by
  simp only [Text.parseUnsigned_eq_some, SignedDb, DbNumber]
  constructor
  · rintro ⟨n, hn, hd | ⟨rest, rfl, hd⟩⟩
    · exact Or.inl ⟨n, hd, by omega⟩
    · exact Or.inr ⟨rest, rfl, n, hd, by omega⟩
  · rintro (⟨n, hd, hn⟩ | ⟨rest, rfl, n, hd, hn⟩)
    · exact ⟨n, by omega, Or.inl hd⟩
    · exact ⟨n, by omega, Or.inr ⟨rest, rfl, hd⟩⟩

theorem digits_nil : digits [] = none := by decide

theorem sourceDbToken_accepts (f : ParsedDbFilter) (raw : Str) : (∃ g, sourceDbToken f raw = .ok g) ↔
    DbPiece (trim raw) ∨ SignedDb (trim raw) := by
  unfold sourceDbToken
  generalize trim raw = p
  have hnil : ¬ DbNumber [] := by
    rintro ⟨n, hd, -⟩
    rw [digits_nil] at hd
    cases hd
  split
  · simp [DbPiece, SignedDb, hnil]
  · simp [DbPiece]
  · rename_i hne hstar
    have hstar' : p ≠ ['*'] := hstar
    simp only [DbPiece, hstar', false_or, ← parseUnsigned_isSome]
    cases Text.parseUnsigned (2 ^ 32 - 1) p with
    | none => simp
    | some n => simp

/-- The parser takes a plus sign in front of an index. -/
theorem parseSourceDbs_iff (s : Str) : (∃ f, parseSourceDbs s = .ok f) ↔
    ∀ p ∈ pieces s, DbPiece p ∨ SignedDb p :=
  accepted_pieces (P := fun p => DbPiece p ∨ SignedDb p) sourceDbToken_accepts s {}

theorem DbPiece.head {p : Str} (h : DbPiece p) : p.head? ≠ some '+' := by
  rcases h with rfl | ⟨n, hd, -⟩
  · decide
  · exact (Text.head_of_digits hd).1

theorem parseSourceDbs_grammar_iff (s : Str) :
    ((∃ f, parseSourceDbs s = .ok f) ↔ ∀ p ∈ pieces s, DbPiece p) ↔
      ((∀ p ∈ pieces s, DbPiece p ∨ SignedDb p) → ∀ p ∈ pieces s, p.head? ≠ some '+') := by
  rw [parseSourceDbs_iff]
  constructor
  · intro h hall p hp
    exact (h.1 hall p hp).head
  · intro h
    constructor
    · intro hall p hp
      rcases hall p hp with hpiece | ⟨rest, rfl, -⟩
      · exact hpiece
      · exact absurd rfl (h hall _ hp)
    · exact fun hall p hp => Or.inl (hall p hp)

/-! ## Overrides -/

/-- The suffixes of the streams that have a cap of their own: the control stream, and a sanitized event name. -/
def CappedSuffix (name : Str) : Prop := name = "#control".toList ∨ (name ≠ [] ∧ sanitize name = name)

/-- A piece of the grammar: a suffix and a run of digits, with white space around the sign between them. -/
def OverridePiece (p : Str) : Prop :=
  ∃ name cap n, splitOnce '=' p = some (name, cap) ∧ CappedSuffix (trim name) ∧
    digits (trim cap) = some n ∧ n ≤ 2 ^ 63 - 1

/-- What a piece gives a suffix. A sign says nothing here: no cap below zero is accepted. -/
def Gives (p suffix : Str) (cap : Nat) : Prop :=
  ∃ name text, splitOnce '=' p = some (name, text) ∧ trim name = suffix ∧ digits (unsigned (trim text)) = some cap

/-- A piece with any name and a cap that may have a sign: a minus sign stands before a zero only. -/
def LoosePiece (p : Str) : Prop :=
  ∃ name cap n, splitOnce '=' p = some (name, cap) ∧ trim name ≠ [] ∧ digits (unsigned (trim cap)) = some n ∧
    if (trim cap).head? = some '-' then n = 0 else (n : Int) ≤ 2 ^ 63 - 1

/-- A piece that the parser accepts, with what it reads from it. -/
def Reads (p name : Str) (cap : Nat) : Prop :=
  ∃ left right, splitOnce '=' p = some (left, right) ∧ trim left = name ∧ name ≠ [] ∧
    Text.parseSigned (-2 ^ 63) (2 ^ 63 - 1) (trim right) = some (cap : Int)

theorem loosePiece_iff (p : Str) : LoosePiece p ↔ ∃ name cap, Reads p name cap := by
  constructor
  · rintro ⟨name, cap, n, hsplit, hne, hd, hn⟩
    exact ⟨trim name, n, name, cap, hsplit, rfl, hne, (Text.parseSigned_eq_natCast (by decide)).2 ⟨hd, hn⟩⟩
  · rintro ⟨name, n, left, right, hsplit, rfl, hne, hv⟩
    obtain ⟨hd, hn⟩ := (Text.parseSigned_eq_natCast (by decide)).1 hv
    exact ⟨left, right, n, hsplit, hne, hd, hn⟩

theorem overrideToken_ok {m m' : List (Str × Int)} {raw : Str} : overrideToken m raw = .ok m' ↔
    ∃ name cap, Reads (trim raw) name cap ∧ m' = (name, (cap : Int)) :: m.filter fun p => p.1 ≠ name := by
  unfold overrideToken Reads
  generalize trim raw = p
  simp only
  constructor
  · intro h
    split at h
    · cases h
    · split at h
      · cases h
      · rename_i left right hsplit
        split at h
        · cases h
        · rename_i hname
          split at h
          · cases h
          · rename_i v hv
            split at h
            · cases h
            · rename_i hpos
              cases h
              obtain ⟨cap, rfl⟩ : ∃ cap : Nat, v = cap := ⟨v.toNat, by omega⟩
              exact ⟨_, cap, ⟨left, right, hsplit, rfl, hname, hv⟩, rfl⟩
  · rintro ⟨name, cap, ⟨left, right, hsplit, rfl, hname, hv⟩, rfl⟩
    have hne : p ≠ [] := by
      rintro rfl
      cases hsplit
    simp only [hne, if_false, hsplit, hname, hv, show ¬ (cap : Int) < 0 by omega]

theorem parseMaxlenOverrides_iff (s : Str) : (∃ m, parseMaxlenOverrides s = .ok m) ↔
    trim s = [] ∨ ∀ p ∈ pieces s, LoosePiece p := by
  simp only [loosePiece_iff]
  have hstep : ∀ (m : List (Str × Int)) (raw : Str), (∃ m', overrideToken m raw = .ok m') ↔
      ∃ name cap, Reads (trim raw) name cap := by
    intro m raw
    simp only [overrideToken_ok]
    constructor
    · rintro ⟨m', name, cap, hr, -⟩
      exact ⟨name, cap, hr⟩
    · rintro ⟨name, cap, hr⟩
      exact ⟨_, name, cap, hr, rfl⟩
  rw [parseMaxlenOverrides]
  split
  · rename_i hblank
    exact iff_of_true ⟨_, rfl⟩ (Or.inl hblank)
  · rename_i hblank
    rw [or_iff_right hblank]
    exact accepted_pieces (P := fun p => ∃ name cap, Reads p name cap) hstep s []

theorem CappedSuffix.ne_nil {name : Str} (h : CappedSuffix name) : name ≠ [] := by
  rcases h with rfl | ⟨hne, -⟩
  · decide
  · exact hne

theorem OverridePiece.loose {p : Str} (h : OverridePiece p) : LoosePiece p := by
  obtain ⟨name, cap, n, hsplit, hname, hd, hn⟩ := h
  obtain ⟨hplus, hminus⟩ := Text.head_of_digits hd
  refine ⟨name, cap, n, hsplit, hname.ne_nil, ?_, ?_⟩
  · rw [Text.unsigned_of_head hplus hminus, hd]
  · rw [if_neg hminus]
    omega

/-- What the grammar asks of a piece beyond what the parser asks: the name is a suffix, and the cap has no sign. -/
def PlainEntry (p : Str) : Prop :=
  ∀ name cap, splitOnce '=' p = some (name, cap) →
    CappedSuffix (trim name) ∧ (trim cap).head? ≠ some '+' ∧ (trim cap).head? ≠ some '-'

theorem overridePiece_iff (p : Str) : OverridePiece p ↔ LoosePiece p ∧ PlainEntry p := by
  constructor
  · intro h
    refine ⟨h.loose, ?_⟩
    intro name cap hsplit
    obtain ⟨name', cap', n, hsplit', hname, hd, -⟩ := h
    rw [hsplit'] at hsplit
    cases hsplit
    exact ⟨hname, Text.head_of_digits hd⟩
  · rintro ⟨⟨left, right, n, hsplit, -, hd, hbound⟩, hplain⟩
    obtain ⟨hname, hplus, hminus⟩ := hplain left right hsplit
    rw [Text.unsigned_of_head hplus hminus] at hd
    rw [if_neg hminus] at hbound
    exact ⟨left, right, n, hsplit, hname, hd, by omega⟩

theorem parseMaxlenOverrides_grammar_iff (s : Str) :
    ((∃ m, parseMaxlenOverrides s = .ok m) ↔ (trim s = [] ∨ ∀ p ∈ pieces s, OverridePiece p)) ↔
      (trim s ≠ [] → (∀ p ∈ pieces s, LoosePiece p) → ∀ p ∈ pieces s, PlainEntry p) := by
  rw [parseMaxlenOverrides_iff]
  by_cases hblank : trim s = []
  · exact iff_of_true (iff_of_true (Or.inl hblank) (Or.inl hblank)) fun hne => absurd hblank hne
  · simp only [hblank, false_or, ne_eq, not_false_eq_true, forall_const, overridePiece_iff]
    constructor
    · intro h hall p hp
      exact (h.1 hall p hp).2
    · intro h
      exact ⟨fun hall p hp => ⟨hall p hp, h hall p hp⟩, fun hall p hp => (hall p hp).1⟩

/-! ## The cap in force -/

theorem lookup_filter_ne (m : List (Str × Int)) {name suffix : Str} (h : suffix ≠ name) :
    (m.filter fun p => p.1 ≠ name).lookup suffix = m.lookup suffix := by
  induction m with
  | nil => rfl
  | cons p m ih =>
    by_cases hp : p.1 = name
    · have hne : (suffix == p.1) = false := by
        rw [hp]
        exact beq_false_of_ne h
      rw [List.filter_cons_of_neg (by simpa using hp), ih, List.lookup_cons, hne]
    · rw [List.filter_cons_of_pos (by simpa using hp), List.lookup_cons, List.lookup_cons, ih]

/-- An accepted piece gives a cap to the suffix it names, and leaves the others. -/
theorem overrideToken_lookup {m m' : List (Str × Int)} {raw : Str} (h : overrideToken m raw = .ok m') :
    ∃ name cap, Gives (trim raw) name cap ∧ m'.lookup name = some (cap : Int) ∧
      ∀ suffix, suffix ≠ name → m'.lookup suffix = m.lookup suffix := by
  obtain ⟨name, cap, ⟨left, right, hsplit, hname, -, hv⟩, rfl⟩ := overrideToken_ok.1 h
  refine ⟨name, cap, ⟨left, right, hsplit, hname, ((Text.parseSigned_eq_natCast (by decide)).1 hv).1⟩, ?_, ?_⟩
  · rw [List.lookup_cons, beq_self_eq_true]
  · intro suffix hne
    rw [List.lookup_cons, beq_false_of_ne hne, lookup_filter_ne m hne]

theorem Gives.unique {p suffix suffix' : Str} {cap cap' : Nat} (h : Gives p suffix cap) (h' : Gives p suffix' cap') :
    suffix = suffix' ∧ cap = cap' := by
  obtain ⟨name, text, hsplit, rfl, hd⟩ := h
  obtain ⟨name', text', hsplit', rfl, hd'⟩ := h'
  rw [hsplit] at hsplit'
  cases hsplit'
  rw [hd] at hd'
  cases hd'
  exact ⟨rfl, rfl⟩

section Lookup

variable {s : Str} {m : List (Str × Int)} {suffix : Str}

/-- Pieces that do not name a suffix leave its cap alone. -/
theorem foldlM_lookup_unnamed {raws : List Str} {m₀ : List (Str × Int)}
    (hno : ∀ p ∈ raws.map trim, ∀ cap, ¬ Gives p suffix cap) (h : raws.foldlM overrideToken m₀ = .ok m) :
    m.lookup suffix = m₀.lookup suffix := by
  refine Tokens.kept (fun m : List (Str × Int) => m.lookup suffix) ?_ h
  intro raw hraw a b hb
  obtain ⟨name, cap, hg, -, hother⟩ := overrideToken_lookup hb
  apply hother
  rintro rfl
  exact hno _ (List.mem_map_of_mem hraw) cap hg

theorem foldlM_lookup_last {front rest : List Str} {p : Str} {cap : Nat} (hs : pieces s = front ++ p :: rest)
    (hp : Gives p suffix cap) (hrest : ∀ q ∈ rest, ∀ c, ¬ Gives q suffix c)
    (h : (s.splitOn ',').foldlM overrideToken [] = .ok m) : m.lookup suffix = some (cap : Int) := by
  obtain ⟨raws, raws', hraws, -, hlast⟩ := List.map_eq_append_iff.1 hs
  obtain ⟨raw, after, rfl, rfl, rfl⟩ := List.map_eq_cons_iff.1 hlast
  rw [hraws] at h
  obtain ⟨m₁, -, hcons⟩ := Tokens.foldlM_append_ok.1 h
  obtain ⟨m₂, hraw, hafter⟩ := Tokens.foldlM_cons_ok.1 hcons
  rw [foldlM_lookup_unnamed hrest hafter]
  obtain ⟨name, cap', hg, hlookup, -⟩ := overrideToken_lookup hraw
  obtain ⟨rfl, rfl⟩ := hp.unique hg
  exact hlookup

/-- The last piece that names a suffix gives it its cap. -/
theorem effectiveMaxlen_last (h : parseMaxlenOverrides s = .ok m) {front rest : List Str} {p : Str} {cap : Nat}
    (hs : pieces s = front ++ p :: rest) (hp : Gives p suffix cap) (hrest : ∀ q ∈ rest, ∀ c, ¬ Gives q suffix c)
    (globalMaxlen : Int) : effectiveMaxlen m suffix globalMaxlen = cap := by
  have hmem : p ∈ pieces s := by
    rw [hs]
    exact List.mem_append_right front List.mem_cons_self
  by_cases hblank : trim s = []
  · rw [pieces_of_blank hblank, List.mem_singleton] at hmem
    obtain ⟨name, text, hsplit, -⟩ := hp
    rw [hmem] at hsplit
    cases hsplit
  · rw [parseMaxlenOverrides, if_neg hblank] at h
    rw [effectiveMaxlen, foldlM_lookup_last hs hp hrest h]
    rfl

/-- A suffix that no piece names has the global cap. -/
theorem effectiveMaxlen_unnamed (h : parseMaxlenOverrides s = .ok m) (hno : ∀ p ∈ pieces s, ∀ cap, ¬ Gives p suffix cap)
    (globalMaxlen : Int) : effectiveMaxlen m suffix globalMaxlen = globalMaxlen := by
  have hnone : m.lookup suffix = none := by
    by_cases hblank : trim s = []
    · rw [parseMaxlenOverrides, if_pos hblank] at h
      cases h
      rfl
    · rw [parseMaxlenOverrides, if_neg hblank] at h
      exact foldlM_lookup_unnamed hno h
  rw [effectiveMaxlen, hnone]
  rfl

end Lookup

/-! ## The writes that ask for a cap -/

/-- The retention that a write on a stream of a suffix gets: on the control stream, or on the stream of an event that is
selected. -/
def CapOf (st : State) (suffix : Str) (retention : Retention) : Prop :=
  (suffix = "#control".toList ∧ controlRetention st = retention) ∨
    ∃ cls event key db st' e, selectEvent st cls event key db = (st', some e) ∧ e.suffix = suffix ∧
      e.dataRetention = retention

theorem selectEvent_suffix {st st' : State} {cls : NotifyEvent} {event : Str} {key : Bytes} {db : Int32}
    {e : PendingEvent} (h : selectEvent st cls event key db = (st', some e)) :
    e.suffix = sanitize event ∧ sanitize event ≠ [] := by
  unfold selectEvent at h
  split_ifs at h
  all_goals cases h
  exact ⟨rfl, ‹_›⟩

theorem CapOf.cappedSuffix {st : State} {suffix : Str} {retention : Retention} (h : CapOf st suffix retention) :
    CappedSuffix suffix := by
  rcases h with ⟨rfl, -⟩ | ⟨cls, event, key, db, st', e, hsel, rfl, -⟩
  · exact Or.inl rfl
  · obtain ⟨hsuffix, hne⟩ := selectEvent_suffix hsel
    rw [hsuffix]
    exact Or.inr ⟨hne, Client.sanitize_idem event⟩

/-- A module that takes every event and trims by count. -/
structure TakesAll (i : Image) : Prop where
  reach : Image.Reach (fun _ _ => True) i
  loaded : i.subscription ≠ none
  command : i.node.atCommand
  enabled : i.settings.enabled = true
  capturing : i.node.st.capturing = true
  events : i.settings.events.parsed.star = true
  keys : i.settings.keyFilter.parsed.star = true
  dbs : i.settings.sourceDbs.parsed.star = true
  pfx : i.settings.streamPrefix ≠ []
  count : i.settings.retentionMs = 0

theorem exists_takesAll : ∃ i, TakesAll i := by
  have hrun : (Machine.run Image.step (fun _ _ => True) (Image.boot .calm .empty true false)
      [.load (Image.smoothLoad { events := "*".toList })]).map (fun i => [decide (i.subscription ≠ none),
        decide (i.node.atCommand), i.settings.enabled, i.node.st.capturing, i.settings.events.parsed.star,
        i.settings.keyFilter.parsed.star, i.settings.sourceDbs.parsed.star, decide (i.settings.streamPrefix ≠ []),
        decide (i.settings.retentionMs = 0)]) = some [true, true, true, true, true, true, true, true, true] := by
    decide +kernel
  obtain ⟨i, hi, hvalues⟩ := Option.map_eq_some_iff.1 hrun
  simp only [List.cons.injEq, decide_eq_true_eq, and_true] at hvalues
  obtain ⟨h1, h2, h3, h4, h5, h6, h7, h8, h9⟩ := hvalues
  exact ⟨i, Machine.reach_of_run (.start ⟨.calm, .empty, true, false, rfl⟩) hi, h1, h2, h3, h4, h5, h6, h7, h8, h9⟩

/-- The overrides are set, and nothing else changes. -/
theorem TakesAll.set {i : Image} (hi : TakesAll i) {s : Str} {m : List (Str × Int)}
    (h : parseMaxlenOverrides s = .ok m) :
    TakesAll (i.set (.maxlenOverrides s)).2 ∧ (i.set (.maxlenOverrides s)).2.settings.maxlenOverrides = ⟨s, m⟩ := by
  have hset : i.settings.set i.subscribedExtra (.maxlenOverrides s) =
      .ok { i.settings with maxlenOverrides := ⟨s, m⟩ } := by
    simp only [Settings.set, parseText, h]
    rfl
  obtain ⟨mask, hmask⟩ := Option.ne_none_iff_exists'.1 hi.loaded
  have hstep : Image.step i (.set (.maxlenOverrides s)) = some (i.set (.maxlenOverrides s)).2 := by
    simp only [Image.step, hmask]
    rw [if_pos ⟨hi.command, rfl⟩]
  have hreach := Machine.Reach.next hi.reach trivial hstep
  simp only [Image.set, hset] at hreach ⊢
  exact ⟨⟨hreach, hi.loaded, hi.command, hi.enabled, hi.capturing, hi.events, hi.keys, hi.dbs, hi.pfx, hi.count⟩,
    trivial⟩

theorem TakesAll.config {i : Image} (hi : TakesAll i) :
    i.node.st.config = i.settings.config i.node.st.config.perNode :=
  (hi.reach.sound.live hi.loaded).synced

theorem TakesAll.selects {i : Image} (hi : TakesAll i) {event : Str} (hne : sanitize event ≠ []) :
    (selectEvent i.node.st ∅ event [] 0).2 = some (snapshot i.node.st ∅ event [] 0) := by
  have hpfx : (utf8 i.settings.streamPrefix).isPrefixOf [] = false := by
    cases hb : utf8 i.settings.streamPrefix with
    | nil => exact absurd (Text.utf8_injective hb) hi.pfx
    | cons b rest => rfl
  have hcapturing : i.node.st.capturing = true := hi.capturing
  rw [selectEvent, hi.config]
  simp [Settings.config, hi.enabled, hpfx, hcapturing, ParsedFilter.matches, hi.events,
    ParsedKeyFilter.matches, hi.keys, ParsedDbFilter.matches, hi.dbs, hne]

/-- An override is in force for some write of a loaded module that runs with it. -/
def Reached (s : Str) (m : List (Str × Int)) (name : Str) (cap : Int) : Prop :=
  ∃ i, Image.Reach (fun _ _ => True) i ∧ i.subscription ≠ none ∧ i.settings.maxlenOverrides = ⟨s, m⟩ ∧
    CapOf i.node.st name ⟨cap, 0⟩

/-- The overrides that a write asks for are those of the control stream and of sanitized names. -/
theorem reached_iff {s : Str} {m : List (Str × Int)} (h : parseMaxlenOverrides s = .ok m) {name : Str} {cap : Int}
    (hcap : m.lookup name = some cap) : Reached s m name cap ↔ CappedSuffix name := by
  constructor
  · rintro ⟨i, -, -, -, hi⟩
    exact hi.cappedSuffix
  · intro hname
    obtain ⟨i₀, hi₀⟩ := exists_takesAll
    obtain ⟨hi, hoverrides⟩ := hi₀.set h
    generalize (i₀.set (.maxlenOverrides s)).2 = i at hi hoverrides
    have heff : ∀ globalMaxlen, effectiveMaxlen i.settings.maxlenOverrides.parsed name globalMaxlen = cap := by
      intro globalMaxlen
      rw [hoverrides, effectiveMaxlen, hcap]
      rfl
    refine ⟨i, hi.reach, hi.loaded, hoverrides, ?_⟩
    rcases hname with rfl | ⟨hne, hfixed⟩
    · refine Or.inl ⟨rfl, ?_⟩
      rw [controlRetention, hi.config]
      simp only [Settings.config, heff, hi.count]
    · refine Or.inr ⟨∅, name, [], 0, _, _, Prod.ext rfl (hi.selects (by rw [hfixed]; exact hne)), hfixed, ?_⟩
      rw [snapshot, hi.config]
      simp only [Settings.config, hfixed, heff, hi.count]

/-! ## The lists and their grammars -/

/-- The last piece that names a suffix gives it a cap. -/
def LastGives (s suffix : Str) (cap : Nat) : Prop :=
  ∃ front p rest, pieces s = front ++ p :: rest ∧ Gives p suffix cap ∧ ∀ q ∈ rest, ∀ c, ¬ Gives q suffix c

/-- **The lists of numbers**: a text of databases is accepted if each piece is in the grammar or an index with a plus
sign, so acceptance is the grammar unless such texts have a sign in them; a text of overrides is accepted if each piece
has a name and a cap, so acceptance is the grammar unless such texts have a sign or a name that no stream has. The cap
of a suffix is that of the last piece that names it, else the global one. An accepted override is in force for some
write exactly if its name is the suffix of a stream. -/
theorem numberLists_exact (s : Str) :
    ((∃ f, parseSourceDbs s = .ok f) ↔ ∀ p ∈ pieces s, DbPiece p ∨ SignedDb p) ∧
    (((∃ f, parseSourceDbs s = .ok f) ↔ ∀ p ∈ pieces s, DbPiece p) ↔
      ((∀ p ∈ pieces s, DbPiece p ∨ SignedDb p) → ∀ p ∈ pieces s, p.head? ≠ some '+')) ∧
    ((∃ m, parseMaxlenOverrides s = .ok m) ↔ (trim s = [] ∨ ∀ p ∈ pieces s, LoosePiece p)) ∧
    (((∃ m, parseMaxlenOverrides s = .ok m) ↔ (trim s = [] ∨ ∀ p ∈ pieces s, OverridePiece p)) ↔
      (trim s ≠ [] → (∀ p ∈ pieces s, LoosePiece p) → ∀ p ∈ pieces s, PlainEntry p)) ∧
    ∀ m, parseMaxlenOverrides s = .ok m →
      (∀ suffix globalMaxlen,
        (∀ cap, LastGives s suffix cap → effectiveMaxlen m suffix globalMaxlen = cap) ∧
        ((∀ p ∈ pieces s, ∀ cap, ¬ Gives p suffix cap) → effectiveMaxlen m suffix globalMaxlen = globalMaxlen)) ∧
      ∀ name cap, m.lookup name = some cap → (Reached s m name cap ↔ CappedSuffix name) := by
  refine ⟨parseSourceDbs_iff s, parseSourceDbs_grammar_iff s, parseMaxlenOverrides_iff s,
    parseMaxlenOverrides_grammar_iff s, fun m h => ⟨fun suffix globalMaxlen => ?_, ?_⟩⟩
  · refine ⟨?_, fun hno => effectiveMaxlen_unnamed h hno globalMaxlen⟩
    rintro cap ⟨front, p, rest, hs, hp, hrest⟩
    exact effectiveMaxlen_last h hs hp hrest globalMaxlen
  · intro name cap hcap
    exact reached_iff h hcap

/-- Two caps of one stream: the second is in force, and a write asks for it. -/
theorem numberLists_exact_twice :
    parseMaxlenOverrides "expired=5, expired = 7".toList = .ok [("expired".toList, 7)] ∧
      effectiveMaxlen [("expired".toList, 7)] "expired".toList 10000 = 7 ∧
      Reached "expired=5, expired = 7".toList [("expired".toList, 7)] "expired".toList 7 := by
  have hok : parseMaxlenOverrides "expired=5, expired = 7".toList = .ok [("expired".toList, 7)] := by decide +kernel
  have hpieces : pieces "expired=5, expired = 7".toList = ["expired=5".toList] ++ ["expired = 7".toList] := by
    decide +kernel
  obtain ⟨-, -, -, -, h⟩ := numberLists_exact "expired=5, expired = 7".toList
  obtain ⟨hcap, hreached⟩ := h _ hok
  refine ⟨hok, (hcap _ _).1 7 ⟨_, _, [], hpieces, ⟨"expired ".toList, " 7".toList, ?_, ?_, ?_⟩, List.forall_mem_nil _⟩,
    ?_⟩
  · decide +kernel
  · decide +kernel
  · decide +kernel
  · refine (hreached _ _ ?_).2 (Or.inr ⟨?_, ?_⟩)
    · decide +kernel
    · decide
    · decide +kernel

/-- A database with a sign, and an override of a stream that has no cap of its own with one, are accepted; neither is in
the grammar, and no write asks for the override. -/
theorem numberLists_signed :
    parseSourceDbs "+5".toList = .ok ⟨false, {5}⟩ ∧ ¬ (∀ p ∈ pieces "+5".toList, DbPiece p) ∧
    parseMaxlenOverrides "#firehose=+7".toList = .ok [("#firehose".toList, 7)] ∧
    ¬ (trim "#firehose=+7".toList = [] ∨ ∀ p ∈ pieces "#firehose=+7".toList, OverridePiece p) ∧
    ¬ Reached "#firehose=+7".toList [("#firehose".toList, 7)] "#firehose".toList 7 := by
  have hdb : pieces "+5".toList = ["+5".toList] := by decide +kernel
  have hpieces : pieces "#firehose=+7".toList = ["#firehose=+7".toList] := by decide +kernel
  have hok : parseMaxlenOverrides "#firehose=+7".toList = .ok [("#firehose".toList, 7)] := by decide +kernel
  have hname : ¬ CappedSuffix "#firehose".toList := by
    rintro (he | ⟨-, he⟩)
    · revert he
      decide
    · revert he
      decide +kernel
  refine ⟨by decide +kernel, ?_, hok, ?_, ?_⟩
  · intro h
    rw [hdb, List.forall_mem_singleton] at h
    exact h.head rfl
  · rintro (hblank | hall)
    · revert hblank
      decide +kernel
    · rw [hpieces, List.forall_mem_singleton] at hall
      obtain ⟨-, hplain⟩ := (overridePiece_iff _).1 hall
      exact (hplain "#firehose".toList "+7".toList (by decide +kernel)).2.1 (by decide +kernel)
  · intro hreached
    exact hname ((reached_iff hok (by decide +kernel)).1 hreached)

end EventStream

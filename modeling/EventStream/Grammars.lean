import EventStream.Globs
import EventStream.Lib.Tokens

/-!
# The grammars of the text settings

Settings that are lists are texts with commas. A parser cuts the text at the commas, trims the pieces, and reads them
one after the other into what the module looks up. Here the parsers of the two filters are compared with their grammars,
and what they leave with what the pieces say.

- `pieces`: a text, cut and trimmed, with `accepted_pieces` and `collected_pieces` for a loop over it;
- `FilterPiece` and `Selects`: the grammar of the events filter and what its pieces select; `parseFilter_exact`;
- `Means`: what a pattern of the key filter means; `parseKeyFilter_exact`.
-/

namespace EventStream

open Text (Str Bytes utf8 trim isWhitespace)

/-- The pieces of a text between its commas, without the white space around them. -/
def pieces (s : Str) : List Str := (s.splitOn ',').map trim

section Pieces

variable {σ : Type} {step : σ → Str → Except Str σ}

/-- A loop over the pieces accepts a text if each of its pieces is accepted. -/
theorem accepted_pieces {P : Str → Prop} (hstep : ∀ a raw, (∃ b, step a raw = .ok b) ↔ P (trim raw)) (s : Str) (a : σ) :
    (∃ b, (s.splitOn ',').foldlM step a = .ok b) ↔ ∀ p ∈ pieces s, P p := by
  rw [Tokens.accepted_iff hstep, pieces, List.forall_mem_map]

/-- A loop over the pieces leaves what the pieces say. -/
theorem collected_pieces (H : σ → Prop) (P : Str → Prop)
    (hstep : ∀ a b raw, step a raw = .ok b → (H b ↔ H a ∨ P (trim raw))) {s : Str} {a b : σ}
    (h : (s.splitOn ',').foldlM step a = .ok b) : H b ↔ H a ∨ ∃ p ∈ pieces s, P p := by
  rw [Tokens.collects hstep h, pieces]
  simp only [List.mem_map, exists_exists_and_eq_and]

end Pieces

theorem trim_of_black {p : Str} (h : ∀ c ∈ p, isWhitespace c = false) : trim p = p := by
  have hfront : p.dropWhile isWhitespace = p := by
    rw [List.dropWhile_eq_self_iff]
    intro hp hw
    rw [h _ (List.getElem_mem hp)] at hw
    cases hw
  rw [trim, hfront, List.rdropWhile_eq_self_iff]
  intro hp hw
  rw [h _ (List.getLast_mem hp)] at hw
  cases hw

/-- A text without commas and white space is one piece. -/
theorem pieces_of_black {p : Str} (hc : ',' ∉ p) (h : ∀ c ∈ p, isWhitespace c = false) : pieces p = [p] := by
  rw [pieces, List.splitOn_eq_singleton hc, List.map_singleton, trim_of_black h]

/-- A blank text is one empty piece. -/
theorem pieces_of_blank {s : Str} (h : trim s = []) : pieces s = [[]] := by
  have hwhite : ∀ c ∈ s, isWhitespace c = true := by
    have hrest := List.rdropWhile_eq_nil_iff.1 h
    cases hd : s.dropWhile isWhitespace with
    | nil => exact List.dropWhile_eq_nil_iff.1 hd
    | cons c rest =>
      have hc : isWhitespace c = true := hrest c (by rw [hd]; exact List.mem_cons_self)
      have hno := List.head_dropWhile_not isWhitespace (l := s) (by rw [hd]; exact List.cons_ne_nil c rest)
      simp only [hd, List.head_cons, hc] at hno
      cases hno
  have hcomma : ',' ∉ s := by
    intro hc
    have := hwhite ',' hc
    revert this
    decide
  rw [pieces, List.splitOn_eq_singleton hcomma, List.map_singleton, h]

/-! ## The events filter -/

/-- A piece of the grammar: a star, a class, or a name. -/
def FilterPiece (p : Str) : Prop :=
  p = ['*'] ∨ (∃ cls, p = '@' :: cls ∧ cls ∈ named.map Prod.snd) ∨
    (p ≠ [] ∧ p.head? ≠ some '@' ∧ ∀ c ∈ p, isWhitespace c = false)

/-- What a piece selects among the events: a name is compared as it stands, and a class by its bit. -/
def Selects (p : Str) (cls : NotifyEvent) (event : Str) : Prop :=
  p = ['*'] ∨ (∃ bit name, p = '@' :: name ∧ (bit, name) ∈ named ∧ bit ∈ cls) ∨ (p.head? ≠ some '@' ∧ p = event)

/-- No two classes have one name. -/
theorem classBit_eq_some {cls : Str} {bit : EventClass} : classBit cls = some bit ↔ (bit, cls) ∈ named := by
  constructor
  · intro h
    obtain ⟨⟨bit', name⟩, hfind, rfl⟩ := Option.map_eq_some_iff.1 h
    have hname := List.find?_some hfind
    simp only [decide_eq_true_eq] at hname
    subst hname
    exact List.mem_of_find?_eq_some hfind
  · intro h
    simp only [named, List.mem_cons, Prod.mk.injEq, List.not_mem_nil, or_false] at h
    rcases h with ⟨rfl, rfl⟩ | ⟨rfl, rfl⟩ | ⟨rfl, rfl⟩ | ⟨rfl, rfl⟩ | ⟨rfl, rfl⟩ | ⟨rfl, rfl⟩ |
      ⟨rfl, rfl⟩ | ⟨rfl, rfl⟩ | ⟨rfl, rfl⟩ | ⟨rfl, rfl⟩ | ⟨rfl, rfl⟩ | ⟨rfl, rfl⟩ <;> rfl

/-- The ways in which a piece is accepted, with what it adds to the filter. -/
inductive FilterRead (f : ParsedFilter) : Str → ParsedFilter → Prop
  | star : FilterRead f ['*'] { f with star := true }
  | class {bit : EventClass} {name : Str} (hname : (bit, name) ∈ named) :
      FilterRead f ('@' :: name) { f with classes := f.classes ∪ {bit} }
  | name {p : Str} (hne : p ≠ []) (hstar : p ≠ ['*']) (hat : p.head? ≠ some '@')
      (hblack : ∀ c ∈ p, isWhitespace c = false) : FilterRead f p { f with names := insert p f.names }

theorem filterToken_read {f g : ParsedFilter} {raw : Str} : filterToken f raw = .ok g ↔ FilterRead f (trim raw) g := by
  unfold filterToken
  generalize trim raw = p
  constructor
  · intro h
    split at h
    · cases h
    · cases h
      exact .star
    · split at h
      · rename_i cls bit hbit
        cases h
        exact .class (classBit_eq_some.1 hbit)
      · split at h <;> cases h
    · rename_i hne hstar hat
      split at h
      · cases h
      · rename_i hblack
        cases h
        refine .name hne hstar ?_ ?_
        · cases p with
          | nil => simp
          | cons c rest =>
            rw [List.head?_cons, ne_eq, Option.some.injEq]
            rintro rfl
            exact hat rest rfl
        · simpa using hblack
  · rintro (_ | hname | ⟨hne, hstar, hat, hblack⟩)
    · rfl
    · simp only [classBit_eq_some.2 hname]
    · split
      · exact absurd rfl hne
      · exact absurd rfl hstar
      · exact absurd rfl hat
      · have hany : p.any isWhitespace = false :=
          List.any_eq_false.2 fun c hc => by rw [hblack c hc]; exact Bool.false_ne_true
        rw [hany]
        rfl

theorem filterToken_accepts (f : ParsedFilter) (raw : Str) :
    (∃ g, filterToken f raw = .ok g) ↔ FilterPiece (trim raw) := by
  simp only [filterToken_read]
  generalize trim raw = p
  constructor
  · rintro ⟨g, _ | hname | ⟨hne, -, hat, hblack⟩⟩
    · exact Or.inl rfl
    · exact Or.inr (Or.inl ⟨_, rfl, List.mem_map_of_mem hname⟩)
    · exact Or.inr (Or.inr ⟨hne, hat, hblack⟩)
  · rintro (rfl | ⟨cls, rfl, hcls⟩ | ⟨hne, hat, hblack⟩)
    · exact ⟨_, .star⟩
    · obtain ⟨⟨bit, name⟩, hmem, rfl⟩ := List.mem_map.1 hcls
      exact ⟨_, .class hmem⟩
    · by_cases hstar : p = ['*']
      · rw [hstar]
        exact ⟨_, .star⟩
      · exact ⟨_, .name hne hstar hat hblack⟩

/-- What one token adds to the star, to the classes and to the names. -/
theorem filterToken_adds {f g : ParsedFilter} {raw : Str} (h : filterToken f raw = .ok g) :
    (g.star = true ↔ f.star = true ∨ trim raw = ['*']) ∧
      (∀ bit, bit ∈ g.classes ↔ bit ∈ f.classes ∨ ∃ name, trim raw = '@' :: name ∧ (bit, name) ∈ named) ∧
      ∀ name, name ∈ g.names ↔ name ∈ f.names ∨ (trim raw ≠ ['*'] ∧ (trim raw).head? ≠ some '@' ∧ trim raw = name) := by
  rw [filterToken_read] at h
  generalize trim raw = p at h
  cases h with
  | star => simp
  | @«class» bit' name hname =>
    refine ⟨by simp, fun bit => ?_, by simp⟩
    -- the name of a class has one bit
    have hbit : (bit, name) ∈ named ↔ bit = bit' := by
      rw [← classBit_eq_some, classBit_eq_some.2 hname, Option.some.injEq, eq_comm]
    simp only [Finset.mem_union, Finset.mem_singleton, List.cons.injEq, true_and, exists_eq_left', hbit]
  | name hne hstar hat hblack =>
    refine ⟨by simp [hstar], fun bit => ?_, by simp [hstar, hat, or_comm, eq_comm]⟩
    have hno : ¬ ∃ name, p = '@' :: name ∧ (bit, name) ∈ named := by
      rintro ⟨name, rfl, -⟩
      exact hat rfl
    simp [hno]

theorem parseFilter_iff (s : Str) : (∃ f, parseFilter s = .ok f) ↔ ∀ p ∈ pieces s, FilterPiece p := by
  exact accepted_pieces filterToken_accepts s {}

section ParsedFilter

variable {s : Str} {f : ParsedFilter}

theorem parseFilter_star (h : parseFilter s = .ok f) : f.star = true ↔ ['*'] ∈ pieces s := by
  rw [collected_pieces (fun f => f.star = true) (fun p => p = ['*']) (fun _ _ _ hg => (filterToken_adds hg).1) h]
  simp

theorem parseFilter_classes (h : parseFilter s = .ok f) (bit : EventClass) :
    bit ∈ f.classes ↔ ∃ p ∈ pieces s, ∃ name, p = '@' :: name ∧ (bit, name) ∈ named := by
  rw [collected_pieces (fun f => bit ∈ f.classes) (fun p => ∃ name, p = '@' :: name ∧ (bit, name) ∈ named)
    (fun _ _ _ hg => (filterToken_adds hg).2.1 bit) h]
  simp

theorem parseFilter_names (h : parseFilter s = .ok f) (name : Str) :
    name ∈ f.names ↔ ∃ p ∈ pieces s, p ≠ ['*'] ∧ p.head? ≠ some '@' ∧ p = name := by
  rw [collected_pieces (fun f => name ∈ f.names) (fun p => p ≠ ['*'] ∧ p.head? ≠ some '@' ∧ p = name)
    (fun _ _ _ hg => (filterToken_adds hg).2.2 name) h]
  simp

theorem parseFilter_matches (h : parseFilter s = .ok f) (cls : NotifyEvent) (event : Str) :
    f.matches cls event = true ↔ ∃ p ∈ pieces s, Selects p cls event := by
  have hclasses : f.classes ∩ cls ≠ ∅ ↔ ∃ p ∈ pieces s, ∃ bit name, p = '@' :: name ∧ (bit, name) ∈ named ∧
      bit ∈ cls := by
    rw [← Finset.nonempty_iff_ne_empty]
    constructor
    · rintro ⟨bit, hbit⟩
      obtain ⟨hf, hcls⟩ := Finset.mem_inter.1 hbit
      obtain ⟨p, hp, name, he, hname⟩ := (parseFilter_classes h bit).1 hf
      exact ⟨p, hp, bit, name, he, hname, hcls⟩
    · rintro ⟨p, hp, bit, name, he, hname, hcls⟩
      exact ⟨bit, Finset.mem_inter.2 ⟨(parseFilter_classes h bit).2 ⟨p, hp, name, he, hname⟩, hcls⟩⟩
  simp only [ParsedFilter.matches, Bool.or_eq_true, decide_eq_true_eq, parseFilter_star h,
    parseFilter_names h, hclasses]
  constructor
  · rintro ((hstar | ⟨p, hp, hbit⟩) | ⟨p, hp, -, hat, he⟩)
    · exact ⟨_, hstar, Or.inl rfl⟩
    · exact ⟨p, hp, Or.inr (Or.inl hbit)⟩
    · exact ⟨p, hp, Or.inr (Or.inr ⟨hat, he⟩)⟩
  · rintro ⟨p, hp, rfl | hbit | ⟨hat, he⟩⟩
    · exact Or.inl (Or.inl hp)
    · exact Or.inl (Or.inr ⟨p, hp, hbit⟩)
    · by_cases hstar : p = ['*']
      · exact Or.inl (Or.inl (hstar ▸ hp))
      · exact Or.inr ⟨p, hp, hstar, hat, he⟩

/-- Two texts with the same pieces, in whatever order and number, are read alike. -/
theorem parseFilter_congr {s' : Str} {f' : ParsedFilter} (hp : ∀ p, p ∈ pieces s' ↔ p ∈ pieces s)
    (h : parseFilter s = .ok f) (h' : parseFilter s' = .ok f') : f' = f := by
  have hstar : f'.star = f.star := by rw [Bool.eq_iff_iff, parseFilter_star h, parseFilter_star h', hp]
  have hclasses : f'.classes = f.classes := by
    ext bit
    simp only [parseFilter_classes h, parseFilter_classes h', hp]
  have hnames : f'.names = f.names := by
    ext name
    simp only [parseFilter_names h, parseFilter_names h', hp]
  cases f'
  cases f
  cases hstar
  cases hclasses
  cases hnames
  rfl

end ParsedFilter

theorem parseFilter_toOption_congr {s s' : Str} (hp : ∀ p, p ∈ pieces s' ↔ p ∈ pieces s) :
    (parseFilter s').toOption = (parseFilter s).toOption := by
  have haccept : (∃ f, parseFilter s' = .ok f) ↔ ∃ f, parseFilter s = .ok f := by
    simp only [parseFilter_iff, hp]
  cases h : parseFilter s with
  | ok f =>
    obtain ⟨f', h'⟩ := haccept.2 ⟨f, h⟩
    rw [h', parseFilter_congr hp h h']
  | error e =>
    cases h' : parseFilter s' with
    | error e' => rfl
    | ok f' =>
      obtain ⟨f, hf⟩ := haccept.1 ⟨f', h'⟩
      rw [h] at hf
      cases hf

/-- **The events filter is its grammar**: a text is accepted exactly if every piece of it is a star, a class or a name;
the filter then matches what one of the pieces selects; and what is accepted and what it means depends on the set of the
pieces alone. -/
theorem parseFilter_exact (s : Str) :
    ((∃ f, parseFilter s = .ok f) ↔ ∀ p ∈ pieces s, FilterPiece p) ∧
      (∀ f, parseFilter s = .ok f → ∀ cls event, f.matches cls event = true ↔ ∃ p ∈ pieces s, Selects p cls event) ∧
      ∀ s', (∀ p, p ∈ pieces s' ↔ p ∈ pieces s) → (parseFilter s').toOption = (parseFilter s).toOption :=
  ⟨parseFilter_iff s, fun _ h => parseFilter_matches h, fun _ hp => parseFilter_toOption_congr hp⟩

/-- A filter of a class and a name, and its pieces in another order, with one of them twice and blanks around them. -/
theorem parseFilter_exact_padded :
    (parseFilter "\texpired , expired,@hash ".toList).toOption = (parseFilter "@hash,expired".toList).toOption ∧
      ∃ f, parseFilter "@hash,expired".toList = .ok f ∧ f.matches {.hash} "hset".toList = true := by
  obtain ⟨haccept, hmeans, hsame⟩ := parseFilter_exact "@hash,expired".toList
  have hpieces : pieces "@hash,expired".toList = ["@hash".toList, "expired".toList] := by decide +kernel
  have hpadded : pieces "\texpired , expired,@hash ".toList = ["expired".toList, "expired".toList, "@hash".toList] := by
    decide +kernel
  refine ⟨hsame _ fun p => ?_, ?_⟩
  · simp only [hpieces, hpadded, List.mem_cons, List.not_mem_nil, or_false]
    tauto
  · have hgood : ∀ p ∈ pieces "@hash,expired".toList, FilterPiece p := by
      rw [hpieces, List.forall_mem_cons, List.forall_mem_singleton]
      have hblack : "expired".toList.all (fun c => !isWhitespace c) = true := by decide
      refine ⟨Or.inr (Or.inl ⟨"hash".toList, rfl, by decide⟩), Or.inr (Or.inr ⟨by decide, by decide, fun c hc => ?_⟩)⟩
      simpa using List.all_eq_true.1 hblack c hc
    have hselects : ∃ p ∈ pieces "@hash,expired".toList, Selects p {.hash} "hset".toList := by
      rw [hpieces]
      exact ⟨_, List.mem_cons_self, Or.inr (Or.inl ⟨.hash, "hash".toList, rfl, by decide, by decide⟩)⟩
    obtain ⟨f, hf⟩ := haccept.2 hgood
    exact ⟨f, hf, (hmeans f hf _ _).2 hselects⟩

/-! ## The key filter -/

/-- What a pattern means for a key. -/
def Means (p : Str) (key : Bytes) : Prop := Glob.accepts (tokens (utf8 p)) key = true

theorem keyFilterToken_ok {f g : ParsedKeyFilter} {raw : Str} : keyFilterToken f raw = .ok g ↔
    (trim raw = ['*'] ∧ g = { f with star := true }) ∨
      (trim raw ≠ [] ∧ trim raw ≠ ['*'] ∧ g = { f with patterns := f.patterns ++ [utf8 (trim raw)] }) := by
  unfold keyFilterToken
  generalize trim raw = p
  split
  · simp
  · simp [eq_comm]
  · rename_i hne hstar
    have hne' : p ≠ [] := hne
    have hstar' : p ≠ ['*'] := hstar
    simp [hne', hstar', eq_comm]

theorem parseKeyFilter_iff (s : Str) : (∃ f, parseKeyFilter s = .ok f) ↔ ∀ p ∈ pieces s, p ≠ [] := by
  have hstep : ∀ (f : ParsedKeyFilter) (raw : Str), (∃ g, keyFilterToken f raw = .ok g) ↔ trim raw ≠ [] := by
    intro f raw
    simp only [keyFilterToken_ok]
    constructor
    · rintro ⟨g, ⟨hstar, -⟩ | ⟨hne, -⟩⟩
      · rw [hstar]
        exact List.cons_ne_nil _ _
      · exact hne
    · intro hne
      by_cases hstar : trim raw = ['*']
      · exact ⟨_, Or.inl ⟨hstar, rfl⟩⟩
      · exact ⟨_, Or.inr ⟨hne, hstar, rfl⟩⟩
  exact accepted_pieces (P := fun p => p ≠ []) hstep s {}

/-- The short cut of a bare star, and the matcher for every other piece. -/
theorem parseKeyFilter_matches {s : Str} {f : ParsedKeyFilter} (h : parseKeyFilter s = .ok f) (key : Bytes) :
    f.matches key = true ↔ ∃ p ∈ pieces s, p = ['*'] ∨ globMatch (utf8 p) key = some true := by
  have hstep : ∀ (f g : ParsedKeyFilter) (raw : Str), keyFilterToken f raw = .ok g →
      (g.matches key = true ↔ f.matches key = true ∨
        (trim raw = ['*'] ∨ globMatch (utf8 (trim raw)) key = some true)) := by
    intro f g raw hg
    rcases keyFilterToken_ok.1 hg with ⟨hstar, rfl⟩ | ⟨-, hstar, rfl⟩
    · simp [ParsedKeyFilter.matches, hstar]
    · simp [ParsedKeyFilter.matches, hstar, or_assoc]
  rw [collected_pieces (fun f => f.matches key = true) (fun p => p = ['*'] ∨
    globMatch (utf8 p) key = some true) hstep h]
  simp [ParsedKeyFilter.matches]

theorem utf8_replicate_star (n : Nat) : utf8 (List.replicate n '*') = List.replicate n 42 := by
  induction n with
  | zero => rfl
  | succ n ih =>
    rw [List.replicate_succ, List.replicate_succ, Text.utf8_cons_ascii (by decide), ih]
    rfl

theorem utf8_stars (p : Str) : (∀ b ∈ utf8 p, b = 42) ↔ ∀ c ∈ p, c = '*' := by
  constructor
  · intro h
    have hbytes := List.eq_replicate_of_mem h
    rw [← utf8_replicate_star] at hbytes
    intro c hc
    rw [Text.utf8_injective hbytes] at hc
    exact List.eq_of_mem_replicate hc
  · intro h
    rw [List.eq_replicate_of_mem h, utf8_replicate_star]
    intro b hb
    exact List.eq_of_mem_replicate hb

/-- The empty key is in the meaning of stars only. -/
theorem means_nil (p : Str) : Means p [] ↔ ∀ c ∈ p, c = '*' := by
  have hnil : Glob.accepts (tokens ((utf8 p).drop 0)) [] = _ := accepts_tokens_nil (Nat.zero_le _)
  rw [List.drop_zero, Nat.zero_add, starsFrom, List.drop_zero] at hnil
  rw [Means, hnil, decide_eq_true_eq, ← utf8_stars]
  constructor
  · intro hlen b hb
    have hself := (List.takeWhile_prefix (fun b : UInt8 => decide (b = 42))).eq_of_length hlen
    rw [← hself] at hb
    simpa using List.mem_takeWhile_imp hb
  · intro h
    rw [List.takeWhile_eq_self_iff.2 fun b hb => decide_eq_true (h b hb)]

theorem tokens_utf8_stars (n : Nat) : tokens (utf8 (List.replicate n '*')) = List.replicate n .star := by
  have hall : ∀ b ∈ List.replicate n (42 : UInt8), decide (b = 42) = true := by
    intro b hb
    exact decide_eq_true (List.eq_of_mem_replicate hb)
  rw [utf8_replicate_star, tokens_stars, List.takeWhile_eq_self_iff.2 hall,
    List.dropWhile_eq_nil_iff.2 hall, tokens_nil, List.append_nil, List.length_replicate]

/-- Stars mean every key. -/
theorem means_stars (n : Nat) (key : Bytes) : Means (List.replicate (n + 1) '*') key := by
  rw [Means, tokens_utf8_stars, ← List.append_nil (List.replicate _ _), Glob.accepts_replicate_star]
  exact Glob.accepts_star.2 ⟨[], List.nil_suffix, rfl⟩

/-- On a key that is not empty the filter is its meaning. -/
theorem parseKeyFilter_means {s : Str} {f : ParsedKeyFilter} (h : parseKeyFilter s = .ok f)
    (hdepth : ∀ p ∈ pieces s, Glob.starDepth (tokens (utf8 p)) ≤ 1000) {key : Bytes} (hkey : key ≠ []) :
    f.matches key = true ↔ ∃ p ∈ pieces s, Means p key := by
  rw [parseKeyFilter_matches h]
  refine exists_congr fun p => and_congr_right fun hp => ?_
  rw [globMatch_of_depth (hdepth p hp) hkey, Option.some.injEq]
  constructor
  · rintro (rfl | hacc)
    · exact means_stars 0 key
    · exact hacc
  · exact Or.inr

/-- On the empty key only the short cut matches. -/
theorem parseKeyFilter_nil {s : Str} {f : ParsedKeyFilter} (h : parseKeyFilter s = .ok f) :
    f.matches [] = true ↔ ['*'] ∈ pieces s := by
  have hne := (parseKeyFilter_iff s).1 ⟨f, h⟩
  rw [parseKeyFilter_matches h]
  constructor
  · rintro ⟨p, hp, rfl | hmatch⟩
    · exact hp
    · have hbytes : utf8 p ≠ [] := fun he => hne p hp (Text.utf8_injective he)
      rw [globMatch_nil hbytes] at hmatch
      cases hmatch
  · intro hp
    exact ⟨_, hp, Or.inl rfl⟩

/-- A text of stars is accepted, and matches every key if it is one star, else every key but the empty one. -/
theorem parseKeyFilter_stars (n : Nat) : ∃ f, parseKeyFilter (List.replicate (n + 1) '*') = .ok f ∧
    ∀ key, f.matches key = true ↔ n = 0 ∨ key ≠ [] := by
  have hpieces : pieces (List.replicate (n + 1) '*') = [List.replicate (n + 1) '*'] := by
    apply pieces_of_black
    · intro hc
      exact absurd (List.eq_of_mem_replicate hc) (by decide)
    · intro c hc
      rw [List.eq_of_mem_replicate hc]
      decide
  obtain ⟨f, hf⟩ := (parseKeyFilter_iff (List.replicate (n + 1) '*')).2 (by simp [hpieces])
  refine ⟨f, hf, fun key => ?_⟩
  by_cases hkey : key = []
  · rw [hkey, parseKeyFilter_nil hf, hpieces]
    simp [List.replicate_succ]
  · have hdepth : ∀ p ∈ pieces (List.replicate (n + 1) '*'), Glob.starDepth (tokens (utf8 p)) ≤ 1000 := by
      intro p hp
      rw [hpieces, List.mem_singleton] at hp
      rw [hp, tokens_utf8_stars, Glob.starDepth_stars]
      exact Nat.zero_le _
    rw [parseKeyFilter_means hf hdepth hkey, hpieces]
    exact iff_of_true ⟨_, List.mem_singleton_self _, means_stars n key⟩ (Or.inr hkey)

/-- **The key filter is its grammar on every key but the empty one**: with patterns below the depth of the guard, the
filter matches a key exactly if one of the patterns means it, unless the key is empty, a pattern is made of stars and
none is a bare star. Stars other than a bare one do not match the empty key. -/
theorem parseKeyFilter_exact {s : Str} {f : ParsedKeyFilter} (h : parseKeyFilter s = .ok f)
    (hdepth : ∀ p ∈ pieces s, Glob.starDepth (tokens (utf8 p)) ≤ 1000) :
    (∀ key, (f.matches key = true ↔ ∃ p ∈ pieces s, Means p key) ↔
      (key ≠ [] ∨ ['*'] ∈ pieces s ∨ ∀ p ∈ pieces s, ∃ c ∈ p, c ≠ '*')) ∧
    ∀ n, ∃ g, parseKeyFilter (List.replicate (n + 1) '*') = .ok g ∧ ∀ key, g.matches key = true ↔ n = 0 ∨ key ≠ [] := by
  refine ⟨fun key => ?_, parseKeyFilter_stars⟩
  by_cases hkey : key = []
  · subst hkey
    simp only [parseKeyFilter_nil h, means_nil, ne_eq, not_true_eq_false, false_or]
    constructor
    · intro hiff
      by_cases hstar : ['*'] ∈ pieces s
      · exact Or.inl hstar
      · refine Or.inr fun p hp => ?_
        by_contra hno
        push Not at hno
        exact hstar (hiff.2 ⟨p, hp, hno⟩)
    · rintro (hstar | hnone)
      · exact iff_of_true hstar ⟨_, hstar, by simp⟩
      · have hno : ¬ ∃ p ∈ pieces s, ∀ c ∈ p, c = '*' := by
          rintro ⟨p, hp, hall⟩
          obtain ⟨c, hc, hne⟩ := hnone p hp
          exact hne (hall c hc)
        refine iff_of_false (fun hstar => hno ⟨_, hstar, by simp⟩) hno
  · exact iff_of_true (parseKeyFilter_means h hdepth hkey) (Or.inl hkey)

/-- A filter of two patterns, on the empty key: neither matches it, and neither means it. -/
theorem parseKeyFilter_exact_sessions :
    ∃ f, parseKeyFilter "session:*, *x*".toList = .ok f ∧
      (f.matches [] = true ↔ ∃ p ∈ pieces "session:*, *x*".toList, Means p []) := by
  have hpieces : pieces "session:*, *x*".toList = ["session:*".toList, "*x*".toList] := by decide +kernel
  obtain ⟨f, hf⟩ : ∃ f, parseKeyFilter "session:*, *x*".toList = .ok f := ⟨_, rfl⟩
  have hdepth : ∀ p ∈ pieces "session:*, *x*".toList, Glob.starDepth (tokens (utf8 p)) ≤ 1000 := by
    rw [hpieces]
    decide +kernel
  refine ⟨f, hf, ((parseKeyFilter_exact hf hdepth).1 []).2 (Or.inr (Or.inr ?_))⟩
  rw [hpieces, List.forall_mem_cons, List.forall_mem_singleton]
  exact ⟨⟨'s', by decide, by decide⟩, ⟨'x', by decide, by decide⟩⟩

/-- The filter `**` is accepted and means every key, and it does not match the empty one. -/
theorem parseKeyFilter_two_stars :
    ∃ f, parseKeyFilter "**".toList = .ok f ∧ (∀ p ∈ pieces "**".toList, Glob.starDepth (tokens (utf8 p)) ≤ 1000) ∧
      Means "**".toList [] ∧ pieces "**".toList = ["**".toList] ∧ f.matches [] = false := by
  refine ⟨⟨false, [[42, 42]]⟩, by decide +kernel, by decide +kernel, ?_, by decide +kernel, by decide +kernel⟩
  exact means_stars 1 []

end EventStream

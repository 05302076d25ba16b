import EventStream.Slots

/-!
# The names of streams

The module writes a key as prefix, tag segment and suffix, one after the other. The client takes it apart again: it
strips the prefix, takes a segment in braces for the tag and the rest for the event name, and knows the module's own
keys by their `#`.

* `sanitize_shape`, `sanitize_of_shape`, `sanitize_idem`, `sanitize_eq_nil`: what a sanitized name is.
* `eventName_plain`, `eventName_tagged`, `streamTag_plain`, `streamTag_tagged`: taking a name apart.
* `names_agree`: the two sides agree on every name.
-/

namespace EventStream.Client

open Text (Str Bytes utf8 stripText splitOnce stripText_append splitOnce_append)

/-! ## Taking a name apart -/

/-- The event name a destination stream carries. -/
def eventName (pfx stream : Str) : Option Str :=
  (stripText pfx stream).map fun rest =>
    if ['{'].isPrefixOf rest then ((splitOnce '}' rest).map Prod.snd).getD rest else rest

/-- The tag a stream of a cluster is pinned under. -/
def streamTag (pfx stream : Str) : Option Str :=
  ((stripText pfx stream).bind (stripText ['{'])).bind fun rest => (splitOnce '}' rest).map Prod.fst

/-- The data streams a consumer reads: those of the wanted events, if it names any, and none of the module's own keys.
-/
def matched (pfx : Str) (wanted : Option (List Str)) (streams : List Str) : List Str :=
  let streams := match wanted with
    | some names => streams.filter fun s => (eventName pfx s).any (· ∈ names)
    | none => streams
  streams.filter fun s => '#' ∉ s

theorem mem_matched {pfx name : Str} {wanted : Option (List Str)} {streams : List Str} :
    name ∈ matched pfx wanted streams ↔
      name ∈ streams ∧ '#' ∉ name ∧ ∀ names ∈ wanted, ∃ e, eventName pfx name = some e ∧ e ∈ names := by
  cases wanted with
  | none => simp [matched]
  | some names =>
    have hany : (eventName pfx name).any (· ∈ names) = true ↔ ∃ e, eventName pfx name = some e ∧ e ∈ names := by
      cases eventName pfx name <;> simp
    simp only [matched, List.mem_filter, hany, decide_eq_true_eq, Option.mem_def, Option.some.injEq, forall_eq']
    tauto

section Names

variable (pfx : Str) {tag s : Str}

/-- A suffix with no brace in front is the event name. -/
theorem eventName_plain (hs : ∀ rest, s ≠ '{' :: rest) : eventName pfx (pfx ++ s) = some s := by
  have hb : ¬ ['{'].isPrefixOf s = true := by
    intro h
    obtain ⟨rest, e⟩ := List.isPrefixOf_iff_prefix.1 h
    exact hs rest e.symm
  rw [eventName, stripText_append, Option.map_some, if_neg hb]

theorem streamTag_plain (hs : ∀ rest, s ≠ '{' :: rest) : streamTag pfx (pfx ++ s) = none := by
  have hb : ¬ ['{'].isPrefixOf s = true := by
    intro h
    obtain ⟨rest, e⟩ := List.isPrefixOf_iff_prefix.1 h
    exact hs rest e.symm
  rw [streamTag, stripText_append, Option.bind_some, stripText, if_neg hb]
  rfl

theorem eventName_tagged (ht : '}' ∉ tag) : eventName pfx (pfx ++ braced tag ++ s) = some s := by
  have hseg : braced tag ++ s = ('{' :: tag) ++ '}' :: s := by simp [braced]
  have hb : ['{'].isPrefixOf (('{' :: tag) ++ '}' :: s) = true := by simp [List.isPrefixOf]
  rw [eventName, List.append_assoc, stripText_append, Option.map_some, hseg, if_pos hb,
    splitOnce_append s (by simpa using ht)]
  rfl

theorem streamTag_tagged (ht : '}' ∉ tag) : streamTag pfx (pfx ++ braced tag ++ s) = some tag := by
  have hseg : braced tag ++ s = ['{'] ++ (tag ++ '}' :: s) := by simp [braced]
  rw [streamTag, List.append_assoc, stripText_append, Option.bind_some, hseg, stripText_append, Option.bind_some,
    splitOnce_append s ht]
  rfl

end Names

/-! ## Sanitized names -/

theorem passes_underscore : passes '_' = true := by decide

/-- A character that passes is one byte. -/
theorem passes_ascii {c : Char} (h : passes c = true) : c.toNat ≤ 127 := by
  have hle : ∀ d : Char, c ≤ d → c.toNat ≤ d.toNat := fun d hd => hd
  simp only [passes, Bool.or_eq_true, Bool.and_eq_true, decide_eq_true_eq] at h
  rcases h with (((((h | h) | h) | rfl) | rfl) | rfl) | rfl
  · exact (hle 'Z' h.2).trans (by decide)
  · exact (hle 'z' h.2).trans (by decide)
  · exact (hle '9' h.2).trans (by decide)
  all_goals decide

theorem utf8_length_of_passes {s : Str} (h : ∀ c ∈ s, passes c = true) : (utf8 s).length = s.length := by
  induction s with
  | nil => rfl
  | cons c s ih =>
    rw [Text.utf8_cons_ascii (passes_ascii (h c List.mem_cons_self)), List.length_cons, List.length_cons,
      ih fun d hd => h d (List.mem_cons_of_mem _ hd)]

/-- A sanitized name has at most 128 characters, and all of them pass. -/
theorem sanitize_shape (event : Str) :
    (sanitize event).length ≤ maxEventNameLen ∧ ∀ c ∈ sanitize event, passes c = true := by
  constructor
  · simp only [sanitize, List.length_map, List.length_take]
    omega
  · intro c hc
    simp only [sanitize, List.mem_map] at hc
    obtain ⟨d, _, rfl⟩ := hc
    split
    · assumption
    · exact passes_underscore

/-- A name of that shape is left as it is. -/
theorem sanitize_of_shape {event : Str} (hlen : event.length ≤ maxEventNameLen) (h : ∀ c ∈ event, passes c = true) :
    sanitize event = event := by
  rw [sanitize, List.take_of_length_le hlen]
  refine (List.map_congr_left fun c hc => ?_).trans (List.map_id event)
  rw [if_pos (h c hc), id_eq]

theorem sanitize_idem (event : Str) : sanitize (sanitize event) = sanitize event :=
  sanitize_of_shape (sanitize_shape event).1 (sanitize_shape event).2

theorem sanitize_eq_nil (event : Str) : sanitize event = [] ↔ event = [] := by
  simp [sanitize, maxEventNameLen]

/-! ## Agreement -/

/-- A suffix of the module does not start with a brace. -/
theorem suffix_no_brace {event s : Str} (hs : s = sanitize event ∨ s ∈ reserved) (rest : Str) : s ≠ '{' :: rest := by
  rintro rfl
  rcases hs with hs | hs
  · have h := (sanitize_shape event).2 '{' (by rw [← hs]; exact List.mem_cons_self)
    exact absurd h (by decide)
  · simp [reserved] at hs

/-- **Naming and attribution agree.** For every accepted prefix, every event and every tag: the sanitized name is a
suffix of the documented shape, the client takes the names of data streams and of the reserved keys apart into the
suffix and the tag they were made of, and its `#` test tells the two kinds of key apart. -/
theorem names_agree (pfx event tag : Str) (hp : validatePrefix pfx = .ok ()) (hclose : '}' ∉ tag) (hhash : '#' ∉ tag) :
    ((utf8 (sanitize event)).length ≤ 128 ∧ (∀ c ∈ sanitize event, passes c = true) ∧
      ((utf8 event).length ≤ 128 → (∀ c ∈ event, passes c = true) → sanitize event = event) ∧
      sanitize (sanitize event) = sanitize event ∧ (sanitize event = [] → event = [])) ∧
    (∀ s, s = sanitize event ∨ s ∈ reserved →
      eventName pfx (pfx ++ s) = some s ∧ streamTag pfx (pfx ++ s) = none ∧
      eventName pfx (pfx ++ braced tag ++ s) = some s ∧ streamTag pfx (pfx ++ braced tag ++ s) = some tag) ∧
    ∀ seg, seg = [] ∨ seg = braced tag →
      (∀ r ∈ reserved, pfx ++ seg ++ sanitize event ≠ pfx ++ seg ++ r) ∧
      '#' ∉ pfx ++ seg ++ sanitize event ∧ (∀ r ∈ reserved, '#' ∈ pfx ++ seg ++ r) ∧
      ∀ wanted streams, pfx ++ seg ++ sanitize event ∈ streams →
        (pfx ++ seg ++ sanitize event ∈ matched pfx wanted streams ↔ ∀ names ∈ wanted, sanitize event ∈ names) ∧
        ∀ r ∈ reserved, pfx ++ seg ++ r ∉ matched pfx wanted streams := by
  have hshape := sanitize_shape event
  refine ⟨⟨?_, hshape.2, ?_, sanitize_idem event, (sanitize_eq_nil event).1⟩, ?_, ?_⟩
  · rw [utf8_length_of_passes hshape.2]
    exact hshape.1
  · intro hlen hall
    rw [utf8_length_of_passes hall] at hlen
    exact sanitize_of_shape hlen hall
  · intro s hs
    have hb := suffix_no_brace hs
    exact ⟨eventName_plain pfx hb, streamTag_plain pfx hb, eventName_tagged pfx hclose, streamTag_tagged pfx hclose⟩
  · intro seg hseg
    have hpfx : '#' ∉ pfx := fun h => absurd (validatePrefix_chars hp h) (by decide)
    have hsuffix : '#' ∉ sanitize event := fun h => absurd (hshape.2 '#' h) (by decide)
    have hsegment : '#' ∉ seg := by
      rcases hseg with rfl | rfl
      · simp
      · simpa [braced] using hhash
    have hdata : '#' ∉ pfx ++ seg ++ sanitize event := by simp [hpfx, hsegment, hsuffix]
    have hown : ∀ r ∈ reserved, '#' ∈ pfx ++ seg ++ r := by
      intro r hr
      have hr' : '#' ∈ r := by
        simp only [reserved, List.mem_cons, List.not_mem_nil, or_false] at hr
        rcases hr with rfl | rfl | rfl <;> decide
      exact List.mem_append_right _ hr'
    have hname : eventName pfx (pfx ++ seg ++ sanitize event) = some (sanitize event) := by
      rcases hseg with rfl | rfl
      · rw [List.append_nil]
        exact eventName_plain pfx (suffix_no_brace (Or.inl rfl))
      · exact eventName_tagged pfx hclose
    refine ⟨fun r hr he => hdata (he ▸ hown r hr), hdata, hown, fun wanted streams hmem => ⟨?_, fun r hr hm => ?_⟩⟩
    · rw [mem_matched, hname]
      simp only [Option.some.injEq, exists_eq_left', and_iff_right hmem, and_iff_right hdata]
    · exact (mem_matched.1 hm).2.1 (hown r hr)

/-- The names of an event with a space in it, standalone and on a node. -/
theorem names_agree_spaced : validatePrefix "events:".toList = .ok () ∧
    eventName "events:".toList ("events:".toList ++ braced "06S".toList ++ sanitize "my event".toList) =
      some "my_event".toList ∧
    streamTag "events:".toList ("events:".toList ++ braced "06S".toList ++ sanitize "my event".toList) =
      some "06S".toList := by
  have hp : validatePrefix "events:".toList = .ok () := by decide
  have h := names_agree "events:".toList "my event".toList "06S".toList hp (by decide) (by decide)
  have hs := h.2.1 (sanitize "my event".toList) (Or.inl rfl)
  have hname : sanitize "my event".toList = "my_event".toList := by decide
  rw [← hname]
  exact ⟨hp, hs.2.2.1, hs.2.2.2⟩

end EventStream.Client

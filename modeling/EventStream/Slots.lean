import EventStream.Lib.Crc
import EventStream.Lifecycle

/-!
# Hash slots

In per-node mode every key of the module carries the pinned tag in braces, so that all of them fall on the slot that was
probed. The server hashes the bytes between the first `{` of a key and the next `}`, and the whole key if there are none
in between.

* `keySlot`: the slot of a key by that rule.
* `crc16_append`, `slot_eq_iff`: the check is linear, and the slot is its fourteen low bits.
* `keySlot_probeKey`: a probe key falls on the slot of its tag.
* `keySlots_agree_iff`: all keys under a prefix fall on the slot that was probed if and only if no brace of the prefix
  comes in between.
-/

namespace EventStream

open Text (Str Bytes utf8)

/-! ## Slots of keys -/

def openBrace : UInt8 := 123

def closeBrace : UInt8 := 125

/-- The bytes of a key that the server hashes. -/
def hashedPart (key : Bytes) : Bytes :=
  match key.dropWhile (· ≠ openBrace) with
  | [] => key
  | _ :: rest =>
    let tag := rest.takeWhile (· ≠ closeBrace)
    if closeBrace ∈ rest ∧ tag ≠ [] then tag else key

/-- The slot of bytes that are hashed. -/
def slotOf (bytes : Bytes) : Nat := (crc16 bytes).toNat % slotCount

def keySlot (key : Bytes) : Nat := slotOf (hashedPart key)

section HashedPart

variable {front mid back : Bytes}

theorem hashedPart_of_open (hf : openBrace ∉ front) (rest : Bytes) : hashedPart (front ++ openBrace :: rest) =
    if closeBrace ∈ rest ∧ rest.takeWhile (· ≠ closeBrace) ≠ [] then rest.takeWhile (· ≠ closeBrace)
    else front ++ openBrace :: rest := by
  have hdrop : (front ++ openBrace :: rest).dropWhile (· ≠ openBrace) = openBrace :: rest := by
    rw [List.dropWhile_append_of_pos]
    · simp
    · intro b hb
      simp only [decide_eq_true_eq]
      rintro rfl
      exact hf hb
  rw [hashedPart, hdrop]

theorem takeWhile_close (hm : closeBrace ∉ mid) : (mid ++ closeBrace :: back).takeWhile (· ≠ closeBrace) = mid := by
  rw [List.takeWhile_append_of_pos]
  · simp
  · intro b hb
    simp only [decide_eq_true_eq]
    rintro rfl
    exact hm hb

/-- The run after the first open brace, if it is closed and not empty. -/
theorem hashedPart_closed (hf : openBrace ∉ front) (hm : closeBrace ∉ mid) (hne : mid ≠ []) :
    hashedPart (front ++ openBrace :: (mid ++ closeBrace :: back)) = mid := by
  rw [hashedPart_of_open hf, takeWhile_close hm, if_pos ⟨by simp, hne⟩]

/-- The whole key, if the run is empty. -/
theorem hashedPart_empty (hf : openBrace ∉ front) :
    hashedPart (front ++ openBrace :: closeBrace :: back) = front ++ openBrace :: closeBrace :: back := by
  have htake : (closeBrace :: back).takeWhile (· ≠ closeBrace) = [] := by simp
  rw [hashedPart_of_open hf, htake, if_neg]
  rintro ⟨_, h⟩
  exact h rfl

end HashedPart

/-! ## The check is linear -/

theorem crcBit_eq : crcBit = Crc.shiftBit 0x1021#16 := by
  funext c
  have hmask : (c &&& 0x8000#16 ≠ 0#16) ↔ c.msb = true := by
    have hpow : (0x8000#16 : BitVec 16) = BitVec.twoPow 16 15 := by decide
    rw [hpow, BitVec.and_twoPow, BitVec.msb_eq_getLsbD_last]
    cases c.getLsbD 15 with
    | false => simp
    | true =>
      simp only [if_true, iff_true]
      decide
  unfold crcBit Crc.shiftBit
  simp only [hmask]

/-- The step of one byte, the byte being added. -/
def crcByte : BitVec 16 → BitVec 16 := crcBit^[8]

theorem crcByte_linear : Crc.Linear crcByte := by
  unfold crcByte
  rw [crcBit_eq]
  exact (Crc.shiftBit_linear _).iterate 8

theorem crcByte_injective : Function.Injective crcByte := by
  unfold crcByte
  rw [crcBit_eq]
  exact (Crc.shiftBit_injective (by decide)).iterate 8

/-- A byte as it is added to the register. -/
def crcWord (byte : UInt8) : BitVec 16 := BitVec.ofNat 16 byte.toNat <<< 8

theorem crc16_eq_feed (data : Bytes) : crc16 data = Crc.feed crcByte 0#16 (data.map crcWord) := by
  rw [Crc.feed, List.foldl_map]
  rfl

/-- What stands before some bytes contributes its check, moved over them. -/
theorem crc16_append (front data : Bytes) :
    crc16 (front ++ data) = crc16 data ^^^ crcByte^[data.length] (crc16 front) := by
  rw [crc16_eq_feed, List.map_append, Crc.feed_append, ← crc16_eq_feed front]
  have h := Crc.feed_xor crcByte_linear 0#16 (crc16 front) (data.map crcWord)
  rwa [BitVec.zero_xor, List.length_map, ← crc16_eq_feed data] at h

/-- The slot is the fourteen low bits. -/
theorem slot_eq_iff (a b : Bytes) : slotOf a = slotOf b ↔ (crc16 a ^^^ crc16 b).setWidth 14 = 0#14 := by
  have hslot : ∀ x : BitVec 16, x.toNat % slotCount = (x.setWidth 14).toNat := fun x => by
    rw [BitVec.toNat_setWidth]
    rfl
  rw [slotOf, slotOf, hslot, hslot, BitVec.setWidth_xor, BitVec.xor_eq_zero_iff]
  exact ⟨fun h => BitVec.eq_of_toNat_eq h, fun h => by rw [h]⟩

/-- Bytes in front change no slot if and only if what they contribute is above the low bits. -/
theorem slot_append_iff (front data : Bytes) :
    slotOf (front ++ data) = slotOf data ↔ (crcByte^[data.length] (crc16 front)).setWidth 14 = 0#14 := by
  rw [slot_eq_iff, crc16_append, BitVec.xor_comm (crc16 data), BitVec.xor_assoc, BitVec.xor_self, BitVec.xor_zero]

/-- Two last bytes that differ in their lowest bit give two slots. -/
theorem slot_last_ne (front : Bytes) : slotOf (front ++ [98]) ≠ slotOf (front ++ [99]) := by
  intro h
  rw [slot_eq_iff, crc16_append, crc16_append] at h
  have hcancel : crc16 [98] ^^^ crcByte^[[(98 : UInt8)].length] (crc16 front) ^^^
      (crc16 [99] ^^^ crcByte^[[(99 : UInt8)].length] (crc16 front)) = crc16 [98] ^^^ crc16 [99] := by
    rw [BitVec.xor_assoc, BitVec.xor_comm (crc16 [99]), ← BitVec.xor_assoc _ _ (crc16 [99])]
    simp
  rw [hcancel] at h
  exact absurd h (by decide)

/-- A content that never reaches the low bits, over one byte and over two, is zero. -/
theorem eq_zero_of_high {c : BitVec 16} (h₁ : (crcByte c).setWidth 14 = 0#14)
    (h₂ : (crcByte (crcByte c)).setWidth 14 = 0#14) : c = 0#16 := by
  have hcases : ∀ x : BitVec 16, x.setWidth 14 = 0#14 → x = 0#16 ∨ x = 0x4000#16 ∨ x = 0x8000#16 ∨ x = 0xC000#16 := by
    intro x hx
    have hmod := congrArg BitVec.toNat hx
    rw [BitVec.toNat_setWidth] at hmod
    have hlt := x.isLt
    have hn : x.toNat = 0 ∨ x.toNat = 0x4000 ∨ x.toNat = 0x8000 ∨ x.toNat = 0xC000 := by
      change x.toNat % 16384 = 0 at hmod
      omega
    rcases hn with hn | hn | hn | hn
    · exact Or.inl (BitVec.eq_of_toNat_eq hn)
    · exact Or.inr (Or.inl (BitVec.eq_of_toNat_eq hn))
    · exact Or.inr (Or.inr (Or.inl (BitVec.eq_of_toNat_eq hn)))
    · exact Or.inr (Or.inr (Or.inr (BitVec.eq_of_toNat_eq hn)))
  rcases hcases _ h₁ with h | h | h | h
  · exact crcByte_injective (h.trans crcByte_linear.map_zero.symm)
  · rw [h] at h₂
    exact absurd h₂ (by decide)
  · rw [h] at h₂
    exact absurd h₂ (by decide)
  · rw [h] at h₂
    exact absurd h₂ (by decide)

/-! ## The keys of the module -/

theorem mem_openBrace (s : Str) : openBrace ∈ utf8 s ↔ '{' ∈ s := Text.mem_utf8_ascii (c := '{') (by decide) s

theorem mem_closeBrace (s : Str) : closeBrace ∈ utf8 s ↔ '}' ∈ s := Text.mem_utf8_ascii (c := '}') (by decide) s

theorem utf8_open (s : Str) : utf8 ('{' :: s) = openBrace :: utf8 s := Text.utf8_cons_ascii (by decide) s

theorem utf8_close (s : Str) : utf8 ('}' :: s) = closeBrace :: utf8 s := Text.utf8_cons_ascii (by decide) s

theorem utf8_ne_nil {s : Str} (h : s ≠ []) : utf8 s ≠ [] := fun he => h (Text.utf8_injective he)

/-- A key with a tag in braces, cut at the braces. -/
theorem utf8_tagged (pfx tag suffix : Str) :
    utf8 (pfx ++ braced tag ++ suffix) = utf8 pfx ++ openBrace :: (utf8 tag ++ closeBrace :: utf8 suffix) := by
  have he : pfx ++ braced tag ++ suffix = pfx ++ '{' :: (tag ++ '}' :: suffix) := by simp [braced]
  rw [he, Text.utf8_append, utf8_open, Text.utf8_append, utf8_close]

/-- With no brace in front, a key falls on the slot of its tag. -/
theorem keySlot_tagged {pfx tag : Str} (suffix : Str) (hp : '{' ∉ pfx) (hne : tag ≠ []) (hclose : '}' ∉ tag) :
    keySlot (utf8 (pfx ++ braced tag ++ suffix)) = slotOf (utf8 tag) := by
  rw [keySlot, utf8_tagged, hashedPart_closed (mt (mem_openBrace pfx).1 hp) (mt (mem_closeBrace tag).1 hclose)
    (utf8_ne_nil hne)]

/-- A probe key falls on the slot of its tag. -/
theorem keySlot_probeKey {tag : Str} (hne : tag ≠ []) (hclose : '}' ∉ tag) :
    keySlot (probeKey tag) = slotOf (utf8 tag) := by
  have hfront : '{' ∉ ([] : Str) := by simp
  exact keySlot_tagged "#slotprobe".toList hfront hne hclose

/-- The suffixes of the module's own keys. -/
def reserved : List Str := ["#control".toList, "#firehose".toList, "#streams".toList]

/-- The suffixes of all keys the module writes: sanitized event names and the reserved ones. -/
def IsSuffix (suffix : Str) : Prop := (∃ event, suffix = sanitize event) ∨ suffix ∈ reserved

/-- The first open brace of a prefix opens a run that the prefix does not close, and the run with the brace of the tag
contributes nothing to the check: a coincidence that hides the brace. -/
def Hidden (pfx : Str) : Prop :=
  ∃ front rest, pfx = front ++ '{' :: rest ∧ '{' ∉ front ∧ '}' ∉ rest ∧ crc16 (utf8 (rest ++ ['{'])) = 0#16

/-- A prefix with an open run: what is hashed starts inside the prefix. -/
theorem keySlot_unclosed {front rest tag : Str} (suffix : Str) (hf : '{' ∉ front) (hr : '}' ∉ rest) (ht : '}' ∉ tag) :
    keySlot (utf8 (front ++ '{' :: rest ++ braced tag ++ suffix)) = slotOf (utf8 (rest ++ ['{']) ++ utf8 tag) := by
  have he : front ++ '{' :: rest ++ braced tag ++ suffix = front ++ braced (rest ++ ['{'] ++ tag) ++ suffix := by
    simp [braced]
  rw [he, keySlot_tagged suffix hf (by simp) (by simp [hr, ht]), Text.utf8_append]

/-- A prefix with a closed run: the tag is not what is hashed. -/
theorem keySlot_closed {front mid back : Str} (tail : Str) (hf : '{' ∉ front) (hm : '}' ∉ mid) (hne : mid ≠ []) :
    keySlot (utf8 (front ++ '{' :: (mid ++ '}' :: back) ++ tail)) = slotOf (utf8 mid) := by
  have he : front ++ '{' :: (mid ++ '}' :: back) ++ tail = front ++ braced mid ++ (back ++ tail) := by simp [braced]
  rw [he, keySlot_tagged _ hf hne hm]

/-- A prefix with an empty run: the whole key is hashed. -/
theorem keySlot_empty {front back : Str} (tail : Str) (hf : '{' ∉ front) :
    keySlot (utf8 (front ++ '{' :: '}' :: back ++ tail)) = slotOf (utf8 (front ++ '{' :: '}' :: back ++ tail)) := by
  have he : utf8 (front ++ '{' :: '}' :: back ++ tail) = utf8 front ++
      openBrace :: closeBrace :: utf8 (back ++ tail) := by
    rw [List.append_assoc, Text.utf8_append, List.cons_append, List.cons_append, utf8_open, utf8_close]
  rw [keySlot, he, hashedPart_empty (mt (mem_openBrace front).1 hf)]

/-- Every key under a prefix falls on the slot of its tag. -/
def SlotsAgree (pfx : Str) : Prop :=
  ∀ tag, tag ≠ [] → '{' ∉ tag → '}' ∉ tag → ∀ suffix, IsSuffix suffix →
    keySlot (utf8 (pfx ++ braced tag ++ suffix)) = slotOf (utf8 tag)

/-- If the slots agree, the prefix does not close the run that its first brace opens. -/
theorem SlotsAgree.unclosed {front rest : Str} (h : SlotsAgree (front ++ '{' :: rest)) (hf : '{' ∉ front) :
    '}' ∉ rest := by
  intro hr
  obtain ⟨mid, back, rfl, hm⟩ := List.eq_append_cons_of_mem hr
  have hb : IsSuffix ['b'] := Or.inl ⟨['b'], by decide⟩
  have hc : IsSuffix ['c'] := Or.inl ⟨['c'], by decide⟩
  have hslots := fun (tag : Str) (ht : tag = ['a'] ∨ tag = ['b']) (suffix : Str) (hs : IsSuffix suffix) =>
    h tag (by rcases ht with rfl | rfl <;> simp) (by rcases ht with rfl | rfl <;> decide)
      (by rcases ht with rfl | rfl <;> decide) suffix hs
  by_cases hmid : mid = []
  · -- the whole key is hashed, and two suffixes give two slots
    subst hmid
    have h₁ := hslots ['a'] (Or.inl rfl) _ hb
    have h₂ := hslots ['a'] (Or.inl rfl) _ hc
    rw [List.nil_append, List.append_assoc, keySlot_empty _ hf, ← List.append_assoc, Text.utf8_append] at h₁ h₂
    exact slot_last_ne _ (h₁.trans h₂.symm)
  · -- a text of the prefix is hashed, and two tags have two slots
    have h₁ := hslots ['a'] (Or.inl rfl) _ hb
    have h₂ := hslots ['b'] (Or.inr rfl) _ hb
    rw [List.append_assoc, keySlot_closed _ hf hm hmid] at h₁ h₂
    exact absurd (h₁.symm.trans h₂) (by decide)

/-- If the slots agree and the prefix has a brace, the brace is hidden. -/
theorem SlotsAgree.hidden {pfx : Str} (h : SlotsAgree pfx) (hp : '{' ∈ pfx) : Hidden pfx := by
  obtain ⟨front, rest, rfl, hf⟩ := List.eq_append_cons_of_mem hp
  have hr := h.unclosed hf
  refine ⟨front, rest, rfl, hf, hr, ?_⟩
  have hb : IsSuffix ['b'] := Or.inl ⟨['b'], by decide⟩
  have h₁ := h ['a'] (by simp) (by decide) (by decide) _ hb
  have h₂ := h ['a', 'a'] (by simp) (by decide) (by decide) _ hb
  rw [keySlot_unclosed _ hf hr (by decide), slot_append_iff] at h₁ h₂
  exact eq_zero_of_high h₁ h₂

theorem slotsAgree_of_no_brace {pfx : Str} (hp : '{' ∉ pfx) : SlotsAgree pfx := by
  intro tag hne _ hclose suffix _
  exact keySlot_tagged suffix hp hne hclose

theorem slotsAgree_of_hidden {pfx : Str} (hp : Hidden pfx) : SlotsAgree pfx := by
  obtain ⟨front, rest, rfl, hf, hr, hz⟩ := hp
  intro tag _ _ hclose suffix _
  have hzero : ∀ n, crcByte^[n] 0#16 = 0#16 := fun n => (crcByte_linear.iterate n).map_zero
  rw [keySlot_unclosed suffix hf hr hclose, slot_append_iff, hz, hzero]
  rfl

/-- **When the keys of a node fall on the probed slot.** For every tag that a probe accepted and every suffix, the key
of prefix, tag and suffix falls on the slot of the probe key, which is that of the tag, if and only if the prefix has no
open brace, the coincidence of a hidden one apart. -/
theorem keySlots_agree_iff (pfx : Str) :
    (∀ env st tag, tag ≠ [] → '{' ∉ tag → '}' ∉ tag → (probeTagOwned env st tag).1 = .ok () →
      ∀ suffix, IsSuffix suffix → keySlot (utf8 (pfx ++ braced tag ++ suffix)) = keySlot (probeKey tag) ∧
        keySlot (probeKey tag) = (crc16 (utf8 tag)).toNat % slotCount) ↔ '{' ∉ pfx ∨ Hidden pfx := by
  constructor
  · intro h
    have hagree : SlotsAgree pfx := by
      intro tag hne hopen hclose suffix hs
      -- a server that refuses nothing accepts every probe
      have hs' := h .calm (.fresh .defaults .empty) tag hne hopen hclose rfl suffix hs
      exact hs'.1.trans hs'.2
    by_cases hp : '{' ∈ pfx
    · exact Or.inr (hagree.hidden hp)
    · exact Or.inl hp
  · intro h env st tag hne hopen hclose _ suffix hs
    have hagree : SlotsAgree pfx := by
      rcases h with h | h
      · exact slotsAgree_of_no_brace h
      · exact slotsAgree_of_hidden h
    have hprobe := keySlot_probeKey hne hclose
    exact ⟨(hagree tag hne hopen hclose suffix hs).trans hprobe.symm, hprobe⟩

/-- A prefix with braces of its own is accepted, and takes the keys of a node off the slot that was probed. -/
theorem braced_prefix_leaves_slot : validatePrefix "a\x7bb\x7d:".toList = .ok () ∧
    (probeTagOwned .calm (.fresh .defaults .empty) "06S".toList).1 = .ok () ∧
    keySlot (utf8 ("a\x7bb\x7d:".toList ++ braced "06S".toList ++ sanitize "expired".toList)) ≠
      keySlot (probeKey "06S".toList) := by
  refine ⟨by decide, rfl, by decide +kernel⟩

end EventStream

import EventStream.Lib.Glob
import EventStream.Settings

/-!
# The key filter's matcher

`globMatch` walks the pattern with an index, gives up early through a flag that all its calls share, and stops at a
depth of 1000. Here it is compared with the plain meaning of a pattern.

- `token` and `tokens`: what a pattern says, read from left to right; `tokens_literal_star`: a text with a star behind
  it;
- `classLoop_spec` and `matchByte_spec`: one token, as the code reads it;
- `globMatchImpl_isSome`: no index is ever out of bounds;
- `starLoop_spec` and `globMatchImpl_spec`: the search after a star, and the whole search;
- `globMatch_of_depth`, `globMatch_nil`: what it does below the depth of the guard, and on the empty string;
- `globMatch_exact`: the matcher is the plain one, up to 1000 runs of stars and on strings that are not empty.
-/

namespace EventStream

open Text (Bytes)

open Glob (Token accepts starRuns starDepth Hopeless)

/-! ## What a pattern says -/

/-- A member of a class; the endpoints of a range stand in either order. -/
inductive Member
  | byte (b : UInt8)
  | range (a b : UInt8)

def Member.has (c : UInt8) : Member → Bool
  | byte b => b = c
  | range a b => (a ≤ c && c ≤ b) || (b ≤ c && c ≤ a)

/-- The members of a class, up to its closing bracket or the end of the pattern, and what follows it. -/
def readClass : Bytes → List Member × Bytes
  | [] => ([], [])
  | 92 :: b :: rest => (.byte b :: (readClass rest).1, (readClass rest).2)
  | 93 :: rest => ([], rest)
  | a :: 45 :: b :: rest => (.range a b :: (readClass rest).1, (readClass rest).2)
  | a :: rest => (.byte a :: (readClass rest).1, (readClass rest).2)

/-- The token that starts with a byte, and what follows it. -/
def token : UInt8 → Bytes → Token UInt8 × Bytes
  | 42, rest => (.star, rest)
  | 63, rest => (.one fun _ => true, rest)
  | 91, 94 :: rest => (.one fun c => !(readClass rest).1.any (Member.has c), (readClass rest).2)
  | 91, rest => (.one fun c => (readClass rest).1.any (Member.has c), (readClass rest).2)
  | 92, b :: rest => (.one fun c => b = c, rest)
  | p, rest => (.one fun c => p = c, rest)

theorem readClass_length (p : Bytes) : (readClass p).2.length ≤ p.length := by
  fun_induction readClass p <;> simp only [List.length_cons, List.length_nil] <;> omega

theorem token_length (p : UInt8) (rest : Bytes) : (token p rest).2.length ≤ rest.length := by
  fun_cases token p rest
  case case3 rest =>
    have := readClass_length rest
    simp only [List.length_cons]
    omega
  case case4 => exact readClass_length rest
  case case5 => simp
  all_goals exact le_rfl

/-- The tokens of a pattern. -/
def tokens : Bytes → List (Token UInt8)
  | [] => []
  | p :: rest => (token p rest).1 :: tokens (token p rest).2
termination_by p => p.length
decreasing_by exact Nat.lt_succ_of_le (token_length p rest)

theorem tokens_nil : tokens [] = [] := by rw [tokens]

theorem tokens_cons (p : UInt8) (rest : Bytes) : tokens (p :: rest) = (token p rest).1 :: tokens (token p rest).2 := by
  rw [tokens]

theorem token_of_ne_star {p : UInt8} (hp : p ≠ 42) (rest : Bytes) : ∃ has, (token p rest).1 = .one has := by
  fun_cases token p rest
  case case1 => exact absurd rfl hp
  all_goals exact ⟨_, rfl⟩

/-- The stars at the start of a pattern, and the rest. -/
theorem tokens_stars (p : Bytes) :
    tokens p = List.replicate (p.takeWhile (· = 42)).length .star ++ tokens (p.dropWhile (· = 42)) := by
  induction p with
  | nil => simp [tokens_nil]
  | cons b rest ih =>
    by_cases hb : b = 42
    · subst hb
      rw [tokens_cons]
      simp only [token, ih, decide_true, List.takeWhile_cons_of_pos, List.dropWhile_cons_of_pos, List.length_cons,
        List.replicate_succ, List.cons_append]
    · simp [hb]

theorem tokens_after_stars {p rest : Bytes} {q : UInt8} (h : p.dropWhile (· = 42) = q :: rest) :
    ∃ has ts, tokens (q :: rest) = .one has :: ts := by
  have hq : q ≠ 42 := by
    have := List.head_dropWhile_not (fun b : UInt8 => decide (b = 42)) (l := p)
      (by rw [h]; exact List.cons_ne_nil q rest)
    simpa [h] using this
  obtain ⟨has, hone⟩ := token_of_ne_star hq rest
  rw [tokens_cons, hone]
  exact ⟨has, _, rfl⟩

/-- A byte that stands for itself. -/
def isLiteral (b : UInt8) : Bool := b ≠ 42 && b ≠ 63 && b ≠ 91 && b ≠ 92

theorem tokens_literal_star {p : Bytes} (h : ∀ b ∈ p, isLiteral b = true) :
    tokens (p ++ [42]) = p.map (fun b => .one fun c => b = c) ++ [.star] := by
  induction p with
  | nil => rw [List.nil_append, tokens_cons, token, tokens_nil]; rfl
  | cons b p ih =>
    obtain ⟨hb, hp⟩ := List.forall_mem_cons.1 h
    simp only [isLiteral, ne_eq, Bool.and_eq_true, decide_eq_true_eq] at hb
    have htoken : token b (p ++ [42]) = (.one fun c => b = c, p ++ [42]) := by
      fun_cases token b (p ++ [42])
      case case1 => exact absurd rfl hb.1.1.1
      case case2 => exact absurd rfl hb.1.1.2
      case case3 | case4 => exact absurd rfl hb.1.2
      case case5 => exact absurd rfl hb.2
      case case6 => rfl
    rw [List.cons_append, tokens_cons, htoken, ih hp, List.map_cons, List.cons_append]

/-! ## Positions in a pattern -/

section Positions

variable {pat rest : Bytes} {pi : Nat} {p c : UInt8}

theorem length_of_drop (h : pat.drop pi = p :: rest) : pat.length = pi + 1 + rest.length := by
  have := congrArg List.length h
  rw [List.length_drop, List.length_cons] at this
  omega

theorem drop_add_of_drop {l : Bytes} (h : pat.drop pi = l) (k : Nat) : pat.drop (pi + k) = l.drop k := by
  rw [← h, List.drop_drop]

theorem getElem?_add_of_drop {l : Bytes} (h : pat.drop pi = l) (k : Nat) : pat[pi + k]? = l[k]? := by
  rw [← h, List.getElem?_drop]

theorem starsFrom_of_drop {l : Bytes} (h : pat.drop pi = l) : starsFrom pat pi = (l.takeWhile (· = 42)).length := by
  rw [starsFrom, h]

theorem drop_starsFrom (pat : Bytes) (pi : Nat) :
    pat.drop (pi + starsFrom pat pi) = (pat.drop pi).dropWhile (· = 42) := by
  rw [← List.drop_drop, starsFrom]
  induction pat.drop pi with
  | nil => rfl
  | cons b l ih => by_cases hb : b = 42 <;> simp [hb, ih]

/-- Swapping the endpoints into order is trying both orders. -/
theorem has_range (a b c : UInt8) : (min a b ≤ c && c ≤ max a b) = Member.has c (.range a b) := by
  have hmin : min a b = if a ≤ b then a else b := rfl
  have hmax : max a b = if a ≤ b then b else a := rfl
  rw [Bool.eq_iff_iff]
  simp only [Member.has, Bool.and_eq_true, Bool.or_eq_true, decide_eq_true_eq, UInt8.le_iff_toNat_le, hmin, hmax]
  split <;> omega

/-- The loop over a class reads its members, and stops at the last position that belongs to it. -/
theorem classLoop_spec (pat : Bytes) (c : UInt8) (fuel : Nat) :
    ∀ pi matched, 0 < pi → pi ≤ pat.length → pat.length - pi < fuel →
      ∃ last, pi ≤ last + 1 ∧ last < pat.length ∧ pat.drop (last + 1) = (readClass (pat.drop pi)).2 ∧
        classLoop pat c fuel pi matched = some (last, matched || (readClass (pat.drop pi)).1.any (Member.has c)) := by
  induction fuel with
  | zero => intro pi matched _ _ hf; omega
  | succ fuel ih =>
    intro pi matched hpos hle hf
    -- The cases are those of the class as a text; in each, the loop goes on behind the member it has read.
    generalize hl : pat.drop pi = l
    have hlength : pat.length - pi = l.length := by rw [← hl, List.length_drop]
    have hhead : pat[pi]? = l[0]? := getElem?_add_of_drop hl 0
    have hget := getElem?_add_of_drop hl
    have hdrop := drop_add_of_drop hl
    have next : ∀ k (more : Bool), 0 < k → k ≤ l.length →
        ∃ last, pi ≤ last + 1 ∧ last < pat.length ∧ pat.drop (last + 1) = (readClass (l.drop k)).2 ∧
          classLoop pat c fuel (pi + k) (matched || more) =
            some (last, matched || (more || (readClass (l.drop k)).1.any (Member.has c))) := by
      intro k more hk hkl
      obtain ⟨last, h1, h2, h3, h4⟩ := ih (pi + k) (matched || more) (by omega) (by omega) (by omega)
      rw [hdrop k] at h3 h4
      exact ⟨last, by omega, h2, h3, by rw [h4, Bool.or_assoc]⟩
    fun_cases readClass l
    case case1 =>
      rw [List.length_nil] at hlength
      refine ⟨pi - 1, by omega, by omega, ?_, ?_⟩
      · rw [Nat.sub_add_cancel hpos, hl]
      · simp [classLoop, show pat.length ≤ pi by omega, show pi ≠ 0 by omega]
    case case2 b rest =>
      obtain ⟨last, h1, h2, h3, h4⟩ := next 2 (decide (b = c)) (by omega) (by simp)
      simp only [List.length_cons] at hlength
      refine ⟨last, h1, h2, h3, ?_⟩
      rw [classLoop, if_neg (by omega), hhead, hget 1]
      simpa [show 2 ≤ pat.length - pi by omega, Member.has] using h4
    case case3 rest =>
      simp only [List.length_cons] at hlength
      refine ⟨pi, by omega, by omega, hdrop 1, ?_⟩
      rw [classLoop, if_neg (by omega), hhead]
      simp
    case case4 a b rest hesc hclose =>
      obtain ⟨last, h1, h2, h3, h4⟩ := next 3 (min a b ≤ c && c ≤ max a b) (by omega) (by simp)
      simp only [List.length_cons] at hlength
      refine ⟨last, h1, h2, h3, ?_⟩
      rw [classLoop, if_neg (by omega), hhead, hget 1, hget 2]
      rw [has_range] at h4
      have hesc' : a ≠ 92 := hesc
      have hclose' : a ≠ 93 := hclose
      simpa [hesc', hclose', show 3 ≤ pat.length - pi by omega, has_range] using h4
    case case5 a rest hesc hclose hrange =>
      obtain ⟨last, h1, h2, h3, h4⟩ := next 1 (decide (a = c)) (by omega) (by simp)
      simp only [List.length_cons] at hlength
      refine ⟨last, h1, h2, h3, ?_⟩
      have hesc' : ¬ (a = 92 ∧ 2 ≤ pat.length - pi) := by
        rintro ⟨rfl, h⟩
        cases rest with
        | nil => simp at hlength; omega
        | cons b rest => exact hesc b rest rfl rfl
      have hrange' : ¬ (3 ≤ pat.length - pi ∧ rest[0]? = some 45) := by
        rintro ⟨h, h0⟩
        match rest, hrange with
        | [], _ => simp at h0
        | [b], _ => simp at hlength; omega
        | d :: b :: rest, hrange => exact hrange b rest (by simpa using h0)
      rw [classLoop, if_neg (by omega), hhead, hget 1]
      have hclose' : a ≠ 93 := hclose
      simpa [hesc', hrange', hclose', Member.has] using h4

/-- One byte against the token at a position. -/
theorem matchByte_spec (h : pat.drop pi = p :: rest) (hp : p ≠ 42) (c : UInt8) :
    ∃ last has, pi ≤ last ∧ last < pat.length ∧ tokens (p :: rest) = .one has :: tokens (pat.drop (last + 1)) ∧
      matchByte pat pi c = some (last, has c) := by
  have hlength := length_of_drop h
  have hhead : pat[pi]? = some p := getElem?_add_of_drop h 0
  have hget := getElem?_add_of_drop h
  have hdrop := drop_add_of_drop h
  rw [tokens_cons, matchByte, hhead]
  fun_cases token p rest
  case case1 => exact absurd rfl hp
  case case2 =>
    refine ⟨pi, fun _ => true, le_rfl, by omega, ?_, by simp⟩
    rw [hdrop 1]
    rfl
  case case3 rest =>
    obtain ⟨last, h1, h2, h3, h4⟩ := classLoop_spec pat c (pat.length + 1) (pi + 2) false (by omega)
      (by rw [hlength, List.length_cons]; omega) (by omega)
    rw [hdrop 2] at h3 h4
    refine ⟨last, _, by omega, h2, by rw [h3]; rfl, ?_⟩
    simp [hget 1, h4]
  case case4 hneg =>
    obtain ⟨last, h1, h2, h3, h4⟩ :=
      classLoop_spec pat c (pat.length + 1) (pi + 1) false (by omega) (by omega) (by omega)
    rw [hdrop 1] at h3 h4
    refine ⟨last, _, by omega, h2, by rw [h3]; rfl, ?_⟩
    have hneg' : rest[0]? ≠ some 94 := by
      intro h0
      cases rest with
      | nil => simp at h0
      | cons b rest => exact hneg rest (by simpa using h0)
    simp [hget 1, hneg', h4]
  case case5 b rest =>
    rw [List.length_cons] at hlength
    refine ⟨pi + 1, _, by omega, by omega, by rw [hdrop 2]; rfl, ?_⟩
    simp [hget 1, show 2 ≤ pat.length - pi by omega]
  case case6 _ hany hclass _ hesc =>
    refine ⟨pi, _, le_rfl, by omega, by rw [hdrop 1]; rfl, ?_⟩
    have hany' : p ≠ 63 := hany
    have hclass' : p ≠ 91 := hclass
    have hesc' : ¬ (p = 92 ∧ 2 ≤ pat.length - pi) := by
      rintro ⟨rfl, h2⟩
      cases rest with
      | nil => rw [List.length_nil] at hlength; omega
      | cons b rest => exact hesc b rest rfl rfl
    simp [hany', hclass', hesc']

end Positions

/-! ## No index is out of bounds -/

theorem starLoop_isSome {rest : Nat → Bool → Option (Bool × Bool)} (hrest : ∀ si skip, (rest si skip).isSome)
    (left si : Nat) (skip : Bool) : (starLoop rest left si skip).isSome := by
  induction left generalizing si skip with
  | zero => rfl
  | succ left ih =>
    obtain ⟨⟨matched, skip'⟩, hr⟩ := Option.isSome_iff_exists.1 (hrest si skip)
    rw [starLoop, hr]
    cases matched <;> cases skip' <;> simp [ih]

theorem exists_drop_eq_cons {s : Bytes} {i : Nat} (h : i < s.length) : ∃ c rest, s.drop i = c :: rest :=
  ⟨_, _, List.drop_eq_getElem_cons h⟩

/-- With a star at the position, the stars that follow it end within the pattern. -/
theorem starsFrom_le (pat : Bytes) (pi : Nat) : starsFrom pat pi ≤ pat.length - pi := by
  rw [starsFrom, ← List.length_drop]
  exact (List.takeWhile_prefix _).length_le

theorem globMatchImpl_isSome (pat s : Bytes) (fuel : Nat) :
    ∀ pi si skip nesting, pi ≤ pat.length → pat.length - pi < fuel →
      (globMatchImpl pat s fuel pi si skip nesting).isSome := by
  induction fuel with
  | zero => intro pi si skip nesting _ hf; omega
  | succ fuel ih =>
    intro pi si skip nesting hle hf
    rw [globMatchImpl]
    split
    · rfl
    split
    · rename_i hlt
      obtain ⟨p, rest, h⟩ := exists_drop_eq_cons hlt.1
      obtain ⟨c, more, hs⟩ := exists_drop_eq_cons hlt.2
      have hhead : pat[pi]? = some p := getElem?_add_of_drop h 0
      have hc : s[si]? = some c := getElem?_add_of_drop hs 0
      rw [hhead, hc]
      by_cases hp : p = 42
      · have hstars := starsFrom_le pat (pi + 1)
        simp only [Option.bind_eq_bind, Option.bind_some, hp, if_true]
        split
        · rfl
        · apply starLoop_isSome
          intro si skip
          exact ih _ _ _ _ (by omega) (by omega)
      · obtain ⟨last, has, h1, h2, -, h4⟩ := matchByte_spec h hp c
        simp only [Option.bind_eq_bind, Option.bind_some, hp, if_false, h4]
        split
        · rfl
        split
        · rfl
        · exact ih _ _ _ _ (by omega) (by omega)
    · rfl

/-! ## The search -/

/-- What a call of the search returns: whether the tokens accept the string, with the flag raised only on a failure that
no later start can mend. -/
def Answers (ts : List (Token UInt8)) (t : Bytes) (r : Option (Bool × Bool)) : Prop :=
  ∃ skip, r = some (accepts ts t, skip) ∧ (skip = true → accepts ts t = false → Hopeless ts t)

/-- The search after a star tries what the star may skip, and stops early only when the rest is without hope. -/
theorem starLoop_spec {ts : List (Token UInt8)} {s : Bytes} (rest : Nat → Bool → Option (Bool × Bool))
    (hnil : accepts ts [] = false) (hrest : ∀ si, si < s.length → Answers ts (s.drop si) (rest si false)) (left : Nat) :
    ∀ si, si + left = s.length →
      ∃ skip, starLoop rest left si false = some (accepts (.star :: ts) (s.drop si), skip) := by
  induction left with
  | zero =>
    intro si hsi
    rw [List.drop_eq_nil_of_le (by omega), Glob.accepts_star_nil, hnil]
    exact ⟨true, rfl⟩
  | succ left ih =>
    intro si hsi
    obtain ⟨skip, hr, hskip⟩ := hrest si (by omega)
    obtain ⟨c, more, hs⟩ := exists_drop_eq_cons (show si < s.length by omega)
    have hmore : s.drop (si + 1) = more := drop_add_of_drop hs 1
    rw [hs] at hr hskip
    rw [starLoop, hr, hs]
    cases hm : accepts ts (c :: more) with
    | true => exact ⟨skip, by simp [Glob.accepts_star_cons, hm]⟩
    | false =>
      cases skip with
      | true =>
        have hno := Glob.accepts_star_eq_false.2 (hskip rfl hm)
        exact ⟨true, by simp [hno]⟩
      | false =>
        obtain ⟨skip, hnext⟩ := ih (si + 1) (by omega)
        rw [hmore] at hnext
        exact ⟨skip, by simp [hnext, Glob.accepts_star_cons, hm]⟩

/-- Behind the last byte of the string only stars may be left. -/
theorem accepts_tokens_nil {pat : Bytes} {pi : Nat} (hle : pi ≤ pat.length) :
    accepts (tokens (pat.drop pi)) [] = decide (pi + starsFrom pat pi = pat.length) := by
  have hstars := tokens_stars (pat.drop pi)
  have hsplit := congrArg List.length (List.takeWhile_append_dropWhile (p := (· = 42)) (l := pat.drop pi))
  rw [List.length_append, List.length_drop, ← starsFrom_of_drop rfl] at hsplit
  rw [hstars, Glob.accepts_replicate_star_nil]
  cases hrest : (pat.drop pi).dropWhile (· = 42) with
  | nil =>
    rw [hrest, List.length_nil] at hsplit
    simp only [tokens_nil, Glob.accepts_nil, List.isEmpty_nil]
    exact (decide_eq_true (by omega)).symm
  | cons q more =>
    rw [hrest, List.length_cons] at hsplit
    obtain ⟨has, ts, hone⟩ := tokens_after_stars hrest
    rw [hone, Glob.accepts_one_nil]
    exact (decide_eq_false (by omega)).symm

/-- The tokens at a star: its run, and what stands behind it. -/
theorem tokens_at_star {pat rest : Bytes} {pi : Nat} (h : pat.drop pi = 42 :: rest) :
    tokens (42 :: rest) = List.replicate (starsFrom pat (pi + 1) + 1) .star ++
      tokens (pat.drop (pi + starsFrom pat (pi + 1) + 1)) := by
  have hrest : pat.drop (pi + 1) = rest := drop_add_of_drop h 1
  have hdrop := drop_starsFrom pat (pi + 1)
  rw [Nat.add_right_comm, hdrop, hrest, starsFrom_of_drop hrest, tokens_cons, List.replicate_succ, List.cons_append,
    ← tokens_stars rest]
  rfl

theorem globMatchImpl_spec (pat s : Bytes) (fuel : Nat) :
    ∀ pi si nesting, pi ≤ pat.length → si < s.length → pat.length - pi < fuel →
      nesting + starDepth (tokens (pat.drop pi)) ≤ 1000 →
      Answers (tokens (pat.drop pi)) (s.drop si) (globMatchImpl pat s fuel pi si false nesting) := by
  induction fuel with
  | zero => intro pi si nesting _ _ hf; omega
  | succ fuel ih =>
    intro pi si nesting hle hsi hf hdepth
    obtain ⟨c, more, hs⟩ := exists_drop_eq_cons hsi
    have hc : s[si]? = some c := getElem?_add_of_drop hs 0
    have hmore : s.drop (si + 1) = more := drop_add_of_drop hs 1
    rw [globMatchImpl, if_neg (by omega)]
    by_cases hend : pi = pat.length
    · rw [if_neg (by omega), hs, List.drop_eq_nil_of_le (by omega), tokens_nil]
      exact ⟨false, by simp [show si ≠ s.length by omega], by simp⟩
    obtain ⟨p, rest, h⟩ := exists_drop_eq_cons (show pi < pat.length by omega)
    have hhead : pat[pi]? = some p := getElem?_add_of_drop h 0
    rw [if_pos (by omega), hhead, hc]
    by_cases hp : p = 42
    · subst hp
      have hstars := starsFrom_le pat (pi + 1)
      have hlength := length_of_drop h
      rw [h, tokens_at_star h] at hdepth ⊢
      simp only [Option.bind_eq_bind, Option.bind_some, if_true]
      split
      · rename_i hlast
        rw [List.drop_eq_nil_of_le (by omega), tokens_nil]
        refine ⟨false, ?_, by simp⟩
        rw [Glob.accepts_replicate_star, Glob.accepts_star.2 ⟨[], List.nil_suffix, rfl⟩]
      · rename_i hlast
        have hbehind : pat.drop (pi + starsFrom pat (pi + 1) + 1) = (pat.drop (pi + 1)).dropWhile (· = 42) := by
          rw [Nat.add_right_comm, drop_starsFrom]
        obtain ⟨q, more', hq⟩ := exists_drop_eq_cons (show pi + starsFrom pat (pi + 1) + 1 < pat.length by omega)
        obtain ⟨has, ts, hts⟩ := tokens_after_stars (hbehind.symm.trans hq)
        rw [hq, hts, Glob.starDepth_replicate_star] at hdepth
        have hrest : ∀ si, si < s.length → Answers (.one has :: ts) (s.drop si)
            (globMatchImpl pat s fuel (pi + starsFrom pat (pi + 1) + 1) si false (nesting + 1)) := by
          intro si hsi
          have := ih (pi + starsFrom pat (pi + 1) + 1) si (nesting + 1) (by omega) hsi (by omega)
            (by rw [hq, hts, Glob.starDepth_one]; omega)
          rwa [hq, hts] at this
        obtain ⟨skip, hloop⟩ := starLoop_spec
          (fun si skip => globMatchImpl pat s fuel (pi + starsFrom pat (pi + 1) + 1) si skip (nesting + 1)) rfl hrest
          (s.length - si) si (by omega)
        rw [hq, hts]
        refine ⟨skip, by rw [hloop, Glob.accepts_replicate_star], ?_⟩
        intro _ hno
        rw [Glob.accepts_replicate_star] at hno
        exact (Glob.accepts_star_eq_false.1 hno).replicate_star _
    · obtain ⟨last, has, h1, h2, h3, h4⟩ := matchByte_spec h hp c
      rw [h, h3] at hdepth ⊢
      simp only [Option.bind_eq_bind, Option.bind_some, hp, if_false, h4]
      rw [hs]
      cases hhas : has c with
      | false => exact ⟨false, by simp [hhas], by simp⟩
      | true =>
        by_cases hlast : si + 1 = s.length
        · have hnil : more = [] := by rw [← hmore, List.drop_eq_nil_of_le (by omega)]
          refine ⟨false, ?_, by simp⟩
          simp [hlast, hnil, hhas, accepts_tokens_nil (show last + 1 ≤ pat.length by omega)]
        · obtain ⟨skip, hr, hskip⟩ := ih (last + 1) (si + 1) nesting (by omega) (by omega) (by omega) hdepth
          rw [hmore] at hr hskip
          refine ⟨skip, by simp [hlast, hhas, hr], ?_⟩
          intro hset hno
          rw [Glob.accepts_one_cons, hhas, Bool.true_and] at hno
          exact (hskip hset hno).one

/-- Below the depth of the guard, and on a string that is not empty, the matcher is the plain one. -/
theorem globMatch_of_depth {pat s : Bytes} (hdepth : starDepth (tokens pat) ≤ 1000) (hs : s ≠ []) :
    globMatch pat s = some (accepts (tokens pat) s) := by
  have hpos : 0 < s.length := List.length_pos_iff.2 hs
  obtain ⟨skip, hr, -⟩ := globMatchImpl_spec pat s (pat.length + 1) 0 0 0 (by omega) hpos (by omega)
    (by rwa [List.drop_zero, Nat.zero_add])
  rw [globMatch, hr]
  rfl

/-- The loop is not entered on the empty string, so that only the empty pattern matches it. -/
theorem globMatch_nil {pat : Bytes} (h : pat ≠ []) : globMatch pat [] = some false := by
  cases pat with
  | nil => exact absurd rfl h
  | cons p rest => simp [globMatch, globMatchImpl]

/-- The matcher never leaves the pattern or the string, and it finds what the plain matcher finds. -/
theorem globMatch_exact (pat s : Bytes) :
    (globMatch pat s).isSome ∧
      (starRuns (tokens pat) ≤ 1000 → s ≠ [] → globMatch pat s = some (accepts (tokens pat) s)) := by
  constructor
  · rw [globMatch, Option.isSome_map]
    exact globMatchImpl_isSome pat s (pat.length + 1) 0 0 false 0 (by omega) (by omega)
  · intro hruns hs
    exact globMatch_of_depth ((Glob.starDepth_le_starRuns (tokens pat)).trans hruns) hs

/-- The bytes of `*[^b-a]\?*`, which has two active stars, a class whose range is written backwards and an escape. -/
def backwardsPattern : Bytes := [42, 91, 94, 98, 45, 97, 93, 92, 63, 42]

theorem globMatch_exact_backwards :
    starRuns (tokens backwardsPattern) ≤ 1000 ∧ accepts (tokens backwardsPattern) [97, 98, 99, 63] = true ∧
      globMatch backwardsPattern [97, 98, 99, 63] = some true := by
  have hruns : starRuns (tokens backwardsPattern) ≤ 1000 := by decide +kernel
  have hacc : accepts (tokens backwardsPattern) [97, 98, 99, 63] = true := by decide +kernel
  refine ⟨hruns, hacc, ?_⟩
  rw [← hacc]
  exact (globMatch_exact backwardsPattern [97, 98, 99, 63]).2 hruns (List.cons_ne_nil _ _)

end EventStream

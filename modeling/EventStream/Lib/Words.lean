import EventStream.Lib.Text

/-!
# Lines, words and joined fields

Taking a text apart at line breaks and white space, as the standard string methods do, and looking for a text in a
joined list of fields.

- `lines` and `lines_flatMap`: the lines of a text, and of a text made of lines;
- `splitWhitespace` and `splitWhitespace_intercalate`: the words of a line, and of words joined by blanks;
- `infix_intercalate`: a text without the separator occurs in joined fields exactly if it occurs in one of them.
-/

namespace Text

/-! ## Lines -/

/-- A line without a carriage return at its end. -/
def stripCr (l : Str) : Str := if l.getLast? = some '\r' then l.dropLast else l

/-- The lines of a text; its last one needs no line break. -/
def lines (s : Str) : List Str :=
  let pieces := s.splitOn '\n'
  pieces.dropLast.map stripCr ++ (pieces.getLast?.filter (· ≠ [])).toList

theorem lines_append {l : Str} (h : '\n' ∉ l) (rest : Str) : lines (l ++ '\n' :: rest) = stripCr l :: lines rest := by
  have hs : (l ++ '\n' :: rest).splitOn '\n' = l :: rest.splitOn '\n' := List.splitOn_append_cons_self_of_not_mem h _
  have hne : rest.splitOn '\n' ≠ [] := List.splitOn_ne_nil _ _
  simp only [lines, hs, List.dropLast_cons_of_ne_nil hne, List.getLast?_cons_of_ne_nil hne, List.map_cons,
    List.cons_append]

theorem lines_flatMap {ls : List Str} (h : ∀ l ∈ ls, '\n' ∉ l) :
    lines (ls.flatMap (· ++ ['\n'])) = ls.map stripCr := by
  induction ls with
  | nil => rfl
  | cons l ls ih =>
    rw [List.flatMap_cons, List.append_assoc, List.singleton_append, lines_append (h l List.mem_cons_self),
      ih fun l' hl' => h l' (List.mem_cons_of_mem _ hl'), List.map_cons]

/-! ## Words -/

/-- The words of a text. -/
def splitWhitespace (s : Str) : List Str := (s.splitOnP isWhitespace).filter (· ≠ [])

/-- What white space cannot take apart. -/
structure IsWord (w : Str) : Prop where
  ne_nil : w ≠ []
  not_white : ∀ c ∈ w, isWhitespace c = false

theorem isWord_iff (w : Str) : (!w.isEmpty && w.all fun c => !isWhitespace c) = true ↔ IsWord w := by
  simp only [Bool.and_eq_true, Bool.not_eq_true', List.isEmpty_eq_false_iff, List.all_eq_true]
  exact ⟨fun h => ⟨h.1, h.2⟩, fun h => ⟨h.ne_nil, h.not_white⟩⟩

instance (w : Str) : Decidable (IsWord w) := decidable_of_iff _ (isWord_iff w)

theorem splitWhitespace_word {w : Str} (h : IsWord w) : splitWhitespace w = [w] := by
  rw [splitWhitespace, List.splitOnP_eq_singleton h.not_white]
  simp [h.ne_nil]

theorem splitWhitespace_append {w : Str} (h : IsWord w) (rest : Str) :
    splitWhitespace (w ++ ' ' :: rest) = w :: splitWhitespace rest := by
  rw [splitWhitespace, List.splitOnP_append_cons_of_forall_mem h.not_white _ (by decide), List.filter_cons_of_pos]
  · rfl
  · simpa using h.ne_nil

theorem splitWhitespace_intercalate {ws : List Str} (h : ∀ w ∈ ws, IsWord w) :
    splitWhitespace ([' '].intercalate ws) = ws := by
  induction ws with
  | nil => rfl
  | cons w ws ih =>
    cases ws with
    | nil => simpa using splitWhitespace_word (h w List.mem_cons_self)
    | cons w' ws =>
      rw [List.intercalate_cons_cons]
      rw [List.append_assoc, List.singleton_append, splitWhitespace_append (h w List.mem_cons_self),
        ih fun v hv => h v (List.mem_cons_of_mem _ hv)]

/-- A carriage return at the end of a line is white space. -/
theorem splitWhitespace_stripCr (l : Str) : splitWhitespace (stripCr l) = splitWhitespace l := by
  rw [stripCr]
  split
  · rename_i h
    obtain ⟨l', rfl⟩ := List.getLast?_eq_some_iff.1 h
    rw [List.dropLast_concat, splitWhitespace, splitWhitespace, List.splitOnP_append_cons _ _ (by decide)]
    simp
  · rfl

/-! ## Joined fields -/

section Fields

variable {α : Type*} {sub : List α} {c x : α}

theorem mem_intercalate {fields : List (List α)} (h : x ∈ [c].intercalate fields) : x = c ∨ ∃ f ∈ fields, x ∈ f := by
  induction fields with
  | nil => simp at h
  | cons f fields ih =>
    cases fields with
    | nil => exact .inr ⟨f, List.mem_cons_self, by simpa using h⟩
    | cons f' fields =>
      rw [List.intercalate_cons_cons, List.append_assoc, List.mem_append, List.singleton_append, List.mem_cons] at h
      rcases h with h | h | h
      · exact .inr ⟨f, List.mem_cons_self, h⟩
      · exact .inl h
      · rcases ih h with heq | ⟨g, hg, hx⟩
        · exact .inl heq
        · exact .inr ⟨g, List.mem_cons_of_mem f hg, hx⟩

/-- A text without the separator does not reach across it. -/
theorem infix_append_cons (hc : c ∉ sub) (a b : List α) : sub <:+: a ++ c :: b ↔ sub <:+: a ∨ sub <:+: b := by
  constructor
  · rintro ⟨s, t, h⟩
    rcases List.append_eq_append_iff.1 h with ⟨a', ha, -⟩ | ⟨c', hs, hb⟩
    · exact .inl ⟨s, a', ha.symm⟩
    cases c' with
    | nil => exact .inl ⟨s, [], by rw [hs, List.append_nil, List.append_nil]⟩
    | cons d c' =>
      rw [List.cons_append, List.cons.injEq] at hb
      obtain ⟨rfl, rfl⟩ := hb
      rcases List.append_eq_append_iff.1 hs with ⟨a', -, hsub⟩ | ⟨d, -, hd⟩
      · exact absurd (by rw [hsub]; simp) hc
      · cases d with
        | nil => exact absurd (by rw [← List.nil_append sub, ← hd]; simp) hc
        | cons e d =>
          rw [List.cons_append, List.cons.injEq] at hd
          exact .inr ⟨d, t, by rw [hd.2]⟩
  · rintro (h | h)
    · exact h.trans (List.prefix_append a _).isInfix
    · exact h.trans ((List.suffix_cons c b).trans (List.suffix_append a _)).isInfix

theorem infix_intercalate (hc : c ∉ sub) (hne : sub ≠ []) (fields : List (List α)) :
    sub <:+: [c].intercalate fields ↔ ∃ f ∈ fields, sub <:+: f := by
  induction fields with
  | nil => simp [hne]
  | cons f fields ih =>
    cases fields with
    | nil => simp
    | cons f' fields =>
      rw [List.intercalate_cons_cons, List.append_assoc, List.singleton_append, infix_append_cons hc, ih]
      exact (List.exists_mem_cons_iff _ f (f' :: fields)).symm

end Fields

end Text

import EventStream.Lib.Text

/-!
# JSON: the grammar of RFC 8259 and a parser complete for it

* `Spells v s` says that the text `s` is spelled by the grammar and denotes the value `v`; `JsonText v s` adds the
  whitespace around a whole document.
* `parse` is an executable recursive-descent parser.
* `parse_of_text`: every text of the grammar parses to the value it spells.
* `Number.ofInt` and `Number.toInt?`: integers as numbers without fraction and exponent.

Numbers keep the way they are written (`Number`): a reader that wants an integer has to see that there is neither a
fraction nor an exponent.
-/

namespace Rfc8259

open Text (Str)

/-! ## Values -/

/-- A number as written: its sign, integer digits, fraction digits, and exponent (letter, sign, digits). -/
structure Number where
  negative : Bool
  int : Str
  frac : Option Str
  exp : Option (Char × Option Char × Str)
  deriving DecidableEq, Repr

inductive Value
  | null
  | bool (b : Bool)
  | number (n : Number)
  | string (s : Str)
  | array (vs : List Value)
  | object (ms : List (Str × Value))

/-! ## The grammar -/

def isWs (c : Char) : Bool := c = ' ' || c = '\t' || c = '\n' || c = '\r'

/-- Insignificant whitespace. -/
def Ws (s : Str) : Prop := ∀ c ∈ s, isWs c = true

/-- The value of a hexadecimal digit of either case. -/
def hexVal (c : Char) : Option Nat :=
  if '0' ≤ c ∧ c ≤ '9' then some (c.toNat - 48)
  else if 'a' ≤ c ∧ c ≤ 'f' then some (c.toNat - 87)
  else if 'A' ≤ c ∧ c ≤ 'F' then some (c.toNat - 55)
  else none

/-- Four hexadecimal digits. -/
def hex4 (a b c d : Char) : Option Nat :=
  match hexVal a, hexVal b, hexVal c, hexVal d with
  | some a, some b, some c, some d => some (((a * 16 + b) * 16 + c) * 16 + d)
  | _, _, _, _ => none

def isHigh (n : Nat) : Bool := 0xD800 ≤ n && n < 0xDC00

def isLow (n : Nat) : Bool := 0xDC00 ≤ n && n < 0xE000

/-- The code point of a surrogate pair. -/
def pairValue (hi lo : Nat) : Nat := 0x10000 + (hi - 0xD800) * 0x400 + (lo - 0xDC00)

/-- The two-character escapes. -/
def shortEscape (c : Char) : Option Char :=
  if c = '"' then some '"'
  else if c = '\\' then some '\\'
  else if c = '/' then some '/'
  else if c = 'b' then some '\x08'
  else if c = 'f' then some '\x0c'
  else if c = 'n' then some '\n'
  else if c = 'r' then some '\r'
  else if c = 't' then some '\t'
  else none

/-- One character of a string and the ways to write it. -/
inductive CharText : Char → Str → Prop
  | plain {c : Char} (h : 0x20 ≤ c.toNat) (hq : c ≠ '"') (hb : c ≠ '\\') : CharText c [c]
  | short {c e : Char} (h : shortEscape e = some c) : CharText c ['\\', e]
  | unicode {a b c d : Char} {n : Nat} (h : hex4 a b c d = some n) (hh : isHigh n = false) (hl : isLow n = false) :
      CharText (Char.ofNat n) ['\\', 'u', a, b, c, d]
  | surrogates {a b c d e f g i : Char} {hi lo : Nat} (h : hex4 a b c d = some hi) (h' : hex4 e f g i = some lo)
      (hh : isHigh hi = true) (hl : isLow lo = true) :
      CharText (Char.ofNat (pairValue hi lo)) ['\\', 'u', a, b, c, d, '\\', 'u', e, f, g, i]

/-- The characters between the quotes of a string. -/
inductive Body : Str → Str → Prop
  | nil : Body [] []
  | cons {c : Char} {s t u : Str} (h : CharText c s) (ht : Body t u) : Body (c :: t) (s ++ u)

/-- A character that a string may hold unescaped. -/
def isPlain (c : Char) : Bool := 0x20 ≤ c.toNat && c ≠ '"' && c ≠ '\\'

/-- A string of such characters is written as it is. -/
theorem body_of_plain : ∀ {s : Str}, s.all isPlain = true → Body s s
  | [], _ => .nil
  | c :: s, h => by
    simp only [List.all_cons, Bool.and_eq_true, isPlain, decide_eq_true_eq] at h
    exact .cons (.plain h.1.1.1 h.1.1.2 h.1.2) (body_of_plain (by simpa [isPlain] using h.2))

/-- No whitespace. -/
theorem ws_nil : Ws [] := fun _ h => absurd h (List.not_mem_nil)

/-- A run of at least one digit. -/
def Digits (s : Str) : Prop := s ≠ [] ∧ ∀ c ∈ s, c.isDigit = true

namespace Number

def signText (n : Number) : Str := if n.negative then ['-'] else []

def fracText (n : Number) : Str :=
  match n.frac with
  | none => []
  | some f => '.' :: f

def expText (n : Number) : Str :=
  match n.exp with
  | none => []
  | some (e, sign, ds) => e :: (sign.toList ++ ds)

/-- The text of a number. -/
def text (n : Number) : Str := n.signText ++ (n.int ++ (n.fracText ++ n.expText))

/-- The number is one the grammar spells: no leading zero, no empty run of digits. -/
structure WellFormed (n : Number) : Prop where
  int : Digits n.int ∧ (n.int = ['0'] ∨ n.int.head? ≠ some '0')
  frac : ∀ f, n.frac = some f → Digits f
  exp : ∀ e sign ds, n.exp = some (e, sign, ds) →
    (e = 'e' ∨ e = 'E') ∧ (sign = none ∨ sign = some '+' ∨ sign = some '-') ∧ Digits ds

/-- The number that writes an integer. -/
def ofInt : Int → Number
  | .ofNat n => ⟨false, Text.showNat n, none, none⟩
  | .negSucc n => ⟨true, Text.showNat (n + 1), none, none⟩

/-- The integer a number writes: no fraction, no exponent, no negative zero. -/
def toInt? (n : Number) : Option Int :=
  match n.frac, n.exp, n.negative, Text.digits n.int with
  | none, none, false, some m => some m
  | none, none, true, some m => if m = 0 then none else some (-(m : Int))
  | _, _, _, _ => none

theorem digits_showNat (n : Nat) : Digits (Text.showNat n) :=
  ⟨Text.showNat_ne_nil n, fun _ hc => Text.isDigit_of_mem_showNat hc⟩

theorem showNat_leading (n : Nat) : Text.showNat n = ['0'] ∨ (Text.showNat n).head? ≠ some '0' := by
  by_cases hn : n = 0
  · exact Or.inl (by subst hn; rfl)
  · obtain ⟨c, cs, hc, _, hz⟩ := Text.showNat_head_ne_zero hn
    exact Or.inr (by simpa [hc] using hz)

theorem ofInt_wellFormed (i : Int) : (ofInt i).WellFormed := by
  cases i with
  | ofNat n => exact ⟨⟨digits_showNat n, showNat_leading n⟩, by simp [ofInt], by simp [ofInt]⟩
  | negSucc n => exact ⟨⟨digits_showNat _, showNat_leading _⟩, by simp [ofInt], by simp [ofInt]⟩

theorem text_ofInt (i : Int) : (ofInt i).text = Text.showInt i := by
  cases i <;> simp [ofInt, text, signText, fracText, expText, Text.showInt]

theorem toInt?_ofInt (i : Int) : (ofInt i).toInt? = some i := by
  cases i with
  | ofNat n => simp [toInt?, ofInt, Text.digits_showNat]
  | negSucc n =>
    simp only [toInt?, ofInt, Text.digits_showNat, Nat.add_eq_zero_iff, one_ne_zero, and_false, if_false]
    rfl

end Number

mutual
/-- `Spells v s`: the text `s` is a JSON value, and it denotes `v`. -/
inductive Spells : Value → Str → Prop
  | null : Spells .null ['n', 'u', 'l', 'l']
  | true : Spells (.bool Bool.true) ['t', 'r', 'u', 'e']
  | false : Spells (.bool Bool.false) ['f', 'a', 'l', 's', 'e']
  | number {n : Number} (h : n.WellFormed) : Spells (.number n) n.text
  | string {s t : Str} (h : Body s t) : Spells (.string s) ('"' :: t ++ ['"'])
  | emptyArray {a : Str} (h : Ws a) : Spells (.array []) ('[' :: a ++ [']'])
  | array {v : Value} {vs : List Value} {s : Str} (h : Elements v vs s) : Spells (.array (v :: vs)) ('[' :: s ++ [']'])
  | emptyObject {a : Str} (h : Ws a) : Spells (.object []) ('{' :: a ++ ['}'])
  | object {m : Str × Value} {ms : List (Str × Value)} {s : Str} (h : Members m ms s) :
      Spells (.object (m :: ms)) ('{' :: s ++ ['}'])

/-- The values of an array with the commas between them: a first one and the others. -/
inductive Elements : Value → List Value → Str → Prop
  | one {v : Value} {a s b : Str} (ha : Ws a) (h : Spells v s) (hb : Ws b) : Elements v [] (a ++ (s ++ b))
  | cons {v w : Value} {vs : List Value} {a s b t : Str} (ha : Ws a) (h : Spells v s) (hb : Ws b)
      (ht : Elements w vs t) : Elements v (w :: vs) (a ++ (s ++ (b ++ ',' :: t)))

/-- The members of an object with the commas between them: a first one and the others. -/
inductive Members : Str × Value → List (Str × Value) → Str → Prop
  | one {k : Str} {v : Value} {a t b c s d : Str} (ha : Ws a) (hk : Body k t) (hb : Ws b) (hc : Ws c)
      (h : Spells v s) (hd : Ws d) : Members (k, v) [] (a ++ '"' :: (t ++ '"' :: (b ++ ':' :: (c ++ (s ++ d)))))
  | cons {k : Str} {v : Value} {m : Str × Value} {ms : List (Str × Value)} {a t b c s d u : Str} (ha : Ws a)
      (hk : Body k t) (hb : Ws b) (hc : Ws c) (h : Spells v s) (hd : Ws d) (hm : Members m ms u) :
      Members (k, v) (m :: ms) (a ++ '"' :: (t ++ '"' :: (b ++ ':' :: (c ++ (s ++ (d ++ ',' :: u))))))
end

/-- A JSON text: one value with whitespace around it. -/
def JsonText (v : Value) (s : Str) : Prop := ∃ a t b, Ws a ∧ Spells v t ∧ Ws b ∧ s = a ++ (t ++ b)

/-! ## The parser -/

def skipWs (s : Str) : Str := s.dropWhile isWs

/-- The escape after the characters of a backslash and a `u`. -/
def unicode : Str → Option (Char × Str)
  | a :: b :: c :: d :: s =>
    match hex4 a b c d with
    | none => none
    | some n =>
      if isHigh n then
        match s with
        | '\\' :: 'u' :: e :: f :: g :: i :: t =>
          match hex4 e f g i with
          | none => none
          | some m => if isLow m then some (Char.ofNat (pairValue n m), t) else none
        | _ => none
      else if isLow n then none
      else some (Char.ofNat n, s)
  | _ => none

/-- One character of a string. -/
def char : Str → Option (Char × Str)
  | [] => none
  | c :: s =>
    if c = '\\' then
      match s with
      | [] => none
      | e :: t => if e = 'u' then unicode t else (shortEscape e).map (·, t)
    else if c = '"' ∨ c.toNat < 0x20 then none
    else some (c, s)

/-- The characters of a string up to its closing quote. -/
def body : Nat → Str → Option (Str × Str)
  | 0, _ => none
  | fuel + 1, s =>
    match s with
    | '"' :: t => some ([], t)
    | _ =>
      match char s with
      | none => none
      | some (c, t) => (body fuel t).map fun r => (c :: r.1, r.2)

/-- A run of digits that is not empty. -/
def digits (s : Str) : Option (Str × Str) :=
  if s.takeWhile Char.isDigit = [] then none else some (s.takeWhile Char.isDigit, s.dropWhile Char.isDigit)

/-- The exponent of a number, if one is written. -/
def exponent : Str → Option (Option (Char × Option Char × Str) × Str)
  | [] => some (none, [])
  | c :: s =>
    if c = 'e' ∨ c = 'E' then
      match s with
      | [] => none
      | d :: t =>
        if d = '+' ∨ d = '-' then (digits t).map fun r => (some (c, some d, r.1), r.2)
        else (digits s).map fun r => (some (c, none, r.1), r.2)
    else some (none, c :: s)

/-- The fraction of a number, if one is written. -/
def fraction : Str → Option (Option Str × Str)
  | [] => some (none, [])
  | c :: s => if c = '.' then (digits s).map fun r => (some r.1, r.2) else some (none, c :: s)

/-- The number after its sign. -/
def unsignedNumber (negative : Bool) (s : Str) : Option (Number × Str) :=
  match digits s with
  | none => none
  | some (int, s1) =>
    if int.head? = some '0' ∧ int ≠ ['0'] then none
    else
      match fraction s1 with
      | none => none
      | some (frac, s2) => (exponent s2).map fun r => (⟨negative, int, frac, r.1⟩, r.2)

def number : Str → Option (Number × Str)
  | [] => none
  | c :: s => if c = '-' then unsignedNumber true s else unsignedNumber false (c :: s)

/-- The three literal names. -/
def literal : Str → Option (Value × Str)
  | 'n' :: 'u' :: 'l' :: 'l' :: s => some (.null, s)
  | 't' :: 'r' :: 'u' :: 'e' :: s => some (.bool true, s)
  | 'f' :: 'a' :: 'l' :: 's' :: 'e' :: s => some (.bool false, s)
  | _ => none

mutual
/-- A value that starts at the first character. The fuel bounds the nesting and the number of elements. -/
def value : Nat → Str → Option (Value × Str)
  | 0, _ => none
  | _ + 1, [] => none
  | fuel + 1, c :: s =>
    if c = '"' then (body (s.length + 1) s).map fun r => (.string r.1, r.2)
    else if c = '[' then
      match skipWs s with
      | ']' :: t => some (.array [], t)
      | _ => (elements fuel s).map fun r => (.array r.1, r.2)
    else if c = '{' then
      match skipWs s with
      | '}' :: t => some (.object [], t)
      | _ => (members fuel s).map fun r => (.object r.1, r.2)
    else
      match literal (c :: s) with
      | some r => some r
      | none => (number (c :: s)).map fun r => (.number r.1, r.2)

/-- The elements of an array up to its closing bracket. -/
def elements : Nat → Str → Option (List Value × Str)
  | 0, _ => none
  | fuel + 1, s =>
    match value fuel (skipWs s) with
    | none => none
    | some (v, t) =>
      match skipWs t with
      | ']' :: u => some ([v], u)
      | ',' :: u => (elements fuel u).map fun r => (v :: r.1, r.2)
      | _ => none

/-- The members of an object up to its closing brace. -/
def members : Nat → Str → Option (List (Str × Value) × Str)
  | 0, _ => none
  | fuel + 1, s =>
    match skipWs s with
    | '"' :: t =>
      match body (t.length + 1) t with
      | none => none
      | some (k, t) =>
        match skipWs t with
        | ':' :: t =>
          match value fuel (skipWs t) with
          | none => none
          | some (v, t) =>
            match skipWs t with
            | '}' :: u => some ([(k, v)], u)
            | ',' :: u => (members fuel u).map fun r => ((k, v) :: r.1, r.2)
            | _ => none
        | _ => none
    | _ => none
end

/-- Parse a whole JSON text. -/
def parse (s : Str) : Option Value :=
  match value (2 * s.length + 2) (skipWs s) with
  | some (v, t) => if skipWs t = [] then some v else none
  | none => none

/-! ## Whitespace -/

/-- What may stand after a value: nothing, whitespace, or the punctuation that ends or continues a container. -/
def Ends : Str → Prop
  | [] => True
  | c :: _ => isWs c = true ∨ c = ',' ∨ c = ']' ∨ c = '}'

/-- A character that is no whitespace heads the string. -/
def Starts : Str → Prop
  | [] => False
  | c :: _ => isWs c = false

theorem skipWs_of_starts : ∀ {s : Str}, Starts s → skipWs s = s
  | [], h => h.elim
  | c :: s, h => by
    have hc : isWs c = false := h
    simp [skipWs, hc]

theorem skipWs_append {a s : Str} (ha : Ws a) : skipWs (a ++ s) = skipWs s := by
  induction a with
  | nil => rfl
  | cons c a ih =>
    have hc : isWs c = true := ha c (by simp)
    have ht : skipWs (a ++ s) = skipWs s := ih fun d hd => ha d (by simp [hd])
    rw [← ht, skipWs, List.cons_append, List.dropWhile_cons, if_pos hc, skipWs]

theorem skipWs_ws {a : Str} (ha : Ws a) : skipWs a = [] := by
  have := skipWs_append (s := []) ha
  rw [List.append_nil] at this
  exact this

theorem ends_append {a s : Str} (ha : Ws a) (hs : Ends s) : Ends (a ++ s) := by
  cases a with
  | nil => exact hs
  | cons c a => exact Or.inl (ha c (by simp))

/-! ## Strings -/

theorem char_of_charText {c : Char} {s rest : Str} (h : CharText c s) : char (s ++ rest) = some (c, rest) := by
  cases h with
  | plain h hq hb =>
    have hc : ¬ c.toNat < 0x20 := by omega
    simp [char, hb, hq, hc]
  | short h =>
    rename_i e
    have hu : e ≠ 'u' := by
      rintro rfl
      simp [shortEscape] at h
    simp [char, hu, h]
  | unicode h hh hl => simp [char, unicode, h, hh, hl]
  | surrogates h h' hh hl => simp [char, unicode, h, h', hh, hl]

/-- No character of a string starts with the closing quote. -/
theorem charText_cons {c : Char} {s : Str} (h : CharText c s) : ∃ d t, s = d :: t ∧ d ≠ '"' := by
  cases h with
  | plain _ hq _ => exact ⟨c, [], rfl, hq⟩
  | short _ => exact ⟨'\\', _, rfl, by decide⟩
  | unicode _ _ _ => exact ⟨'\\', _, rfl, by decide⟩
  | surrogates _ _ _ _ => exact ⟨'\\', _, rfl, by decide⟩

theorem body_of_body {s t : Str} (h : Body s t) :
    ∀ (rest : Str) (fuel : Nat), t.length < fuel → body fuel (t ++ '"' :: rest) = some (s, rest) := by
  induction h with
  | nil =>
    intro rest fuel hf
    obtain ⟨f, rfl⟩ : ∃ f, fuel = f + 1 := ⟨fuel - 1, by omega⟩
    simp [body]
  | @cons c s t u h _ ih =>
    intro rest fuel hf
    obtain ⟨f, rfl⟩ : ∃ f, fuel = f + 1 := ⟨fuel - 1, by omega⟩
    obtain ⟨d, s', rfl, hd⟩ := charText_cons h
    have hu : u.length < f := by
      simp only [List.length_append, List.length_cons] at hf
      omega
    have hc : char (d :: s' ++ u ++ '"' :: rest) = some (c, u ++ '"' :: rest) := by
      rw [List.append_assoc]
      exact char_of_charText h
    rw [List.cons_append, List.cons_append] at hc ⊢
    unfold body
    split
    · rename_i heq
      injection heq with h1 _
      exact absurd h1 hd
    · simp only [hc, ih rest f hu, Option.map_some]

/-! ## Numbers -/

/-- No digit heads the string. -/
def NoDigit : Str → Prop
  | [] => True
  | c :: _ => c.isDigit = false

theorem digits_append {ds rest : Str} (hd : Digits ds) (hr : NoDigit rest) :
    digits (ds ++ rest) = some (ds, rest) := by
  have hrt : rest.takeWhile Char.isDigit = [] := by
    cases rest with
    | nil => rfl
    | cons c s => simp [show c.isDigit = false from hr]
  have hrd : rest.dropWhile Char.isDigit = rest := by
    cases rest with
    | nil => rfl
    | cons c s => simp [show c.isDigit = false from hr]
  have ht : (ds ++ rest).takeWhile Char.isDigit = ds := by
    rw [List.takeWhile_append_of_pos hd.2, hrt, List.append_nil]
  have hdr : (ds ++ rest).dropWhile Char.isDigit = rest := by
    rw [List.dropWhile_append_of_pos hd.2, hrd]
  simp only [digits, ht, hdr]
  exact if_neg hd.1

/-- The characters after a value neither continue a run of digits nor start a fraction or an exponent. -/
theorem Ends.head {c : Char} {s : Str} (h : Ends (c :: s)) :
    c.isDigit = false ∧ c ≠ '.' ∧ c ≠ 'e' ∧ c ≠ 'E' := by
  have hcases : c = ' ' ∨ c = '\t' ∨ c = '\n' ∨ c = '\r' ∨ c = ',' ∨ c = ']' ∨ c = '}' := by
    rcases h with h | h | h | h
    · simp only [isWs, Bool.or_eq_true, decide_eq_true_eq] at h
      tauto
    all_goals tauto
  rcases hcases with rfl | rfl | rfl | rfl | rfl | rfl | rfl <;> decide

theorem Ends.noDigit : ∀ {s : Str}, Ends s → NoDigit s
  | [], _ => trivial
  | _ :: _, h => h.head.1

theorem exponent_expText {n : Number} (h : n.WellFormed) {rest : Str} (hr : Ends rest) :
    exponent (n.expText ++ rest) = some (n.exp, rest) := by
  unfold Number.expText
  cases hx : n.exp with
  | none =>
    cases rest with
    | nil => rfl
    | cons c s =>
      obtain ⟨_, _, he, hE⟩ := hr.head
      simp [exponent, he, hE]
  | some x =>
    obtain ⟨e, sign, ds⟩ := x
    obtain ⟨he, hs, hd⟩ := h.exp e sign ds hx
    have hds := digits_append hd hr.noDigit
    rcases hs with rfl | rfl | rfl
    · cases ds with
      | nil => exact absurd rfl hd.1
      | cons d ds =>
        have hdig : d.isDigit = true := hd.2 d (by simp)
        have hp : d ≠ '+' := Text.isDigit_ne hdig (by decide)
        have hm : d ≠ '-' := Text.isDigit_ne hdig (by decide)
        rw [List.cons_append] at hds
        simp [exponent, he, hp, hm, hds]
    · simp [exponent, he, hds]
    · simp [exponent, he, hds]

/-- The exponent and what follows the number neither continue a run of digits nor look like a fraction. -/
theorem expText_head {n : Number} (h : n.WellFormed) {rest : Str} (hr : Ends rest) :
    NoDigit (n.expText ++ rest) ∧ (n.expText ++ rest).head? ≠ some '.' := by
  unfold Number.expText
  cases hx : n.exp with
  | none =>
    cases rest with
    | nil => exact ⟨trivial, by simp⟩
    | cons c s => exact ⟨hr.head.1, by simpa using hr.head.2.1⟩
  | some x =>
    obtain ⟨e, sign, ds⟩ := x
    rcases (h.exp e sign ds hx).1 with rfl | rfl
    · exact ⟨(by decide : Char.isDigit 'e' = false), by simp⟩
    · exact ⟨(by decide : Char.isDigit 'E' = false), by simp⟩

theorem fraction_fracText {n : Number} (h : n.WellFormed) {rest : Str} (hr : NoDigit rest)
    (hdot : rest.head? ≠ some '.') : fraction (n.fracText ++ rest) = some (n.frac, rest) := by
  unfold Number.fracText
  cases hx : n.frac with
  | none =>
    cases rest with
    | nil => rfl
    | cons c s =>
      have hc : c ≠ '.' := fun hc => hdot (by simp [hc])
      simp [fraction, hc]
  | some f =>
    have hds := digits_append (h.frac f hx) hr
    simp [fraction, hds]

theorem noDigit_fracText {n : Number} {rest : Str} (hr : NoDigit rest) : NoDigit (n.fracText ++ rest) := by
  unfold Number.fracText
  cases n.frac with
  | none => exact hr
  | some f => exact (by decide : Char.isDigit '.' = false)

theorem unsignedNumber_text {n : Number} (h : n.WellFormed) {rest : Str} (hr : Ends rest) :
    unsignedNumber n.negative (n.int ++ (n.fracText ++ n.expText) ++ rest) = some (n, rest) := by
  obtain ⟨hnd, hdot⟩ := expText_head h hr
  have hint := digits_append h.int.1 (noDigit_fracText (n := n) hnd)
  have hz : ¬ (n.int.head? = some '0' ∧ n.int ≠ ['0']) := by
    rintro ⟨h0, hne⟩
    rcases h.int.2 with h1 | h1
    · exact hne h1
    · exact h1 h0
  simp only [List.append_assoc] at hint ⊢
  simp only [unsignedNumber, hint, if_neg hz, fraction_fracText h hnd hdot, exponent_expText h hr, Option.map_some]

/-- A number's text starts with its sign or a digit. -/
theorem text_head {n : Number} (h : n.WellFormed) : ∃ c s, n.text = c :: s ∧ (c = '-' ∨ c.isDigit = true) := by
  cases hn : n.negative with
  | true => exact ⟨'-', n.int ++ (n.fracText ++ n.expText), by simp [Number.text, Number.signText, hn], Or.inl rfl⟩
  | false =>
    cases hi : n.int with
    | nil => exact absurd hi h.int.1.1
    | cons c s =>
      have hd : c.isDigit = true := h.int.1.2 c (by simp [hi])
      exact ⟨c, s ++ (n.fracText ++ n.expText), by simp [Number.text, Number.signText, hn, hi], Or.inr hd⟩

theorem number_text {n : Number} (h : n.WellFormed) {rest : Str} (hr : Ends rest) :
    number (n.text ++ rest) = some (n, rest) := by
  have hu := unsignedNumber_text h hr
  cases hn : n.negative with
  | true =>
    rw [hn] at hu
    simpa [Number.text, Number.signText, hn, number] using hu
  | false =>
    cases hi : n.int with
    | nil => exact absurd hi h.int.1.1
    | cons c s =>
      have hd : c.isDigit = true := h.int.1.2 c (by simp [hi])
      have hm : c ≠ '-' := Text.isDigit_ne hd (by decide)
      rw [hn, hi] at hu
      simpa [Number.text, Number.signText, hn, number, hi, hm] using hu

/-- The first character of a number is none of the characters that start something else. -/
theorem number_head_ne {c : Char} (h : c = '-' ∨ c.isDigit = true) {d : Char} (hd : d.isDigit = false) (hm : d ≠ '-') :
    c ≠ d := by
  rcases h with rfl | h
  · exact fun h => hm h.symm
  · exact Text.isDigit_ne h hd

/-! ## Values -/

/-- A value starts with a character that is neither whitespace nor the end of an array. -/
theorem spells_head {v : Value} {s : Str} (h : Spells v s) : ∃ c t, s = c :: t ∧ isWs c = false ∧ c ≠ ']' := by
  cases h with
  | null => exact ⟨_, _, rfl, by decide, by decide⟩
  | true => exact ⟨_, _, rfl, by decide, by decide⟩
  | false => exact ⟨_, _, rfl, by decide, by decide⟩
  | number h =>
    obtain ⟨c, t, ht, hc⟩ := text_head h
    refine ⟨c, t, ht, ?_, number_head_ne hc (by decide) (by decide)⟩
    simp only [isWs, Bool.or_eq_false_iff, decide_eq_false_iff_not]
    exact ⟨⟨⟨number_head_ne hc (by decide) (by decide), number_head_ne hc (by decide) (by decide)⟩,
      number_head_ne hc (by decide) (by decide)⟩, number_head_ne hc (by decide) (by decide)⟩
  | string _ => exact ⟨_, _, rfl, by decide, by decide⟩
  | emptyArray _ => exact ⟨_, _, rfl, by decide, by decide⟩
  | array _ => exact ⟨_, _, rfl, by decide, by decide⟩
  | emptyObject _ => exact ⟨_, _, rfl, by decide, by decide⟩
  | object _ => exact ⟨_, _, rfl, by decide, by decide⟩

theorem skipWs_spells {v : Value} {a s rest : Str} (ha : Ws a) (h : Spells v s) :
    skipWs (a ++ (s ++ rest)) = s ++ rest := by
  obtain ⟨c, t, rfl, hc, _⟩ := spells_head h
  rw [skipWs_append ha]
  exact skipWs_of_starts (by exact hc)

/-- The elements of an array do not look like its end. -/
theorem skipWs_elements {v : Value} {vs : List Value} {s : Str} (h : Elements v vs s) (rest : Str) :
    ∃ c t, skipWs (s ++ rest) = c :: t ∧ c ≠ ']' := by
  cases h with
  | one ha h _ =>
    obtain ⟨c, t, hs, _, hc⟩ := spells_head h
    exact ⟨c, _, by rw [List.append_assoc, List.append_assoc, skipWs_spells ha h, hs]; rfl, hc⟩
  | cons ha h _ _ =>
    obtain ⟨c, t, hs, _, hc⟩ := spells_head h
    exact ⟨c, _, by rw [List.append_assoc, List.append_assoc, skipWs_spells ha h, hs]; rfl, hc⟩

/-- The members of an object start with a quote. -/
theorem skipWs_members {m : Str × Value} {ms : List (Str × Value)} {s : Str} (h : Members m ms s) (rest : Str) :
    ∃ t, skipWs (s ++ rest) = '"' :: t := by
  cases h with
  | one ha _ _ _ _ _ => exact ⟨_, by rw [List.append_assoc, skipWs_append ha]; exact skipWs_of_starts (by rfl)⟩
  | cons ha _ _ _ _ _ _ => exact ⟨_, by rw [List.append_assoc, skipWs_append ha]; exact skipWs_of_starts (by rfl)⟩

theorem literal_number {c : Char} {s : Str} (h : c = '-' ∨ c.isDigit = true) : literal (c :: s) = none := by
  have hn : c ≠ 'n' := number_head_ne h (by decide) (by decide)
  have ht : c ≠ 't' := number_head_ne h (by decide) (by decide)
  have hf : c ≠ 'f' := number_head_ne h (by decide) (by decide)
  unfold literal
  split <;> simp_all

/-! ### One step of the parser -/

theorem value_array {fuel : Nat} {s t : Str} {c : Char} {vs : List Value} {rest : Str} (hs : skipWs s = c :: t)
    (hc : c ≠ ']') (h : elements fuel s = some (vs, rest)) : value (fuel + 1) ('[' :: s) = some (.array vs, rest) := by
  simp only [value, hs, h, Option.map_some, show ('[' : Char) ≠ '"' by decide, if_false, if_true]
  split
  · rename_i heq
    injection heq with h1 _
    exact absurd h1 hc
  · rfl

theorem value_object {fuel : Nat} {s t : Str} {ms : List (Str × Value)} {rest : Str} (hs : skipWs s = '"' :: t)
    (h : members fuel s = some (ms, rest)) : value (fuel + 1) ('{' :: s) = some (.object ms, rest) := by
  simp [value, hs, h]

/-- A string that ends the text in front of it. -/
theorem body_append {s t : Str} (h : Body s t) (rest : Str) :
    body ((t ++ '"' :: rest).length + 1) (t ++ '"' :: rest) = some (s, rest) :=
  body_of_body h rest _ (by simp only [List.length_append, List.length_cons]; omega)

theorem members_step {fuel : Nat} {k t u a b : Str} {v : Value} {rest : Str} (ha : Ws a) (hk : Body k t) (hb : Ws b)
    (hv : value fuel (skipWs u) = some (v, rest)) :
    members (fuel + 1) (a ++ '"' :: (t ++ '"' :: (b ++ ':' :: u))) =
      match skipWs rest with
      | '}' :: u => some ([(k, v)], u)
      | ',' :: u => (members fuel u).map fun r => ((k, v) :: r.1, r.2)
      | _ => none := by
  have h1 : skipWs (a ++ '"' :: (t ++ '"' :: (b ++ ':' :: u))) = '"' :: (t ++ '"' :: (b ++ ':' :: u)) := by
    rw [skipWs_append ha]
    exact skipWs_of_starts (by rfl)
  have h2 : skipWs (b ++ ':' :: u) = ':' :: u := by
    rw [skipWs_append hb]
    exact skipWs_of_starts (by rfl)
  simp only [members, h1, body_append hk _, h2, hv]

theorem skipWs_close {a rest : Str} {c : Char} (ha : Ws a) (hc : isWs c = false) :
    skipWs (a ++ c :: rest) = c :: rest := by
  rw [skipWs_append ha]
  exact skipWs_of_starts (by exact hc)

mutual
theorem value_of_spells : ∀ {v : Value} {s : Str}, Spells v s → ∀ (rest : Str) (fuel : Nat), Ends rest →
    2 * s.length ≤ fuel → value fuel (s ++ rest) = some (v, rest)
  | _, _, .null, rest, fuel, hr, hf => by
    obtain ⟨f, rfl⟩ : ∃ f, fuel = f + 1 := ⟨fuel - 1, by simp at hf; omega⟩
    simp [value, literal]
  | _, _, .true, rest, fuel, hr, hf => by
    obtain ⟨f, rfl⟩ : ∃ f, fuel = f + 1 := ⟨fuel - 1, by simp at hf; omega⟩
    simp [value, literal]
  | _, _, .false, rest, fuel, hr, hf => by
    obtain ⟨f, rfl⟩ : ∃ f, fuel = f + 1 := ⟨fuel - 1, by simp at hf; omega⟩
    simp [value, literal]
  | _, _, .number h, rest, fuel, hr, hf => by
    obtain ⟨c, t, ht, hc⟩ := text_head h
    have hnum := number_text h hr
    rw [ht] at hf hnum ⊢
    obtain ⟨f, rfl⟩ : ∃ f, fuel = f + 1 := ⟨fuel - 1, by simp at hf; omega⟩
    have hq : c ≠ '"' := number_head_ne hc (by decide) (by decide)
    have hb : c ≠ '[' := number_head_ne hc (by decide) (by decide)
    have ho : c ≠ '{' := number_head_ne hc (by decide) (by decide)
    rw [List.cons_append] at hnum ⊢
    simp [value, hq, hb, ho, literal_number hc, hnum]
  | _, _, .string (t := t) h, rest, fuel, hr, hf => by
    obtain ⟨f, rfl⟩ : ∃ f, fuel = f + 1 := ⟨fuel - 1, by simp at hf; omega⟩
    have hb := body_append h rest
    have ht : '"' :: t ++ ['"'] ++ rest = '"' :: (t ++ '"' :: rest) := by simp
    rw [ht]
    simp only [value, hb, if_true, Option.map_some]
  | _, _, .emptyArray (a := a) ha, rest, fuel, hr, hf => by
    obtain ⟨f, rfl⟩ : ∃ f, fuel = f + 1 := ⟨fuel - 1, by simp at hf; omega⟩
    have ht : '[' :: a ++ [']'] ++ rest = '[' :: (a ++ ']' :: rest) := by simp
    have hs : skipWs (a ++ ']' :: rest) = ']' :: rest := skipWs_close ha (by decide)
    rw [ht]
    simp [value, hs]
  | _, _, .array (s := s) h, rest, fuel, hr, hf => by
    obtain ⟨f, rfl⟩ : ∃ f, fuel = f + 1 := ⟨fuel - 1, by simp at hf; omega⟩
    have he := elements_of_elements h rest f (by simp at hf; omega)
    obtain ⟨c, t, hs, hc⟩ := skipWs_elements h (']' :: rest)
    have ht : '[' :: s ++ [']'] ++ rest = '[' :: (s ++ ']' :: rest) := by simp
    rw [ht]
    exact value_array hs hc he
  | _, _, .emptyObject (a := a) ha, rest, fuel, hr, hf => by
    obtain ⟨f, rfl⟩ : ∃ f, fuel = f + 1 := ⟨fuel - 1, by simp at hf; omega⟩
    have ht : '{' :: a ++ ['}'] ++ rest = '{' :: (a ++ '}' :: rest) := by simp
    have hs : skipWs (a ++ '}' :: rest) = '}' :: rest := skipWs_close ha (by decide)
    rw [ht]
    simp [value, hs]
  | _, _, .object (s := s) h, rest, fuel, hr, hf => by
    obtain ⟨f, rfl⟩ : ∃ f, fuel = f + 1 := ⟨fuel - 1, by simp at hf; omega⟩
    have hm := members_of_members h rest f (by simp at hf; omega)
    obtain ⟨t, hs⟩ := skipWs_members h ('}' :: rest)
    have ht : '{' :: s ++ ['}'] ++ rest = '{' :: (s ++ '}' :: rest) := by simp
    rw [ht]
    exact value_object hs hm

theorem elements_of_elements : ∀ {v : Value} {vs : List Value} {s : Str}, Elements v vs s →
    ∀ (rest : Str) (fuel : Nat), 2 * s.length + 1 ≤ fuel →
      elements fuel (s ++ ']' :: rest) = some (v :: vs, rest)
  | _, _, _, .one (b := b) ha h hb, rest, fuel, hf => by
    obtain ⟨f, rfl⟩ : ∃ f, fuel = f + 1 := ⟨fuel - 1, by omega⟩
    simp only [List.length_append] at hf
    have hv := value_of_spells h (b ++ ']' :: rest) f (ends_append hb (by simp [Ends])) (by omega)
    simp only [List.append_assoc, elements, skipWs_spells ha h, hv]
    rw [skipWs_close hb (by decide)]
    rfl
  | _, _, _, .cons (b := b) (t := t) ha h hb ht, rest, fuel, hf => by
    obtain ⟨f, rfl⟩ : ∃ f, fuel = f + 1 := ⟨fuel - 1, by omega⟩
    simp only [List.length_append, List.length_cons] at hf
    have hv := value_of_spells h (b ++ ',' :: (t ++ ']' :: rest)) f (ends_append hb (by simp [Ends])) (by omega)
    have he := elements_of_elements ht rest f (by omega)
    simp only [List.append_assoc, List.cons_append, elements, skipWs_spells ha h, hv]
    rw [skipWs_close hb (by decide)]
    simp only [he, Option.map_some]

theorem members_of_members : ∀ {m : Str × Value} {ms : List (Str × Value)} {s : Str}, Members m ms s →
    ∀ (rest : Str) (fuel : Nat), 2 * s.length + 1 ≤ fuel →
      members fuel (s ++ '}' :: rest) = some (m :: ms, rest)
  | _, _, _, .one (d := d) ha hk hb hc h hd, rest, fuel, hf => by
    obtain ⟨f, rfl⟩ : ∃ f, fuel = f + 1 := ⟨fuel - 1, by omega⟩
    simp only [List.length_append, List.length_cons] at hf
    have hv := value_of_spells h (d ++ '}' :: rest) f (ends_append hd (by simp [Ends])) (by omega)
    rw [← skipWs_spells hc h] at hv
    simp only [List.append_assoc, List.cons_append]
    rw [members_step ha hk hb hv, skipWs_close hd (by decide)]
    rfl
  | _, _, _, .cons (d := d) (u := u) ha hk hb hc h hd hm, rest, fuel, hf => by
    obtain ⟨f, rfl⟩ : ∃ f, fuel = f + 1 := ⟨fuel - 1, by omega⟩
    simp only [List.length_append, List.length_cons] at hf
    have hv := value_of_spells h (d ++ ',' :: (u ++ '}' :: rest)) f (ends_append hd (by simp [Ends])) (by omega)
    have he := members_of_members hm rest f (by omega)
    rw [← skipWs_spells hc h] at hv
    simp only [List.append_assoc, List.cons_append]
    rw [members_step ha hk hb hv, skipWs_close hd (by decide)]
    simp only [he, Option.map_some]
end

/-- **The parser is complete**: a text of the grammar parses to the value it spells. -/
theorem parse_of_text {v : Value} {s : Str} (h : JsonText v s) : parse s = some v := by
  obtain ⟨a, t, b, ha, hv, hb, rfl⟩ := h
  have hr : Ends b := by
    have := ends_append (s := []) hb trivial
    rwa [List.append_nil] at this
  have hval := value_of_spells hv b (2 * (a ++ (t ++ b)).length + 2) hr
    (by simp only [List.length_append]; omega)
  simp only [parse, skipWs_spells ha hv, hval, skipWs_ws hb, if_true]

end Rfc8259

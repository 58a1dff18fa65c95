import Mathlib.Data.List.Sort
import Mathlib.Data.List.TakeDrop
import Mathlib.Data.String.Basic
import Mathlib.Tactic.Common
import SpoolCache.Base.Bytes

/-!
# JSON texts

Library `Base`. The values that `json.loads` returns, its grammar, and the canonical text that
`json.dumps` writes with sorted keys, the separators `,` and `:` and no escapes beyond the
required ones. A canonical text is read back as the value it was written from.

Three things are left out: a float prints as it was read, a lone surrogate is not read, and there
is no limit on the digits of an integer or on the nesting.
-/

namespace SpoolCache.Base

/-- A value of `json.loads`; the fields of an object have distinct names. -/
inductive Json where
  | null
  | bool (b : Bool)
  | int (n : Int)
  | float (text : String)
  | str (s : String)
  | arr (items : List Json)
  | obj (fields : List (String × Json))

namespace Json

/-- The value of a field of an object. -/
def field? : Json → String → Option Json
  | .obj fields, name => (fields.find? fun p ↦ p.1 = name).map Prod.snd
  | _, _ => none

/-- The text of a field of an object. -/
def textField? (v : Json) (name : String) : Option String :=
  match v.field? name with
  | some (.str s) => some s
  | _ => none

/-- `set(value) == set(names)` for an object. -/
def hasFields (v : Json) (names : List String) : Bool :=
  match v with
  | .obj fields => fields.length = names.length ∧ ∀ name ∈ names, name ∈ fields.map Prod.fst
  | _ => false

/-! ### Writing -/

/-- A lowercase hexadecimal digit. -/
def hexDigit (n : Nat) : Char := Nat.digitChar (n % 16)

/-- `py_encode_basestring` on one character. -/
def escape (c : Char) : List Char :=
  if c = '"' then ['\\', '"']
  else if c = '\\' then ['\\', '\\']
  else if c = '\n' then ['\\', 'n']
  else if c = '\r' then ['\\', 'r']
  else if c = '\t' then ['\\', 't']
  else if c.toNat = 8 then ['\\', 'b']
  else if c.toNat = 12 then ['\\', 'f']
  else if c.toNat < 32 then ['\\', 'u', '0', '0', hexDigit (c.toNat / 16), hexDigit c.toNat]
  else [c]

/-- The characters of a quoted text after its opening quote. -/
def quoteTail (s : List Char) : List Char := s.flatMap escape ++ ['"']

/-- A quoted text. -/
def quote (s : String) : List Char := '"' :: quoteTail s.toList

/-- `int.__repr__`. -/
def decimal : Int → List Char
  | .ofNat n => Nat.toDigits 10 n
  | .negSucc n => '-' :: Nat.toDigits 10 (n + 1)

/-- Texts with a separator between them. -/
def joinWith (separator : Char) : List (List Char) → List Char
  | [] => []
  | [t] => t
  | t :: ts => t ++ separator :: joinWith separator ts

/-- The text of a field. -/
def fieldText (p : String × List Char) : List Char := quote p.1 ++ ':' :: p.2

mutual

/-- `json.dumps(value, ensure_ascii=False, sort_keys=True, separators=(",", ":"))`. -/
def dumps : Json → List Char
  | .null => ['n', 'u', 'l', 'l']
  | .bool true => ['t', 'r', 'u', 'e']
  | .bool false => ['f', 'a', 'l', 's', 'e']
  | .int n => decimal n
  | .float text => text.toList
  | .str s => quote s
  | .arr items => '[' :: joinWith ',' (dumpsItems items) ++ [']']
  | .obj fields =>
    '{' :: joinWith ','
      (((dumpsFields fields).insertionSort fun a b ↦ a.1 ≤ b.1).map fieldText) ++ ['}']

/-- The texts of items. -/
def dumpsItems : List Json → List (List Char)
  | [] => []
  | v :: vs => dumps v :: dumpsItems vs

/-- The names of fields with the texts of their values. -/
def dumpsFields : List (String × Json) → List (String × List Char)
  | [] => []
  | (name, v) :: fields => (name, dumps v) :: dumpsFields fields

end

/-! ### Reading -/

/-- White space between tokens. -/
def skip : List Char → List Char :=
  List.dropWhile fun c ↦ c = ' ' ∨ c = '\t' ∨ c = '\n' ∨ c = '\r'

/-- A hexadecimal digit of an escape. -/
def hexValue (c : Char) : Option Nat :=
  if '0' ≤ c ∧ c ≤ '9' then some (c.toNat - 48)
  else if 'a' ≤ c ∧ c ≤ 'f' then some (c.toNat - 87)
  else if 'A' ≤ c ∧ c ≤ 'F' then some (c.toNat - 55)
  else none

/-- The number of four hexadecimal digits. -/
def hexValue4 (a b c d : Char) : Option Nat := do
  pure ((← hexValue a) * 4096 + (← hexValue b) * 256 + (← hexValue c) * 16 + (← hexValue d))

/-- The code unit of a one-character escape. -/
def shortEscape (c : Char) : Option Nat :=
  if c = '"' then some 34
  else if c = '\\' then some 92
  else if c = '/' then some 47
  else if c = 'b' then some 8
  else if c = 'f' then some 12
  else if c = 'n' then some 10
  else if c = 'r' then some 13
  else if c = 't' then some 9
  else none

/-- The code units of a quoted text after its opening quote, and the rest. -/
def scanUnits : List Char → Option (List Nat × List Char)
  | [] => none
  | c :: t =>
    if c = '"' then some ([], t)
    else if c = '\\' then
      match t with
      | [] => none
      | e :: t =>
        if e = 'u' then
          match t with
          | a :: b :: c :: d :: t => do
            let unit ← hexValue4 a b c d
            let (units, rest) ← scanUnits t
            pure (unit :: units, rest)
          | _ => none
        else do
          let unit ← shortEscape e
          let (units, rest) ← scanUnits t
          pure (unit :: units, rest)
    else if c.toNat < 32 then none
    else do
      let (units, rest) ← scanUnits t
      pure (c.toNat :: units, rest)

/-- Code units as characters, with surrogate pairs joined. -/
def joinUnits : List Nat → Option (List Char)
  | [] => some []
  | u :: us =>
    if 0xD800 ≤ u ∧ u < 0xDC00 then
      match us with
      | v :: us =>
        if 0xDC00 ≤ v ∧ v < 0xE000 then
          (Char.ofNat (0x10000 + (u - 0xD800) * 1024 + (v - 0xDC00)) :: ·) <$> joinUnits us
        else none
      | [] => none
    else if 0xDC00 ≤ u ∧ u < 0xE000 then none
    else (Char.ofNat u :: ·) <$> joinUnits us

/-- A quoted text after its opening quote, and the rest. -/
def scanString (t : List Char) : Option (String × List Char) := do
  let (units, rest) ← scanUnits t
  let chars ← joinUnits units
  pure (String.ofList chars, rest)

/-- The fraction of a number, if one follows. -/
def scanFraction : List Char → List Char × List Char
  | '.' :: t =>
    match t.span Char.isDigit with
    | ([], _) => ([], '.' :: t)
    | (digits, rest) => ('.' :: digits, rest)
  | t => ([], t)

/-- The exponent of a number, if one follows. -/
def scanExponent : List Char → List Char × List Char
  | [] => ([], [])
  | e :: t =>
    if e = 'e' ∨ e = 'E' then
      let (sign, u) := match t with
        | '+' :: u => (['+'], u)
        | '-' :: u => (['-'], u)
        | u => ([], u)
      match u.span Char.isDigit with
      | ([], _) => ([], e :: t)
      | (digits, rest) => (e :: sign ++ digits, rest)
    else ([], e :: t)

/-- The digits of an integer: a single zero, or digits that do not begin with one. -/
def scanDigits : List Char → List Char × List Char
  | '0' :: t => (['0'], t)
  | t => t.span Char.isDigit

/-- A number without its sign, and the rest. -/
def scanUnsigned (negative : Bool) (t : List Char) : Option (Json × List Char) :=
  match scanDigits t with
  | ([], _) => none
  | (digits, t) =>
    let (fraction, t) := scanFraction t
    let (exponent, t) := scanExponent t
    if fraction = [] ∧ exponent = [] then
      let n := Nat.ofDigitChars 10 digits 0
      some (.int (if negative then -(n : Int) else n), t)
    else
      let sign := if negative then ['-'] else []
      some (.float (String.ofList (sign ++ digits ++ fraction ++ exponent)), t)

/-- A number and the rest. -/
def scanNumber : List Char → Option (Json × List Char)
  | '-' :: t => scanUnsigned true t
  | t => scanUnsigned false t

/-- A fixed word and the rest. -/
def scanWord (word : List Char) (value : Json) (t : List Char) : Option (Json × List Char) :=
  if word.isPrefixOf t then some (value, t.drop word.length) else none

/-- The words that are values: Python also reads the three non-finite floats. -/
def words : List (List Char × Json) :=
  [("null".toList, .null), ("true".toList, .bool true), ("false".toList, .bool false),
    ("NaN".toList, .float "NaN"), ("Infinity".toList, .float "Infinity"),
    ("-Infinity".toList, .float "-Infinity")]

/-- A word that is a value, and the rest. -/
def scanWords (t : List Char) : Option (Json × List Char) :=
  words.findSome? fun p ↦ scanWord p.1 p.2 t

/-- A dictionary entry: a repeated name keeps its place and takes the new value. -/
def setField (fields : List (String × Json)) (name : String) (v : Json) : List (String × Json) :=
  if name ∈ fields.map Prod.fst then
    fields.map fun p ↦ if p.1 = name then (name, v) else p
  else fields ++ [(name, v)]

mutual

/-- `scan_once`; the first argument bounds the recursion. -/
def parseValue : Nat → List Char → Option (Json × List Char)
  | 0, _ => none
  | _ + 1, [] => none
  | n + 1, c :: t =>
    if c = '"' then (scanString t).map fun p ↦ (.str p.1, p.2)
    else if c = '{' then
      match skip t with
      | '}' :: t => some (.obj [], t)
      | t => (parseFields n [] t).map fun p ↦ (.obj p.1, p.2)
    else if c = '[' then
      match skip t with
      | ']' :: t => some (.arr [], t)
      | t => (parseItems n t).map fun p ↦ (.arr p.1, p.2)
    else (scanWords (c :: t)).orElse fun _ ↦ scanNumber (c :: t)

/-- The items of a non-empty array. -/
def parseItems : Nat → List Char → Option (List Json × List Char)
  | 0, _ => none
  | n + 1, t =>
    match parseValue n t with
    | none => none
    | some (v, t) =>
      match skip t with
      | ']' :: t => some ([v], t)
      | ',' :: t => (parseItems n (skip t)).map fun p ↦ (v :: p.1, p.2)
      | _ => none

/-- The fields of a non-empty object. -/
def parseFields : Nat → List (String × Json) → List Char →
    Option (List (String × Json) × List Char)
  | 0, _, _ => none
  | n + 1, fields, t =>
    match t with
    | '"' :: t =>
      match scanString t with
      | none => none
      | some (name, t) =>
        match skip t with
        | ':' :: t =>
          match parseValue n (skip t) with
          | none => none
          | some (v, t) =>
            match skip t with
            | '}' :: t => some (setField fields name v, t)
            | ',' :: t => parseFields n (setField fields name v) (skip t)
            | _ => none
        | _ => none
    | _ => none

end

/-- `json.loads` of a text. -/
def parse (t : List Char) : Option Json :=
  match parseValue (2 * t.length + 2) (skip t) with
  | some (v, rest) => if skip rest = [] then some v else none
  | none => none

/-! ### Quoted texts -/

/-- A digit is read as the number it stands for. -/
theorem hexValue_hexDigit (n : Nat) : hexValue (hexDigit n) = some (n % 16) := by
  have h : ∀ m < 16, hexValue (Nat.digitChar m) = some m := by decide
  exact h (n % 16) (Nat.mod_lt _ (by decide))

private theorem scanUnits_short {e : Char} {unit : Nat} (he : e ≠ 'u')
    (h : shortEscape e = some unit) (t : List Char) :
    scanUnits ('\\' :: e :: t) = (scanUnits t).map fun p ↦ (unit :: p.1, p.2) := by
  rw [scanUnits.eq_def]
  dsimp only
  rw [if_neg (by decide), if_pos rfl, if_neg he, h]
  cases scanUnits t <;> rfl

private theorem scanUnits_escape (c : Char) (t : List Char) :
    scanUnits (escape c ++ t) = (scanUnits t).map fun p ↦ (c.toNat :: p.1, p.2) := by
  have hv : hexValue '0' = some 0 := by decide
  unfold escape
  split
  · next h =>
    subst h
    exact scanUnits_short (by decide) (by decide) t
  split
  · next h =>
    subst h
    exact scanUnits_short (by decide) (by decide) t
  split
  · next h =>
    subst h
    exact scanUnits_short (by decide) (by decide) t
  split
  · next h =>
    subst h
    exact scanUnits_short (by decide) (by decide) t
  split
  · next h =>
    subst h
    exact scanUnits_short (by decide) (by decide) t
  split
  · next h =>
    rw [h]
    exact scanUnits_short (by decide) (by decide) t
  split
  · next h =>
    rw [h]
    exact scanUnits_short (by decide) (by decide) t
  split
  · next hc =>
    have h4 : hexValue4 '0' '0' (hexDigit (c.toNat / 16)) (hexDigit c.toNat) = some c.toNat := by
      unfold hexValue4
      rw [hv, hexValue_hexDigit, hexValue_hexDigit]
      simp only [Option.pure_def, Option.bind_eq_bind, Option.bind_some, Option.some.injEq]
      omega
    simp only [List.cons_append, List.nil_append]
    rw [scanUnits.eq_def]
    dsimp only
    rw [if_neg (by decide), if_pos rfl, if_pos rfl, h4]
    cases scanUnits t <;> rfl
  · next hq hb _ _ _ _ _ hc =>
    rw [List.singleton_append, scanUnits.eq_def]
    dsimp only
    rw [if_neg hq, if_neg hb, if_neg hc]
    cases scanUnits t <;> rfl

private theorem scanUnits_quoteTail (s rest : List Char) :
    scanUnits (quoteTail s ++ rest) = some (s.map Char.toNat, rest) := by
  induction s with
  | nil =>
    rw [scanUnits.eq_def]
    rfl
  | cons c s ih =>
    have he : quoteTail (c :: s) ++ rest = escape c ++ (quoteTail s ++ rest) := by
      rw [quoteTail, quoteTail, List.flatMap_cons, List.append_assoc, List.append_assoc,
        List.append_assoc]
    rw [he, scanUnits_escape, ih]
    rfl

private theorem joinUnits_map_toNat (s : List Char) : joinUnits (s.map Char.toNat) = some s := by
  induction s with
  | nil => rfl
  | cons c s ih =>
    have hv : c.toNat < 0xD800 ∨ 0xDFFF < c.toNat ∧ c.toNat < 0x110000 := c.valid
    rw [List.map_cons, joinUnits.eq_def]
    dsimp only
    rw [if_neg (by omega), if_neg (by omega), ih, Char.ofNat_toNat]
    rfl

private theorem scanString_quoteTail (s : String) (rest : List Char) :
    scanString (quoteTail s.toList ++ rest) = some (s, rest) := by
  unfold scanString
  rw [scanUnits_quoteTail]
  simp only [Option.bind_eq_bind, Option.bind_some]
  rw [joinUnits_map_toNat]
  simp only [Option.bind_some, Option.pure_def, String.ofList_toList]

/-! ### Numbers -/

/-- What may follow a value in a canonical text. -/
def Ends (t : List Char) : Prop := ∀ c ∈ t.head?, c = ',' ∨ c = ']' ∨ c = '}' ∨ c = '\n'

private theorem span_digits {digits rest : List Char} (hd : ∀ c ∈ digits, c.isDigit = true)
    (hr : Ends rest) : (digits ++ rest).span Char.isDigit = (digits, rest) := by
  rw [List.span_eq_takeWhile_dropWhile]
  have hr' : rest.takeWhile Char.isDigit = [] ∧ rest.dropWhile Char.isDigit = rest := by
    cases rest with
    | nil => exact ⟨rfl, rfl⟩
    | cons c t =>
      have hc : c.isDigit = false := by
        rcases hr c rfl with rfl | rfl | rfl | rfl <;> rfl
      rw [List.takeWhile_cons_of_neg (by simp [hc]), List.dropWhile_cons_of_neg (by simp [hc])]
      exact ⟨rfl, rfl⟩
  rw [List.takeWhile_append_of_pos hd, List.dropWhile_append_of_pos hd, hr'.1, hr'.2,
    List.append_nil]

private theorem toDigits_head_ne_zero {n : Nat} (hn : 0 < n) :
    ∃ c t, Nat.toDigits 10 n = c :: t ∧ c ≠ '0' ∧ c.isDigit = true := by
  induction n using Nat.strongRecOn with
  | ind n ih =>
    rcases Nat.lt_or_ge n 10 with hlt | hge
    · refine ⟨n.digitChar, [], Nat.toDigits_of_lt_base hlt, ?_, ?_⟩
      · rw [Ne, Nat.digitChar_eq_zero]
        omega
      · rw [Nat.isDigit_digitChar]
        exact decide_eq_true hlt
    · obtain ⟨c, t, ht, hc, hd⟩ := ih (n / 10) (by omega) (by omega)
      refine ⟨c, t ++ [(n % 10).digitChar], ?_, hc, hd⟩
      rw [Nat.toDigits_of_base_le (by decide) hge, ht]
      rfl

private theorem scanDigits_toDigits (n : Nat) {rest : List Char} (hr : Ends rest) :
    scanDigits (Nat.toDigits 10 n ++ rest) = (Nat.toDigits 10 n, rest) := by
  rcases Nat.eq_zero_or_pos n with rfl | hn
  · rfl
  · obtain ⟨c, t, ht, hc, -⟩ := toDigits_head_ne_zero hn
    have hspan := span_digits
      (fun c (hc : c ∈ Nat.toDigits 10 n) ↦
        Nat.isDigit_of_mem_toDigits (by decide) (by decide) hc) hr
    rw [ht, List.cons_append] at hspan ⊢
    unfold scanDigits
    split
    · next h => exact absurd (List.cons.inj h).1 hc
    · exact hspan

private theorem scanFraction_of_ends {t : List Char} (h : Ends t) : scanFraction t = ([], t) := by
  unfold scanFraction
  split
  · next u => rcases h '.' rfl with h | h | h | h <;> cases h
  · rfl

/-- Where a number ends there is no exponent. -/
theorem scanExponent_of_ends {t : List Char} (h : Ends t) : scanExponent t = ([], t) := by
  unfold scanExponent
  split
  · rfl
  · next c u =>
    rw [if_neg]
    rintro (rfl | rfl)
    all_goals rcases h _ rfl with h | h | h | h <;> cases h

private theorem scanUnsigned_toDigits (negative : Bool) (n : Nat) {rest : List Char}
    (hr : Ends rest) :
    scanUnsigned negative (Nat.toDigits 10 n ++ rest) =
      some (.int (if negative then -(n : Int) else n), rest) := by
  unfold scanUnsigned
  rw [scanDigits_toDigits n hr]
  split
  · next hd => exact absurd (Prod.mk.inj hd).1 Nat.toDigits_ne_nil
  · next digits u _ hd =>
    obtain ⟨rfl, rfl⟩ := Prod.mk.inj hd
    rw [scanFraction_of_ends hr]
    dsimp only
    rw [scanExponent_of_ends hr]
    simp only [and_self, if_true, Nat.ofDigitChars_ten_toDigits]

/-- The first character of a decimal numeral is a digit. -/
theorem toDigits_eq_cons (n : Nat) : ∃ c t, Nat.toDigits 10 n = c :: t ∧ c.isDigit = true := by
  obtain ⟨c, t, h⟩ := List.exists_cons_of_ne_nil (Nat.toDigits_ne_nil (n := n) (b := 10))
  exact ⟨c, t, h, Nat.isDigit_of_mem_toDigits (by decide) (by decide) (h ▸ List.mem_cons_self)⟩

private theorem scanNumber_decimal (n : Int) {rest : List Char} (hr : Ends rest) :
    scanNumber (decimal n ++ rest) = some (.int n, rest) := by
  cases n with
  | ofNat n =>
    have h := scanUnsigned_toDigits false n hr
    obtain ⟨c, t, ht, hd⟩ := toDigits_eq_cons n
    rw [decimal]
    rw [ht, List.cons_append] at h ⊢
    unfold scanNumber
    split
    · next hc =>
      rw [(List.cons.inj hc).1] at hd
      cases hd
    · exact h
  | negSucc n => exact scanUnsigned_toDigits true (n + 1) hr

/-! ### Reading back -/

/-- A text that begins like a value: not with a space, and not with a closing bracket. -/
def Starts (t : List Char) : Prop :=
  ∃ c u, t = c :: u ∧ skip t = t ∧ c ≠ ']' ∧ c ≠ '}'

/-- A text that is read as a float with this text. -/
def FloatText (text : String) : Prop :=
  Starts text.toList ∧ ∀ n rest, Ends rest →
    parseValue (n + 1) (text.toList ++ rest) = some (.float text, rest)

mutual

/-- Values whose names are sorted and whose floats are as they are read. -/
def Canonical : Json → Prop
  | .null => True
  | .bool _ => True
  | .int _ => True
  | .float text => FloatText text
  | .str _ => True
  | .arr items => CanonicalItems items
  | .obj fields => (fields.map Prod.fst).Pairwise (· < ·) ∧ CanonicalFields fields

/-- Items that are canonical. -/
def CanonicalItems : List Json → Prop
  | [] => True
  | v :: vs => v.Canonical ∧ CanonicalItems vs

/-- Fields whose values are canonical. -/
def CanonicalFields : List (String × Json) → Prop
  | [] => True
  | (_, v) :: fields => v.Canonical ∧ CanonicalFields fields

end

/-- Only blanks are skipped. -/
theorem skip_cons {c : Char} (t : List Char)
    (h : ¬ (c = ' ' ∨ c = '\t' ∨ c = '\n' ∨ c = '\r')) : skip (c :: t) = c :: t :=
  List.dropWhile_cons_of_neg (by simpa using h)

private theorem Starts.append {t : List Char} (h : Starts t) (u : List Char) : Starts (t ++ u) := by
  obtain ⟨c, t, rfl, hs, hb⟩ := h
  refine ⟨c, t ++ u, rfl, ?_, hb⟩
  rw [List.cons_append, skip_cons]
  intro hc
  have hlen := congrArg List.length hs
  unfold skip at hlen
  rw [List.dropWhile_cons_of_pos (by simpa using hc), List.length_cons] at hlen
  have := (List.dropWhile_suffix (l := t)
    (fun c ↦ decide (c = ' ' ∨ c = '\t' ∨ c = '\n' ∨ c = '\r'))).length_le
  omega

private theorem starts_decimal (n : Int) : Starts (decimal n) := by
  cases n with
  | ofNat n =>
    obtain ⟨c, u, hu, hd⟩ := toDigits_eq_cons n
    refine ⟨c, u, hu, ?_, ?_, ?_⟩
    · rw [decimal, hu, skip_cons]
      rintro (rfl | rfl | rfl | rfl) <;> cases hd
    · rintro rfl
      cases hd
    · rintro rfl
      cases hd
  | negSucc n => exact ⟨'-', _, rfl, rfl, by decide, by decide⟩

private theorem starts_dumps {v : Json} (h : v.Canonical) : Starts v.dumps := by
  unfold dumps
  split
  · exact ⟨'n', _, rfl, rfl, by decide, by decide⟩
  · exact ⟨'t', _, rfl, rfl, by decide, by decide⟩
  · exact ⟨'f', _, rfl, rfl, by decide, by decide⟩
  · exact starts_decimal _
  · exact h.1
  · exact ⟨'"', _, rfl, rfl, by decide, by decide⟩
  · exact ⟨'[', _, rfl, rfl, by decide, by decide⟩
  · exact ⟨'{', _, rfl, rfl, by decide, by decide⟩

/-- A text that differs from a word at some place is not that word. -/
theorem scanWord_eq_none {word t : List Char} (v : Json) {i : Nat} {c d : Char}
    (hw : word[i]? = some c) (ht : t[i]? = some d) (hcd : c ≠ d) : scanWord word v t = none := by
  unfold scanWord
  rw [if_neg]
  intro h
  obtain ⟨u, rfl⟩ := List.isPrefixOf_iff_prefix.mp h
  rw [List.getElem?_append_left (List.getElem?_eq_some_iff.mp hw).1, hw, Option.some.injEq] at ht
  exact hcd ht

/-- A numeral is not read as a word. -/
theorem scanWords_decimal (n : Int) (rest : List Char) : scanWords (decimal n ++ rest) = none := by
  rw [scanWords, List.findSome?_eq_none_iff]
  intro p hp
  simp only [words, List.mem_cons, List.not_mem_nil, or_false] at hp
  cases n with
  | ofNat n =>
    obtain ⟨d, u, hu, hd⟩ := toDigits_eq_cons n
    rw [decimal, hu]
    rcases hp with rfl | rfl | rfl | rfl | rfl | rfl
    all_goals
      refine scanWord_eq_none _ (i := 0) rfl rfl ?_
      rintro rfl
      cases hd
  | negSucc n =>
    obtain ⟨d, u, hu, hd⟩ := toDigits_eq_cons (n + 1)
    rw [decimal, hu]
    rcases hp with rfl | rfl | rfl | rfl | rfl | rfl
    iterate 5 exact scanWord_eq_none _ (i := 0) rfl rfl (by decide)
    refine scanWord_eq_none _ (i := 1) rfl rfl ?_
    rintro rfl
    cases hd

private theorem scanWords_null (rest : List Char) :
    scanWords (dumps .null ++ rest) = some (.null, rest) := by
  rw [dumps]
  rfl

private theorem scanWords_bool (b : Bool) (rest : List Char) :
    scanWords (dumps (.bool b) ++ rest) = some (.bool b, rest) := by
  cases b
  · rw [dumps]
    rfl
  · rw [dumps]
    rfl

/-- A new name goes to the end. -/
theorem setField_of_not_mem {fields : List (String × Json)} {name : String}
    (h : name ∉ fields.map Prod.fst) (v : Json) :
    setField fields name v = fields ++ [(name, v)] := if_neg h

/-- The items of an array are written one by one. -/
theorem dumpsItems_eq_map (items : List Json) : dumpsItems items = items.map dumps := by
  induction items with
  | nil => rfl
  | cons v items ih => rw [dumpsItems, ih, List.map_cons]

/-- The fields of an object are written one by one. -/
theorem dumpsFields_eq_map (fields : List (String × Json)) :
    dumpsFields fields = fields.map fun p ↦ (p.1, p.2.dumps) := by
  induction fields with
  | nil => rfl
  | cons p fields ih => rw [dumpsFields, ih, List.map_cons]

private theorem dumpsFields_map_fst (fields : List (String × Json)) :
    (dumpsFields fields).map Prod.fst = fields.map Prod.fst := by
  induction fields with
  | nil => rfl
  | cons p fields ih =>
    obtain ⟨name, v⟩ := p
    rw [dumpsFields, List.map_cons, List.map_cons, ih]

/-- Fields with sorted names are written in their order. -/
theorem insertionSort_dumpsFields {fields : List (String × Json)}
    (h : (fields.map Prod.fst).Pairwise (· < ·)) :
    ((dumpsFields fields).insertionSort fun a b ↦ a.1 ≤ b.1) = dumpsFields fields := by
  apply List.Pairwise.insertionSort_eq
  rw [← dumpsFields_map_fst, List.pairwise_map] at h
  exact h.imp fun hab ↦ le_of_lt hab

/-- Between two texts stands the separator. -/
theorem joinWith_cons_cons (separator : Char) (t u : List Char) (ts : List (List Char)) :
    joinWith separator (t :: u :: ts) = t ++ separator :: joinWith separator (u :: ts) := rfl

private theorem ends_cons {c : Char} (t : List Char) (h : c = ',' ∨ c = ']' ∨ c = '}' ∨ c = '\n') :
    Ends (c :: t) := by
  intro d hd
  cases hd
  exact h

private theorem fieldText_append (p : String × List Char) (rest : List Char) :
    fieldText p ++ rest = '"' :: (quoteTail p.1.toList ++ ':' :: (p.2 ++ rest)) := by
  rw [fieldText, quote, List.cons_append, List.cons_append, List.append_assoc, List.cons_append]

private theorem starts_joinWith {separator : Char} {t : List Char} (ts : List (List Char))
    (h : Starts t) : Starts (joinWith separator (t :: ts)) := by
  cases ts with
  | nil => exact h
  | cons u ts => exact h.append _

/-- A text that opens no string, object or array is a word or a number. -/
theorem parseValue_scalar {c : Char} (t : List Char) (n : Nat)
    (h : c ≠ '"' ∧ c ≠ '{' ∧ c ≠ '[') :
    parseValue (n + 1) (c :: t) =
      (scanWords (c :: t)).orElse fun _ ↦ scanNumber (c :: t) := by
  rw [parseValue, if_neg h.1, if_neg h.2.1, if_neg h.2.2]

private theorem decimal_eq_cons (n : Int) :
    ∃ c t, decimal n = c :: t ∧ c ≠ '"' ∧ c ≠ '{' ∧ c ≠ '[' := by
  cases n with
  | ofNat n =>
    obtain ⟨d, u, hu, hd⟩ := toDigits_eq_cons n
    refine ⟨d, u, hu, ?_, ?_, ?_⟩
    all_goals
      rintro rfl
      cases hd
  | negSucc n => exact ⟨'-', _, rfl, by decide, by decide, by decide⟩

private theorem starts_fields (p : String × Json) (fields : List (String × Json)) :
    Starts (joinWith ',' ((dumpsFields (p :: fields)).map fieldText)) :=
  starts_joinWith _ ⟨'"', _, rfl, rfl, by decide, by decide⟩

/-- Reading a bracketed list whose text begins like a value. -/
theorem parseValue_arr {t : List Char} (ht : Starts t) (n : Nat) :
    parseValue (n + 1) ('[' :: t) = (parseItems n t).map fun p ↦ (.arr p.1, p.2) := by
  obtain ⟨c, u, rfl, hs, hc, -⟩ := ht
  rw [parseValue, if_neg (by decide), if_neg (by decide), if_pos rfl, hs]
  split
  · next h => exact absurd (List.cons.inj h).1 hc
  · rfl

private theorem parseValue_obj {t : List Char} (ht : Starts t) (n : Nat) :
    parseValue (n + 1) ('{' :: t) = (parseFields n [] t).map fun p ↦ (.obj p.1, p.2) := by
  obtain ⟨c, u, rfl, hs, -, hc⟩ := ht
  rw [parseValue, if_neg (by decide), if_pos rfl, hs]
  split
  · next h => exact absurd (List.cons.inj h).1 hc
  · rfl

private theorem skip_of_starts {t : List Char} (h : Starts t) : skip t = t := by
  obtain ⟨c, u, -, hs, -⟩ := h
  exact hs

/-- Reading a field whose value is read back. -/
theorem parseFields_field {name : String} {v : Json} {n : Nat} {rest : List Char}
    (hv : v.Canonical) (h : parseValue n (v.dumps ++ rest) = some (v, rest))
    (before : List (String × Json)) :
    parseFields (n + 1) before (fieldText (name, v.dumps) ++ rest) =
      match skip rest with
      | '}' :: t => some (setField before name v, t)
      | ',' :: t => parseFields n (setField before name v) (skip t)
      | _ => none := by
  rw [fieldText_append, parseFields, scanString_quoteTail]
  change (match parseValue n (skip (v.dumps ++ rest)) with | none => _ | some (v, t) => _) = _
  rw [skip_of_starts ((starts_dumps hv).append _), h]

mutual

/-- A value is read back from its canonical text. -/
theorem parseValue_dumps (v : Json) (hv : v.Canonical) (n : Nat) (rest : List Char)
    (hn : 2 * v.dumps.length ≤ n) (hr : Ends rest) :
    parseValue n (v.dumps ++ rest) = some (v, rest) := by
  obtain ⟨m, rfl⟩ : ∃ m, n = m + 1 := by
    obtain ⟨c, u, hc, -⟩ := starts_dumps hv
    rw [hc, List.length_cons] at hn
    exact ⟨n - 1, by omega⟩
  match v with
  | .null =>
    have h := scanWords_null rest
    rw [dumps, List.cons_append] at h ⊢
    rw [parseValue_scalar _ _ (by decide), h]
    rfl
  | .bool true =>
    have h := scanWords_bool true rest
    rw [dumps, List.cons_append] at h ⊢
    rw [parseValue_scalar _ _ (by decide), h]
    rfl
  | .bool false =>
    have h := scanWords_bool false rest
    rw [dumps, List.cons_append] at h ⊢
    rw [parseValue_scalar _ _ (by decide), h]
    rfl
  | .int i =>
    have hw := scanWords_decimal i rest
    have hi := scanNumber_decimal i hr
    obtain ⟨c, t, hc, hq⟩ := decimal_eq_cons i
    rw [dumps]
    rw [hc, List.cons_append] at hw hi ⊢
    rw [parseValue_scalar _ _ hq, hw, hi]
    rfl
  | .float t =>
    rw [dumps]
    exact hv.2 m rest hr
  | .str s =>
    rw [dumps, quote, List.cons_append, parseValue, if_pos rfl, scanString_quoteTail]
    rfl
  | .arr [] =>
    rw [dumps, dumpsItems]
    rfl
  | .arr (w :: ws) =>
    rw [Canonical] at hv
    rw [dumps] at hn ⊢
    have hw : w.Canonical := hv.1
    rw [List.cons_append, List.cons_append, List.append_assoc, List.singleton_append]
    rw [List.cons_append, List.length_cons, List.length_append, List.length_singleton] at hn
    have hs : Starts (joinWith ',' (dumpsItems (w :: ws))) := starts_joinWith _ (starts_dumps hw)
    rw [parseValue_arr (hs.append _), parseItems_dumps w ws hv m rest (by omega)]
    rfl
  | .obj [] =>
    rw [dumps, dumpsFields]
    rfl
  | .obj (p :: fields) =>
    rw [Canonical] at hv
    rw [dumps, insertionSort_dumpsFields hv.1] at hn ⊢
    rw [List.cons_append, List.cons_append, List.append_assoc, List.singleton_append]
    rw [List.cons_append, List.length_cons, List.length_append, List.length_singleton] at hn
    rw [parseValue_obj ((starts_fields p fields).append _),
      parseFields_dumps p fields hv.2 [] (hv.1.imp fun h ↦ ne_of_lt h) m rest (by omega)]
    rfl
termination_by n

/-- Items are read back from their texts. -/
theorem parseItems_dumps (v : Json) (vs : List Json) (hv : CanonicalItems (v :: vs)) (n : Nat)
    (rest : List Char) (hn : 2 * (joinWith ',' (dumpsItems (v :: vs))).length + 1 ≤ n) :
    parseItems n (joinWith ',' (dumpsItems (v :: vs)) ++ ']' :: rest) = some (v :: vs, rest) := by
  obtain ⟨m, rfl⟩ : ∃ m, n = m + 1 := ⟨n - 1, by omega⟩
  rw [CanonicalItems] at hv
  match vs with
  | [] =>
    rw [dumpsItems, dumpsItems, joinWith] at hn ⊢
    rw [parseItems, parseValue_dumps v hv.1 m _ (by omega) (ends_cons rest (by decide))]
    rfl
  | w :: ws =>
    have hw : w.Canonical := hv.2.1
    have hs : Starts (joinWith ',' (dumpsItems (w :: ws))) := starts_joinWith _ (starts_dumps hw)
    rw [dumpsItems, dumpsItems, joinWith_cons_cons] at hn ⊢
    rw [← dumpsItems] at hn ⊢
    rw [List.length_append, List.length_cons] at hn
    rw [List.append_assoc, List.cons_append, parseItems,
      parseValue_dumps v hv.1 m _ (by omega) (ends_cons _ (by decide))]
    change (parseItems m (skip _)).map _ = _
    rw [skip_of_starts (hs.append _), parseItems_dumps w ws hv.2 m rest (by omega)]
    rfl
termination_by n

/-- Fields are read back from their texts. -/
theorem parseFields_dumps (p : String × Json) (fields : List (String × Json))
    (hv : CanonicalFields (p :: fields)) (before : List (String × Json))
    (hnd : ((before ++ p :: fields).map Prod.fst).Nodup) (n : Nat) (rest : List Char)
    (hn : 2 * (joinWith ',' ((dumpsFields (p :: fields)).map fieldText)).length + 1 ≤ n) :
    parseFields n before
        (joinWith ',' ((dumpsFields (p :: fields)).map fieldText) ++ '}' :: rest) =
      some (before ++ p :: fields, rest) := by
  obtain ⟨m, rfl⟩ : ∃ m, n = m + 1 := ⟨n - 1, by omega⟩
  obtain ⟨name, v⟩ := p
  rw [CanonicalFields] at hv
  have hname : name ∉ before.map Prod.fst := by
    rw [List.map_append, List.nodup_append] at hnd
    intro hm
    exact hnd.2.2 name hm name List.mem_cons_self rfl
  have hset := setField_of_not_mem hname v
  match fields with
  | [] =>
    rw [dumpsFields, dumpsFields, List.map_cons, List.map_nil, joinWith] at hn ⊢
    have hlen : (fieldText (name, v.dumps)).length = (quote name).length + (v.dumps.length + 1) :=
      List.length_append
    rw [parseFields_field hv.1
      (parseValue_dumps v hv.1 m _ (by omega) (ends_cons rest (by decide)))]
    change some (setField before name v, rest) = _
    rw [hset]
  | q :: more =>
    have hlen : (fieldText (name, v.dumps)).length = (quote name).length + (v.dumps.length + 1) :=
      List.length_append
    have hjoin : joinWith ',' ((dumpsFields ((name, v) :: q :: more)).map fieldText) =
        fieldText (name, v.dumps) ++
          ',' :: joinWith ',' ((dumpsFields (q :: more)).map fieldText) := rfl
    rw [hjoin] at hn ⊢
    rw [List.length_append, List.length_cons] at hn
    rw [List.append_assoc, List.cons_append, parseFields_field hv.1
      (parseValue_dumps v hv.1 m _ (by omega) (ends_cons _ (by decide)))]
    change parseFields m (setField before name v) (skip _) = _
    rw [skip_of_starts ((starts_fields q more).append _), hset,
      parseFields_dumps q more hv.2 (before ++ [(name, v)])
        (by rwa [List.append_assoc, List.singleton_append]) m rest (by omega),
      List.append_assoc, List.singleton_append]
termination_by n

end

/-- `json.loads` reads a canonical text, with or without a final line feed, as the value it was
written from. -/
theorem parse_dumps {v : Json} (hv : v.Canonical) (rest : List Char)
    (hr : rest = [] ∨ rest = ['\n']) : parse (v.dumps ++ rest) = some v := by
  have hends : Ends rest := by
    rcases hr with rfl | rfl
    · intro c hc
      cases hc
    · exact ends_cons [] (by decide)
  have hskip : skip rest = [] := by
    rcases hr with rfl | rfl <;> rfl
  unfold parse
  rw [skip_of_starts ((starts_dumps hv).append rest),
    parseValue_dumps v hv _ rest (by rw [List.length_append]; omega) hends]
  exact if_pos hskip

/-! ### Encoded texts -/

/-- `text.encode("utf-8")`. -/
def encodeText (t : List Char) : Bytes := utf8 (String.ofList t)

/-- `data.decode("utf-8")`. -/
def decodeUtf8 (data : Bytes) : Option (List Char) :=
  (ByteArray.mk data.toArray).utf8Decode?.map Array.toList

/-- Two-byte code units. -/
def units16 (bigEndian : Bool) : Bytes → Option (List Nat)
  | [] => some []
  | [_] => none
  | a :: b :: data =>
    let unit := if bigEndian then a.toNat * 256 + b.toNat else b.toNat * 256 + a.toNat
    (unit :: ·) <$> units16 bigEndian data

/-- Four-byte code points. -/
def decodeUtf32 (bigEndian : Bool) : Bytes → Option (List Char)
  | [] => some []
  | a :: b :: c :: d :: data =>
    let big := ((a.toNat * 256 + b.toNat) * 256 + c.toNat) * 256 + d.toNat
    let little := ((d.toNat * 256 + c.toNat) * 256 + b.toNat) * 256 + a.toNat
    let point := if bigEndian then big else little
    if point.isValidChar then (Char.ofNat point :: ·) <$> decodeUtf32 bigEndian data else none
  | _ => none

/-- `s.decode(detect_encoding(s))` of `json.loads`: a byte order mark, or the zero bytes in
front, decide the encoding. -/
def decodeText (data : Bytes) : Option (List Char) :=
  if [0, 0, 0xFE, 0xFF].isPrefixOf data then decodeUtf32 true (data.drop 4)
  else if [0xFF, 0xFE, 0, 0].isPrefixOf data then decodeUtf32 false (data.drop 4)
  else if [0xFE, 0xFF].isPrefixOf data then units16 true (data.drop 2) >>= joinUnits
  else if [0xFF, 0xFE].isPrefixOf data then units16 false (data.drop 2) >>= joinUnits
  else if [0xEF, 0xBB, 0xBF].isPrefixOf data then decodeUtf8 (data.drop 3)
  else
    match data with
    | 0 :: b :: _ :: _ :: _ =>
      if b = 0 then decodeUtf32 true data else units16 true data >>= joinUnits
    | _ :: 0 :: c :: d :: _ =>
      if c = 0 ∧ d = 0 then decodeUtf32 false data else units16 false data >>= joinUnits
    | [0, _] => units16 true data >>= joinUnits
    | [_, 0] => units16 false data >>= joinUnits
    | _ => decodeUtf8 data

/-- `json.loads` of bytes. -/
def loads (data : Bytes) : Option Json := decodeText data >>= parse

/-- `canonical_json`. -/
def canonicalJson (v : Json) : Bytes := encodeText v.dumps

/-- Encoding character by character is encoding the text. -/
theorem encodeText_eq (t : List Char) : encodeText t = t.utf8Encode.data.toList := by
  rw [encodeText, utf8, String.toByteArray_ofList]

/-- Texts are encoded one after the other. -/
@[simp] theorem encodeText_append (t u : List Char) :
    encodeText (t ++ u) = encodeText t ++ encodeText u := by
  rw [encodeText_eq, encodeText_eq, encodeText_eq]
  rw [List.utf8Encode_append, ByteArray.data_append, Array.toList_append]

/-- Encoded text decodes to itself. -/
theorem decodeUtf8_encodeText (t : List Char) : decodeUtf8 (encodeText t) = some t := by
  rw [encodeText_eq, decodeUtf8]
  rw [Array.toArray_toList, List.utf8Decode?_utf8Encode]
  rfl

/-- A text that begins with two ASCII characters, the first an opening brace, is UTF-8. -/
theorem decodeText_brace {b : UInt8} {data : Bytes} (hb : b ≠ 0) :
    decodeText (0x7B :: b :: data) = decodeUtf8 (0x7B :: b :: data) := by
  unfold decodeText
  rw [if_neg (by simp), if_neg (by simp), if_neg (by simp), if_neg (by simp), if_neg (by simp)]
  split
  · next h => cases h
  · next h =>
    injection h with _ h
    injection h with h _
    exact absurd h hb
  · next h => cases h
  · next h =>
    injection h with _ h
    injection h with h _
    exact absurd h hb
  · rfl

/-- The text of an object begins with a brace and a quote or a brace. -/
theorem canonicalItems_map {α : Type} {f : α → Json} (hf : ∀ a, (f a).Canonical) (l : List α) :
    CanonicalItems (l.map f) := by
  induction l with
  | nil => exact trivial
  | cons a l ih => exact ⟨hf a, ih⟩

private theorem dumps_obj_eq_cons (fields : List (String × Json)) :
    ∃ c t, dumps (.obj fields) = '{' :: c :: t ∧ (c = '"' ∨ c = '}') := by
  rw [dumps]
  generalize (dumpsFields fields).insertionSort (fun a b ↦ a.1 ≤ b.1) = ps
  cases ps with
  | nil => exact ⟨'}', [], rfl, .inr rfl⟩
  | cons p ps =>
    cases ps with
    | nil => exact ⟨'"', _, rfl, .inl rfl⟩
    | cons q qs => exact ⟨'"', _, rfl, .inl rfl⟩

/-- `json.loads` reads back what `canonical_json` writes of an object. -/
theorem loads_canonicalJson {fields : List (String × Json)} (h : (Json.obj fields).Canonical)
    (rest : List Char) (hr : rest = [] ∨ rest = ['\n']) :
    loads (canonicalJson (.obj fields) ++ encodeText rest) = some (.obj fields) := by
  unfold loads canonicalJson
  rw [← encodeText_append]
  have hd : decodeText (encodeText (dumps (.obj fields) ++ rest)) =
      decodeUtf8 (encodeText (dumps (.obj fields) ++ rest)) := by
    obtain ⟨c, t, ht, hc⟩ := dumps_obj_eq_cons fields
    rw [ht]
    obtain ⟨b, hb, hcb⟩ : ∃ b : UInt8, b ≠ 0 ∧ encodeText [c] = [b] := by
      rcases hc with rfl | rfl
      · exact ⟨0x22, by decide, by decide⟩
      · exact ⟨0x7D, by decide, by decide⟩
    have he : encodeText ('{' :: c :: t ++ rest) = 0x7B :: b :: encodeText (t ++ rest) := by
      rw [← List.singleton_append, ← List.singleton_append (x := c)]
      rw [List.append_assoc, List.append_assoc, encodeText_append, encodeText_append, hcb]
      rfl
    rw [he]
    exact decodeText_brace hb
  rw [hd, decodeUtf8_encodeText]
  exact parse_dumps h rest hr

end Json

end SpoolCache.Base

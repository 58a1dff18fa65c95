import SpoolCache.Base.Json

/-!
# JSON texts that were read

Library `Base`. A value that `json.loads` returned has distinct names, and its floats are written
as they were read. Two such values have one canonical text only if they have the same fields with
the same contents.
-/

namespace SpoolCache.Base.Json

/-! ### Floats -/

private theorem isDigit_of_mem_span {t digits rest : List Char}
    (h : t.span Char.isDigit = (digits, rest)) :
    ∀ c ∈ digits, c.isDigit = true := by
  rw [List.span_eq_takeWhile_dropWhile, Prod.mk.injEq] at h
  rw [← h.1]
  intro c hc
  exact List.all_eq_true.mp List.all_takeWhile c hc

/-- A text that no digit begins. -/
def NoDigit (t : List Char) : Prop := ∀ c ∈ t.head?, c.isDigit = false

private theorem span_append {digits rest : List Char} (hd : ∀ c ∈ digits, c.isDigit = true)
    (hr : NoDigit rest) : (digits ++ rest).span Char.isDigit = (digits, rest) := by
  rw [List.span_eq_takeWhile_dropWhile, List.takeWhile_append_of_pos hd,
    List.dropWhile_append_of_pos hd]
  cases rest with
  | nil => rw [List.takeWhile_nil, List.dropWhile_nil, List.append_nil]
  | cons c t =>
    have hc : ¬ c.isDigit = true := by simp [hr c rfl]
    rw [List.takeWhile_cons_of_neg hc, List.dropWhile_cons_of_neg hc, List.append_nil]

private theorem noDigit_of_ends {t : List Char} (h : Ends t) : NoDigit t := by
  intro c hc
  rcases h c hc with rfl | rfl | rfl | rfl <;> rfl

/-- The digits of a number are scanned the same before another rest. -/
theorem scanDigits_again {t digits rest u : List Char} (h : scanDigits t = (digits, rest))
    (hne : digits ≠ []) (hu : NoDigit u) : scanDigits (digits ++ u) = (digits, u) := by
  unfold scanDigits at h
  split at h
  · next t =>
    cases h
    rfl
  · next hzero =>
    have hd := isDigit_of_mem_span h
    obtain ⟨c, ds, rfl⟩ := List.exists_cons_of_ne_nil hne
    have hc : c ≠ '0' := by
      rintro rfl
      rw [List.span_eq_takeWhile_dropWhile, Prod.mk.injEq] at h
      cases t with
      | nil => cases h.1
      | cons d t =>
        by_cases hd' : d.isDigit = true
        · rw [List.takeWhile_cons_of_pos hd'] at h
          exact hzero t (by rw [(List.cons.inj h.1).1])
        · rw [List.takeWhile_cons_of_neg hd'] at h
          cases h.1
    unfold scanDigits
    split
    · next heq => exact absurd (List.cons.inj heq).1 hc
    · exact span_append hd hu

private theorem scanFraction_digits {digits u : List Char} (hne : digits ≠ [])
    (hd : ∀ c ∈ digits, c.isDigit = true) (hu : NoDigit u) :
    scanFraction ('.' :: (digits ++ u)) = ('.' :: digits, u) := by
  rw [scanFraction, span_append hd hu]
  split
  · next h => exact absurd (Prod.mk.inj h).1 hne
  · next h =>
    cases h
    rfl

private theorem scanFraction_again {t fraction rest u : List Char}
    (h : scanFraction t = (fraction, rest)) (hu : NoDigit u) (hdot : ∀ c ∈ u.head?, c ≠ '.') :
    scanFraction (fraction ++ u) = (fraction, u) := by
  have hnone : scanFraction u = ([], u) := by
    unfold scanFraction
    split
    · next v => exact absurd rfl (hdot '.' rfl)
    · rfl
  unfold scanFraction at h
  split at h
  · split at h
    · cases h
      exact hnone
    · next hne heq =>
      cases h
      exact scanFraction_digits hne (isDigit_of_mem_span heq) hu
  · cases h
    exact hnone

/-- The sign of an exponent. -/
def scanSign : List Char → List Char × List Char
  | '+' :: u => (['+'], u)
  | '-' :: u => (['-'], u)
  | u => ([], u)

private theorem scanSign_again {t sign rest digits : List Char} (h : scanSign t = (sign, rest))
    (hne : digits ≠ []) (hd : ∀ c ∈ digits, c.isDigit = true) :
    scanSign (sign ++ digits) = (sign, digits) := by
  unfold scanSign at h
  split at h
  · cases h
    rfl
  · cases h
    rfl
  · cases h
    obtain ⟨c, ds, rfl⟩ := List.exists_cons_of_ne_nil hne
    have hc := hd c List.mem_cons_self
    unfold scanSign
    split
    · next heq =>
      rw [(List.cons.inj heq).1] at hc
      cases hc
    · next heq =>
      rw [(List.cons.inj heq).1] at hc
      cases hc
    · rfl

private theorem scanExponent_cons {e : Char} (he : e = 'e' ∨ e = 'E') (t : List Char) :
    scanExponent (e :: t) =
      match (scanSign t).2.span Char.isDigit with
      | ([], _) => ([], e :: t)
      | (digits, rest) => (e :: (scanSign t).1 ++ digits, rest) := by
  unfold scanExponent
  dsimp only
  rw [if_pos he]
  rfl

private theorem scanSign_append {t sign digits : List Char} (h : scanSign t = (sign, digits))
    (hne : digits ≠ []) (u : List Char) : scanSign (t ++ u) = (sign, digits ++ u) := by
  unfold scanSign at h
  split at h
  · cases h
    rfl
  · cases h
    rfl
  · next hplus hminus =>
    cases h
    obtain ⟨c, ds, rfl⟩ := List.exists_cons_of_ne_nil hne
    unfold scanSign
    split
    · next heq => exact absurd (by rw [(List.cons.inj heq).1]) (hplus ds)
    · next heq => exact absurd (by rw [(List.cons.inj heq).1]) (hminus ds)
    · rfl

/-- An exponent is empty, or begins with its letter; it is scanned the same before another end. -/
theorem scanExponent_again {t exponent rest u : List Char}
    (h : scanExponent t = (exponent, rest)) (hu : Ends u) :
    scanExponent (exponent ++ u) = (exponent, u) ∧
      ∀ c ∈ exponent.head?, c = 'e' ∨ c = 'E' := by
  have hnone : scanExponent ([] ++ u) = ([], u) ∧ ∀ c ∈ ([] : List Char).head?, c = 'e' ∨ c = 'E' :=
    ⟨scanExponent_of_ends hu, fun c hc ↦ (by cases hc)⟩
  cases t with
  | nil =>
    cases h
    exact hnone
  | cons e t =>
    by_cases he : e = 'e' ∨ e = 'E'
    · rw [scanExponent_cons he] at h
      split at h
      · cases h
        exact hnone
      · next digits v hne heq =>
        cases h
        have hd := isDigit_of_mem_span heq
        have hsign := scanSign_append (scanSign_again (Prod.eta (scanSign t)).symm hne hd) hne u
        refine ⟨?_, ?_⟩
        · rw [List.cons_append, List.cons_append, scanExponent_cons he, hsign]
          dsimp only
          rw [span_append hd (noDigit_of_ends hu)]
          split
          · next h => exact absurd (Prod.mk.inj h).1 hne
          · next h =>
            cases h
            rfl
        · intro c hc
          cases hc
          exact he
    · have hnil : scanExponent (e :: t) = ([], e :: t) := by
        unfold scanExponent
        exact if_neg he
      rw [hnil] at h
      cases h
      exact hnone

/-- What follows the digits of a number. -/
theorem noDigit_tail {fraction exponent u : List Char}
    (hf : fraction = [] ∨ ∃ ds, fraction = '.' :: ds)
    (he : ∀ c ∈ exponent.head?, c = 'e' ∨ c = 'E') (hu : Ends u) :
    NoDigit (fraction ++ (exponent ++ u)) ∧ NoDigit (exponent ++ u) ∧
      ∀ c ∈ (exponent ++ u).head?, c ≠ '.' := by
  have htail : NoDigit (exponent ++ u) ∧ ∀ c ∈ (exponent ++ u).head?, c ≠ '.' := by
    cases exponent with
    | nil =>
      refine ⟨noDigit_of_ends hu, ?_⟩
      rintro c hc rfl
      rcases hu '.' hc with h | h | h | h <;> cases h
    | cons c ds =>
      constructor
      · intro d hd
        cases hd
        rcases he c rfl with rfl | rfl <;> rfl
      · intro d hd
        cases hd
        rcases he c rfl with rfl | rfl <;> decide
  refine ⟨?_, htail⟩
  rcases hf with rfl | ⟨ds, rfl⟩
  · exact htail.1
  · intro c hc
    cases hc
    rfl

private theorem scanFraction_eq_nil_or {t fraction rest : List Char}
    (h : scanFraction t = (fraction, rest)) : fraction = [] ∨ ∃ ds, fraction = '.' :: ds := by
  unfold scanFraction at h
  split at h
  · split at h
    · cases h
      exact .inl rfl
    · cases h
      exact .inr ⟨_, rfl⟩
  · cases h
    exact .inl rfl

private theorem isDigit_scanDigits {t digits rest : List Char} (h : scanDigits t = (digits, rest)) :
    ∀ c ∈ digits, c.isDigit = true := by
  unfold scanDigits at h
  split at h
  · cases h
    intro c hc
    rw [List.mem_singleton.mp hc]
    rfl
  · exact isDigit_of_mem_span h

/-- A number that was read as a float. -/
theorem scanUnsigned_float {negative : Bool} {t rest : List Char} {text : String}
    (h : scanUnsigned negative t = some (.float text, rest)) :
    ∃ c body, c.isDigit = true ∧ text.toList = (if negative then ['-'] else []) ++ c :: body ∧
      ∀ u, Ends u → scanUnsigned negative (c :: body ++ u) = some (.float text, u) := by
  unfold scanUnsigned at h
  split at h
  · cases h
  · next digits t1 hne hdigits =>
    generalize hfraction : scanFraction t1 = out at h
    obtain ⟨fraction, t2⟩ := out
    dsimp only at h
    generalize hexponent : scanExponent t2 = out at h
    obtain ⟨exponent, t3⟩ := out
    dsimp only at h
    split at h
    · cases h
    · next hfloat =>
      cases h
      have hf := scanFraction_eq_nil_or hfraction
      obtain ⟨c, ds, rfl⟩ := List.exists_cons_of_ne_nil hne
      refine ⟨c, ds ++ fraction ++ exponent, ?_, ?_, ?_⟩
      · exact isDigit_scanDigits hdigits c List.mem_cons_self
      · rw [String.toList_ofList]
        simp only [List.append_assoc, List.cons_append]
      · intro u hu
        obtain ⟨hexp, hhead⟩ := scanExponent_again hexponent hu
        obtain ⟨hall, htail, hdot⟩ := noDigit_tail hf hhead hu
        have heq : c :: (ds ++ fraction ++ exponent) ++ u =
            (c :: ds) ++ (fraction ++ (exponent ++ u)) := by
          simp only [List.append_assoc, List.cons_append]
        unfold scanUnsigned
        rw [heq, scanDigits_again hdigits hne hall]
        dsimp only
        rw [scanFraction_again hfraction htail hdot]
        dsimp only
        rw [hexp]
        dsimp only
        rw [if_neg hfloat]

private theorem scanWords_digit {c : Char} (hc : c.isDigit = true) (t : List Char) :
    scanWords (c :: t) = none ∧ scanWords ('-' :: c :: t) = none := by
  constructor
  · rw [scanWords, List.findSome?_eq_none_iff]
    intro p hp
    simp only [words, List.mem_cons, List.not_mem_nil, or_false] at hp
    rcases hp with rfl | rfl | rfl | rfl | rfl | rfl
    all_goals
      refine scanWord_eq_none _ (i := 0) rfl rfl ?_
      rintro rfl
      cases hc
  · rw [scanWords, List.findSome?_eq_none_iff]
    intro p hp
    simp only [words, List.mem_cons, List.not_mem_nil, or_false] at hp
    rcases hp with rfl | rfl | rfl | rfl | rfl | rfl
    iterate 5 exact scanWord_eq_none _ (i := 0) rfl rfl (by decide)
    refine scanWord_eq_none _ (i := 1) rfl rfl ?_
    rintro rfl
    cases hc

private theorem floatText_scanNumber {t rest : List Char} {text : String}
    (h : scanNumber t = some (.float text, rest)) : FloatText text := by
  unfold scanNumber at h
  split at h
  · obtain ⟨c, body, hc, htext, hagain⟩ := scanUnsigned_float h
    rw [if_pos rfl, List.singleton_append] at htext
    refine ⟨⟨'-', c :: body, htext, ?_, by decide, by decide⟩, ?_⟩
    · rw [htext]
      rfl
    · intro n u hu
      rw [htext, List.cons_append, parseValue_scalar _ _ (by decide), List.cons_append,
        (scanWords_digit hc _).2]
      exact hagain u hu
  · obtain ⟨c, body, hc, htext, hagain⟩ := scanUnsigned_float h
    rw [if_neg Bool.false_ne_true, List.nil_append] at htext
    have hne : ∀ d : Char, d.isDigit = false → c ≠ d := by
      rintro d hd rfl
      rw [hd] at hc
      cases hc
    refine ⟨⟨c, body, htext, ?_, hne _ rfl, hne _ rfl⟩, ?_⟩
    · rw [htext, skip_cons]
      rintro (rfl | rfl | rfl | rfl) <;> cases hc
    · intro n u hu
      rw [htext, List.cons_append, parseValue_scalar _ _ ⟨hne _ rfl, hne _ rfl, hne _ rfl⟩,
        (scanWords_digit hc _).1]
      unfold scanNumber
      dsimp only [Option.orElse]
      split
      · next heq => exact absurd (List.cons.inj heq).1 (hne _ rfl)
      · exact hagain u hu

private theorem floatText_word {text : String}
    (h : text = "NaN" ∨ text = "Infinity" ∨ text = "-Infinity") :
    FloatText text := by
  rcases h with rfl | rfl | rfl
  · exact ⟨⟨'N', _, rfl, rfl, by decide, by decide⟩, fun n u _ ↦ rfl⟩
  · exact ⟨⟨'I', _, rfl, rfl, by decide, by decide⟩, fun n u _ ↦ rfl⟩
  · exact ⟨⟨'-', _, rfl, rfl, by decide, by decide⟩, fun n u _ ↦ rfl⟩

/-! ### Values that were read -/

mutual

/-- Values with distinct names, whose floats are as they are read. -/
def Readable : Json → Prop
  | .null => True
  | .bool _ => True
  | .int _ => True
  | .float text => FloatText text
  | .str _ => True
  | .arr items => ReadableItems items
  | .obj fields => (fields.map Prod.fst).Nodup ∧ ReadableFields fields

/-- Items that are readable. -/
def ReadableItems : List Json → Prop
  | [] => True
  | v :: vs => v.Readable ∧ ReadableItems vs

/-- Fields whose values are readable. -/
def ReadableFields : List (String × Json) → Prop
  | [] => True
  | (_, v) :: fields => v.Readable ∧ ReadableFields fields

end

/-- An array can be read back when its items can. -/
theorem readableItems_iff (items : List Json) : ReadableItems items ↔ ∀ v ∈ items, v.Readable := by
  induction items with
  | nil => simp [ReadableItems]
  | cons v items ih => rw [ReadableItems, ih, List.forall_mem_cons]

private theorem readableFields_iff (fields : List (String × Json)) :
    ReadableFields fields ↔ ∀ p ∈ fields, p.2.Readable := by
  induction fields with
  | nil => simp [ReadableFields]
  | cons p fields ih => rw [ReadableFields, ih, List.forall_mem_cons]

/-- Setting a field keeps the names distinct. -/
theorem readable_setField {fields : List (String × Json)} {name : String} {v : Json}
    (h : (Json.obj fields).Readable) (hv : v.Readable) :
    (Json.obj (setField fields name v)).Readable := by
  rw [Readable, readableFields_iff] at h ⊢
  unfold setField
  split
  · next hmem =>
    constructor
    · have hnames : (fields.map fun p ↦ if p.1 = name then (name, v) else p).map Prod.fst =
          fields.map Prod.fst := by
        rw [List.map_map]
        refine List.map_congr_left fun p _ ↦ ?_
        dsimp only [Function.comp]
        split
        · next hp => exact hp.symm
        · rfl
      rw [hnames]
      exact h.1
    · intro p hp
      obtain ⟨q, hq, rfl⟩ := List.mem_map.mp hp
      split
      · exact hv
      · exact h.2 q hq
  · next hmem =>
    constructor
    · rw [List.map_append, List.nodup_append]
      refine ⟨h.1, List.nodup_singleton _, ?_⟩
      intro a ha b hb heq
      rw [heq, List.mem_singleton.mp hb] at ha
      exact hmem ha
    · intro p hp
      rcases List.mem_append.mp hp with hp | hp
      · exact h.2 p hp
      · rw [List.mem_singleton.mp hp]
        exact hv

private theorem readable_of_words {t rest : List Char} {v : Json}
    (h : scanWords t = some (v, rest)) :
    v.Readable := by
  obtain ⟨p, hp, hword⟩ := List.exists_of_findSome?_eq_some h
  unfold scanWord at hword
  split at hword
  · cases hword
    simp only [words, List.mem_cons, List.not_mem_nil, or_false] at hp
    rcases hp with rfl | rfl | rfl | rfl | rfl | rfl
    · trivial
    · trivial
    · trivial
    · exact floatText_word (.inl rfl)
    · exact floatText_word (.inr (.inl rfl))
    · exact floatText_word (.inr (.inr rfl))
  · cases hword

private theorem scanUnsigned_cases {negative : Bool} {t rest : List Char} {v : Json}
    (h : scanUnsigned negative t = some (v, rest)) : (∃ n, v = .int n) ∨ ∃ text, v = .float text := by
  unfold scanUnsigned at h
  split at h
  · cases h
  · dsimp only at h
    split at h
    · cases h
      exact .inl ⟨_, rfl⟩
    · cases h
      exact .inr ⟨_, rfl⟩

private theorem readable_of_number {t rest : List Char} {v : Json}
    (h : scanNumber t = some (v, rest)) :
    v.Readable := by
  have hcases : (∃ n, v = .int n) ∨ ∃ text, v = .float text := by
    unfold scanNumber at h
    split at h
    · exact scanUnsigned_cases h
    · exact scanUnsigned_cases h
  rcases hcases with ⟨n, rfl⟩ | ⟨text, rfl⟩
  · trivial
  · exact floatText_scanNumber h

mutual

private theorem readable_parseValue (n : Nat) (t : List Char) {v : Json} {rest : List Char}
    (h : parseValue n t = some (v, rest)) : v.Readable := by
  match n, t with
  | 0, _ =>
    rw [parseValue] at h
    cases h
  | _ + 1, [] =>
    rw [parseValue] at h
    cases h
  | n + 1, c :: t =>
    rw [parseValue] at h
    split at h
    · obtain ⟨p, -, heq⟩ := Option.map_eq_some_iff.mp h
      cases heq
      trivial
    split at h
    · split at h
      · cases h
        exact ⟨List.nodup_nil, trivial⟩
      · obtain ⟨p, hp, heq⟩ := Option.map_eq_some_iff.mp h
        cases heq
        exact readable_parseFields n [] _ ⟨List.nodup_nil, trivial⟩ hp
    split at h
    · split at h
      · cases h
        trivial
      · obtain ⟨p, hp, heq⟩ := Option.map_eq_some_iff.mp h
        cases heq
        exact readable_parseItems n _ hp
    · cases hw : scanWords (c :: t) with
      | none =>
        rw [hw] at h
        exact readable_of_number h
      | some p =>
        rw [hw] at h
        cases h
        exact readable_of_words hw

/-- Parsed items can be read back. -/
theorem readable_parseItems (n : Nat) (t : List Char) {items : List Json} {rest : List Char}
    (h : parseItems n t = some (items, rest)) : ReadableItems items := by
  match n with
  | 0 =>
    rw [parseItems] at h
    cases h
  | n + 1 =>
    rw [parseItems] at h
    split at h
    · cases h
    · next v t' hv =>
      have hv := readable_parseValue n t hv
      split at h
      · cases h
        exact ⟨hv, trivial⟩
      · obtain ⟨p, hp, heq⟩ := Option.map_eq_some_iff.mp h
        cases heq
        exact ⟨hv, readable_parseItems n _ hp⟩
      · cases h

/-- Parsed fields have distinct names. -/
theorem readable_parseFields (n : Nat) (before : List (String × Json)) (t : List Char)
    {fields : List (String × Json)} {rest : List Char} (hbefore : (Json.obj before).Readable)
    (h : parseFields n before t = some (fields, rest)) : (Json.obj fields).Readable := by
  match n with
  | 0 =>
    rw [parseFields] at h
    cases h
  | n + 1 =>
    unfold parseFields at h
    split at h
    · split at h
      · cases h
      · split at h
        · split at h
          · cases h
          · next v t' hv =>
            have hv := readable_parseValue n _ hv
            split at h
            · cases h
              exact readable_setField hbefore hv
            · exact readable_parseFields n _ _ (readable_setField hbefore hv) h
            · cases h
        · cases h
    · cases h

end

/-- What is parsed can be read back. -/
theorem readable_loads {data : Bytes} {v : Json} (h : loads data = some v) : v.Readable := by
  obtain ⟨t, -, h⟩ := Option.bind_eq_some_iff.mp h
  unfold parse at h
  split at h
  · next w rest hw =>
    split at h
    · cases h
      exact readable_parseValue _ _ hw
    · cases h
  · cases h

/-! ### Sorted values -/

mutual

/-- The value with the fields of every object in the order of their names. -/
def sorted : Json → Json
  | .null => .null
  | .bool b => .bool b
  | .int n => .int n
  | .float text => .float text
  | .str s => .str s
  | .arr items => .arr (sortedItems items)
  | .obj fields => .obj ((sortedFields fields).insertionSort fun a b ↦ a.1 ≤ b.1)

/-- Items with sorted values. -/
def sortedItems : List Json → List Json
  | [] => []
  | v :: vs => v.sorted :: sortedItems vs

/-- Fields with sorted values. -/
def sortedFields : List (String × Json) → List (String × Json)
  | [] => []
  | (name, v) :: fields => (name, v.sorted) :: sortedFields fields

end

/-- The items of an array are sorted inside, one by one. -/
theorem sortedItems_eq_map (items : List Json) : sortedItems items = items.map sorted := by
  induction items with
  | nil => rfl
  | cons v items ih => rw [sortedItems, ih, List.map_cons]

/-- The values of the fields are sorted inside, one by one. -/
theorem sortedFields_eq_map (fields : List (String × Json)) :
    sortedFields fields = fields.map fun p ↦ (p.1, p.2.sorted) := by
  induction fields with
  | nil => rfl
  | cons p fields ih => rw [sortedFields, ih, List.map_cons]

/-- Sorting by name commutes with a change of the values, and is done once. -/
theorem insertionSort_map_insertionSort {α β : Type} (f : α → β) (l : List (String × α)) :
    (((l.insertionSort fun a b ↦ a.1 ≤ b.1).map fun p ↦ (p.1, f p.2)).insertionSort
        fun a b ↦ a.1 ≤ b.1) =
      (l.map fun p ↦ (p.1, f p.2)).insertionSort fun a b ↦ a.1 ≤ b.1 := by
  have hmap := List.map_insertionSort (fun a b : String × α ↦ a.1 ≤ b.1)
    (fun a b : String × β ↦ a.1 ≤ b.1) (fun p ↦ (p.1, f p.2)) l (fun _ _ _ _ ↦ Iff.rfl)
  rw [hmap]
  apply List.Pairwise.insertionSort_eq
  have : Std.Total fun a b : String × β ↦ a.1 ≤ b.1 := ⟨fun a b ↦ le_total a.1 b.1⟩
  have : IsTrans (String × β) fun a b ↦ a.1 ≤ b.1 := ⟨fun a b c hab hbc ↦ le_trans hab hbc⟩
  exact List.pairwise_insertionSort _ _

mutual

private theorem dumps_sorted (v : Json) : v.sorted.dumps = v.dumps := by
  match v with
  | .null => rfl
  | .bool b => rfl
  | .int n => rfl
  | .float text => rfl
  | .str s => rfl
  | .arr items => rw [sorted, dumps, dumps, dumpsItems_sorted]
  | .obj fields =>
    rw [sorted, dumps, dumps, dumpsFields_eq_map, insertionSort_map_insertionSort,
      ← dumpsFields_eq_map, dumpsFields_sorted]

/-- Sorting inside the items does not change their sorted texts. -/
theorem dumpsItems_sorted (items : List Json) :
    dumpsItems (sortedItems items) = dumpsItems items := by
  match items with
  | [] => rfl
  | v :: vs => rw [sortedItems, dumpsItems, dumpsItems, dumps_sorted v, dumpsItems_sorted vs]

/-- Sorting inside the values does not change their sorted texts. -/
theorem dumpsFields_sorted (fields : List (String × Json)) :
    dumpsFields (sortedFields fields) = dumpsFields fields := by
  match fields with
  | [] => rfl
  | (name, v) :: fields =>
    rw [sortedFields, dumpsFields, dumpsFields, dumps_sorted v, dumpsFields_sorted fields]

end

private theorem canonicalFields_iff (fields : List (String × Json)) :
    CanonicalFields fields ↔ ∀ p ∈ fields, p.2.Canonical := by
  induction fields with
  | nil => simp [CanonicalFields]
  | cons p fields ih => rw [CanonicalFields, ih, List.forall_mem_cons]

private theorem sorted_names {fields : List (String × Json)} (h : (fields.map Prod.fst).Nodup) :
    ((fields.insertionSort fun a b ↦ a.1 ≤ b.1).map Prod.fst).Pairwise (· < ·) := by
  have : Std.Total fun a b : String × Json ↦ a.1 ≤ b.1 := ⟨fun a b ↦ le_total a.1 b.1⟩
  have : IsTrans (String × Json) fun a b ↦ a.1 ≤ b.1 := ⟨fun a b c hab hbc ↦ le_trans hab hbc⟩
  have hle : ((fields.insertionSort fun a b ↦ a.1 ≤ b.1).map Prod.fst).Pairwise (· ≤ ·) :=
    List.pairwise_map.mpr (List.pairwise_insertionSort _ _)
  have hnodup := ((List.perm_insertionSort (fun a b : String × Json ↦ a.1 ≤ b.1) fields).map
    Prod.fst).nodup_iff.mpr h
  exact hle.imp₂ (fun _ _ h hne ↦ lt_of_le_of_ne h hne) hnodup

mutual

/-- Sorting the names makes a readable value canonical. -/
theorem canonical_sorted (v : Json) (h : v.Readable) : v.sorted.Canonical := by
  match v with
  | .null => trivial
  | .bool b => trivial
  | .int n => trivial
  | .float text => exact h
  | .str s => trivial
  | .arr items => exact canonicalItems_sorted items h
  | .obj fields =>
    have hfields := canonicalFields_sorted fields h.2
    rw [canonicalFields_iff] at hfields
    refine ⟨sorted_names ?_, ?_⟩
    · rw [sortedFields_eq_map, List.map_map]
      exact h.1
    · rw [canonicalFields_iff]
      intro p hp
      exact hfields p ((List.perm_insertionSort _ _).mem_iff.mp hp)

/-- Sorting makes readable items canonical. -/
theorem canonicalItems_sorted (items : List Json) (h : ReadableItems items) :
    CanonicalItems (sortedItems items) := by
  match items with
  | [] => trivial
  | v :: vs => exact ⟨canonical_sorted v h.1, canonicalItems_sorted vs h.2⟩

/-- Sorting makes readable values canonical. -/
theorem canonicalFields_sorted (fields : List (String × Json)) (h : ReadableFields fields) :
    CanonicalFields (sortedFields fields) := by
  match fields with
  | [] => trivial
  | (name, v) :: fields => exact ⟨canonical_sorted v h.1, canonicalFields_sorted fields h.2⟩

end

/-- The canonical text does not depend on the order of the names. -/
theorem canonicalJson_sorted (v : Json) : canonicalJson v.sorted = canonicalJson v := by
  rw [canonicalJson, canonicalJson, dumps_sorted]

/-- Canonical values are determined by their bytes. -/
theorem canonicalJson_inj {v w : Json} (hv : v.Canonical) (hw : w.Canonical)
    (h : canonicalJson v = canonicalJson w) : v = w := by
  have htext : v.dumps = w.dumps := by
    have hdecode := congrArg decodeUtf8 h
    unfold canonicalJson at hdecode
    rw [decodeUtf8_encodeText, decodeUtf8_encodeText] at hdecode
    exact Option.some.inj hdecode
  have hparse := parse_dumps hv [] (.inl rfl)
  rw [htext, parse_dumps hw [] (.inl rfl)] at hparse
  exact (Option.some.inj hparse).symm

/-- A value that was read and has the text of a canonical one is it, once sorted. -/
theorem sorted_eq_of_canonicalJson {v w : Json} (hv : v.Readable) (hw : w.Canonical)
    (h : canonicalJson v = canonicalJson w) : v.sorted = w := by
  rw [← canonicalJson_sorted] at h
  exact canonicalJson_inj (canonical_sorted v hv) hw h

private theorem field?_eq_some_iff {fields : List (String × Json)} (h : (fields.map Prod.fst).Nodup)
    (name : String) (v : Json) : (Json.obj fields).field? name = some v ↔ (name, v) ∈ fields := by
  rw [field?]
  induction fields with
  | nil => simp
  | cons p fields ih =>
    rw [List.map_cons, List.nodup_cons] at h
    rw [List.find?_cons]
    by_cases hp : p.1 = name
    · have hno : (name, v) ∉ fields := by
        intro hmem
        exact h.1 (List.mem_map.mpr ⟨(name, v), hmem, hp.symm⟩)
      simp only [hp, decide_true, Option.map_some, Option.some.injEq, List.mem_cons, hno, or_false]
      constructor
      · rintro rfl
        rw [← hp]
      · intro heq
        rw [← heq]
    · have hne : (name, v) ≠ p := by
        rintro rfl
        exact hp rfl
      simp only [hp, decide_false, List.mem_cons, hne, false_or]
      exact ih h.2

/-- The fields of a value are those of the sorted one. -/
theorem field?_of_sorted {v x : Json} {name : String} (hv : v.Readable)
    (h : v.sorted.field? name = some x) : ∃ y, v.field? name = some y ∧ y.sorted = x := by
  match v with
  | .obj fields =>
    have hcanonical := canonical_sorted _ hv
    rw [sorted] at h hcanonical
    rw [field?_eq_some_iff (hcanonical.1.imp fun hlt ↦ ne_of_lt hlt)] at h
    rw [(List.perm_insertionSort _ _).mem_iff, sortedFields_eq_map] at h
    obtain ⟨p, hp, heq⟩ := List.mem_map.mp h
    cases heq
    exact ⟨p.2, (field?_eq_some_iff hv.1 _ _).mpr hp, rfl⟩

end SpoolCache.Base.Json

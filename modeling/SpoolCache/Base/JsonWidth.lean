import SpoolCache.Base.Json

/-!
# Widths of canonical texts

How long a value is as canonical JSON, compared between values of one shape. Widening every part
of a value widens its text; the decimal text of a number is no longer than that of a larger one.
-/

namespace SpoolCache.Base.Json

/-- Bytes of an encoded text. -/
def width (t : List Char) : Nat := (encodeText t).length

/-- The width of two texts is the sum of their widths. -/
@[simp] theorem width_append (t u : List Char) : width (t ++ u) = width t + width u := by
  rw [width, encodeText_append, List.length_append]
  rfl

/-- The width of a text is that of its first character and of the rest. -/
theorem width_cons (c : Char) (t : List Char) : width (c :: t) = width [c] + width t :=
  width_append [c] t

private theorem width_append_le {t t' u u' : List Char} (h : width t ≤ width u)
    (h' : width t' ≤ width u') :
    width (t ++ t') ≤ width (u ++ u') := by
  rw [width_append, width_append]
  exact Nat.add_le_add h h'

private theorem width_cons_le (c : Char) {t u : List Char} (h : width t ≤ width u) :
    width (c :: t) ≤ width (c :: u) := width_append_le (Nat.le_refl (width [c])) h

/-! ### Ascii texts -/

private theorem width_singleton (c : Char) : width [c] = c.utf8Size := by
  rw [width, encodeText_eq, List.utf8Encode_singleton]
  simp

/-- A text of ASCII characters has one byte for each. -/
theorem width_ascii {t : List Char} (h : ∀ c ∈ t, c.toNat < 128) : width t = t.length := by
  induction t with
  | nil => rfl
  | cons c t ih =>
    have hc : c.utf8Size = 1 := by
      rw [Char.utf8Size_eq_one_iff, UInt32.le_iff_toNat_le]
      have hlt := h c List.mem_cons_self
      change c.toNat ≤ 127
      omega
    rw [width_cons, width_singleton, hc, ih fun d hd ↦ h d (List.mem_cons_of_mem c hd)]
    rw [List.length_cons, Nat.add_comm]

private theorem width_toDigits (n : Nat) :
    width (Nat.toDigits 10 n) = (Nat.toDigits 10 n).length := by
  apply width_ascii
  intro c hc
  have hdigit := Nat.isDigit_of_mem_toDigits (by decide) (by decide) hc
  rw [Char.isDigit_iff_toNat] at hdigit
  exact Nat.lt_of_le_of_lt hdigit.2 (by decide)

/-! ### Values of one shape -/

/-- One value is no longer than another. -/
def Fits (v w : Json) : Prop := width v.dumps ≤ width w.dumps

/-- A value is no longer than itself. -/
theorem Fits.refl (v : Json) : Fits v v := Nat.le_refl _

/-- The text of a number is no longer than that of a larger one. -/
theorem fits_int {m n : Nat} (h : m ≤ n) :
    Fits (.int (m : Int)) (.int (n : Int)) := by
  change width (Nat.toDigits 10 m) ≤ width (Nat.toDigits 10 n)
  rw [width_toDigits, width_toDigits, Nat.length_toDigits_le_iff (by decide) Nat.length_toDigits_pos]
  apply Nat.lt_of_le_of_lt h
  rw [← Nat.length_toDigits_le_iff (by decide) Nat.length_toDigits_pos]

private theorem width_joinWith_le (separator : Char) {ts us : List (List Char)}
    (h : List.Forall₂ (fun t u ↦ width t ≤ width u) ts us) :
    width (joinWith separator ts) ≤ width (joinWith separator us) := by
  induction h with
  | nil => exact Nat.le_refl _
  | cons hhead htail ih =>
    cases htail with
    | nil => exact hhead
    | cons hnext htail =>
      rw [joinWith_cons_cons, joinWith_cons_cons]
      exact width_append_le hhead (width_cons_le separator ih)

/-- Arrays compare item by item. -/
theorem fits_arr {vs ws : List Json} (h : List.Forall₂ Fits vs ws) : Fits (.arr vs) (.arr ws) := by
  have hitems : List.Forall₂ (fun t u ↦ width t ≤ width u) (dumpsItems vs) (dumpsItems ws) := by
    rw [dumpsItems_eq_map, dumpsItems_eq_map, List.forall₂_map_left_iff,
      List.forall₂_map_right_iff]
    exact h
  unfold Fits dumps
  apply width_append_le _ (Nat.le_refl _)
  exact width_cons_le '[' (width_joinWith_le ',' hitems)

/-- A field of one name, no longer than another. -/
def FieldFits (p q : String × Json) : Prop := p.1 = q.1 ∧ Fits p.2 q.2

private theorem names_eq {fields fields' : List (String × Json)}
    (h : List.Forall₂ FieldFits fields fields') :
    fields.map Prod.fst = fields'.map Prod.fst := by
  induction h with
  | nil => rfl
  | cons hhead _ ih => rw [List.map_cons, List.map_cons, hhead.1, ih]

/-- Objects with the same sorted names compare field by field. -/
theorem fits_obj {fields fields' : List (String × Json)}
    (hsorted : (fields.map Prod.fst).Pairwise (· < ·))
    (h : List.Forall₂ FieldFits fields fields') : Fits (.obj fields) (.obj fields') := by
  have htexts : List.Forall₂ (fun t u ↦ width t ≤ width u) ((dumpsFields fields).map fieldText)
      ((dumpsFields fields').map fieldText) := by
    induction h with
    | nil => exact .nil
    | @cons p q _ _ hhead _ ih =>
      rw [List.map_cons, List.pairwise_cons] at hsorted
      refine .cons ?_ (ih hsorted.2)
      dsimp only [fieldText]
      rw [hhead.1]
      exact width_append_le (Nat.le_refl _) (width_cons_le ':' hhead.2)
  unfold Fits dumps
  rw [insertionSort_dumpsFields hsorted, insertionSort_dumpsFields (names_eq h ▸ hsorted)]
  apply width_append_le _ (Nat.le_refl _)
  exact width_cons_le '{' (width_joinWith_le ',' htexts)

/-! ### Bounds from the parts -/

private theorem width_joinWith_le_sum {separator : Char} (h : width [separator] = 1)
    (ts : List (List Char)) :
    width (joinWith separator ts) ≤ (ts.map fun t ↦ width t + 1).sum := by
  induction ts with
  | nil => exact Nat.le_refl _
  | cons t ts ih =>
    rw [List.map_cons, List.sum_cons]
    cases ts with
    | nil =>
      change width t ≤ _
      omega
    | cons u ts =>
      rw [joinWith_cons_cons, width_append, width_cons, h]
      omega

private theorem width_brackets {first last : Char} (h : width [first] = 1) (h' : width [last] = 1)
    (t : List Char) : width (first :: t ++ [last]) = 2 + width t := by
  rw [width_append, width_cons, h, h']
  omega

/-- An array is as wide as its items, a separator for each and the brackets. -/
theorem width_arr_le (vs : List Json) :
    width (Json.arr vs).dumps ≤ 2 + (vs.map fun v ↦ width v.dumps + 1).sum := by
  have hjoin := width_joinWith_le_sum (by decide : width [','] = 1) (dumpsItems vs)
  rw [dumps, width_brackets (by decide) (by decide)]
  rw [dumpsItems_eq_map, List.map_map] at hjoin
  rw [dumpsItems_eq_map]
  exact Nat.add_le_add_left hjoin 2

/-- The text of an object has its names and its values. -/
theorem width_obj_le {fields : List (String × Json)}
    (hsorted : (fields.map Prod.fst).Pairwise (· < ·)) :
    width (Json.obj fields).dumps ≤ 2 + ((fields.map Prod.fst).map fun name ↦
      width (quote name) + 2).sum + (fields.map fun p ↦ width p.2.dumps).sum := by
  have hcolon : width [':'] = 1 := by decide
  have hjoin := width_joinWith_le_sum (by decide : width [','] = 1)
    ((dumpsFields fields).map fieldText)
  have hsplit : (((dumpsFields fields).map fieldText).map fun t ↦ width t + 1).sum =
      ((fields.map Prod.fst).map fun name ↦ width (quote name) + 2).sum +
        (fields.map fun p ↦ width p.2.dumps).sum := by
    rw [dumpsFields_eq_map]
    clear hjoin hsorted
    induction fields with
    | nil => rfl
    | cons p fields ih =>
      rw [List.map_cons, List.map_cons, List.map_cons, List.sum_cons, ih, List.map_cons,
        List.map_cons, List.map_cons, List.sum_cons, List.sum_cons, fieldText, width_append,
        width_cons, hcolon]
      dsimp only
      omega
  rw [dumps, insertionSort_dumpsFields hsorted, width_brackets (by decide) (by decide),
    Nat.add_assoc, ← hsplit]
  exact Nat.add_le_add_left hjoin 2

end SpoolCache.Base.Json

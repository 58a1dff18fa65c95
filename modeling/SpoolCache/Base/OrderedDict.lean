import Mathlib.Algebra.Order.BigOperators.Group.List
import Mathlib.Algebra.Order.Ring.Nat
import Mathlib.Data.List.Sort
import Mathlib.Data.Finset.Card
import Mathlib.Tactic.Common

/-!
# Insertion-ordered dictionaries

Library `Base`. An association list with distinct keys, ordered by first insertion:
assignment to a present key keeps its position, a fresh key goes last, and removal
closes the gap. Equality of contents (`Same`) ignores the order, as dictionary
equality does; `SubDict` is inclusion with equal values.
-/

namespace SpoolCache.Base

universe u v w

/-- Insertion-ordered finite map; the keys are distinct by construction. -/
structure OrderedDict (K : Type u) (V : Type v) where
  items : List (K × V)
  nodup : (items.map Prod.fst).Nodup

namespace OrderedDict

variable {K : Type u} {V : Type v}

/-- The dictionary without entries. -/
def empty : OrderedDict K V := ⟨[], List.nodup_nil⟩

/-- Keys in insertion order. -/
def keys (d : OrderedDict K V) : List K := d.items.map Prod.fst

/-- Number of entries. -/
def size (d : OrderedDict K V) : Nat := d.items.length

/-- Two dictionaries with the same ordered items are equal. -/
theorem ext {a b : OrderedDict K V} (h : a.items = b.items) : a = b := by
  cases a
  cases b
  cases h
  rfl

/-- Equality compares the ordered items. -/
instance [DecidableEq K] [DecidableEq V] : DecidableEq (OrderedDict K V) := fun a b ↦
  decidable_of_iff (a.items = b.items) ⟨ext, fun h ↦ congrArg items h⟩

/-- Keys are distinct. -/
theorem nodup_keys (d : OrderedDict K V) : d.keys.Nodup := d.nodup

private theorem nodup_items (d : OrderedDict K V) : d.items.Nodup := List.Nodup.of_map _ d.nodup

/-- There are as many keys as entries. -/
theorem length_keys (d : OrderedDict K V) : d.keys.length = d.size := List.length_map _

/-- The empty dictionary has no key. -/
@[simp] theorem keys_empty : (empty : OrderedDict K V).keys = [] := rfl

/-- The empty dictionary has no entry. -/
@[simp] theorem size_empty : (empty : OrderedDict K V).size = 0 := rfl

/-- A key has one value. -/
theorem value_unique (d : OrderedDict K V) {k : K} {v w : V}
    (hv : (k, v) ∈ d.items) (hw : (k, w) ∈ d.items) : v = w := by
  have he := List.inj_on_of_nodup_map d.nodup hv hw rfl
  exact (Prod.mk.inj he).2

private theorem mem_keys_of_mem (d : OrderedDict K V) {k : K} {v : V} (h : (k, v) ∈ d.items) :
    k ∈ d.keys := List.mem_map.mpr ⟨(k, v), h, rfl⟩

private theorem exists_of_mem_keys (d : OrderedDict K V) {k : K} (h : k ∈ d.keys) :
    ∃ v, (k, v) ∈ d.items := by
  obtain ⟨⟨a, v⟩, hm, ha⟩ := List.mem_map.mp h
  change a = k at ha
  subst a
  exact ⟨v, hm⟩

/-- Total of a measure over the values. -/
def total (f : V → Nat) (d : OrderedDict K V) : Nat := (d.items.map fun p ↦ f p.2).sum

/-- The empty dictionary adds up to nothing. -/
@[simp] theorem total_empty (f : V → Nat) : total f (empty : OrderedDict K V) = 0 := rfl

section Lookup

variable [DecidableEq K]

/-- Value of a key, if present. -/
def get? (d : OrderedDict K V) (k : K) : Option V :=
  (d.items.find? fun p ↦ decide (p.1 = k)).map Prod.snd

/-- Lookup finds exactly the stored pairs. -/
theorem get?_eq_some_iff (d : OrderedDict K V) (k : K) (v : V) :
    d.get? k = some v ↔ (k, v) ∈ d.items := by
  constructor
  · intro h
    obtain ⟨⟨a, w⟩, hf, hw⟩ := Option.map_eq_some_iff.mp h
    have ha : a = k := by simpa using List.find?_some hf
    change w = v at hw
    subst ha hw
    exact List.mem_of_find?_eq_some hf
  · intro h
    cases hf : d.items.find? (fun p ↦ decide (p.1 = k)) with
    | none =>
      have hn := List.find?_eq_none.mp hf (k, v) h
      simp at hn
    | some p =>
      obtain ⟨a, w⟩ := p
      have ha : a = k := by simpa using List.find?_some hf
      subst ha
      have hw := d.value_unique (List.mem_of_find?_eq_some hf) h
      simp [get?, hf, hw]

/-- Lookup fails exactly off the key list. -/
theorem get?_eq_none_iff (d : OrderedDict K V) (k : K) : d.get? k = none ↔ k ∉ d.keys := by
  constructor
  · intro h hk
    obtain ⟨v, hv⟩ := d.exists_of_mem_keys hk
    rw [(d.get?_eq_some_iff k v).mpr hv] at h
    cases h
  · intro h
    cases hg : d.get? k with
    | none => rfl
    | some v => exact absurd (d.mem_keys_of_mem ((d.get?_eq_some_iff k v).mp hg)) h

/-- A key is listed exactly when it has a value. -/
theorem mem_keys_iff (d : OrderedDict K V) (k : K) : k ∈ d.keys ↔ ∃ v, d.get? k = some v := by
  constructor
  · intro h
    obtain ⟨v, hv⟩ := d.exists_of_mem_keys h
    exact ⟨v, (d.get?_eq_some_iff k v).mpr hv⟩
  · rintro ⟨v, hv⟩
    exact d.mem_keys_of_mem ((d.get?_eq_some_iff k v).mp hv)

/-- The empty dictionary finds nothing. -/
@[simp] theorem get?_empty (k : K) : (empty : OrderedDict K V).get? k = none := rfl

/-- Other values under the same keys. -/
def mapValues {W : Type w} (d : OrderedDict K V) (f : K → V → W) : OrderedDict K W where
  items := d.items.map fun p ↦ (p.1, f p.1 p.2)
  nodup := by
    rw [List.map_map]
    exact d.nodup

/-- A mapped dictionary answers with the image of the value. -/
theorem get?_mapValues {W : Type w} (d : OrderedDict K V) (f : K → V → W) (k : K) :
    (d.mapValues f).get? k = (d.get? k).map (f k) := by
  cases h : d.get? k with
  | none =>
    refine (get?_eq_none_iff _ _).mpr fun hk ↦ (get?_eq_none_iff _ _).mp h ?_
    unfold keys mapValues at hk
    rw [List.map_map] at hk
    exact hk
  | some v =>
    refine (get?_eq_some_iff _ _ _).mpr ?_
    exact List.mem_map.mpr ⟨(k, v), (get?_eq_some_iff _ _ _).mp h, rfl⟩

/-- Remove a key; the others keep their order. -/
def erase (d : OrderedDict K V) (k : K) : OrderedDict K V where
  items := d.items.filter fun p ↦ decide (p.1 ≠ k)
  nodup := d.nodup.sublist (List.filter_sublist.map Prod.fst)

private theorem mem_items_erase (d : OrderedDict K V) (k a : K) (v : V) :
    (a, v) ∈ (d.erase k).items ↔ a ≠ k ∧ (a, v) ∈ d.items := by
  simp [erase, List.mem_filter, and_comm]

/-- After removal the key is absent and every other key is unchanged. -/
theorem get?_erase (d : OrderedDict K V) (k a : K) :
    (d.erase k).get? a = if a = k then none else d.get? a := by
  split
  · next h =>
    subst h
    cases hg : (d.erase a).get? a with
    | none => rfl
    | some v =>
      have hm := ((d.erase a).get?_eq_some_iff a v).mp hg
      exact absurd rfl ((d.mem_items_erase a a v).mp hm).1
  · next h =>
    apply Option.ext
    intro v
    rw [get?_eq_some_iff, get?_eq_some_iff, mem_items_erase]
    exact ⟨fun hm ↦ hm.2, fun hm ↦ ⟨h, hm⟩⟩

/-- Erasing keeps the order of the other keys. -/
theorem keys_erase (d : OrderedDict K V) (k : K) :
    (d.erase k).keys = d.keys.filter fun a ↦ decide (a ≠ k) := by
  simp only [keys, erase, List.filter_map]
  rfl

/-- The keys after erasing are the other ones. -/
theorem mem_keys_erase (d : OrderedDict K V) (k a : K) :
    a ∈ (d.erase k).keys ↔ a ≠ k ∧ a ∈ d.keys := by
  rw [keys_erase, List.mem_filter, decide_eq_true_eq, and_comm]

/-- Erasing an absent key changes nothing. -/
theorem erase_of_not_mem (d : OrderedDict K V) (k : K) (h : k ∉ d.keys) : d.erase k = d := by
  apply ext
  apply List.filter_eq_self.mpr
  rintro ⟨a, v⟩ hm
  simp only [ne_eq, decide_not, Bool.not_eq_true', decide_eq_false_iff_not]
  rintro rfl
  exact h (d.mem_keys_of_mem hm)

/-- Erasing never adds an entry. -/
theorem size_erase_le (d : OrderedDict K V) (k : K) : (d.erase k).size ≤ d.size :=
  List.length_filter_le _ _

/-- Erasing a present key takes one entry away. -/
theorem size_erase_of_mem (d : OrderedDict K V) (k : K) (h : k ∈ d.keys) :
    (d.erase k).size + 1 = d.size := by
  have he : (d.erase k).keys = d.keys.erase k := by
    rw [keys_erase, d.nodup_keys.erase_eq_filter]
    apply List.filter_congr
    intro a _
    by_cases ha : a = k <;> simp [ha]
  have hl := List.length_erase_of_mem h
  rw [← he, length_keys, length_keys] at hl
  have hp : 0 < d.size := by
    rw [← length_keys]
    exact List.length_pos_of_mem h
  omega

/-- Assignment: a present key keeps its position, a fresh key goes last. -/
def set (d : OrderedDict K V) (k : K) (v : V) : OrderedDict K V :=
  if h : k ∈ d.keys then
    { items := d.items.map fun p ↦ if p.1 = k then (k, v) else p
      nodup := by
        have he : (d.items.map fun p ↦ if p.1 = k then (k, v) else p).map Prod.fst =
            d.items.map Prod.fst := by
          rw [List.map_map]
          apply List.map_congr_left
          rintro ⟨a, w⟩ _
          by_cases ha : a = k <;> simp [ha]
        rw [he]
        exact d.nodup }
  else
    { items := d.items ++ [(k, v)]
      nodup := by
        rw [List.map_append, List.nodup_append]
        refine ⟨d.nodup, by simp, ?_⟩
        intro a ha b hb
        have hb' : b = k := by simpa using hb
        subst hb'
        rintro rfl
        exact h ha }

/-- A new key goes to the end. -/
theorem items_set_of_not_mem (d : OrderedDict K V) {k : K} (v : V) (h : k ∉ d.keys) :
    (d.set k v).items = d.items ++ [(k, v)] := by
  rw [set, dif_neg h]

/-- A key that is there keeps its place, and a new one goes to the end. -/
theorem keys_set (d : OrderedDict K V) (k : K) (v : V) :
    (d.set k v).keys = if k ∈ d.keys then d.keys else d.keys ++ [k] := by
  unfold set
  split
  · simp only [keys, List.map_map]
    apply List.map_congr_left
    rintro ⟨a, w⟩ _
    by_cases ha : a = k <;> simp [ha]
  · simp [keys]

/-- Of two assignments to one key the second stays. -/
theorem set_set (d : OrderedDict K V) (k : K) (v w : V) : (d.set k v).set k w = d.set k w := by
  have hk : k ∈ (d.set k v).keys := by
    rw [keys_set]
    split
    · next h => exact h
    · exact List.mem_append_right _ List.mem_cons_self
  apply ext
  have houter : ((d.set k v).set k w).items =
      (d.set k v).items.map fun p ↦ if p.1 = k then (k, w) else p := by
    rw [set, dif_pos hk]
  rw [houter]
  unfold set
  split
  · next h =>
    rw [List.map_map]
    refine List.map_congr_left fun p _ ↦ ?_
    dsimp only [Function.comp]
    split
    · rw [if_pos rfl]
    · rfl
  · next h =>
    rw [List.map_append, List.map_cons, List.map_nil, if_pos rfl]
    congr 1
    refine (List.map_congr_left fun p hp ↦ if_neg ?_).trans (List.map_id _)
    rintro rfl
    exact h (List.mem_map_of_mem hp)

/-- Setting a key to the value it has changes nothing. -/
theorem set_get? (d : OrderedDict K V) {k : K} {v : V} (h : d.get? k = some v) :
    d.set k v = d := by
  have hm := (d.get?_eq_some_iff k v).mp h
  apply ext
  rw [set, dif_pos (d.mem_keys_of_mem hm)]
  refine (List.map_congr_left ?_).trans (List.map_id _)
  rintro ⟨a, w⟩ ha
  dsimp only
  split
  · next he =>
    subst he
    rw [d.value_unique hm ha]
    rfl
  · rfl

/-- Erasing undoes the setting of a new key. -/
theorem erase_set_of_not_mem (d : OrderedDict K V) {k : K} (v : V) (h : k ∉ d.keys) :
    (d.set k v).erase k = d := by
  have he : d.items.filter (fun p ↦ decide (p.1 ≠ k)) = d.items :=
    congrArg items (d.erase_of_not_mem k h)
  apply ext
  change (d.set k v).items.filter _ = d.items
  rw [items_set_of_not_mem d v h, List.filter_append, he]
  simp

private theorem mem_items_set (d : OrderedDict K V) (k a : K) (v w : V) :
    (a, w) ∈ (d.set k v).items ↔ (a = k ∧ w = v) ∨ (a ≠ k ∧ (a, w) ∈ d.items) := by
  by_cases h : k ∈ d.keys
  · simp only [set, h, dite_true, List.mem_map]
    constructor
    · rintro ⟨⟨b, x⟩, hm, he⟩
      by_cases hb : b = k
      · simp only [hb, ite_true, Prod.mk.injEq] at he
        exact .inl ⟨he.1.symm, he.2.symm⟩
      · simp only [hb, ite_false, Prod.mk.injEq] at he
        obtain ⟨rfl, rfl⟩ := he
        exact .inr ⟨hb, hm⟩
    · rintro (⟨rfl, rfl⟩ | ⟨hne, hm⟩)
      · obtain ⟨x, hx⟩ := d.exists_of_mem_keys h
        exact ⟨(a, x), hx, by simp⟩
      · exact ⟨(a, w), hm, by simp [hne]⟩
  · simp only [set, h, dite_false, List.mem_append, List.mem_singleton, Prod.mk.injEq]
    constructor
    · rintro (hm | he)
      · refine .inr ⟨?_, hm⟩
        rintro rfl
        exact h (d.mem_keys_of_mem hm)
      · exact .inl he
    · rintro (he | ⟨-, hm⟩)
      · exact .inr he
      · exact .inl hm

/-- After assignment the key has the new value and every other key is unchanged. -/
theorem get?_set (d : OrderedDict K V) (k a : K) (v : V) :
    (d.set k v).get? a = if a = k then some v else d.get? a := by
  apply Option.ext
  intro w
  rw [get?_eq_some_iff, mem_items_set]
  by_cases h : a = k
  · simp [h, eq_comm]
  · simp [h, get?_eq_some_iff]

/-- The keys after setting are the old ones and the one set. -/
theorem mem_keys_set (d : OrderedDict K V) (k a : K) (v : V) :
    a ∈ (d.set k v).keys ↔ a = k ∨ a ∈ d.keys := by
  rw [keys_set]
  by_cases h : k ∈ d.keys
  · simp only [h, ite_true]
    constructor
    · exact .inr
    · rintro (rfl | ha)
      · exact h
      · exact ha
  · simp [h, or_comm]

/-- Setting adds an entry exactly when the key is new. -/
theorem size_set (d : OrderedDict K V) (k : K) (v : V) :
    (d.set k v).size = if k ∈ d.keys then d.size else d.size + 1 := by
  rw [← length_keys, keys_set]
  split
  · rw [length_keys]
  · rw [List.length_append, length_keys]
    rfl

/-- A present pair in front of the other items. -/
theorem perm_cons_erase (d : OrderedDict K V) {k : K} {v : V} (h : d.get? k = some v) :
    d.items.Perm ((k, v) :: (d.erase k).items) := by
  have hk : (k, v) ∉ (d.erase k).items := fun hm ↦ ((d.mem_items_erase k k v).mp hm).1 rfl
  rw [List.perm_ext_iff_of_nodup d.nodup_items (List.nodup_cons.mpr ⟨hk, nodup_items _⟩)]
  rintro ⟨a, w⟩
  rw [List.mem_cons, mem_items_erase, Prod.mk.injEq]
  have hv := (d.get?_eq_some_iff k v).mp h
  constructor
  · intro hm
    by_cases ha : a = k
    · subst ha
      exact .inl ⟨rfl, d.value_unique hm hv⟩
    · exact .inr ⟨ha, hm⟩
  · rintro (⟨rfl, rfl⟩ | ⟨-, hm⟩)
    · exact hv
    · exact hm

private theorem erase_set (d : OrderedDict K V) (k : K) (v : V) :
    ((d.set k v).erase k).items.Perm (d.erase k).items := by
  rw [List.perm_ext_iff_of_nodup (nodup_items _) (nodup_items _)]
  rintro ⟨a, w⟩
  rw [mem_items_erase, mem_items_set, mem_items_erase]
  constructor
  · rintro ⟨ha, ⟨he, -⟩ | hm⟩
    · exact absurd he ha
    · exact hm
  · intro hm
    exact ⟨hm.1, .inr hm⟩

/-- A total is the summand of one key and the total without it. -/
theorem total_eq_add_erase (f : V → Nat) (d : OrderedDict K V) {k : K} {v : V}
    (h : d.get? k = some v) : total f d = f v + total f (d.erase k) :=
  ((d.perm_cons_erase h).map _).sum_nat

/-- Assignment replaces the measure of the old value by that of the new one. -/
theorem total_set (f : V → Nat) (d : OrderedDict K V) (k : K) (v : V) :
    total f (d.set k v) + ((d.get? k).map f).getD 0 = total f d + f v := by
  have hs : (d.set k v).get? k = some v := by rw [get?_set, if_pos rfl]
  have he : total f ((d.set k v).erase k) = total f (d.erase k) :=
    ((d.erase_set k v).map _).sum_nat
  rw [total_eq_add_erase f _ hs, he]
  cases hg : d.get? k with
  | none =>
    rw [d.erase_of_not_mem k ((d.get?_eq_none_iff k).mp hg)]
    simp only [Option.map_none, Option.getD_none]
    omega
  | some w =>
    rw [total_eq_add_erase f d hg]
    simp only [Option.map_some, Option.getD_some]
    omega

/-- Assign the pairs in order; a later pair overrides an earlier one with the same key. -/
def ofItems (l : List (K × V)) : OrderedDict K V :=
  l.foldl (fun d p ↦ d.set p.1 p.2) empty

private theorem foldl_set_items (l : List (K × V)) (d : OrderedDict K V)
    (h : ((d.items ++ l).map Prod.fst).Nodup) :
    (l.foldl (fun d p ↦ d.set p.1 p.2) d).items = d.items ++ l := by
  induction l generalizing d with
  | nil => simp
  | cons p l ih =>
    have hp : p.1 ∉ d.keys := by
      intro hm
      rw [List.map_append, List.map_cons, List.nodup_append] at h
      exact h.2.2 p.1 hm p.1 List.mem_cons_self rfl
    have hs : (d.set p.1 p.2).items = d.items ++ [p] := by simp [set, hp]
    rw [List.foldl_cons, ih _ (by simpa [hs] using h), hs, List.append_assoc]
    rfl

/-- Pairs with distinct keys are stored as they come. -/
theorem items_ofItems (l : List (K × V)) (h : (l.map Prod.fst).Nodup) :
    (ofItems l).items = l := by
  have hf := foldl_set_items l empty (by simpa [empty] using h)
  simpa [ofItems, empty] using hf

private theorem foldl_set_size_le (l : List (K × V)) (d : OrderedDict K V) :
    (l.foldl (fun d p ↦ d.set p.1 p.2) d).size ≤ d.size + l.length := by
  induction l generalizing d with
  | nil => simp
  | cons p l ih =>
    have hs : (d.set p.1 p.2).size ≤ d.size + 1 := by
      rw [size_set]
      split <;> omega
    have hi := ih (d.set p.1 p.2)
    simp only [List.foldl_cons, List.length_cons]
    omega

/-- Repeated keys make the dictionary smaller than its list. -/
theorem size_ofItems_le (l : List (K × V)) : (ofItems l).size ≤ l.length := by
  have h := foldl_set_size_le l (empty : OrderedDict K V)
  simpa [ofItems] using h

private theorem mem_foldl_set (l : List (K × V)) (d : OrderedDict K V) (a : K) (w : V)
    (h : (a, w) ∈ (l.foldl (fun d p ↦ d.set p.1 p.2) d).items) :
    (a, w) ∈ l ∨ (a, w) ∈ d.items := by
  induction l generalizing d with
  | nil => exact .inr h
  | cons p l ih =>
    rcases ih (d.set p.1 p.2) h with hl | hd
    · exact .inl (List.mem_cons_of_mem _ hl)
    · rcases (d.mem_items_set p.1 a p.2 w).mp hd with ⟨rfl, rfl⟩ | ⟨-, hm⟩
      · exact .inl List.mem_cons_self
      · exact .inr hm

/-- Every stored pair was among the assigned ones. -/
theorem mem_of_mem_ofItems (l : List (K × V)) {a : K} {w : V}
    (h : (a, w) ∈ (ofItems l).items) : (a, w) ∈ l := by
  rcases mem_foldl_set l empty a w h with hl | he
  · exact hl
  · cases he

/-! ### Inclusion and equality of contents -/

/-- Inclusion with equal values. -/
def SubDict (a b : OrderedDict K V) : Prop := ∀ k v, a.get? k = some v → b.get? k = some v

/-- Equality of contents, whatever the insertion order. -/
def Same (a b : OrderedDict K V) : Prop := ∀ k, a.get? k = b.get? k

/-- Every dictionary is part of itself. -/
theorem SubDict.refl (a : OrderedDict K V) : SubDict a a := fun _ _ h ↦ h

/-- A part of a part is a part. -/
theorem SubDict.trans {a b c : OrderedDict K V} (h : SubDict a b) (h' : SubDict b c) :
    SubDict a c := fun k v hk ↦ h' k v (h k v hk)

/-- Dictionaries with the same entries are parts of one another. -/
theorem SubDict.of_same {a b : OrderedDict K V} (h : Same a b) : SubDict a b :=
  fun k _ hk ↦ (h k).symm.trans hk

/-- Only the empty dictionary is part of the empty one. -/
theorem eq_empty_of_sub {a : OrderedDict K V} (h : SubDict a empty) : a = empty := by
  apply ext
  apply List.eq_nil_iff_forall_not_mem.mpr
  rintro ⟨k, v⟩ hm
  have he := h k v ((a.get?_eq_some_iff k v).mpr hm)
  cases he

/-- Every dictionary has its own entries. -/
theorem Same.refl (a : OrderedDict K V) : Same a a := fun _ ↦ rfl

/-- Having the same entries is symmetric. -/
theorem Same.symm {a b : OrderedDict K V} (h : Same a b) : Same b a := fun k ↦ (h k).symm

/-- Having the same entries is transitive. -/
theorem Same.trans {a b c : OrderedDict K V} (h : Same a b) (h' : Same b c) : Same a c :=
  fun k ↦ (h k).trans (h' k)

/-- Dictionaries that are parts of one another have the same entries. -/
theorem Same.of_sub {a b : OrderedDict K V} (h : SubDict a b) (h' : SubDict b a) : Same a b := by
  intro k
  apply Option.ext
  intro v
  exact ⟨h k v, h' k v⟩

/-- The order of the entries does not matter. -/
theorem Same.of_perm {a b : OrderedDict K V} (h : a.items.Perm b.items) : Same a b := by
  intro k
  apply Option.ext
  intro v
  rw [get?_eq_some_iff, get?_eq_some_iff]
  exact h.mem_iff

/-- Erasing from the part keeps it a part. -/
theorem SubDict.erase_left {a b : OrderedDict K V} (h : SubDict a b) (k : K) :
    SubDict (a.erase k) b := by
  intro x v hx
  rw [get?_erase] at hx
  split at hx
  · cases hx
  · exact h x v hx

/-- Erasing one key from both keeps the part a part. -/
theorem SubDict.erase {a b : OrderedDict K V} (h : SubDict a b) (k : K) :
    SubDict (a.erase k) (b.erase k) := by
  intro x v hx
  rw [get?_erase] at hx ⊢
  split at hx
  · cases hx
  · next hn =>
    simpa [hn] using h x v hx

/-- Setting one key in both keeps the part a part. -/
theorem SubDict.set {a b : OrderedDict K V} (h : SubDict a b) (k : K) (w : V) :
    SubDict (a.set k w) (b.set k w) := by
  intro x v hx
  rw [get?_set] at hx ⊢
  split at hx
  · next hk => simpa [hk] using hx
  · next hn => simpa [hn] using h x v hx

private theorem keys_subset {a b : OrderedDict K V} (h : SubDict a b) : a.keys ⊆ b.keys := by
  intro k hk
  obtain ⟨v, hv⟩ := (a.mem_keys_iff k).mp hk
  exact (b.mem_keys_iff k).mpr ⟨v, h k v hv⟩

/-- A part has no more entries. -/
theorem SubDict.size_le {a b : OrderedDict K V} (h : SubDict a b) : a.size ≤ b.size := by
  rw [← length_keys, ← length_keys]
  exact (a.nodup_keys.subperm (keys_subset h)).length_le

/-- A subdictionary of the same size has the same contents. -/
theorem SubDict.same_of_size_eq {a b : OrderedDict K V} (h : SubDict a b)
    (hs : a.size = b.size) : Same a b := by
  have hp : a.keys.Perm b.keys :=
    (a.nodup_keys.subperm (keys_subset h)).perm_of_length_le (by
      rw [length_keys, length_keys, hs])
  intro k
  cases ha : a.get? k with
  | some v => exact (h k v ha).symm
  | none =>
    have hk : k ∉ b.keys := fun hb ↦
      (a.get?_eq_none_iff k).mp ha (hp.mem_iff.mpr hb)
    exact ((b.get?_eq_none_iff k).mpr hk).symm

/-- Dictionaries with the same entries have the same size. -/
theorem Same.size_eq {a b : OrderedDict K V} (h : Same a b) : a.size = b.size :=
  Nat.le_antisymm (SubDict.of_same h).size_le (SubDict.of_same h.symm).size_le

/-- Dictionary comparison `a == b`: same size, and each pair of `a` is in `b`. -/
def sameItems [DecidableEq V] (a b : OrderedDict K V) : Bool :=
  decide (a.size = b.size) && a.items.all fun p ↦ decide (b.get? p.1 = some p.2)

/-- Dictionary comparison decides equality of contents. -/
theorem sameItems_iff [DecidableEq V] (a b : OrderedDict K V) :
    sameItems a b = true ↔ Same a b := by
  simp only [sameItems, Bool.and_eq_true, decide_eq_true_eq, List.all_eq_true]
  constructor
  · rintro ⟨hs, ha⟩
    apply SubDict.same_of_size_eq _ hs
    intro k v hk
    exact ha (k, v) ((a.get?_eq_some_iff k v).mp hk)
  · intro h
    refine ⟨h.size_eq, ?_⟩
    rintro ⟨k, v⟩ hm
    rw [← h k]
    exact (a.get?_eq_some_iff k v).mpr hm

end Lookup

/-! ### Items sorted by key -/

section Sorted

variable [LinearOrder K]

/-- Items in ascending key order, as `sorted(d.items())` lists them: keys are distinct, so
the values never decide. -/
def sortedItems (d : OrderedDict K V) : List (K × V) :=
  d.items.insertionSort fun p q ↦ p.1 ≤ q.1

/-- Sorting rearranges the entries. -/
theorem perm_sortedItems (d : OrderedDict K V) : d.sortedItems.Perm d.items :=
  List.perm_insertionSort _ _

/-- Sorting keeps the number of entries. -/
theorem length_sortedItems (d : OrderedDict K V) : d.sortedItems.length = d.size :=
  d.perm_sortedItems.length_eq

/-- The sorted entries are the entries of the dictionary. -/
theorem mem_sortedItems (d : OrderedDict K V) (k : K) (v : V) :
    (k, v) ∈ d.sortedItems ↔ d.get? k = some v := by
  rw [get?_eq_some_iff]
  exact d.perm_sortedItems.mem_iff

/-- The sorted keys are distinct. -/
theorem nodup_sortedItems_keys (d : OrderedDict K V) :
    (d.sortedItems.map Prod.fst).Nodup :=
  (d.perm_sortedItems.map Prod.fst).nodup_iff.mpr d.nodup

/-- Rebuilding from the sorted items keeps the contents. -/
theorem same_ofItems_sortedItems (d : OrderedDict K V) : Same (ofItems d.sortedItems) d := by
  apply Same.of_perm
  rw [items_ofItems _ d.nodup_sortedItems_keys]
  exact d.perm_sortedItems

end Sorted

end OrderedDict
end SpoolCache.Base

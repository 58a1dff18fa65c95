import Mathlib.Data.List.Forall2
import Mathlib.Algebra.Order.BigOperators.Group.List
import Mathlib.Algebra.Order.Ring.Nat

/-!
# Strided arrays

Library `Base`. An array with a shape and a stride for every dimension keeps the element at an
index `∑ index * stride` elements behind its first one. The element at the last index of every
dimension lies farthest.
-/

namespace SpoolCache.Base

/-- Distance of the element at `index` from the first element. -/
def stridedOffset (stride index : List Nat) : Nat := (index.zipWith (· * ·) stride).sum

/-- Each dimension adds its index times its stride. -/
@[simp]
theorem stridedOffset_cons (s i : Nat) (stride index : List Nat) :
    stridedOffset (s :: stride) (i :: index) = i * s + stridedOffset stride index := by
  simp [stridedOffset]

/-- Without dimensions the offset is zero. -/
@[simp]
theorem stridedOffset_nil (stride : List Nat) : stridedOffset stride [] = 0 := by
  simp [stridedOffset]

/-- The last index of every dimension. -/
def lastIndex (shape : List Nat) : List Nat := shape.map (· - 1)

/-- Distance of the farthest element of an array without empty dimensions. -/
def stridedExtent (stride shape : List Nat) : Nat := stridedOffset stride (lastIndex shape)

/-- The last index of a shape without a zero is in range. -/
theorem lastIndex_lt {shape : List Nat} (h : 0 ∉ shape) :
    List.Forall₂ (· < ·) (lastIndex shape) shape := by
  induction shape with
  | nil => exact .nil
  | cons n shape ih =>
    have hn : 0 < n := Nat.pos_of_ne_zero fun h0 ↦ h (h0 ▸ List.mem_cons_self)
    exact .cons (Nat.sub_lt hn Nat.one_pos) (ih fun h0 ↦ h (List.mem_cons_of_mem _ h0))

/-- Every index in range lies within the extent. -/
theorem stridedOffset_le_extent {shape index : List Nat} (h : List.Forall₂ (· < ·) index shape)
    (stride : List Nat) : stridedOffset stride index ≤ stridedExtent stride shape := by
  induction h generalizing stride with
  | nil => exact Nat.le_refl _
  | @cons i n index shape hlt _ ih =>
    cases stride with
    | nil => simp [stridedOffset]
    | cons s stride =>
      have hi : i * s ≤ (n - 1) * s := Nat.mul_le_mul_right s (Nat.le_sub_one_of_lt hlt)
      have htail := ih stride
      simp only [stridedExtent, lastIndex, List.map_cons, stridedOffset_cons] at htail ⊢
      omega

/-- A shape with an index in range has no zero. -/
theorem not_mem_zero_of_forall₂_lt {index shape : List Nat}
    (h : List.Forall₂ (· < ·) index shape) : 0 ∉ shape := by
  induction h with
  | nil => exact List.not_mem_nil
  | cons hlt _ ih =>
    rw [List.mem_cons]
    rintro (h0 | h0)
    · omega
    · exact ih h0

end SpoolCache.Base

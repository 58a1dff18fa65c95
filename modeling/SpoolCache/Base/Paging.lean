import Mathlib.Data.List.Basic
import Mathlib.Order.MinMax
import Mathlib.Tactic.Common

/-!
# Fixed-size pages of a list

Library `Base`. A list is cut into pages of one size, counted so that even the empty list
has a page. Concatenating every page in index order gives the list back.
-/

namespace SpoolCache.Base

universe u

variable {α : Type u}

/-- Number of pages of `n` items: at least one, the last one possibly short. -/
def pageCount (size n : Nat) : Nat := max 1 ((n + size - 1) / size)

/-- The page at `index`: the slice from `index * size`, at most `size` long. -/
def page (size index : Nat) (l : List α) : List α := (l.drop (index * size)).take size

/-- Even an empty list has a page. -/
theorem pageCount_pos (size n : Nat) : 0 < pageCount size n :=
  Nat.lt_of_lt_of_le Nat.zero_lt_one (Nat.le_max_left _ _)

/-- A page never holds more than the page size. -/
theorem length_page_le (size index : Nat) (l : List α) : (page size index l).length ≤ size := by
  rw [page, List.length_take]
  exact Nat.min_le_left _ _

/-- A page never holds more than the list. -/
theorem length_page_le_length (size index : Nat) (l : List α) :
    (page size index l).length ≤ l.length := by
  rw [page, List.length_take, List.length_drop]
  omega

/-- A page shows elements of the list. -/
theorem mem_of_mem_page {size index : Nat} {l : List α} {a : α} (h : a ∈ page size index l) :
    a ∈ l := List.mem_of_mem_drop (List.mem_of_mem_take h)

/-- The page count is bounded by the number of items, except for the empty list. -/
theorem pageCount_le (size n : Nat) (hs : 0 < size) : pageCount size n ≤ max 1 n := by
  unfold pageCount
  apply max_le_max (Nat.le_refl 1)
  cases n with
  | zero =>
    rw [Nat.div_eq_of_lt (by omega)]
  | succ n =>
    rw [Nat.div_le_iff_le_mul_add_pred hs]
    have hm : n + 1 ≤ size * (n + 1) := Nat.le_mul_of_pos_left _ hs
    omega

/-- Enough pages to hold every item. -/
theorem length_le_pageCount_mul (size n : Nat) (hs : 0 < size) : n ≤ pageCount size n * size := by
  have hd := Nat.div_add_mod (n + size - 1) size
  have hm := Nat.mod_lt (n + size - 1) hs
  have hle : (n + size - 1) / size ≤ pageCount size n := Nat.le_max_right _ _
  have hmul := Nat.mul_le_mul_left size hle
  rw [Nat.mul_comm size (pageCount size n)] at hmul
  omega

/-- The first `m` pages are the first `m * size` items. -/
theorem flatMap_page_range (size m : Nat) (l : List α) :
    (List.range m).flatMap (fun i ↦ page size i l) = l.take (m * size) := by
  induction m with
  | zero => simp
  | succ m ih =>
    rw [List.range_succ, List.flatMap_append, ih, List.flatMap_singleton, page,
      Nat.succ_mul, List.take_add]

/-- All the pages in order are the list. -/
theorem flatMap_page (size : Nat) (hs : 0 < size) (l : List α) :
    (List.range (pageCount size l.length)).flatMap (fun i ↦ page size i l) = l := by
  rw [flatMap_page_range]
  exact List.take_of_length_le (length_le_pageCount_mul size l.length hs)

end SpoolCache.Base

import Mathlib.Algebra.Order.BigOperators.Group.List
import Mathlib.Algebra.Order.Ring.Int
import Mathlib.Algebra.Order.Ring.Nat
import Mathlib.Tactic.Common

/-!
# Intervals in a row

Library `Base`. Intervals, given by a start and a length, that follow each other without a gap
cover everything between their ends once. A walk over them needs no more than the end of the last
one.
-/

namespace SpoolCache.Base

/-- Intervals that follow each other from `a` to `b`. -/
def Tiles : Nat → Nat → List (Nat × Nat) → Prop
  | a, b, [] => a = b
  | a, b, i :: rest => i.1 = a ∧ Tiles (a + i.2) b rest

/-- Whether an interval contains a number. -/
def covers (n : Nat) (i : Nat × Nat) : Bool := decide (i.1 ≤ n ∧ n < i.1 + i.2)

private theorem Tiles.add_sum {a b : Nat} {l : List (Nat × Nat)} (h : Tiles a b l) :
    a + (l.map Prod.snd).sum = b := by
  induction l generalizing a with
  | nil => exact h
  | cons i l ih =>
    have hrest := ih h.2
    rw [List.map_cons, List.sum_cons]
    omega

/-- Tiles from one start have one end. -/
theorem Tiles.end_unique {a b b' : Nat} {l : List (Nat × Nat)} (h : Tiles a b l)
    (h' : Tiles a b' l) : b = b' := h.add_sum.symm.trans h'.add_sum

/-- Everything between the ends is in one interval, everything else in none. -/
theorem Tiles.countP_covers {a b : Nat} {l : List (Nat × Nat)} (h : Tiles a b l) (n : Nat) :
    l.countP (covers n) = if a ≤ n ∧ n < b then 1 else 0 := by
  induction l generalizing a with
  | nil =>
    have hab : a = b := h
    rw [if_neg (by omega)]
    rfl
  | cons i l ih =>
    obtain ⟨hi, hrest⟩ := h
    have hend := hrest.add_sum
    rw [List.countP_cons, ih hrest]
    unfold covers
    simp only [decide_eq_true_eq]
    split <;> split <;> split <;> omega

/-- Every tile lies between the start and the end. -/
theorem Tiles.bounds {a b : Nat} {l : List (Nat × Nat)} (h : Tiles a b l) {i : Nat × Nat}
    (hi : i ∈ l) : a ≤ i.1 ∧ i.1 + i.2 ≤ b := by
  induction l generalizing a with
  | nil => cases hi
  | cons j l ih =>
    obtain ⟨hj, hrest⟩ := h
    have hend := hrest.add_sum
    rcases List.mem_cons.mp hi with rfl | hi
    · omega
    · have := ih hrest hi
      omega

/-- Intervals that are not empty start in increasing order. -/
theorem Tiles.pairwise_lt {a b : Nat} {l : List (Nat × Nat)} (h : Tiles a b l)
    (hpos : ∀ i ∈ l, 0 < i.2) : l.Pairwise fun i j ↦ i.1 < j.1 := by
  induction l generalizing a with
  | nil => exact List.Pairwise.nil
  | cons i l ih =>
    obtain ⟨hi, hrest⟩ := h
    have hlen := hpos i List.mem_cons_self
    refine List.pairwise_cons.mpr ⟨fun j hj ↦ ?_, ih hrest fun j hj ↦
      hpos j (List.mem_cons_of_mem _ hj)⟩
    have := (hrest.bounds hj).1
    omega

/-- Another order of the same intervals is not a row. -/
theorem Tiles.eq_of_perm {a b a' b' : Nat} {l l' : List (Nat × Nat)} (h : Tiles a b l)
    (h' : Tiles a' b' l') (hpos : ∀ i ∈ l, 0 < i.2) (hperm : l.Perm l') : l = l' := by
  have hpos' : ∀ i ∈ l', 0 < i.2 := fun i hi ↦ hpos i (hperm.mem_iff.mpr hi)
  refine List.Perm.eq_of_pairwise ?_ (h.pairwise_lt hpos) (h'.pairwise_lt hpos') hperm
  intro i j _ _ hij hji
  omega

end SpoolCache.Base

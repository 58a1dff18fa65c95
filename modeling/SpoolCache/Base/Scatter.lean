import Mathlib.Data.List.Basic
import Mathlib.Logic.Function.Basic
import Mathlib.Tactic.Common

/-!
# Scattered values

Library `Base`. Values are written to, or read from, locations of a memory that a function gives
for each position. Copies of consecutive ranges compose to one copy.
-/

namespace SpoolCache.Base

universe u v

variable {ι : Type u} {β : Type v}

/-- The values at the first `n` locations. -/
def gather (mem : ι → β) (loc : Nat → ι) (n : Nat) : List β := (List.range n).map fun k ↦ mem (loc k)

/-- As many values as locations. -/
@[simp] theorem length_gather (mem : ι → β) (loc : Nat → ι) (n : Nat) :
    (gather mem loc n).length = n := by
  rw [gather, List.length_map, List.length_range]

/-- A gathered value comes from its location. -/
theorem getElem?_gather (mem : ι → β) (loc : Nat → ι) {n k : Nat} (h : k < n) :
    (gather mem loc n)[k]? = some (mem (loc k)) := by
  rw [gather, List.getElem?_map, List.getElem?_range h, Option.map_some]

/-- Gathering depends on the locations in range only. -/
theorem gather_congr (mem : ι → β) {loc loc' : Nat → ι} {n : Nat}
    (h : ∀ k < n, loc k = loc' k) : gather mem loc n = gather mem loc' n := by
  apply List.map_congr_left
  intro k hk
  rw [h k (List.mem_range.mp hk)]

/-- Gathering in two parts. -/
theorem gather_add (mem : ι → β) (loc : Nat → ι) (m n : Nat) :
    gather mem loc (m + n) = gather mem loc m ++ gather mem (fun k ↦ loc (m + k)) n := by
  unfold gather
  rw [List.range_add, List.map_append, List.map_map]
  rfl

variable [DecidableEq ι]

/-- A memory with values at the locations, the earlier ones written first. -/
def scatter : (ι → β) → (Nat → ι) → List β → ι → β
  | mem, _, [] => mem
  | mem, loc, x :: xs => scatter (Function.update mem (loc 0) x) (fun k ↦ loc (k + 1)) xs

/-- Scattering in two parts. -/
theorem scatter_append (mem : ι → β) (loc : Nat → ι) (xs ys : List β) :
    scatter mem loc (xs ++ ys) =
      scatter (scatter mem loc xs) (fun k ↦ loc (xs.length + k)) ys := by
  induction xs generalizing mem loc with
  | nil =>
    rw [List.nil_append, scatter]
    congr 1
    funext k
    rw [List.length_nil, Nat.zero_add]
  | cons x xs ih =>
    rw [List.cons_append, scatter, scatter, ih]
    congr 1
    funext k
    rw [List.length_cons, Nat.add_right_comm]

/-- Scattering depends on the locations in range only. -/
theorem scatter_congr (mem : ι → β) {loc loc' : Nat → ι} {xs : List β}
    (h : ∀ k < xs.length, loc k = loc' k) : scatter mem loc xs = scatter mem loc' xs := by
  induction xs generalizing mem loc loc' with
  | nil => rfl
  | cons x xs ih =>
    rw [scatter, scatter, h 0 (Nat.succ_pos _)]
    exact ih _ fun k hk ↦ h (k + 1) (Nat.succ_lt_succ hk)

/-- No other location is written. -/
theorem scatter_frame (mem : ι → β) {loc : Nat → ι} {xs : List β} {i : ι}
    (h : ∀ k < xs.length, loc k ≠ i) : scatter mem loc xs i = mem i := by
  induction xs generalizing mem loc with
  | nil => rfl
  | cons x xs ih =>
    rw [scatter, ih _ fun k hk ↦ h (k + 1) (Nat.succ_lt_succ hk)]
    exact Function.update_of_ne (h 0 (Nat.succ_pos _)).symm x mem

/-- Distinct locations hold their values. -/
theorem scatter_at (mem : ι → β) {loc : Nat → ι} {xs : List β}
    (hinj : ∀ j < xs.length, ∀ k < xs.length, loc j = loc k → j = k) {k : Nat}
    (hk : k < xs.length) : some (scatter mem loc xs (loc k)) = xs[k]? := by
  induction xs generalizing mem loc k with
  | nil => exact absurd hk (Nat.not_lt_zero k)
  | cons x xs ih =>
    rw [scatter]
    cases k with
    | zero =>
      rw [scatter_frame, Function.update_self, List.getElem?_cons_zero]
      intro j hj heq
      exact absurd (hinj (j + 1) (Nat.succ_lt_succ hj) 0 hk heq) (Nat.succ_ne_zero j)
    | succ k =>
      rw [List.getElem?_cons_succ]
      refine ih _ (fun i hi j hj heq ↦ ?_) (Nat.lt_of_succ_lt_succ hk)
      exact Nat.succ.inj (hinj (i + 1) (Nat.succ_lt_succ hi) (j + 1) (Nat.succ_lt_succ hj) heq)

end SpoolCache.Base

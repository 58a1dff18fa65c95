import SpoolCache.Base.Scatter

/-!
# Lists of writes

Library `Base`. A list of writes to a memory, in order, each a location and a value. Lists of
consecutive writes compose by appending; distinct locations end with their own value, and no other
location changes.
-/

namespace SpoolCache.Base

universe u v w

variable {ι : Type u} {β : Type v}

section

variable [DecidableEq ι]

/-- A memory after some writes. -/
def write (mem : ι → β) (writes : List (ι × β)) : ι → β :=
  writes.foldl (fun m p ↦ Function.update m p.1 p.2) mem

/-- Without writes the memory is as it was. -/
@[simp] theorem write_nil (mem : ι → β) : write mem [] = mem := rfl

/-- Two lists of writes, one after the other. -/
theorem write_append (mem : ι → β) (a b : List (ι × β)) :
    write mem (a ++ b) = write (write mem a) b := List.foldl_append

/-- A location that is not written is unchanged. -/
theorem write_frame (mem : ι → β) {writes : List (ι × β)} {i : ι}
    (h : ∀ p ∈ writes, p.1 ≠ i) : write mem writes i = mem i := by
  induction writes generalizing mem with
  | nil => rfl
  | cons p writes ih =>
    change write (Function.update mem p.1 p.2) writes i = mem i
    rw [ih _ fun q hq ↦ h q (List.mem_cons_of_mem _ hq)]
    exact Function.update_of_ne (h p List.mem_cons_self).symm _ _

/-- Writes to distinct locations end with their values. -/
theorem write_at (mem : ι → β) {writes : List (ι × β)} (hnodup : (writes.map Prod.fst).Nodup)
    {p : ι × β} (h : p ∈ writes) : write mem writes p.1 = p.2 := by
  induction writes generalizing mem with
  | nil => cases h
  | cons q writes ih =>
    rw [List.map_cons, List.nodup_cons] at hnodup
    change write (Function.update mem q.1 q.2) writes p.1 = p.2
    rcases List.mem_cons.mp h with rfl | h
    · rw [write_frame, Function.update_self]
      intro r hr heq
      exact hnodup.1 (heq ▸ List.mem_map_of_mem hr)
    · exact ih _ hnodup.2 h

/-- Scattering is a list of writes. -/
theorem scatter_eq_write (mem : ι → β) (loc : Nat → ι) (xs : List β) :
    scatter mem loc xs = write mem (((List.range xs.length).map loc).zip xs) := by
  induction xs generalizing mem loc with
  | nil => rfl
  | cons x xs ih =>
    rw [scatter, ih, List.length_cons, List.range_succ_eq_map, List.map_cons, List.map_map,
      List.zip_cons_cons]
    rfl

variable {κ : Type w} [DecidableEq κ]

/-- Writes inside one part of a memory of parts. -/
theorem write_part (mem : κ × ι → β) (k : κ) (writes : List (ι × β)) :
    (fun x : κ × ι ↦ if x.1 = k then write (fun i ↦ mem (k, i)) writes x.2 else mem x) =
      write mem (writes.map fun p ↦ ((k, p.1), p.2)) := by
  induction writes generalizing mem with
  | nil =>
    funext x
    by_cases hx : x.1 = k
    · rw [if_pos hx, write_nil, List.map_nil, write_nil, ← hx]
    · rw [if_neg hx]
      rfl
  | cons p writes ih =>
    have hstep : (fun i ↦ Function.update mem (k, p.1) p.2 (k, i)) =
        Function.update (fun i ↦ mem (k, i)) p.1 p.2 := by
      funext i
      by_cases hi : i = p.1
      · rw [hi, Function.update_self, Function.update_self]
      · rw [Function.update_of_ne hi, Function.update_of_ne fun h ↦ hi (Prod.ext_iff.mp h).2]
    change _ = write (Function.update mem (k, p.1) p.2) (writes.map fun p ↦ ((k, p.1), p.2))
    rw [← ih, hstep]
    funext x
    by_cases hx : x.1 = k
    · rw [if_pos hx, if_pos hx]
      rfl
    · rw [if_neg hx, if_neg hx, Function.update_of_ne fun h ↦ hx (Prod.ext_iff.mp h).1]

end

end SpoolCache.Base

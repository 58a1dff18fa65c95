import Mathlib.Data.List.Induction
import Mathlib.Data.List.Pairwise
import Mathlib.Order.Monotone.Basic
import Mathlib.Data.Set.Basic

/-!
# Recency on a forest

Nodes with a time and at most one parent. A forest is recent when every node that is there has its
parent there, with a later time. Touching nodes in an order in which parents come last, with the
readings of a clock that goes forward, keeps it so, and so does removing the oldest free nodes, when
the nodes that are not free contain the parents of their members.
-/

namespace SpoolCache.Base

universe u

/-- A forest: the time of each node that is there, and its parent. -/
structure Forest (K : Type u) where
  time : K → Option Nat
  parent : K → Option K

namespace Forest

variable {K : Type u} {f f' : Forest K}

/-- Every node has its parent in the forest, with a later time. -/
def Recent (f : Forest K) : Prop :=
  ∀ k t p, f.time k = some t → f.parent k = some p → ∃ t', f.time p = some t' ∧ t < t'

/-- No node is later than the clock. -/
def Before (f : Forest K) (clock : Nat) : Prop := ∀ k t, f.time k = some t → t ≤ clock

/-- The parents of the nodes of a list come after them. -/
def ParentsLast (f : Forest K) : List K → Prop
  | [] => True
  | k :: l => (∀ p, f.parent k = some p → p ∈ l) ∧ ParentsLast f l

/-- The reading that a node keeps when the nodes of a list are touched one after the other, each
with the next reading of a clock: that of its last touch. -/
def lastReading [DecidableEq K] : (Nat → Nat) → List K → K → Nat
  | _, [], _ => 0
  | clock, _ :: l, a => if a ∈ l then lastReading (fun i ↦ clock (i + 1)) l a else clock 0

/-- The nodes of the list have got new times, and nothing else is different. -/
structure Refreshed (f f' : Forest K) (l : List K) (times : K → Nat) : Prop where
  time_of_mem : ∀ k ∈ l, f'.time k = some (times k)
  time_of_not_mem : ∀ k, k ∉ l → f'.time k = f.time k
  parent_of_not_mem : ∀ k, k ∉ l → f'.parent k = f.parent k

/-- A list with parents first has them last when it is reversed. -/
theorem parentsLast_reverse {l : List K}
    (h : ∀ before k after, l = before ++ k :: after → ∀ p, f.parent k = some p → p ∈ before) :
    f.ParentsLast l.reverse := by
  induction l using List.reverseRecOn with
  | nil => exact trivial
  | append_singleton l k ih =>
    rw [List.reverse_append, List.reverse_singleton, List.singleton_append]
    refine ⟨fun p hp ↦ List.mem_reverse.mpr (h l k [] rfl p hp), ih fun before a after he ↦ ?_⟩
    exact h before a (after ++ [k]) (by rw [he, List.append_assoc, List.cons_append])

/-- The parent of a listed node is listed. -/
theorem ParentsLast.mem {l : List K} (h : f.ParentsLast l) {k p : K} (hk : k ∈ l)
    (hp : f.parent k = some p) : p ∈ l := by
  induction l with
  | nil => cases hk
  | cons a l ih =>
    rcases List.mem_cons.mp hk with rfl | hk
    · exact List.mem_cons_of_mem _ (h.1 p hp)
    · exact List.mem_cons_of_mem _ (ih h.2 hk)

/-- Whether parents come last depends on the parents of the listed nodes only. -/
theorem ParentsLast.congr {l : List K} (h : f.ParentsLast l)
    (hp : ∀ k ∈ l, f'.parent k = f.parent k) : f'.ParentsLast l := by
  induction l with
  | nil => exact trivial
  | cons a l ih =>
    refine ⟨fun p ha ↦ h.1 p ?_, ih h.2 fun k hk ↦ hp k (List.mem_cons_of_mem _ hk)⟩
    rw [← hp a List.mem_cons_self]
    exact ha

section

variable [DecidableEq K]

/-- A node that is touched keeps one of the readings. -/
theorem exists_lastReading {l : List K} {k : K} (hk : k ∈ l) (clock : Nat → Nat) :
    ∃ i < l.length, lastReading clock l k = clock i := by
  induction l generalizing clock with
  | nil => cases hk
  | cons a l ih =>
    unfold lastReading
    split
    · next hl =>
      obtain ⟨i, hi, he⟩ := ih hl fun i ↦ clock (i + 1)
      exact ⟨i + 1, Nat.succ_lt_succ hi, he⟩
    · exact ⟨0, Nat.succ_pos _, rfl⟩

/-- Touched parents last, a node keeps an earlier reading than its parent. The induction is on the
touches: a node whose last touch is the first of them has its parent among those to come. -/
theorem ParentsLast.lastReading_lt {l : List K} (h : f.ParentsLast l) {clock : Nat → Nat}
    (hclock : StrictMono clock) {k p : K} (hk : k ∈ l) (hp : f.parent k = some p) :
    lastReading clock l k < lastReading clock l p := by
  induction l generalizing clock with
  | nil => cases hk
  | cons a l ih =>
    have hshift : StrictMono fun i ↦ clock (i + 1) := fun i j hij ↦ hclock (by omega)
    unfold lastReading
    by_cases hl : k ∈ l
    · rw [if_pos hl, if_pos (h.2.mem hl hp)]
      exact ih h.2 hshift hl
    · obtain rfl : k = a := (List.mem_cons.mp hk).resolve_right hl
      have hpl : p ∈ l := h.1 p hp
      obtain ⟨i, -, he⟩ := exists_lastReading hpl fun i ↦ clock (i + 1)
      rw [if_neg hl, if_pos hpl, he]
      exact hclock (Nat.succ_pos i)

end

/-- A refresh at new times, each earlier than that of the parent, keeps a forest recent. -/
theorem Refreshed.recent {l : List K} {times : K → Nat} {clock : Nat}
    (hr : Refreshed f f' l times) (h : f.Recent) (hb : f.Before clock)
    (hinc : ∀ k ∈ l, ∀ p, f'.parent k = some p → p ∈ l ∧ times k < times p)
    (hnew : ∀ k ∈ l, clock < times k) : f'.Recent := by
  intro k t p hk hp
  by_cases hm : k ∈ l
  · obtain ⟨hpm, hlt⟩ := hinc k hm p hp
    rw [hr.time_of_mem k hm, Option.some.injEq] at hk
    rw [← hk]
    exact ⟨times p, hr.time_of_mem p hpm, hlt⟩
  · rw [hr.time_of_not_mem k hm] at hk
    rw [hr.parent_of_not_mem k hm] at hp
    obtain ⟨t', ht', hlt⟩ := h k t p hk hp
    by_cases hpm : p ∈ l
    · exact ⟨times p, hr.time_of_mem p hpm, (hb k t hk).trans_lt (hnew p hpm)⟩
    · exact ⟨t', by rw [hr.time_of_not_mem p hpm, ht'], hlt⟩

/-- With the touched nodes no later than a later clock, no node is. -/
theorem Refreshed.before {l : List K} {times : K → Nat} {clock later : Nat}
    (hr : Refreshed f f' l times) (hb : f.Before clock) (hle : clock ≤ later)
    (hnew : ∀ k ∈ l, times k ≤ later) : f'.Before later := by
  intro k t hk
  by_cases hm : k ∈ l
  · rw [hr.time_of_mem k hm, Option.some.injEq] at hk
    rw [← hk]
    exact hnew k hm
  · rw [hr.time_of_not_mem k hm] at hk
    exact (hb k t hk).trans hle

/-- The nodes of the set have been removed, and nothing else is different. -/
structure Removed (f f' : Forest K) (gone : Set K) : Prop where
  time_of_mem : ∀ k ∈ gone, f'.time k = none
  time_of_not_mem : ∀ k, k ∉ gone → f'.time k = f.time k
  parent_of_not_mem : ∀ k, k ∉ gone → f'.parent k = f.parent k

/-- The set holds the oldest nodes among the free ones: with a free node, every older free node. -/
def Oldest (f : Forest K) (free gone : Set K) : Prop :=
  gone ⊆ free ∧ ∀ a ∈ gone, ∀ b ∈ free, ∀ ta tb, f.time a = some ta → f.time b = some tb →
    tb < ta → b ∈ gone

/-- Removing the oldest free nodes keeps a forest recent when a node whose parent is free is
free. -/
theorem Removed.recent {free gone : Set K} (hr : Removed f f' gone) (h : f.Recent)
    (hold : f.Oldest free gone)
    (hfree : ∀ k t p, f.time k = some t → f.parent k = some p → p ∈ free → k ∈ free) :
    f'.Recent := by
  intro k t p hk hp
  have hkg : k ∉ gone := fun hg ↦ (by rw [hr.time_of_mem k hg] at hk; cases hk)
  rw [hr.time_of_not_mem k hkg] at hk
  rw [hr.parent_of_not_mem k hkg] at hp
  obtain ⟨t', ht', hlt⟩ := h k t p hk hp
  have hpg : p ∉ gone := fun hg ↦
    hkg (hold.2 p hg k (hfree k t p hk hp (hold.1 hg)) t' t ht' hk hlt)
  exact ⟨t', by rw [hr.time_of_not_mem p hpg, ht'], hlt⟩

/-- Removal makes no node later. -/
theorem Removed.before {gone : Set K} {clock : Nat} (hr : Removed f f' gone)
    (hb : f.Before clock) : f'.Before clock := by
  intro k t hk
  by_cases hg : k ∈ gone
  · rw [hr.time_of_mem k hg] at hk
    cases hk
  · rw [hr.time_of_not_mem k hg] at hk
    exact hb k t hk

end Forest

end SpoolCache.Base

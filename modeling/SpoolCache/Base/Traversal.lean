import Mathlib.Data.List.Forall2
import Mathlib.Data.List.Perm.Basic
import Mathlib.Data.Multiset.Basic
import Mathlib.Tactic.Common

/-!
# Traversals in another order

Library `Base`. A list is traversed with a partial function. Another order of the list gives the
same results in another order, and a change of one element changes one result.
-/

namespace SpoolCache.Base

universe u v w

variable {α : Type u} {β : Type u} {γ : Type w} {f : α → Option β}

/-- A mapped computation that succeeds does so element by element. -/
theorem mapM_eq_some_iff {xs : List α} {ys : List β} :
    xs.mapM f = some ys ↔ List.Forall₂ (fun x y ↦ f x = some y) xs ys := by
  induction xs generalizing ys with
  | nil =>
    rw [List.mapM_nil, List.forall₂_nil_left_iff]
    exact ⟨fun h ↦ (Option.some.inj h).symm, fun h ↦ congrArg some h.symm⟩
  | cons x xs ih =>
    rw [List.mapM_cons, List.forall₂_cons_left_iff]
    constructor
    · intro h
      obtain ⟨y, hy, h⟩ := Option.bind_eq_some_iff.mp h
      obtain ⟨ys', hys, h⟩ := Option.bind_eq_some_iff.mp h
      exact ⟨y, ys', hy, ih.mp hys, (Option.some.inj h).symm⟩
    · rintro ⟨y, ys', hy, hys, rfl⟩
      rw [hy, ih.mpr hys]
      rfl

/-- Every result comes from an element. -/
theorem exists_of_mem_mapM {xs : List α} {ys : List β} (h : xs.mapM f = some ys) {y : β}
    (hy : y ∈ ys) : ∃ x ∈ xs, f x = some y := by
  have hall := mapM_eq_some_iff.mp h
  clear h
  induction hall with
  | nil => cases hy
  | cons hxy _ ih =>
    rcases List.mem_cons.mp hy with rfl | hy
    · exact ⟨_, List.mem_cons_self, hxy⟩
    · obtain ⟨x, hx, hfx⟩ := ih hy
      exact ⟨x, List.mem_cons_of_mem _ hx, hfx⟩

/-- Reordering the elements reorders the results. -/
theorem mapM_perm {xs ys : List α} (h : xs.Perm ys) {as : List β} (has : xs.mapM f = some as) :
    ∃ bs, ys.mapM f = some bs ∧ as.Perm bs := by
  obtain ⟨bs, hbs, hperm⟩ := List.perm_comp_forall₂ h.symm (mapM_eq_some_iff.mp has)
  exact ⟨bs, mapM_eq_some_iff.mpr hbs, hperm.symm⟩

/-- What does not depend on the order of the results does not depend on the order of the list. -/
theorem map_mapM_perm {g : List β → γ} {xs ys : List α} (h : xs.Perm ys)
    (hg : ∀ as bs, xs.mapM f = some as → as.Perm bs → g as = g bs) :
    (xs.mapM f).map g = (ys.mapM f).map g := by
  cases hxs : xs.mapM f with
  | none =>
    cases hys : ys.mapM f with
    | none => rfl
    | some bs =>
      obtain ⟨as, has, _⟩ := mapM_perm h.symm hys
      rw [hxs] at has
      cases has
  | some as =>
    obtain ⟨bs, hbs, hperm⟩ := mapM_perm h hxs
    rw [hbs, Option.map_some, Option.map_some, hg as bs hxs hperm]

private theorem mapM_append_cons {before after : List α} {x : α} {ys : List β} :
    (before ++ x :: after).mapM f = some ys ↔ ∃ as b bs, before.mapM f = some as ∧
      f x = some b ∧ after.mapM f = some bs ∧ ys = as ++ b :: bs := by
  rw [List.mapM_append, List.mapM_cons]
  constructor
  · intro h
    obtain ⟨as, has, h⟩ := Option.bind_eq_some_iff.mp h
    obtain ⟨rest, hrest, h⟩ := Option.bind_eq_some_iff.mp h
    obtain ⟨b, hb, hrest⟩ := Option.bind_eq_some_iff.mp hrest
    obtain ⟨bs, hbs, hrest⟩ := Option.bind_eq_some_iff.mp hrest
    cases hrest
    exact ⟨as, b, bs, has, hb, hbs, (Option.some.inj h).symm⟩
  · rintro ⟨as, b, bs, has, hb, hbs, rfl⟩
    rw [has, hb, hbs]
    rfl

/-- Two elements with the same result can be exchanged. -/
theorem mapM_congr_at {before after : List α} {x y : α} (h : f x = f y) :
    (before ++ x :: after).mapM f = (before ++ y :: after).mapM f := by
  rw [List.mapM_append, List.mapM_append, List.mapM_cons, List.mapM_cons, h]

/-- The result of one element is determined by all results, in any order. -/
theorem eq_of_mapM_perm {before after : List α} {x y : α} {as bs : List β}
    (hx : (before ++ x :: after).mapM f = some as) (hy : (before ++ y :: after).mapM f = some bs)
    (h : as.Perm bs) : f x = f y := by
  obtain ⟨front, a, back, hfront, ha, hback, rfl⟩ := mapM_append_cons.mp hx
  obtain ⟨front', b, back', hfront', hb, hback', rfl⟩ := mapM_append_cons.mp hy
  rw [hfront] at hfront'
  rw [hback] at hback'
  cases hfront'
  cases hback'
  have hcons := (List.perm_append_left_iff front).mp h
  have hmultiset : a ::ₘ (back : Multiset β) = b ::ₘ (back : Multiset β) := Quot.sound hcons
  rw [ha, hb, (Multiset.cons_inj_left _).mp hmultiset]

/-- The same for a summary of the results that determines them up to their order. -/
theorem eq_of_map_mapM {g : List β → γ} (hg : ∀ as bs, g as = g bs → as.Perm bs)
    {before after : List α} {x y : α} {c : γ}
    (hx : ((before ++ x :: after).mapM f).map g = some c)
    (hy : ((before ++ y :: after).mapM f).map g = some c) :
    (∃ b, f x = some b) ∧ f x = f y := by
  obtain ⟨as, has, hgas⟩ := Option.map_eq_some_iff.mp hx
  obtain ⟨bs, hbs, hgbs⟩ := Option.map_eq_some_iff.mp hy
  obtain ⟨_, b, _, _, hb, _⟩ := mapM_append_cons.mp has
  exact ⟨⟨b, hb⟩, eq_of_mapM_perm has hbs (hg as bs (hgas.trans hgbs.symm))⟩

end SpoolCache.Base

import Mathlib.Tactic.Common

/-!
# Loops that may raise

Library `Base`. A loop over a list that raises at its first failing element returns exactly when
every element succeeds.
-/

namespace SpoolCache.Base

universe u v w

variable {ε : Type u} {α : Type v} {β : Type w}

/-- After a success comes the rest, at its value. -/
theorem ok_bind {α β : Type v} (a : α) (f : α → Except ε β) : (Except.ok a >>= f) = f a := rfl

/-- A sequence returns exactly through its first part. -/
theorem bind_ok {α β : Type v} {x : Except ε α} {f : α → Except ε β} {b : β}
    (h : (x >>= f) = .ok b) : ∃ a, x = .ok a ∧ f a = .ok b := by
  cases x with
  | error e => cases h
  | ok a => exact ⟨a, rfl, h⟩

/-- A mapped computation succeeds exactly when it does at every element. -/
theorem exists_mapM_ok_iff (f : α → Except ε β) (l : List α) :
    (∃ out, l.mapM f = .ok out) ↔ ∀ a ∈ l, ∃ b, f a = .ok b := by
  induction l with
  | nil =>
    refine ⟨fun _ a ha ↦ (by cases ha), fun _ ↦ ⟨[], rfl⟩⟩
  | cons a l ih =>
    rw [List.forall_mem_cons, ← ih, List.mapM_cons]
    cases hf : f a with
    | error e =>
      refine ⟨fun ⟨out, h⟩ ↦ (by cases h), fun ⟨⟨b, h⟩, _⟩ ↦ (by cases h)⟩
    | ok b =>
      cases hl : l.mapM f with
      | error e =>
        refine ⟨fun ⟨out, h⟩ ↦ (by cases h), fun ⟨_, ⟨out, h⟩⟩ ↦ (by cases h)⟩
      | ok out => exact ⟨fun _ ↦ ⟨⟨b, rfl⟩, ⟨out, rfl⟩⟩, fun _ ↦ ⟨b :: out, rfl⟩⟩

/-- A loop whose rounds return known values returns their list. -/
theorem mapM_ok_eq_map {f : α → Except ε β} {g : α → β} (hfg : ∀ a b, f a = .ok b → b = g a)
    {l : List α} {out : List β} (h : l.mapM f = .ok out) : out = l.map g := by
  induction l generalizing out with
  | nil =>
    cases h
    rfl
  | cons a l ih =>
    rw [List.mapM_cons] at h
    cases hf : f a with
    | error e =>
      rw [hf] at h
      cases h
    | ok b =>
      cases hl : l.mapM f with
      | error e =>
        rw [hf, hl] at h
        cases h
      | ok bs =>
        rw [hf, hl] at h
        cases h
        rw [List.map_cons, hfg a b hf, ih hl]

/-- A computation that succeeds everywhere is a map. -/
theorem mapM_eq_ok {f : α → Except ε β} {g : α → β} {l : List α} (h : ∀ a ∈ l, f a = .ok (g a)) :
    l.mapM f = .ok (l.map g) := by
  induction l with
  | nil => rfl
  | cons a l ih =>
    rw [List.mapM_cons, h a List.mem_cons_self, ih fun b hb ↦ h b (List.mem_cons_of_mem a hb)]
    rfl

/-- Two loops over one list whose rounds return related values. -/
theorem mapM_forall₂ {γ : Type w} {f : α → Except ε β} {g : α → Except ε γ} {R : β → γ → Prop}
    {l : List α} (h : ∀ a ∈ l, ∃ b c, f a = .ok b ∧ g a = .ok c ∧ R b c) :
    ∃ bs cs, l.mapM f = .ok bs ∧ l.mapM g = .ok cs ∧ List.Forall₂ R bs cs := by
  induction l with
  | nil => exact ⟨[], [], rfl, rfl, .nil⟩
  | cons a l ih =>
    obtain ⟨b, c, hb, hc, hbc⟩ := h a List.mem_cons_self
    obtain ⟨bs, cs, hbs, hcs, hall⟩ := ih fun a' ha' ↦ h a' (List.mem_cons_of_mem a ha')
    refine ⟨b :: bs, c :: cs, ?_, ?_, .cons hbc hall⟩
    · rw [List.mapM_cons, hb, hbs]
      rfl
    · rw [List.mapM_cons, hc, hcs]
      rfl

/-! ### Errors that are raised -/

/-- Every error of the computation satisfies `P`. -/
def OnlyRaises {α : Type v} (P : ε → Prop) (x : Except ε α) : Prop := ∀ e, x = .error e → P e

section

variable {α β : Type v} {P : ε → Prop}

/-- A success raises nothing. -/
theorem onlyRaises_ok (a : α) : OnlyRaises P (.ok a) := fun _ h ↦ (by cases h)

/-- An error that satisfies the condition is the only one. -/
theorem onlyRaises_error {e : ε} (h : P e) : OnlyRaises P (.error e : Except ε α) := by
  intro e' he
  cases he
  exact h

/-- Two computations in a row raise the errors of either. -/
theorem OnlyRaises.bind {x : Except ε α} {f : α → Except ε β} (hx : OnlyRaises P x)
    (hf : ∀ a, x = .ok a → OnlyRaises P (f a)) : OnlyRaises P (x >>= f) := by
  cases x with
  | error e =>
    intro e' he
    cases he
    exact hx e rfl
  | ok a => exact hf a rfl

/-- The condition on errors may be weakened. -/
theorem OnlyRaises.mono {Q : ε → Prop} {x : Except ε α} (h : OnlyRaises P x)
    (hPQ : ∀ e, P e → Q e) : OnlyRaises Q x := fun e he ↦ hPQ e (h e he)

/-- A fold raises the errors of its steps. -/
theorem onlyRaises_foldlM {γ : Type v} {f : γ → β → Except ε γ} {l : List β}
    (h : ∀ c, ∀ b ∈ l, OnlyRaises P (f c b)) (c : γ) : OnlyRaises P (l.foldlM f c) := by
  induction l generalizing c with
  | nil => exact onlyRaises_ok c
  | cons b l ih =>
    rw [List.foldlM_cons]
    refine (h c b List.mem_cons_self).bind fun c' _ ↦ ?_
    exact ih (fun d b' hb ↦ h d b' (List.mem_cons_of_mem b hb)) c'

/-- A mapped computation raises the errors of its elements. -/
theorem onlyRaises_mapM {f : β → Except ε α} {l : List β} (h : ∀ b ∈ l, OnlyRaises P (f b)) :
    OnlyRaises P (l.mapM f) := by
  induction l with
  | nil => exact onlyRaises_ok []
  | cons b l ih =>
    rw [List.mapM_cons]
    refine (h b List.mem_cons_self).bind fun a _ ↦ ?_
    refine (ih fun c hc ↦ h c (List.mem_cons_of_mem _ hc)).bind fun as _ ↦ ?_
    exact onlyRaises_ok _

end

end SpoolCache.Base

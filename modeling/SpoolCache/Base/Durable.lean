import SpoolCache.Base.OrderedDict

/-!
# Directories that survive a crash

Library `Base`. An update of a directory is durable once the directory has been synced. Until
then a crash may leave any name with any value that the name has had since the last sync, each
name for itself. A value may also decay in a crash: a file that was not synced keeps its name
with other contents.
-/

namespace SpoolCache.Base

universe u v

/-- A directory: its entries, and for each name the values it had since the last sync. -/
structure Directory (κ : Type u) (α : Type v) where
  entries : OrderedDict κ α
  stale : κ → List (Option α)

namespace Directory

variable {κ : Type u} {α : Type v} [DecidableEq κ]

/-- A directory whose entries are all durable. -/
def durable (entries : OrderedDict κ α) : Directory κ α := ⟨entries, fun _ ↦ []⟩

/-- The value of a name. -/
def get? (d : Directory κ α) (k : κ) : Option α := d.entries.get? k

/-- The names in the directory. -/
def names (d : Directory κ α) : List κ := d.entries.keys

/-- Remember the value of a name before it changes. -/
def retire (d : Directory κ α) (k : κ) : κ → List (Option α) :=
  Function.update d.stale k (d.get? k :: d.stale k)

/-- Give a name a value: creating, linking or renaming onto it. -/
def put (d : Directory κ α) (k : κ) (a : α) : Directory κ α := ⟨d.entries.set k a, d.retire k⟩

/-- Unlink a name. -/
def remove (d : Directory κ α) (k : κ) : Directory κ α := ⟨d.entries.erase k, d.retire k⟩

/-- `os.rename` within a directory: one name takes the value of the other. -/
def rename (d : Directory κ α) (source target : κ) (a : α) : Directory κ α :=
  (d.remove source).put target a

/-- `os.fsync` of the directory. -/
def sync (d : Directory κ α) : Directory κ α := durable d.entries

/-- `os.fsync` of one part of a directory that stands for several. -/
def syncWhere (d : Directory κ α) (part : κ → Bool) : Directory κ α :=
  ⟨d.entries, fun k ↦ if part k then [] else d.stale k⟩

/-- Change the value of a name in place, as writing to its file does; the directory itself does
not change. -/
def modify (d : Directory κ α) (k : κ) (f : α → α) : Directory κ α :=
  match d.get? k with
  | none => d
  | some a => ⟨d.entries.set k (f a), d.stale⟩

/-- A crash may leave the name with this value, decay apart. -/
def Possible (d : Directory κ α) (k : κ) (v : Option α) : Prop := v = d.get? k ∨ v ∈ d.stale k

/-- What a crash may make of a directory. -/
def Crash (decay : α → α → Prop) (d d' : Directory κ α) : Prop :=
  (∀ k, d'.stale k = []) ∧ ∀ k, ∃ v, d.Possible k v ∧ Option.Rel decay v (d'.get? k)

/-! ### Values after an update -/

/-- A crash may leave the present value. -/
theorem possible_get? (d : Directory κ α) (k : κ) : d.Possible k (d.get? k) := .inl rfl

/-- A sync of some entries changes what is durable, not what is there. -/
@[simp] theorem get?_syncWhere (d : Directory κ α) (part : κ → Bool) (k : κ) :
    (d.syncWhere part).get? k = d.get? k := rfl

/-- A put is seen at its name only. -/
theorem get?_put (d : Directory κ α) (k a : κ) (v : α) :
    (d.put k v).get? a = if a = k then some v else d.get? a := OrderedDict.get?_set _ _ _ _

/-- A removal is seen at its name only. -/
theorem get?_remove (d : Directory κ α) (k a : κ) :
    (d.remove k).get? a = if a = k then none else d.get? a := OrderedDict.get?_erase _ _ _

/-- Of a durable directory a crash leaves what is there. -/
theorem possible_durable {entries : OrderedDict κ α} {k : κ} {v : Option α} :
    (durable entries).Possible k v ↔ v = entries.get? k := by
  unfold Possible
  exact ⟨fun h ↦ h.elim id fun h ↦ absurd h List.not_mem_nil, .inl⟩

/-- After a sync a crash leaves what is there. -/
theorem possible_sync {d : Directory κ α} {k : κ} {v : Option α} :
    d.sync.Possible k v ↔ v = d.get? k := possible_durable

/-- A part that is synced has its values for good; the rest is as before. -/
theorem Possible.of_syncWhere {d : Directory κ α} {part : κ → Bool} {k : κ} {v : Option α}
    (h : (d.syncWhere part).Possible k v) : v = d.get? k ∨ part k = false ∧ d.Possible k v := by
  rcases h with h | h
  · exact .inl h
  · change v ∈ (if part k then [] else d.stale k) at h
    split at h
    · cases h
    · next hp => exact .inr ⟨by simpa using hp, .inr h⟩

/-- A sync makes nothing possible that was not. -/
theorem Possible.of_sync {d : Directory κ α} {k : κ} {v : Option α} (h : d.sync.Possible k v) :
    d.Possible k v := by
  rw [possible_sync.mp h]
  exact d.possible_get? k

/-- After an update a name has its new value, or a value that was possible before. -/
theorem Possible.of_put {d : Directory κ α} {k a : κ} {w : α} {v : Option α}
    (h : (d.put k w).Possible a v) : a = k ∧ v = some w ∨ d.Possible a v := by
  rcases h with h | h
  · rw [get?_put] at h
    split at h
    · next he => exact .inl ⟨he, h⟩
    · exact .inr (.inl h)
  · change v ∈ Function.update d.stale k _ a at h
    rw [Function.update_apply] at h
    split at h
    · next he =>
      subst he
      rcases List.mem_cons.mp h with h | h
      · exact .inr (.inl h)
      · exact .inr (.inr h)
    · exact .inr (.inr h)

/-- A removal makes the absence of its name possible, and nothing else. -/
theorem Possible.of_remove {d : Directory κ α} {k a : κ} {v : Option α}
    (h : (d.remove k).Possible a v) : a = k ∧ v = none ∨ d.Possible a v := by
  rcases h with h | h
  · rw [get?_remove] at h
    split at h
    · next he => exact .inl ⟨he, h⟩
    · exact .inr (.inl h)
  · change v ∈ Function.update d.stale k _ a at h
    rw [Function.update_apply] at h
    split at h
    · next he =>
      subst he
      rcases List.mem_cons.mp h with h | h
      · exact .inr (.inl h)
      · exact .inr (.inr h)
    · exact .inr (.inr h)

/-- A rename makes the target with the value possible, and the absence of the source. -/
theorem Possible.of_rename {d : Directory κ α} {source target a : κ} {w : α} {v : Option α}
    (h : (d.rename source target w).Possible a v) :
    a = target ∧ v = some w ∨ a = source ∧ v = none ∨ d.Possible a v := by
  rcases h.of_put with h | h
  · exact .inl h
  · exact .inr h.of_remove

/-- A change of a value makes the changed value possible, and nothing else. -/
theorem Possible.of_modify {d : Directory κ α} {k a : κ} {f : α → α} {v : Option α}
    (h : (d.modify k f).Possible a v) :
    (a = k ∧ ∃ w, d.get? k = some w ∧ v = some (f w)) ∨ d.Possible a v := by
  unfold modify at h
  split at h
  · exact .inr h
  · next w hw =>
    rcases h with h | h
    · change v = (d.entries.set k (f w)).get? a at h
      rw [OrderedDict.get?_set] at h
      split at h
      · next he => exact .inl ⟨he, w, hw, h⟩
      · exact .inr (.inl h)
    · exact .inr (.inr h)

/-- A change of a value is seen at its name only. -/
theorem get?_modify (d : Directory κ α) (k a : κ) (f : α → α) :
    (d.modify k f).get? a = if a = k then (d.get? k).map f else d.get? a := by
  unfold modify
  split
  · next hw =>
    split
    · next he => rw [he, hw]; rfl
    · rfl
  · next w hw =>
    rw [hw]
    exact OrderedDict.get?_set _ _ _ _

/-- Two changes of one value are one. -/
theorem modify_modify (d : Directory κ α) (k : κ) (f g : α → α) :
    (d.modify k f).modify k g = d.modify k (g ∘ f) := by
  unfold modify
  cases hd : d.get? k with
  | none =>
    dsimp only
    rw [hd]
  | some a =>
    have hset : (⟨d.entries.set k (f a), d.stale⟩ : Directory κ α).get? k = some (f a) := by
      rw [get?, OrderedDict.get?_set, if_pos rfl]
    dsimp only
    rw [hset]
    dsimp only [Function.comp]
    rw [OrderedDict.set_set]

/-- What holds of every possible value holds of what a crash leaves. -/
theorem Crash.possible {decay : α → α → Prop} {d d' : Directory κ α} (h : Crash decay d d')
    {k : κ} {v' : Option α} (hv : d'.Possible k v') :
    ∃ v, d.Possible k v ∧ Option.Rel decay v v' := by
  obtain ⟨v, hp, hr⟩ := h.2 k
  rcases hv with rfl | hv
  · exact ⟨v, hp, hr⟩
  · rw [h.1 k] at hv
    cases hv

end Directory

end SpoolCache.Base

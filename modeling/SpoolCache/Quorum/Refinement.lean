import SpoolCache.Quorum.Receiver

/-!
# The catalog is a family of receivers

Every catalog operation on one rank leaves the views of the other ranks alone, up to entries
the shared size bound evicts. `view_run` follows: after any calls, the view of a rank is what
a private receiver makes of the calls about that rank, up to evictions; and it is exactly that
while nothing has been evicted.
-/

namespace SpoolCache.Quorum.QuorumCatalog

open SpoolCache.Base
open RankView (Receives receiveAll)

/-- A view is what its fields say. -/
private theorem view_eq {c : QuorumCatalog} {r : Nat} {v : RankView}
    (identity : c.generation r = v.identity) (history : c.generationHistory r = v.history)
    (conflict : r ∈ c.generationConflicts ↔ v.conflict = true)
    (sequence : c.sequences r = v.sequence) (pending : c.pending r = v.pending)
    (synchronized : r ∉ c.desynchronized ↔ v.synchronized = true)
    (image : c.rankEntries r = v.image) : c.view r = v := by
  cases v with
  | mk i h k s p y m =>
    have hk : decide (r ∈ c.generationConflicts) = k := by
      rw [Bool.eq_iff_iff, decide_eq_true_iff]
      exact conflict
    have hy : decide (r ∉ c.desynchronized) = y := by
      rw [Bool.eq_iff_iff, decide_eq_true_iff]
      exact synchronized
    rw [view, identity, history, hk, sequence, pending, hy, image]

/-! ### One operation on one rank -/

/-- `c'` is `c` with the view of `rank` moved to `target` and every other view kept, up to
evicted entries; the views are exact if the step evicted nothing. -/
structure MovesTo (rank : Nat) (target : RankView) (c c' : QuorumCatalog) : Prop where
  bounds : c'.bounds = c.bounds
  expectedRanks : c'.expectedRanks = c.expectedRanks
  evictions_le : c.boundEvictions ≤ c'.boundEvictions
  view : ∀ r, Receives (c'.boundEvictions = c.boundEvictions) (c'.view r)
    (if r = rank then target else c.view r)

namespace MovesTo

variable {rank : Nat} {target target' u : RankView} {c c' c'' : QuorumCatalog}

private theorem view_self (h : MovesTo rank target c c') :
    Receives (c'.boundEvictions = c.boundEvictions) (c'.view rank) target := by
  have hv := h.view rank
  rwa [if_pos rfl] at hv

/-- Steps compose when the second target, read off the state between them, refines what it
would be without the evictions of the first. -/
theorem trans (h : MovesTo rank target c c') (h' : MovesTo rank u c' c'')
    (ht : Receives (c'.boundEvictions = c.boundEvictions) u target') :
    MovesTo rank target' c c'' := by
  have hle := h.evictions_le
  have hle' := h'.evictions_le
  refine ⟨h'.bounds.trans h.bounds, h'.expectedRanks.trans h.expectedRanks, by omega, ?_⟩
  intro r
  have hr := h'.view r
  by_cases hq : r = rank
  · rw [if_pos hq] at hr ⊢
    refine (hr.trans ht).mono ?_
    intro he
    omega
  · rw [if_neg hq] at hr ⊢
    have hr' := h.view r
    rw [if_neg hq] at hr'
    refine (hr.trans hr').mono ?_
    intro he
    omega

/-- A step that leaves every view alone. -/
theorem of_views_eq (hb : c'.bounds = c.bounds) (he : c'.expectedRanks = c.expectedRanks)
    (hv : c'.boundEvictions = c.boundEvictions) (hr : ∀ r, c'.view r = c.view r) (rank : Nat) :
    MovesTo rank (c.view rank) c c' := by
  refine ⟨hb, he, by omega, ?_⟩
  intro r
  apply Receives.of_eq
  rw [hr r]
  split
  · next h => rw [h]
  · rfl

private theorem refl (rank : Nat) (c : QuorumCatalog) : MovesTo rank (c.view rank) c c :=
  of_views_eq rfl rfl rfl (fun _ ↦ rfl) rank

end MovesTo

/-! ### Index maintenance -/

/-- Same views, bounds and eviction count: what index maintenance keeps. -/
private def SameViews (c c' : QuorumCatalog) : Prop :=
  c'.bounds = c.bounds ∧ c'.expectedRanks = c.expectedRanks ∧
    c'.boundEvictions = c.boundEvictions ∧ ∀ r, c'.view r = c.view r

private theorem SameViews.trans {c c' c'' : QuorumCatalog} (h : SameViews c c')
    (h' : SameViews c' c'') : SameViews c c'' :=
  ⟨h'.1.trans h.1, h'.2.1.trans h.2.1, h'.2.2.1.trans h.2.2.1,
    fun r ↦ (h'.2.2.2 r).trans (h.2.2.2 r)⟩

private theorem sameViews_foldl (f : QuorumCatalog → Digest → QuorumCatalog)
    (hf : ∀ c k, SameViews c (f c k)) (ks : List Digest) (c : QuorumCatalog) :
    SameViews c (ks.foldl f c) := by
  induction ks generalizing c with
  | nil => exact ⟨rfl, rfl, rfl, fun _ ↦ rfl⟩
  | cons k ks ih => exact (hf c k).trans (ih (f c k))

private theorem sameViews_discardHolder (q : Nat) (c : QuorumCatalog) (k : Digest) :
    SameViews c (discardHolder q c k) := by
  unfold discardHolder
  split
  · exact ⟨rfl, rfl, rfl, fun _ ↦ rfl⟩
  · split <;> exact ⟨rfl, rfl, rfl, fun _ ↦ rfl⟩

private theorem sameViews_addHolder (q : Nat) (c : QuorumCatalog) (k : Digest) :
    SameViews c (addHolder q c k) := ⟨rfl, rfl, rfl, fun _ ↦ rfl⟩

/-- Setting one rank's image after index maintenance. -/
private theorem movesTo_setImage {c c' : QuorumCatalog} (h : SameViews c c') (q : Nat)
    (image : Image) :
    MovesTo q { c.view q with image := image } c
      { c' with rankEntries := Function.update c'.rankEntries q image } := by
  obtain ⟨hb, he, hv, hr⟩ := h
  refine ⟨hb, he, by rw [← hv], ?_⟩
  intro r
  apply Receives.of_eq
  split
  · next hq =>
    subst hq
    rw [← hr r]
    simp [view]
  · next hq =>
    rw [← hr r]
    simp [view, hq]

/-- `_withdraw_rank` empties the image of the rank. -/
theorem movesTo_withdrawRank (c : QuorumCatalog) (q : Nat) :
    MovesTo q { c.view q with image := .empty } c (c.withdrawRank q) := by
  have hq : SameViews c { c with quorumCount := none } := ⟨rfl, rfl, rfl, fun _ ↦ rfl⟩
  exact movesTo_setImage
    (hq.trans (sameViews_foldl _ (sameViews_discardHolder q) (c.rankEntries q).keys _)) q .empty

/-! ### The size bound -/

private theorem movesTo_dropOldest (c : QuorumCatalog) (k : Digest) (q : Nat) :
    MovesTo q (c.view q) c (c.dropOldest k) := by
  refine ⟨rfl, rfl, Nat.le_succ _, ?_⟩
  intro r
  have hif : (if r = q then c.view q else c.view r) = c.view r := by
    split
    · next h => rw [h]
    · rfl
  rw [hif]
  refine ⟨rfl, ?_, ?_⟩
  · change OrderedDict.SubDict (if r ∈ _ then (c.rankEntries r).erase k else c.rankEntries r)
      (c.rankEntries r)
    split
    · exact OrderedDict.SubDict.erase_left (.refl _) k
    · exact .refl _
  · intro he
    change c.boundEvictions + 1 = c.boundEvictions at he
    omega

/-- Evicting down to the bound moves no view elsewhere. -/
theorem movesTo_enforceBoundFrom (ks : List Digest) (c : QuorumCatalog) (q : Nat) :
    MovesTo q (c.view q) c (enforceBoundFrom ks c) := by
  induction ks generalizing c with
  | nil => exact .refl q c
  | cons k ks ih =>
    unfold enforceBoundFrom
    split
    · exact (movesTo_dropOldest c k q).trans (ih (c.dropOldest k))
        (movesTo_dropOldest c k q).view_self
    · exact .refl q c

/-- `_enforce_bound` only evicts. -/
theorem movesTo_enforceBound (c : QuorumCatalog) (q : Nat) :
    MovesTo q (c.view q) c c.enforceBound := movesTo_enforceBoundFrom _ c q

/-- `_desynchronized.discard(rank)` after other steps on the rank. -/
private theorem movesTo_resynchronize {c c' : QuorumCatalog} {q : Nat} {v : RankView}
    (h : MovesTo q v c c') :
    MovesTo q { v with synchronized := true } c
      { c' with desynchronized := c'.desynchronized.erase q } := by
  have hd : MovesTo q { c'.view q with synchronized := true } c'
      { c' with desynchronized := c'.desynchronized.erase q } := by
    refine ⟨rfl, rfl, le_rfl, fun r ↦ Receives.of_eq _ ?_⟩
    split
    · next hr => simp [view, hr]
    · next hr => simp [view, hr]
  refine h.trans hd ?_
  obtain ⟨hr, hs, hx⟩ := h.view_self
  refine ⟨?_, hs, hx⟩
  rw [hr]

/-- `_replace_rank` shows the given entries. -/
theorem movesTo_replaceRank (c : QuorumCatalog) (q : Nat) (entries : Image) :
    MovesTo q ((c.view q).install entries) c (c.replaceRank q entries) := by
  have hw := movesTo_withdrawRank c q
  have hs : MovesTo q { (c.withdrawRank q).view q with image := entries } (c.withdrawRank q)
      (entries.keys.foldl (addHolder q) { c.withdrawRank q with
        rankEntries := Function.update (c.withdrawRank q).rankEntries q entries }) := by
    have hv := sameViews_foldl _ (sameViews_addHolder q) entries.keys { c.withdrawRank q with
        rankEntries := Function.update (c.withdrawRank q).rankEntries q entries }
    have h₁ := movesTo_setImage (c := c.withdrawRank q) ⟨rfl, rfl, rfl, fun _ ↦ rfl⟩ q entries
    have h₂ := MovesTo.of_views_eq hv.1 hv.2.1 hv.2.2.1 hv.2.2.2 q
    exact h₁.trans h₂ h₁.view_self
  have hi : MovesTo q { c.view q with image := entries } c _ :=
    hw.trans hs (Receives.of_eq _ (by rw [hw.view_self.rest]))
  have hr := movesTo_resynchronize hi
  exact hr.trans (movesTo_enforceBound _ q) hr.view_self

/-! ### Calls -/

/-- A step that evicts nothing and changes only one rank's view. -/
private theorem movesTo_of_view_eq {c c' : QuorumCatalog} {q : Nat} {target : RankView}
    (hb : c'.bounds = c.bounds) (he : c'.expectedRanks = c.expectedRanks)
    (hv : c'.boundEvictions = c.boundEvictions) (hq : c'.view q = target)
    (hr : ∀ r, r ≠ q → c'.view r = c.view r) : MovesTo q target c c' := by
  refine ⟨hb, he, by omega, fun r ↦ Receives.of_eq _ ?_⟩
  split
  · next h => rw [h, hq]
  · next h => exact hr r h

/-- Withdrawing a rank counts no eviction. -/
theorem evictions_withdrawRank (c : QuorumCatalog) (q : Nat) :
    (c.withdrawRank q).boundEvictions = c.boundEvictions :=
  (sameViews_foldl _ (sameViews_discardHolder q) (c.rankEntries q).keys
    { c with quorumCount := none }).2.2.1

/-- `_withdraw_rank` on the views of the ranks. -/
theorem view_withdrawRank (c : QuorumCatalog) (q r : Nat) :
    (c.withdrawRank q).view r =
      if r = q then { c.view q with image := .empty } else c.view r :=
  ((movesTo_withdrawRank c q).view r).eq (evictions_withdrawRank c q)

/-- A withdrawal followed by changes to other fields of the same rank. -/
private theorem movesTo_after_withdrawRank {c c' : QuorumCatalog} {q : Nat} {target : RankView}
    (hb : c'.bounds = (c.withdrawRank q).bounds)
    (he : c'.expectedRanks = (c.withdrawRank q).expectedRanks)
    (hv : c'.boundEvictions = (c.withdrawRank q).boundEvictions) (hq : c'.view q = target)
    (hr : ∀ r, r ≠ q → c'.view r = (c.withdrawRank q).view r) : MovesTo q target c c' :=
  (movesTo_withdrawRank c q).trans (movesTo_of_view_eq hb he hv hq hr) (.refl _ _)

private theorem movesTo_desynchronize (c : QuorumCatalog) (q : Nat) :
    MovesTo q (c.view q).desynchronize c (c.desynchronize q) := by
  refine movesTo_after_withdrawRank rfl rfl rfl ?_ ?_
  · have hw := view_withdrawRank c q q
    rw [if_pos rfl] at hw
    have hd : (c.desynchronize q).view q =
        { (c.withdrawRank q).view q with synchronized := false } := by
      apply view_eq <;> simp [view, desynchronize]
    rw [hd, hw]
    rfl
  · intro r hr
    apply view_eq <;> simp [view, desynchronize, hr]

private theorem movesTo_dropPending (c : QuorumCatalog) (q : Nat) :
    MovesTo q { c.view q with pending := none } c (c.dropPending q) := by
  refine movesTo_of_view_eq rfl rfl rfl ?_ ?_
  · apply view_eq <;> simp [view, dropPending]
  · intro r hr
    apply view_eq <;> simp [view, dropPending, hr]

private theorem movesTo_rejectPending (c : QuorumCatalog) (q : Nat) :
    MovesTo q (c.view q).reject c (c.rejectPending q) := by
  have hd := movesTo_dropPending c q
  exact hd.trans (movesTo_desynchronize _ q) hd.view_self.desynchronize

private theorem movesTo_markGenerationConflict (c : QuorumCatalog) (q : Nat) :
    MovesTo q (c.view q).markConflict c (c.markGenerationConflict q) := by
  have hc : ∀ c₀ : QuorumCatalog, MovesTo q (c₀.view q).markConflict c₀
      { (c₀.withdrawRank q).dropPending q with
        desynchronized := insert q (c₀.withdrawRank q).desynchronized
        generationConflicts := insert q (c₀.withdrawRank q).generationConflicts } := by
    intro c₀
    refine movesTo_after_withdrawRank rfl rfl rfl ?_ ?_
    · have hw := view_withdrawRank c₀ q q
      rw [if_pos rfl] at hw
      have hm : (c₀.view q).markConflict = { (c₀.withdrawRank q).view q with
          pending := none, synchronized := false, conflict := true } := by
        rw [hw]
        rfl
      rw [hm]
      apply view_eq <;> simp [view, dropPending]
    · intro r hr
      apply view_eq <;> simp [view, dropPending, hr]
  unfold markGenerationConflict
  by_cases h : q ∈ c.generationConflicts
  · rw [if_pos h]
    exact hc c
  · rw [if_neg h]
    have hcount : MovesTo q (c.view q) c
        { c with generationChangesTotal := c.generationChangesTotal + 1 } :=
      .of_views_eq (by rfl) (by rfl) (by rfl) (fun _ ↦ by rfl) q
    exact hcount.trans (hc _) (.refl _ _)

private theorem view_rememberGeneration (c : QuorumCatalog) (q r : Nat) (identity : Identity) :
    (c.rememberGeneration q identity).view r =
      if r = q then { c.view q with history := (c.view q).rememberedHistory identity }
      else c.view r := by
  unfold rememberGeneration RankView.rememberedHistory
  by_cases hr : r = q
  · subst hr
    rw [if_pos rfl]
    cases hg : c.generation r with
    | none => simp [view, hg]
    | some previous =>
      by_cases hp : previous = identity
      · simp [view, hg, hp]
      · simp [view, hg, hp]
  · rw [if_neg hr]
    cases hg : c.generation q with
    | none => rfl
    | some previous =>
      by_cases hp : previous = identity
      · simp [hp]
      · simp [view, hp, hr]

private theorem frame_rememberGeneration (c : QuorumCatalog) (q : Nat) (identity : Identity) :
    (c.rememberGeneration q identity).bounds = c.bounds ∧
      (c.rememberGeneration q identity).expectedRanks = c.expectedRanks ∧
      (c.rememberGeneration q identity).boundEvictions = c.boundEvictions := by
  unfold rememberGeneration
  split
  · exact ⟨rfl, rfl, rfl⟩
  · split <;> exact ⟨rfl, rfl, rfl⟩

/-- The view of a rank adopts the identity, and others are kept. -/
theorem movesTo_adoptGeneration (c : QuorumCatalog) (q : Nat) (identity : Identity) :
    MovesTo q ((c.view q).adopt identity) c (c.adoptGeneration q identity) := by
  obtain ⟨hb, he, hv⟩ := frame_rememberGeneration c q identity
  have hh := view_rememberGeneration c q q identity
  rw [if_pos rfl] at hh
  have h₁ : MovesTo q { c.view q with history := (c.view q).rememberedHistory identity } c
      (c.rememberGeneration q identity) := by
    apply movesTo_of_view_eq hb he hv hh
    intro r hr
    rw [view_rememberGeneration, if_neg hr]
  have h₂ : MovesTo q ((c.view q).adopt identity) (c.rememberGeneration q identity)
      (c.adoptGeneration q identity) := by
    refine movesTo_after_withdrawRank rfl rfl rfl ?_ ?_
    · have hw := view_withdrawRank (c.rememberGeneration q identity) q q
      rw [if_pos rfl, hh] at hw
      have ha : (c.view q).adopt identity =
          { ((c.rememberGeneration q identity).withdrawRank q).view q with
            identity := some identity, conflict := false, sequence := 0, pending := none
            synchronized := false } := by
        rw [hw]
        rfl
      rw [ha]
      apply view_eq <;> simp [view, adoptGeneration]
    · intro r hr
      apply view_eq <;> simp [view, adoptGeneration, hr]
  exact h₁.trans h₂ (.refl _ _)

/-- Adopting an identity counts no eviction. -/
theorem evictions_adoptGeneration (c : QuorumCatalog) (q : Nat) (identity : Identity) :
    (c.adoptGeneration q identity).boundEvictions = c.boundEvictions :=
  (evictions_withdrawRank _ q).trans (frame_rememberGeneration c q identity).2.2

/-- Record a sequence and show an image. -/
private theorem movesTo_advance (c : QuorumCatalog) (q sequence : Nat) (image : Image) :
    MovesTo q ({ c.view q with sequence := sequence }.install image) c
      ({ c with sequences := Function.update c.sequences q sequence }.replaceRank q image) := by
  have hs : MovesTo q { c.view q with sequence := sequence } c
      { c with sequences := Function.update c.sequences q sequence } := by
    refine movesTo_of_view_eq rfl rfl rfl ?_ ?_
    · apply view_eq <;> simp [view]
    · intro r hr
      apply view_eq <;> simp [view, hr]
  refine hs.trans (movesTo_replaceRank _ q image) (.of_eq _ ?_)
  rw [hs.view_self.eq rfl]

/-- The view of a rank takes the delta, and others are kept. -/
theorem movesTo_applyDelta (c : QuorumCatalog) (q : Nat)
    (delta : Option InventoryDelta) :
    MovesTo q ((c.view q).applyDelta delta) c (c.applyDelta q delta) := by
  cases delta with
  | none => exact .refl q c
  | some d =>
    unfold applyDelta RankView.applyDelta
    by_cases hd : q ∈ c.desynchronized
    · have hs : (c.view q).synchronized = false := by simp [view, hd]
      simp only [if_pos hd, if_pos hs]
      exact .refl q c
    · have hs : ¬ (c.view q).synchronized = false := by simp [view, hd]
      simp only [if_neg hd, if_neg hs]
      by_cases hb : d.baseSequence = c.sequences q ∧ d.sequence = c.sequences q + 1
      · have hv : d.baseSequence = (c.view q).sequence ∧ d.sequence = (c.view q).sequence + 1 := hb
        rw [if_pos hb, if_pos hv]
        exact movesTo_advance c q d.sequence _
      · have hv : ¬ (d.baseSequence = (c.view q).sequence ∧
            d.sequence = (c.view q).sequence + 1) := hb
        rw [if_neg hb, if_neg hv]
        by_cases hl : c.sequences q < d.sequence
        · have hw : (c.view q).sequence < d.sequence := hl
          rw [if_pos hl, if_pos hw]
          exact movesTo_desynchronize c q
        · have hw : ¬ (c.view q).sequence < d.sequence := hl
          rw [if_neg hl, if_neg hw]
          exact .refl q c

/-- The view of a rank checks the sequence, and others are kept. -/
theorem movesTo_checkSequence (c : QuorumCatalog) (q : Nat)
    (checkpoint : InventoryCheckpoint) :
    MovesTo q ((c.view q).checkSequence checkpoint) c (c.checkSequence q checkpoint) := by
  unfold checkSequence RankView.checkSequence
  by_cases h : q ∉ c.desynchronized ∧ c.sequences q < checkpoint.sequence
  · have hv : (c.view q).synchronized = true ∧ (c.view q).sequence < checkpoint.sequence :=
      ⟨(synchronized_view c q).mpr h.1, h.2⟩
    rw [if_pos h, if_pos hv]
    exact movesTo_desynchronize c q
  · have hv : ¬ ((c.view q).synchronized = true ∧ (c.view q).sequence < checkpoint.sequence) :=
      fun hv ↦ h ⟨(synchronized_view c q).mp hv.1, hv.2⟩
    rw [if_neg h, if_neg hv]
    exact .refl q c

private theorem movesTo_completeCheckpoint (c : QuorumCatalog) (q : Nat)
    (p : PendingCheckpoint) :
    MovesTo q ((c.view q).completeCheckpoint p) c (c.completeCheckpoint q p) := by
  have hdrop : ∀ {c' : QuorumCatalog} {v : RankView}, MovesTo q v c c' →
      MovesTo q { v with pending := none } c (c'.dropPending q) := by
    intro c' v h
    exact h.trans (movesTo_dropPending c' q) (h.view_self.setPending none)
  unfold completeCheckpoint RankView.completeCheckpoint
  apply hdrop
  by_cases hl : p.sequence < c.sequences q
  · have hv : p.sequence < (c.view q).sequence := hl
    rw [if_pos hl, if_pos hv]
    exact .refl q c
  · have hv : ¬ p.sequence < (c.view q).sequence := hl
    rw [if_neg hl, if_neg hv]
    split
    · exact movesTo_desynchronize c q
    · exact movesTo_advance c q p.sequence _

private theorem movesTo_storeCheckpoint (c : QuorumCatalog) (q : Nat)
    (checkpoint : InventoryCheckpoint) (p : PendingCheckpoint) :
    MovesTo q ((c.view q).storeCheckpoint checkpoint p) c
      (c.storeCheckpoint q checkpoint p) := by
  unfold storeCheckpoint RankView.storeCheckpoint
  split
  · exact movesTo_rejectPending c q
  · dsimp only
    split
    · exact movesTo_rejectPending c q
    · have hp : MovesTo q { c.view q with pending := some (storePage p checkpoint) } c
          { c with pending := Function.update c.pending q (some (storePage p checkpoint)) } := by
        refine movesTo_of_view_eq rfl rfl rfl ?_ ?_
        · apply view_eq <;> simp [view]
        · intro r hr
          apply view_eq <;> simp [view, hr]
      split
      · exact hp.trans (movesTo_completeCheckpoint _ q _) (hp.view_self.completeCheckpoint _)
      · exact hp

private theorem movesTo_applyCheckpoint (c : QuorumCatalog) (q : Nat)
    (checkpoint : InventoryCheckpoint) :
    MovesTo q ((c.view q).applyCheckpoint checkpoint) c (c.applyCheckpoint q checkpoint) := by
  have hc := movesTo_checkSequence c q checkpoint
  have hp : ((c.checkSequence q checkpoint).view q).pending =
      ((c.view q).checkSequence checkpoint).pending := by rw [hc.view_self.rest]
  refine hc.trans (movesTo_storeCheckpoint _ q checkpoint _) ?_
  rw [RankView.applyCheckpoint, ← hp]
  exact hc.view_self.storeCheckpoint checkpoint _

private theorem movesTo_applyBody (c : QuorumCatalog) (q : Nat) (report : RawReport) :
    MovesTo q ((c.view q).applyBody c.bounds report) c (c.applyBody q report) := by
  unfold applyBody RankView.applyBody
  cases validateInventoryReport c.bounds report with
  | error e => exact movesTo_rejectPending c q
  | ok valid =>
    have hd := movesTo_applyDelta c q valid.delta
    exact hd.trans (movesTo_applyCheckpoint _ q _) (hd.view_self.applyCheckpoint _)

private theorem movesTo_installStartup (c : QuorumCatalog) (q : Nat) (entries : EntryStream) :
    MovesTo q ((c.view q).installStartup c.bounds entries) c
      (c.installStartup q entries).1 := by
  unfold installStartup RankView.installStartup
  cases startupEntries c.bounds entries with
  | error e => exact .refl q c
  | ok image => exact movesTo_replaceRank c q image

/-- What to do with an identity depends on the view of the rank alone. -/
theorem disposition_view (c : QuorumCatalog) (q : Nat) (identity : Identity) :
    (c.view q).disposition identity = c.generationDisposition q identity := by
  have hc : (c.view q).conflict = true ↔ q ∈ c.generationConflicts := by simp [view]
  have hi : (c.view q).identity = c.generation q := rfl
  unfold RankView.disposition generationDisposition
  rw [hi]
  cases c.generation q with
  | none => rfl
  | some previous =>
    simp only [hc]
    rfl

/-- Adoption followed by a step of the adopted process. -/
private theorem movesTo_adopted {c c' : QuorumCatalog} {q : Nat} {identity : Identity}
    {f : InventoryBounds → RankView → RankView}
    (h : MovesTo q (f (c.adoptGeneration q identity).bounds ((c.adoptGeneration q identity).view q))
      (c.adoptGeneration q identity) c') :
    MovesTo q (f c.bounds ((c.view q).adopt identity)) c c' := by
  have ha := movesTo_adoptGeneration c q identity
  rw [ha.view_self.eq (evictions_adoptGeneration c q identity), ha.bounds] at h
  exact ha.trans h (.refl _ _)

/-- A call about a rank is its receiver's step. -/
theorem movesTo_call (c : QuorumCatalog) {m : Call} {q : Nat}
    (h : m.rank? c.expectedRanks = some q) :
    MovesTo q ((c.view q).receive c.bounds m) c (c.call m) := by
  cases m with
  | startup rank generation epoch entries =>
    change expectedRank? c.expectedRanks rank = some q at h
    simp only [call, applyStartup, h, RankView.receive, RankView.receiveStartup]
    cases validateGenerationIdentity generation epoch with
    | error e => exact movesTo_markGenerationConflict c q
    | ok identity =>
      have hi := movesTo_adopted (movesTo_installStartup (c.adoptGeneration q identity) q entries)
        (f := fun b v ↦ v.installStartup b entries)
      simp only [disposition_view]
      cases c.generationDisposition q identity with
      | stale => exact .refl q c
      | conflict => exact movesTo_markGenerationConflict c q
      | current => exact .refl q c
      | initial => exact hi
      | newer => exact hi
  | report report =>
    change expectedRank? c.expectedRanks report.rank = some q at h
    simp only [call, applyReport, h, RankView.receive, RankView.receiveReport]
    cases validateGenerationIdentity report.generation report.generationEpoch with
    | error e => exact movesTo_markGenerationConflict c q
    | ok identity =>
      have hi := movesTo_adopted (movesTo_applyBody (c.adoptGeneration q identity) q report)
        (f := fun b v ↦ v.applyBody b report)
      simp only [disposition_view]
      cases c.generationDisposition q identity with
      | stale => exact .refl q c
      | conflict => exact movesTo_markGenerationConflict c q
      | initial => exact hi
      | newer => exact hi
      | current => exact movesTo_applyBody c q report
  | longest candidates => cases h
  | readQuorumCount => cases h

/-- A call about no rank changes no view. -/
theorem movesTo_call_none (c : QuorumCatalog) {m : Call} (h : m.rank? c.expectedRanks = none)
    (q : Nat) : MovesTo q (c.view q) c (c.call m) := by
  cases m with
  | startup rank generation epoch entries =>
    change expectedRank? c.expectedRanks rank = none at h
    simp only [call, applyStartup, h]
    exact .refl q c
  | report report =>
    change expectedRank? c.expectedRanks report.rank = none at h
    simp only [call, applyReport, h]
    exact .refl q c
  | longest candidates =>
    simp only [call, longest]
    split
    · exact .of_views_eq (by rfl) (by rfl) (by rfl) (fun _ ↦ by rfl) q
    · exact .refl q c
  | readQuorumCount =>
    simp only [call, readQuorumCount]
    split
    · exact .refl q c
    · exact .of_views_eq (by rfl) (by rfl) (by rfl) (fun _ ↦ by rfl) q

/-! ### Runs -/

/-- One call: bounds and ranks stay, evictions only grow, and the view of each rank is its
receiver's up to evictions. -/
theorem view_call (c : QuorumCatalog) (m : Call) (r : Nat) :
    (c.call m).bounds = c.bounds ∧ (c.call m).expectedRanks = c.expectedRanks ∧
      c.boundEvictions ≤ (c.call m).boundEvictions ∧
      Receives ((c.call m).boundEvictions = c.boundEvictions) ((c.call m).view r)
        (receiveAll c.bounds c.expectedRanks r (c.view r) [m]) := by
  cases hm : m.rank? c.expectedRanks with
  | none =>
    have h := movesTo_call_none c hm r
    refine ⟨h.bounds, h.expectedRanks, h.evictions_le, ?_⟩
    simpa [receiveAll, hm] using h.view_self
  | some q =>
    have h := movesTo_call c hm
    refine ⟨h.bounds, h.expectedRanks, h.evictions_le, ?_⟩
    have hv := h.view r
    by_cases hr : r = q
    · subst hr
      simpa [receiveAll, hm] using hv
    · have hq : ¬ q = r := fun hq ↦ hr hq.symm
      simpa [receiveAll, hm, hr, hq] using hv

/-- After any calls, bounds and ranks stay and evictions only grow. -/
theorem frame_run (c : QuorumCatalog) (calls : List Call) :
    (c.run calls).bounds = c.bounds ∧ (c.run calls).expectedRanks = c.expectedRanks ∧
      c.boundEvictions ≤ (c.run calls).boundEvictions := by
  induction calls generalizing c with
  | nil => exact ⟨rfl, rfl, le_rfl⟩
  | cons m calls ih =>
    obtain ⟨hb, he, hl, -⟩ := view_call c m 0
    obtain ⟨hb', he', hl'⟩ := ih (c.call m)
    exact ⟨hb'.trans hb, he'.trans he, hl.trans hl'⟩

/-- After any calls, the catalog's view of a rank is its private receiver, up to evicted
entries, and exactly if nothing was evicted. -/
theorem view_run (c : QuorumCatalog) (calls : List Call) (r : Nat) :
    Receives ((c.run calls).boundEvictions = c.boundEvictions) ((c.run calls).view r)
      (receiveAll c.bounds c.expectedRanks r (c.view r) calls) := by
  induction calls generalizing c with
  | nil => exact .refl _ _
  | cons m calls ih =>
    obtain ⟨hb, he, hl, hv⟩ := view_call c m r
    have hl' := (frame_run (c.call m) calls).2.2
    have hi := ih (c.call m)
    rw [hb, he] at hi
    have happ := RankView.receiveAll_append c.bounds c.expectedRanks r (c.view r) [m] calls
    rw [List.singleton_append] at happ
    rw [happ]
    refine (hi.trans (hv.receiveAll _ _ _ calls)).mono ?_
    intro hx
    rw [run_cons] at hx
    omega

end SpoolCache.Quorum.QuorumCatalog

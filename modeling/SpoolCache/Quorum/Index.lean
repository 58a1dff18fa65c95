import SpoolCache.Quorum.Refinement

/-!
# Representation invariant of the catalog

The inverted index, the recency order, the images, the pending checkpoints and the cached
count describe one relation between ranks and entries. Each operation of `quorum.py:322–353`
is described by what it does to the set of holders of an entry; the invariant follows for
every call, including the calls that raise, and so for every run.
-/

namespace SpoolCache.Quorum.QuorumCatalog

open SpoolCache.Base

/-- Ranks the index lists for an entry. -/
def holders (c : QuorumCatalog) (entryId : Digest) : Finset Nat :=
  (c.entryRanks.get? entryId).getD ∅

/-- The index lists no entry without ranks, and the recency order lists the indexed entries. -/
structure IndexShape (c : QuorumCatalog) : Prop where
  nonempty : ∀ entryId ranks, c.entryRanks.get? entryId = some ranks → ranks ≠ ∅
  recency : ∀ entryId, entryId ∈ c.recency.keys ↔ entryId ∈ c.entryRanks.keys

private theorem mem_keys_entryRanks {c : QuorumCatalog} (h : c.IndexShape) (e : Digest) :
    e ∈ c.entryRanks.keys ↔ c.holders e ≠ ∅ := by
  rw [OrderedDict.mem_keys_iff, holders]
  cases hg : c.entryRanks.get? e with
  | none => simp
  | some ranks => simpa using h.nonempty e ranks hg

/-! ### Holders under index maintenance -/

private theorem holders_discardHolder (q : Nat) (c : QuorumCatalog) (k e : Digest) :
    (discardHolder q c k).holders e =
      if e = k then (c.holders e).erase q else c.holders e := by
  unfold discardHolder holders
  cases hg : c.entryRanks.get? k with
  | none =>
    by_cases h : e = k
    · simp [h, hg]
    · simp [h]
  | some ranks =>
    dsimp only
    split
    · next he =>
      rw [OrderedDict.get?_erase]
      split
      · next h => simp [h, hg, he]
      · rfl
    · rw [OrderedDict.get?_set]
      split
      · next h => simp [h, hg]
      · rfl

private theorem indexShape_discardHolder {c : QuorumCatalog} (h : c.IndexShape) (q : Nat)
    (k : Digest) : (discardHolder q c k).IndexShape := by
  unfold discardHolder
  cases hg : c.entryRanks.get? k with
  | none => exact h
  | some ranks =>
    dsimp only
    split
    · refine ⟨?_, ?_⟩
      · intro e rs hr
        rw [OrderedDict.get?_erase] at hr
        split at hr
        · cases hr
        · exact h.nonempty e rs hr
      · intro e
        rw [OrderedDict.mem_keys_erase, OrderedDict.mem_keys_erase, h.recency]
    · next hne =>
      refine ⟨?_, ?_⟩
      · intro e rs hr
        rw [OrderedDict.get?_set] at hr
        split at hr
        · cases hr
          exact hne
        · exact h.nonempty e rs hr
      · intro e
        rw [OrderedDict.mem_keys_set, h.recency]
        constructor
        · exact .inr
        · rintro (rfl | hk)
          · exact (c.entryRanks.mem_keys_iff e).mpr ⟨ranks, hg⟩
          · exact hk

private theorem size_discardHolder_le (q : Nat) (c : QuorumCatalog) (k : Digest) :
    (discardHolder q c k).entryRanks.size ≤ c.entryRanks.size := by
  unfold discardHolder
  cases hg : c.entryRanks.get? k with
  | none => exact le_rfl
  | some ranks =>
    dsimp only
    split
    · exact OrderedDict.size_erase_le _ _
    · have hk : k ∈ c.entryRanks.keys := (c.entryRanks.mem_keys_iff k).mpr ⟨ranks, hg⟩
      simp only [OrderedDict.size_set, if_pos hk, le_refl]

private theorem holders_addHolder (q : Nat) (c : QuorumCatalog) (k e : Digest) :
    (addHolder q c k).holders e =
      if e = k then insert q (c.holders e) else c.holders e := by
  change ((c.entryRanks.set k _).get? e).getD ∅ = _
  rw [OrderedDict.get?_set]
  split
  · next h =>
    subst h
    rfl
  · rfl

private theorem indexShape_addHolder {c : QuorumCatalog} (h : c.IndexShape) (q : Nat) (k : Digest) :
    (addHolder q c k).IndexShape := by
  refine ⟨?_, ?_⟩
  · intro e rs hr
    change (c.entryRanks.set k _).get? e = some rs at hr
    rw [OrderedDict.get?_set] at hr
    split at hr
    · cases hr
      exact Finset.insert_ne_empty _ _
    · exact h.nonempty e rs hr
  · intro e
    change e ∈ ((c.recency.erase k).set k ()).keys ↔ e ∈ (c.entryRanks.set k _).keys
    rw [OrderedDict.mem_keys_set, OrderedDict.mem_keys_set, OrderedDict.mem_keys_erase,
      h.recency]
    by_cases he : e = k <;> simp [he]

private theorem holders_dropOldest (c : QuorumCatalog) (k e : Digest) :
    (c.dropOldest k).holders e = if e = k then ∅ else c.holders e := by
  change ((c.entryRanks.erase k).get? e).getD ∅ = _
  rw [OrderedDict.get?_erase]
  split
  · rfl
  · rfl

private theorem indexShape_dropOldest {c : QuorumCatalog} (h : c.IndexShape) (k : Digest) :
    (c.dropOldest k).IndexShape := by
  refine ⟨?_, ?_⟩
  · intro e rs hr
    change (c.entryRanks.erase k).get? e = some rs at hr
    rw [OrderedDict.get?_erase] at hr
    split at hr
    · cases hr
    · exact h.nonempty e rs hr
  · intro e
    change e ∈ (c.recency.erase k).keys ↔ e ∈ (c.entryRanks.erase k).keys
    rw [OrderedDict.mem_keys_erase, OrderedDict.mem_keys_erase, h.recency]

private theorem holders_foldl_discardHolder (q : Nat) (ks : List Digest) (c : QuorumCatalog)
    (e : Digest) :
    (ks.foldl (discardHolder q) c).holders e =
      if e ∈ ks then (c.holders e).erase q else c.holders e := by
  induction ks generalizing c with
  | nil => rfl
  | cons k ks ih =>
    rw [List.foldl_cons, ih, holders_discardHolder]
    by_cases hk : e = k
    · subst hk
      by_cases hm : e ∈ ks <;> simp [hm]
    · simp [hk]

private theorem indexShape_foldl (f : QuorumCatalog → Digest → QuorumCatalog)
    (hf : ∀ c k, IndexShape c → IndexShape (f c k)) (ks : List Digest) (c : QuorumCatalog)
    (h : c.IndexShape) : (ks.foldl f c).IndexShape := by
  induction ks generalizing c with
  | nil => exact h
  | cons k ks ih => exact ih _ (hf c k h)

private theorem size_foldl_discardHolder_le (q : Nat) (ks : List Digest) (c : QuorumCatalog) :
    (ks.foldl (discardHolder q) c).entryRanks.size ≤ c.entryRanks.size := by
  induction ks generalizing c with
  | nil => exact le_rfl
  | cons k ks ih => exact (ih _).trans (size_discardHolder_le q c k)

private theorem holders_foldl_addHolder (q : Nat) (ks : List Digest) (c : QuorumCatalog)
    (e : Digest) :
    (ks.foldl (addHolder q) c).holders e =
      if e ∈ ks then insert q (c.holders e) else c.holders e := by
  induction ks generalizing c with
  | nil => rfl
  | cons k ks ih =>
    rw [List.foldl_cons, ih, holders_addHolder]
    by_cases hk : e = k
    · subst hk
      by_cases hm : e ∈ ks <;> simp [hm]
    · simp [hk]

/-! ### Images and index -/

/-- Index and images describe the same relation, only for expected ranks. -/
structure IndexInv (c : QuorumCatalog) : Prop extends IndexShape c where
  index : ∀ entryId r, r ∈ c.holders entryId ↔ entryId ∈ (c.rankEntries r).keys
  expected : ∀ entryId r, r ∈ c.holders entryId → r ∈ c.expectedRanks

/-- Index maintenance leaves these fields alone. -/
private theorem rankEntries_foldl (f : QuorumCatalog → Digest → QuorumCatalog)
    (hf : ∀ c k, (f c k).rankEntries = c.rankEntries) (ks : List Digest) (c : QuorumCatalog) :
    (ks.foldl f c).rankEntries = c.rankEntries := by
  induction ks generalizing c with
  | nil => rfl
  | cons k ks ih => exact (ih _).trans (hf c k)

private theorem rankEntries_discardHolder (q : Nat) (c : QuorumCatalog) (k : Digest) :
    (discardHolder q c k).rankEntries = c.rankEntries := by
  unfold discardHolder
  split
  · rfl
  · split <;> rfl

private theorem holders_withdrawRank {c : QuorumCatalog} (h : c.IndexInv) (q : Nat) (e : Digest) :
    (c.withdrawRank q).holders e = (c.holders e).erase q := by
  change ((c.rankEntries q).keys.foldl (discardHolder q) { c with quorumCount := none }).holders e =
    _
  rw [holders_foldl_discardHolder]
  by_cases hm : e ∈ (c.rankEntries q).keys
  · rw [if_pos hm]
    rfl
  · have hq : q ∉ c.holders e := fun hq ↦ hm ((h.index e q).mp hq)
    rw [if_neg hm, Finset.erase_eq_of_notMem hq]
    rfl

private theorem rankEntries_withdrawRank (c : QuorumCatalog) (q : Nat) :
    (c.withdrawRank q).rankEntries = Function.update c.rankEntries q .empty := by
  have hf := rankEntries_foldl _ (rankEntries_discardHolder q) (c.rankEntries q).keys
    { c with quorumCount := none }
  simp only [withdrawRank, hf]

private theorem indexInv_withdrawRank {c : QuorumCatalog} (h : c.IndexInv) (q : Nat) :
    (c.withdrawRank q).IndexInv := by
  have hs :=
    indexShape_foldl _ (fun c k hc ↦ indexShape_discardHolder hc q k) (c.rankEntries q).keys
      { c with quorumCount := none } ⟨h.nonempty, h.recency⟩
  have he := (movesTo_withdrawRank c q).expectedRanks
  refine ⟨⟨hs.nonempty, hs.recency⟩, ?_, ?_⟩
  · intro e r
    rw [holders_withdrawRank h, Finset.mem_erase, rankEntries_withdrawRank, h.index]
    by_cases hr : r = q
    · subst hr
      simp
    · simp [hr]
  · intro e r hr
    rw [holders_withdrawRank h, Finset.mem_erase] at hr
    rw [he]
    exact h.expected e r hr.2

private theorem size_withdrawRank_le (c : QuorumCatalog) (q : Nat) :
    (c.withdrawRank q).entryRanks.size ≤ c.entryRanks.size :=
  size_foldl_discardHolder_le q (c.rankEntries q).keys { c with quorumCount := none }

private theorem indexInv_dropOldest {c : QuorumCatalog} (h : c.IndexInv) (k : Digest) :
    (c.dropOldest k).IndexInv := by
  have hs := indexShape_dropOldest h.toIndexShape k
  refine ⟨⟨hs.nonempty, hs.recency⟩, ?_, ?_⟩
  · intro e r
    rw [holders_dropOldest]
    change _ ↔ e ∈ (if r ∈ c.holders k then (c.rankEntries r).erase k else c.rankEntries r).keys
    by_cases he : e = k
    · subst he
      rw [if_pos rfl]
      by_cases hr : r ∈ c.holders e
      · simp [if_pos hr, OrderedDict.mem_keys_erase]
      · simp [← h.index e r, hr]
    · rw [if_neg he, h.index]
      by_cases hr : r ∈ c.holders k
      · simp [if_pos hr, OrderedDict.mem_keys_erase, he]
      · simp [if_neg hr]
  · intro e r hr
    rw [holders_dropOldest] at hr
    split at hr
    · cases hr
    · exact h.expected e r hr

/-- The loop keeps the invariant and stops below the bound: it walks the recency order, so
when it runs out of entries the index is empty. -/
private theorem enforceBoundFrom_spec (ks : List Digest) (c : QuorumCatalog) (h : c.IndexInv)
    (hk : c.recency.keys = ks) :
    (enforceBoundFrom ks c).IndexInv ∧
      c.bounds.overBound (enforceBoundFrom ks c).entryRanks.size = false := by
  induction ks generalizing c with
  | nil =>
    refine ⟨h, ?_⟩
    have hz : c.entryRanks.keys = [] := by
      apply List.eq_nil_iff_forall_not_mem.mpr
      intro e he
      have hm := (h.recency e).mpr he
      rw [hk] at hm
      cases hm
    have hs : c.entryRanks.size = 0 := by
      rw [← OrderedDict.length_keys, hz]
      rfl
    rw [enforceBoundFrom, hs, InventoryBounds.not_overBound_iff]
    exact Nat.zero_le _
  | cons k ks ih =>
    unfold enforceBoundFrom
    split
    · have hnd : (k :: ks).Nodup := hk ▸ c.recency.nodup_keys
      have hr : (c.dropOldest k).recency.keys = ks := by
        change (c.recency.erase k).keys = ks
        rw [OrderedDict.keys_erase, hk, List.filter_cons_of_neg (by simp)]
        apply List.filter_eq_self.mpr
        intro a ha
        have hne : a ≠ k := fun hak ↦ (List.nodup_cons.mp hnd).1 (hak ▸ ha)
        simpa using hne
      exact ih (c.dropOldest k) (indexInv_dropOldest h k) hr
    · next ho => exact ⟨h, by simpa using ho⟩

private theorem enforceBound_spec {c : QuorumCatalog} (h : c.IndexInv) :
    c.enforceBound.IndexInv ∧ c.bounds.overBound c.enforceBound.entryRanks.size = false :=
  enforceBoundFrom_spec _ c h rfl

/-- `_replace_rank` restores index, bound and expected ranks. -/
theorem replaceRank_spec {c : QuorumCatalog} (h : c.IndexInv) {q : Nat}
    (hq : q ∈ c.expectedRanks) (entries : Image) :
    (c.replaceRank q entries).IndexInv ∧
      c.bounds.overBound (c.replaceRank q entries).entryRanks.size = false := by
  have hw := indexInv_withdrawRank h q
  have hb := (movesTo_withdrawRank c q).bounds
  have he := (movesTo_withdrawRank c q).expectedRanks
  let c₁ : QuorumCatalog := { c.withdrawRank q with
    rankEntries := Function.update (c.withdrawRank q).rankEntries q entries }
  let c₂ := entries.keys.foldl (addHolder q) c₁
  have hi : c₂.rankEntries = Function.update (c.withdrawRank q).rankEntries q entries :=
    rankEntries_foldl (addHolder q) (fun _ _ ↦ rfl) entries.keys c₁
  have hx : ∀ ks (c' : QuorumCatalog), (List.foldl (addHolder q) c' ks).expectedRanks =
      c'.expectedRanks ∧ (List.foldl (addHolder q) c' ks).bounds = c'.bounds := by
    intro ks
    induction ks with
    | nil => exact fun _ ↦ ⟨rfl, rfl⟩
    | cons k ks ih => exact fun c' ↦ ih (addHolder q c' k)
  have hinv : c₂.IndexInv := by
    have hs : c₂.IndexShape := indexShape_foldl _ (fun c k hc ↦ indexShape_addHolder hc q k)
      entries.keys c₁ ⟨hw.nonempty, hw.recency⟩
    have hh : ∀ e, c₂.holders e = if e ∈ entries.keys then insert q ((c.holders e).erase q)
        else (c.holders e).erase q := by
      intro e
      rw [← holders_withdrawRank h q e]
      exact holders_foldl_addHolder q entries.keys c₁ e
    refine ⟨⟨hs.nonempty, hs.recency⟩, ?_, ?_⟩
    · intro e r
      rw [hh, hi, rankEntries_withdrawRank]
      by_cases hr : r = q
      · subst hr
        by_cases hm : e ∈ entries.keys <;> simp [hm]
      · by_cases hm : e ∈ entries.keys <;> simp [hm, hr, h.index]
    · intro e r hr
      rw [(hx entries.keys c₁).1]
      change r ∈ (c.withdrawRank q).expectedRanks
      rw [he]
      rw [hh] at hr
      by_cases hrq : r = q
      · exact hrq ▸ hq
      · apply h.expected e r
        by_cases hm : e ∈ entries.keys
        · simpa [hm, hrq] using hr
        · simpa [hm, hrq] using hr
  have hbd : c₂.bounds = c.bounds := (hx entries.keys c₁).2.trans hb
  rw [← hbd]
  exact enforceBound_spec (c := { c₂ with desynchronized := c₂.desynchronized.erase q })
    ⟨⟨hinv.nonempty, hinv.recency⟩, hinv.index, hinv.expected⟩

/-! ### The cached count -/

private theorem quorumCount_enforceBoundFrom (ks : List Digest) (c : QuorumCatalog)
    (h : c.quorumCount = none) : (enforceBoundFrom ks c).quorumCount = none := by
  induction ks generalizing c with
  | nil => exact h
  | cons k ks ih =>
    unfold enforceBoundFrom
    split
    · exact ih _ rfl
    · exact h

private theorem quorumCount_foldl (f : QuorumCatalog → Digest → QuorumCatalog)
    (hf : ∀ c k, (f c k).quorumCount = c.quorumCount) (ks : List Digest) (c : QuorumCatalog) :
    (ks.foldl f c).quorumCount = c.quorumCount := by
  induction ks generalizing c with
  | nil => rfl
  | cons k ks ih => exact (ih _).trans (hf c k)

private theorem quorumCount_withdrawRank (c : QuorumCatalog) (q : Nat) :
    (c.withdrawRank q).quorumCount = none := by
  apply quorumCount_foldl (discardHolder q)
  intro c k
  unfold discardHolder
  split
  · rfl
  · split <;> rfl

private theorem quorumCount_replaceRank (c : QuorumCatalog) (q : Nat) (entries : Image) :
    (c.replaceRank q entries).quorumCount = none := by
  apply quorumCount_enforceBoundFrom
  exact (quorumCount_foldl (addHolder q) (fun _ _ ↦ rfl) entries.keys _).trans
    (quorumCount_withdrawRank c q)

/-! ### Calls -/

/-- Index, size bound and cached count: the clauses that concern all ranks together. -/
structure SharedInv (c : QuorumCatalog) : Prop extends IndexInv c where
  bounded : c.bounds.overBound c.entryRanks.size = false
  cached : ∀ n, c.quorumCount = some n → n = c.countQuorum

namespace SharedInv

variable {c c' : QuorumCatalog}

/-- Fields of single ranks, other than images, do not matter. -/
theorem congr (h : c.SharedInv) (hx : c'.expectedRanks = c.expectedRanks)
    (hb : c'.bounds = c.bounds) (hi : c'.rankEntries = c.rankEntries)
    (he : c'.entryRanks = c.entryRanks) (hr : c'.recency = c.recency)
    (hq : c'.quorumCount = c.quorumCount) : c'.SharedInv := by
  obtain ⟨⟨⟨hn, hrec⟩, hidx, hexp⟩, hbd, hc⟩ := h
  refine ⟨⟨⟨?_, ?_⟩, ?_, ?_⟩, ?_, ?_⟩
  · rwa [he]
  · rwa [he, hr]
  · simpa only [holders, he, hi] using hidx
  · simpa only [holders, he, hx] using hexp
  · rwa [hb, he]
  · intro n hn'
    rw [hq] at hn'
    rw [hc n hn']
    simp only [countQuorum, hasQuorum, he, hi, hx]

private theorem withdrawRank (h : c.SharedInv) (q : Nat) : (c.withdrawRank q).SharedInv := by
  refine ⟨indexInv_withdrawRank h.toIndexInv q, ?_, ?_⟩
  · rw [(movesTo_withdrawRank c q).bounds, InventoryBounds.not_overBound_iff]
    exact (size_withdrawRank_le c q).trans ((InventoryBounds.not_overBound_iff _ _).mp h.bounded)
  · intro n hn
    rw [quorumCount_withdrawRank] at hn
    cases hn

private theorem replaceRank (h : c.SharedInv) {q : Nat} (hq : q ∈ c.expectedRanks)
    (entries : Image) :
    (c.replaceRank q entries).SharedInv := by
  obtain ⟨hi, hb⟩ := replaceRank_spec h.toIndexInv hq entries
  refine ⟨hi, ?_, ?_⟩
  · rw [(movesTo_replaceRank c q entries).bounds]
    exact hb
  · intro n hn
    rw [quorumCount_replaceRank] at hn
    cases hn

private theorem dropPending (h : c.SharedInv) (q : Nat) : (c.dropPending q).SharedInv :=
  h.congr rfl rfl rfl rfl rfl rfl

private theorem desynchronize (h : c.SharedInv) (q : Nat) : (c.desynchronize q).SharedInv :=
  (h.withdrawRank q).congr rfl rfl rfl rfl rfl rfl

private theorem rejectPending (h : c.SharedInv) (q : Nat) : (c.rejectPending q).SharedInv :=
  (h.dropPending q).desynchronize q

private theorem markGenerationConflict (h : c.SharedInv) (q : Nat) :
    (c.markGenerationConflict q).SharedInv := by
  unfold QuorumCatalog.markGenerationConflict
  dsimp only
  split
  · exact (h.withdrawRank q).congr rfl rfl rfl rfl rfl rfl
  · have hc : SharedInv { c with generationChangesTotal := c.generationChangesTotal + 1 } :=
      h.congr rfl rfl rfl rfl rfl rfl
    exact (hc.withdrawRank q).congr rfl rfl rfl rfl rfl rfl

private theorem adoptGeneration (h : c.SharedInv) (q : Nat) (identity : Identity) :
    (c.adoptGeneration q identity).SharedInv := by
  have hr : (c.rememberGeneration q identity).SharedInv := by
    unfold rememberGeneration
    split
    · exact h
    · split
      · exact h
      · exact h.congr rfl rfl rfl rfl rfl rfl
  exact (hr.withdrawRank q).congr rfl rfl rfl rfl rfl rfl

private theorem advance (h : c.SharedInv) {q : Nat} (hq : q ∈ c.expectedRanks) (sequence : Nat)
    (image : Image) :
    SharedInv ({ c with sequences := Function.update c.sequences q sequence }.replaceRank
      q image) := by
  have hs : SharedInv { c with sequences := Function.update c.sequences q sequence } :=
    h.congr rfl rfl rfl rfl rfl rfl
  exact hs.replaceRank hq image

private theorem applyDelta (h : c.SharedInv) {q : Nat} (hq : q ∈ c.expectedRanks)
    (delta : Option InventoryDelta) : (c.applyDelta q delta).SharedInv := by
  unfold QuorumCatalog.applyDelta
  split
  · exact h
  · split
    · exact h
    · dsimp only
      split
      · exact h.advance hq _ _
      · split
        · exact h.desynchronize q
        · exact h

private theorem completeCheckpoint (h : c.SharedInv) {q : Nat} (hq : q ∈ c.expectedRanks)
    (p : PendingCheckpoint) : (c.completeCheckpoint q p).SharedInv := by
  unfold QuorumCatalog.completeCheckpoint
  apply dropPending
  split
  · exact h
  · split
    · exact h.desynchronize q
    · exact h.advance hq _ _

private theorem storeCheckpoint (h : c.SharedInv) {q : Nat} (hq : q ∈ c.expectedRanks)
    (cp : InventoryCheckpoint) (p : PendingCheckpoint) :
    (c.storeCheckpoint q cp p).SharedInv := by
  unfold QuorumCatalog.storeCheckpoint
  split
  · exact h.rejectPending q
  · dsimp only
    split
    · exact h.rejectPending q
    · have hp : SharedInv { c with pending := Function.update c.pending q (some (storePage p cp)) } :=
        h.congr rfl rfl rfl rfl rfl rfl
      split
      · exact hp.completeCheckpoint hq _
      · exact hp

private theorem applyCheckpoint (h : c.SharedInv) {q : Nat} (hq : q ∈ c.expectedRanks)
    (cp : InventoryCheckpoint) : (c.applyCheckpoint q cp).SharedInv := by
  have hc : (c.checkSequence q cp).SharedInv := by
    unfold checkSequence
    split
    · exact h.desynchronize q
    · exact h
  refine hc.storeCheckpoint ?_ cp _
  rw [(movesTo_checkSequence c q cp).expectedRanks]
  exact hq

private theorem applyBody (h : c.SharedInv) {q : Nat} (hq : q ∈ c.expectedRanks)
    (report : RawReport) :
    (c.applyBody q report).SharedInv := by
  unfold QuorumCatalog.applyBody
  cases validateInventoryReport c.bounds report with
  | error e => exact h.rejectPending q
  | ok valid =>
    refine (h.applyDelta hq valid.delta).applyCheckpoint ?_ valid.checkpoint
    rw [(movesTo_applyDelta c q valid.delta).expectedRanks]
    exact hq

private theorem installStartup (h : c.SharedInv) {q : Nat} (hq : q ∈ c.expectedRanks)
    (entries : EntryStream) : (c.installStartup q entries).1.SharedInv := by
  unfold QuorumCatalog.installStartup
  cases startupEntries c.bounds entries with
  | error e => exact h
  | ok image => exact h.replaceRank hq image

/-- An entry with quorum is indexed. -/
theorem mem_keys_of_hasQuorum (h : c.SharedInv) {e : Digest} {s : Option Nat}
    (hq : c.hasQuorum e s = true) : e ∈ c.entryRanks.keys := by
  apply (mem_keys_entryRanks h.toIndexShape e).mpr
  intro hz
  unfold hasQuorum at hq
  rw [holders] at hz
  simp [hz] at hq

private theorem touch (h : c.SharedInv) {e : Digest} (he : e ∈ c.entryRanks.keys) :
    (c.touch e).SharedInv := by
  refine ⟨⟨⟨h.nonempty, ?_⟩, h.index, h.expected⟩, h.bounded, h.cached⟩
  intro k
  change k ∈ ((c.recency.erase e).set e ()).keys ↔ k ∈ c.entryRanks.keys
  rw [OrderedDict.mem_keys_set, OrderedDict.mem_keys_erase, h.recency]
  by_cases hk : k = e
  · subst hk
    simp [he]
  · simp [hk]

/-- Every call keeps the shared clauses, also when it raises. -/
theorem call (h : c.SharedInv) (m : Call) : (c.call m).SharedInv := by
  cases m with
  | startup rank generation epoch entries =>
    simp only [QuorumCatalog.call, applyStartup]
    cases hr : expectedRank? c.expectedRanks rank with
    | none => exact h
    | some q =>
      have hq := mem_of_expectedRank? hr
      dsimp only
      cases validateGenerationIdentity generation epoch with
      | error e => exact h.markGenerationConflict q
      | ok identity =>
        have hi := (h.adoptGeneration q identity).installStartup
          ((movesTo_adoptGeneration c q identity).expectedRanks ▸ hq) entries
        dsimp only
        cases c.generationDisposition q identity with
        | stale => exact h
        | conflict => exact h.markGenerationConflict q
        | current => exact h
        | initial => exact hi
        | newer => exact hi
  | report report =>
    simp only [QuorumCatalog.call, applyReport]
    cases hr : expectedRank? c.expectedRanks report.rank with
    | none => exact h
    | some q =>
      have hq := mem_of_expectedRank? hr
      dsimp only
      cases validateGenerationIdentity report.generation report.generationEpoch with
      | error e => exact h.markGenerationConflict q
      | ok identity =>
        have hi := (h.adoptGeneration q identity).applyBody
          ((movesTo_adoptGeneration c q identity).expectedRanks ▸ hq) report
        dsimp only
        cases c.generationDisposition q identity with
        | stale => exact h
        | conflict => exact h.markGenerationConflict q
        | initial => exact hi
        | newer => exact hi
        | current => exact h.applyBody hq report
  | longest candidates =>
    simp only [QuorumCatalog.call, longest]
    cases hf : (candidates.insertionSort candidateGe).find? fun p ↦ c.hasQuorum p.2 (some p.1) with
    | none => exact h
    | some p =>
      have hp : c.hasQuorum p.2 (some p.1) = true := by simpa using List.find?_some hf
      exact h.touch (h.mem_keys_of_hasQuorum hp)
  | readQuorumCount =>
    simp only [QuorumCatalog.call, readQuorumCount]
    cases hc : c.quorumCount with
    | some n => exact h
    | none =>
      refine ⟨⟨⟨h.nonempty, h.recency⟩, h.index, h.expected⟩, h.bounded, ?_⟩
      intro n hn
      cases hn
      rfl

end SharedInv

end SpoolCache.Quorum.QuorumCatalog

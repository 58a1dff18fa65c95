import SpoolCache.Connector.Honesty
import SpoolCache.Store.Recency

/-!
# Rounds of evictions

`maintain_capacity_batch`, `token_files.py:738–783`, called with the number that it returned until
that is zero, as `_prepare_worker_catalog` and `_maintain_capacity` call it. The quota of a round is
fixed by its first batch; every batch scans again and evicts the four oldest files at most. Together
the batches evict the oldest fifth of the files, but for the busy ones.
-/

namespace SpoolCache.Connector

open SpoolCache.Base SpoolCache.Store

/-- Batches until one leaves no candidates, with their reports. -/
inductive CapacityRound (hooked : Bool) (triggerBytes : Nat) :
    RankState → Nat → List CapacityBatchReport → RankState → Prop
  | last {s : RankState} {remaining : Nat}
      (h : (maintainCapacityBatch hooked s triggerBytes remaining).2.candidatesRemaining = 0) :
      CapacityRound hooked triggerBytes s remaining
        [(maintainCapacityBatch hooked s triggerBytes remaining).2]
        (maintainCapacityBatch hooked s triggerBytes remaining).1
  | next {s s' : RankState} {remaining : Nat} {reports : List CapacityBatchReport}
      (h : (maintainCapacityBatch hooked s triggerBytes remaining).2.candidatesRemaining ≠ 0)
      (hrest : CapacityRound hooked triggerBytes
        (maintainCapacityBatch hooked s triggerBytes remaining).1
        (maintainCapacityBatch hooked s triggerBytes remaining).2.candidatesRemaining reports s') :
      CapacityRound hooked triggerBytes s remaining
        ((maintainCapacityBatch hooked s triggerBytes remaining).2 :: reports) s'

/-- The first files that are not busy, in the order of their times and keys. -/
def oldestFree (s : RankState) (n : Nat) : List Digest := ((freeFiles s).take n).map Prod.fst

/-- Exactly these files are gone; all others, and the pins, are as they were. -/
structure Evicted (s s' : RankState) (keys : List Digest) : Prop where
  pins : s'.pins = s.pins
  files : ∀ key, s'.files.get? key = if key ∈ keys then none else s.files.get? key

private theorem Evicted.trans {s s1 s2 : RankState} {keys keys' : List Digest}
    (h : Evicted s s1 keys) (h' : Evicted s1 s2 keys') : Evicted s s2 (keys ++ keys') := by
  refine ⟨h'.pins.trans h.pins, ?_⟩
  intro key
  rw [h'.files, h.files]
  by_cases hk : key ∈ keys <;> by_cases hk' : key ∈ keys' <;> simp [hk, hk']

private theorem busy_of_mem_oldestFree {s : RankState} {n : Nat} :
    ∀ key ∈ oldestFree s n, busy s key = false := by
  intro key hk
  obtain ⟨⟨k, file⟩, hm, rfl⟩ := List.mem_map.mp hk
  exact (mem_freeFiles.mp (List.mem_of_mem_take hm)).2

private theorem evicted_evictAll (hooked : Bool) (s : RankState) (n : Nat) :
    Evicted s (evictAll hooked s (oldestFree s n)).1 (oldestFree s n) :=
  ⟨(files_evictAll hooked busy_of_mem_oldestFree (.ofNat 0)).1,
    fun key ↦ (files_evictAll hooked busy_of_mem_oldestFree key).2⟩

/-! ### The files that remain -/

private theorem nodup_freeFiles (s : RankState) : ((freeFiles s).map Prod.fst).Nodup := by
  have hperm : (freeFiles s).Perm (s.files.items.filter fun p ↦ !busy s p.1) :=
    List.perm_insertionSort _ _
  rw [(hperm.map Prod.fst).nodup_iff]
  exact s.files.nodup_keys.sublist (List.filter_sublist.map _)

private theorem pairwise_freeFiles (s : RankState) : (freeFiles s).Pairwise OlderFile :=
  List.pairwise_insertionSort OlderFile _

/-- Evicting the oldest files leaves the others in their order. -/
theorem freeFiles_of_evicted {s s' : RankState} {n : Nat} (h : Evicted s s' (oldestFree s n)) :
    freeFiles s' = (freeFiles s).drop n := by
  have hbusy : ∀ key, busy s' key = busy s key := by
    intro key
    unfold busy
    rw [h.pins]
  have hnodup := nodup_freeFiles s
  rw [← List.take_append_drop n (freeFiles s), List.map_append, List.nodup_append] at hnodup
  have hmem : ∀ p, p ∈ freeFiles s' ↔ p ∈ (freeFiles s).drop n := by
    rintro ⟨key, file⟩
    rw [mem_freeFiles, hbusy, h.files]
    by_cases hk : key ∈ oldestFree s n
    · rw [if_pos hk]
      constructor
      · rintro ⟨hnone, -⟩
        cases hnone
      · intro hm
        exact absurd rfl (hnodup.2.2 key hk key (List.mem_map.mpr ⟨_, hm, rfl⟩))
    · rw [if_neg hk, ← mem_freeFiles]
      constructor
      · intro hm
        rw [← List.take_append_drop n (freeFiles s), List.mem_append] at hm
        exact hm.resolve_left fun ht ↦ hk (List.mem_map.mpr ⟨_, ht, rfl⟩)
      · exact List.mem_of_mem_drop
  have hperm : (freeFiles s').Perm ((freeFiles s).drop n) :=
    (List.perm_ext_iff_of_nodup (List.Nodup.of_map _ (nodup_freeFiles s'))
      (List.Nodup.of_map _ hnodup.2.1)).mpr hmem
  refine hperm.eq_of_pairwise ?_ (pairwise_freeFiles s') ((pairwise_freeFiles s).drop)
  rintro ⟨k, file⟩ ⟨k', file'⟩ hp hq hle hge
  have hkey : k = k' := by
    rcases hle with hlt | ⟨he, hk⟩ <;> rcases hge with hlt' | ⟨he', hk'⟩
    · exact absurd hlt (lt_asymm hlt')
    · exact absurd he'.symm (ne_of_lt hlt)
    · exact absurd he.symm (ne_of_lt hlt')
    · exact le_antisymm hk hk'
  subst hkey
  have hfile := (mem_freeFiles.mp (List.mem_of_mem_drop hq)).1
  have hfile' := (mem_freeFiles.mp (List.mem_of_mem_drop ((hmem _).mp hp))).1
  rw [hfile] at hfile'
  cases hfile'
  rfl

/-! ### One batch -/

private theorem removed_evictAll (hooked : Bool) {keys : List Digest} {s : RankState}
    (hn : keys.Nodup) (h : ∀ key ∈ keys, busy s key = false ∧ key ∈ s.files.keys) :
    (evictAll hooked s keys).2 = keys.length := by
  induction keys generalizing s with
  | nil => rfl
  | cons key keys ih =>
    obtain ⟨hnot, hn⟩ := List.nodup_cons.mp hn
    obtain ⟨hbusy, hkey⟩ := h key List.mem_cons_self
    have hone := fun a ↦ busy_evict hooked s key a
    have hrest : ∀ a ∈ keys, busy (evict hooked s key).1 a = false ∧
        a ∈ (evict hooked s key).1.files.keys := by
      intro a ha
      obtain ⟨hb, hk⟩ := h a (List.mem_cons_of_mem _ ha)
      constructor
      · unfold busy
        rw [(hone a).1]
        exact hb
      · have hne : a ≠ key := fun he ↦ hnot (he ▸ ha)
        rw [OrderedDict.mem_keys_iff, (hone a).2, if_neg fun he ↦ hne he.1,
          ← OrderedDict.mem_keys_iff]
        exact hk
    have hremoved : (evict hooked s key).2 = true := by
      unfold evict
      rw [hbusy, if_neg (by decide), if_neg (not_not.mpr hkey)]
    change (evictAll hooked (evict hooked s key).1 keys).2 +
      (if (evict hooked s key).2 = true then 1 else 0) = _
    rw [ih hn hrest, hremoved, if_pos rfl, List.length_cons]

/-- A batch that does not stop at the trigger. -/
theorem maintainCapacityBatch_spec (hooked : Bool) {s : RankState} {triggerBytes remaining : Nat}
    (h : remaining ≠ 0 ∨ triggerBytes ≤ diskUsageBytes s) :
    let batch := maintainCapacityBatch hooked s triggerBytes remaining
    let quota := capacityQuota s remaining
    Evicted s batch.1 (oldestFree s (min quota 4)) ∧
      batch.2.candidatesAttempted = min (min quota 4) (freeFiles s).length ∧
      batch.2.objectsRemoved = batch.2.candidatesAttempted ∧
      batch.2.candidatesRemaining =
        if min 4 quota ≤ (freeFiles s).length then quota - 4 else 0 := by
  intro batch quota
  have hchosen : (evictionCandidates s).take quota = oldestFree s (min quota 4) := by
    rw [evictionCandidates_eq, ← List.map_take, List.take_take]
    rfl
  have hlen : (oldestFree s (min quota 4)).length = min (min quota 4) (freeFiles s).length := by
    rw [oldestFree, List.length_map, List.length_take]
  have hselected : (evictionCandidates s).length = min 4 (freeFiles s).length := by
    rw [evictionCandidates_eq, List.length_map, List.length_take]
  have hbatch : batch = ((evictAll hooked s ((evictionCandidates s).take quota)).1,
      ⟨(evictAll hooked s ((evictionCandidates s).take quota)).2,
        ((evictionCandidates s).take quota).length,
        if min 4 quota ≤ (evictionCandidates s).length then
          quota - ((evictionCandidates s).take quota).length else 0⟩) := by
    unfold batch maintainCapacityBatch
    rw [if_neg (by omega)]
    rfl
  rw [hbatch, hchosen, hselected]
  refine ⟨evicted_evictAll hooked s _, hlen, ?_, ?_⟩
  · apply removed_evictAll
    · exact (nodup_freeFiles s).sublist ((List.take_sublist _ _).map _)
    · intro key hk
      refine ⟨busy_of_mem_oldestFree key hk, ?_⟩
      obtain ⟨⟨k, file⟩, hm, rfl⟩ := List.mem_map.mp hk
      exact (OrderedDict.mem_keys_iff _ _).mpr ⟨file, (mem_freeFiles.mp (List.mem_of_mem_take hm)).1⟩
  · dsimp only
    rw [hlen]
    split
    · rw [if_pos (by omega)]
      omega
    · rw [if_neg (by omega)]

/-! ### Rounds -/

private theorem take_append_take_drop {α : Type} (l : List α) (m n : Nat) :
    l.take m ++ (l.drop m).take n = l.take (m + n) := by
  rw [List.take_add]

private theorem length_oldestFree (s : RankState) (n : Nat) :
    (oldestFree s n).length = min n (freeFiles s).length := by
  rw [oldestFree, List.length_map, List.length_take]

/-- The batches of a round evict, four at a time, the oldest files up to the quota. -/
theorem exists_round (hooked : Bool) {triggerBytes quota : Nat} {s : RankState} {remaining : Nat}
    (hquota : capacityQuota s remaining = quota)
    (h : remaining ≠ 0 ∨ triggerBytes ≤ diskUsageBytes s) :
    ∃ reports s', CapacityRound hooked triggerBytes s remaining reports s' ∧
      Evicted s s' (oldestFree s quota) ∧
      (∀ report ∈ reports, report.candidatesAttempted ≤ 4 ∧
        report.objectsRemoved = report.candidatesAttempted) ∧
      (reports.map CapacityBatchReport.objectsRemoved).sum = (oldestFree s quota).length := by
  induction quota using Nat.strong_induction_on generalizing s remaining with
  | _ quota ih =>
    obtain ⟨hevicted, hattempted, hremoved, hremaining⟩ := maintainCapacityBatch_spec hooked h
    rw [hquota] at hevicted hattempted hremaining
    by_cases hzero : (maintainCapacityBatch hooked s triggerBytes remaining).2.candidatesRemaining = 0
    · -- the quota is used up, or no file is left that is not busy
      have hall : oldestFree s (min quota 4) = oldestFree s quota := by
        by_cases hle : quota ≤ 4
        · rw [Nat.min_eq_left hle]
        · have hshort : (freeFiles s).length ≤ 4 := by
            rw [hremaining] at hzero
            split at hzero <;> omega
          unfold oldestFree
          rw [List.take_of_length_le (by omega), List.take_of_length_le (by omega)]
      refine ⟨_, _, .last hzero, hall ▸ hevicted, ?_, ?_⟩
      · intro report hreport
        rw [List.mem_singleton] at hreport
        rw [hreport]
        exact ⟨by omega, hremoved⟩
      · rw [List.map_singleton, List.sum_singleton, hremoved, hattempted, ← hall,
          length_oldestFree]
    · have hquota' : quota - 4 =
          (maintainCapacityBatch hooked s triggerBytes remaining).2.candidatesRemaining := by
        rw [hremaining] at hzero ⊢
        split
        · rfl
        · next hshort => simp [hshort] at hzero
      have hmin : min quota 4 = 4 := by omega
      rw [hmin] at hevicted hattempted
      have hnext := ih (quota - 4) (by omega) (s := (maintainCapacityBatch hooked s triggerBytes
        remaining).1) (by rw [capacityQuota, if_neg hzero, hquota']) (.inl hzero)
      obtain ⟨reports, s', hround, hevicted', hreports, hsum⟩ := hnext
      have hsplit : oldestFree s 4 ++ oldestFree (maintainCapacityBatch hooked s triggerBytes
          remaining).1 (quota - 4) = oldestFree s quota := by
        unfold oldestFree
        rw [freeFiles_of_evicted hevicted, ← List.map_append, take_append_take_drop]
        congr 2
        omega
      refine ⟨_, s', .next hzero hround, hsplit ▸ hevicted.trans hevicted', ?_, ?_⟩
      · rw [List.forall_mem_cons]
        exact ⟨⟨by omega, hremoved⟩, hreports⟩
      · rw [List.map_cons, List.sum_cons, hsum, hremoved, hattempted, ← hsplit,
          List.length_append, length_oldestFree s]

private theorem CapacityRound.unique {hooked : Bool} {triggerBytes : Nat} {s s1 s2 : RankState}
    {remaining : Nat} {reports1 reports2 : List CapacityBatchReport}
    (h1 : CapacityRound hooked triggerBytes s remaining reports1 s1)
    (h2 : CapacityRound hooked triggerBytes s remaining reports2 s2) :
    reports1 = reports2 ∧ s1 = s2 := by
  induction h1 generalizing reports2 s2 with
  | last h =>
    cases h2 with
    | last => exact ⟨rfl, rfl⟩
    | next h' => exact absurd h h'
  | next h _ ih =>
    cases h2 with
    | last h' => exact absurd h' h
    | next _ hrest =>
      obtain ⟨hreports, hstate⟩ := ih hrest
      exact ⟨by rw [hreports], hstate⟩

/-- The loop of the startup runs one round. -/
theorem capacityRounds_of_round {config : WorkerConfig} {s s' : RankState} {remaining : Nat}
    {reports : List CapacityBatchReport}
    (h : CapacityRound false config.triggerBytes s remaining reports s') (more : Nat) :
    capacityRounds config (reports.length + more) s remaining = s' := by
  generalize hhooked : false = hooked at h
  induction h with
  | last hzero =>
    subst hhooked
    rw [List.length_singleton, Nat.add_comm, capacityRounds]
    dsimp only
    rw [if_pos hzero]
  | next hne _ ih =>
    subst hhooked
    rw [List.length_cons, Nat.succ_add, capacityRounds]
    dsimp only
    rw [if_neg hne]
    exact ih

private theorem prepareWorkerCatalog_of_round {config : WorkerConfig} {s s' : RankState}
    {reports : List CapacityBatchReport} (bounds : InventoryBounds)
    (h : CapacityRound false config.triggerBytes s 0 reports s') :
    (prepareWorkerCatalog config s bounds).1 = s' := by
  have hfuel : capacityQuota s 0 ≤ s.files.size + 2 := by
    rw [capacityQuota, if_pos rfl]
    omega
  have hmore : capacityRounds config (s.files.size + 2 + reports.length) s 0 =
      capacityRounds config (s.files.size + 2) s 0 := capacityRounds_fuel hfuel reports.length
  have hround := capacityRounds_of_round h (s.files.size + 2)
  rw [Nat.add_comm, hmore] at hround
  exact hround

/-- At or above the trigger one round of batches ends and evicts exactly the oldest fifth of the
files, one at least, as far as they are not busy; the round of the startup is this one. -/
theorem capacity_round_evicts_oldest (hooked : Bool) (s : RankState) (triggerBytes : Nat)
    (h : triggerBytes ≤ diskUsageBytes s) :
    let quota := max 1 (s.files.size / 5)
    ∃ reports s', CapacityRound hooked triggerBytes s 0 reports s' ∧
      (∀ reports' s'', CapacityRound hooked triggerBytes s 0 reports' s'' →
        reports' = reports ∧ s'' = s') ∧
      (∀ report ∈ reports, report.objectsRemoved ≤ 4) ∧
      (reports.map CapacityBatchReport.objectsRemoved).sum = min quota (freeFiles s).length ∧
      Evicted s s' (oldestFree s quota) ∧
      ∀ (config : WorkerConfig) (bounds : InventoryBounds), config.triggerBytes = triggerBytes →
        hooked = false → (prepareWorkerCatalog config s bounds).1 = s' := by
  intro quota
  have hquota : capacityQuota s 0 = quota := by rw [capacityQuota, if_pos rfl]
  obtain ⟨reports, s', hround, hevicted, hreports, hsum⟩ := exists_round hooked hquota (.inr h)
  refine ⟨reports, s', hround, ?_, ?_, ?_, hevicted, ?_⟩
  · exact fun reports' s'' h' ↦ h'.unique hround
  · intro report hm
    obtain ⟨hle, heq⟩ := hreports report hm
    omega
  · rw [hsum, length_oldestFree]
  · intro config bounds htrigger hhooked
    subst htrigger hhooked
    exact prepareWorkerCatalog_of_round bounds hround

/-- Two of three files are busy: a round evicts the third. -/
theorem capacity_round_evicts_oldest_pinned :
    ∃ reports s', CapacityRound true 1 recencyView.1 0 reports s' ∧
      (reports.map CapacityBatchReport.objectsRemoved).sum = 1 ∧
      Evicted recencyView.1 s' [recencyKey 3] := by
  have husage : 1 ≤ diskUsageBytes recencyView.1 := by decide +kernel
  obtain ⟨reports, s', hround, -, -, hsum, hevicted, -⟩ :=
    capacity_round_evicts_oldest true recencyView.1 1 husage
  have hcount : min (max 1 (recencyView.1.files.size / 5)) (freeFiles recencyView.1).length = 1 := by
    decide +kernel
  have holdest : oldestFree recencyView.1 (max 1 (recencyView.1.files.size / 5)) =
      [recencyKey 3] := by decide +kernel
  rw [hcount] at hsum
  rw [holdest] at hevicted
  exact ⟨reports, s', hround, hsum, hevicted⟩

end SpoolCache.Connector

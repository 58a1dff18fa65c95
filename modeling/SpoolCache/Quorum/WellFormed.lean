import SpoolCache.Base.Except
import SpoolCache.Quorum.Emission

/-!
# Reports are well formed

`InventoryReporter`, `quorum.py:108–250`, against `validate_inventory_report`,
`quorum.py:664–750`. The deltas a reporter retains were cut to its batch size, and its observed
image was part of the held one, so every report passes the checks of the scheduler.
-/

namespace SpoolCache.Quorum.InventoryReporter

open SpoolCache.Base
open QuorumCatalog (updatedImage pushBounded)

/-! ### Deltas that fit -/

/-- A delta with at most so many keys, all different. -/
structure DeltaFits (batch : Nat) (d : InventoryDelta) : Prop where
  next : d.sequence = d.baseSequence + 1
  length_le : d.added.length + d.removed.length ≤ batch
  nodup_added : (d.added.map Prod.fst).Nodup
  nodup_removed : d.removed.Nodup
  disjoint : ∀ k ∈ d.added.map Prod.fst, k ∉ d.removed

private theorem mem_observed_of_mem_removedKeys {r : InventoryReporter} {k : Digest}
    (h : k ∈ r.removedKeys) : k ∈ r.observed.keys := by
  unfold removedKeys at h
  rw [(List.perm_insertionSort _ _).mem_iff] at h
  obtain ⟨e, he, rfl⟩ := List.mem_map.mp h
  exact List.mem_map_of_mem (List.mem_filter.mp he).1

/-- Only entries not yet told are added. -/
theorem not_mem_observed_of_mem_addedEntries {r : InventoryReporter} {limit : Nat} {e : Entry}
    (h : e ∈ r.addedEntries limit) : e.1 ∉ r.observed.keys := by
  have hm := List.mem_of_mem_take h
  rw [(List.perm_insertionSort _ _).mem_iff] at hm
  exact of_decide_eq_true (List.mem_filter.mp hm).2

private theorem nodup_removedKeys (r : InventoryReporter) : r.removedKeys.Nodup := by
  unfold removedKeys
  rw [(List.perm_insertionSort _ _).nodup_iff]
  exact r.observed.nodup_keys.sublist (List.Sublist.map _ (List.filter_sublist))

/-- No entry is added twice. -/
theorem nodup_addedEntries (r : InventoryReporter) (limit : Nat) :
    ((r.addedEntries limit).map Prod.fst).Nodup := by
  have hsorted : ((r.held.items.filter fun e ↦ decide (e.1 ∉ r.observed.keys)).insertionSort
      fun p q ↦ p.1 ≤ q.1).map Prod.fst |>.Nodup := by
    rw [((List.perm_insertionSort _ _).map _).nodup_iff]
    exact r.held.nodup_keys.sublist (List.Sublist.map _ (List.filter_sublist))
  unfold addedEntries
  exact hsorted.sublist ((List.take_sublist _ _).map _)

private theorem deltaFits_deltaOf {r : InventoryReporter} {batch : Nat}
    (h : r.removedKeys.length ≤ batch) : DeltaFits batch (r.deltaOf batch) := by
  refine ⟨rfl, ?_, nodup_addedEntries r _, nodup_removedKeys r, fun k hk hremoved ↦ ?_⟩
  · have hadded : (r.addedEntries (batch - r.removedKeys.length)).length ≤
        batch - r.removedKeys.length := List.length_take_le _ _
    change (r.addedEntries (batch - r.removedKeys.length)).length + r.removedKeys.length ≤ batch
    omega
  · obtain ⟨e, he, rfl⟩ := List.mem_map.mp hk
    exact not_mem_observed_of_mem_addedEntries he (mem_observed_of_mem_removedKeys hremoved)

private theorem deltaFits_gapDelta (r : InventoryReporter) (batch : Nat) :
    DeltaFits batch r.gapDelta :=
  ⟨rfl, Nat.zero_le _, List.nodup_nil, List.nodup_nil, fun _ h ↦ (by cases h)⟩

/-! ### The invariant -/

/-- The told image fits the bound, and the retained deltas fit a report. -/
structure Fits (batch : Nat) (r : InventoryReporter) : Prop where
  observed : r.observed.size ≤ r.config.bounds.inventoryCapacity
  deltas : ∀ d ∈ r.history, DeltaFits batch d ∧ d.sequence ≤ r.sequence

private theorem Fits.mutate {batch : Nat} {r : InventoryReporter} (h : Fits batch r)
    (hc : Consistent batch r) (m : Mutation) : Fits batch (r.mutate m) := by
  obtain ⟨-, hconfig, hsequence, hobserved, hhistory⟩ := consistent_mutate hc m
  refine ⟨?_, fun d hd ↦ ?_⟩
  · rw [hobserved, hconfig]
    exact h.observed
  · rw [hsequence]
    exact h.deltas d (hhistory ▸ hd)

private theorem Fits.observe {batch : Nat} {r : InventoryReporter} (h : Fits batch r)
    (hc : Consistent batch r) : Fits batch (r.observe batch) := by
  obtain ⟨hcons, hconfig, hsub⟩ := observe_spec hc
  refine ⟨hsub.size_le.trans hcons.bounded, ?_⟩
  rcases observe_cases r batch with ⟨he, -⟩ | he
  · rw [he]
    exact h.deltas
  · rw [he]
    intro d hd
    change d ∈ (r.advance batch).history at hd
    change DeltaFits batch d ∧ d.sequence ≤ (r.advance batch).sequence
    unfold advance at hd ⊢
    split at hd
    · next hle =>
      rw [if_pos hle]
      rcases mem_pushBounded hd with hold | rfl
      · exact ⟨(h.deltas d hold).1, (h.deltas d hold).2.trans (Nat.le_succ _)⟩
      · exact ⟨deltaFits_deltaOf hle, le_refl _⟩
    · next hlt =>
      rw [List.mem_singleton] at hd
      rw [hd, if_neg hlt]
      exact ⟨deltaFits_gapDelta r batch, le_refl _⟩

/-- The state of a reporter at any point of a run. -/
structure RunState (config : ReporterConfig) (batch : Nat) (r : InventoryReporter) : Prop where
  config_eq : r.config = config
  consistent : Consistent batch r
  fits : Fits batch r

private theorem RunState.report {config : ReporterConfig} {batchSize : PyInt}
    {r r' : InventoryReporter}
    {report : WorkerInventoryReport} (h : RunState config (batchOf batchSize) r)
    (hr : r.nextReport batchSize = .ok (report, r')) :
    RunState config (batchOf batchSize) r' := by
  obtain ⟨-, rfl, -⟩ := nextReport_ok hr
  obtain ⟨hcons, hconfig, -⟩ := observe_spec h.consistent
  have hfits := h.fits.observe h.consistent
  exact ⟨hconfig.trans h.config_eq, consistent_advanceCursors hcons, ⟨hfits.observed, hfits.deltas⟩⟩

private theorem RunState.step {config : ReporterConfig} {batchSize : PyInt} {r : InventoryReporter}
    (h : RunState config (batchOf batchSize) r) (op : Op) :
    RunState config (batchOf batchSize) (r.step batchSize op).1 := by
  cases op with
  | mutate m =>
    obtain ⟨hcons, hconfig, -⟩ := consistent_mutate h.consistent m
    exact ⟨hconfig.trans h.config_eq, hcons, h.fits.mutate h.consistent m⟩
  | report =>
    simp only [InventoryReporter.step]
    cases hr : r.nextReport batchSize with
    | error e => exact h
    | ok p => exact h.report hr

/-- A started reporter is in a state of a run. -/
theorem runState_started (config : ReporterConfig) (batch : Nat) (mutations : List Mutation) :
    RunState config batch (started config mutations) := by
  have hrun := runInv_started config batch mutations
  obtain ⟨hcons, hconfig, -, hhistory, -⟩ := consistent_mutations batch config mutations
  refine ⟨hrun.config_eq, hrun.consistent, hcons.bounded, fun d hd ↦ ?_⟩
  change d ∈ (mutations.foldl InventoryReporter.mutate (create config)).history at hd
  rw [hhistory] at hd
  cases hd

/-- Operations lead from one state of a run to another. -/
theorem RunState.run {config : ReporterConfig} {batchSize : PyInt} {r : InventoryReporter}
    (h : RunState config (batchOf batchSize) r) (ops : List Op) :
    RunState config (batchOf batchSize) (runOps batchSize r ops) := by
  induction ops generalizing r with
  | nil => exact h
  | cons op ops ih => exact ih (h.step op)

/-! ### Reports pass validation -/

private theorem validateCheckpoint_of_bounds {bounds : InventoryBounds} {cp : InventoryCheckpoint}
    (hsequence : cp.sequence ≤ maxCounter) (hcycle : cp.cycle ≤ maxCounter)
    (hindex : cp.index < cp.count) (hcount : cp.count ≤ max 1 cp.heldCount)
    (hheld : cp.heldCount ≤ bounds.inventoryCapacity)
    (hreport : cp.entries.length ≤ bounds.maxReportEntries)
    (hentries : cp.entries.length ≤ cp.heldCount) :
    validateCheckpoint bounds (some cp.toRaw) = .ok cp := by
  simp only [validateCheckpoint, InventoryCheckpoint.toRaw]
  rw [if_neg, validateEntries_rawEntry]
  · rfl
  · rw [List.length_map]
    omega

private theorem validateDelta_of_fits {bounds : InventoryBounds} {batch : Nat} {d : InventoryDelta}
    (h : DeltaFits batch d) (hbatch : batch ≤ bounds.maxReportEntries)
    (hsequence : d.sequence ≤ maxCounter) :
    validateDelta bounds (.delta d.toRaw) = .ok (some d) := by
  have hnext := h.next
  simp only [validateDelta, InventoryDelta.toRaw]
  rw [if_neg (by omega), validateEntries_rawEntry, validateEntries_removed, ok_bind, ok_bind]
  have hremoved : (d.removed.map fun k ↦ ((k, ⟨1, by decide⟩) : Entry)).map Prod.fst = d.removed := by
    rw [List.map_map]
    exact List.map_id _
  rw [hremoved, if_neg]
  · rfl
  · rw [List.length_map, not_or, not_or, not_or, not_not, not_not]
    have hlength := h.length_le
    refine ⟨by omega, h.nodup_added, h.nodup_removed, ?_⟩
    rintro ⟨k, hk, hk'⟩
    exact h.disjoint k hk hk'

private theorem validateReportIdentity_of_config (config : ReporterConfig)
    (checkpoint : Option RawCheckpoint) (delta : RawDeltaField) :
    validateReportIdentity ⟨some config.rank, some config.generation,
      some config.generationEpoch, checkpoint, delta⟩ =
      .ok (config.rank, config.generation, config.generationEpoch) := by
  have hrank := config.rank_lt
  have hepoch := config.epoch_le
  unfold validateReportIdentity validateGenerationIdentity
  dsimp only
  rw [if_pos ⟨config.generation_ne, config.generation_le, by omega, by omega⟩]
  dsimp only
  rw [if_pos ⟨by omega, by omega⟩]
  simp

/-- A report of this configuration passes when its parts do. -/
theorem validateInventoryReport_of_parts (config : ReporterConfig) {report : WorkerInventoryReport}
    (hrank : report.rank = config.rank) (hgeneration : report.generation = config.generation)
    (hepoch : report.generationEpoch = config.generationEpoch)
    (hcheckpoint : validateCheckpoint config.bounds (some report.checkpoint.toRaw) =
      .ok report.checkpoint)
    (hdelta : ∀ d, report.delta = some d →
      validateDelta config.bounds (.delta d.toRaw) = .ok (some d)) :
    validateInventoryReport config.bounds report.toRaw = .ok report := by
  obtain ⟨rank, generation, epoch, checkpoint, delta⟩ := report
  cases hrank
  cases hgeneration
  cases hepoch
  unfold validateInventoryReport WorkerInventoryReport.toRaw
  dsimp only at hcheckpoint hdelta ⊢
  rw [validateReportIdentity_of_config, ok_bind]
  dsimp only
  rw [hcheckpoint, ok_bind]
  cases delta with
  | none => rfl
  | some d =>
    dsimp only
    rw [hdelta d rfl]
    rfl

private theorem batch_le_of_nextReport {r r' : InventoryReporter} {batchSize : PyInt}
    {report : WorkerInventoryReport} (h : r.nextReport batchSize = .ok (report, r')) :
    batchOf batchSize ≤ r.config.bounds.maxReportEntries := by
  unfold nextReport at h
  cases batchSize with
  | none => cases h
  | some n =>
    dsimp only at h
    split at h
    · cases h
    · change n.toNat ≤ _
      omega

/-- A report of a well-formed reporter passes validation as long as its counters are in range. -/
theorem validate_nextReport {config : ReporterConfig} {batchSize : PyInt}
    {r r' : InventoryReporter} {report : WorkerInventoryReport}
    (h : RunState config (batchOf batchSize) r)
    (hr : r.nextReport batchSize = .ok (report, r'))
    (hsequence : report.checkpoint.sequence ≤ maxCounter)
    (hcycle : report.checkpoint.cycle ≤ maxCounter) :
    validateInventoryReport config.bounds report.toRaw = .ok report := by
  have hle := batch_le_of_nextReport hr
  obtain ⟨hbatch, -, rfl⟩ := nextReport_ok hr
  obtain ⟨hcons, hconfig, -⟩ := observe_spec h.consistent
  have hfits := h.fits.observe h.consistent
  rw [h.config_eq] at hle hconfig
  have hlength : (r.observe (batchOf batchSize)).checkpointItems.length =
      (r.observe (batchOf batchSize)).observed.size := by
    rw [hcons.items, OrderedDict.length_sortedItems]
  have hheld : (r.observe (batchOf batchSize)).checkpointItems.length ≤
      config.bounds.inventoryCapacity := by
    rw [hlength, ← hconfig]
    exact hfits.observed
  have hcheckpoint := validateCheckpoint_of_bounds hsequence hcycle hcons.index
    (pageCount_le _ _ hbatch) hheld ((length_page_le _ _ _).trans hle) (length_page_le_length _ _ _)
  refine validateInventoryReport_of_parts config (by rw [hconfig]) (by rw [hconfig])
    (by rw [hconfig]) hcheckpoint fun d hd ↦ ?_
  obtain ⟨hfit, htold⟩ := hfits.deltas d (List.mem_of_getElem? hd)
  refine validateDelta_of_fits hfit hle (htold.trans ?_)
  rw [← hcons.checkpointSequence]
  exact hsequence

/-! ### The newest delta is carried -/

private theorem getLast_pushBounded {α : Type} {limit : Nat} (hlimit : 0 < limit) (l : List α)
    (a : α) :
    (pushBounded limit l a)[((pushBounded limit l a).length - 1) %
      (pushBounded limit l a).length]? = some a := by
  have hlen : (pushBounded limit l a).length = min limit (l.length + 1) := by
    unfold pushBounded
    dsimp only
    rw [List.length_drop, List.length_append, List.length_singleton]
    omega
  rw [hlen, Nat.mod_eq_of_lt (by omega)]
  unfold pushBounded
  dsimp only
  rw [List.getElem?_drop, List.length_append, List.length_singleton]
  have hindex : l.length + 1 - limit + (min limit (l.length + 1) - 1) = l.length := by omega
  rw [hindex, List.getElem?_concat_length]

/-- A report that advances the sequence number carries the delta of the new number. -/
theorem newest_delta {r r' : InventoryReporter} {batchSize : PyInt}
    {report : WorkerInventoryReport} (h : r.nextReport batchSize = .ok (report, r'))
    (hnew : r'.sequence ≠ r.sequence) :
    ∃ d, report.delta = some d ∧ d.sequence = r'.sequence := by
  obtain ⟨-, rfl, rfl⟩ := nextReport_ok h
  rcases observe_cases r (batchOf batchSize) with ⟨he, -⟩ | he
  · refine absurd ?_ hnew
    change (r.observe (batchOf batchSize)).sequence = r.sequence
    rw [he]
  · have hadvance : ∃ d, (r.advance (batchOf batchSize)).history[
        ((r.advance (batchOf batchSize)).history.length - 1) %
          (r.advance (batchOf batchSize)).history.length]? = some d ∧
        d.sequence = (r.advance (batchOf batchSize)).sequence := by
      unfold advance
      split
      · exact ⟨_, getLast_pushBounded (by decide) _ _, rfl⟩
      · exact ⟨_, rfl, rfl⟩
    obtain ⟨d, hd, hsequence⟩ := hadvance
    refine ⟨d, ?_, ?_⟩
    · change (r.observe (batchOf batchSize)).nextDelta = some d
      rw [he]
      exact hd
    · change d.sequence = (r.observe (batchOf batchSize)).sequence
      rw [he]
      exact hsequence

/-! ### Whole runs -/

private theorem nextReport_returns (r : InventoryReporter) {n : Int} (hpos : 0 < n)
    (hle : n ≤ r.config.bounds.maxReportEntries) :
    ∃ report r', r.nextReport (some n) = .ok (report, r') := by
  unfold nextReport
  dsimp only
  rw [if_neg (by omega)]
  exact ⟨_, _, rfl⟩

private theorem mem_workerEmissions {config : ReporterConfig} {batchSize : PyInt}
    {mutations : List Mutation} {before after : List Op} {r' : InventoryReporter}
    {report : WorkerInventoryReport}
    (h : (runOps batchSize (started config mutations) before).nextReport batchSize =
      .ok (report, r')) :
    ⟨report, r'.held, r'.observed⟩ ∈
      workerEmissions config batchSize mutations (before ++ .report :: after) := by
  unfold workerEmissions
  rw [emissions_append, emissions]
  refine List.mem_append_right _ (List.mem_append_left _ ?_)
  simp only [InventoryReporter.step]
  rw [h]
  exact List.mem_singleton.mpr rfl

/-- At every point of a run the held and the told image fit the bound, and a clean reporter has
told what it holds. A report passes the scheduler's checks while its counters are in range; its
page is the slice of the sorted image its sequence number has in the whole run; when it advances
the number it carries the delta of the new one; and what has been told then is held. -/
theorem reports_well_formed (config : ReporterConfig) (batchSize : PyInt)
    (mutations : List Mutation) (before after : List Op) :
    (mutations.foldl mutate (create config)).held.size ≤ config.bounds.inventoryCapacity ∧
    (runOps batchSize (started config mutations) before).held.size ≤
      config.bounds.inventoryCapacity ∧
    (runOps batchSize (started config mutations) before).observed.size ≤
      config.bounds.inventoryCapacity ∧
    ((runOps batchSize (started config mutations) before).dirty = false →
      OrderedDict.Same (runOps batchSize (started config mutations) before).held
        (runOps batchSize (started config mutations) before).observed) ∧
    (∀ n, batchSize = some n → 0 < n → n ≤ config.bounds.maxReportEntries →
      ∃ report r', (runOps batchSize (started config mutations) before).nextReport batchSize =
        .ok (report, r')) ∧
    ∀ report r', (runOps batchSize (started config mutations) before).nextReport batchSize =
        .ok (report, r') →
      (report.checkpoint.sequence ≤ maxCounter → report.checkpoint.cycle ≤ maxCounter →
        validateInventoryReport config.bounds report.toRaw = .ok report) ∧
      (∃ image, (report.checkpoint.sequence, image) ∈
        workerImages config batchSize mutations (before ++ .report :: after)) ∧
      (∀ image, (report.checkpoint.sequence, image) ∈
          workerImages config batchSize mutations (before ++ .report :: after) →
        report.checkpoint.entries =
          page (batchOf batchSize) report.checkpoint.index image.sortedItems) ∧
      (r'.sequence ≠ (runOps batchSize (started config mutations) before).sequence →
        ∃ d, report.delta = some d ∧ d.sequence = r'.sequence) ∧
      OrderedDict.SubDict r'.observed r'.held := by
  have hstate := (runState_started config (batchOf batchSize) mutations).run before
  have hconfig := hstate.config_eq
  obtain ⟨hbefore, hcreated, -⟩ := consistent_mutations (batchOf batchSize) config mutations
  have hinitial := hbefore.bounded
  have hheld := hstate.consistent.bounded
  have hobserved := hstate.fits.observed
  rw [hcreated] at hinitial
  rw [hconfig] at hheld hobserved
  refine ⟨hinitial, hheld, hobserved, hstate.consistent.clean, ?_, ?_⟩
  · rintro n rfl hpos hle
    exact nextReport_returns _ hpos (by rw [hconfig]; exact hle)
  · intro report r' hreport
    obtain ⟨final, hrun⟩ := runInv_worker config batchSize mutations (before ++ .report :: after)
    have hemission := hrun.emissions _ (mem_workerEmissions hreport)
    refine ⟨fun hsequence hcycle ↦ validate_nextReport hstate hreport hsequence hcycle,
      ⟨r'.observed, hemission.mem⟩, fun image himage ↦ ?_, newest_delta hreport, hemission.held⟩
    rw [workerImages_unique config batchSize mutations _ himage hemission.mem]
    exact hemission.entries

end SpoolCache.Quorum.InventoryReporter

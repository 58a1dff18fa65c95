import SpoolCache.Quorum.Emission
import SpoolCache.Quorum.Generation

/-!
# Reporter and catalog agree

The messages of one worker process may be lost, repeated and reordered. Whatever arrives, a
synchronized rank shows the image the worker observed at the recorded sequence number, up to
entries the size bound evicted; and when messages keep their order, what it shows after a report
was held by the worker when it produced that report.
-/

namespace SpoolCache.Quorum

open SpoolCache.Base
open QuorumCatalog (Call Carried storePage flattenedPages updatedImage startupEntries
  startupEntries_rawEntry)
open InventoryReporter (Mutation Op Emission EmissionOk batchOf startupImage workerImages
  workerEmissions)
open RankView (Tracks Admits Complete Matches freshPending Receives)

/-! ### Messages of a worker process -/

/-- The startup message of a worker process. -/
def startupCall (config : ReporterConfig) (mutations : List Mutation) : Call :=
  .startup (some config.rank) (some config.generation) (some config.generationEpoch)
    ⟨(startupImage config mutations).map rawEntry, none⟩

/-- The message that carries a report. -/
def reportCall (e : Emission) : Call := .report e.report.toRaw

/-- A message of the worker process: its startup image or one of its reports. -/
def WorkerMessage (config : ReporterConfig) (batchSize : PyInt) (mutations : List Mutation)
    (ops : List Op) (m : Call) : Prop :=
  m = startupCall config mutations ∨
    ∃ e ∈ workerEmissions config batchSize mutations ops, m = reportCall e

/-! ### Complete checkpoints -/

/-- Pages with every index below their number are all there. -/
theorem mem_keys_of_complete {p : PendingCheckpoint} (hs : p.pages.size = p.count)
    (hlt : ∀ i ∈ p.pages.keys, i < p.count) {i : Nat} (hi : i < p.count) : i ∈ p.pages.keys := by
  have hsub : p.pages.keys.Subperm (List.range p.count) := by
    apply p.pages.nodup_keys.subperm
    intro j hj
    exact List.mem_range.mpr (hlt j hj)
  have hperm : p.pages.keys.Perm (List.range p.count) := by
    apply hsub.perm_of_length_le
    rw [OrderedDict.length_keys, hs, List.length_range]
  exact hperm.mem_iff.mpr (List.mem_range.mpr hi)

/-- The pages of a complete checkpoint of an image are the image. -/
theorem flattenedPages_eq {p : PendingCheckpoint} {batch : Nat} {m : Image} (hb : 0 < batch)
    (hs : p.pages.size = p.count) (hc : p.count = pageCount batch m.size)
    (hp : ∀ i l, p.pages.get? i = some l → i < p.count ∧ l = page batch i m.sortedItems) :
    flattenedPages p = m.sortedItems := by
  have hlt : ∀ i ∈ p.pages.keys, i < p.count := by
    intro i hi
    obtain ⟨l, hl⟩ := (p.pages.mem_keys_iff i).mp hi
    exact (hp i l hl).1
  have hpages : flattenedPages p =
      (List.range p.count).flatMap fun i ↦ page batch i m.sortedItems := by
    apply List.flatMap_congr
    intro i hi
    obtain ⟨l, hl⟩ := (p.pages.mem_keys_iff i).mp
      (mem_keys_of_complete hs hlt (List.mem_range.mp hi))
    rw [hl, Option.getD_some]
    exact (hp i l hl).2
  rw [hpages, hc, ← m.length_sortedItems]
  exact flatMap_page batch hb m.sortedItems

/-! ### The receiver of a worker process -/

section Receiver

variable (config : ReporterConfig) (batchSize : PyInt) (mutations : List Mutation)
  (ops : List Op)

/-- The image is what the worker observed at the sequence number. -/
def Observed (i : Identity) (n : Nat) (m : Image) : Prop :=
  i = config.identity →
    ∃ img, (n, img) ∈ workerImages config batchSize mutations ops ∧ OrderedDict.Same m img

/-- The pages are pages of the image the worker observed at the checkpoint's sequence. -/
def ObservedPages (i : Identity) (p : PendingCheckpoint) : Prop :=
  i = config.identity →
    0 < batchOf batchSize ∧
      ∃ img, (p.sequence, img) ∈ workerImages config batchSize mutations ops ∧
        p.count = pageCount (batchOf batchSize) img.size ∧
        ∀ index l, p.pages.get? index = some l →
          index < p.count ∧ l = page (batchOf batchSize) index img.sortedItems

private theorem observed_complete (i : Identity) (p : PendingCheckpoint)
    (h : ObservedPages config batchSize mutations ops i p) (hc : Complete p) :
    Observed config batchSize mutations ops i p.sequence
      (OrderedDict.ofItems (flattenedPages p)) := by
  intro hi
  obtain ⟨hb, img, hmem, hcount, hpages⟩ := h hi
  refine ⟨img, hmem, ?_⟩
  rw [flattenedPages_eq hb hc.pages hcount hpages]
  exact img.same_ofItems_sortedItems

private theorem identity?_report {raw : RawReport} {i : Identity}
    (h : validateGenerationIdentity raw.generation raw.generationEpoch = .ok i) :
    (Call.report raw).identity? = some i := by
  simp [Call.identity?, h, Except.toOption]

private theorem identity?_startup {rank : PyInt} {generation : Option String} {epoch : PyInt}
    {entries : EntryStream} {i : Identity}
    (h : validateGenerationIdentity generation epoch = .ok i) :
    (Call.startup rank generation epoch entries).identity? = some i := by
  simp [Call.identity?, h, Except.toOption]

/-- A report message of the worker, as the receiver validates it. -/
theorem emission_of_message {m : Call} {bounds : InventoryBounds} {raw : RawReport}
    {report : WorkerInventoryReport} (hm : m = .report raw)
    (hw : WorkerMessage config batchSize mutations ops m)
    (hv : validateInventoryReport bounds raw = .ok report) :
    ∃ e ∈ workerEmissions config batchSize mutations ops,
      EmissionOk config (batchOf batchSize) (workerImages config batchSize mutations ops) e ∧
      report.checkpoint = e.report.checkpoint ∧ report.delta = e.report.delta := by
  subst hm
  rcases hw with hs | ⟨e, he, hr⟩
  · cases hs
  · cases hr
    obtain ⟨r', hrun⟩ := InventoryReporter.runInv_worker config batchSize mutations ops
    obtain ⟨hc, hd⟩ := validateInventoryReport_toRaw hv
    exact ⟨e, he, hrun.emissions e he, hc, hd⟩

/-- The worker's messages keep the receiver on the worker's images. -/
theorem admits_observed {bounds : InventoryBounds} {m : Call}
    (hm : m.identity? = some config.identity →
      WorkerMessage config batchSize mutations ops m) :
    Admits (Observed config batchSize mutations ops)
      (ObservedPages config batchSize mutations ops) bounds m := by
  refine ⟨?_, ?_⟩
  · rintro rank generation epoch entries i start rfl hi hs rfl
    rcases hm (identity?_startup hi) with hstart | ⟨e, -, hr⟩
    · cases hstart
      obtain ⟨img, hmem, himg⟩ :=
        InventoryReporter.startupImage_mem config batchSize mutations ops
      rw [startupEntries_rawEntry hs, himg]
      exact ⟨img, hmem, img.same_ofItems_sortedItems⟩
    · cases hr
  · intro raw i report hraw hi hv
    have hid : m.identity? = some i := by
      rw [hraw]
      exact identity?_report hi
    refine ⟨?_, ?_⟩
    · rintro d hd image - himage rfl
      obtain ⟨e, -, hok, -, hdelta⟩ :=
        emission_of_message config batchSize mutations ops hraw (hm hid) hv
      obtain ⟨img, hmem, hsame⟩ := himage rfl
      exact ⟨_, (hok.delta d (hdelta ▸ hd)).leads img hmem,
        RankView.updatedImage_same hsame d⟩
    · rintro p hp hmatch hindex - rfl
      obtain ⟨e, -, hok, hcp, -⟩ :=
        emission_of_message config batchSize mutations ops hraw (hm hid) hv
      rw [hcp] at hp hmatch hindex ⊢
      refine ⟨hok.batch_pos, e.observed, ?_, ?_, ?_⟩
      · change (p.sequence, e.observed) ∈ _
        rw [hmatch.sequence]
        exact hok.mem
      · change p.count = _
        rw [hmatch.count, hok.count]
      · intro index l hl
        change (p.pages.set _ _).get? index = some l at hl
        change index < p.count ∧ _
        rw [OrderedDict.get?_set] at hl
        by_cases hx : index = e.report.checkpoint.index
        · rw [if_pos hx, Option.some.injEq] at hl
          rw [hx, ← hl, hmatch.count]
          exact ⟨hindex, hok.entries⟩
        · rw [if_neg hx] at hl
          rcases hp with rfl | hp
          · cases hl
          · obtain ⟨-, img, himg, -, hpages⟩ := hp rfl
            rw [hmatch.sequence] at himg
            have he : img = e.observed :=
              InventoryReporter.workerImages_unique config batchSize mutations ops himg hok.mem
            rw [← he]
            exact hpages index l hl

/-- The identity of a reporter is accepted. -/
theorem validateGenerationIdentity_config :
    validateGenerationIdentity (some config.generation) (some config.generationEpoch) =
      .ok config.identity := by
  have hle := config.epoch_le
  have h : config.generation ≠ "" ∧ config.generation.length ≤ maxGenerationLength ∧
      (0 : Int) ≤ config.generationEpoch ∧ (config.generationEpoch : Int) ≤ maxCounter :=
    ⟨config.generation_ne, config.generation_le, by omega, by omega⟩
  simp only [validateGenerationIdentity, if_pos h, Int.toNat_natCast]
  rfl

/-- Every report of a worker is right, relative to the log of its run. -/
theorem emissionOk_worker {e : Emission}
    (he : e ∈ workerEmissions config batchSize mutations ops) :
    EmissionOk config (batchOf batchSize) (workerImages config batchSize mutations ops) e := by
  obtain ⟨r', hrun⟩ := InventoryReporter.runInv_worker config batchSize mutations ops
  exact hrun.emissions e he

/-- Every report of a worker has the identity of its reporter. -/
theorem validateGenerationIdentity_report {e : Emission}
    (he : e ∈ workerEmissions config batchSize mutations ops) :
    validateGenerationIdentity e.report.toRaw.generation e.report.toRaw.generationEpoch =
      .ok config.identity := by
  have hok := emissionOk_worker config batchSize mutations ops he
  rw [← validateGenerationIdentity_config, ← hok.generation, ← hok.generationEpoch]
  rfl

/-- Worker messages carry the worker's identity. -/
theorem identity?_workerMessage {m : Call}
    (hm : WorkerMessage config batchSize mutations ops m) :
    m.identity? = some config.identity := by
  rcases hm with rfl | ⟨e, he, rfl⟩
  · exact identity?_startup (validateGenerationIdentity_config config)
  · exact identity?_report (validateGenerationIdentity_report config batchSize mutations ops he)

/-- Only the worker's messages: whatever is shown or pending is the worker's. -/
theorem admits_identity {bounds : InventoryBounds} {m : Call}
    (hm : m.identity? = some config.identity) :
    Admits (fun i _ _ ↦ i = config.identity) (fun i _ ↦ i = config.identity) bounds m := by
  refine ⟨?_, ?_⟩
  · rintro rank generation epoch entries i start rfl hi -
    rw [identity?_startup hi, Option.some.injEq] at hm
    exact hm
  · rintro raw i report rfl hi -
    rw [identity?_report hi, Option.some.injEq] at hm
    exact ⟨fun _ _ _ _ _ ↦ hm, fun _ _ _ _ _ ↦ hm⟩

end Receiver

/-! ### Agreement under any delivery -/

section Delivery

variable {config : ReporterConfig} {batchSize : PyInt} {mutations : List Mutation}
  {ops : List Op} {ranks : List PyInt} {bounds : InventoryBounds} {c : QuorumCatalog}

/-- What the receiver of the worker's messages shows and stores. -/
theorem tracks_worker (hc : QuorumCatalog.create ranks bounds = .ok c)
    (hr : config.rank ∈ c.expectedRanks) {calls : List Call}
    (hcalls : ∀ m ∈ calls, m.rank? c.expectedRanks = some config.rank →
      WorkerMessage config batchSize mutations ops m) :
    let v := RankView.receiveAll c.bounds c.expectedRanks config.rank (c.view config.rank) calls
    Tracks (Observed config batchSize mutations ops) (ObservedPages config batchSize mutations ops)
        v ∧
      Tracks (fun i _ _ ↦ i = config.identity) (fun i _ ↦ i = config.identity) v := by
  obtain ⟨n, -, rfl⟩ := QuorumCatalog.expectedRanks_of_create hc
  have hfresh := fun image page ↦
    @QuorumCatalog.tracks_fresh image page bounds (Finset.range n) config.rank hr
  refine ⟨?_, ?_⟩
  · exact (hfresh _ _).receiveAll (observed_complete config batchSize mutations ops)
      fun m hm hmr ↦ admits_observed config batchSize mutations ops fun _ ↦ hcalls m hm hmr
  · exact (hfresh _ _).receiveAll (fun _ _ h _ ↦ h) fun m hm hmr ↦
      admits_identity config
        (identity?_workerMessage config batchSize mutations ops (hcalls m hm hmr))

/-- Image agreement: with the worker's messages in any order, lost or repeated, a synchronized
rank shows the image the worker observed at the recorded sequence, up to evicted entries, and
pending pages are all of one observed image. -/
theorem image_agreement (config : ReporterConfig) (batchSize : PyInt) (mutations : List Mutation)
    (ops : List Op) (ranks : List PyInt) (bounds : InventoryBounds) (c : QuorumCatalog)
    (hc : QuorumCatalog.create ranks bounds = .ok c) (hr : config.rank ∈ c.expectedRanks)
    (calls : List Call)
    (hcalls : ∀ m ∈ calls, m.rank? c.expectedRanks = some config.rank →
      WorkerMessage config batchSize mutations ops m) :
    (config.rank ∉ (c.run calls).desynchronized →
      ∃ img, ((c.run calls).sequences config.rank, img) ∈
          workerImages config batchSize mutations ops ∧
        (∀ img', ((c.run calls).sequences config.rank, img') ∈
          workerImages config batchSize mutations ops → img' = img) ∧
        OrderedDict.SubDict ((c.run calls).rankEntries config.rank) img ∧
        ((c.run calls).boundEvictions = 0 →
          OrderedDict.Same ((c.run calls).rankEntries config.rank) img)) ∧
    ∀ p, (c.run calls).pending config.rank = some p →
      ∃ img, (p.sequence, img) ∈ workerImages config batchSize mutations ops ∧
        ∀ index l, p.pages.get? index = some l →
          l = page (batchOf batchSize) index img.sortedItems := by
  obtain ⟨hobs, hid⟩ := tracks_worker hc hr hcalls
  have hv := QuorumCatalog.view_run c calls config.rank
  generalize RankView.receiveAll c.bounds c.expectedRanks config.rank (c.view config.rank) calls =
    v at hobs hid hv
  refine ⟨?_, ?_⟩
  · intro hs
    have hsync : v.synchronized = true := by
      have h := (QuorumCatalog.synchronized_view _ _).mpr hs
      rw [hv.rest] at h
      exact h
    have hseq : (c.run calls).sequences config.rank = v.sequence := by
      have h : ((c.run calls).view config.rank).sequence = v.sequence := by rw [hv.rest]
      exact h
    obtain ⟨i, hi, himage⟩ := hobs.shown hsync
    obtain ⟨j, hj, hji⟩ := hid.shown hsync
    have hij : i = config.identity := by
      rw [hi, Option.some.injEq] at hj
      rw [hj, hji]
    obtain ⟨img, hmem, hsame⟩ := himage hij
    rw [hseq]
    refine ⟨img, hmem, ?_, ?_, ?_⟩
    · intro img' hmem'
      exact InventoryReporter.workerImages_unique config batchSize mutations ops hmem' hmem
    · exact hv.sub.trans (.of_same hsame)
    · intro hev
      have hz : c.boundEvictions = 0 := by
        obtain ⟨n, -, rfl⟩ := QuorumCatalog.expectedRanks_of_create hc
        rfl
      have heq : (c.run calls).rankEntries config.rank = v.image :=
        hv.eq_of_exact (hev.trans hz.symm)
      rw [heq]
      exact hsame
  · intro p hp
    have hpend : v.pending = some p := by
      have h : ((c.run calls).view config.rank).pending = v.pending := by rw [hv.rest]
      exact h.symm.trans hp
    obtain ⟨i, hi, hpages⟩ := hobs.stored p hpend
    obtain ⟨j, hj, hji⟩ := hid.stored p hpend
    have hij : i = config.identity := by
      rw [hi, Option.some.injEq] at hj
      rw [hj, hji]
    obtain ⟨-, img, hmem, -, hall⟩ := hpages hij
    exact ⟨img, hmem, fun index l hl ↦ (hall index l hl).2⟩

/-- A worker of rank 0 with room for four entries and one entry a report. -/
def sampleConfig : ReporterConfig :=
  ⟨0, "g", 1, ⟨1, 4, 1, Nat.one_pos, sampleBounds.entryBytes_le, Nat.one_pos⟩, maxInventoryReports_pos,
    generation_ne_empty, length_generation_le, one_le_maxCounter⟩

/-- The entries the sample worker starts with. -/
def sampleMutations : List Mutation :=
  [.add (some (.ofNat 5)) (some 256), .add (some (.ofNat 6)) (some 512)]

/-- Reports of the sample worker: one before and two after an entry is removed. -/
def sampleEmissions : List Emission :=
  workerEmissions sampleConfig (some 1) sampleMutations
    [.report, .mutate (.remove (.ofNat 5)), .report, .report]

/-- The catalog of the sample worker's scheduler. -/
def sampleCatalog : QuorumCatalog :=
  QuorumCatalog.fresh sampleConfig.bounds (Finset.range 1)

/-- Reports delivered last first: the newest one synchronizes the rank, an older page stays
pending, and the image is the observed one. -/
theorem image_agreement_reversed :
    0 ∉ (sampleCatalog.run (sampleEmissions.map reportCall).reverse).desynchronized ∧
      ∃ img, (1, img) ∈ workerImages sampleConfig (some 1) sampleMutations
          [.report, .mutate (.remove (.ofNat 5)), .report, .report] ∧
        OrderedDict.Same
          ((sampleCatalog.run (sampleEmissions.map reportCall).reverse).rankEntries 0) img := by
  have hs : 0 ∉ (sampleCatalog.run (sampleEmissions.map reportCall).reverse).desynchronized := by
    decide +kernel
  have hseq : (sampleCatalog.run (sampleEmissions.map reportCall).reverse).sequences 0 = 1 := by
    decide +kernel
  have hev : (sampleCatalog.run (sampleEmissions.map reportCall).reverse).boundEvictions = 0 := by
    decide +kernel
  have h := image_agreement sampleConfig (some 1) sampleMutations
    [.report, .mutate (.remove (.ofNat 5)), .report, .report] [some 0] sampleConfig.bounds
    sampleCatalog rfl (by decide) (sampleEmissions.map reportCall).reverse (by
      intro m hm _
      obtain ⟨e, he, hm'⟩ := List.mem_map.mp (List.mem_reverse.mp hm)
      exact .inr ⟨e, he, hm'.symm⟩)
  obtain ⟨img, hmem, -, -, hsame⟩ := h.1 hs
  change ((sampleCatalog.run (sampleEmissions.map reportCall).reverse).sequences 0, img) ∈ _ at hmem
  rw [hseq] at hmem
  exact ⟨hs, img, hmem, hsame hev⟩

/-! ### Freshness under in-order delivery -/

/-- Messages up to a sequence number keep the receiver up to it. -/
theorem admits_le {top : Nat} {m : Call}
    (hm : m = startupCall config mutations ∨
      ∃ e ∈ workerEmissions config batchSize mutations ops, m = reportCall e ∧
        e.report.checkpoint.sequence ≤ top) :
    Admits (fun _ n _ ↦ n ≤ top) (fun _ p ↦ p.sequence ≤ top) bounds m := by
  refine ⟨fun _ _ _ _ _ _ _ _ _ ↦ Nat.zero_le top, ?_⟩
  intro raw i report hraw hi hv
  rcases hm with hs | ⟨e, he, hr, hle⟩
  · rw [hs] at hraw
    cases hraw
  · have hok := emissionOk_worker config batchSize mutations ops he
    rw [hr] at hraw
    cases hraw
    obtain ⟨hcp, hdelta⟩ := validateInventoryReport_toRaw hv
    refine ⟨?_, ?_⟩
    · intro d hd _ _ _
      exact (hok.delta d (hdelta ▸ hd)).le.trans hle
    · intro p _ hmatch _ _
      rw [hcp] at hmatch
      exact hmatch.sequence.le.trans hle

/-- After a valid report a synchronized receiver is not behind its checkpoint. -/
theorem RankView.sequence_applyCheckpoint {v : RankView} {cp : InventoryCheckpoint}
    (h : (v.applyCheckpoint cp).synchronized = true) :
    cp.sequence ≤ (v.applyCheckpoint cp).sequence := by
  unfold RankView.applyCheckpoint at h ⊢
  have hcheck : (v.checkSequence cp).synchronized = true →
      cp.sequence ≤ (v.checkSequence cp).sequence := by
    unfold RankView.checkSequence
    split
    · intro hs
      cases hs
    · next hn =>
      intro hs
      by_contra hlt
      exact hn ⟨hs, by omega⟩
  have hp := RankView.pendingFor_cases (v.checkSequence cp).pending cp
  generalize v.checkSequence cp = w at h hcheck hp ⊢
  dsimp only at h ⊢
  generalize QuorumCatalog.pendingFor w.pending cp = p at h hp ⊢
  have hseq : p.sequence = cp.sequence := by
    rcases hp with rfl | hp
    · rfl
    · exact hp.2.1
  unfold RankView.storeCheckpoint at h ⊢
  split
  · next hbad =>
    rw [if_pos hbad] at h
    cases h
  · next hgood =>
    rw [if_neg hgood] at h
    dsimp only at h ⊢
    split
    · next hbig =>
      rw [if_pos hbig] at h
      cases h
    · next hsmall =>
      rw [if_neg hsmall] at h
      split
      · next hfull =>
        rw [if_pos hfull] at h
        unfold RankView.completeCheckpoint at h ⊢
        dsimp only at h ⊢
        have hstored : (storePage p cp).sequence = cp.sequence := hseq
        rw [hstored] at h ⊢
        split
        · next hlt =>
          rw [if_pos hlt] at h
          exact hlt.le
        · next hlt =>
          rw [if_neg hlt] at h
          split
          · next hbad =>
            rw [if_pos hbad] at h
            cases h
          · exact le_rfl
      · next hpart =>
        rw [if_neg hpart] at h
        exact hcheck h

/-- A report either leaves the rank desynchronized or brings it to its checkpoint. -/
theorem RankView.sequence_receiveReport {v : RankView} {raw : RawReport} {i : Identity}
    (hi : validateGenerationIdentity raw.generation raw.generationEpoch = .ok i)
    (hv : v.synchronized = true → v.identity = some i)
    (h : (v.receiveReport bounds raw).synchronized = true) :
    ∃ report, validateInventoryReport bounds raw = .ok report ∧
      report.checkpoint.sequence ≤ (v.receiveReport bounds raw).sequence := by
  have hbody : ∀ w : RankView, (w.applyBody bounds raw).synchronized = true →
      ∃ report, validateInventoryReport bounds raw = .ok report ∧
        report.checkpoint.sequence ≤ (w.applyBody bounds raw).sequence := by
    intro w hw
    unfold RankView.applyBody at hw ⊢
    cases hr : validateInventoryReport bounds raw with
    | error e =>
      rw [hr] at hw
      cases hw
    | ok report =>
      rw [hr] at hw
      exact ⟨report, rfl, RankView.sequence_applyCheckpoint hw⟩
  simp only [RankView.receiveReport, hi] at h ⊢
  cases hd : v.disposition i with
  | stale =>
    -- a stale identity is not the adopted one
    simp only [hd] at h
    exact absurd hd (RankView.not_stale (hv h))
  | conflict =>
    simp only [hd] at h
    cases h
  | initial =>
    simp only [hd] at h
    exact hbody _ h
  | newer =>
    simp only [hd] at h
    exact hbody _ h
  | current =>
    simp only [hd] at h
    exact hbody _ h

/-- A report is about the rank of its reporter. -/
theorem rank?_reportCall {e : Emission} {images : List (Nat × Image)} {batch : Nat}
    (hok : EmissionOk config batch images e) {expected : Finset Nat}
    (hr : config.rank ∈ expected) : (reportCall e).rank? expected = some config.rank := by
  have h : (0 : Int) ≤ (e.report.rank : Int) ∧ (e.report.rank : Int).toNat ∈ expected := by
    rw [hok.rank]
    exact ⟨by omega, hr⟩
  change (if (0 : Int) ≤ (e.report.rank : Int) ∧ (e.report.rank : Int).toNat ∈ expected then
    some (e.report.rank : Int).toNat else none) = _
  rw [if_pos h, Int.toNat_natCast, hok.rank]

private theorem receiveAll_append_reportCall (bounds : InventoryBounds) (v : RankView)
    {expected : Finset Nat} {r : Nat} {e : Emission}
    (hr : (reportCall e).rank? expected = some r) (before : List Call) :
    RankView.receiveAll bounds expected r v (before ++ [reportCall e]) =
      (RankView.receiveAll bounds expected r v before).receiveReport bounds e.report.toRaw := by
  rw [RankView.receiveAll_append]
  simp only [RankView.receiveAll, List.filter_cons, hr, decide_true, if_true, List.filter_nil,
    List.foldl_cons, List.foldl_nil]
  rfl

private theorem tracks_le {top : Nat} (hc : QuorumCatalog.create ranks bounds = .ok c)
    (hr : config.rank ∈ c.expectedRanks) {calls : List Call}
    (hcalls : ∀ m ∈ calls, m.rank? c.expectedRanks = some config.rank →
      m = startupCall config mutations ∨
        ∃ a ∈ workerEmissions config batchSize mutations ops, m = reportCall a ∧
          a.report.checkpoint.sequence ≤ top) :
    Tracks (fun _ n _ ↦ n ≤ top) (fun _ p ↦ p.sequence ≤ top)
      (RankView.receiveAll c.bounds c.expectedRanks config.rank (c.view config.rank) calls) := by
  obtain ⟨n, -, rfl⟩ := QuorumCatalog.expectedRanks_of_create hc
  exact (QuorumCatalog.tracks_fresh bounds (Finset.range n) hr).receiveAll
    (fun _ _ h _ ↦ h) fun m hm hmr ↦ admits_le (hcalls m hm hmr)

/-- Only the messages about a rank matter to its view. -/
theorem receiveAll_filter (bounds : InventoryBounds) (expected : Finset Nat) (r : Nat)
    (v : RankView) (calls : List Call) :
    RankView.receiveAll bounds expected r v calls =
      RankView.receiveAll bounds expected r v
        (calls.filter fun m ↦ decide (m.rank? expected = some r)) := by
  simp only [RankView.receiveAll, List.filter_filter, Bool.and_self]

/-- When the messages of a worker that arrive are its startup image and reports in order, what
the rank shows was held when the last of these reports was produced. -/
theorem shown_of_last_report (hc : QuorumCatalog.create ranks bounds = .ok c)
    (hr : config.rank ∈ c.expectedRanks) {calls startups : List Call} {es : List Emission}
    {e : Emission} (hstartups : startups.Sublist [startupCall config mutations])
    (hes : (es ++ [e]).Sublist (workerEmissions config batchSize mutations ops))
    (hcalls : calls.filter (fun m ↦ decide (m.rank? c.expectedRanks = some config.rank)) =
      startups ++ es.map reportCall ++ [reportCall e]) :
    (config.rank ∈ (c.run calls).desynchronized ∧
        (c.run calls).rankEntries config.rank = .empty) ∨
      ∀ k s, ((c.run calls).rankEntries config.rank).get? k = some s →
        e.held.get? k = some s := by
  have hmem : ∀ a ∈ es ++ [e], a ∈ workerEmissions config batchSize mutations ops :=
    fun a ha ↦ hes.subset ha
  have hlast : e ∈ es ++ [e] := by simp
  have hok := emissionOk_worker config batchSize mutations ops (hmem e hlast)
  have hle : ∀ a ∈ es, a.report.checkpoint.sequence ≤ e.report.checkpoint.sequence := by
    obtain ⟨r', hrun⟩ := InventoryReporter.runInv_worker config batchSize mutations ops
    have hpair := hrun.ordered.sublist hes
    rw [List.pairwise_append] at hpair
    exact fun a ha ↦ hpair.2.2 a ha e (by simp)
  have hrank := rank?_reportCall hok hr
  -- the messages about the rank, none newer than the last report
  have hle' : ∀ m ∈ startups ++ es.map reportCall ++ [reportCall e],
      m = startupCall config mutations ∨
        ∃ a ∈ workerEmissions config batchSize mutations ops, m = reportCall a ∧
          a.report.checkpoint.sequence ≤ e.report.checkpoint.sequence := by
    intro m hm
    rcases List.mem_append.mp hm with hb | hl
    · rcases List.mem_append.mp hb with hs | hes'
      · exact .inl (List.mem_singleton.mp (hstartups.subset hs))
      · obtain ⟨a, ha, rfl⟩ := List.mem_map.mp hes'
        exact .inr ⟨a, hmem a (List.mem_append_left _ ha), rfl, hle a ha⟩
    · rw [List.mem_singleton] at hl
      exact .inr ⟨e, hmem e hlast, hl, le_rfl⟩
  have hworker : ∀ m ∈ startups ++ es.map reportCall ++ [reportCall e],
      m.rank? c.expectedRanks = some config.rank →
      WorkerMessage config batchSize mutations ops m := by
    intro m hm _
    rcases hle' m hm with hs | ⟨a, ha, hm', -⟩
    · exact .inl hs
    · exact .inr ⟨a, ha, hm'⟩
  obtain ⟨hobs, hid⟩ := tracks_worker hc hr hworker
  have htop := tracks_le hc hr fun m hm _ ↦ hle' m hm
  have hview := QuorumCatalog.view_run c calls config.rank
  rw [receiveAll_filter, hcalls] at hview
  have hstep := receiveAll_append_reportCall c.bounds (c.view config.rank) hrank
    (startups ++ es.map reportCall)
  cases hsync : (RankView.receiveAll c.bounds c.expectedRanks config.rank (c.view config.rank)
      (startups ++ es.map reportCall ++ [reportCall e])).synchronized with
  | false =>
    refine .inl ⟨?_, ?_⟩
    · apply (QuorumCatalog.desynchronized_view _ _).mp
      rw [hview.rest]
      exact hsync
    · apply OrderedDict.eq_empty_of_sub
      rw [← hobs.withdrawn hsync]
      exact hview.sub
  | true =>
    refine .inr ?_
    obtain ⟨i, hi, himage⟩ := hobs.shown hsync
    obtain ⟨j, hj, hji⟩ := hid.shown hsync
    obtain ⟨-, -, hseq⟩ := htop.shown hsync
    have hij : i = config.identity := by
      rw [hi, Option.some.injEq] at hj
      rw [hj, hji]
    have hge : e.report.checkpoint.sequence ≤ (RankView.receiveAll c.bounds c.expectedRanks
        config.rank (c.view config.rank)
        (startups ++ es.map reportCall ++ [reportCall e])).sequence := by
      obtain ⟨-, hidb⟩ := tracks_worker hc hr
        (fun m hm ↦ hworker m (List.mem_append_left _ hm))
      rw [hstep] at hsync ⊢
      obtain ⟨report, hv, hge⟩ := RankView.sequence_receiveReport
        (validateGenerationIdentity_report config batchSize mutations ops (hmem e hlast))
        (fun hs ↦ by
          obtain ⟨k, hk, hkg⟩ := hidb.shown hs
          rw [hk, hkg]) hsync
      rw [(validateInventoryReport_toRaw hv).1] at hge
      exact hge
    obtain ⟨img, himg, hsame⟩ := himage hij
    rw [Nat.le_antisymm hseq hge] at himg
    have heq : img = e.observed :=
      InventoryReporter.workerImages_unique config batchSize mutations ops himg hok.mem
    intro k s hk
    apply hok.held k s
    rw [← heq, ← hsame k]
    exact hview.sub k s hk

/-- When only the startup image of a worker has arrived, the rank shows part of it. -/
theorem shown_of_startup (hc : QuorumCatalog.create ranks bounds = .ok c)
    (hr : config.rank ∈ c.expectedRanks) {calls : List Call}
    (hcalls : calls.filter (fun m ↦ decide (m.rank? c.expectedRanks = some config.rank)) =
      [startupCall config mutations]) {k : Digest} {s : Span}
    (hk : ((c.run calls).rankEntries config.rank).get? k = some s) :
    (InventoryReporter.started config mutations).held.get? k = some s := by
  have hworker : ∀ m ∈ [startupCall config mutations],
      m.rank? c.expectedRanks = some config.rank → WorkerMessage config (some 1) mutations [] m :=
    fun m hm _ ↦ .inl (List.mem_singleton.mp hm)
  obtain ⟨hobs, hid⟩ := tracks_worker hc hr hworker
  have hview := QuorumCatalog.view_run c calls config.rank
  rw [receiveAll_filter, hcalls] at hview
  have hshown := hview.sub k s hk
  cases hsync : (RankView.receiveAll c.bounds c.expectedRanks config.rank (c.view config.rank)
      [startupCall config mutations]).synchronized with
  | false =>
    rw [hobs.withdrawn hsync] at hshown
    cases hshown
  | true =>
    obtain ⟨i, hi, himage⟩ := hobs.shown hsync
    obtain ⟨j, hj, hji⟩ := hid.shown hsync
    have hij : i = config.identity := by
      rw [hi, Option.some.injEq] at hj
      rw [hj, hji]
    obtain ⟨img, himg, hsame⟩ := himage hij
    rw [hsame k] at hshown
    have heq := List.mem_singleton.mp himg
    rw [(Prod.mk.inj heq).2] at hshown
    exact hshown

/-- Freshness: when the worker's messages keep their order, right after a report is applied the
rank is desynchronized and empty, or every entry it shows was held with that span when the
report was produced. -/
theorem freshness_in_order (config : ReporterConfig) (batchSize : PyInt)
    (mutations : List Mutation) (ops : List Op) (ranks : List PyInt) (bounds : InventoryBounds)
    (c : QuorumCatalog) (hc : QuorumCatalog.create ranks bounds = .ok c)
    (hr : config.rank ∈ c.expectedRanks) (before : List Call) (startups : List Call)
    (es : List Emission) (e : Emission)
    (hstartups : startups.Sublist [startupCall config mutations])
    (hes : (es ++ [e]).Sublist (workerEmissions config batchSize mutations ops))
    (hbefore : before.filter (fun m ↦ decide (m.rank? c.expectedRanks = some config.rank)) =
      startups ++ es.map reportCall) :
    let c' := c.run (before ++ [reportCall e])
    (config.rank ∈ c'.desynchronized ∧ c'.rankEntries config.rank = .empty) ∨
      ∀ k s, (c'.rankEntries config.rank).get? k = some s → e.held.get? k = some s := by
  have hmem : e ∈ es ++ [e] := by simp
  have hok := emissionOk_worker config batchSize mutations ops (hes.subset hmem)
  have hrank := rank?_reportCall hok hr
  apply shown_of_last_report hc hr hstartups hes
  rw [List.filter_append, hbefore, List.filter_cons_of_pos (by simpa using hrank),
    List.filter_nil]

/-- The startup image and the second report, with the first one lost: the entry removed before
the second report is not visible, and the other one was held. -/
theorem freshness_after_loss :
    ∃ e ∈ sampleEmissions,
      ((sampleCatalog.run [startupCall sampleConfig sampleMutations, reportCall e]).rankEntries
        0).get? (.ofNat 5) = none ∧
      ((sampleCatalog.run [startupCall sampleConfig sampleMutations, reportCall e]).rankEntries
        0).get? (.ofNat 6) = some ⟨512, by decide⟩ ∧
      e.held.get? (.ofNat 6) = some ⟨512, by decide⟩ := by
  refine ⟨sampleEmissions.get ⟨1, by decide +kernel⟩, List.get_mem _ _, by decide +kernel,
    by decide +kernel, ?_⟩
  have h := freshness_in_order sampleConfig (some 1) sampleMutations
    [.report, .mutate (.remove (.ofNat 5)), .report, .report] [some 0] sampleConfig.bounds
    sampleCatalog rfl (by decide) [startupCall sampleConfig sampleMutations]
    [startupCall sampleConfig sampleMutations] []
    (sampleEmissions.get ⟨1, by decide +kernel⟩) (List.Sublist.refl _)
    (List.singleton_sublist.mpr (List.get_mem _ _)) (by decide +kernel)
  rcases h with ⟨hd, -⟩ | hheld
  · have hs : 0 ∉ (sampleCatalog.run [startupCall sampleConfig sampleMutations,
        reportCall (sampleEmissions.get ⟨1, by decide +kernel⟩)]).desynchronized := by
      decide +kernel
    exact absurd hd hs
  · exact hheld (.ofNat 6) ⟨512, by decide⟩ (by decide +kernel)

end Delivery

end SpoolCache.Quorum

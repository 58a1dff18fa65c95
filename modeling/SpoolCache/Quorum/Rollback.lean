import SpoolCache.Quorum.Agreement

/-!
# Evidence of a newer state

A report whose checkpoint is ahead of the recorded sequence withdraws the rank
(`quorum.py:528–543`) but leaves the recorded sequence where it was, so a delayed checkpoint of
an older sequence that was already superseded can still complete and be installed
(`quorum.py:578–593`). `no_rollback` holds of every run in which no report supplies the last
page of such a checkpoint; `rollback_after_newer_report` is a run in which one does.
-/

namespace SpoolCache.Quorum

open SpoolCache.Base
open QuorumCatalog (Call pendingFor storePage flattenedPages)
open InventoryReporter (Mutation Op Emission workerImages workerEmissions)

/-! ### The recorded sequence -/

namespace RankView

private theorem sequence_le_applyDelta (v : RankView) (delta : Option InventoryDelta) :
    v.sequence ≤ (v.applyDelta delta).sequence := by
  unfold applyDelta
  split
  · exact le_rfl
  · split
    · exact le_rfl
    · split
      · next hb =>
        change v.sequence ≤ InventoryDelta.sequence _
        omega
      · split <;> exact le_rfl

/-- The check of a sequence records no sequence. -/
theorem sequence_checkSequence (v : RankView) (cp : InventoryCheckpoint) :
    (v.checkSequence cp).sequence = v.sequence := by
  unfold checkSequence
  split <;> rfl

/-- The check of a sequence leaves alone what is pending. -/
theorem pending_checkSequence (v : RankView) (cp : InventoryCheckpoint) :
    (v.checkSequence cp).pending = v.pending := by
  unfold checkSequence
  split <;> rfl

/-- A checkpoint is installed only at or above the recorded sequence. -/
theorem sequence_le_completeCheckpoint (v : RankView) (p : PendingCheckpoint) :
    v.sequence ≤ (v.completeCheckpoint p).sequence := by
  unfold completeCheckpoint
  dsimp only
  split
  · exact le_rfl
  · next hlt =>
    split
    · exact le_rfl
    · change v.sequence ≤ p.sequence
      omega

private theorem sequence_le_storeCheckpoint (v : RankView) (cp : InventoryCheckpoint)
    (p : PendingCheckpoint) : v.sequence ≤ (v.storeCheckpoint cp p).sequence := by
  unfold storeCheckpoint
  split
  · exact le_rfl
  · dsimp only
    split
    · exact le_rfl
    · split
      · exact sequence_le_completeCheckpoint { v with pending := some (storePage p cp) } _
      · exact le_rfl

/-- The recorded sequence of an adopted process never decreases. -/
theorem sequence_le_applyValid (v : RankView) (report : WorkerInventoryReport) :
    v.sequence ≤ (v.applyValid report).sequence := by
  have hd := sequence_le_applyDelta v report.delta
  have hs := sequence_le_storeCheckpoint ((v.applyDelta report.delta).checkSequence
    report.checkpoint) report.checkpoint
    (pendingFor ((v.applyDelta report.delta).checkSequence report.checkpoint).pending
      report.checkpoint)
  rw [sequence_checkSequence] at hs
  exact hd.trans hs

/-- The page completes a checkpoint below `n` that a desynchronized rank still accepts. -/
def ReadmitsBelow (v : RankView) (n : Nat) (cp : InventoryCheckpoint) : Prop :=
  v.synchronized = false ∧ v.sequence ≤ cp.sequence ∧ cp.sequence < n ∧
    (storePage (pendingFor v.pending cp) cp).pages.size = (pendingFor v.pending cp).count

/-- A desynchronized rank is readmitted only by completing a checkpoint. -/
theorem completes_of_readmitted {v : RankView} {report : WorkerInventoryReport}
    (hv : v.synchronized = false) (h : (v.applyValid report).synchronized = true) :
    v.sequence ≤ report.checkpoint.sequence ∧
      (storePage (pendingFor v.pending report.checkpoint) report.checkpoint).pages.size =
        (pendingFor v.pending report.checkpoint).count := by
  have hdelta : v.applyDelta report.delta = v := by
    unfold applyDelta
    split
    · rfl
    · rw [if_pos hv]
  have hcheck : v.checkSequence report.checkpoint = v := by
    unfold checkSequence
    rw [if_neg]
    rw [hv]
    exact fun hn ↦ Bool.noConfusion hn.1
  have hseq : (pendingFor v.pending report.checkpoint).sequence =
      report.checkpoint.sequence := by
    rcases pendingFor_cases v.pending report.checkpoint with hp | hp
    · rw [hp]
      rfl
    · exact hp.2.1
  rw [applyValid, hdelta, applyCheckpoint, hcheck] at h
  generalize pendingFor v.pending report.checkpoint = p at h hseq ⊢
  unfold storeCheckpoint at h
  split at h
  · cases h
  · dsimp only at h
    split at h
    · cases h
    · split at h
      · next hfull =>
        refine ⟨?_, hfull⟩
        unfold completeCheckpoint at h
        dsimp only at h
        have hstored : (storePage p report.checkpoint).sequence = report.checkpoint.sequence :=
          hseq
        rw [hstored] at h
        split at h
        · rw [hv] at h
          cases h
        · next hlt => omega
      · rw [hv] at h
        cases h

/-- Unless it completes an older checkpoint, a valid report keeps a synchronized rank at or
above `n`, or brings it there. -/
theorem le_sequence_applyValid {v : RankView} {report : WorkerInventoryReport} {n : Nat}
    (hn : v.synchronized = true → n ≤ v.sequence)
    (hr : ¬ v.ReadmitsBelow n report.checkpoint)
    (h : (v.applyValid report).synchronized = true) : n ≤ (v.applyValid report).sequence := by
  cases hv : v.synchronized with
  | true => exact (hn hv).trans (sequence_le_applyValid v report)
  | false =>
    obtain ⟨hle, hfull⟩ := completes_of_readmitted hv h
    have hcp : report.checkpoint.sequence ≤ (v.applyValid report).sequence :=
      sequence_applyCheckpoint h
    by_contra hlt
    exact hr ⟨hv, hle, by omega, hfull⟩

/-- An adopted process sees its own messages as current or, after a conflict, as conflicts. -/
theorem disposition_self {v : RankView} {i : Identity} (h : v.identity = some i) :
    v.disposition i = .conflict ∨ v.disposition i = .current := by
  unfold disposition
  rw [h]
  dsimp only
  rw [if_neg (lt_irrefl _), if_neg (lt_irrefl _)]
  split
  · exact .inl rfl
  · exact .inr rfl

private theorem identity_receiveReport {bounds : InventoryBounds} {v : RankView} {raw : RawReport}
    {i : Identity} (hi : validateGenerationIdentity raw.generation raw.generationEpoch = .ok i)
    (hv : v.identity = none ∨ v.identity = some i) :
    (v.receiveReport bounds raw).identity = some i := by
  simp only [receiveReport, hi]
  rcases hv with hv | hv
  · have hd : v.disposition i = .initial := by
      unfold disposition
      rw [hv]
    simp only [hd]
    exact identity_applyBody _ _ _
  · rcases disposition_self hv with hd | hd
    · simp only [hd]
      exact hv
    · simp only [hd]
      exact (identity_applyBody _ _ _).trans hv

end RankView

/-! ### Runs -/

/-- The page completes a checkpoint below `n` that the desynchronized rank still accepts. -/
def QuorumCatalog.ReadmitsBelow (c : QuorumCatalog) (rank n : Nat) (cp : InventoryCheckpoint) :
    Prop :=
  rank ∈ c.desynchronized ∧ c.sequences rank ≤ cp.sequence ∧ cp.sequence < n ∧
    (storePage (pendingFor (c.pending rank) cp) cp).pages.size =
      (pendingFor (c.pending rank) cp).count

private theorem QuorumCatalog.readmitsBelow_of_receives {c : QuorumCatalog} {rank n : Nat}
    {cp : InventoryCheckpoint} {e : Prop} {v : RankView}
    (hv : RankView.Receives e (c.view rank) v) (h : v.ReadmitsBelow n cp) :
    c.ReadmitsBelow rank n cp := by
  obtain ⟨hs, hle, hlt, hfull⟩ := h
  have hpend : c.pending rank = v.pending := by
    have hp : (c.view rank).pending = v.pending := by rw [hv.rest]
    exact hp
  have hseq : c.sequences rank = v.sequence := by
    have hp : (c.view rank).sequence = v.sequence := by rw [hv.rest]
    exact hp
  refine ⟨?_, ?_, hlt, ?_⟩
  · apply (QuorumCatalog.desynchronized_view c rank).mp
    rw [hv.rest]
    exact hs
  · rw [hseq]
    exact hle
  · rw [hpend]
    exact hfull

section Runs

variable {config : ReporterConfig} {batchSize : PyInt} {mutations : List Mutation}
  {ops : List Op} {ranks : List PyInt} {bounds : InventoryBounds} {c : QuorumCatalog}

/-- A message of the process that a receiver has reports of. -/
private theorem le_sequence_receive {v : RankView} {n : Nat} {m : Call}
    (hm : WorkerMessage config batchSize mutations ops m)
    (hid : v.identity = some config.identity) (hn : v.synchronized = true → n ≤ v.sequence)
    (hstep : ∀ e ∈ workerEmissions config batchSize mutations ops, m = reportCall e →
      ¬ v.ReadmitsBelow n e.report.checkpoint) :
    (v.receive bounds m).identity = some config.identity ∧
      ((v.receive bounds m).synchronized = true → n ≤ (v.receive bounds m).sequence) := by
  rcases hm with rfl | ⟨e, he, rfl⟩
  · change (v.receiveStartup bounds _ _ _).identity = _ ∧
      ((v.receiveStartup bounds _ _ _).synchronized = true →
        n ≤ (v.receiveStartup bounds _ _ _).sequence)
    simp only [RankView.receiveStartup, validateGenerationIdentity_config]
    rcases RankView.disposition_self hid with hd | hd
    · simp only [hd]
      exact ⟨hid, fun hs ↦ (by cases hs)⟩
    · simp only [hd]
      exact ⟨hid, hn⟩
  · have hi := validateGenerationIdentity_report config batchSize mutations ops he
    refine ⟨RankView.identity_receiveReport hi (.inr hid), ?_⟩
    change (v.receiveReport bounds e.report.toRaw).synchronized = true →
      n ≤ (v.receiveReport bounds e.report.toRaw).sequence
    simp only [RankView.receiveReport, hi]
    rcases RankView.disposition_self hid with hd | hd
    · simp only [hd]
      exact fun hs ↦ (by cases hs)
    · simp only [hd, RankView.applyBody]
      cases hv : validateInventoryReport bounds e.report.toRaw with
      | error err => exact fun hs ↦ (by cases hs)
      | ok report =>
        have hr := hstep e he rfl
        rw [← (validateInventoryReport_toRaw hv).1] at hr
        exact RankView.le_sequence_applyValid hn hr

/-- Messages of one process make it the adopted one. -/
private theorem identity_receive_worker {v : RankView} {m : Call}
    (hm : WorkerMessage config batchSize mutations ops m)
    (hv : v.identity = none ∨ v.identity = some config.identity) :
    (v.receive bounds m).identity = some config.identity := by
  rcases hm with rfl | ⟨e, he, rfl⟩
  · change (v.receiveStartup bounds _ _ _).identity = _
    simp only [RankView.receiveStartup, validateGenerationIdentity_config]
    rcases hv with hv | hv
    · have hd : v.disposition config.identity = .initial := by
        unfold RankView.disposition
        rw [hv]
      simp only [hd]
      exact RankView.identity_installStartup _ _ _
    · rcases RankView.disposition_self hv with hd | hd
      · simp only [hd]
        exact hv
      · simp only [hd]
        exact hv
  · exact RankView.identity_receiveReport
      (validateGenerationIdentity_report config batchSize mutations ops he) hv

private theorem no_rollback_receiver (hc : QuorumCatalog.create ranks bounds = .ok c)
    (hr : config.rank ∈ c.expectedRanks) {calls : List Call}
    (hcalls : ∀ m ∈ calls, m.rank? c.expectedRanks = some config.rank →
      WorkerMessage config batchSize mutations ops m)
    (hsteps : ∀ before e after, calls = before ++ reportCall e :: after →
      e ∈ workerEmissions config batchSize mutations ops →
      ∀ e' ∈ workerEmissions config batchSize mutations ops, reportCall e' ∈ before →
        ¬ (c.run before).ReadmitsBelow config.rank e'.report.checkpoint.sequence
          e.report.checkpoint)
    (before after : List Call) (hsplit : calls = before ++ after) :
    let v := RankView.receiveAll c.bounds c.expectedRanks config.rank (c.view config.rank) before
    (v.identity = none ∨ v.identity = some config.identity) ∧
      ∀ e ∈ workerEmissions config batchSize mutations ops, reportCall e ∈ before →
        v.identity = some config.identity ∧
          (v.synchronized = true → e.report.checkpoint.sequence ≤ v.sequence) := by
  induction before using List.reverseRecOn generalizing after with
  | nil =>
    obtain ⟨n, -, rfl⟩ := QuorumCatalog.expectedRanks_of_create hc
    exact ⟨.inl rfl, fun e _ he ↦ (by cases he)⟩
  | append_singleton before m ih =>
    rw [List.append_assoc, List.singleton_append] at hsplit
    obtain ⟨hid, hseq⟩ := ih (m :: after) hsplit
    have hview := QuorumCatalog.view_run c before config.rank
    have hbefore : ∀ m' ∈ before, m'.rank? c.expectedRanks = some config.rank →
        WorkerMessage config batchSize mutations ops m' := by
      intro m' hm'
      exact hcalls m' (by rw [hsplit]; exact List.mem_append_left _ hm')
    have hshown := (tracks_worker hc hr hbefore).2.shown
    rw [RankView.receiveAll_append]
    generalize RankView.receiveAll c.bounds c.expectedRanks config.rank (c.view config.rank)
      before = v at hid hseq hview hshown ⊢
    by_cases hmr : m.rank? c.expectedRanks = some config.rank
    · have hstep : RankView.receiveAll c.bounds c.expectedRanks config.rank v [m] =
          v.receive c.bounds m := by simp [RankView.receiveAll, hmr]
      have hw := hcalls m (by rw [hsplit]; simp) hmr
      rw [hstep]
      refine ⟨.inr (identity_receive_worker hw hid), ?_⟩
      · intro e he hmem
        rcases List.mem_append.mp hmem with hold | hnew
        · obtain ⟨hid', hn⟩ := hseq e he hold
          apply le_sequence_receive hw hid' hn
          intro e₂ he₂ hm₂ hread
          subst hm₂
          exact hsteps before e₂ after hsplit he₂ e he hold
            (QuorumCatalog.readmitsBelow_of_receives hview hread)
        · rw [List.mem_singleton] at hnew
          subst hnew
          have hi := validateGenerationIdentity_report config batchSize mutations ops he
          refine ⟨RankView.identity_receiveReport hi hid, ?_⟩
          intro hs
          obtain ⟨report, hv, hle⟩ := RankView.sequence_receiveReport hi
            (fun hsync ↦ by
              obtain ⟨i, hvi, rfl⟩ := hshown hsync
              exact hvi) hs
          rw [(validateInventoryReport_toRaw hv).1] at hle
          exact hle
    · have hstep : RankView.receiveAll c.bounds c.expectedRanks config.rank v [m] = v := by
        simp [RankView.receiveAll, hmr]
      rw [hstep]
      refine ⟨hid, ?_⟩
      intro e he hmem
      rcases List.mem_append.mp hmem with hold | hnew
      · exact hseq e he hold
      · rw [List.mem_singleton] at hnew
        rw [← hnew] at hmr
        exact absurd (rank?_reportCall
          (emissionOk_worker config batchSize mutations ops he) hr) hmr

/-- No rollback: in every run in which no report completes, for the desynchronized rank, a
checkpoint below a sequence already reported, the rank is in every state desynchronized and
empty, or synchronized at or above every sequence reported so far and showing only entries the
worker observed there. -/
theorem no_rollback (config : ReporterConfig) (batchSize : PyInt) (mutations : List Mutation)
    (ops : List Op) (ranks : List PyInt) (bounds : InventoryBounds) (c : QuorumCatalog)
    (hc : QuorumCatalog.create ranks bounds = .ok c) (hr : config.rank ∈ c.expectedRanks)
    (calls : List Call)
    (hcalls : ∀ m ∈ calls, m.rank? c.expectedRanks = some config.rank →
      WorkerMessage config batchSize mutations ops m)
    (hsteps : ∀ before e after, calls = before ++ reportCall e :: after →
      e ∈ workerEmissions config batchSize mutations ops →
      ∀ e' ∈ workerEmissions config batchSize mutations ops, reportCall e' ∈ before →
        ¬ (c.run before).ReadmitsBelow config.rank e'.report.checkpoint.sequence
          e.report.checkpoint)
    (before after : List Call) (hsplit : calls = before ++ after) (e : Emission)
    (he : e ∈ workerEmissions config batchSize mutations ops) (hmem : reportCall e ∈ before) :
    (config.rank ∈ (c.run before).desynchronized ∧
        (c.run before).rankEntries config.rank = .empty) ∨
      (config.rank ∉ (c.run before).desynchronized ∧
        e.report.checkpoint.sequence ≤ (c.run before).sequences config.rank ∧
        ∃ img, ((c.run before).sequences config.rank, img) ∈
            workerImages config batchSize mutations ops ∧
          OrderedDict.SubDict ((c.run before).rankEntries config.rank) img) := by
  have hbefore : ∀ m ∈ before, m.rank? c.expectedRanks = some config.rank →
      WorkerMessage config batchSize mutations ops m := by
    intro m hm
    exact hcalls m (by rw [hsplit]; exact List.mem_append_left _ hm)
  obtain ⟨-, hseq⟩ := no_rollback_receiver hc hr hcalls hsteps before after hsplit
  obtain ⟨hobs, hid⟩ := tracks_worker hc hr hbefore
  have hview := QuorumCatalog.view_run c before config.rank
  generalize RankView.receiveAll c.bounds c.expectedRanks config.rank (c.view config.rank)
    before = v at hseq hobs hid hview
  have hsequence : (c.run before).sequences config.rank = v.sequence := by
    have h : ((c.run before).view config.rank).sequence = v.sequence := by rw [hview.rest]
    exact h
  have hsynchronized : ((c.run before).view config.rank).synchronized = v.synchronized := by
    rw [hview.rest]
  cases hsync : v.synchronized with
  | false =>
    refine .inl ⟨?_, ?_⟩
    · exact (QuorumCatalog.desynchronized_view _ _).mp (hsynchronized.trans hsync)
    · apply OrderedDict.eq_empty_of_sub
      rw [← hobs.withdrawn hsync]
      exact hview.sub
  | true =>
    obtain ⟨i, hi, himage⟩ := hobs.shown hsync
    obtain ⟨hidentity, hle⟩ := hseq e he hmem
    obtain ⟨img, himg, hsame⟩ := himage (Option.some.inj (hi.symm.trans hidentity))
    rw [hsequence]
    exact .inr ⟨(QuorumCatalog.synchronized_view _ _).mp (hsynchronized.trans hsync), hle hsync,
      img, himg, hview.sub.trans (.of_same hsame)⟩

/-- The newest report of the sample worker first, then an older page of two: the older
checkpoint stays incomplete and the rank stays at sequence 1. -/
theorem no_rollback_incomplete :
    ∃ first ∈ sampleEmissions, ∃ second ∈ sampleEmissions,
      first.report.checkpoint.sequence = 1 ∧ second.report.checkpoint.sequence = 0 ∧
      0 ∉ (sampleCatalog.run [reportCall first, reportCall second]).desynchronized ∧
      1 ≤ (sampleCatalog.run [reportCall first, reportCall second]).sequences 0 := by
  refine ⟨sampleEmissions.get ⟨2, by decide +kernel⟩, List.get_mem _ _,
    sampleEmissions.get ⟨0, by decide +kernel⟩, List.get_mem _ _, by decide +kernel,
    by decide +kernel, ?_⟩
  have hs : 0 ∉ (sampleCatalog.run [reportCall (sampleEmissions.get ⟨2, by decide +kernel⟩),
      reportCall (sampleEmissions.get ⟨0, by decide +kernel⟩)]).desynchronized := by
    decide +kernel
  have hfirst : 0 ∉ (sampleCatalog.run
      [reportCall (sampleEmissions.get ⟨2, by decide +kernel⟩)]).desynchronized := by
    decide +kernel
  have h := no_rollback sampleConfig (some 1) sampleMutations
    [.report, .mutate (.remove (.ofNat 5)), .report, .report] [some 0] sampleConfig.bounds
    sampleCatalog rfl (by decide) [reportCall (sampleEmissions.get ⟨2, by decide +kernel⟩),
      reportCall (sampleEmissions.get ⟨0, by decide +kernel⟩)] (by
      intro m hm _
      rw [List.mem_cons, List.mem_singleton] at hm
      rcases hm with rfl | rfl
      · exact .inr ⟨_, List.get_mem _ _, rfl⟩
      · exact .inr ⟨_, List.get_mem _ _, rfl⟩) (by
      intro before e after hsplit _ e' _ hmem hread
      cases before with
      | nil => cases hmem
      | cons m rest =>
        rw [List.cons_append, List.cons.injEq] at hsplit
        cases rest with
        | nil =>
          rw [← hsplit.1] at hread
          exact hfirst hread.1
        | cons m' rest =>
          rw [List.cons_append, List.cons.injEq] at hsplit
          simp at hsplit)
    [reportCall (sampleEmissions.get ⟨2, by decide +kernel⟩),
      reportCall (sampleEmissions.get ⟨0, by decide +kernel⟩)] [] rfl
    (sampleEmissions.get ⟨2, by decide +kernel⟩) (List.get_mem _ _) List.mem_cons_self
  rcases h with ⟨hd, -⟩ | ⟨-, hle, -⟩
  · exact absurd hd hs
  · have hone : (sampleEmissions.get ⟨2, by decide +kernel⟩).report.checkpoint.sequence = 1 := by
      decide +kernel
    rw [hone] at hle
    exact ⟨hs, hle⟩

/-- Reports of a worker with three entries: the pages of sequence 0, and after an entry is
removed the first page of sequence 1. -/
def withdrawalEmissions : List Emission :=
  workerEmissions sampleConfig (some 1) (sampleMutations ++ [.add (some (.ofNat 7)) (some 768)])
    [.report, .report, .report, .mutate (.remove (.ofNat 5)), .report]

/-- The report of sequence 1 arrives first, the delayed pages of sequence 0 after it: the rank
is synchronized at sequence 0 again and shows the removed entry. -/
theorem rollback_after_newer_report :
    let delivered := [3, 0, 1, 2].filterMap fun i ↦ withdrawalEmissions[i]?
    let before := sampleCatalog.run ((delivered.take 1).map reportCall)
    let final := sampleCatalog.run (delivered.map reportCall)
    delivered.map (fun e ↦ e.report.checkpoint.sequence) = [1, 0, 0, 0] ∧
      0 ∈ before.desynchronized ∧ 0 ∉ final.desynchronized ∧ final.sequences 0 = 0 ∧
      (∀ e ∈ delivered.take 1, e.held.get? (.ofNat 5) = none) ∧
      (final.rankEntries 0).get? (.ofNat 5) = some ⟨256, by decide⟩ := by
  decide +kernel

end Runs

end SpoolCache.Quorum

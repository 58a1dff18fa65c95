import SpoolCache.Connector.Worker
import SpoolCache.Store.CommitSteps

/-!
# The inventory a worker reports is honest

Whatever the worker, its scrub thread and other processes do to a root between two reports, at
the moment a report is produced every observed entry has a live file with its span and no
withdrawal marker: files are unlinked only under a marker, and a report first withdraws every
marked key.
-/

namespace SpoolCache.Connector

open SpoolCache.Base SpoolCache.Layout SpoolCache.Prefix SpoolCache.Quorum SpoolCache.Store
open InventoryReporter (Consistent Mutation)

section

variable {config : WorkerConfig}

/-- Any file at all. -/
def anyFile (_ : Digest) (_ : TokenFile) : Prop := True

/-! ### Sections of the lock -/

private theorem steps_scrubKey {fileOk : Digest → TokenFile → Prop} (hooked : Bool) (s : RankState)
    (key : Digest) : Steps fileOk hooked s (scrubKey config hooked s key) := by
  unfold scrubKey
  split
  · exact .refl hooked s
  · split
    · exact .refl hooked s
    · exact steps_quarantineBad hooked s key
    · next desc ho =>
      obtain ⟨-, file, header, segments, hf, -⟩ := openChunk_ok ho
      split
      · split
        · exact .of_safe (.clear s key ((OrderedDict.mem_keys_iff _ _).mpr ⟨file, hf⟩))
        · exact .refl hooked s
      · exact steps_quarantineBad hooked s key

private theorem steps_exitRestore {fileOk : Digest → TokenFile → Prop} (hooked : Bool)
    (ht : ∀ key file time, fileOk key file → fileOk key { file with modified := time })
    (times : Nat → Nat) (s : RankState) (view : Nat) (touched : Bool) :
    Steps fileOk hooked s (exitRestore times s view touched) := by
  unfold exitRestore
  dsimp only
  split
  · exact (steps_touchAll hooked ht times s _).trans (.of_safe (.pin _ _))
  · exact .of_safe (.pin _ _)

private theorem steps_damage {fileOk : Digest → TokenFile → Prop} (hooked : Bool) (s : RankState)
    (key : Digest) (hd : ∀ file, fileOk key file → fileOk key { file with authentic := false }) :
    Steps fileOk hooked s (damage s key) := by
  unfold damage
  cases hf : s.files.get? key with
  | none => exact .refl hooked s
  | some file =>
    exact .of_safe (.rewrite s key file { file with authentic := false } hf rfl (hd file))

/-- An operation takes safe steps; one that damages a file does so when files may be damaged. -/
theorem steps_storeStep {fileOk : Digest → TokenFile → Prop} (hooked : Bool)
    (ht : ∀ key file time, fileOk key file → fileOk key { file with modified := time })
    (s : RankState) (op : StoreOp)
    (hd : op.intact = false →
      ∀ key file, fileOk key file → fileOk key { file with authentic := false }) :
    Steps fileOk hooked s (storeStep config hooked s op) := by
  cases op with
  | evict key => exact steps_evict hooked s key
  | quarantine key => exact steps_quarantineBad hooked s key
  | scrub key => exact steps_scrubKey hooked s key
  | enterRestore entryId => exact steps_restoreView hooked s entryId
  | exitRestore view touched times => exact steps_exitRestore hooked ht times s view touched
  | damage key => exact steps_damage hooked s key (hd rfl key)

/-- The calls of a store between its files are steps of a process. -/
theorem steps_storeSteps {fileOk : Digest → TokenFile → Prop} (hooked : Bool)
    (ht : ∀ key file time, fileOk key file → fileOk key { file with modified := time })
    (s : RankState) (ops : List StoreOp)
    (hd : ∀ op ∈ ops, op.intact = false →
      ∀ key file, fileOk key file → fileOk key { file with authentic := false }) :
    Steps fileOk hooked s (ops.foldl (storeStep config hooked) s) := by
  induction ops generalizing s with
  | nil => exact .refl hooked s
  | cons op ops ih =>
    exact (steps_storeStep hooked ht s op (hd op List.mem_cons_self)).trans
      (ih _ fun op' h ↦ hd op' (List.mem_cons_of_mem _ h))

/-- A committed plan changes the rank as any process may. -/
theorem changes_commitStorePlan {fileOk : Digest → TokenFile → Prop} (oracle : CommitOracle)
    {s : RankState} {prefixes : List PrefixDigest} (blockTables : List (List Nat))
    (ht : ∀ key file time, fileOk key file → fileOk key { file with modified := time })
    (hdata : ∀ job ∈ dataJobs prefixes, Allowed fileOk config.store job)
    (hstate : config.store.layout.hasBoundaryState = true →
      ∀ tail, prefixes.getLast? = some tail → Allowed fileOk config.store (stateJob tail))
    (hs : Honest s) :
    Changes fileOk s (commitStorePlan config oracle s prefixes blockTables) := by
  obtain ⟨hc, hok⟩ := commitKeys_spec oracle blockTables ht hdata hstate hs
  unfold commitStorePlan
  generalize commitKeys config.store true oracle s prefixes blockTables = out at hc hok
  obtain ⟨s1, result⟩ := out
  cases result with
  | error e => exact hc
  | ok snapshot =>
    obtain ⟨hv, hl⟩ := hok snapshot rfl
    exact hc.tail (.offer s1 snapshot.objects hv hl)

/-- A rescan is one change of the rank. -/
theorem change_rescan (fileOk : Digest → TokenFile → Prop) (s : RankState) :
    Change fileOk s (rescan config s) := by
  apply Change.replace
  intro e he
  exact (live_of_mem_offers (mem_offers_of_mem_scanOffers he)).1.1.backed

/-- A capacity batch changes the rank as any process may. -/
theorem changes_capacityBatch (fileOk : Digest → TokenFile → Prop) (w : Worker) :
    Changes fileOk w.rank (capacityBatch config w).1.rank :=
  steps_maintainCapacityBatch true w.rank config.triggerBytes w.capacityRemaining

/-- A section that publishes nothing, damages nothing and reports nothing takes steps of the
owner. -/
theorem changes_step {fileOk : Digest → TokenFile → Prop}
    (ht : ∀ key file time, fileOk key file → fileOk key { file with modified := time })
    (w : Worker) (op : WorkerOp) (hq : op.quiet = true) :
    Changes fileOk w.rank (w.step config op).rank := by
  cases op with
  | store hooked op =>
    apply (steps_storeStep hooked ht w.rank op ?_).changes
    intro hn
    exact absurd (hn.symm.trans hq) Bool.false_ne_true
  | commit oracle prefixes blockTables => cases hq
  | removeEntry key =>
    have hstep : Change fileOk w.rank _ := .withdraw w.rank key
    exact Relation.ReflTransGen.single hstep
  | capacityBatch => exact changes_capacityBatch fileOk w
  | rescan => exact Relation.ReflTransGen.single (change_rescan fileOk w.rank)
  | withdrawImage =>
    have hstep : Change fileOk w.rank _ := .replace w.rank [] fun e he ↦ (by cases he)
    exact Relation.ReflTransGen.single hstep
  | stats => cases hq

/-! ### Markers -/

private theorem held_withdrawAll {r : InventoryReporter} {keys : List Digest} {a : Digest}
    {span : Span} (h : (keys.foldl InventoryReporter.remove r).held.get? a = some span) :
    a ∉ keys ∧ r.held.get? a = some span := by
  induction keys generalizing r with
  | nil => exact ⟨List.not_mem_nil, h⟩
  | cons key keys ih =>
    obtain ⟨hn, hr⟩ := ih h
    obtain ⟨hne, hr⟩ := held_remove hr
    exact ⟨List.not_mem_cons_of_ne_of_not_mem hne hn, hr⟩

private theorem changes_withdrawAll (fileOk : Digest → TokenFile → Prop) (s : RankState)
    (keys : List Digest) :
    Changes fileOk s { s with reporter := keys.foldl InventoryReporter.remove s.reporter } := by
  induction keys generalizing s with
  | nil => exact .refl
  | cons key keys ih =>
    exact Relation.ReflTransGen.head (.withdraw s key)
      (ih { s with reporter := s.reporter.remove key })

/-- Acknowledging keys that are not held clears markers and nothing else. -/
theorem acknowledgeAbsent_spec (fileOk : Digest → TokenFile → Prop) {s : RankState}
    {keys : List Digest} (hn : ∀ key ∈ keys, key ∉ s.reporter.held.keys) :
    Changes fileOk s (acknowledgeAbsent s keys) ∧
      (acknowledgeAbsent s keys).files = s.files ∧
      (acknowledgeAbsent s keys).reporter = s.reporter ∧
      (acknowledgeAbsent s keys).markers.keys ⊆ s.markers.keys := by
  induction keys generalizing s with
  | nil => exact ⟨.refl, rfl, rfl, List.Subset.refl _⟩
  | cons key keys ih =>
    unfold acknowledgeAbsent
    rw [List.foldl_cons]
    have hrest : ∀ k ∈ keys, k ∉ s.reporter.held.keys := fun k hk ↦
      hn k (List.mem_cons_of_mem _ hk)
    split
    · exact ih hrest
    · obtain ⟨hc, hf, hr, hm⟩ := ih (s := clearWithdrawal s key) hrest
      refine ⟨.head (.release s key (hn key List.mem_cons_self)) hc, hf, hr, ?_⟩
      intro a ha
      exact ((OrderedDict.mem_keys_erase _ _ _).mp (hm ha)).2

/-! ### Reports -/

/-- What holds between the sections of a worker. -/
structure Coherent (batch : Nat) (s : RankState) : Prop where
  honest : Honest s
  consistent : Consistent batch s.reporter

/-- Changes keep a rank coherent. -/
theorem Coherent.changes {fileOk : Digest → TokenFile → Prop} {batch : Nat} {s s' : RankState}
    (h : Coherent batch s) (hc : Changes fileOk s s') : Coherent batch s' := by
  obtain ⟨ms, hm⟩ := hc.mutated
  refine ⟨hc.honest h.honest, ?_⟩
  rw [hm]
  exact (InventoryReporter.consistent_mutateAll h.consistent ms).1

/-- A live entry stays live while its file is the same and no marker is added. -/
theorem Live.of_files {s s' : RankState} {key : Digest} {span : Nat} (h : Live s key span)
    (hf : s'.files = s.files) (hm : s'.markers.keys ⊆ s.markers.keys) : Live s' key span := by
  obtain ⟨⟨file, header, hget, hrest⟩, hn⟩ := h
  exact ⟨⟨file, header, by rw [hf, hget], hrest⟩, fun hk ↦ hn (hm hk)⟩

/-- After the marked keys are withdrawn, what is held is live. -/
theorem live_of_withdrawn {s : RankState} (hs : Honest s) {key : Digest} {span : Span}
    (h : (s.markers.keys.foldl InventoryReporter.remove s.reporter).held.get? key = some span) :
    Live s key span.val := by
  obtain ⟨hm, hheld⟩ := held_withdrawAll h
  exact (hs key span hheld).live hm

private theorem not_mem_held_withdrawAll {r : InventoryReporter} {keys : List Digest} {key : Digest}
    (h : key ∈ keys) : key ∉ (keys.foldl InventoryReporter.remove r).held.keys := by
  intro hk
  obtain ⟨span, hs⟩ := (OrderedDict.mem_keys_iff _ _).mp hk
  exact (held_withdrawAll hs).1 h

/-- The worker a stats call leaves: coherent, with the files it found and no new marker. -/
structure Reported (batch : Nat) (s s' : RankState) (report : WorkerInventoryReport) : Prop where
  coherent : Coherent batch s'
  files : s'.files = s.files
  markers : s'.markers.keys ⊆ s.markers.keys
  sequence : report.checkpoint.sequence = s'.reporter.sequence
  observed : OrderedDict.SubDict s'.reporter.observed s'.reporter.held
  held : s'.reporter.held = (s.markers.keys.foldl InventoryReporter.remove s.reporter).held
  reporter : (s.markers.keys.foldl InventoryReporter.remove s.reporter).nextReport
    (some (batch : Int)) = .ok (report, s'.reporter)

/-- A report that is returned tells of the state that it leaves. -/
theorem getKvConnectorStats_ok {w w' : Worker} {report : WorkerInventoryReport}
    (hs : Coherent config.reportBatchSize w.rank)
    (h : getKvConnectorStats config w = .ok (w', report)) :
    Reported config.reportBatchSize w.rank w'.rank report := by
  obtain ⟨⟨s1, selected, cursor⟩, hb, h⟩ := bind_ok h
  obtain ⟨rfl, hsel⟩ := withdrawMarkedKeys_ok hb
  obtain ⟨⟨report', reporter⟩, hr, h⟩ := bind_ok h
  cases h
  have hs1 := hs.changes (changes_withdrawAll anyFile w.rank w.rank.markers.keys)
  obtain ⟨hpos, hr', hrep⟩ := InventoryReporter.nextReport_ok hr
  obtain ⟨hcons, -, hsub⟩ := InventoryReporter.observe_spec hs1.consistent
  have hheld : reporter.held =
      (w.rank.markers.keys.foldl InventoryReporter.remove w.rank.reporter).held := by
    rw [hr']
    exact InventoryReporter.held_observe _ _
  have hcoherent : Coherent config.reportBatchSize { w.rank with reporter := reporter } := by
    refine ⟨?_, ?_⟩
    · intro key span hk
      change reporter.held.get? key = some span at hk
      rw [hheld] at hk
      have hb := hs1.honest key span hk
      exact ⟨hb.absent, hb.present⟩
    · rw [hr']
      exact InventoryReporter.consistent_advanceCursors hcons
  have hn : ∀ key ∈ selected, key ∉ reporter.held.keys := by
    intro key hk
    rw [hheld]
    exact not_mem_held_withdrawAll (hsel key hk)
  obtain ⟨hc, hf, hrep', hm⟩ := acknowledgeAbsent_spec anyFile
    (s := { w.rank with reporter := reporter }) hn
  refine ⟨hcoherent.changes hc, hf, hm, ?_, ?_, ?_, ?_⟩
  · rw [hrep', hrep, hr']
    exact hcons.checkpointSequence
  · rw [hrep', hr']
    exact hsub
  · rw [hrep']
    exact hheld
  · rw [hrep']
    exact hr

/-- At a report, observed entries are live before and after the call. -/
theorem Reported.live {batch : Nat} {s s' : RankState} {report : WorkerInventoryReport}
    (h : Reported batch s s' report) (hs : Honest s) {key : Digest} {span : Span}
    (hk : s'.reporter.observed.get? key = some span) :
    Live s key span.val ∧ Live s' key span.val := by
  have hheld := h.observed key span hk
  rw [h.held] at hheld
  have hl := live_of_withdrawn hs hheld
  exact ⟨hl, Live.of_files hl h.files h.markers⟩

/-! ### Runs -/

private theorem coherent_step {w : Worker} (h : Coherent config.reportBatchSize w.rank)
    (op : WorkerOp) :
    Coherent config.reportBatchSize (w.step config op).rank := by
  have ht : ∀ key file time, anyFile key file → anyFile key { file with modified := time } :=
    fun _ _ _ h ↦ h
  cases op with
  | store hooked op =>
    exact h.changes (steps_storeStep hooked ht w.rank op fun _ _ _ h ↦ h).changes
  | commit oracle prefixes blockTables =>
    have hall : ∀ job, Allowed anyFile config.store job := fun _ _ _ _ _ _ ↦ trivial
    exact h.changes (changes_commitStorePlan oracle blockTables ht
      (fun job _ ↦ hall job) (fun _ _ _ ↦ hall _) h.honest)
  | removeEntry key => exact h.changes (changes_step ht w (.removeEntry key) rfl)
  | capacityBatch => exact h.changes (changes_step ht w .capacityBatch rfl)
  | rescan => exact h.changes (changes_step ht w .rescan rfl)
  | withdrawImage => exact h.changes (changes_step ht w .withdrawImage rfl)
  | stats =>
    unfold Worker.step
    dsimp only
    cases hr : getKvConnectorStats config w with
    | error e => exact h
    | ok out => exact (getKvConnectorStats_ok h hr).coherent

private theorem coherent_run {w : Worker} (h : Coherent config.reportBatchSize w.rank)
    (ops : List WorkerOp) :
    Coherent config.reportBatchSize (w.run config ops).rank := by
  induction ops generalizing w with
  | nil => exact h
  | cons op ops ih => exact ih (coherent_step h op)

/-! ### Startup -/

/-- The rounds of a startup are steps of a process without the hook. -/
theorem steps_capacityRounds {fileOk : Digest → TokenFile → Prop} (fuel : Nat) (s : RankState)
    (remaining : Nat) : Steps fileOk false s (capacityRounds config fuel s remaining) := by
  induction fuel generalizing s remaining with
  | zero => exact .refl false s
  | succ fuel ih =>
    have hb : Steps fileOk false s (maintainCapacityBatch false s config.triggerBytes remaining).1 :=
      steps_maintainCapacityBatch false s config.triggerBytes remaining
    unfold capacityRounds
    dsimp only
    split
    · exact hb
    · exact hb.trans (ih _ _)

/-- Candidates of a batch before it, `token_files.py:766`. -/
def capacityQuota (s : RankState) (remaining : Nat) : Nat :=
  if remaining = 0 then max 1 (s.files.size / 5) else remaining

private theorem candidatesRemaining_lt (hooked : Bool) (s : RankState)
    (triggerBytes remaining : Nat) :
    (maintainCapacityBatch hooked s triggerBytes remaining).2.candidatesRemaining <
      capacityQuota s remaining := by
  have hpos : 0 < capacityQuota s remaining := by
    unfold capacityQuota
    split <;> omega
  unfold maintainCapacityBatch
  split
  · exact hpos
  · change (if min 4 (capacityQuota s remaining) ≤ (evictionCandidates s).length then
      capacityQuota s remaining -
        ((evictionCandidates s).take (capacityQuota s remaining)).length else 0) < _
    rw [List.length_take]
    split <;> omega

/-- The rounds end: with as much fuel as there are candidates, more fuel changes nothing. -/
theorem capacityRounds_fuel {fuel : Nat} {s : RankState} {remaining : Nat}
    (h : capacityQuota s remaining ≤ fuel) (more : Nat) :
    capacityRounds config (fuel + more) s remaining = capacityRounds config fuel s remaining := by
  induction fuel generalizing s remaining with
  | zero =>
    have hlt := candidatesRemaining_lt false s config.triggerBytes remaining
    omega
  | succ fuel ih =>
    have hlt := candidatesRemaining_lt false s config.triggerBytes remaining
    rw [Nat.succ_add, capacityRounds, capacityRounds]
    dsimp only
    split
    · rfl
    · next hne =>
      apply ih
      rw [capacityQuota, if_neg hne]
      omega

/-- The worker that starts from backed offers is coherent, its reporter has just started, and the
image it starts with is live. -/
theorem startInventory_ok {reporterConfig : ReporterConfig} {s : RankState}
    {offers : List (Digest × Nat)} {w : Worker} {image : List Entry}
    (hoffers : ∀ e ∈ offers, Backed s e.1 e.2)
    (h : startInventory config reporterConfig s offers = .ok (w, image)) :
    Coherent config.reportBatchSize w.rank ∧
      (∃ mutations, w.rank.reporter = InventoryReporter.started reporterConfig mutations ∧
        image = InventoryReporter.startupImage reporterConfig mutations) ∧
      w.rank.files = s.files ∧ ∀ key span, (key, span) ∈ image → Live w.rank key span.val := by
  obtain ⟨r0, hr0, h⟩ := bind_ok h
  obtain ⟨⟨s1, selected, cursor⟩, hb, h⟩ := bind_ok h
  obtain ⟨rfl, hsel⟩ := withdrawMarkedKeys_ok hb
  cases h
  -- the reporter before `startup`: one replacement and the removal of every marked key
  have hmut : ∀ keys : List Digest, keys.foldl InventoryReporter.remove r0 =
      (Mutation.replace (offers.map rawOffer) :: keys.map Mutation.remove).foldl
        InventoryReporter.mutate (.create reporterConfig) := by
    intro keys
    have hrepl : (InventoryReporter.create reporterConfig).mutate
        (.replace (offers.map rawOffer)) = r0 := by
      simp only [InventoryReporter.mutate, hr0]
    rw [List.foldl_cons, hrepl, List.foldl_map]
    rfl
  have hhonest : Honest { s with reporter := r0 } := by
    intro key span hk
    have hheld : (replaceOffers (.create reporterConfig) offers).held.get? key = some span := by
      have he : replaceOffers (.create reporterConfig) offers = r0 := by
        simp only [replaceOffers, InventoryReporter.mutate, hr0]
      rw [he]
      exact hk
    rcases held_replaceOffers hheld with hmem | hold
    · have hb := hoffers _ hmem
      exact ⟨hb.absent, hb.present⟩
    · cases hold
  obtain ⟨started, hstarted⟩ : ∃ r, r = (s.markers.keys.foldl InventoryReporter.remove r0).startup.2 :=
    ⟨_, rfl⟩
  have hrun : started = InventoryReporter.started reporterConfig
      (Mutation.replace (offers.map rawOffer) :: s.markers.keys.map Mutation.remove) := by
    rw [hstarted, InventoryReporter.started, hmut]
  have hheld : started.held = (s.markers.keys.foldl InventoryReporter.remove r0).held := by
    rw [hstarted]
    rfl
  have hlive : ∀ key span, started.held.get? key = some span → Live s key span.val := by
    intro key span hk
    rw [hheld] at hk
    have hl := live_of_withdrawn hhonest hk
    exact ⟨hl.1, hl.2⟩
  have hcoherent : Coherent config.reportBatchSize { s with reporter := started } := by
    refine ⟨?_, ?_⟩
    · intro key span hk
      have hb := (hlive key span hk).1.backed
      exact ⟨hb.absent, hb.present⟩
    · change Consistent config.reportBatchSize started
      rw [hrun]
      exact (InventoryReporter.runInv_started reporterConfig config.reportBatchSize _).consistent
  have hn : ∀ key ∈ selected, key ∉ started.held.keys := by
    intro key hk
    rw [hheld]
    exact not_mem_held_withdrawAll (hsel key hk)
  obtain ⟨hc, hf, hr, hm⟩ := acknowledgeAbsent_spec anyFile
    (s := { s with reporter := started }) hn
  rw [hstarted] at hc hf hr hm hcoherent
  refine ⟨hcoherent.changes hc, ⟨_, hr.trans (hstarted.symm.trans hrun), ?_⟩, hf, ?_⟩
  · exact congrArg (fun r : InventoryReporter ↦ r.startup.1) (hmut s.markers.keys)
  · intro key span hk
    have hl := hlive key span (by
      rw [hheld]
      exact (OrderedDict.mem_sortedItems _ _ _).mp hk)
    exact Live.of_files hl hf hm

/-- The worker after startup: coherent, and its startup image is live, whatever other processes did
after the scan. -/
theorem registerKvCaches_ok {reporterConfig : ReporterConfig} {s : RankState}
    {between : List StoreOp} {w : Worker} {image : List Entry}
    (h : registerKvCaches config reporterConfig s between = .ok (w, image)) :
    Coherent config.reportBatchSize w.rank ∧
      ∀ key span, (key, span) ∈ image → Live w.rank key span.val := by
  have hsafe : Safes anyFile (prepareWorkerCatalog config s reporterConfig.bounds).1
      (between.foldl (storeStep config false)
        (prepareWorkerCatalog config s reporterConfig.bounds).1) :=
    steps_storeSteps false (fun _ _ _ h ↦ h) _ between fun _ _ _ _ _ h ↦ h
  have hoffers : ∀ e ∈ (prepareWorkerCatalog config s reporterConfig.bounds).2,
      Backed (prepareWorkerCatalog config s reporterConfig.bounds).1 e.1 e.2 := fun e he ↦
    (live_of_mem_offers (mem_offers_of_mem_scanOffers he)).1.1.backed
  obtain ⟨hs, -, -, hl⟩ := startInventory_ok (fun e he ↦ hsafe.backed (hoffers e he)) h
  exact ⟨hs, hl⟩

/-- Honest inventory: after startup every entry of the startup image is live, and in every run of
sections of the worker, its scrub thread and other processes, at every report every entry of the
observed image, which is the image of the checkpoint's sequence, is live. -/
theorem honest_inventory (config : WorkerConfig) (reporterConfig : ReporterConfig)
    (s : RankState) (between : List StoreOp) (w : Worker) (image : List Entry)
    (h : registerKvCaches config reporterConfig s between = .ok (w, image)) :
    (∀ key span, (key, span) ∈ image → Live w.rank key span.val) ∧
      ∀ (ops : List WorkerOp) (w' : Worker) (report : WorkerInventoryReport),
        getKvConnectorStats config (w.run config ops) = .ok (w', report) →
        report.checkpoint.sequence = w'.rank.reporter.sequence ∧
        ∀ key span, w'.rank.reporter.observed.get? key = some span →
          Live (w.run config ops).rank key span.val ∧ Live w'.rank key span.val := by
  obtain ⟨hs, hl⟩ := registerKvCaches_ok h
  refine ⟨hl, ?_⟩
  intro ops w' report hr
  have hrun := coherent_run hs ops
  have hrep := getKvConnectorStats_ok hrun hr
  exact ⟨hrep.sequence, fun key span hk ↦ hrep.live hrun.honest hk⟩

end

/-- A worker with one full group, room for four entries and two entries a report. -/
def sampleWorker : WorkerConfig :=
  ⟨⟨fullSampleLayout, 64, fun _ ↦ 1, sampleLayer.pageSizeBytes_pos⟩, 1024, 2⟩

/-- Its reporter. -/
def sampleReporter : ReporterConfig := sampleReporterConfig

/-- A root with two files of one chunk. -/
def sampleRoot : RankState where
  files := .ofItems [(.ofNat 5, ⟨some ⟨.data, none, 256⟩, true, 1, 100, 0⟩),
    (.ofNat 6, ⟨some ⟨.data, none, 256⟩, true, 2, 100, 1⟩)]
  markers := .empty
  pins := []
  reporter := .create sampleReporter

/-- Another process quarantines the remaining file, and the worker commits a new key. -/
def sampleSections : List WorkerOp :=
  [.store false (.quarantine (.ofNat 5)),
    .commit ⟨⟨fun _ ↦ .published, fun _ ↦ 3, fun _ ↦ 100, fun _ ↦ 2⟩, fun _ ↦ 4⟩ [⟨256, .ofNat 9⟩] [[1]]]

/-- Another process evicts one of two scanned files before the replacement: the startup image has
the other one only, and it is live. When that one is quarantined and a key is committed, the next
report observes the new key only, and it is live. -/
theorem honest_inventory_eviction_after_scan :
    scanOffers sampleWorker.store sampleRoot 4 = [(.ofNat 5, 256), (.ofNat 6, 256)] ∧
      ∃ w w' report,
        registerKvCaches sampleWorker sampleReporter sampleRoot [.evict (.ofNat 6)] =
          .ok (w, [(.ofNat 5, ⟨256, by decide⟩)]) ∧ Live w.rank (.ofNat 5) 256 ∧
        getKvConnectorStats sampleWorker (w.run sampleWorker sampleSections) = .ok (w', report) ∧
        w'.rank.reporter.observed.items = [(.ofNat 9, ⟨256, by decide⟩)] ∧
        Live w'.rank (.ofNat 9) 256 := by
  refine ⟨by decide +kernel, ?_⟩
  have hvalues : (do
      let out ← registerKvCaches sampleWorker sampleReporter sampleRoot [.evict (.ofNat 6)]
      let next ← getKvConnectorStats sampleWorker (out.1.run sampleWorker sampleSections)
      pure (out.2, next.1.rank.reporter.observed.items)) =
        .ok ([(.ofNat 5, ⟨256, by decide⟩)], [(.ofNat 9, ⟨256, by decide⟩)]) := by
    decide +kernel
  obtain ⟨⟨w, image⟩, h, hvalues⟩ := bind_ok hvalues
  obtain ⟨⟨w', report⟩, hr, hvalues⟩ := bind_ok hvalues
  obtain ⟨himage, hobserved⟩ := Prod.mk.inj (Except.ok.inj hvalues)
  dsimp only at himage hobserved
  subst himage
  obtain ⟨hstart, hreport⟩ := honest_inventory sampleWorker sampleReporter sampleRoot
    [.evict (.ofNat 6)] w _ h
  obtain ⟨-, hlive⟩ := hreport sampleSections w' report hr
  have hget : w'.rank.reporter.observed.get? (.ofNat 9) = some ⟨256, by decide⟩ := by
    rw [OrderedDict.get?_eq_some_iff, hobserved]
    exact List.mem_cons_self
  exact ⟨w, w', report, h, hstart _ _ List.mem_cons_self, hr, hobserved, (hlive _ _ hget).2⟩

end SpoolCache.Connector

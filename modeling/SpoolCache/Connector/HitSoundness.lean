import SpoolCache.Connector.Lookup
import SpoolCache.Connector.Restore
import SpoolCache.Quorum.Agreement
import SpoolCache.Quorum.Representation
import SpoolCache.Store.Inventory

/-!
# Lock-step hit soundness

Between two engine steps the catalog shows for a rank only what its reporter held at its last
report, what a reporter holds right after a report is live on its root, and every file was
published by a commit for a request of the run. So when the scheduler plans a load, every file of
the prefix is live on every rank, and each worker restores exactly these files.
-/

namespace SpoolCache.Connector

open SpoolCache.Base SpoolCache.Layout SpoolCache.Prefix SpoolCache.Quorum SpoolCache.Store
open QuorumCatalog (Call)
open InventoryReporter (Mutation Op Emission runOps started workerEmissions)

/-! ### Messages of a rank -/

/-- The messages are the startup image of a reporter and its reports so far, in order. -/
def Told (config : ReporterConfig) (batch : Nat) (messages : List Call) (r : InventoryReporter) :
    Prop :=
  ∃ mutations ops, r = runOps (some (batch : Int)) (started config mutations) ops ∧
    messages = startupCall config mutations ::
      (workerEmissions config (some (batch : Int)) mutations ops).map reportCall

section

variable {config : ReporterConfig} {batch : Nat} {messages : List Call} {r r' : InventoryReporter}

private theorem Told.mutated (h : Told config batch messages r) (hm : Mutated r r') :
    Told config batch messages r' := by
  obtain ⟨mutations, ops, rfl, rfl⟩ := h
  obtain ⟨more, rfl⟩ := hm
  obtain ⟨hr, he⟩ := InventoryReporter.run_mutations (some (batch : Int))
    (runOps (some (batch : Int)) (started config mutations) ops) more
  refine ⟨mutations, ops ++ more.map Op.mutate, ?_, ?_⟩
  · unfold runOps at hr ⊢
    rw [List.foldl_append]
    exact hr.symm
  · rw [workerEmissions, workerEmissions, InventoryReporter.emissions_append, he, List.append_nil]

/-- What the next report of a reporter appends, and what it held then. -/
theorem Told.report (h : Told config batch messages r) {report : WorkerInventoryReport}
    (hr : r.nextReport (some (batch : Int)) = .ok (report, r')) :
    Told config batch (messages ++ [.report report.toRaw]) r' ∧ report.rank = config.rank ∧
      ∀ {ranks : List PyInt} {bounds : InventoryBounds} {c : QuorumCatalog},
        QuorumCatalog.create ranks bounds = .ok c → config.rank ∈ c.expectedRanks →
        ∀ calls : List Call,
          calls.filter (fun m ↦ decide (m.rank? c.expectedRanks = some config.rank)) =
            messages ++ [.report report.toRaw] →
          ∀ k s, ((c.run calls).rankEntries config.rank).get? k = some s →
            r'.held.get? k = some s := by
  obtain ⟨mutations, ops, rfl, rfl⟩ := h
  have hstep : (runOps (some (batch : Int)) (started config mutations) ops).step
      (some (batch : Int)) .report = (r', some ⟨report, r'.held, r'.observed⟩) := by
    simp only [InventoryReporter.step, hr]
  have hemit : workerEmissions config (some (batch : Int)) mutations (ops ++ [.report]) =
      workerEmissions config (some (batch : Int)) mutations ops ++
        [⟨report, r'.held, r'.observed⟩] := by
    rw [workerEmissions, InventoryReporter.emissions_append, InventoryReporter.emissions, hstep]
    rfl
  refine ⟨⟨mutations, ops ++ [.report], ?_, ?_⟩, ?_, ?_⟩
  · rw [runOps, List.foldl_append, List.foldl_cons, List.foldl_nil]
    exact (congrArg Prod.fst hstep).symm
  · rw [hemit, List.map_append, List.cons_append]
    rfl
  · have hmem : (⟨report, r'.held, r'.observed⟩ : Emission) ∈
        workerEmissions config (some (batch : Int)) mutations (ops ++ [Op.report]) := by
      rw [hemit]
      simp
    exact (emissionOk_worker config (some (batch : Int)) mutations _ hmem).rank
  · intro ranks bounds c hc hrank calls hcalls k s hk
    have hsub : (workerEmissions config (some (batch : Int)) mutations ops ++
        [(⟨report, r'.held, r'.observed⟩ : Emission)]).Sublist
          (workerEmissions config (some (batch : Int)) mutations (ops ++ [Op.report])) := by
      rw [hemit]
    have hshown := shown_of_last_report hc hrank (List.Sublist.refl [startupCall config mutations])
      hsub hcalls
    rcases hshown with ⟨-, hempty⟩ | hheld
    · rw [hempty] at hk
      cases hk
    · exact hheld k s hk

end

/-! ### One rank in one step -/

section

variable {config : WorkerConfig} {reporter : ReporterConfig} {requests : List PrefixRequest}

/-- What holds for a rank between two engine steps. -/
structure RankInv (config : WorkerConfig) (reporter : ReporterConfig)
    (requests : List PrefixRequest) (messages : List Call) (w : Worker) : Prop where
  coherent : Coherent config.reportBatchSize w.rank
  files : FilesOk (Published config.store requests) w.rank
  told : Told reporter config.reportBatchSize messages w.rank.reporter
  live : ∀ k s, w.rank.reporter.held.get? k = some s → Live w.rank k s.val

/-- The part of the invariant that every step of the owner keeps. -/
structure Working (config : WorkerConfig) (reporter : ReporterConfig)
    (requests : List PrefixRequest) (messages : List Call) (s : RankState) : Prop where
  coherent : Coherent config.reportBatchSize s
  files : FilesOk (Published config.store requests) s
  told : Told reporter config.reportBatchSize messages s.reporter

private theorem Working.changes {messages : List Call} {s s' : RankState}
    (h : Working config reporter requests messages s)
    (hc : Changes (Published config.store requests) s s') :
    Working config reporter requests messages s' :=
  ⟨h.coherent.changes hc, hc.filesOk h.files, h.told.mutated hc.mutated⟩

/-- A store plan of the run is committed by steps of the owner. -/
theorem changes_storePlan {connector : ConnectorConfig}
    (hl : config.store.layout = connector.layout) {plan : SpoolCachePlan}
    (hp : Stores connector requests plan) (oracle : CommitOracle) {s : RankState}
    (hs : Honest s) :
    Changes (Published config.store requests) s
      (commitStorePlan config oracle s plan.keys plan.blockIdsByGroup) := by
  obtain ⟨r, hr, n, hk, hkeys⟩ := hp
  rw [← hl] at hk hkeys
  rw [hkeys]
  apply changes_commitStorePlan oracle plan.blockIdsByGroup published_touched _ _ hs
  · intro job hj
    rw [dataJobs_keys] at hj
    obtain ⟨i, hi, rfl⟩ := List.mem_map.mp hj
    exact allowed_of_origin ⟨r, hr, n, hk, i, List.mem_range.mp hi, .inl rfl⟩
  · intro _ tail htail
    cases n with
    | zero => cases htail
    | succ n =>
      rw [PrefixRequest.getLast?_keys] at htail
      cases htail
      exact allowed_of_origin ⟨r, hr, n + 1, hk, n, Nat.lt_succ_self n, .inr rfl⟩

private theorem working_commitStorePlans {connector : ConnectorConfig} {messages : List Call}
    (hl : config.store.layout = connector.layout) (oracles : Nat → CommitOracle)
    {plans : List SpoolCachePlan} (hp : ∀ plan ∈ plans, Stores connector requests plan)
    {s : RankState} (hs : Working config reporter requests messages s) :
    Working config reporter requests messages (commitStorePlans config oracles s plans) := by
  induction plans generalizing s with
  | nil => exact hs
  | cons plan plans ih =>
    apply ih fun p hmem ↦ hp p (List.mem_cons_of_mem _ hmem)
    exact hs.changes (changes_storePlan hl (hp plan List.mem_cons_self) _ hs.coherent.honest)

private theorem working_maintainCapacity {messages : List Call} {w : Worker}
    (hw : Working config reporter requests messages w.rank) :
    Working config reporter requests messages (maintainCapacity config w).rank := by
  have hbatch : Changes (Published config.store requests) w.rank (capacityBatch config w).1.rank :=
    changes_capacityBatch _ w
  have hb := hw.changes hbatch
  unfold maintainCapacity
  dsimp only
  split
  · exact hb
  · have hscan : Change (Published config.store requests) _
        (rescan config (capacityBatch config w).1.rank) := change_rescan _ _
    exact hb.changes (Relation.ReflTransGen.single hscan)

private theorem working_run {messages : List Call} {ops : List WorkerOp}
    (hq : ∀ op ∈ ops, op.quiet = true) {w : Worker}
    (hw : Working config reporter requests messages w.rank) :
    Working config reporter requests messages (w.run config ops).rank := by
  induction ops generalizing w with
  | nil => exact hw
  | cons op ops ih =>
    apply ih fun op' h ↦ hq op' (List.mem_cons_of_mem _ h)
    exact hw.changes (changes_step published_touched w op (hq op List.mem_cons_self))

/-- A rank whose loads are restorable goes through the step and sends its next report. -/
theorem rankInv_rankStep {connector : ConnectorConfig}
    (hinj : NoCollisions (universeInputs config.store.layout.chunkTokens requests))
    (hl : config.store.layout = connector.layout) {messages : List Call} {w w' : Worker}
    {input : RankInput} {metadata : SpoolCacheMetadata} {report : WorkerInventoryReport}
    (hw : RankInv config reporter requests messages w)
    (hloads : ∀ plan ∈ metadata.loads,
      ∃ r m, Restorable config.store.layout requests w.rank plan r m)
    (hstores : ∀ plan ∈ metadata.stores, Stores connector requests plan)
    (h : rankStep config input w metadata = .ok (w', report)) :
    RankInv config reporter requests (messages ++ [.report report.toRaw]) w' ∧
      report.rank = reporter.rank ∧
      ∀ {ranks : List PyInt} {bounds : InventoryBounds} {c : QuorumCatalog},
        QuorumCatalog.create ranks bounds = .ok c → reporter.rank ∈ c.expectedRanks →
        ∀ calls : List Call,
          calls.filter (fun m ↦ decide (m.rank? c.expectedRanks = some reporter.rank)) =
            messages ++ [.report report.toRaw] →
          ∀ k s, ((c.run calls).rankEntries reporter.rank).get? k = some s →
            w'.rank.reporter.held.get? k = some s := by
  obtain ⟨w1, hload, hreport⟩ := bind_ok h
  obtain ⟨s1, hs1, hrestored⟩ := restoreLoads_of_restorable hinj input.restoreTimes hw.files hloads
  have hworking : Working config reporter requests messages w1.rank := by
    have hstart : Working config reporter requests messages s1 :=
      Working.changes ⟨hw.coherent, hw.files, hw.told⟩ hrestored.steps.changes
    unfold startLoadKv at hload
    rw [hs1] at hload
    dsimp only at hload
    split at hload
    · cases hload
      exact hstart
    · cases hload
      apply working_maintainCapacity
      exact working_commitStorePlans hl input.commits hstores hstart
  have hrun := working_run input.quiet hworking
  generalize w1.run config input.sections = w2 at hrun hreport
  have hrep := getKvConnectorStats_ok hrun.coherent hreport
  have hwithdrawn : Mutated w2.rank.reporter
      (w2.rank.markers.keys.foldl InventoryReporter.remove w2.rank.reporter) :=
    ⟨w2.rank.markers.keys.map Mutation.remove, by rw [List.foldl_map]; rfl⟩
  obtain ⟨htold', hrank, hshown⟩ := (hrun.told.mutated hwithdrawn).report hrep.reporter
  refine ⟨⟨hrep.coherent, ?_, htold', ?_⟩, hrank, hshown⟩
  · intro key file hget
    rw [hrep.files] at hget
    exact hrun.files key file hget
  · intro k s hk
    rw [hrep.held] at hk
    exact Live.of_files (live_of_withdrawn hrun.coherent.honest hk) hrep.files hrep.markers

/-- The startup message of a rank with its image. -/
def startupMessage (reporter : ReporterConfig) (image : List Entry) : Call :=
  .startup (some reporter.rank) (some reporter.generation) (some reporter.generationEpoch)
    ⟨image.map rawEntry, none⟩

/-- The worker after its startup, when every file of its root was published. -/
theorem rankInv_registerKvCaches {s : RankState} {between : List StoreOp} {w : Worker}
    {image : List Entry} (hf : FilesOk (Published config.store requests) s)
    (hb : ∀ op ∈ between, op.intact = true)
    (h : registerKvCaches config reporter s between = .ok (w, image)) :
    RankInv config reporter requests [startupMessage reporter image] w ∧
      ∀ {ranks : List PyInt} {bounds : InventoryBounds} {c : QuorumCatalog},
        QuorumCatalog.create ranks bounds = .ok c → reporter.rank ∈ c.expectedRanks →
        ∀ calls : List Call,
          calls.filter (fun m ↦ decide (m.rank? c.expectedRanks = some reporter.rank)) =
            [startupMessage reporter image] →
          ∀ k s, ((c.run calls).rankEntries reporter.rank).get? k = some s →
            w.rank.reporter.held.get? k = some s := by
  have hprepare : Steps (Published config.store requests) false s
      (prepareWorkerCatalog config s reporter.bounds).1 := steps_capacityRounds _ _ _
  have hbetween : Steps (Published config.store requests) false
      (prepareWorkerCatalog config s reporter.bounds).1
      (between.foldl (storeStep config false)
        (prepareWorkerCatalog config s reporter.bounds).1) :=
    steps_storeSteps false published_touched _ between fun op hop hn ↦
      absurd (hn.symm.trans (hb op hop)) Bool.false_ne_true
  have hoffers : ∀ e ∈ (prepareWorkerCatalog config s reporter.bounds).2,
      Backed (prepareWorkerCatalog config s reporter.bounds).1 e.1 e.2 := fun e he ↦
    (live_of_mem_offers (mem_offers_of_mem_scanOffers he)).1.1.backed
  have hsafe : Safes (Published config.store requests) _ _ := hbetween
  obtain ⟨hcoherent, ⟨mutations, hreporter, rfl⟩, hfiles, hlive⟩ :=
    startInventory_ok (fun e he ↦ hsafe.backed (hoffers e he)) h
  refine ⟨⟨hcoherent, ?_, ⟨mutations, [], hreporter, rfl⟩, ?_⟩, ?_⟩
  · intro key file hget
    rw [hfiles] at hget
    exact hbetween.changes.filesOk (hprepare.changes.filesOk hf) key file hget
  · intro k span hk
    rw [hreporter] at hk
    exact hlive k span ((OrderedDict.mem_sortedItems _ _ _).mpr hk)
  · intro ranks bounds c hc hrank calls hcalls k span hk
    rw [hreporter]
    exact shown_of_startup hc hrank hcalls hk

end

/-! ### The engine -/

private theorem filter_range_eq {n i : Nat} (hi : i < n) :
    (List.range n).filter (fun j ↦ decide (j = i)) = [i] := by
  have hc : (List.range n).count i = 1 :=
    List.count_eq_one_of_mem List.nodup_range (List.mem_range.mpr hi)
  have hf : (List.range n).filter (fun j ↦ decide (j = i)) =
      (List.range n).filter (fun j ↦ j == i) :=
    List.filter_congr fun j _ ↦ (beq_eq_decide j i).symm
  rw [hf, List.filter_beq, hc]
  rfl

/-- Of one message for every rank, one is about a rank. -/
theorem filter_messages {n i : Nat} (hi : i < n) {message : Nat → Call}
    (h : ∀ j < n, (message j).rank? (Finset.range n) = some j) :
    ((List.range n).map message).filter (fun m ↦ decide (m.rank? (Finset.range n) = some i)) =
      [message i] := by
  rw [List.filter_map]
  have hf : (List.range n).filter
      ((fun m : Call ↦ decide (m.rank? (Finset.range n) = some i)) ∘ message) =
      (List.range n).filter fun j ↦ decide (j = i) := by
    apply List.filter_congr
    intro j hj
    rw [Function.comp_apply, h j (List.mem_range.mp hj)]
    simp
  rw [hf, filter_range_eq hi]
  rfl

private theorem expectedRank?_range {n i : Nat} (hi : i < n) :
    QuorumCatalog.expectedRank? (Finset.range n) (some (i : Int)) = some i := by
  have h : (0 : Int) ≤ (i : Int) ∧ (i : Int).toNat ∈ Finset.range n :=
    ⟨by omega, by rw [Int.toNat_natCast]; exact Finset.mem_range.mpr hi⟩
  change (if (0 : Int) ≤ (i : Int) ∧ (i : Int).toNat ∈ Finset.range n then some (i : Int).toNat
    else none) = some i
  rw [if_pos h, Int.toNat_natCast]

private theorem create_range {n : Nat} {bounds : InventoryBounds} {c : QuorumCatalog}
    (h : QuorumCatalog.create ((List.range n).map fun i : Nat ↦ some (i : Int)) bounds = .ok c) :
    c = QuorumCatalog.fresh bounds (Finset.range n) := by
  unfold QuorumCatalog.create QuorumCatalog.expectedRanksOf at h
  dsimp only at h
  split at h
  · next hvalid =>
    have hlen := hvalid.2.2.2
    rw [List.length_take, List.length_map, List.length_range] at hlen
    cases h
    rw [List.length_take, List.length_map, List.length_range, Nat.min_eq_right (by omega)]
  · cases h

section

variable {config : EngineConfig} {salts : List String} {requests : List PrefixRequest}

/-- What holds between two engine steps, for the calls that reached the catalog so far. -/
structure EngineInv (config : EngineConfig) (salts : List String) (requests : List PrefixRequest)
    (c : QuorumCatalog) (calls : List Call) (e : Engine) : Prop where
  scheduler : Building config.connector salts requests (some (c.run calls)) e.scheduler
  ranks : ∀ i < config.ranks, RankInv (config.worker i) (config.reporter i) requests
    (calls.filter fun m ↦ decide (m.rank? (Finset.range config.ranks) = some i)) (e.workers i)
  shown : ∀ i < config.ranks, ∀ k s, ((c.run calls).rankEntries i).get? k = some s →
    (e.workers i).rank.reporter.held.get? k = some s

/-- An offered prefix is live on every rank. -/
theorem restorable_of_names {calls : List Call} {e : Engine}
    (he : EngineInv config salts requests
      (.fresh config.bounds (Finset.range config.ranks)) calls e) {plan : SpoolCachePlan}
    (hn : Names config.connector requests
      ((QuorumCatalog.fresh config.bounds (Finset.range config.ranks)).run calls)
      plan.entryId plan.spanTokens)
    (hp : ∃ pages, config.connector.layout.selectPhysicalPages plan.blockIdsByGroup
      plan.spanTokens = .ok pages) {i : Nat} (hi : i < config.ranks) :
    ∃ r m, Restorable config.connector.layout requests (e.workers i).rank plan r m := by
  obtain ⟨r, hr, m, ho, hentry, hspan⟩ := hn
  refine ⟨r, m, hr, ho.keyed, hentry, hspan, hp, ?_⟩
  have hlive : ∀ key span, ((QuorumCatalog.fresh config.bounds
      (Finset.range config.ranks)).run calls).hasQuorum key (some span) = true →
      Live (e.workers i).rank key span := by
    intro key span hq
    have hrep := QuorumCatalog.repInv_run_fresh config.bounds (Finset.range config.ranks) calls
    have hmem : i ∈ ((QuorumCatalog.fresh config.bounds
        (Finset.range config.ranks)).run calls).expectedRanks := by
      rw [(QuorumCatalog.frame_run _ calls).2.1]
      exact Finset.mem_range.mpr hi
    obtain ⟨-, hget⟩ := QuorumCatalog.agreed_of_hasQuorum hrep hq i hmem
    obtain ⟨s, hs, hval⟩ := Option.map_eq_some_iff.mp hget
    rw [← hval]
    exact (he.ranks i hi).live key s (he.shown i hi key s hs)
  refine ⟨fun j hj ↦ hlive _ _ (ho.data j hj), ?_⟩
  intro hb
  apply hlive
  have hstate := ho.state
  unfold hasBoundaryQuorum at hstate
  rw [hb] at hstate
  exact hstate

/-- Every engine step keeps the invariant. -/
theorem engineInv_step
    (hinj : NoCollisions (universeInputs config.connector.layout.chunkTokens requests))
    {c : QuorumCatalog} {calls : List Call} {e : Engine} {input : EngineInput}
    {st : SchedulerState} {metadata : SpoolCacheMetadata} {workers : Nat → Worker}
    {reports : Nat → WorkerInventoryReport}
    (hc : QuorumCatalog.create ((List.range config.ranks).map fun i : Nat ↦ some (i : Int))
      config.bounds = .ok c)
    (he : EngineInv config salts requests c calls e)
    (hin : Within config.connector salts requests input)
    (hs : schedule config.connector e.scheduler input = .ok (st, metadata))
    (hr : ∀ i < config.ranks, rankStep (config.worker i) (input.ranks i) (e.workers i) metadata =
      .ok (workers i, reports i)) :
    ∃ calls', EngineInv config salts requests c calls'
      ⟨updateConnectorOutput config st reports, workers⟩ := by
  obtain rfl := create_range hc
  have hplans := scheduled_of_schedule he.scheduler hin hs
  have hranks : ∀ i (hi : i < config.ranks), _ := fun i hi ↦
    rankInv_rankStep (config.layout_eq i hi ▸ hinj) (config.layout_eq i hi) (he.ranks i hi)
      (fun plan hp ↦ by
        obtain ⟨hn, hpages⟩ := hplans.loads plan hp
        rw [config.layout_eq i hi]
        exact restorable_of_names he hn hpages hi) hplans.stores (hr i hi)
  -- the reports carry the ranks of their workers
  have hrank : ∀ j < config.ranks, (Call.report (reports j).toRaw).rank?
      (Finset.range config.ranks) = some j := by
    intro j hj
    change QuorumCatalog.expectedRank? _ (some ((reports j).rank : Int)) = some j
    rw [(hranks j hj).2.1, config.rank_eq j hj]
    exact expectedRank?_range hj
  have hfilter : ∀ i < config.ranks, (calls ++ ((List.range config.ranks).map
      (fun j ↦ Call.report (reports j).toRaw) ++ [Call.readQuorumCount])).filter
        (fun m ↦ decide (m.rank? (Finset.range config.ranks) = some i)) =
      calls.filter (fun m ↦ decide (m.rank? (Finset.range config.ranks) = some i)) ++
        [.report (reports i).toRaw] := by
    intro i hi
    rw [List.filter_append, List.filter_append, filter_messages hi hrank]
    rfl
  refine ⟨calls ++ ((List.range config.ranks).map (fun j ↦ Call.report (reports j).toRaw) ++
    [Call.readQuorumCount]), ?_, ?_, ?_⟩
  · refine ⟨?_, hplans.built.loads, hplans.built.known.salt, hplans.built.known.progress⟩
    change st.catalog.map _ = _
    rw [hplans.built.catalog, Option.map_some, ← QuorumCatalog.run_append]
  · intro i hi
    rw [hfilter i hi]
    exact (hranks i hi).1
  · intro i hi k s hk
    have hmem : (config.reporter i).rank ∈ Finset.range config.ranks := by
      rw [config.rank_eq i hi]
      exact Finset.mem_range.mpr hi
    have hlast := (hranks i hi).2.2 hc hmem
    rw [config.rank_eq i hi] at hlast
    exact hlast _ (hfilter i hi) k s hk

/-- The invariant holds when the workers have started. -/
theorem engineInv_start {roots : Nat → RankState} {c : QuorumCatalog} {workers : Nat → Worker}
    {images : Nat → List Entry} {between : Nat → List StoreOp}
    (hroots : ∀ i < config.ranks, FilesOk (Published (config.worker i).store requests) (roots i))
    (hc : QuorumCatalog.create ((List.range config.ranks).map fun i : Nat ↦ some (i : Int))
      config.bounds = .ok c)
    (hb : ∀ i < config.ranks, ∀ op ∈ between i, op.intact = true)
    (hw : ∀ i < config.ranks, registerKvCaches (config.worker i) (config.reporter i) (roots i)
      (between i) = .ok (workers i, images i)) :
    EngineInv config salts requests c (handshake config images)
      ⟨{ SchedulerState.initial with catalog := some (c.run (handshake config images)) },
        workers⟩ := by
  obtain rfl := create_range hc
  have hrank : ∀ j < config.ranks, (startupMessage (config.reporter j) (images j)).rank?
      (Finset.range config.ranks) = some j := by
    intro j hj
    change QuorumCatalog.expectedRank? _ (some ((config.reporter j).rank : Int)) = some j
    rw [config.rank_eq j hj]
    exact expectedRank?_range hj
  have hfilter : ∀ i < config.ranks, (handshake config images).filter
      (fun m ↦ decide (m.rank? (Finset.range config.ranks) = some i)) =
        [startupMessage (config.reporter i) (images i)] := fun i hi ↦ filter_messages hi hrank
  have hranks : ∀ i (hi : i < config.ranks), _ := fun i hi ↦
    rankInv_registerKvCaches (hroots i hi) (hb i hi) (hw i hi)
  refine ⟨⟨rfl, rfl, ?_, ?_⟩, ?_, ?_⟩
  · intro id salt h
    cases h
  · intro id progress h
    cases h
  · intro i hi
    rw [hfilter i hi]
    exact (hranks i hi).1
  · intro i hi k s hk
    have hmem : (config.reporter i).rank ∈ Finset.range config.ranks := by
      rw [config.rank_eq i hi]
      exact Finset.mem_range.mpr hi
    have hstart := (hranks i hi).2 hc hmem
    rw [config.rank_eq i hi] at hstart
    exact hstart _ (hfilter i hi) k s hk

private theorem engineInv_of_reachable
    (hinj : NoCollisions (universeInputs config.connector.layout.chunkTokens requests))
    {roots : Nat → RankState}
    (hroots : ∀ i < config.ranks, FilesOk (Published (config.worker i).store requests) (roots i))
    {inputs : List EngineInput} {e : Engine} (h : Reachable config roots inputs e)
    (hin : ∀ input ∈ inputs, Within config.connector salts requests input) :
    ∃ c calls, QuorumCatalog.create ((List.range config.ranks).map fun i : Nat ↦ some (i : Int))
      config.bounds = .ok c ∧ EngineInv config salts requests c calls e := by
  induction h with
  | start hc hb hw => exact ⟨_, _, hc, engineInv_start hroots hc hb hw⟩
  | step reached hs hr ih =>
    obtain ⟨c, calls, hc, he⟩ := ih fun input h ↦ hin input (List.mem_append_left _ h)
    obtain ⟨calls', he'⟩ := engineInv_step hinj hc he (hin _ (by simp)) hs hr
    exact ⟨c, calls', hc, he'⟩

end

/-! ### Hits -/

/-- A snapshot of exactly the first chunks of a request: a data file for each of them, and the
state file of the entry where the layout has boundary state. -/
structure WholePrefix (l : HMALayout) (requests : List PrefixRequest) (plan : SpoolCachePlan)
    (snapshot : TokenSnapshot) : Prop where
  entryId : snapshot.entryId = plan.entryId
  spanTokens : snapshot.spanTokens = plan.spanTokens
  data : (snapshot.objects.filter fun o ↦ decide (o.kind = .data)).map
      TokenFileDescriptor.spanTokens =
    (List.range (plan.spanTokens / l.chunkTokens)).map fun i ↦ (i + 1) * l.chunkTokens
  state : (snapshot.objects.filter fun o ↦ decide (o.kind = .state)).map
      TokenFileDescriptor.key =
    if l.hasBoundaryState then [boundaryStateKey plan.entryId] else []
  files : ∃ r ∈ requests, plan.entryId = r.key l.chunkTokens (plan.spanTokens / l.chunkTokens) ∧
    snapshot = prefixSnapshot l r (plan.spanTokens / l.chunkTokens)

private theorem wholePrefix_prefixSnapshot {l : HMALayout} {requests : List PrefixRequest}
    {plan : SpoolCachePlan} {r : PrefixRequest} (hr : r ∈ requests) {n : Nat}
    (he : plan.entryId = r.key l.chunkTokens n) (hs : plan.spanTokens = n * l.chunkTokens) :
    WholePrefix l requests plan (prefixSnapshot l r n) := by
  have hdiv : plan.spanTokens / l.chunkTokens = n := by
    rw [hs, Nat.mul_div_cancel _ l.chunkTokens_pos]
  have hdata : (dataJobs (r.keys l.chunkTokens n)).map (describe l) =
      (List.range n).map fun i ↦ describe l (dataJob r l.chunkTokens i) := by
    rw [dataJobs_keys, List.map_map]
    rfl
  have hobjects : (prefixSnapshot l r n).objects =
      ((List.range n).map fun i ↦ describe l (dataJob r l.chunkTokens i)) ++
        if l.hasBoundaryState then [describe l (stateJob ⟨n * l.chunkTokens, r.key l.chunkTokens n⟩)]
        else [] := by
    unfold prefixSnapshot prefixJobs
    dsimp only
    rw [List.map_append, hdata]
    split <;> rfl
  refine ⟨he.symm, hs.symm, ?_, ?_, r, hr, ?_, ?_⟩
  · rw [hobjects, hdiv, List.filter_append, List.filter_eq_self.mpr, List.filter_eq_nil_iff.mpr,
      List.append_nil, List.map_map]
    · rfl
    · intro o ho
      split at ho
      · rw [List.mem_singleton.mp ho]
        simp [describe, stateJob]
      · cases ho
    · intro o ho
      obtain ⟨i, -, rfl⟩ := List.mem_map.mp ho
      simp [describe, dataJob]
  · rw [hobjects, he, List.filter_append, List.filter_eq_nil_iff.mpr, List.nil_append]
    · split
      · simp [describe, stateJob]
      · rfl
    · intro o ho
      obtain ⟨i, -, rfl⟩ := List.mem_map.mp ho
      simp [describe, dataJob]
  · rw [hdiv]
    exact he
  · rw [hdiv]

/-- Lock-step hit soundness: in every run of engine steps, from roots whose files were published
for earlier requests and without a collision in what is hashed, every load plan of the next step is
a hit on every rank. The loads before it succeed, the view of its entry is exactly its prefix, and
the whole restore succeeds. -/
theorem lock_step_hit_soundness (config : EngineConfig) (roots : Nat → RankState)
    (earlier : List PrefixRequest) (inputs : List EngineInput) (input : EngineInput) (e : Engine)
    (st : SchedulerState) (metadata : SpoolCacheMetadata)
    (hinj : NoCollisions (universeInputs config.connector.layout.chunkTokens
      (earlier ++ runRequests config.connector (inputs ++ [input]))))
    (hroots : ∀ i < config.ranks, FilesOk (Published (config.worker i).store earlier) (roots i))
    (hreach : Reachable config roots inputs e)
    (hs : schedule config.connector e.scheduler input = .ok (st, metadata))
    (before after : List SpoolCachePlan) (plan : SpoolCachePlan)
    (hload : metadata.loads = before ++ plan :: after) (i : Nat) (hi : i < config.ranks)
    (times : Nat → Nat → Nat) :
    ∃ s snapshot,
      restoreLoads (config.worker i) times (e.workers i).rank before = (s, .ok ()) ∧
      (restoreView (config.worker i).store true s plan.entryId).2 = .ok (some snapshot) ∧
      WholePrefix config.connector.layout
        (earlier ++ runRequests config.connector (inputs ++ [input])) plan snapshot ∧
      (restoreEntry (config.worker i) (times after.length) s plan).2 = .ok snapshot := by
  obtain ⟨requests, hrequests⟩ : ∃ requests, requests =
      earlier ++ runRequests config.connector (inputs ++ [input]) := ⟨_, rfl⟩
  have hwithin : ∀ input' ∈ inputs ++ [input],
      Within config.connector (runSalts (inputs ++ [input])) requests input' := by
    intro input' h
    rw [hrequests]
    exact within_run h earlier
  rw [← hrequests] at hinj ⊢
  have hroots' : ∀ i < config.ranks,
      FilesOk (Published (config.worker i).store requests) (roots i) := by
    intro j hj key file hget
    obtain ⟨ha, header, segments, hh, hp, r, hr, horigin⟩ := hroots j hj key file hget
    exact ⟨ha, header, segments, hh, hp, r, hrequests ▸ List.mem_append_left _ hr, horigin⟩
  obtain ⟨c, calls, hc, he⟩ := engineInv_of_reachable hinj hroots' hreach fun input' h ↦
    hwithin input' (List.mem_append_left _ h)
  obtain rfl := create_range hc
  have hplans := scheduled_of_schedule he.scheduler (hwithin input (by simp)) hs
  have hlayout := config.layout_eq i hi
  have hrestorable : ∀ p ∈ metadata.loads, ∃ r m,
      Restorable (config.worker i).store.layout requests (e.workers i).rank p r m := by
    intro p hp
    obtain ⟨hn, hpages⟩ := hplans.loads p hp
    rw [hlayout]
    exact restorable_of_names he hn hpages hi
  rw [hload] at hrestorable
  rw [← hlayout] at hinj ⊢
  obtain ⟨s, hbefore, hrestored⟩ := restoreLoads_of_restorable hinj times (he.ranks i hi).files
    fun p hp ↦ hrestorable p (List.mem_append_left _ hp)
  obtain ⟨r, m, hplan⟩ := hrestorable plan (by simp)
  have hplan' := hplan.of_live hrestored.live
  have hfiles := hrestored.steps.changes.filesOk (he.ranks i hi).files
  obtain ⟨s', hentry, -⟩ := restoreEntry_of_restorable hinj hfiles hplan' (times after.length)
  refine ⟨s, _, hbefore, ?_, wholePrefix_prefixSnapshot hplan.request hplan.entryId
    hplan.spanTokens, ?_⟩
  · rw [restoreView_of_restorable hinj hfiles hplan']
  · rw [hentry]

/-- A prompt of one chunk and one token. -/
def samplePrefix : PrefixRequest := ⟨.ofNat 7, "", List.replicate 257 0, []⟩

/-- The key of its first chunk. -/
def sampleEntry : Digest :=
  .ofNat 33509512533090496868781870164266611675673921706344860439390720672573290967476

private theorem digests_samplePrefix :
    samplePrefix.digests 256 (some (chunkBoundaries 256 256)) = .ok [⟨256, sampleEntry⟩] :=
  digests_inventoryPrompt

/-- Two workers with one full group. -/
def sampleEngine : EngineConfig where
  connector := ⟨.ofNat 7, fullSampleLayout, []⟩
  bounds := sampleReporter.bounds
  ranks := 2
  worker := fun _ ↦ sampleWorker
  reporter := fun i ↦ ⟨i % 2, "g", 1, sampleReporter.bounds,
    (Nat.mod_lt i Nat.zero_lt_two).trans (by decide), generation_ne_empty, length_generation_le,
    one_le_maxCounter⟩
  layout_eq := fun _ _ ↦ rfl
  rank_eq := fun _ hi ↦ Nat.mod_eq_of_lt hi

/-- A root with the file of the prompt's first chunk. -/
def sampleFiles (i : Nat) : RankState where
  files := .ofItems [(sampleEntry, ⟨some ⟨.data, none, 256⟩, true, 1, 100, 0⟩)]
  markers := .empty
  pins := []
  reporter := .create (sampleEngine.reporter i)

/-- A step without requests. -/
def idleStep : EngineInput where
  calls := []
  output := ⟨[], [], [], .empty⟩
  ranks := fun _ ↦ ⟨fun _ _ ↦ 0,
    fun _ ↦ ⟨⟨fun _ ↦ .published, fun _ ↦ 0, fun _ ↦ 0, fun _ ↦ 0⟩, fun _ ↦ 0⟩, [],
    fun op hop ↦ (by cases hop)⟩

/-- A request with the prompt. -/
def promptRequest : Request :=
  ⟨"r", .absent, false, false, some (List.replicate 257 0), false, false, .absent false⟩

/-- A step that looks the prompt up and allocates its page. -/
def lookupStep : EngineInput :=
  { idleStep with calls := [.lookup promptRequest (some 0), .alloc promptRequest [[some 5]]] }

private theorem matchedPrefix_promptRequest {c : QuorumCatalog}
    (hq : c.hasQuorum sampleEntry (some 256) = true) :
    matchedPrefix sampleEngine.connector c promptRequest (some 0) =
      .ok (some (256, sampleEntry)) := by
  have hd : connectorDigests sampleEngine.connector (List.replicate 257 0) "" []
      (chunkBoundaries 256 256) = .ok [⟨256, sampleEntry⟩] := digests_samplePrefix
  have hs : selectPrefix sampleEngine.connector c 256 [⟨256, sampleEntry⟩] none =
      some (256, sampleEntry) := by
    unfold selectPrefix
    rw [if_neg (by rw [not_not]; exact hq), if_pos ⟨le_rfl, by decide +kernel, rfl⟩]
    rfl
  have hbody : matchedPrefix sampleEngine.connector c promptRequest (some 0) = (do
      let candidates ← connectorDigests sampleEngine.connector (List.replicate 257 0) "" []
        (chunkBoundaries 256 256)
      pure (selectPrefix sampleEngine.connector c 256 candidates none)) := by
    have hsalt : requestCacheSalt promptRequest = some "" := rfl
    have htokens : eligibleTokenIds promptRequest.promptTokenIds promptRequest.promptEmbeds
        promptRequest.loraRequest = some (List.replicate 257 0) := rfl
    have hmedia : multimodalFeatureIdentities promptRequest.media 257
        sampleEngine.connector.multimodalModalities = some [] := rfl
    have hchunk : sampleEngine.connector.layout.chunkTokens = 256 := by decide +kernel
    have hceiling : sampleEngine.connector.layout.safeRestoreSpan 257 = 256 := by decide +kernel
    unfold matchedPrefix
    simp only [hsalt, htokens, List.length_replicate, hmedia, hchunk, hceiling]
    rfl
  rw [hbody, hd]
  exact congrArg Except.ok hs

private theorem schedule_lookupStep {c : QuorumCatalog} {st : SchedulerState}
    (hc : st.catalog = some c) (hl : st.needLoad = .empty)
    (hp : st.pendingLoads = .empty) (hq : c.hasQuorum sampleEntry (some 256) = true) :
    ∃ st' metadata, schedule sampleEngine.connector st lookupStep = .ok (st', metadata) ∧
      metadata.loads = [⟨"r", sampleEntry, 256, [[5]], []⟩] := by
  obtain ⟨catalog, needLoad, pendingLoads, storeProgress, requestSalts, skip⟩ := st
  dsimp only at hc hl hp
  subst hc hl hp
  have hmatch := matchedPrefix_promptRequest hq
  have hlookup : getNumNewMatchedTokens sampleEngine.connector ⟨some c, .empty, .empty,
      storeProgress, requestSalts, skip⟩ promptRequest (some 0) =
      .ok (⟨some c, .ofItems [("r", sampleEntry, 256, 256)], .empty, storeProgress, requestSalts,
        skip⟩, 256) := by
    unfold getNumNewMatchedTokens
    simp only [hmatch]
    rfl
  have hloads : (schedule sampleEngine.connector ⟨some c, .empty, .empty, storeProgress,
      requestSalts, skip⟩ lookupStep).map (fun p ↦ p.2.loads) =
      .ok [⟨"r", sampleEntry, 256, [[5]], []⟩] := by
    unfold schedule
    simp only [lookupStep, schedulerCalls, schedulerCall, hlookup]
    rfl
  cases h : schedule sampleEngine.connector ⟨some c, .empty, .empty, storeProgress, requestSalts,
      skip⟩ lookupStep with
  | error e =>
    rw [h] at hloads
    cases hloads
  | ok out =>
    rw [h] at hloads
    exact ⟨out.1, out.2, rfl, Except.ok.inj hloads⟩

/-- A function on two ranks. -/
def onRanks {α : Type} (a b : α) (i : Nat) : α := if i = 0 then a else b

private theorem onRanks_ok {α : Type} {f : Nat → Except PyError α} {a b : α} (ha : f 0 = .ok a)
    (hb : f 1 = .ok b) : ∀ i < 2, f i = .ok (onRanks a b i) := by
  intro i hi
  rcases Nat.lt_succ_iff_lt_or_eq.mp hi with h | rfl
  · obtain rfl := Nat.lt_one_iff.mp h
    exact ha
  · exact hb

private theorem chunkTokens_fullSampleLayout :
    fullSampleLayout.chunkTokens = 256 := by decide +kernel

private theorem key_samplePrefix : samplePrefix.key 256 1 = sampleEntry := by
  obtain ⟨-, hkeys⟩ := PrefixRequest.keyed_of_digests
    (show samplePrefix.digests 256 (some (chunkBoundaries 256 (1 * 256))) = _
      from digests_samplePrefix)
  rw [PrefixRequest.keys, List.range_one, List.map_singleton, List.cons.injEq,
    PrefixDigest.mk.injEq] at hkeys
  exact hkeys.1.2.symm

private theorem noCollisions_samplePrefix :
    NoCollisions (universeInputs fullSampleLayout.chunkTokens ([samplePrefix] ++
      runRequests sampleEngine.connector ([idleStep] ++ [lookupStep]))) := by
  rw [chunkTokens_fullSampleLayout]
  have hrequests : runRequests sampleEngine.connector ([idleStep] ++ [lookupStep]) =
      [samplePrefix] := by decide +kernel
  have hinj : NoCollisions (universeInputs 256 [samplePrefix]) := noCollisions_inventoryPrompt
  rw [hrequests]
  apply hinj.mono
  unfold universeInputs
  rw [List.flatMap_append]
  exact List.append_subset.mpr ⟨List.Subset.refl _, List.Subset.refl _⟩

private theorem filesOk_sampleFiles (i : Nat) :
    FilesOk (Published (sampleEngine.worker i).store [samplePrefix]) (sampleFiles i) := by
  intro key file hget
  rw [OrderedDict.get?_eq_some_iff] at hget
  obtain ⟨rfl, rfl⟩ := Prod.mk.inj (List.mem_singleton.mp hget)
  obtain ⟨segments, hsegments⟩ : ∃ segments,
      headerPayload sampleWorker.store sampleEntry ⟨.data, none, 256⟩ = .ok segments := ⟨_, rfl⟩
  have hkeyed : samplePrefix.Keyed 256 1 := (PrefixRequest.keyed_of_digests
    (show samplePrefix.digests 256 (some (chunkBoundaries 256 (1 * 256))) = _
      from digests_samplePrefix)).1
  have hjob : dataJob samplePrefix 256 0 = ⟨sampleEntry, .data, none, 256⟩ := by
    unfold dataJob
    rw [key_samplePrefix]
    rfl
  refine ⟨rfl, ⟨.data, none, 256⟩, segments, rfl, hsegments, ?_⟩
  change Origin fullSampleLayout.chunkTokens [samplePrefix] ⟨sampleEntry, .data, none, 256⟩
  rw [chunkTokens_fullSampleLayout, ← hjob]
  exact ⟨samplePrefix, List.mem_cons_self, 1, hkeyed, 0, Nat.zero_lt_one, .inl rfl⟩

/-- After a step without requests, the lookup of a prompt whose first chunk is on both roots plans
a load, and the second rank finds exactly its file. -/
theorem lock_step_hit_soundness_two_ranks :
    ∃ e st metadata plan snapshot, Reachable sampleEngine sampleFiles [idleStep] e ∧
      schedule sampleEngine.connector e.scheduler lookupStep = .ok (st, metadata) ∧
      metadata.loads = [plan] ∧
      (restoreView sampleWorker.store true (e.workers 1).rank plan.entryId).2 =
        .ok (some snapshot) ∧ snapshot.spanTokens = 256 := by
  have hvalues : (do
      let first ← registerKvCaches sampleWorker (sampleEngine.reporter 0) (sampleFiles 0) []
      let second ← registerKvCaches sampleWorker (sampleEngine.reporter 1) (sampleFiles 1) []
      let next ← rankStep sampleWorker (idleStep.ranks 0) first.1 ⟨[], []⟩
      let after ← rankStep sampleWorker (idleStep.ranks 1) second.1 ⟨[], []⟩
      pure ((((QuorumCatalog.fresh sampleEngine.bounds (Finset.range 2)).run
        (handshake sampleEngine fun i ↦ (onRanks first second i).2)).run
          [.report next.2.toRaw, .report after.2.toRaw, .readQuorumCount]).hasQuorum sampleEntry
            (some 256))) = .ok true := by decide +kernel
  obtain ⟨first, hfirst, hvalues⟩ := bind_ok hvalues
  obtain ⟨second, hsecond, hvalues⟩ := bind_ok hvalues
  obtain ⟨next, hnext, hvalues⟩ := bind_ok hvalues
  obtain ⟨after, hafter, hvalues⟩ := bind_ok hvalues
  have hq := Except.ok.inj hvalues
  let c := (QuorumCatalog.fresh sampleEngine.bounds (Finset.range 2)).run
    (handshake sampleEngine fun i ↦ (onRanks first second i).2)
  let st₀ : SchedulerState := { SchedulerState.initial with catalog := some c }
  have hstart : Reachable sampleEngine sampleFiles []
      ⟨st₀, fun i ↦ (onRanks first second i).1⟩ :=
    .start rfl (show ∀ i < 2, ∀ op ∈ ([] : List StoreOp), op.intact = true
        from fun _ _ op hop ↦ (by cases hop))
      (onRanks_ok (f := fun i ↦ registerKvCaches sampleWorker (sampleEngine.reporter i)
        (sampleFiles i) []) hfirst hsecond)
  let e : Engine := ⟨updateConnectorOutput sampleEngine st₀ fun i ↦ (onRanks next after i).2,
    fun i ↦ (onRanks next after i).1⟩
  have hstep : Reachable sampleEngine sampleFiles ([] ++ [idleStep]) e :=
    .step hstart (show schedule sampleEngine.connector st₀ idleStep = .ok (st₀, ⟨[], []⟩) from rfl)
      (onRanks_ok (f := fun i ↦ rankStep sampleWorker (idleStep.ranks i)
        (onRanks first second i).1 ⟨[], []⟩) hnext hafter)
  have hlookup : ∃ st' metadata, schedule sampleEngine.connector e.scheduler lookupStep =
      .ok (st', metadata) ∧ metadata.loads = [⟨"r", sampleEntry, 256, [[5]], []⟩] :=
    schedule_lookupStep rfl rfl rfl hq
  obtain ⟨st, metadata, hs, hloads⟩ := hlookup
  have hhit := lock_step_hit_soundness sampleEngine sampleFiles [samplePrefix] [idleStep] lookupStep
    e st metadata noCollisions_samplePrefix (fun i _ ↦ filesOk_sampleFiles i) hstep hs [] []
    _ hloads 1 (by decide) fun _ _ ↦ 0
  obtain ⟨s, snapshot, hnone, hview, hwhole, -⟩ := hhit
  cases hnone
  exact ⟨e, st, metadata, _, snapshot, hstep, hs, hloads, hview, hwhole.spanTokens⟩

end SpoolCache.Connector

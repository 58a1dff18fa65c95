import SpoolCache.Connector.Scheduler
import SpoolCache.Connector.Worker

/-!
# Engine steps

`connector.py:513–790`, `811–976`, `1128–1330` and `gpu.py:494–574`. One scheduler and any number
of workers go through engine steps together: the scheduler looks prefixes up, plans restores and
stores, every worker restores, commits, maintains its capacity and reports, and the scheduler
applies the reports before the next step. A copy to the device is taken not to fail.
-/

namespace SpoolCache.Connector

open SpoolCache.Base SpoolCache.Layout SpoolCache.Prefix SpoolCache.Quorum SpoolCache.Store
open QuorumCatalog (Call)

/-! ### Restoring -/

section

variable (config : WorkerConfig)

/-- `stream_objects`, `token_files.py:568–682`, for a reader whose credits are as large as those
of the store: every file is opened again and authenticated, a bad one is quarantined. -/
def streamObjects : RankState → List TokenFileDescriptor → RankState × Except PyError Unit
  | s, [] => (s, .ok ())
  | s, desc :: descriptors =>
    match openChunk config.store s desc.key false with
    | .error e => (quarantineBad true s desc.key, .error e)
    | .ok current =>
      if current ≠ desc then
        (quarantineBad true s desc.key, .error (.manifestError "pinned token metadata changed"))
      else if ((s.files.get? desc.key).map TokenFile.authentic).getD false = false then
        (quarantineBad true s desc.key,
          .error (.manifestError "token transfer block checksum differs"))
      else streamObjects s descriptors

/-- `_restore_entry_view` on a hit, `gpu.py:530–569`. -/
def restoreEntryView (s : RankState) (snapshot : TokenSnapshot) (plan : SpoolCachePlan) :
    RankState × Except PyError Unit :=
  if snapshot.spanTokens ≠ plan.spanTokens then
    (s, .error (.fatalRestoreError "SPOOLCACHE_POST_ADMISSION_SPAN_MISMATCH"))
  else
    match config.store.layout.validateManifestCoverage snapshot.spanTokens
        (snapshot.objects.flatMap TokenFileDescriptor.segments),
      config.store.layout.selectPhysicalPages plan.blockIdsByGroup plan.spanTokens with
    | .error _, _ =>
      (s, .error (.fatalRestoreError "SPOOLCACHE_POST_ADMISSION_RESTORE_FAILED"))
    | _, .error _ =>
      (s, .error (.fatalRestoreError "SPOOLCACHE_POST_ADMISSION_RESTORE_FAILED"))
    | .ok _, .ok _ =>
      match streamObjects config s snapshot.objects with
      | (s, .error _) =>
        (s, .error (.fatalRestoreError "SPOOLCACHE_POST_ADMISSION_RESTORE_FAILED"))
      | (s, .ok ()) => (s, .ok ())

/-- `restore_entry`, `gpu.py:494–516`: the view is entered, used, touched and left. -/
def restoreEntry (times : Nat → Nat) (s : RankState) (plan : SpoolCachePlan) :
    RankState × Except PyError TokenSnapshot :=
  match restoreView config.store true s plan.entryId with
  | (s, .error _) =>
    (s, .error (.fatalRestoreError "SPOOLCACHE_POST_ADMISSION_RESTORE_FAILED"))
  | (s, .ok none) =>
    ({ s with pins := s.pins.dropLast },
      .error (.fatalRestoreError "SPOOLCACHE_POST_ADMISSION_LOOKUP_FAILED:token_chain"))
  | (s, .ok (some snapshot)) =>
    match restoreEntryView config s snapshot plan with
    | (s, .error e) => ({ s with pins := s.pins.dropLast }, .error e)
    | (s, .ok ()) =>
      match touch times s (snapshot.objects.map TokenFileDescriptor.key) with
      | (s, .error _) =>
        ({ s with pins := s.pins.dropLast },
          .error (.fatalRestoreError "SPOOLCACHE_POST_ADMISSION_RESTORE_FAILED"))
      | (s, .ok ()) => ({ s with pins := s.pins.dropLast }, .ok snapshot)

/-- The loads of a step in order, `connector.py:688–724`; the first one that fails ends the
worker. -/
def restoreLoads (times : Nat → Nat → Nat) :
    RankState → List SpoolCachePlan → RankState × Except PyError Unit
  | s, [] => (s, .ok ())
  | s, plan :: plans =>
    match restoreEntry config (times plans.length) s plan with
    | (s, .error e) => (s, .error e)
    | (s, .ok _) => restoreLoads times s plans

/-- The store plans of a step in order, `connector.py:758–803`. -/
def commitStorePlans (oracles : Nat → CommitOracle) : RankState → List SpoolCachePlan → RankState
  | s, [] => s
  | s, plan :: plans =>
    commitStorePlans oracles
      (commitStorePlan config (oracles plans.length) s plan.keys plan.blockIdsByGroup) plans

end

/-! ### A worker in one step -/

/-- What the environment decides for one worker in a step: times, the course of every commit, and
what else the worker, its scrub thread and other processes do before the report. -/
structure RankInput where
  restoreTimes : Nat → Nat → Nat
  commits : Nat → CommitOracle
  sections : List WorkerOp
  quiet : ∀ op ∈ sections, op.quiet = true

section

variable (config : WorkerConfig)

/-- `start_load_kv`, `connector.py:684–731`: loads, then stores with a capacity batch. -/
def startLoadKv (input : RankInput) (w : Worker) (metadata : SpoolCacheMetadata) :
    Except PyError Worker :=
  match restoreLoads config input.restoreTimes w.rank metadata.loads with
  | (_, .error e) => .error e
  | (s, .ok ()) =>
    if metadata.stores = [] then .ok { w with rank := s }
    else .ok (maintainCapacity config
      { w with rank := commitStorePlans config input.commits s metadata.stores })

/-- One worker in one engine step, with the report it sends. -/
def rankStep (input : RankInput) (w : Worker) (metadata : SpoolCacheMetadata) :
    Except PyError (Worker × WorkerInventoryReport) := do
  let w ← startLoadKv config input w metadata
  getKvConnectorStats config (w.run config input.sections)

end

/-! ### The scheduler in one step -/

/-- Calls of vLLM before the step is built. An allocation passes the count that the lookup of the
same request returned in this step, none without one. -/
inductive SchedulerCall where
  | onNewRequest (request : Request)
  | lookup (request : Request) (numComputedTokens : PyInt)
  | alloc (request : Request) (blocks : List (List PyInt))

section

variable (config : ConnectorConfig)

/-- One call, with the counts that the lookups of this step returned. -/
def schedulerCall (st : SchedulerState) (counts : OrderedDict String Nat) :
    SchedulerCall → Except PyError (SchedulerState × OrderedDict String Nat)
  | .onNewRequest request => .ok (onNewRequest st request, counts)
  | .lookup request numComputedTokens => do
    let (st, count) ← getNumNewMatchedTokens config st request numComputedTokens
    pure (st, counts.set request.requestId count)
  | .alloc request blocks => do
    let count := (counts.get? request.requestId).getD 0
    let st ← updateStateAfterAlloc config st request blocks (some count)
    pure (st, counts.erase request.requestId)

/-- The calls of a step in order. -/
def schedulerCalls : SchedulerState → OrderedDict String Nat → List SchedulerCall →
    Except PyError SchedulerState
  | st, _, [] => .ok st
  | st, counts, call :: calls => do
    let (st, counts) ← schedulerCall config st counts call
    schedulerCalls st counts calls

end

/-- What the environment decides in an engine step. -/
structure EngineInput where
  calls : List SchedulerCall
  output : SchedulerOutput
  ranks : Nat → RankInput

/-- The scheduler in one engine step: calls of vLLM, then `build_connector_meta`. -/
def schedule (config : ConnectorConfig) (st : SchedulerState) (input : EngineInput) :
    Except PyError (SchedulerState × SpoolCacheMetadata) := do
  let st ← schedulerCalls config st .empty input.calls
  buildConnectorMeta config st input.output

/-! ### The engine -/

/-- An engine: the scheduler's layout is that of every worker, `connector.py:1313–1318`, and every
reporter has the rank of its worker. -/
structure EngineConfig where
  connector : ConnectorConfig
  bounds : InventoryBounds
  ranks : Nat
  worker : Nat → WorkerConfig
  reporter : Nat → ReporterConfig
  layout_eq : ∀ i < ranks, (worker i).store.layout = connector.layout
  rank_eq : ∀ i < ranks, (reporter i).rank = i

/-- The parties of an engine between two steps. -/
structure Engine where
  scheduler : SchedulerState
  workers : Nat → Worker

/-- `set_xfer_handshake_metadata`, `connector.py:1324–1330`: the startup inventories in order. -/
def handshake (config : EngineConfig) (images : Nat → List Entry) : List Call :=
  (List.range config.ranks).map fun i ↦
    .startup (some (config.reporter i).rank) (some (config.reporter i).generation)
      (some (config.reporter i).generationEpoch) ⟨(images i).map rawEntry, none⟩

/-- `update_connector_output`, `connector.py:1185–1206`: the reports in order of their ranks, and
the gauges that read the catalog. -/
def updateConnectorOutput (config : EngineConfig) (st : SchedulerState)
    (reports : Nat → WorkerInventoryReport) : SchedulerState :=
  let calls := (List.range config.ranks).map fun i ↦ Call.report (reports i).toRaw
  { st with catalog := st.catalog.map fun c ↦ c.run (calls ++ [.readQuorumCount]) }

/-- Engines reached from rank roots by engine steps. While the workers start, other processes may
work on the roots. -/
inductive Reachable (config : EngineConfig) (roots : Nat → RankState) :
    List EngineInput → Engine → Prop
  | start {c : QuorumCatalog} {workers : Nat → Worker} {images : Nat → List Entry}
      {between : Nat → List StoreOp}
      (catalog : QuorumCatalog.create ((List.range config.ranks).map fun i : Nat ↦ some (i : Int))
        config.bounds = .ok c)
      (intact : ∀ i < config.ranks, ∀ op ∈ between i, op.intact = true)
      (registered : ∀ i < config.ranks, registerKvCaches (config.worker i) (config.reporter i)
        (roots i) (between i) = .ok (workers i, images i)) :
      Reachable config roots []
        ⟨{ SchedulerState.initial with catalog := some (c.run (handshake config images)) }, workers⟩
  | step {inputs : List EngineInput} {e : Engine} {input : EngineInput} {st : SchedulerState}
      {metadata : SpoolCacheMetadata} {workers : Nat → Worker}
      {reports : Nat → WorkerInventoryReport}
      (reached : Reachable config roots inputs e)
      (scheduled : schedule config.connector e.scheduler input = .ok (st, metadata))
      (stepped : ∀ i < config.ranks, rankStep (config.worker i) (input.ranks i) (e.workers i)
        metadata = .ok (workers i, reports i)) :
      Reachable config roots (inputs ++ [input])
        ⟨updateConnectorOutput config st reports, workers⟩

end SpoolCache.Connector

import SpoolCache.Base.Paging
import SpoolCache.Store.TokenFiles

/-!
# Committing the keys of a prefix

`token_mover.py:19–160`. A commit probes the keys of a batch, publishes the missing ones, and
then does the same for the state file of the last boundary. A key found in an earlier batch is
reused as it was found. Device copies are part of the publication that needs them.
-/

namespace SpoolCache.Store

open SpoolCache.Base SpoolCache.Layout SpoolCache.Prefix SpoolCache.Quorum

/-- `MAX_BATCH_CHUNKS`, `token_files.py:40`. -/
def maxBatchChunks : Nat := 16

/-- What the environment decides in a commit: its publications and the times of its touches. -/
structure CommitOracle where
  publish : PublishOracle
  times : Nat → Nat

/-- A file that a commit needs. -/
structure CommitJob where
  key : Digest
  header : TokenHeader
  deriving DecidableEq

/-- The data files of consecutive prefixes: the parent of each is the key before it. -/
def dataJobs (prefixes : List PrefixDigest) : List CommitJob :=
  List.zipWith (fun parent p ↦ ⟨p.digest, .data, parent, p.spanTokens⟩)
    (none :: prefixes.map fun p ↦ some p.digest) prefixes

/-- The state file of a boundary. -/
def stateJob (tail : PrefixDigest) : CommitJob :=
  ⟨boundaryStateKey tail.digest, .state, some tail.digest, tail.spanTokens⟩

section

variable (config : StoreConfig)

/-- Bytes of the data file of a chunk, `token_mover.py:26–31`. -/
def chunkBytes : Nat :=
  (config.layout.groups.map fun g ↦
    if g.reusePolicy = .full then
      (g.layers.map fun layer ↦
        config.layout.chunkTokens / g.logicalTokensPerPage * layer.pageSizeBytes).sum
    else 0).sum

/-- Window of a group, its page without one, `token_mover.py:41–42`. -/
def boundaryWindow (g : GroupGeometry) : Nat :=
  match g.reusePolicy with
  | .sliding window => window
  | _ => g.logicalTokensPerPage

/-- Bytes of a group in the largest state file, `token_mover.py:44–49`. -/
def groupStateBytes (maximum : Nat) (g : GroupGeometry) : Except PyError Nat :=
  if g.reusePolicy = .full then .ok 0
  else do
    let sizes ← g.layers.mapM fun layer ↦ do
      let count ← g.selectedPageCount maximum
      pure (count * layer.pageSizeBytes)
    pure sizes.sum

/-- `validate_layout`, `token_mover.py:20–51`, for a valid transfer credit. -/
def validateLayout : Except PyError Unit :=
  let limit := config.slotBytes * maxTransferBlocks
  if config.layout.groups = [] then .error (.layoutError "HMA layout is empty")
  else if chunkBytes config = 0 ∨ limit < chunkBytes config then
    .error (.layoutError "aligned full-KV file exceeds the transfer metadata bound")
  else if config.layout.hasBoundaryState then do
    let quantum := config.layout.chunkTokens
    let largestWindow := (config.layout.groups.map boundaryWindow).foldr max 0
    let maximum := (largestWindow + quantum - 1) / quantum * quantum
    let sizes ← config.layout.groups.mapM (groupStateBytes maximum)
    if sizes.sum = 0 ∨ limit < sizes.sum then
      throw (.layoutError "HMA boundary state exceeds the transfer metadata bound")
    else pure ()
  else .ok ()

/-- The checks before a commit touches a file, and its batch size, `token_mover.py:60–81`. -/
def commitBatchCount (prefixes : List PrefixDigest) (blockTables : List (List Nat)) :
    Except PyError Nat := do
  let quantum := config.layout.chunkTokens
  match prefixes.getLast? with
  | none => .error (.manifestError "save requires every consecutive runtime-aligned key")
  | some tail =>
    if prefixes.map PrefixDigest.spanTokens ≠
        (List.range prefixes.length).map fun i ↦ (i + 1) * quantum then
      .error (.manifestError "save requires every consecutive runtime-aligned key")
    else do
      validateLayout config
      validatePrefixHeaders config tail.spanTokens
      let _ ← config.layout.selectPhysicalPages blockTables tail.spanTokens
      let segments ← config.layout.segments quantum .data
      let size := (segments.map PageSlice.byteLength).sum
      pure (max 1 (min maxBatchChunks (config.slotBytes / size)))

/-! ### Batches -/

/-- Probing the keys of a batch, `token_mover.py:84–96`: the files found, and those missing. -/
def probeBatch (hooked : Bool) : RankState → OrderedDict Digest TokenFileDescriptor →
    List CommitJob → RankState × OrderedDict Digest TokenFileDescriptor × List CommitJob
  | s, resolved, [] => (s, resolved, [])
  | s, resolved, job :: jobs =>
    match validChunk config hooked s job.key job.header with
    | (s, some desc) => probeBatch hooked s (resolved.set job.key desc) jobs
    | (s, none) =>
      let (s, resolved, missing) := probeBatch hooked s resolved jobs
      (s, resolved, job :: missing)

/-- Publishing the missing files of a batch, `token_mover.py:97–127`. -/
def publishBatch (hooked : Bool) (oracle : CommitOracle) :
    RankState → OrderedDict Digest TokenFileDescriptor → List CommitJob →
      RankState × Except PyError (OrderedDict Digest TokenFileDescriptor)
  | s, resolved, [] => (s, .ok resolved)
  | s, resolved, job :: jobs =>
    match publishChunk config hooked oracle.publish s job.key job.header with
    | (s, .error e) => (s, .error e)
    | (s, .ok desc) => publishBatch hooked oracle s (resolved.set job.key desc) jobs

/-- One batch, `token_mover.py:83–128`. Every key of it is resolved when it ends. -/
def commitBatch (hooked : Bool) (oracle : CommitOracle) (s : RankState) (jobs : List CommitJob) :
    RankState × Except PyError (List TokenFileDescriptor) :=
  let (s, resolved, missing) := probeBatch config hooked s .empty jobs
  match publishBatch config hooked oracle s resolved missing with
  | (s, .error e) => (s, .error e)
  | (s, .ok resolved) => (s, .ok (jobs.filterMap fun job ↦ resolved.get? job.key))

/-- The batches of a commit in order. -/
def commitBatches (hooked : Bool) (oracle : CommitOracle) :
    RankState → List (List CommitJob) → RankState × Except PyError (List TokenFileDescriptor)
  | s, [] => (s, .ok [])
  | s, jobs :: rest =>
    match commitBatch config hooked oracle s jobs with
    | (s, .error e) => (s, .error e)
    | (s, .ok objects) =>
      match commitBatches hooked oracle s rest with
      | (s, .error e) => (s, .error e)
      | (s, .ok more) => (s, .ok (objects ++ more))

/-- The files of a commit in batches; the state file is a batch of its own,
`token_mover.py:82–148`. -/
def commitPlan (batchCount : Nat) (prefixes : List PrefixDigest) : List (List CommitJob) :=
  let jobs := dataJobs prefixes
  (List.range (pageCount batchCount jobs.length)).map (fun i ↦ page batchCount i jobs) ++
    if config.layout.hasBoundaryState then (prefixes.getLast?.map stateJob).toList.map ([·])
    else []

/-- The snapshot of a commit after its coverage check and touch, `token_mover.py:149–158`. -/
def finishCommit (times : Nat → Nat) (s : RankState) (tail : PrefixDigest)
    (objects : List TokenFileDescriptor) : RankState × Except PyError TokenSnapshot :=
  match coveredSnapshot config tail.digest tail.spanTokens objects with
  | .error e => (s, .error e)
  | .ok snapshot =>
    match touch times s (objects.map TokenFileDescriptor.key) with
    | (s, .error e) => (s, .error e)
    | (s, .ok ()) => (s, .ok snapshot)

/-- `commit_keys`, `token_mover.py:59–158`. -/
def commitKeys (hooked : Bool) (oracle : CommitOracle) (s : RankState)
    (prefixes : List PrefixDigest) (blockTables : List (List Nat)) :
    RankState × Except PyError TokenSnapshot :=
  match commitBatchCount config prefixes blockTables, prefixes.getLast? with
  | .error e, _ => (s, .error e)
  | .ok _, none => (s, .error (.indexError "tuple index out of range"))
  | .ok batchCount, some tail =>
    match commitBatches config hooked oracle s (commitPlan config batchCount prefixes) with
    | (s, .error e) => (s, .error e)
    | (s, .ok objects) => finishCommit config oracle.times s tail objects

end

end SpoolCache.Store

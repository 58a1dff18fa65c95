import Mathlib.Data.List.Sort
import SpoolCache.Layout.StoreSpan
import SpoolCache.Prefix.Boundaries
import SpoolCache.Quorum.Catalog

/-!
# The scheduler side of the connector

`connector.py:240–330`, `811–1111`, `admission.py`. The connector keeps tables by request
identifier: admitted restores, planned restores, tracked stores, and the salt and skip flag of
each request. Metrics and log lines are left out.
-/

namespace SpoolCache.Connector

open SpoolCache.Base SpoolCache.Layout SpoolCache.Prefix SpoolCache.Quorum

/-! ### Requests -/

/-- The `cache_salt` attribute; `invalid` is no text, or a text without a UTF-8 encoding. -/
inductive RawSalt where
  | absent
  | text (salt : String)
  | invalid
  deriving DecidableEq

/-- The `mm_features` attribute, and `mm_hashes` where it is absent; `malformed` is not iterable
or lacks an attribute. -/
inductive RawMedia where
  | absent (mmHashes : Bool)
  | malformed
  | features (raw : List RawFeature)
  deriving DecidableEq

/-- What the connector reads of a vLLM request. -/
structure Request where
  requestId : String
  cacheSalt : RawSalt
  skipRead : Bool
  skipWrite : Bool
  promptTokenIds : Option (List Int)
  promptEmbeds : Bool
  loraRequest : Bool
  media : RawMedia
  deriving DecidableEq

/-- `_request_cache_salt`, `connector.py:1828–1841`. -/
def requestCacheSalt (request : Request) : Option String :=
  match request.cacheSalt with
  | .absent => some ""
  | .text salt => some salt
  | .invalid => none

/-- `_eligible_token_ids`, `connector.py:1815–1823`, and `_eligible_new_request_tokens`,
`connector.py:1844–1854`. -/
def eligibleTokenIds (promptTokenIds : Option (List Int)) (promptEmbeds loraRequest : Bool) :
    Option (List Int) :=
  if promptEmbeds ∨ loraRequest then none else promptTokenIds

/-- `_multimodal_feature_identities`, `connector.py:1857–1900`. -/
def multimodalFeatureIdentities (media : RawMedia) (tokenCount : Nat)
    (enabledModalities : List String) : Option (List MultimodalFeatureIdentity) :=
  match media with
  | .absent mmHashes => if mmHashes then none else some []
  | .malformed => none
  | .features raw =>
    if raw = [] then some []
    else if ∃ feature ∈ raw, ∀ modality ∈ enabledModalities, feature.modality ≠ some modality then
      none
    else
      match validateMultimodalFeatures (raw.map some) tokenCount with
      | .ok features => some features
      | .error _ => none

/-! ### Plans and tables -/

/-- `SpoolCachePlan`, `connector.py:148–154`. -/
structure SpoolCachePlan where
  requestId : String
  entryId : Digest
  spanTokens : Nat
  blockIdsByGroup : List (List Nat)
  prefixes : List PrefixDigest
  deriving DecidableEq

/-- The keys of a plan, its own last. -/
def SpoolCachePlan.keys (plan : SpoolCachePlan) : List PrefixDigest :=
  plan.prefixes ++ [⟨plan.spanTokens, plan.entryId⟩]

/-- `SpoolCacheMetadata`, `connector.py:157–160`. -/
structure SpoolCacheMetadata where
  loads : List SpoolCachePlan
  stores : List SpoolCachePlan
  deriving DecidableEq

/-- `_StoreProgress`, `connector.py:243–249`. -/
structure StoreProgress where
  tokenIds : List Int
  multimodalFeatures : List MultimodalFeatureIdentity
  cacheSalt : String
  targetSpanTokens : Nat
  blockIdsByGroup : List (List PyInt)

/-- What the scheduler side is configured with. -/
structure ConnectorConfig where
  deploymentDigest : Digest
  layout : HMALayout
  multimodalModalities : List String

/-- The tables of the scheduler side. -/
structure SchedulerState where
  catalog : Option QuorumCatalog
  needLoad : OrderedDict String (Digest × Nat × Nat)
  pendingLoads : OrderedDict String SpoolCachePlan
  storeProgress : OrderedDict String StoreProgress
  requestSalts : OrderedDict String (Option String)
  skipWriteRequests : List String

/-- The tables at startup. -/
def SchedulerState.initial : SchedulerState := ⟨none, .empty, .empty, .empty, .empty, []⟩

/-! ### Store admission -/

/-- `StoreAdmissionResult`, `admission.py:27–37`. -/
structure StoreAdmissionResult where
  admitted : List SpoolCachePlan
  skippedDuplicate : Nat
  skippedBudget : Nat

/-- The loop of `admit_store_plans` that drops repeated entries, `admission.py:60–75`. -/
def uniquePlans : List SpoolCachePlan → OrderedDict Digest Nat →
    Except PyError (List SpoolCachePlan × Nat)
  | [], _ => .ok ([], 0)
  | plan :: plans, spansByEntry =>
    if plan.requestId = "" ∨ plan.spanTokens = 0 then
      .error (.valueError "store admission received a malformed plan")
    else
      match spansByEntry.get? plan.entryId with
      | some previousSpan =>
        if previousSpan ≠ plan.spanTokens then
          .error (.valueError "one store entry ID has conflicting token spans")
        else do
          let (unique, skippedDuplicate) ← uniquePlans plans spansByEntry
          pure (unique, skippedDuplicate + 1)
      | none => do
        let (unique, skippedDuplicate) ←
          uniquePlans plans (spansByEntry.set plan.entryId plan.spanTokens)
        pure (plan :: unique, skippedDuplicate)

/-- `admit_store_plans`, `admission.py:40–86`: longer prefixes first, input order on ties. -/
def admitStorePlans (plans : List SpoolCachePlan) (maxPlans : Nat) :
    Except PyError StoreAdmissionResult := do
  let (unique, skippedDuplicate) ← uniquePlans plans .empty
  let prioritized := unique.insertionSort fun a b ↦ b.spanTokens ≤ a.spanTokens
  let admitted := prioritized.take maxPlans
  pure ⟨admitted, skippedDuplicate, prioritized.length - admitted.length⟩

/-! ### Lookup -/

section

variable (config : ConnectorConfig)

/-- `prefix_digests` with the connector's deployment and chunk width. -/
def connectorDigests (tokens : List Int) (cacheSalt : String)
    (features : List MultimodalFeatureIdentity) (boundaries : List PyInt) :
    Except PyError (List PrefixDigest) :=
  prefixDigests (tokens.map some) (some config.deploymentDigest) cacheSalt
    config.layout.chunkTokens (some boundaries) (features.map fun f ↦ some f.toRaw)

/-- `_has_boundary_quorum`, `connector.py:294–298`. -/
def hasBoundaryQuorum (catalog : Option QuorumCatalog) (key : Digest) (span : Nat) : Bool :=
  !config.layout.hasBoundaryState ||
    match catalog with
    | none => false
    | some catalog => catalog.hasQuorum (boundaryStateKey key) (some span)

/-- `_select_prefix`, `connector.py:279–292`, from the prefix selected so far. -/
def selectPrefix (catalog : QuorumCatalog) (first : Nat) :
    List PrefixDigest → Option (Nat × Digest) → Option (Nat × Digest)
  | [], selected => selected
  | candidate :: candidates, selected =>
    if ¬ catalog.hasQuorum candidate.digest (some candidate.spanTokens) then selected
    else if first ≤ candidate.spanTokens ∧
        candidate.spanTokens % config.layout.alignmentTokens = 0 ∧
        hasBoundaryQuorum config (some catalog) candidate.digest candidate.spanTokens then
      selectPrefix catalog first candidates (some (candidate.spanTokens, candidate.digest))
    else selectPrefix catalog first candidates selected

/-- `_cached_plan`, `connector.py:300–306`. -/
def cachedPlan (catalog : Option QuorumCatalog) (plan : SpoolCachePlan) : Bool :=
  match catalog with
  | none => false
  | some c =>
    hasBoundaryQuorum config catalog plan.entryId plan.spanTokens &&
      plan.keys.all fun p ↦ c.hasQuorum p.digest (some p.spanTokens)

/-- `_cached_request`, `connector.py:308–321`. -/
def cachedRequest (catalog : Option QuorumCatalog) (tokens : List Int) (span : Nat)
    (salt : String) (media : List MultimodalFeatureIdentity) : Except PyError Bool :=
  match catalog with
  | none => .ok false
  | some c => do
    let prefixes ← connectorDigests config tokens salt media
      (chunkBoundaries config.layout.chunkTokens span)
    match prefixes.getLast? with
    | none => .error (.indexError "list index out of range")
    | some last =>
      pure (hasBoundaryQuorum config catalog last.digest span &&
        prefixes.all fun p ↦ c.hasQuorum p.digest (some p.spanTokens))

/-- The prefix a request can restore, `connector.py:823–860`; `none` is a miss. -/
def matchedPrefix (catalog : QuorumCatalog) (request : Request) (numComputedTokens : PyInt) :
    Except PyError (Option (Nat × Digest)) :=
  match requestCacheSalt request with
  | none => .ok none
  | some cacheSalt =>
    match eligibleTokenIds request.promptTokenIds request.promptEmbeds request.loraRequest with
    | none => .ok none
    | some tokens =>
      match numComputedTokens with
      | none => .error (.runtimeError "vLLM reported an invalid computed-token count")
      | some computed =>
        if computed < 0 ∨ (tokens.length : Int) < computed then
          .error (.runtimeError "vLLM reported an invalid computed-token count")
        else
          match multimodalFeatureIdentities request.media tokens.length
            config.multimodalModalities with
          | none => .ok none
          | some features =>
            let chunk := config.layout.chunkTokens
            let ceiling := config.layout.safeRestoreSpan tokens.length
            let first := max chunk ((computed.toNat / chunk + 1) * chunk)
            if ceiling < first then .ok none
            else do
              let candidates ← connectorDigests config tokens cacheSalt features
                (chunkBoundaries chunk ceiling)
              pure (selectPrefix config catalog first candidates none)

/-- `get_num_new_matched_tokens`, `connector.py:811–890`. -/
def getNumNewMatchedTokens (st : SchedulerState) (request : Request) (numComputedTokens : PyInt) :
    Except PyError (SchedulerState × Nat) :=
  if request.skipRead then .ok (st, 0)
  else
    match st.catalog with
    | none => .ok (st, 0)
    | some catalog => do
      match ← matchedPrefix config catalog request numComputedTokens with
      | none => pure (st, 0)
      | some (spanTokens, entryId) =>
        let computed := (numComputedTokens.getD 0).toNat
        let activeRestores := (st.needLoad.keys ++ st.pendingLoads.keys).dedup
        if request.requestId ∉ activeRestores ∧ maxPendingRestores ≤ activeRestores.length then
          pure (st, 0)
        else if spanTokens ≤ computed then
          .error (.runtimeError "SpoolCache selected a non-positive external span")
        else
          let admitted := (entryId, spanTokens, spanTokens - computed)
          pure ({ st with needLoad := st.needLoad.set request.requestId admitted },
            spanTokens - computed)

/-! ### Requests and allocation -/

/-- `on_new_request`, `connector.py:892–898`. -/
def onNewRequest (st : SchedulerState) (request : Request) : SchedulerState :=
  let salt := requestCacheSalt request
  let st := { st with requestSalts :=
    st.requestSalts.set request.requestId (salt.filter (· ≠ "")) }
  if salt = none ∨ request.skipWrite then
    { st with skipWriteRequests := request.requestId :: st.skipWriteRequests }
  else
    { st with skipWriteRequests := st.skipWriteRequests.filter (· ≠ request.requestId) }

/-- `_normalize_block_ids`, `connector.py:1643–1662`. -/
def normalizeBlockIds (groups : List (List PyInt)) : Except PyError (List (List Nat)) :=
  groups.mapM fun group ↦ group.mapM fun blockId ↦
    match blockId with
    | some (.ofNat n) => .ok n
    | _ => .error (.valueError "vLLM block IDs must be non-negative integers")

/-- `update_state_after_alloc`, `connector.py:900–927`. -/
def updateStateAfterAlloc (st : SchedulerState) (request : Request) (blocks : List (List PyInt))
    (numExternalTokens : PyInt) : Except PyError SchedulerState :=
  match numExternalTokens with
  | some (.ofNat externalTokens) =>
    let pending := st.needLoad.get? request.requestId
    let st := { st with needLoad := st.needLoad.erase request.requestId }
    if externalTokens = 0 then .ok st
    else
      match pending with
      | none => .error (.runtimeError "SpoolCache load allocation has no admitted entry")
      | some (entryId, spanTokens, expected) =>
        if externalTokens ≠ expected then
          .error (.runtimeError "vLLM external-token allocation differs from the admitted span")
        else do
          let blockIds ← normalizeBlockIds blocks
          let _ ← config.layout.selectPhysicalPages blockIds spanTokens
          let plan : SpoolCachePlan := ⟨request.requestId, entryId, spanTokens, blockIds, []⟩
          pure { st with pendingLoads := st.pendingLoads.set request.requestId plan }
  | _ => .error (.runtimeError "vLLM reported an invalid external-token count")

/-! ### Store planning -/

/-- An element of `scheduled_new_reqs`. -/
structure NewRequestData where
  reqId : String
  promptTokenIds : Option (List Int)
  promptEmbeds : Bool
  loraRequest : Bool
  media : RawMedia
  blockIds : List (List PyInt)
  numComputedTokens : PyInt

/-- An element of `scheduled_cached_reqs`. -/
structure CachedRequestData where
  reqId : String
  newBlockIds : Option (List (List PyInt))
  numComputedTokens : PyInt
  resumed : Bool

/-- `SchedulerOutput`. -/
structure SchedulerOutput where
  finishedReqIds : List String
  scheduledNewReqs : List NewRequestData
  scheduledCachedReqs : List CachedRequestData
  numScheduledTokens : OrderedDict String PyInt

/-- `num_scheduled_tokens.get(request_id, 0)`. -/
def SchedulerOutput.scheduledTokens (output : SchedulerOutput) (requestId : String) : PyInt :=
  (output.numScheduledTokens.get? requestId).getD (some 0)

/-- `_plan_from_progress`, `connector.py:1097–1111`. -/
def planFromProgress (requestId : String) (progress : StoreProgress) (spanTokens : Nat) :
    Except PyError SpoolCachePlan := do
  let blockIds ← normalizeBlockIds progress.blockIdsByGroup
  let _ ← config.layout.selectPhysicalPages blockIds spanTokens
  let prefixes ← connectorDigests config progress.tokenIds progress.cacheSalt
    progress.multimodalFeatures (chunkBoundaries config.layout.chunkTokens spanTokens)
  match prefixes.getLast? with
  | none => .error (.indexError "tuple index out of range")
  | some last => pure ⟨requestId, last.digest, spanTokens, blockIds, prefixes.dropLast⟩

/-- The store decision of a step, `connector.py:1009–1030` and `1055–1076`: whether tracking goes
on, and the plan to emit. -/
def decideStore (st : SchedulerState) (requestId : String) (progress : StoreProgress)
    (before scheduled : PyInt) : Except PyError (Bool × Option SpoolCachePlan) := do
  match ← preForwardStoreSpan before scheduled progress.targetSpanTokens
    config.layout.chunkTokens config.layout.chunkTokens
    config.layout.storeRequiresExactBoundary with
  | none => pure (true, none)
  | some 0 => pure (false, none)
  | some candidate =>
    let plan ← planFromProgress config requestId progress candidate
    if cachedPlan config st.catalog plan then pure (false, none) else pure (false, some plan)

/-- The progress a new request starts with, unless it is not stored,
`connector.py:983–1008`. -/
def newProgress (st : SchedulerState) (request : NewRequestData) :
    Except PyError (Option StoreProgress) :=
  if request.reqId ∈ st.skipWriteRequests then .ok none
  else
    match eligibleTokenIds request.promptTokenIds request.promptEmbeds request.loraRequest with
    | none => .ok none
    | some tokens =>
      match multimodalFeatureIdentities request.media tokens.length
        config.multimodalModalities with
      | none => .ok none
      | some features =>
        let target := config.layout.safeStoreSpan tokens.length
        if target = 0 then .ok none
        else do
          let cacheSalt := ((st.requestSalts.get? request.reqId).join).getD ""
          let cached ← cachedRequest config st.catalog tokens target cacheSalt features
          if cached then pure none
          else pure (some ⟨tokens, features, cacheSalt, target, request.blockIds⟩)

/-- One round of `_track_new_requests`, `connector.py:978–1031`. -/
def trackNewRequest (output : SchedulerOutput) (st : SchedulerState) (request : NewRequestData) :
    Except PyError (SchedulerState × Option SpoolCachePlan) := do
  match ← newProgress config st request with
  | none => pure (st, none)
  | some progress =>
    let (tracked, plan) ← decideStore config st request.reqId progress request.numComputedTokens
      (output.scheduledTokens request.reqId)
    if tracked then
      pure ({ st with storeProgress := st.storeProgress.set request.reqId progress }, none)
    else pure (st, plan)

/-- The block tables of a tracked request after a step, `connector.py:1041–1054`; `none` when the
number of groups differs. -/
def extendBlockIds (progress : StoreProgress) (cached : CachedRequestData) :
    Option StoreProgress :=
  match cached.newBlockIds with
  | none => some progress
  | some newGroups =>
    if newGroups.length ≠ progress.blockIdsByGroup.length then none
    else if cached.resumed then some { progress with blockIdsByGroup := newGroups }
    else some { progress with
      blockIdsByGroup := List.zipWith (· ++ ·) progress.blockIdsByGroup newGroups }

/-- One round of `_track_cached_requests`, `connector.py:1033–1076`. -/
def trackCachedRequest (output : SchedulerOutput) (st : SchedulerState)
    (cached : CachedRequestData) : Except PyError (SchedulerState × Option SpoolCachePlan) :=
  match st.storeProgress.get? cached.reqId with
  | none => .ok (st, none)
  | some progress =>
    match extendBlockIds progress cached with
    | none => .ok ({ st with storeProgress := st.storeProgress.erase cached.reqId }, none)
    | some progress => do
      let (tracked, plan) ← decideStore config st cached.reqId progress cached.numComputedTokens
        (output.scheduledTokens cached.reqId)
      if tracked then
        pure ({ st with storeProgress := st.storeProgress.set cached.reqId progress }, none)
      else pure ({ st with storeProgress := st.storeProgress.erase cached.reqId }, plan)

/-- A loop that collects the plans of its rounds. -/
def collectPlans {α : Type} (round : SchedulerState → α →
      Except PyError (SchedulerState × Option SpoolCachePlan)) :
    SchedulerState → List α → Except PyError (SchedulerState × List SpoolCachePlan)
  | st, [] => .ok (st, [])
  | st, a :: as => do
    let (st, plan) ← round st a
    let (st, plans) ← collectPlans round st as
    pure (st, plan.toList ++ plans)

/-- Forgetting the requests that finished, `connector.py:936–941`. -/
def forgetFinished (st : SchedulerState) : List String → SchedulerState
  | [] => st
  | requestId :: requestIds =>
    forgetFinished { st with
      storeProgress := st.storeProgress.erase requestId
      needLoad := st.needLoad.erase requestId
      requestSalts := st.requestSalts.erase requestId
      skipWriteRequests := st.skipWriteRequests.filter (· ≠ requestId) } requestIds

/-- `build_connector_meta`, `connector.py:929–976`. -/
def buildConnectorMeta (st : SchedulerState) (output : SchedulerOutput) :
    Except PyError (SchedulerState × SpoolCacheMetadata) := do
  let loads := st.pendingLoads.items.map Prod.snd
  let st := forgetFinished { st with pendingLoads := .empty } output.finishedReqIds
  let (st, fromNew) ← collectPlans (trackNewRequest config output) st output.scheduledNewReqs
  let (st, fromCached) ←
    collectPlans (trackCachedRequest config output) st output.scheduledCachedReqs
  let admission ← admitStorePlans (fromNew ++ fromCached) maxPendingStores
  pure (st, ⟨loads, admission.admitted⟩)

end

end SpoolCache.Connector

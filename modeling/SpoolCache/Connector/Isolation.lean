import SpoolCache.Connector.Scheduler

/-!
# Isolation of persistent writes

vLLM adds requests, finishes or aborts them, and lists every identifier that finished since the
last step as finished in the next one; an identifier may be added again at any time after its
request finished. The salt and the skip flag of a request are kept under its identifier, so a
step that lists an identifier as finished after it was added again forgets them.
-/

namespace SpoolCache.Connector

open SpoolCache.Base SpoolCache.Layout SpoolCache.Prefix SpoolCache.Quorum

/-! ### Runs -/

/-- The connector with the requests of vLLM: the current request of each identifier, and the
identifiers finished since the last step. -/
structure System where
  st : SchedulerState
  current : String → Option Request
  unlisted : List String

/-- The system at startup. -/
def System.initial : System := ⟨.initial, fun _ ↦ none, []⟩

/-- A request is added. -/
def System.add (s : System) (request : Request) : System :=
  { s with
    st := onNewRequest s.st request
    current := Function.update s.current request.requestId (some request) }

/-- The current request of an identifier ends. -/
def System.finish (s : System) (requestId : String) : System :=
  { s with
    current := Function.update s.current requestId none
    unlisted := requestId :: s.unlisted }

private theorem System.current_add (s : System) (request : Request) :
    (s.add request).current request.requestId = some request := Function.update_self _ _ _

private theorem System.current_finish (s : System) (requestId : String) :
    (s.finish requestId).current requestId = none := Function.update_self _ _ _

/-- Calls of vLLM, the end of a request, and changes of the catalog by reports. -/
inductive Event where
  | add (request : Request)
  | finish (requestId : String)
  | catalog (catalog : Option QuorumCatalog)
  | lookup (request : Request) (numComputedTokens : PyInt)
  | alloc (request : Request) (blocks : List (List PyInt)) (numExternalTokens : PyInt)
  | build (output : SchedulerOutput)

/-- A scheduled new request is described as it was added. -/
structure Describes (data : NewRequestData) (request : Request) : Prop where
  promptTokenIds : data.promptTokenIds = request.promptTokenIds
  promptEmbeds : data.promptEmbeds = request.promptEmbeds
  loraRequest : data.loraRequest = request.loraRequest
  media : data.media = request.media

/-- What vLLM promises: an identifier has one current request at a time, a step lists exactly the
identifiers finished since the last one, and new requests are current. -/
def Admissible (s : System) : Event → Prop
  | .add request => s.current request.requestId = none
  | .build output =>
    (∀ id, id ∈ output.finishedReqIds ↔ id ∈ s.unlisted) ∧
      ∀ data ∈ output.scheduledNewReqs,
        ∃ request, s.current data.reqId = some request ∧ Describes data request
  | _ => True

variable (config : ConnectorConfig)

/-- One event, with the store plans it emits. -/
def step (s : System) : Event → Except PyError (System × List SpoolCachePlan)
  | .add request => .ok (s.add request, [])
  | .finish requestId => .ok (s.finish requestId, [])
  | .catalog catalog => .ok ({ s with st := { s.st with catalog } }, [])
  | .lookup request numComputedTokens => do
    let (st, _) ← getNumNewMatchedTokens config s.st request numComputedTokens
    pure ({ s with st }, [])
  | .alloc request blocks numExternalTokens => do
    let st ← updateStateAfterAlloc config s.st request blocks numExternalTokens
    pure ({ s with st }, [])
  | .build output => do
    let (st, metadata) ← buildConnectorMeta config s.st output
    pure ({ s with st, unlisted := [] }, metadata.stores)

/-- No identifier is listed as finished after it was added again with a salt that matters or with
writes skipped. -/
def Undisturbed (s : System) : Event → Prop
  | .build output => ∀ id ∈ output.finishedReqIds, ∀ request, s.current id = some request →
      requestCacheSalt request = some "" ∧ request.skipWrite = false
  | _ => True

/-- States reached by runs whose steps are all allowed. -/
inductive Reached (allowed : System → Event → Prop) : System → Prop
  | initial : Reached allowed .initial
  | step {s s' : System} {event : Event} {plans : List SpoolCachePlan}
      (reached : Reached allowed s) (admissible : Admissible s event) (h : allowed s event)
      (steps : step config s event = .ok (s', plans)) : Reached allowed s'

/-! ### What a plan has to carry -/

/-- A progress belongs to a request: its writes are not skipped, and it has the request's salt,
tokens and media. -/
structure Owns (request : Request) (progress : StoreProgress) : Prop where
  skipWrite : request.skipWrite = false
  salt : requestCacheSalt request = some progress.cacheSalt
  tokens : eligibleTokenIds request.promptTokenIds request.promptEmbeds request.loraRequest =
    some progress.tokenIds
  media : multimodalFeatureIdentities request.media progress.tokenIds.length
    config.multimodalModalities = some progress.multimodalFeatures

/-- A plan carries the keys of its request's own salt, tokens and media, and the request asked
for no skipped writes and has a valid salt. -/
def PlanOwned (current : String → Option Request) (plan : SpoolCachePlan) : Prop :=
  ∃ request salt tokens features, current plan.requestId = some request ∧
    request.skipWrite = false ∧ requestCacheSalt request = some salt ∧
    eligibleTokenIds request.promptTokenIds request.promptEmbeds request.loraRequest =
      some tokens ∧
    multimodalFeatureIdentities request.media tokens.length config.multimodalModalities =
      some features ∧
    connectorDigests config tokens salt features
      (chunkBoundaries config.layout.chunkTokens plan.spanTokens) = .ok plan.keys

/-- The tables show every current request as it is. -/
structure Flagged (current : String → Option Request) (st : SchedulerState) : Prop where
  salt : ∀ id request, current id = some request →
    (st.requestSalts.get? id).join = (requestCacheSalt request).filter (· ≠ "")
  skip : ∀ id request, current id = some request →
    (id ∈ st.skipWriteRequests ↔ requestCacheSalt request = none ∨ request.skipWrite = true)

/-- The tables during a step: every tracked store belongs to the current request. -/
structure Clean (current : String → Option Request) (st : SchedulerState) : Prop where
  flagged : Flagged current st
  progress : ∀ id progress, st.storeProgress.get? id = some progress →
    ∃ request, current id = some request ∧ Owns config request progress

/-- Between steps a tracked store may also be left of a request whose end is not yet listed. -/
structure Isolated (s : System) : Prop where
  flagged : Flagged s.current s.st
  progress : ∀ id progress, s.st.storeProgress.get? id = some progress →
    id ∈ s.unlisted ∨ ∃ request, s.current id = some request ∧ Owns config request progress

/-! ### Plans of one round -/

variable {config}

/-- A plan is about the request, for the span, with the digests of its tokens and salt. -/
theorem planFromProgress_ok {requestId : String} {progress : StoreProgress} {span : Nat}
    {plan : SpoolCachePlan} (hspan : span ≠ 0) (hdvd : config.layout.chunkTokens ∣ span)
    (h : planFromProgress config requestId progress span = .ok plan) :
    plan.requestId = requestId ∧ plan.spanTokens = span ∧
      connectorDigests config progress.tokenIds progress.cacheSalt progress.multimodalFeatures
        (chunkBoundaries config.layout.chunkTokens span) = .ok plan.keys := by
  obtain ⟨blockIds, -, h⟩ := bind_ok h
  obtain ⟨pages, -, h⟩ := bind_ok h
  obtain ⟨prefixes, hd, h⟩ := bind_ok h
  obtain ⟨n, rfl⟩ := hdvd
  rw [Nat.mul_comm] at hd hspan h ⊢
  -- the last digest is the one at the span itself
  have hkeys := (PrefixRequest.digests_chunkBoundaries
    (r := ⟨config.deploymentDigest, progress.cacheSalt, progress.tokenIds,
      progress.multimodalFeatures⟩) hd).1
  obtain ⟨m, rfl⟩ : ∃ m, n = m + 1 := Nat.exists_eq_succ_of_ne_zero
    (fun h0 ↦ hspan (by rw [h0, Nat.zero_mul]))
  rw [PrefixRequest.keys, List.range_succ, List.map_append, List.map_singleton] at hkeys
  rw [hkeys, List.getLast?_concat, List.dropLast_concat] at h
  cases h
  exact ⟨rfl, rfl, by rw [hd, hkeys]; rfl⟩

/-- A plan that a decision emits carries the keys of the progress. -/
theorem decideStore_ok {st : SchedulerState} {requestId : String} {progress : StoreProgress}
    {before scheduled : PyInt} {tracked : Bool} {plan : SpoolCachePlan}
    (h : decideStore config st requestId progress before scheduled = .ok (tracked, some plan)) :
    plan.requestId = requestId ∧
      connectorDigests config progress.tokenIds progress.cacheSalt progress.multimodalFeatures
        (chunkBoundaries config.layout.chunkTokens plan.spanTokens) = .ok plan.keys ∧
      config.layout.chunkTokens ∣ plan.spanTokens := by
  obtain ⟨decision, hdecision, h⟩ := bind_ok h
  cases decision with
  | none => cases h
  | some span =>
    cases span with
    | zero => cases h
    | succ span =>
      obtain ⟨plan', hplan, h⟩ := bind_ok h
      obtain ⟨b, -, hb⟩ := preForwardStoreSpan_pos hdecision (Nat.succ_ne_zero span)
      have hdvd : config.layout.chunkTokens ∣ span + 1 :=
        ⟨b / config.layout.chunkTokens, hb.trans (Nat.mul_comm _ _)⟩
      obtain ⟨hid, hs, hd⟩ := planFromProgress_ok (Nat.succ_ne_zero span) hdvd hplan
      split at h
      · cases h
      · cases h
        rw [hs]
        exact ⟨hid, hd, hdvd⟩

private theorem PlanOwned.of_owns {current : String → Option Request} {request : Request}
    {progress : StoreProgress} {plan : SpoolCachePlan}
    (hc : current plan.requestId = some request) (ho : Owns config request progress)
    (hd : connectorDigests config progress.tokenIds progress.cacheSalt
      progress.multimodalFeatures (chunkBoundaries config.layout.chunkTokens plan.spanTokens) =
        .ok plan.keys) : PlanOwned config current plan :=
  ⟨request, progress.cacheSalt, progress.tokenIds, progress.multimodalFeatures, hc, ho.skipWrite,
    ho.salt, ho.tokens, ho.media, hd⟩

/-- The progress of a new request belongs to it. -/
theorem newProgress_owns {current : String → Option Request} {st : SchedulerState}
    {data : NewRequestData} {request : Request} {progress : StoreProgress}
    (hf : Flagged current st) (hc : current data.reqId = some request)
    (hd : Describes data request) (h : newProgress config st data = .ok (some progress)) :
    Owns config request progress := by
  unfold newProgress at h
  split at h
  · cases h
  · next hskip =>
    rw [hf.skip _ _ hc, not_or] at hskip
    obtain ⟨salt, hsalt⟩ := Option.ne_none_iff_exists'.mp hskip.1
    have hget := hf.salt _ _ hc
    rw [hsalt] at hget
    split at h
    · cases h
    · next tokens htokens =>
      split at h
      · cases h
      · next features hfeatures =>
        dsimp only at h
        split at h
        · cases h
        · obtain ⟨cached, -, h⟩ := bind_ok h
          split at h
          · cases h
          · cases h
            refine ⟨Bool.eq_false_iff.mpr hskip.2, ?_, ?_, ?_⟩
            · -- an empty salt is stored as `None` and read back as empty
              dsimp only
              rw [hget, hsalt]
              by_cases he : salt = ""
              · rw [he]
                rfl
              · rw [Option.filter_some, if_pos (by simpa using he)]
                rfl
            · rw [← hd.promptTokenIds, ← hd.promptEmbeds, ← hd.loraRequest]
              exact htokens
            · rw [← hd.media]
              exact hfeatures

/-! ### Rounds keep the tables clean -/

private theorem Clean.set {current : String → Option Request} {st : SchedulerState} {id : String}
    {request : Request} {progress : StoreProgress} (hst : Clean config current st)
    (hc : current id = some request) (ho : Owns config request progress) :
    Clean config current { st with storeProgress := st.storeProgress.set id progress } := by
  refine ⟨⟨hst.flagged.salt, hst.flagged.skip⟩, ?_⟩
  intro a p h
  dsimp only at h
  rw [OrderedDict.get?_set] at h
  split at h
  · next he =>
    cases h
    rw [he]
    exact ⟨request, hc, ho⟩
  · exact hst.progress a p h

private theorem Clean.erase {current : String → Option Request} {st : SchedulerState} (id : String)
    (hst : Clean config current st) :
    Clean config current { st with storeProgress := st.storeProgress.erase id } := by
  refine ⟨⟨hst.flagged.salt, hst.flagged.skip⟩, ?_⟩
  intro a p h
  dsimp only at h
  rw [OrderedDict.get?_erase] at h
  split at h
  · cases h
  · exact hst.progress a p h

/-- A round keeps the tables clean and emits only plans of current requests. -/
def Sound (config : ConnectorConfig) (current : String → Option Request) {α : Type}
    (round : SchedulerState → α → Except PyError (SchedulerState × Option SpoolCachePlan))
    (a : α) : Prop :=
  ∀ st st' plan, Clean config current st → round st a = .ok (st', plan) →
    Clean config current st' ∧ ∀ p ∈ plan, PlanOwned config current p

private theorem trackNewRequest_sound {current : String → Option Request} (output : SchedulerOutput)
    {data : NewRequestData}
    (hd : ∃ request, current data.reqId = some request ∧ Describes data request) :
    Sound config current (trackNewRequest config output) data := by
  intro st st' plan hst h
  obtain ⟨request, hc, hdesc⟩ := hd
  obtain ⟨progress, hp, h⟩ := bind_ok h
  cases progress with
  | none =>
    cases h
    exact ⟨hst, fun p hp ↦ (by cases hp)⟩
  | some progress =>
    have ho := newProgress_owns hst.flagged hc hdesc hp
    obtain ⟨⟨tracked, emitted⟩, hdec, h⟩ := bind_ok h
    dsimp only at h
    split at h
    · cases h
      exact ⟨hst.set hc ho, fun p hp ↦ (by cases hp)⟩
    · cases h
      refine ⟨hst, ?_⟩
      intro p hp
      rw [Option.mem_def] at hp
      rw [hp] at hdec
      obtain ⟨hid, hkeys, -⟩ := decideStore_ok hdec
      exact .of_owns (by rw [hid]; exact hc) ho hkeys

private theorem owns_extendBlockIds {request : Request} {progress progress' : StoreProgress}
    {cached : CachedRequestData} (ho : Owns config request progress)
    (h : extendBlockIds progress cached = some progress') : Owns config request progress' := by
  unfold extendBlockIds at h
  split at h
  · cases h
    exact ho
  · split at h
    · cases h
    · split at h
      · cases h
        exact ⟨ho.skipWrite, ho.salt, ho.tokens, ho.media⟩
      · cases h
        exact ⟨ho.skipWrite, ho.salt, ho.tokens, ho.media⟩

private theorem trackCachedRequest_sound {current : String → Option Request}
    (output : SchedulerOutput) (cached : CachedRequestData) :
    Sound config current (trackCachedRequest config output) cached := by
  intro st st' plan hst h
  unfold trackCachedRequest at h
  cases hp : st.storeProgress.get? cached.reqId with
  | none =>
    rw [hp] at h
    cases h
    exact ⟨hst, fun p hp ↦ (by cases hp)⟩
  | some progress =>
    rw [hp] at h
    obtain ⟨request, hc, ho⟩ := hst.progress _ _ hp
    dsimp only at h
    cases he : extendBlockIds progress cached with
    | none =>
      rw [he] at h
      cases h
      exact ⟨hst.erase _, fun p hp ↦ (by cases hp)⟩
    | some progress' =>
      rw [he] at h
      have ho' := owns_extendBlockIds ho he
      obtain ⟨⟨tracked, emitted⟩, hdec, h⟩ := bind_ok h
      dsimp only at h
      split at h
      · cases h
        exact ⟨hst.set hc ho', fun p hp ↦ (by cases hp)⟩
      · cases h
        refine ⟨hst.erase _, ?_⟩
        intro p hp
        rw [Option.mem_def] at hp
        rw [hp] at hdec
        obtain ⟨hid, hkeys, -⟩ := decideStore_ok hdec
        exact .of_owns (by rw [hid]; exact hc) ho' hkeys

/-- What every round keeps and emits, a loop keeps and emits. -/
theorem collectPlans_inv {keeps : SchedulerState → Prop} {emits : SpoolCachePlan → Prop}
    {α : Type}
    {round : SchedulerState → α → Except PyError (SchedulerState × Option SpoolCachePlan)}
    {as : List α}
    (hround : ∀ a ∈ as, ∀ st st' plan, keeps st → round st a = .ok (st', plan) →
      keeps st' ∧ ∀ p ∈ plan, emits p)
    {st st' : SchedulerState} {plans : List SpoolCachePlan} (hst : keeps st)
    (h : collectPlans round st as = .ok (st', plans)) :
    keeps st' ∧ ∀ p ∈ plans, emits p := by
  induction as generalizing st plans with
  | nil =>
    cases h
    exact ⟨hst, fun p hp ↦ (by cases hp)⟩
  | cons a as ih =>
    obtain ⟨⟨st₁, plan⟩, h₁, h⟩ := bind_ok h
    obtain ⟨⟨st₂, rest⟩, h₂, h⟩ := bind_ok h
    cases h
    obtain ⟨hst₁, hplan⟩ := hround a List.mem_cons_self _ _ _ hst h₁
    obtain ⟨hst₂, hrest⟩ := ih (fun b hb ↦ hround b (List.mem_cons_of_mem _ hb)) hst₁ h₂
    refine ⟨hst₂, ?_⟩
    intro p hp
    rcases List.mem_append.mp hp with hp | hp
    · exact hplan p (Option.mem_toList.mp hp)
    · exact hrest p hp

/-! ### Admission -/

/-- The plans that are left after the repeated ones are dropped stand among the candidates. -/
theorem uniquePlans_sublist {plans unique : List SpoolCachePlan} {spans : OrderedDict Digest Nat}
    {skipped : Nat} (h : uniquePlans plans spans = .ok (unique, skipped)) :
    unique.Sublist plans := by
  induction plans generalizing spans unique skipped with
  | nil =>
    cases h
    exact List.Sublist.refl _
  | cons plan plans ih =>
    unfold uniquePlans at h
    split at h
    · cases h
    · split at h
      · split at h
        · cases h
        · obtain ⟨⟨rest, skipped'⟩, hr, h⟩ := bind_ok h
          cases h
          exact (ih hr).cons plan
      · obtain ⟨⟨rest, skipped'⟩, hr, h⟩ := bind_ok h
        cases h
        exact (ih hr).cons_cons plan

/-- Only plans that were offered are admitted. -/
theorem admitStorePlans_subset {plans : List SpoolCachePlan} {budget : Nat}
    {result : StoreAdmissionResult} (h : admitStorePlans plans budget = .ok result) :
    result.admitted ⊆ plans := by
  obtain ⟨⟨unique, skipped⟩, hu, h⟩ := bind_ok h
  cases h
  intro p hp
  exact (uniquePlans_sublist hu).subset
    ((List.mem_insertionSort _).mp (List.mem_of_mem_take hp))

/-! ### Forgetting finished requests -/

/-- The progress of finished requests is forgotten, and no other. -/
theorem forgetFinished_storeProgress (st : SchedulerState) (ids : List String) (a : String) :
    (forgetFinished st ids).storeProgress.get? a =
      if a ∈ ids then none else st.storeProgress.get? a := by
  induction ids generalizing st with
  | nil => rfl
  | cons id ids ih =>
    rw [forgetFinished, ih]
    dsimp only
    rw [OrderedDict.get?_erase]
    by_cases ha : a ∈ ids
    · rw [if_pos ha, if_pos (List.mem_cons_of_mem _ ha)]
    · rw [if_neg ha]
      by_cases he : a = id
      · rw [if_pos he, if_pos (by rw [he]; exact List.mem_cons_self)]
      · rw [if_neg he, if_neg (by rw [List.mem_cons, not_or]; exact ⟨he, ha⟩)]

/-- The salts of finished requests are forgotten, and no other. -/
theorem forgetFinished_requestSalts (st : SchedulerState) (ids : List String) (a : String) :
    (forgetFinished st ids).requestSalts.get? a =
      if a ∈ ids then none else st.requestSalts.get? a := by
  induction ids generalizing st with
  | nil => rfl
  | cons id ids ih =>
    rw [forgetFinished, ih]
    dsimp only
    rw [OrderedDict.get?_erase]
    by_cases ha : a ∈ ids
    · rw [if_pos ha, if_pos (List.mem_cons_of_mem _ ha)]
    · rw [if_neg ha]
      by_cases he : a = id
      · rw [if_pos he, if_pos (by rw [he]; exact List.mem_cons_self)]
      · rw [if_neg he, if_neg (by rw [List.mem_cons, not_or]; exact ⟨he, ha⟩)]

private theorem mem_forgetFinished_skip (st : SchedulerState) (ids : List String) (a : String) :
    a ∈ (forgetFinished st ids).skipWriteRequests ↔ a ∈ st.skipWriteRequests ∧ a ∉ ids := by
  induction ids generalizing st with
  | nil => simp [forgetFinished]
  | cons id ids ih =>
    rw [forgetFinished, ih]
    dsimp only
    rw [List.mem_filter, List.mem_cons, not_or, decide_eq_true_eq, and_assoc]

/-- With every unlisted end listed and no flag that matters forgotten, the tables are clean. -/
theorem clean_forgetFinished {s : System} (hs : Isolated config s) {output : SchedulerOutput}
    (hl : ∀ id, id ∈ output.finishedReqIds ↔ id ∈ s.unlisted)
    (hu : Undisturbed s (.build output)) :
    Clean config s.current
      (forgetFinished { s.st with pendingLoads := .empty } output.finishedReqIds) := by
  refine ⟨⟨?_, ?_⟩, ?_⟩
  · intro id request hc
    rw [forgetFinished_requestSalts]
    split
    · next hmem =>
      rw [(hu id hmem request hc).1]
      rfl
    · exact hs.flagged.salt id request hc
  · intro id request hc
    rw [mem_forgetFinished_skip]
    by_cases hmem : id ∈ output.finishedReqIds
    · obtain ⟨hsalt, hskip⟩ := hu id hmem request hc
      simp [hmem, hsalt, hskip]
    · rw [← hs.flagged.skip id request hc]
      exact ⟨And.left, fun h ↦ ⟨h, hmem⟩⟩
  · intro id progress hp
    rw [forgetFinished_storeProgress] at hp
    split at hp
    · cases hp
    · next hmem =>
      rcases hs.progress id progress hp with hun | howned
      · exact absurd ((hl id).mpr hun) hmem
      · exact howned

/-- A step that lists the unlisted ends and disturbs no flag leaves clean tables and emits only
plans of current requests. -/
theorem buildConnectorMeta_sound {s : System} (hs : Isolated config s) {output : SchedulerOutput}
    (ha : Admissible s (.build output)) (hu : Undisturbed s (.build output))
    {st : SchedulerState} {metadata : SpoolCacheMetadata}
    (h : buildConnectorMeta config s.st output = .ok (st, metadata)) :
    Clean config s.current st ∧ ∀ p ∈ metadata.stores, PlanOwned config s.current p := by
  obtain ⟨⟨st₁, fromNew⟩, h₁, h⟩ := bind_ok h
  obtain ⟨⟨st₂, fromCached⟩, h₂, h⟩ := bind_ok h
  obtain ⟨admission, h₃, h⟩ := bind_ok h
  cases h
  obtain ⟨hst₁, hnew⟩ := collectPlans_inv
    (fun data hd ↦ trackNewRequest_sound output (ha.2 data hd))
    (clean_forgetFinished hs ha.1 hu) h₁
  obtain ⟨hst₂, hcached⟩ := collectPlans_inv
    (fun cached _ ↦ trackCachedRequest_sound output cached) hst₁ h₂
  refine ⟨hst₂, ?_⟩
  intro p hp
  rcases List.mem_append.mp (admitStorePlans_subset h₃ hp) with hp | hp
  · exact hnew p hp
  · exact hcached p hp

/-! ### Runs keep requests apart -/

private theorem flagged_onNewRequest {current : String → Option Request} {st : SchedulerState}
    (hf : Flagged current st) (request : Request) :
    Flagged (Function.update current request.requestId (some request))
      (onNewRequest st request) := by
  have hsalts : (onNewRequest st request).requestSalts =
      st.requestSalts.set request.requestId ((requestCacheSalt request).filter (· ≠ "")) := by
    unfold onNewRequest
    dsimp only
    split <;> rfl
  refine ⟨?_, ?_⟩
  · intro id r hc
    rw [hsalts, OrderedDict.get?_set]
    by_cases he : id = request.requestId
    · rw [if_pos he, Option.join_some]
      rw [he, Function.update_self] at hc
      cases hc
      rfl
    · rw [if_neg he]
      rw [Function.update_of_ne he] at hc
      exact hf.salt id r hc
  · intro id r hc
    unfold onNewRequest
    dsimp only
    by_cases he : id = request.requestId
    · rw [he, Function.update_self] at hc
      cases hc
      split
      · next hs => simp [he, hs]
      · next hs => simp [he, hs]
    · rw [Function.update_of_ne he] at hc
      rw [← hf.skip id r hc]
      split
      · simp [he]
      · simp [he]

/-- A lookup changes only the admitted restores. -/
theorem getNumNewMatchedTokens_frame {st st' : SchedulerState} {request : Request}
    {computed : PyInt} {n : Nat}
    (h : getNumNewMatchedTokens config st request computed = .ok (st', n)) :
    ∃ needLoad, st' = { st with needLoad } := by
  unfold getNumNewMatchedTokens at h
  split at h
  · cases h
    exact ⟨st.needLoad, rfl⟩
  · split at h
    · cases h
      exact ⟨st.needLoad, rfl⟩
    · obtain ⟨selected, -, h⟩ := bind_ok h
      cases selected with
      | none =>
        cases h
        exact ⟨st.needLoad, rfl⟩
      | some selected =>
        dsimp only at h
        split at h
        · cases h
          exact ⟨st.needLoad, rfl⟩
        · split at h
          · cases h
          · cases h
            exact ⟨_, rfl⟩

/-- An allocation changes only the restores. -/
theorem updateStateAfterAlloc_frame {st st' : SchedulerState} {request : Request}
    {blocks : List (List PyInt)} {external : PyInt}
    (h : updateStateAfterAlloc config st request blocks external = .ok st') :
    ∃ needLoad pendingLoads, st' = { st with needLoad, pendingLoads } := by
  unfold updateStateAfterAlloc at h
  split at h
  · dsimp only at h
    split at h
    · cases h
      exact ⟨_, _, rfl⟩
    · split at h
      · cases h
      · split at h
        · cases h
        · obtain ⟨blockIds, -, h⟩ := bind_ok h
          obtain ⟨pages, -, h⟩ := bind_ok h
          cases h
          exact ⟨_, _, rfl⟩
  · cases h

/-- Every event keeps the requests apart. -/
theorem isolated_step {s s' : System} {event : Event} {plans : List SpoolCachePlan}
    (hs : Isolated config s) (ha : Admissible s event) (hu : Undisturbed s event)
    (h : step config s event = .ok (s', plans)) : Isolated config s' := by
  cases event with
  | add request =>
    cases h
    refine ⟨flagged_onNewRequest hs.flagged request, ?_⟩
    intro id progress hp
    have hprogress : (s.add request).st.storeProgress = s.st.storeProgress := by
      unfold System.add onNewRequest
      dsimp only
      split <;> rfl
    rw [hprogress] at hp
    rcases hs.progress id progress hp with hun | ⟨r, hc, ho⟩
    · exact .inl hun
    · -- the identifier was free, so its tracked store is not of the added request
      have hne : id ≠ request.requestId := by
        rintro rfl
        have ha' : s.current request.requestId = none := ha
        rw [ha'] at hc
        cases hc
      exact .inr ⟨r, (Function.update_of_ne hne _ _).trans hc, ho⟩
  | finish requestId =>
    cases h
    have hcur : ∀ id r, Function.update s.current requestId none id = some r →
        s.current id = some r ∧ id ≠ requestId := by
      intro id r hc
      by_cases he : id = requestId
      · rw [he, Function.update_self] at hc
        cases hc
      · rw [Function.update_of_ne he] at hc
        exact ⟨hc, he⟩
    refine ⟨⟨fun id r hc ↦ hs.flagged.salt id r (hcur id r hc).1,
      fun id r hc ↦ hs.flagged.skip id r (hcur id r hc).1⟩, ?_⟩
    intro id progress hp
    rcases hs.progress id progress hp with hun | ⟨r, hc, ho⟩
    · exact .inl (List.mem_cons_of_mem _ hun)
    · by_cases he : id = requestId
      · exact .inl (by rw [he]; exact List.mem_cons_self)
      · exact .inr ⟨r, (Function.update_of_ne he _ _).trans hc, ho⟩
  | catalog catalog =>
    cases h
    exact ⟨⟨hs.flagged.salt, hs.flagged.skip⟩, hs.progress⟩
  | lookup request computed =>
    obtain ⟨⟨st, n⟩, hst, h⟩ := bind_ok h
    cases h
    obtain ⟨needLoad, rfl⟩ := getNumNewMatchedTokens_frame hst
    exact ⟨⟨hs.flagged.salt, hs.flagged.skip⟩, hs.progress⟩
  | alloc request blocks external =>
    obtain ⟨st, hst, h⟩ := bind_ok h
    cases h
    obtain ⟨needLoad, pendingLoads, rfl⟩ := updateStateAfterAlloc_frame hst
    exact ⟨⟨hs.flagged.salt, hs.flagged.skip⟩, hs.progress⟩
  | build output =>
    obtain ⟨⟨st, metadata⟩, hst, h⟩ := bind_ok h
    cases h
    obtain ⟨hclean, -⟩ := buildConnectorMeta_sound hs ha hu hst
    exact ⟨hclean.flagged, fun id progress hp ↦ .inr (hclean.progress id progress hp)⟩

private theorem isolated_of_reached {s : System} (h : Reached config Undisturbed s) :
    Isolated config s := by
  induction h with
  | initial =>
    refine ⟨⟨fun id r hc ↦ (by cases hc), fun id r hc ↦ (by cases hc)⟩, ?_⟩
    intro id progress hp
    cases hp
  | step _ ha hu hstep ih => exact isolated_step ih ha hu hstep

/-- In every run whose steps are undisturbed, every plan that an undisturbed event emits belongs
to the current request of its identifier: it carries the keys of that request's own salt, which
is valid, and the request does not skip writes. -/
theorem store_plans_isolated (config : ConnectorConfig) {s s' : System} {event : Event}
    {plans : List SpoolCachePlan} (hr : Reached config Undisturbed s)
    (ha : Admissible s event) (hu : Undisturbed s event) (h : step config s event = .ok (s', plans)) :
    ∀ plan ∈ plans, PlanOwned config s.current plan := by
  cases event with
  | build output =>
    obtain ⟨⟨st, metadata⟩, hst, h⟩ := bind_ok h
    cases h
    exact (buildConnectorMeta_sound (isolated_of_reached hr) ha hu hst).2
  | lookup request computed =>
    obtain ⟨_, -, h⟩ := bind_ok h
    cases h
    exact fun plan hp ↦ (by cases hp)
  | alloc request blocks external =>
    obtain ⟨_, -, h⟩ := bind_ok h
    cases h
    exact fun plan hp ↦ (by cases hp)
  | add request =>
    cases h
    exact fun plan hp ↦ (by cases hp)
  | finish requestId =>
    cases h
    exact fun plan hp ↦ (by cases hp)
  | catalog catalog =>
    cases h
    exact fun plan hp ↦ (by cases hp)

/-- A connector with one full group. -/
def fullSample : ConnectorConfig where
  deploymentDigest := .ofNat 7
  layout := fullSampleLayout
  multimodalModalities := []

/-- A request of one chunk. -/
def sampleRequest (skipWrite : Bool) : Request :=
  ⟨"r", .absent, false, skipWrite, some (List.replicate 256 0), false, false, .absent false⟩

/-- A step that schedules it with its prompt computed. -/
def sampleOutput (finished : List String) : SchedulerOutput where
  finishedReqIds := finished
  scheduledNewReqs :=
    [⟨"r", some (List.replicate 256 0), false, false, .absent false, [[some 5]], some 256⟩]
  scheduledCachedReqs := []
  numScheduledTokens := .empty

/-- The identifiers of the plans a step emits. -/
def emittedIds (s : System) (event : Event) : List String :=
  match step fullSample s event with
  | .ok (_, plans) => plans.map SpoolCachePlan.requestId
  | .error _ => []

private theorem exists_of_emittedIds {s : System} {event : Event} {id : String}
    (h : emittedIds s event = [id]) : ∃ s' plan plans, step fullSample s event = .ok (s', plans) ∧
      plan ∈ plans ∧ plan.requestId = id := by
  unfold emittedIds at h
  split at h
  · next s' plans hstep =>
    have hmem : id ∈ plans.map SpoolCachePlan.requestId := by
      rw [h]
      exact List.mem_singleton.mpr rfl
    obtain ⟨plan, hp, hid⟩ := List.mem_map.mp hmem
    exact ⟨s', plan, plans, hstep, hp, hid⟩
  · cases h

private theorem sampleOutput_admissible {s : System} {skipWrite : Bool} {finished : List String}
    (hl : ∀ id, id ∈ finished ↔ id ∈ s.unlisted) :
    Admissible (s.add (sampleRequest skipWrite)) (.build (sampleOutput finished)) := by
  refine ⟨hl, ?_⟩
  intro data hd
  rw [List.mem_singleton.mp hd]
  exact ⟨sampleRequest skipWrite, s.current_add (sampleRequest skipWrite), ⟨rfl, rfl, rfl, rfl⟩⟩

private theorem Reached.add {allowed : System → Event → Prop} {s : System}
    (h : Reached config allowed s) (request : Request)
    (hc : s.current request.requestId = none) (ha : allowed s (.add request)) :
    Reached config allowed (s.add request) :=
  h.step (show Admissible s (.add request) from hc) ha rfl

private theorem Reached.finish {allowed : System → Event → Prop} {s : System}
    (h : Reached config allowed s) (requestId : String) (ha : allowed s (.finish requestId)) :
    Reached config allowed (s.finish requestId) :=
  h.step (show Admissible s (.finish requestId) from trivial) ha rfl

/-- A request that skipped writes was aborted and added again without skipping them: the step that
lists the abort stores the second one. -/
theorem store_plans_isolated_resubmitted :
    ∃ s s' plan plans, s = ((System.initial.add (sampleRequest true)).finish "r").add
        (sampleRequest false) ∧
      step fullSample s (.build (sampleOutput ["r"])) = .ok (s', plans) ∧ plan ∈ plans ∧
      PlanOwned fullSample s.current plan := by
  let s := (System.initial.add (sampleRequest true)).finish "r"
  have hreached : Reached fullSample Undisturbed (s.add (sampleRequest false)) :=
    ((Reached.initial.add _ rfl trivial).finish "r" trivial).add _
      (System.current_finish _ "r") trivial
  have hu : Undisturbed (s.add (sampleRequest false)) (.build (sampleOutput ["r"])) := by
    intro id hid request hrequest
    rw [List.mem_singleton.mp hid] at hrequest
    have hcurrent := s.current_add (sampleRequest false)
    cases hrequest.symm.trans hcurrent
    exact ⟨rfl, rfl⟩
  obtain ⟨s', plan, plans, hstep, hp, -⟩ := exists_of_emittedIds
    (show emittedIds (s.add (sampleRequest false)) (.build (sampleOutput ["r"])) = ["r"] by
      decide +kernel)
  exact ⟨_, s', plan, plans, rfl, hstep, hp, store_plans_isolated fullSample hreached
    (sampleOutput_admissible fun _ ↦ Iff.rfl) hu hstep plan hp⟩

/-- A request that was aborted and added again with writes skipped before the step that lists the
abort is stored all the same. -/
theorem skipped_request_stored :
    ¬ ∀ (config : ConnectorConfig) (s s' : System) (event : Event) (plans : List SpoolCachePlan),
      Reached config (fun _ _ ↦ True) s → Admissible s event →
      step config s event = .ok (s', plans) → ∀ plan ∈ plans, PlanOwned config s.current plan := by
  intro hclaim
  let s := (System.initial.add (sampleRequest false)).finish "r"
  have hreached : Reached fullSample (fun _ _ ↦ True) (s.add (sampleRequest true)) :=
    ((Reached.initial.add _ rfl trivial).finish "r" trivial).add _
      (System.current_finish _ "r") trivial
  obtain ⟨s', plan, plans, hstep, hp, hid⟩ := exists_of_emittedIds
    (show emittedIds (s.add (sampleRequest true)) (.build (sampleOutput ["r"])) = ["r"] by
      decide +kernel)
  obtain ⟨request, _, _, _, hc, hskip, -⟩ := hclaim fullSample _ s' _ plans hreached
    (sampleOutput_admissible fun _ ↦ Iff.rfl) hstep plan hp
  rw [hid] at hc
  have hrequest : request = sampleRequest true :=
    Option.some.inj (hc.symm.trans (s.current_add (sampleRequest true)))
  rw [hrequest] at hskip
  cases hskip

end SpoolCache.Connector

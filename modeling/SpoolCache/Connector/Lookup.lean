import SpoolCache.Connector.Isolation
import SpoolCache.Connector.LockStep
import SpoolCache.Prefix.Universe

/-!
# What the scheduler plans

A load plan of a step names a prefix of a looked-up request all of whose keys have quorum in the
catalog of that step. A store plan carries the keys of a tracked request.
-/

namespace SpoolCache.Connector

open SpoolCache.Base SpoolCache.Layout SpoolCache.Prefix SpoolCache.Quorum
open PrefixRequest (Keyed KeyAt)

/-! ### Requests of a run -/

/-- What is hashed for a request with these tokens and media. -/
def hashedRequest (config : ConnectorConfig) (tokenIds : Option (List Int)) (media : RawMedia)
    (salt : String) : Option PrefixRequest := do
  let tokens ← tokenIds
  let features ← multimodalFeatureIdentities media tokens.length config.multimodalModalities
  pure ⟨config.deploymentDigest, salt, tokens, features⟩

/-- The request that a lookup hashes for. -/
def Request.prefixRequest (config : ConnectorConfig) (request : Request) : Option PrefixRequest :=
  (requestCacheSalt request).bind
    (hashedRequest config
      (eligibleTokenIds request.promptTokenIds request.promptEmbeds request.loraRequest)
      request.media)

/-- The request that the store of a new request hashes for, with its salt. -/
def NewRequestData.prefixRequest (config : ConnectorConfig) (data : NewRequestData)
    (salt : String) : Option PrefixRequest :=
  hashedRequest config
    (eligibleTokenIds data.promptTokenIds data.promptEmbeds data.loraRequest) data.media salt

/-- The request that a tracked store hashes for. -/
def StoreProgress.prefixRequest (config : ConnectorConfig) (progress : StoreProgress) :
    PrefixRequest :=
  ⟨config.deploymentDigest, progress.cacheSalt, progress.tokenIds, progress.multimodalFeatures⟩

/-- The salt of a call. -/
def SchedulerCall.salt : SchedulerCall → Option String
  | .onNewRequest request => requestCacheSalt request
  | _ => none

/-- The request a call hashes for. -/
def SchedulerCall.prefixRequest (config : ConnectorConfig) :
    SchedulerCall → Option PrefixRequest
  | .lookup request _ => request.prefixRequest config
  | _ => none

/-- The salts that a run can attach to a store. -/
def runSalts (inputs : List EngineInput) : List String :=
  "" :: inputs.flatMap fun input ↦ input.calls.filterMap SchedulerCall.salt

/-- The requests that a step hashes for, with these salts. -/
def EngineInput.requests (config : ConnectorConfig) (salts : List String) (input : EngineInput) :
    List PrefixRequest :=
  input.calls.filterMap (SchedulerCall.prefixRequest config) ++
    input.output.scheduledNewReqs.flatMap fun data ↦
      salts.filterMap fun salt ↦ data.prefixRequest config salt

/-- The requests that a run hashes for. -/
def runRequests (config : ConnectorConfig) (inputs : List EngineInput) : List PrefixRequest :=
  inputs.flatMap (EngineInput.requests config (runSalts inputs))

/-- A step stays within some salts and requests. -/
structure Within (config : ConnectorConfig) (salts : List String) (requests : List PrefixRequest)
    (input : EngineInput) : Prop where
  empty : "" ∈ salts
  calls : ∀ call ∈ input.calls, ∀ salt ∈ call.salt, salt ∈ salts
  lookups : ∀ call ∈ input.calls, ∀ r ∈ call.prefixRequest config, r ∈ requests
  stores : ∀ data ∈ input.output.scheduledNewReqs, ∀ salt ∈ salts,
    ∀ r ∈ data.prefixRequest config salt, r ∈ requests

/-- Every step of a run stays within the run's own salts and requests. -/
theorem within_run {config : ConnectorConfig} {inputs : List EngineInput} {input : EngineInput}
    (h : input ∈ inputs) (more : List PrefixRequest) :
    Within config (runSalts inputs) (more ++ runRequests config inputs) input := by
  have hmem : ∀ r ∈ input.requests config (runSalts inputs),
      r ∈ more ++ runRequests config inputs := fun r hr ↦
    List.mem_append_right _ (List.mem_flatMap.mpr ⟨input, h, hr⟩)
  refine ⟨List.mem_cons_self, ?_, ?_, ?_⟩
  · intro call hc salt hs
    exact List.mem_cons_of_mem _
      (List.mem_flatMap.mpr ⟨input, h, List.mem_filterMap.mpr ⟨call, hc, hs⟩⟩)
  · intro call hc r hr
    exact hmem r (List.mem_append_left _ (List.mem_filterMap.mpr ⟨call, hc, hr⟩))
  · intro data hd salt hs r hr
    exact hmem r (List.mem_append_right _
      (List.mem_flatMap.mpr ⟨data, hd, List.mem_filterMap.mpr ⟨salt, hs, hr⟩⟩))

section

variable {config : ConnectorConfig} {salts : List String} {requests : List PrefixRequest}

/-! ### Selected prefixes -/

/-- A prefix of a request: each of its keys has quorum, and its state key where there is one. -/
structure Offered (config : ConnectorConfig) (c : QuorumCatalog) (r : PrefixRequest) (m : Nat) :
    Prop where
  keyed : ∀ i < m + 1, KeyAt r config.layout.chunkTokens i
  data : ∀ i < m + 1, c.hasQuorum (r.key config.layout.chunkTokens (i + 1))
    (some ((i + 1) * config.layout.chunkTokens)) = true
  state : hasBoundaryQuorum config (some c) (r.key config.layout.chunkTokens (m + 1))
    ((m + 1) * config.layout.chunkTokens) = true

/-- An entry and span name an offered prefix of one of these requests. -/
def Names (config : ConnectorConfig) (requests : List PrefixRequest) (c : QuorumCatalog)
    (entryId : Digest) (span : Nat) : Prop :=
  ∃ r ∈ requests, ∃ m, Offered config c r m ∧
    entryId = r.key config.layout.chunkTokens (m + 1) ∧
    span = (m + 1) * config.layout.chunkTokens

/-- A selected candidate and every candidate before it have quorum. -/
theorem selectPrefix_some {c : QuorumCatalog} {first : Nat} {candidates : List PrefixDigest}
    {selected : Option (Nat × Digest)} {span : Nat} {entryId : Digest}
    (h : selectPrefix config c first candidates selected = some (span, entryId)) :
    selected = some (span, entryId) ∨
      ∃ i : Nat, candidates[i]? = some (⟨span, entryId⟩ : PrefixDigest) ∧
        hasBoundaryQuorum config (some c) entryId span = true ∧
        ∀ j ≤ i, ∀ p : PrefixDigest, candidates[j]? = some p →
          c.hasQuorum p.digest (some p.spanTokens) = true := by
  induction candidates generalizing selected with
  | nil => exact .inl h
  | cons candidate candidates ih =>
    unfold selectPrefix at h
    split at h
    · exact .inl h
    · next hq =>
      rw [not_not] at hq
      have hlater : ∀ {i : Nat}, (∀ j ≤ i, ∀ p : PrefixDigest, candidates[j]? = some p →
          c.hasQuorum p.digest (some p.spanTokens) = true) →
          ∀ j ≤ i + 1, ∀ p : PrefixDigest, (candidate :: candidates)[j]? = some p →
            c.hasQuorum p.digest (some p.spanTokens) = true := by
        intro i hi j hj p hp
        cases j with
        | zero =>
          cases hp
          exact hq
        | succ j => exact hi j (by omega) p hp
      split at h
      · next hgood =>
        rcases ih h with hsel | ⟨i, hi, hb, hall⟩
        · cases hsel
          refine .inr ⟨0, rfl, hgood.2.2, ?_⟩
          intro j hj p hp
          obtain rfl : j = 0 := by omega
          cases hp
          exact hq
        · exact .inr ⟨i + 1, hi, hb, hlater hall⟩
      · rcases ih h with hsel | ⟨i, hi, hb, hall⟩
        · exact .inl hsel
        · exact .inr ⟨i + 1, hi, hb, hlater hall⟩

/-- What a lookup finds is an offered prefix of its request. -/
theorem matchedPrefix_names {c : QuorumCatalog} {request : Request} {computed : PyInt}
    {span : Nat} {entryId : Digest}
    (hr : ∀ r ∈ request.prefixRequest config, r ∈ requests)
    (h : matchedPrefix config c request computed = .ok (some (span, entryId))) :
    Names config requests c entryId span := by
  unfold matchedPrefix at h
  split at h
  · cases h
  · next salt hsalt =>
    split at h
    · cases h
    · next tokens htokens =>
      split at h
      · cases h
      · split at h
        · cases h
        · split at h
          · cases h
          · next features hfeatures =>
            dsimp only at h
            split at h
            · cases h
            · obtain ⟨candidates, hd, h⟩ := bind_ok h
              have hsel := Except.ok.inj h
              obtain ⟨-, ⟨n, hn⟩, -⟩ := alignedPrefixSpan_spec tokens.length
                config.layout.alignmentTokens config.layout.chunkTokens config.layout.chunkTokens
                none
              have hceil : config.layout.safeRestoreSpan tokens.length =
                  n * config.layout.chunkTokens := hn.trans (Nat.mul_comm _ _)
              rw [hceil] at hd
              obtain ⟨hkeyed, rfl⟩ := PrefixRequest.keyed_of_digests
                (r := ⟨config.deploymentDigest, salt, tokens, features⟩) hd
              have hmem : (⟨config.deploymentDigest, salt, tokens, features⟩ : PrefixRequest) ∈
                  requests := by
                apply hr
                simp [Request.prefixRequest, hashedRequest, hsalt, htokens, hfeatures]
              rcases selectPrefix_some hsel with hnone | ⟨m, hm, hb, hall⟩
              · cases hnone
              · rw [PrefixRequest.keys, List.getElem?_map, Option.map_eq_some_iff] at hm
                obtain ⟨m', hm', he⟩ := hm
                obtain ⟨hlt, hget⟩ := List.getElem?_eq_some_iff.mp hm'
                rw [List.getElem_range] at hget
                rw [List.length_range] at hlt
                subst hget
                cases he
                refine ⟨_, hmem, m, ⟨fun i hi ↦ hkeyed.keyAt (by omega), ?_, hb⟩, rfl, rfl⟩
                intro i hi
                apply hall i (by omega) ⟨(i + 1) * config.layout.chunkTokens, _⟩
                rw [PrefixRequest.keys, List.getElem?_map, List.getElem?_range (by omega)]
                rfl

/-! ### Calls of a step -/

/-- The tables name only salts and requests of the run. -/
structure Known (config : ConnectorConfig) (salts : List String) (requests : List PrefixRequest)
    (st : SchedulerState) : Prop where
  salt : ∀ id salt, st.requestSalts.get? id = some (some salt) → salt ∈ salts
  progress : ∀ id progress, st.storeProgress.get? id = some progress →
    progress.prefixRequest config ∈ requests

/-- What holds between the calls of a step: a restore that can still be allocated, and one that is
planned, is offered by the catalog of the step. -/
structure Passing (config : ConnectorConfig) (salts : List String) (requests : List PrefixRequest)
    (c : QuorumCatalog) (st : SchedulerState) (counts : OrderedDict String Nat) : Prop where
  catalog : st.catalog = some c
  known : Known config salts requests st
  admitted : ∀ id count, counts.get? id = some count → count ≠ 0 →
    ∀ entryId span expected, st.needLoad.get? id = some (entryId, span, expected) →
      Names config requests c entryId span
  planned : ∀ id plan, st.pendingLoads.get? id = some plan →
    Names config requests c plan.entryId plan.spanTokens ∧
      ∃ pages, config.layout.selectPhysicalPages plan.blockIdsByGroup plan.spanTokens = .ok pages

/-- A lookup that returns a count admits an offered prefix. -/
theorem getNumNewMatchedTokens_cases {c : QuorumCatalog} {st st' : SchedulerState}
    {request : Request} {computed : PyInt} {n : Nat} (hc : st.catalog = some c)
    (hr : ∀ r ∈ request.prefixRequest config, r ∈ requests)
    (h : getNumNewMatchedTokens config st request computed = .ok (st', n)) :
    (n = 0 ∧ st' = st) ∨ ∃ entryId span, Names config requests c entryId span ∧
      st' = { st with needLoad := st.needLoad.set request.requestId (entryId, span, n) } := by
  unfold getNumNewMatchedTokens at h
  split at h
  · cases h
    exact .inl ⟨rfl, rfl⟩
  · simp only [hc] at h
    obtain ⟨selected, hm, h⟩ := bind_ok h
    cases selected with
    | none =>
      cases h
      exact .inl ⟨rfl, rfl⟩
    | some selected =>
      obtain ⟨span, entryId⟩ := selected
      dsimp only at h
      split at h
      · cases h
        exact .inl ⟨rfl, rfl⟩
      · split at h
        · cases h
        · cases h
          exact .inr ⟨entryId, span, matchedPrefix_names hr hm, by rw [hc]⟩

/-- An allocation plans the admitted restore, or drops it. -/
theorem updateStateAfterAlloc_cases {st st' : SchedulerState} {request : Request}
    {blocks : List (List PyInt)} {count : Nat}
    (h : updateStateAfterAlloc config st request blocks (some (Int.ofNat count)) = .ok st') :
    st' = { st with needLoad := st.needLoad.erase request.requestId } ∨
      ∃ entryId span blockIds pages, count ≠ 0 ∧
        st.needLoad.get? request.requestId = some (entryId, span, count) ∧
        config.layout.selectPhysicalPages blockIds span = .ok pages ∧
        st' = { st with
          needLoad := st.needLoad.erase request.requestId
          pendingLoads := st.pendingLoads.set request.requestId
            ⟨request.requestId, entryId, span, blockIds, []⟩ } := by
  unfold updateStateAfterAlloc at h
  dsimp only at h
  split at h
  · cases h
    exact .inl rfl
  · next hcount =>
    split at h
    · cases h
    · next entryId span expected hget =>
      split at h
      · cases h
      · next hexp =>
        obtain ⟨blockIds, -, h⟩ := bind_ok h
        obtain ⟨pages, hpages, h⟩ := bind_ok h
        cases h
        rw [not_not] at hexp
        rw [← hexp] at hget
        exact .inr ⟨entryId, span, blockIds, pages, hcount, hget, hpages, rfl⟩

private theorem known_onNewRequest {st : SchedulerState} (hst : Known config salts requests st)
    {request : Request} (hs : ∀ salt ∈ requestCacheSalt request, salt ∈ salts) :
    Known config salts requests (onNewRequest st request) := by
  have hsalts : (onNewRequest st request).requestSalts =
      st.requestSalts.set request.requestId ((requestCacheSalt request).filter (· ≠ "")) := by
    unfold onNewRequest
    dsimp only
    split <;> rfl
  have hprogress : (onNewRequest st request).storeProgress = st.storeProgress := by
    unfold onNewRequest
    dsimp only
    split <;> rfl
  refine ⟨?_, ?_⟩
  · intro id salt h
    rw [hsalts, OrderedDict.get?_set] at h
    split at h
    · rw [Option.some.injEq, Option.filter_eq_some_iff] at h
      exact hs salt h.1
    · exact hst.salt id salt h
  · intro id progress h
    rw [hprogress] at h
    exact hst.progress id progress h

/-- Every call of a step keeps planned restores offered. -/
theorem passing_schedulerCall {c : QuorumCatalog} {st st' : SchedulerState}
    {counts counts' : OrderedDict String Nat} {call : SchedulerCall}
    (hst : Passing config salts requests c st counts)
    (hsalt : ∀ salt ∈ call.salt, salt ∈ salts)
    (hr : ∀ r ∈ call.prefixRequest config, r ∈ requests)
    (h : schedulerCall config st counts call = .ok (st', counts')) :
    Passing config salts requests c st' counts' := by
  cases call with
  | onNewRequest request =>
    cases h
    have hframe : ∃ requestSalts skipWriteRequests,
        onNewRequest st request = { st with requestSalts, skipWriteRequests } := by
      unfold onNewRequest
      dsimp only
      split <;> exact ⟨_, _, rfl⟩
    have hknown := known_onNewRequest hst.known hsalt
    obtain ⟨requestSalts, skipWriteRequests, he⟩ := hframe
    rw [he] at hknown ⊢
    exact ⟨hst.catalog, hknown, hst.admitted, hst.planned⟩
  | lookup request computed =>
    obtain ⟨⟨st₁, n⟩, hl, h⟩ := bind_ok h
    cases h
    rcases getNumNewMatchedTokens_cases hst.catalog hr hl with ⟨rfl, rfl⟩ | ⟨entryId, span, hn, rfl⟩
    · refine ⟨hst.catalog, hst.known, ?_, hst.planned⟩
      intro id count hcount hne
      rw [OrderedDict.get?_set] at hcount
      split at hcount
      · cases hcount
        exact absurd rfl hne
      · exact hst.admitted id count hcount hne
    · refine ⟨hst.catalog, ⟨hst.known.salt, hst.known.progress⟩, ?_, hst.planned⟩
      intro id count hcount hne e s x hget
      dsimp only at hget
      rw [OrderedDict.get?_set] at hcount hget
      by_cases he : id = request.requestId
      · rw [if_pos he] at hget
        cases hget
        exact hn
      · rw [if_neg he] at hcount hget
        exact hst.admitted id count hcount hne e s x hget
  | alloc request blocks =>
    obtain ⟨st₁, ha, h⟩ := bind_ok h
    cases h
    have herased : ∀ id count, (counts.erase request.requestId).get? id = some count → count ≠ 0 →
        ∀ e s x, (st.needLoad.erase request.requestId).get? id = some (e, s, x) →
          Names config requests c e s := by
      intro id count hcount hne e s x hget
      rw [OrderedDict.get?_erase] at hcount hget
      split at hget
      · cases hget
      · next hid =>
        rw [if_neg hid] at hcount
        exact hst.admitted id count hcount hne e s x hget
    rcases updateStateAfterAlloc_cases ha with rfl | ⟨e, s, blockIds, pages, hne, hget, hpages, rfl⟩
    · exact ⟨hst.catalog, ⟨hst.known.salt, hst.known.progress⟩, herased, hst.planned⟩
    · refine ⟨hst.catalog, ⟨hst.known.salt, hst.known.progress⟩, herased, ?_⟩
      intro id plan hplan
      dsimp only at hplan
      rw [OrderedDict.get?_set] at hplan
      split at hplan
      · cases hplan
        cases hcount : counts.get? request.requestId with
        | none =>
          rw [hcount] at hne
          exact absurd rfl hne
        | some count =>
          rw [hcount] at hne
          exact ⟨hst.admitted _ count hcount hne _ _ _ hget, pages, hpages⟩
      · exact hst.planned id plan hplan

private theorem passing_schedulerCalls {c : QuorumCatalog} {calls : List SchedulerCall}
    {st st' : SchedulerState} {counts : OrderedDict String Nat}
    (hst : Passing config salts requests c st counts)
    (hsalt : ∀ call ∈ calls, ∀ salt ∈ call.salt, salt ∈ salts)
    (hr : ∀ call ∈ calls, ∀ r ∈ call.prefixRequest config, r ∈ requests)
    (h : schedulerCalls config st counts calls = .ok st') :
    ∃ counts', Passing config salts requests c st' counts' := by
  induction calls generalizing st counts with
  | nil =>
    cases h
    exact ⟨counts, hst⟩
  | cons call calls ih =>
    obtain ⟨⟨st₁, counts₁⟩, h₁, h⟩ := bind_ok h
    exact ih
      (passing_schedulerCall hst (hsalt call List.mem_cons_self) (hr call List.mem_cons_self) h₁)
      (fun call' hc ↦ hsalt call' (List.mem_cons_of_mem _ hc))
      (fun call' hc ↦ hr call' (List.mem_cons_of_mem _ hc)) h

/-! ### Building a step -/

/-- A store plan carries the keys of a request. -/
def Stores (config : ConnectorConfig) (requests : List PrefixRequest) (plan : SpoolCachePlan) :
    Prop :=
  ∃ r ∈ requests, ∃ n, Keyed r config.layout.chunkTokens n ∧
    plan.keys = r.keys config.layout.chunkTokens n

private theorem stores_of_decideStore {st : SchedulerState} {requestId : String}
    {progress : StoreProgress} {before scheduled : PyInt} {tracked : Bool} {plan : SpoolCachePlan}
    (hp : progress.prefixRequest config ∈ requests)
    (h : decideStore config st requestId progress before scheduled = .ok (tracked, some plan)) :
    Stores config requests plan := by
  obtain ⟨-, hd, hdvd⟩ := decideStore_ok h
  obtain ⟨n, hn⟩ := hdvd
  rw [hn, Nat.mul_comm] at hd
  exact ⟨_, hp, n, PrefixRequest.keyed_of_digests (r := progress.prefixRequest config) hd⟩

/-- What building a step keeps. -/
structure Building (config : ConnectorConfig) (salts : List String) (requests : List PrefixRequest)
    (catalog : Option QuorumCatalog) (st : SchedulerState) : Prop where
  catalog : st.catalog = catalog
  loads : st.pendingLoads = .empty
  known : Known config salts requests st

private theorem Building.set {catalog : Option QuorumCatalog} {st : SchedulerState}
    (hst : Building config salts requests catalog st) (id : String) {progress : StoreProgress}
    (hp : progress.prefixRequest config ∈ requests) :
    Building config salts requests catalog
      { st with storeProgress := st.storeProgress.set id progress } := by
  refine ⟨hst.catalog, hst.loads, hst.known.salt, ?_⟩
  intro a p h
  dsimp only at h
  rw [OrderedDict.get?_set] at h
  split at h
  · cases h
    exact hp
  · exact hst.known.progress a p h

private theorem Building.erase {catalog : Option QuorumCatalog} {st : SchedulerState}
    (hst : Building config salts requests catalog st) (id : String) :
    Building config salts requests catalog
      { st with storeProgress := st.storeProgress.erase id } := by
  refine ⟨hst.catalog, hst.loads, hst.known.salt, ?_⟩
  intro a p h
  exact hst.known.progress a p ((OrderedDict.SubDict.refl _).erase_left id a p h)

private theorem newProgress_known {catalog : Option QuorumCatalog} {st : SchedulerState}
    {data : NewRequestData} {progress : StoreProgress} (hempty : "" ∈ salts)
    (hst : Building config salts requests catalog st)
    (hd : ∀ salt ∈ salts, ∀ r ∈ data.prefixRequest config salt, r ∈ requests)
    (h : newProgress config st data = .ok (some progress)) :
    progress.prefixRequest config ∈ requests := by
  unfold newProgress at h
  split at h
  · cases h
  · split at h
    · cases h
    · next tokens htokens =>
      split at h
      · cases h
      · next features hfeatures =>
        dsimp only at h
        split at h
        · cases h
        · obtain ⟨cached, -, h⟩ := bind_ok h
          split at h
          · cases h
          · cases h
            have hsalt : ((st.requestSalts.get? data.reqId).join).getD "" ∈ salts := by
              cases hs : (st.requestSalts.get? data.reqId).join with
              | none => exact hempty
              | some salt => exact hst.known.salt _ salt (Option.join_eq_some_iff.mp hs)
            apply hd _ hsalt
            simp [NewRequestData.prefixRequest, hashedRequest, htokens, hfeatures,
              StoreProgress.prefixRequest]

private theorem trackNewRequest_building {catalog : Option QuorumCatalog} {output : SchedulerOutput}
    {data : NewRequestData} (hempty : "" ∈ salts)
    (hd : ∀ salt ∈ salts, ∀ r ∈ data.prefixRequest config salt, r ∈ requests)
    (st st' : SchedulerState) (plan : Option SpoolCachePlan)
    (hst : Building config salts requests catalog st)
    (h : trackNewRequest config output st data = .ok (st', plan)) :
    Building config salts requests catalog st' ∧ ∀ p ∈ plan, Stores config requests p := by
  obtain ⟨progress, hp, h⟩ := bind_ok h
  cases progress with
  | none =>
    cases h
    exact ⟨hst, fun p hp ↦ (by cases hp)⟩
  | some progress =>
    have hknown := newProgress_known hempty hst hd hp
    obtain ⟨⟨tracked, emitted⟩, hdec, h⟩ := bind_ok h
    dsimp only at h
    split at h
    · cases h
      exact ⟨hst.set _ hknown, fun p hp ↦ (by cases hp)⟩
    · cases h
      refine ⟨hst, ?_⟩
      intro p hp
      rw [Option.mem_def] at hp
      rw [hp] at hdec
      exact stores_of_decideStore hknown hdec

private theorem prefixRequest_extendBlockIds {progress progress' : StoreProgress}
    {cached : CachedRequestData} (h : extendBlockIds progress cached = some progress') :
    progress'.prefixRequest config = progress.prefixRequest config := by
  unfold extendBlockIds at h
  split at h
  · cases h
    rfl
  · split at h
    · cases h
    · split at h
      · cases h
        rfl
      · cases h
        rfl

private theorem trackCachedRequest_building {catalog : Option QuorumCatalog}
    {output : SchedulerOutput}
    {cached : CachedRequestData} (st st' : SchedulerState) (plan : Option SpoolCachePlan)
    (hst : Building config salts requests catalog st)
    (h : trackCachedRequest config output st cached = .ok (st', plan)) :
    Building config salts requests catalog st' ∧ ∀ p ∈ plan, Stores config requests p := by
  unfold trackCachedRequest at h
  cases hp : st.storeProgress.get? cached.reqId with
  | none =>
    rw [hp] at h
    cases h
    exact ⟨hst, fun p hp ↦ (by cases hp)⟩
  | some progress =>
    rw [hp] at h
    dsimp only at h
    cases he : extendBlockIds progress cached with
    | none =>
      rw [he] at h
      cases h
      exact ⟨hst.erase _, fun p hp ↦ (by cases hp)⟩
    | some progress' =>
      rw [he] at h
      have hknown : progress'.prefixRequest config ∈ requests := by
        rw [prefixRequest_extendBlockIds he]
        exact hst.known.progress _ _ hp
      obtain ⟨⟨tracked, emitted⟩, hdec, h⟩ := bind_ok h
      dsimp only at h
      split at h
      · cases h
        exact ⟨hst.set _ hknown, fun p hp ↦ (by cases hp)⟩
      · cases h
        refine ⟨hst.erase _, ?_⟩
        intro p hp
        rw [Option.mem_def] at hp
        rw [hp] at hdec
        exact stores_of_decideStore hknown hdec

private theorem building_forgetFinished {catalog : Option QuorumCatalog} {st : SchedulerState}
    (hst : Building config salts requests catalog st) (ids : List String) :
    Building config salts requests catalog (forgetFinished st ids) := by
  induction ids generalizing st with
  | nil => exact hst
  | cons id ids ih =>
    apply ih
    refine ⟨hst.catalog, hst.loads, ?_, ?_⟩
    · intro a salt h
      exact hst.known.salt a salt ((OrderedDict.SubDict.refl _).erase_left id a _ h)
    · intro a p h
      exact hst.known.progress a p ((OrderedDict.SubDict.refl _).erase_left id a p h)

/-- What a step plans, and the tables it leaves. -/
structure Scheduled (config : ConnectorConfig) (salts : List String)
    (requests : List PrefixRequest) (c : QuorumCatalog) (st : SchedulerState)
    (metadata : SpoolCacheMetadata) : Prop where
  built : Building config salts requests (some c) st
  loads : ∀ plan ∈ metadata.loads, Names config requests c plan.entryId plan.spanTokens ∧
    ∃ pages, config.layout.selectPhysicalPages plan.blockIdsByGroup plan.spanTokens = .ok pages
  stores : ∀ plan ∈ metadata.stores, Stores config requests plan

/-- A step from tables without planned restores plans only what the catalog offers. -/
theorem scheduled_of_schedule {c : QuorumCatalog} {st st' : SchedulerState} {input : EngineInput}
    {metadata : SpoolCacheMetadata} (hst : Building config salts requests (some c) st)
    (hin : Within config salts requests input)
    (h : schedule config st input = .ok (st', metadata)) :
    Scheduled config salts requests c st' metadata := by
  obtain ⟨st₁, h₁, h⟩ := bind_ok h
  have hstart : Passing config salts requests c st .empty := by
    refine ⟨hst.catalog, hst.known, ?_, ?_⟩
    · intro id count hcount
      cases hcount
    · intro id plan hplan
      rw [hst.loads] at hplan
      cases hplan
  obtain ⟨counts, hpass⟩ := passing_schedulerCalls hstart hin.calls hin.lookups h₁
  obtain ⟨⟨st₂, fromNew⟩, h₂, h⟩ := bind_ok h
  obtain ⟨⟨st₃, fromCached⟩, h₃, h⟩ := bind_ok h
  obtain ⟨admission, h₄, h⟩ := bind_ok h
  cases h
  have hcleared : Building config salts requests (some c) { st₁ with pendingLoads := .empty } :=
    ⟨hpass.catalog, rfl, hpass.known.salt, hpass.known.progress⟩
  obtain ⟨hst₂, hnew⟩ := collectPlans_inv
    (fun data hd ↦ trackNewRequest_building hin.empty (hin.stores data hd))
    (building_forgetFinished hcleared input.output.finishedReqIds) h₂
  obtain ⟨hst₃, hcached⟩ := collectPlans_inv
    (fun cached _ ↦ trackCachedRequest_building) hst₂ h₃
  refine ⟨hst₃, ?_, ?_⟩
  · intro plan hp
    obtain ⟨⟨id, plan'⟩, hitem, rfl⟩ := List.mem_map.mp hp
    exact hpass.planned id plan' ((OrderedDict.get?_eq_some_iff _ _ _).mpr hitem)
  · intro plan hp
    rcases List.mem_append.mp (admitStorePlans_subset h₄ hp) with hp | hp
    · exact hnew plan hp
    · exact hcached plan hp

end

end SpoolCache.Connector

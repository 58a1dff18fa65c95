import SpoolCache.Connector.Isolation
import SpoolCache.Connector.LookupSpec

/-!
# Admission of restores

`connector.py:811–976`. vLLM looks requests up, allocates blocks for some of them with the count
of the lookup, and builds the metadata of the step. An admitted restore may be looked up again
after a failed allocation, dropped with a count of zero, or left behind by a request that
finishes. What a step loads is exactly what was allocated since the step before it.
-/

namespace SpoolCache.Connector

open SpoolCache.Base SpoolCache.Layout SpoolCache.Prefix SpoolCache.Quorum

/-! ### Runs -/

/-- A lookup that returned: the catalog it read, its arguments and the count it returned. -/
structure LookupRecord where
  catalog : Option QuorumCatalog
  request : Request
  numComputedTokens : PyInt
  count : Nat

/-- The identifier of the request that was looked up. -/
def LookupRecord.requestId (record : LookupRecord) : String := record.request.requestId

/-- The calls for requests since the last step; an allocation carries the lookup whose count it
passed. -/
inductive LoggedCall where
  | lookup (record : LookupRecord)
  | raised (requestId : String)
  | alloc (record : LookupRecord) (blocks : List (List PyInt))

/-- The request of a call. -/
def LoggedCall.requestId : LoggedCall → String
  | .lookup record => record.requestId
  | .raised requestId => requestId
  | .alloc record _ => record.requestId

/-- The connector with the calls since the last step, the newest first. -/
structure Admission where
  st : SchedulerState
  log : List LoggedCall

/-- The last call for a request. -/
def latest (log : List LoggedCall) (requestId : String) : Option LoggedCall :=
  log.find? fun call ↦ decide (call.requestId = requestId)

/-- The request was not allocated since the last step. -/
def Unallocated (log : List LoggedCall) (requestId : String) : Prop :=
  ∀ record blocks, .alloc record blocks ∈ log → record.requestId ≠ requestId

section

variable (config : ConnectorConfig)

/-- The lookup selected this entry and span. -/
def LookupRecord.Selects (record : LookupRecord) (entryId : Digest) (spanTokens : Nat) : Prop :=
  ∃ c ∈ record.catalog,
    matchedPrefix config c record.request record.numComputedTokens =
      .ok (some (spanTokens, entryId))

/-- An allocation that vLLM makes: its request's last call is a lookup, whose count it passes, and
a positive count comes with block tables that the page selection accepts for the looked-up span. -/
structure AllocAllowed (log : List LoggedCall) (request : Request) (record : LookupRecord)
    (blocks : List (List PyInt)) : Prop where
  requestId : record.requestId = request.requestId
  latest : latest log request.requestId = some (.lookup record)
  tables : record.count ≠ 0 → ∀ entryId spanTokens, record.Selects config entryId spanTokens →
    ∃ blockIds pages, normalizeBlockIds blocks = .ok blockIds ∧
      config.layout.selectPhysicalPages blockIds spanTokens = .ok pages

/-- One call. A request is not looked up again once it was allocated; reports may change the
catalog and requests may be added between any two calls. -/
inductive AdmissionStep : Admission → Admission → Prop
  | newRequest (a : Admission) (request : Request) :
      AdmissionStep a ⟨onNewRequest a.st request, a.log⟩
  | catalog (a : Admission) (catalog : Option QuorumCatalog) :
      AdmissionStep a ⟨{ a.st with catalog }, a.log⟩
  | lookup (a : Admission) (request : Request) (numComputedTokens : PyInt) (st : SchedulerState)
      (count : Nat) (unallocated : Unallocated a.log request.requestId)
      (returned : getNumNewMatchedTokens config a.st request numComputedTokens = .ok (st, count)) :
      AdmissionStep a
        ⟨st, .lookup ⟨a.st.catalog, request, numComputedTokens, count⟩ :: a.log⟩
  | lookupRaised (a : Admission) (request : Request) (numComputedTokens : PyInt) (error : PyError)
      (unallocated : Unallocated a.log request.requestId)
      (raised : getNumNewMatchedTokens config a.st request numComputedTokens = .error error) :
      AdmissionStep a ⟨a.st, .raised request.requestId :: a.log⟩
  | alloc (a : Admission) (request : Request) (record : LookupRecord)
      (blocks : List (List PyInt)) (st : SchedulerState)
      (allowed : AllocAllowed config a.log request record blocks)
      (returned : updateStateAfterAlloc config a.st request blocks (some record.count) = .ok st) :
      AdmissionStep a ⟨st, .alloc record blocks :: a.log⟩
  | build (a : Admission) (output : SchedulerOutput) (st : SchedulerState)
      (metadata : SpoolCacheMetadata)
      (returned : buildConnectorMeta config a.st output = .ok (st, metadata)) :
      AdmissionStep a ⟨st, []⟩

/-- The states of every run. -/
inductive Admitted : Admission → Prop
  | initial : Admitted ⟨.initial, []⟩
  | step {a b : Admission} (reached : Admitted a) (h : AdmissionStep config a b) : Admitted b

/-! ### What a step loads -/

/-- The allocation of a call, if it is one with a positive count. -/
def LoggedCall.positive : LoggedCall → Option (LookupRecord × List (List PyInt))
  | .alloc record blocks => if record.count = 0 then none else some (record, blocks)
  | _ => none

/-- The allocations with a positive count since the last step, in order. -/
def positiveAllocs (log : List LoggedCall) : List (LookupRecord × List (List PyInt)) :=
  log.reverse.filterMap LoggedCall.positive

/-- The plan carries the entry and span of the lookup and the block table of the allocation. -/
structure Carries (allocation : LookupRecord × List (List PyInt)) (plan : SpoolCachePlan) :
    Prop where
  requestId : plan.requestId = allocation.1.requestId
  selects : allocation.1.Selects config plan.entryId plan.spanTokens
  blocks : normalizeBlockIds allocation.2 = .ok plan.blockIdsByGroup
  prefixes : plan.prefixes = []

/-- What holds between two calls. -/
structure AdmissionInv (a : Admission) : Prop where
  budget : (a.st.needLoad.keys ++ a.st.pendingLoads.keys).dedup.length ≤ maxPendingRestores
  admitted : ∀ id record, latest a.log id = some (.lookup record) → record.count ≠ 0 →
    ∃ entryId spanTokens, record.Selects config entryId spanTokens ∧
      a.st.needLoad.get? id = some (entryId, spanTokens, record.count)
  unallocated : ∀ id record, latest a.log id = some (.lookup record) → Unallocated a.log id
  planned : List.Forall₂ (Carries config) (positiveAllocs a.log)
    (a.st.pendingLoads.items.map Prod.snd)
  keys : a.st.pendingLoads.keys = (positiveAllocs a.log).map fun p ↦ p.1.requestId

end

section

variable {config : ConnectorConfig}

/-! ### Logs -/

private theorem latest_cons (call : LoggedCall) (log : List LoggedCall) (id : String) :
    latest (call :: log) id = if call.requestId = id then some call else latest log id := by
  unfold latest
  rw [List.find?_cons]
  by_cases h : call.requestId = id <;> simp [h]

private theorem positiveAllocs_cons (call : LoggedCall) (log : List LoggedCall) :
    positiveAllocs (call :: log) = positiveAllocs log ++ call.positive.toList := by
  unfold positiveAllocs
  rw [List.reverse_cons, List.filterMap_append]
  cases h : call.positive <;> simp [h]

private theorem unallocated_cons {call : LoggedCall} {log : List LoggedCall} {id : String}
    (h : Unallocated log id) (hcall : ∀ record blocks, call = .alloc record blocks →
      record.requestId ≠ id) : Unallocated (call :: log) id := by
  intro record blocks hmem
  rcases List.mem_cons.mp hmem with rfl | hmem
  · exact hcall record blocks rfl
  · exact h record blocks hmem

private theorem not_mem_positiveAllocs {log : List LoggedCall} {id : String}
    (h : Unallocated log id) :
    id ∉ (positiveAllocs log).map fun p ↦ p.1.requestId := by
  intro hmem
  obtain ⟨⟨record, blocks⟩, hp, rfl⟩ := List.mem_map.mp hmem
  obtain ⟨call, hcall, hpos⟩ := List.mem_filterMap.mp hp
  have hlog := List.mem_reverse.mp hcall
  cases call with
  | lookup record' => cases hpos
  | raised id => cases hpos
  | alloc record' blocks' =>
    rw [LoggedCall.positive] at hpos
    split at hpos
    · cases hpos
    · cases hpos
      exact h record blocks hlog rfl

/-! ### Calls -/

/-- What a lookup that returns does. -/
theorem lookup_cases {st st' : SchedulerState} {request : Request} {computed : PyInt} {n : Nat}
    (h : getNumNewMatchedTokens config st request computed = .ok (st', n)) :
    (n = 0 ∧ st' = st) ∨ ∃ c ∈ st.catalog, ∃ entryId spanTokens,
      matchedPrefix config c request computed = .ok (some (spanTokens, entryId)) ∧
      RestoreBudget st request.requestId ∧ st' = st.recordHit request.requestId entryId spanTokens n := by
  unfold getNumNewMatchedTokens at h
  split at h
  · cases h
    exact .inl ⟨rfl, rfl⟩
  · cases hc : st.catalog with
    | none =>
      simp only [hc] at h
      cases h
      exact .inl ⟨rfl, rfl⟩
    | some c =>
      simp only [hc] at h
      obtain ⟨selected, hm, h⟩ := bind_ok h
      cases selected with
      | none =>
        cases h
        exact .inl ⟨rfl, rfl⟩
      | some selected =>
        obtain ⟨spanTokens, entryId⟩ := selected
        dsimp only at h
        split at h
        · cases h
          exact .inl ⟨rfl, rfl⟩
        · next hbudget =>
          split at h
          · cases h
          · cases h
            refine .inr ⟨c, rfl, entryId, spanTokens, hm, ?_, by rw [SchedulerState.recordHit, hc]⟩
            rw [List.mem_dedup] at hbudget
            by_cases hmem : request.requestId ∈ st.needLoad.keys ++ st.pendingLoads.keys
            · exact .inl hmem
            · exact .inr (Nat.lt_of_not_le fun hle ↦ hbudget ⟨hmem, hle⟩)

private theorem dedup_length_le {l l' : List String} (h : l ⊆ l') :
    l.dedup.length ≤ l'.dedup.length := by
  rw [← List.card_toFinset, ← List.card_toFinset]
  apply Finset.card_le_card
  intro a ha
  rw [List.mem_toFinset] at ha ⊢
  exact h ha

/-- Admitting a restore that fits keeps the budget. -/
theorem budget_recordHit {st : SchedulerState} {id : String} {entryId : Digest} {span n : Nat}
    (hst : (st.needLoad.keys ++ st.pendingLoads.keys).dedup.length ≤ maxPendingRestores)
    (hfits : RestoreBudget st id) :
    ((st.recordHit id entryId span n).needLoad.keys ++
      (st.recordHit id entryId span n).pendingLoads.keys).dedup.length ≤ maxPendingRestores := by
  have hsub : (st.recordHit id entryId span n).needLoad.keys ++
      (st.recordHit id entryId span n).pendingLoads.keys ⊆
        id :: (st.needLoad.keys ++ st.pendingLoads.keys) := by
    intro a ha
    rcases List.mem_append.mp ha with ha | ha
    · rcases (OrderedDict.mem_keys_set _ _ _ _).mp ha with rfl | ha
      · exact List.mem_cons_self
      · exact List.mem_cons_of_mem _ (List.mem_append_left _ ha)
    · exact List.mem_cons_of_mem _ (List.mem_append_right _ ha)
  refine (dedup_length_le hsub).trans ?_
  rcases hfits with hmem | hlt
  · rw [List.dedup_cons_of_mem hmem]
    exact hst
  · by_cases hmem : id ∈ st.needLoad.keys ++ st.pendingLoads.keys
    · rw [List.dedup_cons_of_mem hmem]
      exact hst
    · rw [List.dedup_cons_of_notMem hmem, List.length_cons]
      exact hlt

/-- An allocation that vLLM makes returns. -/
theorem updateStateAfterAlloc_returns {a : Admission} (ha : AdmissionInv config a)
    {request : Request} {record : LookupRecord} {blocks : List (List PyInt)}
    (h : AllocAllowed config a.log request record blocks) :
    (record.count = 0 ∧
      updateStateAfterAlloc config a.st request blocks (some record.count) =
        .ok { a.st with needLoad := a.st.needLoad.erase request.requestId }) ∨
    ∃ plan, record.count ≠ 0 ∧ Carries config (record, blocks) plan ∧
      request.requestId ∈ a.st.needLoad.keys ∧
      updateStateAfterAlloc config a.st request blocks (some record.count) =
        .ok { a.st with
          needLoad := a.st.needLoad.erase request.requestId
          pendingLoads := a.st.pendingLoads.set request.requestId plan } := by
  by_cases hcount : record.count = 0
  · refine .inl ⟨hcount, ?_⟩
    rw [hcount]
    rfl
  · obtain ⟨entryId, span, hsel, hget⟩ := ha.admitted _ _ h.latest hcount
    obtain ⟨blockIds, pages, hblocks, hpages⟩ := h.tables hcount entryId span hsel
    refine .inr ⟨⟨request.requestId, entryId, span, blockIds, []⟩, hcount,
      ⟨h.requestId.symm, hsel, hblocks, rfl⟩,
      (OrderedDict.mem_keys_iff _ _).mpr ⟨_, hget⟩, ?_⟩
    have hcast : some ((record.count : Nat) : Int) = some (Int.ofNat record.count) := rfl
    rw [hcast]
    unfold updateStateAfterAlloc
    dsimp only
    rw [if_neg hcount, hget]
    dsimp only
    rw [if_neg (not_not.mpr rfl), hblocks, ok_bind, hpages, ok_bind]
    rfl

/-! ### Building a step -/

private theorem forgetFinished_keys (st : SchedulerState) (ids : List String) :
    (forgetFinished st ids).needLoad.keys ⊆ st.needLoad.keys ∧
      (forgetFinished st ids).pendingLoads = st.pendingLoads := by
  induction ids generalizing st with
  | nil => exact ⟨List.Subset.refl _, rfl⟩
  | cons id ids ih =>
    rw [forgetFinished]
    obtain ⟨hkeys, hloads⟩ := ih { st with
      storeProgress := st.storeProgress.erase id
      needLoad := st.needLoad.erase id
      requestSalts := st.requestSalts.erase id
      skipWriteRequests := st.skipWriteRequests.filter (· ≠ id) }
    refine ⟨?_, hloads⟩
    intro a ha
    exact ((OrderedDict.mem_keys_erase _ _ _).mp (hkeys ha)).2

private theorem trackNewRequest_loads {output : SchedulerOutput} {data : NewRequestData}
    {st st' : SchedulerState} {plan : Option SpoolCachePlan}
    (h : trackNewRequest config output st data = .ok (st', plan)) :
    st'.needLoad = st.needLoad ∧ st'.pendingLoads = st.pendingLoads := by
  obtain ⟨progress, -, h⟩ := bind_ok h
  cases progress with
  | none =>
    cases h
    exact ⟨rfl, rfl⟩
  | some progress =>
    obtain ⟨⟨tracked, emitted⟩, -, h⟩ := bind_ok h
    dsimp only at h
    split at h
    · cases h
      exact ⟨rfl, rfl⟩
    · cases h
      exact ⟨rfl, rfl⟩

private theorem trackCachedRequest_loads {output : SchedulerOutput} {cached : CachedRequestData}
    {st st' : SchedulerState} {plan : Option SpoolCachePlan}
    (h : trackCachedRequest config output st cached = .ok (st', plan)) :
    st'.needLoad = st.needLoad ∧ st'.pendingLoads = st.pendingLoads := by
  unfold trackCachedRequest at h
  split at h
  · cases h
    exact ⟨rfl, rfl⟩
  · split at h
    · cases h
      exact ⟨rfl, rfl⟩
    · obtain ⟨⟨tracked, emitted⟩, -, h⟩ := bind_ok h
      dsimp only at h
      split at h
      · cases h
        exact ⟨rfl, rfl⟩
      · cases h
        exact ⟨rfl, rfl⟩

private theorem collectPlans_loads {α : Type}
    {round : SchedulerState → α → Except PyError (SchedulerState × Option SpoolCachePlan)}
    (hround : ∀ a st st' plan, round st a = .ok (st', plan) →
      st'.needLoad = st.needLoad ∧ st'.pendingLoads = st.pendingLoads)
    {as : List α} {st st' : SchedulerState} {plans : List SpoolCachePlan}
    (h : collectPlans round st as = .ok (st', plans)) :
    st'.needLoad = st.needLoad ∧ st'.pendingLoads = st.pendingLoads := by
  have hkeeps : ∀ a ∈ as, ∀ s s' plan,
      (s.needLoad = st.needLoad ∧ s.pendingLoads = st.pendingLoads) →
        round s a = .ok (s', plan) →
          (s'.needLoad = st.needLoad ∧ s'.pendingLoads = st.pendingLoads) ∧
            ∀ p ∈ plan, True := by
    intro a _ s s' plan hs h
    obtain ⟨hn, hp⟩ := hround a s s' plan h
    exact ⟨⟨hn.trans hs.1, hp.trans hs.2⟩, fun _ _ ↦ trivial⟩
  exact (collectPlans_inv hkeeps ⟨rfl, rfl⟩ h).1

/-- A step loads what is planned, and leaves no plan behind. -/
theorem buildConnectorMeta_loads {output : SchedulerOutput} {st st' : SchedulerState}
    {metadata : SpoolCacheMetadata} (h : buildConnectorMeta config st output = .ok (st', metadata)) :
    metadata.loads = st.pendingLoads.items.map Prod.snd ∧
      st'.needLoad.keys ⊆ st.needLoad.keys ∧ st'.pendingLoads = .empty := by
  obtain ⟨⟨st₁, fromNew⟩, h₁, h⟩ := bind_ok h
  obtain ⟨⟨st₂, fromCached⟩, h₂, h⟩ := bind_ok h
  obtain ⟨admission, -, h⟩ := bind_ok h
  cases h
  have hforget := forgetFinished_keys { st with pendingLoads := .empty } output.finishedReqIds
  obtain ⟨hn₁, hp₁⟩ := collectPlans_loads (fun _ _ _ _ ↦ trackNewRequest_loads) h₁
  obtain ⟨hn₂, hp₂⟩ := collectPlans_loads (fun _ _ _ _ ↦ trackCachedRequest_loads) h₂
  refine ⟨rfl, ?_, hp₂.trans (hp₁.trans hforget.2)⟩
  rw [hn₂, hn₁]
  exact hforget.1

/-! ### The invariant -/

private theorem requestIds_of_carries {allocations : List (LookupRecord × List (List PyInt))}
    {plans : List SpoolCachePlan} (h : List.Forall₂ (Carries config) allocations plans) :
    plans.map SpoolCachePlan.requestId = allocations.map fun p ↦ p.1.requestId := by
  induction h with
  | nil => rfl
  | cons hcarries _ ih => rw [List.map_cons, List.map_cons, hcarries.requestId, ih]

private theorem admissionInv_initial : AdmissionInv config ⟨.initial, []⟩ where
  budget := by decide
  admitted := fun _ _ h ↦ (by cases h)
  unallocated := fun _ _ h ↦ (by cases h)
  planned := .nil
  keys := rfl

/-- A call that leaves the restores alone keeps the invariant. -/
theorem AdmissionInv.congr {a : Admission} {st : SchedulerState} (ha : AdmissionInv config a)
    (hn : st.needLoad = a.st.needLoad) (hp : st.pendingLoads = a.st.pendingLoads) :
    AdmissionInv config ⟨st, a.log⟩ where
  budget := by
    rw [hn, hp]
    exact ha.budget
  admitted := by
    rw [hn]
    exact ha.admitted
  unallocated := ha.unallocated
  planned := by
    rw [hp]
    exact ha.planned
  keys := by
    rw [hp]
    exact ha.keys

/-- A lookup is the last call of its request and changes the tables of no other. -/
theorem AdmissionInv.lookup {a : Admission} {request : Request} {computed : PyInt}
    {st : SchedulerState} {n : Nat} (ha : AdmissionInv config a)
    (hun : Unallocated a.log request.requestId)
    (h : getNumNewMatchedTokens config a.st request computed = .ok (st, n)) :
    AdmissionInv config ⟨st, .lookup ⟨a.st.catalog, request, computed, n⟩ :: a.log⟩ := by
  have hpositive : positiveAllocs (.lookup ⟨a.st.catalog, request, computed, n⟩ :: a.log) =
      positiveAllocs a.log := by
    rw [positiveAllocs_cons]
    exact List.append_nil _
  have hlog : ∀ id, Unallocated a.log id →
      Unallocated (.lookup ⟨a.st.catalog, request, computed, n⟩ :: a.log) id :=
    fun id hid ↦ unallocated_cons hid fun _ _ hcall ↦ (by cases hcall)
  have hunallocated : ∀ id record,
      latest (.lookup ⟨a.st.catalog, request, computed, n⟩ :: a.log) id = some (.lookup record) →
        Unallocated (.lookup ⟨a.st.catalog, request, computed, n⟩ :: a.log) id := by
    intro id record hl
    rw [latest_cons] at hl
    split at hl
    · next hid =>
      rw [← hid]
      exact hlog _ hun
    · exact hlog id (ha.unallocated id record hl)
  rcases lookup_cases h with ⟨rfl, rfl⟩ | ⟨c, hc, entryId, span, hm, hfits, rfl⟩
  · refine ⟨ha.budget, ?_, hunallocated, by rw [hpositive]; exact ha.planned,
      by rw [hpositive]; exact ha.keys⟩
    intro id record hl hcount
    rw [latest_cons] at hl
    split at hl
    · cases hl
      exact absurd rfl hcount
    · exact ha.admitted id record hl hcount
  · refine ⟨budget_recordHit ha.budget hfits, ?_, hunallocated, by rw [hpositive]; exact ha.planned,
      by rw [hpositive]; exact ha.keys⟩
    intro id record hl hcount
    rw [latest_cons] at hl
    dsimp only [SchedulerState.recordHit]
    rw [OrderedDict.get?_set]
    split at hl
    · next hid =>
      have hid' : id = request.requestId := hid.symm
      cases hl
      rw [if_pos hid']
      exact ⟨entryId, span, ⟨c, hc, hm⟩, rfl⟩
    · next hid =>
      rw [if_neg fun he ↦ hid he.symm]
      exact ha.admitted id record hl hcount

/-- A lookup that raises leaves the tables as they are. -/
theorem AdmissionInv.raised {a : Admission} {id : String} (ha : AdmissionInv config a) :
    AdmissionInv config ⟨a.st, .raised id :: a.log⟩ := by
  have hpositive : positiveAllocs (.raised id :: a.log) = positiveAllocs a.log := by
    rw [positiveAllocs_cons]
    exact List.append_nil _
  refine ⟨ha.budget, ?_, ?_, by rw [hpositive]; exact ha.planned, by rw [hpositive]; exact ha.keys⟩
  · intro a' record hl hcount
    rw [latest_cons] at hl
    split at hl
    · cases hl
    · exact ha.admitted a' record hl hcount
  · intro a' record hl
    rw [latest_cons] at hl
    split at hl
    · cases hl
    · exact unallocated_cons (ha.unallocated a' record hl) fun _ _ hcall ↦ (by cases hcall)

/-- An allocation moves its restore from the admitted to the planned ones. -/
theorem AdmissionInv.alloc {a : Admission} {request : Request} {record : LookupRecord}
    {blocks : List (List PyInt)} {st : SchedulerState} (ha : AdmissionInv config a)
    (hallowed : AllocAllowed config a.log request record blocks)
    (h : updateStateAfterAlloc config a.st request blocks (some record.count) = .ok st) :
    AdmissionInv config ⟨st, .alloc record blocks :: a.log⟩ := by
  have hid : record.requestId = request.requestId := hallowed.requestId
  have hother : ∀ id record',
      latest (.alloc record blocks :: a.log) id = some (.lookup record') →
        id ≠ request.requestId ∧ latest a.log id = some (.lookup record') := by
    intro id record' hl
    rw [latest_cons] at hl
    split at hl
    · cases hl
    · next hne => exact ⟨fun he ↦ hne (hid.trans he.symm), hl⟩
  have hunallocated : ∀ id record',
      latest (.alloc record blocks :: a.log) id = some (.lookup record') →
        Unallocated (.alloc record blocks :: a.log) id := by
    intro id record' hl
    obtain ⟨hne, hl⟩ := hother id record' hl
    refine unallocated_cons (ha.unallocated id record' hl) fun _ _ hcall ↦ ?_
    cases hcall
    exact fun he ↦ hne (he.symm.trans hid)
  have hadmitted : ∀ id record',
      latest (.alloc record blocks :: a.log) id = some (.lookup record') → record'.count ≠ 0 →
        ∃ entryId span, record'.Selects config entryId span ∧
          (a.st.needLoad.erase request.requestId).get? id =
            some (entryId, span, record'.count) := by
    intro id record' hl hcount
    obtain ⟨hne, hl⟩ := hother id record' hl
    rw [OrderedDict.get?_erase, if_neg hne]
    exact ha.admitted id record' hl hcount
  rcases updateStateAfterAlloc_returns ha hallowed with ⟨hcount, he⟩ | ⟨plan, hcount, hplan, hmem, he⟩
  · cases he.symm.trans h
    have hpositive : positiveAllocs (.alloc record blocks :: a.log) = positiveAllocs a.log := by
      rw [positiveAllocs_cons, LoggedCall.positive, if_pos hcount]
      exact List.append_nil _
    refine ⟨?_, hadmitted, hunallocated, by rw [hpositive]; exact ha.planned,
      by rw [hpositive]; exact ha.keys⟩
    refine (dedup_length_le ?_).trans ha.budget
    intro b hb
    rcases List.mem_append.mp hb with hb | hb
    · exact List.mem_append_left _ ((OrderedDict.mem_keys_erase _ _ _).mp hb).2
    · exact List.mem_append_right _ hb
  · cases he.symm.trans h
    have hpositive : positiveAllocs (.alloc record blocks :: a.log) =
        positiveAllocs a.log ++ [(record, blocks)] := by
      rw [positiveAllocs_cons, LoggedCall.positive, if_neg hcount]
      rfl
    have hnew : request.requestId ∉ a.st.pendingLoads.keys := by
      rw [ha.keys]
      exact not_mem_positiveAllocs (ha.unallocated _ _ hallowed.latest)
    have hitems := OrderedDict.items_set_of_not_mem a.st.pendingLoads plan hnew
    refine ⟨?_, hadmitted, hunallocated, ?_, ?_⟩
    · refine (dedup_length_le ?_).trans ha.budget
      intro b hb
      rcases List.mem_append.mp hb with hb | hb
      · exact List.mem_append_left _ ((OrderedDict.mem_keys_erase _ _ _).mp hb).2
      · rcases (OrderedDict.mem_keys_set _ _ _ _).mp hb with rfl | hb
        · exact List.mem_append_left _ hmem
        · exact List.mem_append_right _ hb
    · rw [hpositive, hitems, List.map_append]
      exact List.rel_append ha.planned (.cons hplan .nil)
    · rw [hpositive, List.map_append, ← ha.keys, OrderedDict.keys_set, if_neg hnew]
      exact congrArg _ (congrArg (fun id ↦ [id]) hid.symm)

private theorem admissionInv_step {a b : Admission} (ha : AdmissionInv config a)
    (h : AdmissionStep config a b) : AdmissionInv config b := by
  cases h with
  | newRequest request =>
    refine ha.congr ?_ ?_
    · unfold onNewRequest
      dsimp only
      split <;> rfl
    · unfold onNewRequest
      dsimp only
      split <;> rfl
  | catalog catalog => exact ha.congr rfl rfl
  | lookup request computed st count unallocated returned => exact ha.lookup unallocated returned
  | lookupRaised request computed error unallocated raised => exact ha.raised
  | alloc request record blocks st allowed returned => exact ha.alloc allowed returned
  | build output st metadata returned =>
    obtain ⟨-, hkeys, hloads⟩ := buildConnectorMeta_loads returned
    refine ⟨?_, fun _ _ hl ↦ (by cases hl), fun _ _ hl ↦ (by cases hl), ?_, ?_⟩
    · refine (dedup_length_le ?_).trans ha.budget
      intro b hb
      rw [hloads] at hb
      rcases List.mem_append.mp hb with hb | hb
      · exact List.mem_append_left _ (hkeys hb)
      · cases hb
    · rw [hloads]
      exact .nil
    · rw [hloads]
      rfl

private theorem admissionInv_of_admitted {a : Admission} (h : Admitted config a) :
    AdmissionInv config a := by
  induction h with
  | initial => exact admissionInv_initial
  | step _ h ih => exact admissionInv_step ih h

/-- In every run: no more restores are admitted or planned than the budget allows, an allocation
that vLLM makes does not raise, and the loads of the next step are the allocations with a positive
count since the last one, each with the entry and span of its lookup and its own block table. -/
theorem restore_admission (config : ConnectorConfig) (a : Admission) (h : Admitted config a) :
    (a.st.needLoad.keys ++ a.st.pendingLoads.keys).dedup.length ≤ maxPendingRestores ∧
    (∀ request record blocks, AllocAllowed config a.log request record blocks →
      ∃ st, updateStateAfterAlloc config a.st request blocks (some record.count) = .ok st) ∧
    ∀ output st metadata, buildConnectorMeta config a.st output = .ok (st, metadata) →
      List.Forall₂ (Carries config) (positiveAllocs a.log) metadata.loads ∧
        (metadata.loads.map SpoolCachePlan.requestId).Nodup := by
  have ha := admissionInv_of_admitted h
  refine ⟨ha.budget, ?_, ?_⟩
  · intro request record blocks hallowed
    rcases updateStateAfterAlloc_returns ha hallowed with ⟨-, he⟩ | ⟨plan, -, -, -, he⟩
    · exact ⟨_, he⟩
    · exact ⟨_, he⟩
  · intro output st metadata hbuild
    obtain ⟨hloads, -, -⟩ := buildConnectorMeta_loads hbuild
    have hplanned := ha.planned
    rw [← hloads] at hplanned
    refine ⟨hplanned, ?_⟩
    rw [requestIds_of_carries hplanned, ← ha.keys]
    exact a.st.pendingLoads.nodup_keys

/-- A hit of 256 tokens. -/
def sampleRecord : LookupRecord :=
  ⟨some lookupSampleCatalog, lookupSampleRequest, some (0 : Nat), 256⟩

private theorem matchedPrefix_lookupSample :
    matchedPrefix lookupSample lookupSampleCatalog lookupSampleRequest (some (0 : Nat)) =
      .ok (some (256, lookupSamplePrefix.key 256 1)) := by
  rcases matchedPrefix_greatest (c := lookupSampleCatalog) (r := lookupSamplePrefix)
    (show lookupSampleRequest.prefixRequest lookupSample = some lookupSamplePrefix from rfl)
    (by decide +kernel) (Nat.zero_le _) with ⟨s, hs, h⟩ | ⟨hnone, -⟩
  · obtain rfl := greatest_lookupSample hs
    rw [h, chunkTokens_lookupSample]
  · exact absurd goodSpan_lookupSample (hnone 256)

/-- A step without requests. -/
def emptyOutput : SchedulerOutput := ⟨[], [], [], .empty⟩

/-- After a hit and its allocation the next step loads one plan with both. -/
theorem restore_admission_sample : ∃ st st' metadata,
    Admitted lookupSample ⟨st, [.alloc sampleRecord [[some 5]], .lookup sampleRecord]⟩ ∧
    buildConnectorMeta lookupSample st emptyOutput = .ok (st', metadata) ∧
    List.Forall₂ (Carries lookupSample) [(sampleRecord, [[some 5]])] metadata.loads := by
  have hlookup : getNumNewMatchedTokens lookupSample lookupSampleState lookupSampleRequest
      (some (0 : Nat)) =
        .ok (lookupSampleState.recordHit "r" (lookupSamplePrefix.key 256 1) 256 256, 256) := by
    unfold getNumNewMatchedTokens
    rw [if_neg (by decide)]
    simp only [lookupSampleState, matchedPrefix_lookupSample]
    rfl
  have halloc : updateStateAfterAlloc lookupSample
      (lookupSampleState.recordHit "r" (lookupSamplePrefix.key 256 1) 256 256) lookupSampleRequest
        [[some 5]] (some (256 : Nat)) =
      .ok { lookupSampleState with
        pendingLoads := .ofItems [("r", ⟨"r", lookupSamplePrefix.key 256 1, 256, [[5]], []⟩)] } :=
    rfl
  have hstep₁ : Admitted lookupSample ⟨lookupSampleState, []⟩ :=
    .step .initial (.catalog _ (some lookupSampleCatalog))
  have hstep₂ : Admitted lookupSample
      ⟨lookupSampleState.recordHit "r" (lookupSamplePrefix.key 256 1) 256 256,
        [.lookup sampleRecord]⟩ :=
    .step hstep₁ (.lookup _ lookupSampleRequest _ _ _ (fun _ _ h ↦ (by cases h)) hlookup)
  have hallowed : AllocAllowed lookupSample [.lookup sampleRecord] lookupSampleRequest sampleRecord
      [[some 5]] := by
    refine ⟨rfl, rfl, fun _ entryId span ⟨c, hc, hm⟩ ↦ ?_⟩
    cases hc
    cases matchedPrefix_lookupSample.symm.trans hm
    exact ⟨[[5]], [[5]], rfl, rfl⟩
  have hstep₃ := Admitted.step hstep₂ (.alloc _ lookupSampleRequest sampleRecord [[some 5]] _
    hallowed halloc)
  have hbuild : ∃ st' metadata, buildConnectorMeta lookupSample
      { lookupSampleState with
        pendingLoads := .ofItems [("r", ⟨"r", lookupSamplePrefix.key 256 1, 256, [[5]], []⟩)] }
      emptyOutput = .ok (st', metadata) := ⟨_, _, rfl⟩
  obtain ⟨st', metadata, hbuild⟩ := hbuild
  exact ⟨_, st', metadata, hstep₃, hbuild,
    ((restore_admission lookupSample _ hstep₃).2.2 emptyOutput st' metadata hbuild).1⟩

end

end SpoolCache.Connector

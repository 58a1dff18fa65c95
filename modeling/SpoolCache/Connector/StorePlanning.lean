import SpoolCache.Connector.LookupSpec

/-!
# Planning of stores

`connector.py:929–1111`, `1743–1790`. A request is tracked from the step that schedules it as new
until its target is reached, its block groups change, or it finishes. Its block table grows with
every step and is replaced when it is resumed with block ids. A run of steps decides once for a
request, and only on tokens that were computed before the step.
-/

namespace SpoolCache.Connector

open SpoolCache.Base SpoolCache.Layout SpoolCache.Prefix SpoolCache.Quorum

/-! ### Reports about one request -/

/-- What a step reports about one request; a new request has the salt that the scheduler keeps
for it. -/
inductive StoreReport where
  | finished
  | new (data : NewRequestData) (cacheSalt : String)
  | cached (data : CachedRequestData)

/-- The tokens that were computed before the step; a request that finished reports none. -/
def StoreReport.before : StoreReport → PyInt
  | .finished => none
  | .new data _ => data.numComputedTokens
  | .cached data => data.numComputedTokens

/-- The report schedules the request as new. -/
def StoreReport.isNew : StoreReport → Bool
  | .new _ _ => true
  | _ => false

/-- The salt of a request, `connector.py:999`. -/
def SchedulerState.cacheSalt (st : SchedulerState) (id : String) : String :=
  ((st.requestSalts.get? id).join).getD ""

/-- The request is scheduled as new. -/
def newReport (id cacheSalt : String) (data : NewRequestData) : Option StoreReport :=
  if data.reqId = id then some (.new data cacheSalt) else none

/-- The request is scheduled again. -/
def cachedReport (id : String) (data : CachedRequestData) : Option StoreReport :=
  if data.reqId = id then some (.cached data) else none

/-- The reports of one step about a request with its salt, the newest first. -/
def reportsOf (id cacheSalt : String) (output : SchedulerOutput) : List StoreReport :=
  (output.scheduledCachedReqs.filterMap (cachedReport id)).reverse ++
    ((output.scheduledNewReqs.filterMap (newReport id cacheSalt)).reverse ++
      if id ∈ output.finishedReqIds then [.finished] else [])

/-- The block tables reported since the request was new or last resumed with block ids, in order;
the reports stand newest first. -/
def reportedTables : List StoreReport → List (List (List PyInt))
  | [] => []
  | .finished :: _ => []
  | .new data _ :: _ => [data.blockIds]
  | .cached data :: older =>
    match data.newBlockIds with
    | none => reportedTables older
    | some groups => if data.resumed then [groups] else reportedTables older ++ [groups]

/-- Tables joined group by group. -/
def joinTables : List (List (List PyInt)) → List (List PyInt)
  | [] => []
  | table :: tables => tables.foldl (List.zipWith (· ++ ·)) table

/-- The group keeps only the state at the current boundary. -/
def StateOnly (g : GroupGeometry) : Prop :=
  (∃ blocks, g.reusePolicy = .recurrentAlign blocks) ∨ g.reusePolicy = .circularOne

/-! ### Runs -/

section

variable (config : ConnectorConfig)

/-- The candidates of a step, `connector.py:933–945`. -/
def storeCandidates (st : SchedulerState) (output : SchedulerOutput) :
    Except PyError (SchedulerState × List SpoolCachePlan) := do
  let st := forgetFinished { st with pendingLoads := .empty } output.finishedReqIds
  let (st, fromNew) ← collectPlans (trackNewRequest config output) st output.scheduledNewReqs
  let (st, fromCached) ←
    collectPlans (trackCachedRequest config output) st output.scheduledCachedReqs
  pure (st, fromNew ++ fromCached)

/-- A step of a run: the tables it starts from, what the scheduler reports, its candidates, and the
plans that it sends to the workers. -/
structure StoreStep where
  start : SchedulerState
  output : SchedulerOutput
  candidates : List SpoolCachePlan
  stores : List SpoolCachePlan

/-- The reports of a step about a request, whose salt is forgotten first when it finished. -/
def StoreStep.reports (step : StoreStep) (id : String) : List StoreReport :=
  reportsOf id ((forgetFinished step.start step.output.finishedReqIds).cacheSalt id) step.output

/-- A run of steps, and the tables it leaves. Lookups, allocations, new requests and reports to the
catalog stand anywhere between two steps. -/
inductive StoreRun : List StoreStep → SchedulerState → Prop
  | initial : StoreRun [] .initial
  | newRequest {run st} (h : StoreRun run st) (request : Request) :
      StoreRun run (onNewRequest st request)
  | catalog {run st} (h : StoreRun run st) (catalog : Option QuorumCatalog) :
      StoreRun run { st with catalog }
  | lookup {run st st'} {n : Nat} (h : StoreRun run st) (request : Request)
      (numComputedTokens : PyInt)
      (returned : getNumNewMatchedTokens config st request numComputedTokens = .ok (st', n)) :
      StoreRun run st'
  | alloc {run st st'} (h : StoreRun run st) (request : Request) (blocks : List (List PyInt))
      (numExternalTokens : PyInt)
      (returned : updateStateAfterAlloc config st request blocks numExternalTokens = .ok st') :
      StoreRun run st'
  | build {run st st' st'' output metadata plans} (h : StoreRun run st)
      (returned : buildConnectorMeta config st output = .ok (st', metadata))
      (candidates : storeCandidates config st output = .ok (st'', plans)) :
      StoreRun (run ++ [⟨st, output, plans, metadata.stores⟩]) st'

/-- The reports of a run about a request, the newest first. -/
def runReports (id : String) (run : List StoreStep) : List StoreReport :=
  run.reverse.flatMap fun step ↦ step.reports id

/-- A plan stores a prefix of the request that was new: `reports` are the reports about it up to
the step, which started with `before` computed tokens. -/
structure PlannedFrom (reports : List StoreReport) (r : PrefixRequest) (before : Nat)
    (plan : SpoolCachePlan) : Prop where
  new : ∃ data, .new data r.salt ∈ reports ∧ data.prefixRequest config r.salt = some r
  pos : 0 < plan.spanTokens
  chunk : config.layout.chunkTokens ∣ plan.spanTokens
  aligned : config.layout.alignmentTokens ∣ plan.spanTokens
  computed : plan.spanTokens ≤ before
  prompt : plan.spanTokens ≤ r.tokens.length
  digests : r.digests config.layout.chunkTokens
    (some (chunkBoundaries config.layout.chunkTokens plan.spanTokens)) = .ok plan.keys
  blocks : normalizeBlockIds (joinTables (reportedTables reports)) = .ok plan.blockIdsByGroup
  exact : (∃ g ∈ config.layout.groups, StateOnly g) →
    plan.spanTokens = before ∧ plan.spanTokens = config.layout.safeStoreSpan r.tokens.length

/-- The plan of a report, after the older ones. -/
def PlannedBy (report : StoreReport) (older : List StoreReport) (plan : SpoolCachePlan) : Prop :=
  ∃ (r : PrefixRequest) (before : Nat), report.before = some (before : Int) ∧
    PlannedFrom config (report :: older) r before plan

/-! ### What is tracked -/

/-- A tracked request as its reports describe it. -/
structure Tracks (reports : List StoreReport) (progress : StoreProgress) : Prop where
  new : ∃ data, .new data progress.cacheSalt ∈ reports ∧
    data.prefixRequest config progress.cacheSalt = some (progress.prefixRequest config)
  target : progress.targetSpanTokens = config.layout.safeStoreSpan progress.tokenIds.length
  reported : reportedTables reports ≠ []
  tables : joinTables (reportedTables reports) = progress.blockIdsByGroup

/-- After these reports and `n` candidates: a request that was not new yet has none, and a tracked
one has none so far. -/
structure TrackInv (id : String) (reports : List StoreReport) (n : Nat) (st : SchedulerState) :
    Prop where
  le : n ≤ 1
  unseen : reports.countP StoreReport.isNew = 0 → n = 0 ∧ st.storeProgress.get? id = none
  tracked : ∀ progress, st.storeProgress.get? id = some progress →
    n = 0 ∧ Tracks config reports progress

end

section

variable {config : ConnectorConfig} {id : String}

private theorem joinTables_append {tables : List (List (List PyInt))} (h : tables ≠ [])
    (groups : List (List PyInt)) :
    joinTables (tables ++ [groups]) = List.zipWith (· ++ ·) (joinTables tables) groups := by
  cases tables with
  | nil => exact absurd rfl h
  | cons table tables => rw [List.cons_append, joinTables, List.foldl_append]; rfl

/-! ### One decision -/

/-- What a new request starts with. -/
theorem tracks_newProgress {st : SchedulerState} {data : NewRequestData} {progress : StoreProgress}
    (reports : List StoreReport) (h : newProgress config st data = .ok (some progress)) :
    Tracks config (.new data (st.cacheSalt data.reqId) :: reports) progress := by
  unfold newProgress at h
  split at h
  · cases h
  · split at h
    · cases h
    · next tokens htokens =>
      split at h
      · cases h
      · next features hfeatures =>
        dsimp only at h
        split at h
        · cases h
        · obtain ⟨cached, -, h⟩ := bind_ok h
          split at h
          · cases h
          · cases h
            refine ⟨⟨data, List.mem_cons_self, ?_⟩, rfl, List.cons_ne_nil _ _, rfl⟩
            simp [NewRequestData.prefixRequest, hashedRequest, htokens, hfeatures,
              StoreProgress.prefixRequest]

/-- A step with block ids extends the table, or replaces it when the request is resumed. -/
theorem tracks_extendBlockIds {reports : List StoreReport} {progress progress' : StoreProgress}
    {data : CachedRequestData} (hp : Tracks config reports progress)
    (h : extendBlockIds progress data = some progress') :
    Tracks config (.cached data :: reports) progress' := by
  obtain ⟨new, hnew, hr⟩ := hp.new
  have hmem : .new new progress.cacheSalt ∈ StoreReport.cached data :: reports :=
    List.mem_cons_of_mem _ hnew
  unfold extendBlockIds at h
  split at h
  · next hblocks =>
    cases h
    refine ⟨⟨new, hmem, hr⟩, hp.target, ?_, ?_⟩
    · rw [reportedTables, hblocks]
      exact hp.reported
    · rw [reportedTables, hblocks]
      exact hp.tables
  · next groups hblocks =>
    split at h
    · cases h
    · split at h
      · next hresumed =>
        cases h
        refine ⟨⟨new, hmem, hr⟩, hp.target, ?_, ?_⟩
        · rw [reportedTables, hblocks]
          dsimp only
          rw [if_pos hresumed]
          exact List.cons_ne_nil _ _
        · rw [reportedTables, hblocks]
          dsimp only
          rw [if_pos hresumed]
          rfl
      · next hresumed =>
        cases h
        refine ⟨⟨new, hmem, hr⟩, hp.target, ?_, ?_⟩
        · rw [reportedTables, hblocks]
          dsimp only
          rw [if_neg hresumed]
          exact List.append_ne_nil_of_right_ne_nil _ (List.cons_ne_nil _ _)
        · rw [reportedTables, hblocks]
          dsimp only
          rw [if_neg hresumed, joinTables_append hp.reported, hp.tables]

private theorem storeRequiresExactBoundary_of_stateOnly {l : HMALayout}
    (h : ∃ g ∈ l.groups, StateOnly g) :
    l.storeRequiresExactBoundary = true := by
  obtain ⟨g, hg, hstate⟩ := h
  rw [HMALayout.storeRequiresExactBoundary, List.any_eq_true]
  refine ⟨g, hg, ?_⟩
  rcases hstate with ⟨blocks, hp⟩ | hp
  · rw [hp]
  · rw [hp]

private theorem planFromProgress_blocks {requestId : String} {progress : StoreProgress} {span : Nat}
    {plan : SpoolCachePlan} (h : planFromProgress config requestId progress span = .ok plan) :
    normalizeBlockIds progress.blockIdsByGroup = .ok plan.blockIdsByGroup := by
  obtain ⟨blockIds, hb, h⟩ := bind_ok h
  obtain ⟨pages, -, h⟩ := bind_ok h
  obtain ⟨prefixes, -, h⟩ := bind_ok h
  split at h
  · cases h
  · cases h
    exact hb

/-- A plan that a decision emits is one of the tracked request, on computed tokens. -/
theorem plannedFrom_of_decideStore {st : SchedulerState} {requestId : String}
    {progress : StoreProgress} {before scheduled : PyInt} {tracked : Bool} {plan : SpoolCachePlan}
    {reports : List StoreReport} (hp : Tracks config reports progress)
    (h : decideStore config st requestId progress before scheduled = .ok (tracked, some plan)) :
    tracked = false ∧ plan.requestId = requestId ∧ ∃ b : Nat, before = some (b : Int) ∧
      PlannedFrom config reports (progress.prefixRequest config) b plan := by
  obtain ⟨hid, hdigests, hdvd⟩ := decideStore_ok h
  obtain ⟨decision, hdecision, h⟩ := bind_ok h
  cases decision with
  | none => cases h
  | some span =>
    cases span with
    | zero => cases h
    | succ span =>
      obtain ⟨plan', hplan, h⟩ := bind_ok h
      obtain ⟨b, hb, hspan⟩ := preForwardStoreSpan_pos hdecision (Nat.succ_ne_zero span)
      obtain ⟨hle, hexact⟩ := preForwardStoreSpan_le_target hdecision (Nat.succ_ne_zero span) hb
      have hblocks := planFromProgress_blocks hplan
      have hsp := (planFromProgress_ok (Nat.succ_ne_zero span)
        ⟨b / config.layout.chunkTokens, hspan.trans (Nat.mul_comm _ _)⟩ hplan).2.1
      split at h
      · cases h
      · cases h
        have hbefore : span + 1 ≤ b := hspan ▸ Nat.div_mul_le_self _ _
        have htarget := (alignedPrefixSpan_spec (progress.tokenIds.length + 1)
          config.layout.alignmentTokens config.layout.chunkTokens config.layout.chunkTokens
          none).2.2
        refine ⟨rfl, hid, b, hb, hp.new, ?_, hdvd,
          config.layout.alignmentTokens_dvd_chunkTokens.trans hdvd, ?_, ?_, hdigests, ?_, ?_⟩
        · omega
        · omega
        · have : progress.targetSpanTokens ≤ progress.tokenIds.length := by
            rw [hp.target]
            exact htarget
          change plan.spanTokens ≤ progress.tokenIds.length
          omega
        · rw [hp.tables]
          exact hblocks
        · intro hstate
          obtain ⟨h₁, h₂⟩ := hexact (storeRequiresExactBoundary_of_stateOnly hstate)
          rw [hsp]
          exact ⟨h₁, h₂.trans hp.target⟩

/-! ### Rounds -/

/-- The candidates for one request. -/
def ownPlans (id : String) (plans : List SpoolCachePlan) : Nat :=
  plans.countP fun p ↦ decide (p.requestId = id)

private theorem ownPlans_append (id : String) (a b : List SpoolCachePlan) :
    ownPlans id (a ++ b) = ownPlans id a + ownPlans id b := List.countP_append

private theorem ownPlans_toList_le (id : String) (plan : Option SpoolCachePlan) :
    ownPlans id plan.toList ≤ 1 := by
  refine List.countP_le_length.trans ?_
  cases plan with
  | none => exact Nat.zero_le 1
  | some p => exact le_rfl

/-- A round that reports at most once about the request keeps its salt and the invariant, and a
candidate for the request is planned by its report. -/
def Follows (config : ConnectorConfig) (id cacheSalt : String) {α : Type}
    (round : SchedulerState → α → Except PyError (SchedulerState × Option SpoolCachePlan))
    (report : α → Option StoreReport) : Prop :=
  ∀ a st st' plan reports n, round st a = .ok (st', plan) → st.cacheSalt id = cacheSalt →
    TrackInv config id reports n st →
    ((report a).toList ++ reports).countP StoreReport.isNew ≤ 1 →
    st'.cacheSalt id = cacheSalt ∧
    TrackInv config id ((report a).toList ++ reports) (n + ownPlans id plan.toList) st' ∧
      ∀ p ∈ plan, p.requestId = id → ∃ r, report a = some r ∧ PlannedBy config r reports p

/-- A round for another request. -/
theorem TrackInv.other {reports : List StoreReport} {n : Nat} {st st' : SchedulerState}
    {plan : Option SpoolCachePlan} (h : TrackInv config id reports n st)
    (hget : st'.storeProgress.get? id = st.storeProgress.get? id)
    (hplan : ∀ p ∈ plan, p.requestId ≠ id) :
    TrackInv config id reports (n + ownPlans id plan.toList) st' ∧
      ∀ p ∈ plan, p.requestId ≠ id := by
  have hown : ownPlans id plan.toList = 0 := by
    cases plan with
    | none => rfl
    | some p => simp [ownPlans, hplan p rfl]
  rw [hown, Nat.add_zero]
  exact ⟨⟨h.le, by rw [hget]; exact h.unseen, by rw [hget]; exact h.tracked⟩, hplan⟩

private theorem TrackInv.untracked {reports : List StoreReport} {n : Nat} {st : SchedulerState}
    (hle : n ≤ 1) (hseen : reports.countP StoreReport.isNew ≠ 0)
    (hget : st.storeProgress.get? id = none) : TrackInv config id reports n st := by
  refine ⟨hle, fun h ↦ absurd h hseen, ?_⟩
  intro progress h
  rw [hget] at h
  cases h

private theorem TrackInv.further {reports : List StoreReport} {progress : StoreProgress}
    {st : SchedulerState} (hseen : reports.countP StoreReport.isNew ≠ 0)
    (htracks : Tracks config reports progress) (hget : st.storeProgress.get? id = some progress) :
    TrackInv config id reports 0 st := by
  refine ⟨Nat.zero_le 1, fun h ↦ absurd h hseen, ?_⟩
  intro progress' h
  rw [hget] at h
  cases h
  exact ⟨rfl, htracks⟩

/-- After a decision the request is tracked further, without a candidate, or what the decision
emits is the candidate. -/
private theorem decision_cases {decision : Except PyError (Bool × Option SpoolCachePlan)}
    {further rest st' : SchedulerState} {plan : Option SpoolCachePlan}
    (h : (do
      let (tracked, emitted) ← decision
      if tracked then pure (further, none) else pure (rest, emitted)) = .ok (st', plan)) :
    (st' = further ∧ plan = none) ∨ (st' = rest ∧ ∃ tracked, decision = .ok (tracked, plan)) := by
  obtain ⟨⟨tracked, emitted⟩, hdecision, h⟩ := bind_ok h
  dsimp only at h
  split at h
  · cases h
    exact .inl ⟨rfl, rfl⟩
  · cases h
    exact .inr ⟨rfl, tracked, hdecision⟩

private theorem requestId_of_emitted {st : SchedulerState} {requestId : String}
    {progress : StoreProgress} {before scheduled : PyInt} {tracked : Bool}
    {plan : Option SpoolCachePlan}
    (h : decideStore config st requestId progress before scheduled = .ok (tracked, plan)) :
    ∀ p ∈ plan, p.requestId = requestId := by
  intro p hp
  rw [Option.mem_def] at hp
  rw [hp] at h
  exact (decideStore_ok h).1

private theorem plannedFrom_of_emitted {st : SchedulerState} {requestId : String}
    {progress : StoreProgress} {before scheduled : PyInt} {tracked : Bool}
    {plan : Option SpoolCachePlan} {reports : List StoreReport}
    (htracks : Tracks config reports progress)
    (h : decideStore config st requestId progress before scheduled = .ok (tracked, plan)) :
    ∀ p ∈ plan, ∃ b : Nat, before = some (b : Int) ∧
      PlannedFrom config reports (progress.prefixRequest config) b p := by
  intro p hp
  rw [Option.mem_def] at hp
  rw [hp] at h
  exact (plannedFrom_of_decideStore htracks h).2.2

private theorem follows_trackNewRequest (cacheSalt : String) (output : SchedulerOutput) :
    Follows config id cacheSalt (trackNewRequest config output) (newReport id cacheSalt) := by
  intro data st st' plan reports n h hsalt hinv hnew
  by_cases hid : data.reqId = id
  · -- no other report schedules the request as new, so it is not tracked and has no candidate
    have hreport : newReport id cacheSalt data = some (.new data cacheSalt) := if_pos hid
    rw [hreport] at hnew ⊢
    have hcount : (StoreReport.new data cacheSalt :: reports).countP StoreReport.isNew =
        reports.countP StoreReport.isNew + 1 := List.countP_cons_of_pos rfl
    have hzero : reports.countP StoreReport.isNew = 0 := by
      have : (StoreReport.new data cacheSalt :: reports).countP StoreReport.isNew ≤ 1 := hnew
      omega
    obtain ⟨rfl, hnone⟩ := hinv.unseen hzero
    have hseen : (StoreReport.new data cacheSalt :: reports).countP StoreReport.isNew ≠ 0 := by omega
    obtain ⟨progress, hp, h⟩ := bind_ok h
    cases progress with
    | none =>
      cases h
      exact ⟨hsalt, .untracked (Nat.zero_le 1) hseen hnone, fun p hp ↦ (by cases hp)⟩
    | some progress =>
      have htracks := tracks_newProgress reports hp
      rw [hid, hsalt] at htracks
      obtain ⟨rfl, rfl⟩ | ⟨rfl, tracked, hdecision⟩ := decision_cases h
      · refine ⟨hsalt, .further hseen htracks ?_, fun p hp ↦ (by cases hp)⟩
        dsimp only
        rw [OrderedDict.get?_set, if_pos hid.symm]
      · refine ⟨hsalt, .untracked ?_ hseen hnone, ?_⟩
        · rw [Nat.zero_add]
          exact ownPlans_toList_le id plan
        · intro p hp _
          obtain ⟨b, hb, hplanned⟩ := plannedFrom_of_emitted htracks hdecision p hp
          exact ⟨_, rfl, _, b, hb, hplanned⟩
  · have hreport : newReport id cacheSalt data = none := if_neg hid
    rw [hreport]
    have hother : st'.cacheSalt id = st.cacheSalt id ∧
        st'.storeProgress.get? id = st.storeProgress.get? id ∧
        ∀ p ∈ plan, p.requestId ≠ id := by
      obtain ⟨progress, -, h⟩ := bind_ok h
      cases progress with
      | none =>
        cases h
        exact ⟨rfl, rfl, fun p hp ↦ (by cases hp)⟩
      | some progress =>
        obtain ⟨rfl, rfl⟩ | ⟨rfl, tracked, hdecision⟩ := decision_cases h
        · refine ⟨rfl, ?_, fun p hp ↦ (by cases hp)⟩
          dsimp only
          rw [OrderedDict.get?_set, if_neg fun he ↦ hid he.symm]
        · refine ⟨rfl, rfl, ?_⟩
          intro p hp
          rw [requestId_of_emitted hdecision p hp]
          exact hid
    obtain ⟨hinv', hplan⟩ := hinv.other hother.2.1 hother.2.2
    exact ⟨hother.1.trans hsalt, hinv', fun p hp hpid ↦ absurd hpid (hplan p hp)⟩

private theorem follows_trackCachedRequest (cacheSalt : String) (output : SchedulerOutput) :
    Follows config id cacheSalt (trackCachedRequest config output) (cachedReport id) := by
  intro data st st' plan reports n h hsalt hinv hnew
  unfold trackCachedRequest at h
  by_cases hid : data.reqId = id
  · have hreport : cachedReport id data = some (.cached data) := if_pos hid
    rw [hreport]
    have hcount : (StoreReport.cached data :: reports).countP StoreReport.isNew =
        reports.countP StoreReport.isNew := List.countP_cons_of_neg Bool.false_ne_true
    rw [hid] at h
    cases hget : st.storeProgress.get? id with
    | none =>
      rw [hget] at h
      cases h
      refine ⟨hsalt, ⟨hinv.le, ?_, ?_⟩, fun p hp ↦ (by cases hp)⟩
      · intro h0
        exact hinv.unseen (hcount.symm.trans h0)
      · intro progress hp
        rw [hget] at hp
        cases hp
    | some progress =>
      obtain ⟨rfl, htracks⟩ := hinv.tracked progress hget
      have hseen : (StoreReport.cached data :: reports).countP StoreReport.isNew ≠ 0 := by
        intro h0
        have := (hinv.unseen (hcount.symm.trans h0)).2
        rw [hget] at this
        cases this
      have herased : (st.storeProgress.erase id).get? id = none := by
        rw [OrderedDict.get?_erase, if_pos rfl]
      rw [hget] at h
      dsimp only at h
      cases he : extendBlockIds progress data with
      | none =>
        rw [he] at h
        cases h
        exact ⟨hsalt, .untracked (Nat.zero_le 1) hseen herased, fun p hp ↦ (by cases hp)⟩
      | some progress' =>
        rw [he] at h
        have htracks' := tracks_extendBlockIds htracks he
        obtain ⟨rfl, rfl⟩ | ⟨rfl, tracked, hdecision⟩ := decision_cases h
        · refine ⟨hsalt, .further hseen htracks' ?_, fun p hp ↦ (by cases hp)⟩
          dsimp only
          rw [OrderedDict.get?_set, if_pos rfl]
        · refine ⟨hsalt, .untracked ?_ hseen herased, ?_⟩
          · rw [Nat.zero_add]
            exact ownPlans_toList_le id plan
          · intro p hp _
            obtain ⟨b, hb, hplanned⟩ := plannedFrom_of_emitted htracks' hdecision p hp
            exact ⟨_, rfl, _, b, hb, hplanned⟩
  · have hreport : cachedReport id data = none := if_neg hid
    rw [hreport]
    have hother : st'.cacheSalt id = st.cacheSalt id ∧
        st'.storeProgress.get? id = st.storeProgress.get? id ∧
        ∀ p ∈ plan, p.requestId ≠ id := by
      have herased : (st.storeProgress.erase data.reqId).get? id = st.storeProgress.get? id := by
        rw [OrderedDict.get?_erase, if_neg fun he ↦ hid he.symm]
      split at h
      · cases h
        exact ⟨rfl, rfl, fun p hp ↦ (by cases hp)⟩
      · split at h
        · cases h
          exact ⟨rfl, herased, fun p hp ↦ (by cases hp)⟩
        · obtain ⟨rfl, rfl⟩ | ⟨rfl, tracked, hdecision⟩ := decision_cases h
          · refine ⟨rfl, ?_, fun p hp ↦ (by cases hp)⟩
            dsimp only
            rw [OrderedDict.get?_set, if_neg fun he ↦ hid he.symm]
          · refine ⟨rfl, herased, ?_⟩
            intro p hp
            rw [requestId_of_emitted hdecision p hp]
            exact hid
    obtain ⟨hinv', hplan⟩ := hinv.other hother.2.1 hother.2.2
    exact ⟨hother.1.trans hsalt, hinv', fun p hp hpid ↦ absurd hpid (hplan p hp)⟩

/-! ### Steps and runs -/

private theorem countP_isNew_le_append (a b : List StoreReport) :
    b.countP StoreReport.isNew ≤ (a ++ b).countP StoreReport.isNew :=
  (List.sublist_append_right a b).countP_le

/-- What a round keeps, a loop keeps. -/
theorem Follows.collectPlans {cacheSalt : String} {α : Type}
    {round : SchedulerState → α → Except PyError (SchedulerState × Option SpoolCachePlan)}
    {report : α → Option StoreReport} (hround : Follows config id cacheSalt round report)
    {as : List α} {st st' : SchedulerState} {plans : List SpoolCachePlan}
    {reports : List StoreReport} {n : Nat} (h : collectPlans round st as = .ok (st', plans))
    (hsalt : st.cacheSalt id = cacheSalt) (hinv : TrackInv config id reports n st)
    (hnew : ((as.filterMap report).reverse ++ reports).countP StoreReport.isNew ≤ 1) :
    st'.cacheSalt id = cacheSalt ∧
      TrackInv config id ((as.filterMap report).reverse ++ reports) (n + ownPlans id plans) st' ∧
      ∀ p ∈ plans, p.requestId = id → ∃ newer r older,
        (as.filterMap report).reverse = newer ++ r :: older ∧
          PlannedBy config r (older ++ reports) p := by
  induction as generalizing st plans reports n with
  | nil =>
    cases h
    exact ⟨hsalt, hinv, fun p hp ↦ (by cases hp)⟩
  | cons a as ih =>
    obtain ⟨⟨st₁, plan⟩, h₁, h⟩ := bind_ok h
    obtain ⟨⟨st₂, rest⟩, h₂, h⟩ := bind_ok h
    cases h
    have hreverse : ((a :: as).filterMap report).reverse =
        (as.filterMap report).reverse ++ (report a).toList := by
      rw [List.filterMap_cons]
      cases report a with
      | none => exact (List.append_nil _).symm
      | some r => exact List.reverse_cons
    rw [hreverse, List.append_assoc] at hnew
    obtain ⟨hsalt₁, hinv₁, hplan⟩ := hround a st st₁ plan reports n h₁ hsalt hinv
      ((countP_isNew_le_append _ _).trans hnew)
    obtain ⟨hsalt₂, hinv₂, hrest⟩ := ih h₂ hsalt₁ hinv₁ hnew
    rw [hreverse, List.append_assoc, ownPlans_append, ← Nat.add_assoc]
    refine ⟨hsalt₂, hinv₂, ?_⟩
    intro p hp hpid
    rcases List.mem_append.mp hp with hp | hp
    · obtain ⟨r, hr, hplanned⟩ := hplan p (Option.mem_toList.mp hp) hpid
      exact ⟨_, r, [], by rw [hr]; rfl, hplanned⟩
    · obtain ⟨newer, r, older, heq, hplanned⟩ := hrest p hp hpid
      refine ⟨newer, r, older ++ (report a).toList, ?_, ?_⟩
      · rw [heq, List.append_assoc]
        rfl
      · rw [List.append_assoc]
        exact hplanned

private theorem trackInv_forgetFinished {st : SchedulerState} {ids : List String}
    {reports : List StoreReport} {n : Nat} (h : TrackInv config id reports n st) :
    TrackInv config id ((if id ∈ ids then [.finished] else []) ++ reports) n
      (forgetFinished { st with pendingLoads := .empty } ids) := by
  have hget := forgetFinished_storeProgress { st with pendingLoads := .empty } ids id
  split
  · next hmem =>
    rw [if_pos hmem] at hget
    refine ⟨h.le, ?_, ?_⟩
    · intro h0
      have hcount : (StoreReport.finished :: reports).countP StoreReport.isNew =
          reports.countP StoreReport.isNew := List.countP_cons_of_neg Bool.false_ne_true
      exact ⟨(h.unseen (hcount.symm.trans h0)).1, hget⟩
    · intro progress hp
      rw [hget] at hp
      cases hp
  · next hmem =>
    rw [if_neg hmem] at hget
    exact ⟨h.le, by rw [hget]; exact h.unseen, by rw [hget]; exact h.tracked⟩

/-- A request that finished has no salt. -/
theorem cacheSalt_forgetFinished (st : SchedulerState) (ids : List String) (id : String) :
    (forgetFinished st ids).cacheSalt id = if id ∈ ids then "" else st.cacheSalt id := by
  unfold SchedulerState.cacheSalt
  rw [forgetFinished_requestSalts]
  split
  · rfl
  · rfl

/-- A step keeps the invariant, and each of its candidates is planned by one of its reports. -/
theorem trackInv_storeCandidates {output : SchedulerOutput} {st st' : SchedulerState}
    {plans : List SpoolCachePlan} {reports : List StoreReport} {n : Nat}
    (h : storeCandidates config st output = .ok (st', plans))
    {cacheSalt : String}
    (hsalt : (forgetFinished st output.finishedReqIds).cacheSalt id = cacheSalt)
    (hinv : TrackInv config id reports n st)
    (hnew : (reportsOf id cacheSalt output ++ reports).countP StoreReport.isNew ≤ 1) :
    TrackInv config id (reportsOf id cacheSalt output ++ reports) (n + ownPlans id plans) st' ∧
      ∀ p ∈ plans, p.requestId = id → ∃ newer r older,
        reportsOf id cacheSalt output = newer ++ r :: older ∧ PlannedBy config r (older ++ reports) p := by
  obtain ⟨⟨st₁, fromNew⟩, h₁, h⟩ := bind_ok h
  obtain ⟨⟨st₂, fromCached⟩, h₂, h⟩ := bind_ok h
  cases h
  rw [reportsOf, List.append_assoc, List.append_assoc] at hnew ⊢
  have hsalt₀ : (forgetFinished { st with pendingLoads := .empty }
      output.finishedReqIds).cacheSalt id = cacheSalt := by
    rw [← hsalt, cacheSalt_forgetFinished, cacheSalt_forgetFinished]
    rfl
  obtain ⟨hsalt₁, hinv₁, hplans₁⟩ := (follows_trackNewRequest cacheSalt output).collectPlans h₁
    hsalt₀ (trackInv_forgetFinished hinv) ((countP_isNew_le_append _ _).trans hnew)
  obtain ⟨-, hinv₂, hplans₂⟩ :=
    (follows_trackCachedRequest cacheSalt output).collectPlans h₂ hsalt₁ hinv₁ hnew
  rw [ownPlans_append, ← Nat.add_assoc]
  refine ⟨hinv₂, ?_⟩
  intro p hp hpid
  rcases List.mem_append.mp hp with hp | hp
  · obtain ⟨newer, r, older, heq, hplanned⟩ := hplans₁ p hp hpid
    refine ⟨(output.scheduledCachedReqs.filterMap (cachedReport id)).reverse ++ newer, r,
      older ++ if id ∈ output.finishedReqIds then [.finished] else [], ?_, ?_⟩
    · rw [heq, List.append_assoc, List.append_assoc]
      rfl
    · rw [List.append_assoc]
      exact hplanned
  · obtain ⟨newer, r, older, heq, hplanned⟩ := hplans₂ p hp hpid
    refine ⟨newer, r, older ++ ((output.scheduledNewReqs.filterMap (newReport id cacheSalt)).reverse ++
      if id ∈ output.finishedReqIds then [.finished] else []), ?_, ?_⟩
    · rw [heq, List.append_assoc]
      rfl
    · rw [List.append_assoc, List.append_assoc]
      exact hplanned

/-- Building a step starts with its candidates. -/
theorem buildConnectorMeta_candidates {output : SchedulerOutput} {st st' st'' : SchedulerState}
    {metadata : SpoolCacheMetadata} {plans : List SpoolCachePlan}
    (h : buildConnectorMeta config st output = .ok (st', metadata))
    (hc : storeCandidates config st output = .ok (st'', plans)) :
    st'' = st' ∧
      (admitStorePlans plans maxPendingStores).map StoreAdmissionResult.admitted =
        .ok metadata.stores := by
  obtain ⟨⟨st₁, fromNew⟩, h₁, h⟩ := bind_ok h
  obtain ⟨⟨st₂, fromCached⟩, h₂, h⟩ := bind_ok h
  obtain ⟨admission, hadmission, h⟩ := bind_ok h
  cases h
  obtain ⟨⟨st₁', fromNew'⟩, h₁', hc⟩ := bind_ok hc
  cases h₁.symm.trans h₁'
  obtain ⟨⟨st₂', fromCached'⟩, h₂', hc⟩ := bind_ok hc
  cases h₂.symm.trans h₂'
  cases hc
  rw [hadmission]
  exact ⟨rfl, rfl⟩

/-- Each candidate is admitted at most once. -/
theorem admitStorePlans_subperm {plans admitted : List SpoolCachePlan} {budget : Nat}
    (h : (admitStorePlans plans budget).map StoreAdmissionResult.admitted = .ok admitted) :
    admitted.Subperm plans := by
  cases hresult : admitStorePlans plans budget with
  | error e =>
    rw [hresult] at h
    cases h
  | ok result =>
    rw [hresult] at h
    cases h
    obtain ⟨⟨unique, skipped⟩, hunique, hresult⟩ := bind_ok hresult
    cases hresult
    have hsorted := (unique.perm_insertionSort fun a b ↦ b.spanTokens ≤ a.spanTokens).subperm
    exact (List.take_sublist _ _).subperm.trans
      (hsorted.trans (uniquePlans_sublist hunique).subperm)

private theorem storeProgress_onNewRequest (st : SchedulerState) (request : Request) :
    (onNewRequest st request).storeProgress = st.storeProgress := by
  unfold onNewRequest
  dsimp only
  split <;> rfl

private theorem storeProgress_lookup {st st' : SchedulerState} {request : Request}
    {computed : PyInt}
    {n : Nat} (h : getNumNewMatchedTokens config st request computed = .ok (st', n)) :
    st'.storeProgress = st.storeProgress := by
  unfold getNumNewMatchedTokens at h
  split at h
  · cases h
    rfl
  · split at h
    · cases h
      rfl
    · obtain ⟨selected, -, h⟩ := bind_ok h
      split at h
      · cases h
        rfl
      · dsimp only at h
        split at h
        · cases h
          rfl
        · split at h
          · cases h
          · cases h
            rfl

private theorem storeProgress_alloc {st st' : SchedulerState} {request : Request}
    {blocks : List (List PyInt)} {count : PyInt}
    (h : updateStateAfterAlloc config st request blocks count = .ok st') :
    st'.storeProgress = st.storeProgress := by
  unfold updateStateAfterAlloc at h
  split at h
  · dsimp only at h
    split at h
    · cases h
      rfl
    · split at h
      · cases h
      · split at h
        · cases h
        · obtain ⟨blockIds, -, h⟩ := bind_ok h
          obtain ⟨pages, -, h⟩ := bind_ok h
          cases h
          rfl
  · cases h

private theorem TrackInv.congr {reports : List StoreReport} {n : Nat} {st st' : SchedulerState}
    (h : TrackInv config id reports n st) (hp : st'.storeProgress = st.storeProgress) :
    TrackInv config id reports n st' :=
  ⟨h.le, by rw [hp]; exact h.unseen, by rw [hp]; exact h.tracked⟩

private theorem runReports_append (id : String) (run : List StoreStep) (step : StoreStep) :
    runReports id (run ++ [step]) = step.reports id ++ runReports id run := by
  rw [runReports, List.reverse_append]
  rfl

private theorem trackInv_run {run : List StoreStep} {st : SchedulerState}
    (h : StoreRun config run st) (hnew : (runReports id run).countP StoreReport.isNew ≤ 1) :
    TrackInv config id (runReports id run) (ownPlans id (run.flatMap StoreStep.candidates)) st := by
  induction h with
  | initial => exact ⟨Nat.zero_le 1, fun _ ↦ ⟨rfl, rfl⟩, fun _ h ↦ (by cases h)⟩
  | newRequest _ request ih => exact (ih hnew).congr (storeProgress_onNewRequest _ request)
  | catalog _ catalog ih => exact (ih hnew).congr rfl
  | lookup _ request computed returned ih => exact (ih hnew).congr (storeProgress_lookup returned)
  | alloc _ request blocks count returned ih => exact (ih hnew).congr (storeProgress_alloc returned)
  | build _ returned candidates ih =>
    obtain ⟨rfl, -⟩ := buildConnectorMeta_candidates returned candidates
    rw [runReports_append] at hnew ⊢
    rw [List.flatMap_append, List.flatMap_singleton, ownPlans_append]
    exact (trackInv_storeCandidates candidates rfl
      (ih ((countP_isNew_le_append _ _).trans hnew)) hnew).1

/-- Every step of a run stands at its end in a run of its own, and sends the candidates that are
admitted. -/
theorem storeRun_split {run before after : List StoreStep} {st : SchedulerState} {step : StoreStep}
    (h : StoreRun config run st) (hrun : run = before ++ step :: after) :
    StoreRun config before step.start ∧
      (∃ st', storeCandidates config step.start step.output = .ok (st', step.candidates)) ∧
      (admitStorePlans step.candidates maxPendingStores).map StoreAdmissionResult.admitted =
        .ok step.stores := by
  induction h generalizing after with
  | initial => exact absurd hrun.symm (by simp)
  | newRequest _ request ih => exact ih hrun
  | catalog _ catalog ih => exact ih hrun
  | lookup _ request computed returned ih => exact ih hrun
  | alloc _ request blocks count returned ih => exact ih hrun
  | build h returned candidates ih =>
    rcases List.eq_nil_or_concat after with rfl | ⟨after', last, rfl⟩
    · obtain ⟨rfl, hlast⟩ := List.append_inj' hrun rfl
      cases hlast
      exact ⟨h, ⟨_, candidates⟩, (buildConnectorMeta_candidates returned candidates).2⟩
    · rw [List.concat_eq_append, ← List.cons_append, ← List.append_assoc] at hrun
      exact ih (List.append_inj' hrun rfl).1

/-- A request that is not tracked after the finished ones are forgotten, and is not new in the
step, is not tracked after it. -/
theorem untracked_storeCandidates {output : SchedulerOutput} {st st' : SchedulerState}
    {plans : List SpoolCachePlan} (h : storeCandidates config st output = .ok (st', plans))
    {cacheSalt : String}
    (hsalt : (forgetFinished st output.finishedReqIds).cacheSalt id = cacheSalt)
    (hnone : id ∈ output.finishedReqIds ∨ st.storeProgress.get? id = none)
    (hnew : (reportsOf id cacheSalt output).countP StoreReport.isNew = 0) :
    st'.storeProgress.get? id = none := by
  obtain ⟨⟨st₁, fromNew⟩, h₁, h⟩ := bind_ok h
  obtain ⟨⟨st₂, fromCached⟩, h₂, h⟩ := bind_ok h
  cases h
  have hget := forgetFinished_storeProgress { st with pendingLoads := .empty }
    output.finishedReqIds id
  have hforgotten : (forgetFinished { st with pendingLoads := .empty }
      output.finishedReqIds).storeProgress.get? id = none := by
    rw [hget]
    split
    · rfl
    · next hmem => exact hnone.resolve_left hmem
  have hinv : TrackInv config id [] 0
      (forgetFinished { st with pendingLoads := .empty } output.finishedReqIds) := by
    refine ⟨Nat.zero_le 1, fun _ ↦ ⟨rfl, hforgotten⟩, fun progress hp ↦ ?_⟩
    rw [hforgotten] at hp
    cases hp
  rw [reportsOf, List.countP_append, List.countP_append] at hnew
  have hcount : ((output.scheduledCachedReqs.filterMap (cachedReport id)).reverse ++
      ((output.scheduledNewReqs.filterMap (newReport id cacheSalt)).reverse ++ [])).countP
        StoreReport.isNew = 0 := by
    rw [List.countP_append, List.append_nil]
    omega
  have hsalt₀ : (forgetFinished { st with pendingLoads := .empty }
      output.finishedReqIds).cacheSalt id = cacheSalt := by
    rw [← hsalt, cacheSalt_forgetFinished, cacheSalt_forgetFinished]
    rfl
  obtain ⟨hsalt₁, hinv₁, -⟩ := (follows_trackNewRequest cacheSalt output).collectPlans h₁ hsalt₀
    hinv ((countP_isNew_le_append _ _).trans (hcount.trans_le (Nat.zero_le 1)))
  obtain ⟨-, hinv₂, -⟩ := (follows_trackCachedRequest cacheSalt output).collectPlans h₂ hsalt₁ hinv₁
    (hcount.trans_le (Nat.zero_le 1))
  exact (hinv₂.unseen hcount).2

/-- A request that finished and is not new again is not tracked. -/
theorem untracked_run {run before after : List StoreStep} {st : SchedulerState} {step : StoreStep}
    (h : StoreRun config run st) (hrun : run = before ++ step :: after)
    (hfinished : id ∈ step.output.finishedReqIds)
    (hnew : (runReports id after ++ step.reports id).countP StoreReport.isNew = 0) :
    st.storeProgress.get? id = none := by
  induction h generalizing after with
  | initial => exact absurd hrun.symm (by simp)
  | newRequest _ request ih =>
    rw [storeProgress_onNewRequest]
    exact ih hrun hnew
  | catalog _ catalog ih => exact ih hrun hnew
  | lookup _ request computed returned ih =>
    rw [storeProgress_lookup returned]
    exact ih hrun hnew
  | alloc _ request blocks count returned ih =>
    rw [storeProgress_alloc returned]
    exact ih hrun hnew
  | build h returned candidates ih =>
    obtain ⟨rfl, -⟩ := buildConnectorMeta_candidates returned candidates
    rcases List.eq_nil_or_concat after with rfl | ⟨after', last, rfl⟩
    · obtain ⟨rfl, hlast⟩ := List.append_inj' hrun rfl
      cases hlast
      exact untracked_storeCandidates candidates rfl (.inl hfinished) hnew
    · rw [List.concat_eq_append] at hnew
      rw [List.concat_eq_append, ← List.cons_append, ← List.append_assoc] at hrun
      obtain ⟨hbefore, hlast⟩ := List.append_inj' hrun rfl
      cases hlast
      rw [runReports_append, List.append_assoc, List.countP_append] at hnew
      obtain ⟨hlast, hearlier⟩ := Nat.add_eq_zero_iff.mp hnew
      exact untracked_storeCandidates candidates rfl (.inr (ih hbefore hearlier)) hlast

/-- In every run in which a request is scheduled as new at most once: it has at most one candidate
store plan; the plan of a step stores a positive aligned span of tokens that were computed before
the step, with the digests of all its chunk boundaries under the salt that the scheduler had for
the request when it was new, and the blocks reported so far; and nothing of the request is tracked
after it finished. Every step sends the candidates that are admitted, each at most once. -/
theorem store_planning (config : ConnectorConfig) (id : String) (run : List StoreStep)
    (st : SchedulerState) (h : StoreRun config run st)
    (hnew : (runReports id run).countP StoreReport.isNew ≤ 1) :
    ownPlans id (run.flatMap StoreStep.candidates) ≤ 1 ∧
    (∀ before step after, run = before ++ step :: after →
      StoreRun config before step.start ∧
      (∀ plan ∈ step.candidates, plan.requestId = id → ∃ newer report older,
        step.reports id = newer ++ report :: older ∧
          PlannedBy config report (older ++ runReports id before) plan) ∧
      (admitStorePlans step.candidates maxPendingStores).map StoreAdmissionResult.admitted =
        .ok step.stores ∧
      step.stores.Subperm step.candidates) ∧
    ∀ before step after, run = before ++ step :: after → id ∈ step.output.finishedReqIds →
      (runReports id after ++ step.reports id).countP StoreReport.isNew = 0 →
        st.storeProgress.get? id = none := by
  refine ⟨(trackInv_run h hnew).le, ?_, ?_⟩
  · intro before step after hrun
    obtain ⟨hbefore, ⟨st₁, hcandidates⟩, hstores⟩ := storeRun_split h hrun
    refine ⟨hbefore, ?_, hstores, admitStorePlans_subperm hstores⟩
    intro plan hp hid
    have hle : (step.reports id ++ runReports id before).countP StoreReport.isNew ≤ 1 := by
      have hsplit : runReports id run =
          runReports id after ++ (step.reports id ++ runReports id before) := by
        rw [hrun]
        simp [runReports]
      rw [hsplit] at hnew
      exact (countP_isNew_le_append _ _).trans hnew
    exact (trackInv_storeCandidates hcandidates rfl
      (trackInv_run hbefore ((countP_isNew_le_append _ _).trans hle)) hle).2 plan hp hid
  · intro before step after hrun hfinished hlater
    exact untracked_run h hrun hfinished hlater

/-- A step whose candidates are admitted. -/
theorem buildConnectorMeta_of_candidates {output : SchedulerOutput} {st st' : SchedulerState}
    {plans : List SpoolCachePlan} {admission : StoreAdmissionResult}
    (h : storeCandidates config st output = .ok (st', plans))
    (hadmission : admitStorePlans plans maxPendingStores = .ok admission) :
    buildConnectorMeta config st output =
      .ok (st', ⟨st.pendingLoads.items.map Prod.snd, admission.admitted⟩) := by
  obtain ⟨⟨st₁, fromNew⟩, h₁, h⟩ := bind_ok h
  obtain ⟨⟨st₂, fromCached⟩, h₂, h⟩ := bind_ok h
  cases h
  unfold buildConnectorMeta
  dsimp only at h₁ h₂ ⊢
  rw [h₁, ok_bind]
  dsimp only
  rw [h₂, ok_bind]
  dsimp only
  rw [hadmission]
  rfl

/-- A prompt of two chunks with a salt. -/
def storeSamplePrefix : PrefixRequest := ⟨.ofNat 7, "tenant", List.replicate 512 0, []⟩

/-- The request for that prompt. -/
def storeSampleRequest : Request :=
  ⟨"r", .text "tenant", false, false, some (List.replicate 512 0), false, false, .absent false⟩

/-- The request is new with a block for its first chunk, and nothing is computed. -/
def storeSampleNew : NewRequestData :=
  ⟨"r", some (List.replicate 512 0), false, false, .absent false, [[some 5]], some 0⟩

/-- The first chunk is computed, and there is a block for the second. -/
def storeSampleCached : CachedRequestData := ⟨"r", some [[some 6]], some 256, false⟩

/-- A chunk of the request is scheduled. -/
def storeSampleScheduled : OrderedDict String PyInt := OrderedDict.empty.set "r" (some 256)

/-- The plan to store the first chunk. -/
def storeSamplePlan : SpoolCachePlan := ⟨"r", storeSamplePrefix.key 256 1, 256, [[5, 6]], []⟩

/-- What is tracked of the request, with its blocks. -/
def storeSampleProgress (blocks : List PyInt) : StoreProgress :=
  ⟨List.replicate 512 0, [], "tenant", 512, [blocks]⟩

/-- The tables after the first step. -/
def storeSampleTracked : SchedulerState :=
  { onNewRequest .initial storeSampleRequest with
    storeProgress := OrderedDict.empty.set "r" (storeSampleProgress [some 5]) }

/-- The tables after the second step. -/
def storeSampleStored : SchedulerState :=
  { storeSampleTracked with storeProgress := storeSampleTracked.storeProgress.erase "r" }

/-- The request is tracked in the step that schedules its first chunk. -/
def storeSampleFirst : StoreStep where
  start := onNewRequest .initial storeSampleRequest
  output := ⟨[], [storeSampleNew], [], storeSampleScheduled⟩
  candidates := []
  stores := []

/-- Its first chunk is stored in the step that schedules the second. -/
def storeSampleSecond : StoreStep where
  start := storeSampleTracked
  output := ⟨[], [], [storeSampleCached], storeSampleScheduled⟩
  candidates := [storeSamplePlan]
  stores := [storeSamplePlan]

/-- It finishes. -/
def storeSampleLast : StoreStep where
  start := storeSampleStored
  output := ⟨["r"], [], [], .empty⟩
  candidates := []
  stores := []

private theorem decideStore_storeSample (st : SchedulerState) (hcatalog : st.catalog = none) :
    decideStore lookupSample st "r" (storeSampleProgress [some 5, some 6]) (some 256) (some 256) =
      .ok (false, some storeSamplePlan) := by
  have hchunk := chunkTokens_lookupSample
  have hkeyed : connectorDigests lookupSample (List.replicate 512 0) "tenant" []
      (chunkBoundaries lookupSample.layout.chunkTokens 256) =
        .ok [⟨256, storeSamplePrefix.key 256 1⟩] := by
    rw [connectorDigests, hchunk]
    exact PrefixRequest.keyed_of_hashable (r := storeSamplePrefix) (n := 1) (by decide +kernel)
      trivial (by decide) (by decide +kernel)
  have hblocks : normalizeBlockIds [[some 5, some 6]] = .ok [[5, 6]] := rfl
  have hpages : lookupSample.layout.selectPhysicalPages [[5, 6]] 256 = .ok [[5]] := by
    decide +kernel
  have hplan : planFromProgress lookupSample "r" (storeSampleProgress [some 5, some 6]) 256 =
      .ok storeSamplePlan := by
    unfold planFromProgress storeSampleProgress
    dsimp only
    rw [hkeyed, hblocks, ok_bind, hpages, ok_bind, ok_bind]
    rfl
  have hspan : preForwardStoreSpan (some 256) (some 256) 512 lookupSample.layout.chunkTokens
      lookupSample.layout.chunkTokens lookupSample.layout.storeRequiresExactBoundary =
        .ok (some 256) := by
    decide +kernel
  unfold decideStore
  have htarget : (storeSampleProgress [some 5, some 6]).targetSpanTokens = 512 := rfl
  simp only [htarget, hspan, ok_bind, hplan, hcatalog]
  rfl

private theorem storeCandidates_storeSampleFirst :
    storeCandidates lookupSample storeSampleFirst.start storeSampleFirst.output =
      .ok (storeSampleTracked, []) := by
  have hprogress : newProgress lookupSample (onNewRequest .initial storeSampleRequest)
      storeSampleNew = .ok (some (storeSampleProgress [some 5])) := by
    have htarget : lookupSample.layout.safeStoreSpan 512 = 512 := by decide +kernel
    have htokens : eligibleTokenIds (some (List.replicate 512 0)) false false =
        some (List.replicate 512 0) := rfl
    have hmedia : ∀ n, multimodalFeatureIdentities (.absent false) n
        lookupSample.multimodalModalities = some [] := fun _ ↦ rfl
    unfold newProgress storeSampleNew
    rw [if_neg (by decide)]
    simp only [htokens, hmedia, List.length_replicate, htarget]
    rfl
  have hspan : preForwardStoreSpan (some 0) (some 256) 512 lookupSample.layout.chunkTokens
      lookupSample.layout.chunkTokens lookupSample.layout.storeRequiresExactBoundary = .ok none := by
    decide +kernel
  have hdecide : decideStore lookupSample (onNewRequest .initial storeSampleRequest) "r"
      (storeSampleProgress [some 5]) (some 0) (some 256) = .ok (true, none) := by
    unfold decideStore
    have htarget : (storeSampleProgress [some 5]).targetSpanTokens = 512 := rfl
    rw [htarget, hspan]
    rfl
  have htrack : trackNewRequest lookupSample storeSampleFirst.output
      (onNewRequest .initial storeSampleRequest) storeSampleNew = .ok (storeSampleTracked, none) := by
    unfold trackNewRequest
    rw [hprogress, ok_bind]
    dsimp only
    have hid : storeSampleNew.reqId = "r" := rfl
    have hcomputed : storeSampleNew.numComputedTokens = some 0 := rfl
    have hscheduled : storeSampleFirst.output.scheduledTokens "r" = some 256 := rfl
    rw [hid, hcomputed, hscheduled, hdecide]
    rfl
  have hforget : forgetFinished { storeSampleFirst.start with pendingLoads := .empty }
      storeSampleFirst.output.finishedReqIds = onNewRequest .initial storeSampleRequest := rfl
  unfold storeCandidates
  dsimp only
  rw [hforget]
  have hnew : storeSampleFirst.output.scheduledNewReqs = [storeSampleNew] := rfl
  rw [hnew, collectPlans, htrack]
  rfl

private theorem storeCandidates_storeSampleSecond :
    storeCandidates lookupSample storeSampleSecond.start storeSampleSecond.output =
      .ok (storeSampleStored, [storeSamplePlan]) := by
  have htrack : trackCachedRequest lookupSample storeSampleSecond.output storeSampleTracked
      storeSampleCached = .ok (storeSampleStored, some storeSamplePlan) := by
    have hget : storeSampleTracked.storeProgress.get? storeSampleCached.reqId =
        some (storeSampleProgress [some 5]) := rfl
    have hextend : extendBlockIds (storeSampleProgress [some 5]) storeSampleCached =
        some (storeSampleProgress [some 5, some 6]) := rfl
    have hid : storeSampleCached.reqId = "r" := rfl
    have hcomputed : storeSampleCached.numComputedTokens = some 256 := rfl
    have hscheduled : storeSampleSecond.output.scheduledTokens "r" = some 256 := rfl
    unfold trackCachedRequest
    rw [hget]
    dsimp only
    rw [hextend]
    dsimp only
    rw [hid, hcomputed, hscheduled, decideStore_storeSample storeSampleTracked rfl]
    rfl
  have hforget : forgetFinished { storeSampleSecond.start with pendingLoads := .empty }
      storeSampleSecond.output.finishedReqIds = storeSampleTracked := rfl
  unfold storeCandidates
  dsimp only
  rw [hforget]
  have hnew : storeSampleSecond.output.scheduledNewReqs = [] := rfl
  have hcached : storeSampleSecond.output.scheduledCachedReqs = [storeSampleCached] := rfl
  rw [hnew, collectPlans, ok_bind]
  dsimp only
  rw [hcached, collectPlans, htrack]
  rfl

/-- A request is tracked in one step, stored under its salt in the next, with the blocks of both, and
forgotten when it finishes. -/
theorem store_planning_sample : ∃ st : SchedulerState,
    StoreRun lookupSample [storeSampleFirst, storeSampleSecond, storeSampleLast] st ∧
    ownPlans "r" [storeSamplePlan] ≤ 1 ∧
    PlannedBy lookupSample (.cached storeSampleCached) [.new storeSampleNew "tenant"]
      storeSamplePlan ∧
    st.storeProgress.get? "r" = none := by
  have hstart : StoreRun lookupSample [] (onNewRequest .initial storeSampleRequest) :=
    .newRequest .initial storeSampleRequest
  have hnone : admitStorePlans [] maxPendingStores = .ok ⟨[], 0, 0⟩ := rfl
  have hone : admitStorePlans [storeSamplePlan] maxPendingStores =
      .ok ⟨[storeSamplePlan], 0, 0⟩ := rfl
  have hfirst : StoreRun lookupSample [storeSampleFirst] storeSampleTracked :=
    hstart.build (buildConnectorMeta_of_candidates storeCandidates_storeSampleFirst hnone)
      storeCandidates_storeSampleFirst
  have hsecond : StoreRun lookupSample [storeSampleFirst, storeSampleSecond] storeSampleStored :=
    hfirst.build (buildConnectorMeta_of_candidates storeCandidates_storeSampleSecond hone)
      storeCandidates_storeSampleSecond
  have hlast : storeCandidates lookupSample storeSampleStored storeSampleLast.output =
      .ok (forgetFinished { storeSampleStored with pendingLoads := .empty } ["r"], []) := rfl
  have hrun : StoreRun lookupSample [storeSampleFirst, storeSampleSecond, storeSampleLast] _ :=
    hsecond.build (buildConnectorMeta_of_candidates hlast hnone) hlast
  obtain ⟨hcount, hplanned, hforgotten⟩ := store_planning lookupSample "r" _ _ hrun (by decide)
  obtain ⟨-, hplans, -, -⟩ :=
    hplanned [storeSampleFirst] storeSampleSecond [storeSampleLast] rfl
  obtain ⟨newer, report, older, hreports, hplan⟩ :=
    hplans storeSamplePlan (List.mem_singleton.mpr rfl) rfl
  have hsingle : storeSampleSecond.reports "r" = [.cached storeSampleCached] := rfl
  rw [hsingle] at hreports
  obtain ⟨rfl, hreport⟩ | ⟨-, hreport⟩ := List.append_eq_singleton_iff.mp hreports.symm
  · cases hreport
    exact ⟨_, hrun, hcount, hplan, hforgotten [storeSampleFirst, storeSampleSecond] storeSampleLast []
      rfl (List.mem_singleton.mpr rfl) rfl⟩
  · cases hreport

end

end SpoolCache.Connector

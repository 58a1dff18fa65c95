import Mathlib.Order.Bounds.Defs
import SpoolCache.Connector.Lookup
import SpoolCache.Prefix.Hashing

/-!
# What a lookup answers

`connector.py:274–298`, `811–890`, `1538–1544`. A span is good for a request when it is aligned,
lies above the computed tokens and below the prompt, and every key it stands for has quorum. The
scan stops at the first boundary without quorum but passes a boundary without state, so what it
selects is the largest good span.
-/

namespace SpoolCache.Connector

open SpoolCache.Base SpoolCache.Layout SpoolCache.Prefix SpoolCache.Quorum
open PrefixRequest (Keyed Hashable)

/-- Quorum of a key with its exact span; without a catalog no key has it. -/
def hasQuorumAt (catalog : Option QuorumCatalog) (key : Digest) (span : Nat) : Prop :=
  ∃ c ∈ catalog, c.hasQuorum key (some span) = true

/-- The spans that a request may restore. -/
structure GoodSpan (config : ConnectorConfig) (catalog : Option QuorumCatalog) (r : PrefixRequest)
    (numComputedTokens span : Nat) : Prop where
  chunk : config.layout.chunkTokens ∣ span
  aligned : config.layout.alignmentTokens ∣ span
  above : numComputedTokens < span
  below : span ≤ r.tokens.length - 1
  data : ∀ i, 0 < i → i * config.layout.chunkTokens ≤ span →
    hasQuorumAt catalog (r.key config.layout.chunkTokens i) (i * config.layout.chunkTokens)
  state : (∃ g ∈ config.layout.groups, g.reusePolicy ≠ .full) →
    hasQuorumAt catalog
      (boundaryStateKey (r.key config.layout.chunkTokens (span / config.layout.chunkTokens))) span

/-- Another restore fits, or the request holds one already. -/
def RestoreBudget (st : SchedulerState) (requestId : String) : Prop :=
  requestId ∈ st.needLoad.keys ++ st.pendingLoads.keys ∨
    (st.needLoad.keys ++ st.pendingLoads.keys).dedup.length < maxPendingRestores

/-- The tables with a recorded hit: its key, its span and the tokens to restore. -/
def SchedulerState.recordHit (st : SchedulerState) (requestId : String) (entryId : Digest)
    (spanTokens externalTokens : Nat) : SchedulerState :=
  { st with needLoad := st.needLoad.set requestId (entryId, spanTokens, externalTokens) }

section

variable {config : ConnectorConfig}

/-! ### The scan -/

private theorem selectPrefix_append (c : QuorumCatalog) (first : Nat)
    (before after : List PrefixDigest) (selected : Option (Nat × Digest)) :
    selectPrefix config c first (before ++ after) selected =
      if ∀ p ∈ before, c.hasQuorum p.digest (some p.spanTokens) = true then
        selectPrefix config c first after (selectPrefix config c first before selected)
      else selectPrefix config c first before selected := by
  induction before generalizing selected with
  | nil => simp [selectPrefix]
  | cons p before ih =>
    rw [List.cons_append, selectPrefix, selectPrefix]
    by_cases hq : c.hasQuorum p.digest (some p.spanTokens) = true
    · simp only [List.forall_mem_cons, hq, not_true_eq_false, if_false, true_and]
      split
      · exact ih _
      · exact ih _
    · simp only [List.forall_mem_cons, hq, Bool.false_eq_true, not_false_eq_true, if_true,
        false_and, if_false]

/-- What the scan accepts of the first `n` boundaries: the number of chunks of a prefix. -/
structure Selectable (config : ConnectorConfig) (c : QuorumCatalog) (r : PrefixRequest)
    (first n m : Nat) : Prop where
  pos : 0 < m
  le : m ≤ n
  first : first ≤ m * config.layout.chunkTokens
  aligned : m * config.layout.chunkTokens % config.layout.alignmentTokens = 0
  data : ∀ i, 0 < i → i ≤ m → c.hasQuorum (r.key config.layout.chunkTokens i)
    (some (i * config.layout.chunkTokens)) = true
  state : hasBoundaryQuorum config (some c) (r.key config.layout.chunkTokens m)
    (m * config.layout.chunkTokens) = true

private theorem keys_succ (r : PrefixRequest) (chunk n : Nat) :
    r.keys chunk (n + 1) = r.keys chunk n ++ [⟨(n + 1) * chunk, r.key chunk (n + 1)⟩] := by
  rw [PrefixRequest.keys, List.range_succ, List.map_append]
  rfl

private theorem keys_quorum_iff (c : QuorumCatalog) (r : PrefixRequest) (chunk n : Nat) :
    (∀ p ∈ r.keys chunk n, c.hasQuorum p.digest (some p.spanTokens) = true) ↔
      ∀ i, 0 < i → i ≤ n → c.hasQuorum (r.key chunk i) (some (i * chunk)) = true := by
  constructor
  · intro h i hi hin
    obtain ⟨j, rfl⟩ := Nat.exists_eq_succ_of_ne_zero (Nat.ne_of_gt hi)
    exact h _ (PrefixRequest.mem_keys hin)
  · intro h p hp
    obtain ⟨i, hi, rfl⟩ := List.mem_map.mp hp
    exact h (i + 1) (Nat.succ_pos i) (List.mem_range.mp hi)

/-- The scan over the first `n` boundaries selects the longest prefix it accepts. -/
theorem selectPrefix_keys (c : QuorumCatalog) (r : PrefixRequest) (first n : Nat) :
    (∃ m, IsGreatest (Selectable config c r first n) m ∧
      selectPrefix config c first (r.keys config.layout.chunkTokens n) none =
        some (m * config.layout.chunkTokens, r.key config.layout.chunkTokens m)) ∨
    ((∀ m, ¬ Selectable config c r first n m) ∧
      selectPrefix config c first (r.keys config.layout.chunkTokens n) none = none) := by
  -- the boundaries are visited in order, so the induction adds the last one
  induction n with
  | zero =>
    refine .inr ⟨?_, rfl⟩
    intro m hm
    have := hm.pos
    have := hm.le
    omega
  | succ n ih =>
    have hold : ∀ m, Selectable config c r first n m → Selectable config c r first (n + 1) m :=
      fun m h ↦ { h with le := Nat.le_succ_of_le h.le }
    have hnew : ∀ m, Selectable config c r first (n + 1) m → m ≠ n + 1 →
        Selectable config c r first n m := by
      intro m h hne
      have := h.le
      exact { h with le := by omega }
    by_cases hlast : Selectable config c r first (n + 1) (n + 1)
    · refine .inl ⟨n + 1, ⟨hlast, fun m hm ↦ hm.le⟩, ?_⟩
      have hbefore := (keys_quorum_iff c r config.layout.chunkTokens n).mpr fun i hi hin ↦
        hlast.data i hi (Nat.le_succ_of_le hin)
      rw [keys_succ, selectPrefix_append, if_pos hbefore, selectPrefix, if_neg, if_pos]
      · rfl
      · exact ⟨hlast.first, hlast.aligned, hlast.state⟩
      · rw [not_not]
        exact hlast.data (n + 1) (Nat.succ_pos n) le_rfl
    · have hsame : selectPrefix config c first (r.keys config.layout.chunkTokens (n + 1)) none =
          selectPrefix config c first (r.keys config.layout.chunkTokens n) none := by
        rw [keys_succ, selectPrefix_append]
        split
        · next hbefore =>
          rw [keys_quorum_iff] at hbefore
          rw [selectPrefix]
          split
          · rfl
          · next hq =>
            rw [not_not] at hq
            split
            · next hgood =>
              refine absurd ⟨Nat.succ_pos n, le_rfl, hgood.1, hgood.2.1, ?_, hgood.2.2⟩ hlast
              intro i hi hin
              rcases Nat.lt_succ_iff_lt_or_eq.mp (Nat.lt_succ_of_le hin) with h | rfl
              · exact hbefore i hi (Nat.le_of_lt_succ h)
              · exact hq
            · rfl
        · rfl
      have hne : ∀ m, Selectable config c r first (n + 1) m → m ≠ n + 1 := by
        rintro m hm rfl
        exact hlast hm
      rw [hsame]
      rcases ih with ⟨m, hm, hsel⟩ | ⟨hnone, hsel⟩
      · exact .inl ⟨m, ⟨hold m hm.1, fun k hk ↦ hm.2 (hnew k hk (hne k hk))⟩, hsel⟩
      · exact .inr ⟨fun m hm ↦ hnone m (hnew m hm (hne m hm)), hsel⟩

/-! ### Good spans -/

/-- What the fields of an eligible request are. -/
theorem prefixRequest_fields {request : Request} {r : PrefixRequest}
    (h : request.prefixRequest config = some r) :
    requestCacheSalt request = some r.salt ∧
      eligibleTokenIds request.promptTokenIds request.promptEmbeds request.loraRequest =
        some r.tokens ∧
      multimodalFeatureIdentities request.media r.tokens.length config.multimodalModalities =
        some r.features ∧
      r.deployment = config.deploymentDigest := by
  rw [Request.prefixRequest, Option.bind_eq_some_iff] at h
  obtain ⟨salt, hsalt, h⟩ := h
  rw [hashedRequest] at h
  obtain ⟨tokens, htokens, h⟩ := Option.bind_eq_some_iff.mp h
  obtain ⟨features, hfeatures, h⟩ := Option.bind_eq_some_iff.mp h
  cases h
  exact ⟨hsalt, htokens, hfeatures, rfl⟩

private theorem accepted_of_identities {media : RawMedia} {tokenCount : Nat}
    {modalities : List String} {features : List MultimodalFeatureIdentity}
    (h : multimodalFeatureIdentities media tokenCount modalities = some features) :
    AcceptedFrom tokenCount 0 features := by
  unfold multimodalFeatureIdentities at h
  split at h
  · split at h
    · cases h
    · cases h
      trivial
  · cases h
  · split at h
    · cases h
      trivial
    · split at h
      · cases h
      · split at h
        · next hv =>
          cases h
          exact validateFeaturesFrom_accepted hv
        · cases h

variable {r : PrefixRequest}

private theorem GoodSpan.first_le {catalog : Option QuorumCatalog} {computed span : Nat}
    (h : GoodSpan config catalog r computed span) :
    (computed / config.layout.chunkTokens + 1) * config.layout.chunkTokens ≤ span := by
  obtain ⟨m, hm⟩ := h.chunk
  have habove := h.above
  rw [hm, Nat.mul_comm, ← Nat.div_lt_iff_lt_mul config.layout.chunkTokens_pos] at habove
  rw [hm, Nat.mul_comm config.layout.chunkTokens]
  exact Nat.mul_le_mul_right _ habove

private theorem GoodSpan.le_ceiling {catalog : Option QuorumCatalog} {computed span : Nat}
    (h : GoodSpan config catalog r computed span) :
    span ≤ config.layout.safeRestoreSpan r.tokens.length :=
  le_alignedPrefixSpan h.aligned h.chunk (Nat.zero_lt_of_lt h.above) h.below
    ((Nat.le_mul_of_pos_left _ (Nat.succ_pos _)).trans h.first_le)

private theorem hasBoundaryQuorum_iff {c : QuorumCatalog} {key : Digest} {span : Nat} :
    hasBoundaryQuorum config (some c) key span = true ↔
      ((∃ g ∈ config.layout.groups, g.reusePolicy ≠ .full) →
        hasQuorumAt (some c) (boundaryStateKey key) span) := by
  have hstate : config.layout.hasBoundaryState = true ↔
      ∃ g ∈ config.layout.groups, g.reusePolicy ≠ .full := by
    simp [HMALayout.hasBoundaryState]
  have hquorum : hasQuorumAt (some c) (boundaryStateKey key) span ↔
      c.hasQuorum (boundaryStateKey key) (some span) = true := by
    simp [hasQuorumAt]
  rw [← hstate, hquorum, hasBoundaryQuorum]
  cases config.layout.hasBoundaryState <;> simp

/-- The prefixes the scan accepts are the good spans. -/
theorem selectable_iff {c : QuorumCatalog} {computed n m : Nat}
    (hn : config.layout.safeRestoreSpan r.tokens.length = n * config.layout.chunkTokens) :
    Selectable config c r ((computed / config.layout.chunkTokens + 1) * config.layout.chunkTokens)
        n m ↔
      GoodSpan config (some c) r computed (m * config.layout.chunkTokens) := by
  have hpos := config.layout.chunkTokens_pos
  have hquorum : ∀ key span, hasQuorumAt (some c) key span ↔
      c.hasQuorum key (some span) = true := by
    intro key span
    simp [hasQuorumAt]
  constructor
  · intro h
    refine ⟨Nat.dvd_mul_left _ _, Nat.dvd_of_mod_eq_zero h.aligned, ?_, ?_, ?_, ?_⟩
    · rw [← Nat.div_lt_iff_lt_mul hpos]
      exact Nat.le_of_mul_le_mul_right h.first hpos
    · have hle := Nat.mul_le_mul_right config.layout.chunkTokens h.le
      rw [← hn] at hle
      exact hle.trans (alignedPrefixSpan_spec _ _ _ _ _).2.2
    · intro i hi hle
      rw [hquorum]
      exact h.data i hi (Nat.le_of_mul_le_mul_right hle hpos)
    · rw [Nat.mul_div_cancel _ hpos]
      exact hasBoundaryQuorum_iff.mp h.state
  · intro h
    have hstate := h.state
    rw [Nat.mul_div_cancel _ hpos] at hstate
    have hle := h.le_ceiling
    rw [hn] at hle
    refine ⟨?_, Nat.le_of_mul_le_mul_right hle hpos, h.first_le, Nat.mod_eq_zero_of_dvd h.aligned,
      ?_, hasBoundaryQuorum_iff.mpr hstate⟩
    · exact Nat.pos_of_mul_pos_right (Nat.zero_lt_of_lt h.above)
    · intro i hi him
      exact (hquorum _ _).mp (h.data i hi (Nat.mul_le_mul_right _ him))

/-! ### Lookups -/

/-- What is matched for an eligible request is its largest good span. -/
theorem matchedPrefix_greatest {c : QuorumCatalog} {request : Request} {computed : Nat}
    (hr : request.prefixRequest config = some r) (hh : r.Hashable)
    (hcomputed : computed ≤ r.tokens.length) :
    (∃ s, IsGreatest (GoodSpan config (some c) r computed) s ∧
      matchedPrefix config c request (some computed) =
        .ok (some (s, r.key config.layout.chunkTokens (s / config.layout.chunkTokens)))) ∨
    ((∀ s, ¬ GoodSpan config (some c) r computed s) ∧
      matchedPrefix config c request (some computed) = .ok none) := by
  have hpos := config.layout.chunkTokens_pos
  obtain ⟨hsalt, htokens, hfeatures, hdeployment⟩ := prefixRequest_fields hr
  obtain ⟨-, ⟨n, hn⟩, hceiling⟩ := alignedPrefixSpan_spec r.tokens.length
    config.layout.alignmentTokens config.layout.chunkTokens config.layout.chunkTokens none
  rw [Nat.mul_comm] at hn
  have hn' : config.layout.safeRestoreSpan r.tokens.length = n * config.layout.chunkTokens := hn
  have hkeyed := PrefixRequest.keyed_of_hashable hh (accepted_of_identities hfeatures) hpos
    (n := n) (by omega)
  have hdigests : connectorDigests config r.tokens r.salt r.features
      (chunkBoundaries config.layout.chunkTokens (n * config.layout.chunkTokens)) =
        .ok (r.keys config.layout.chunkTokens n) := by
    rw [connectorDigests, ← hdeployment]
    exact hkeyed
  have hfirst : max config.layout.chunkTokens
      ((computed / config.layout.chunkTokens + 1) * config.layout.chunkTokens) =
        (computed / config.layout.chunkTokens + 1) * config.layout.chunkTokens :=
    Nat.max_eq_right (Nat.le_mul_of_pos_left _ (Nat.succ_pos _))
  have hbody : matchedPrefix config c request (some computed) =
      if n * config.layout.chunkTokens <
          (computed / config.layout.chunkTokens + 1) * config.layout.chunkTokens then .ok none
      else .ok (selectPrefix config c
        ((computed / config.layout.chunkTokens + 1) * config.layout.chunkTokens)
        (r.keys config.layout.chunkTokens n) none) := by
    unfold matchedPrefix
    simp only [hsalt, htokens, hfeatures, hn', hdigests, Int.toNat_natCast, hfirst]
    rw [if_neg (by omega)]
    rfl
  rw [hbody]
  split
  · next hlt =>
    refine .inr ⟨?_, rfl⟩
    intro s hs
    have h₁ := hs.first_le
    have h₂ := hs.le_ceiling
    omega
  · rcases selectPrefix_keys c r
      ((computed / config.layout.chunkTokens + 1) * config.layout.chunkTokens) n with
      ⟨m, hm, hsel⟩ | ⟨hnone, hsel⟩
    · refine .inl ⟨m * config.layout.chunkTokens, ⟨(selectable_iff hn').mp hm.1, ?_⟩, ?_⟩
      · intro s hs
        obtain ⟨k, rfl⟩ : ∃ k, s = k * config.layout.chunkTokens :=
          ⟨_, (Nat.div_mul_cancel hs.chunk).symm⟩
        exact Nat.mul_le_mul_right _ (hm.2 ((selectable_iff hn').mpr hs))
      · rw [hsel, Nat.mul_div_cancel _ hpos]
    · refine .inr ⟨?_, by rw [hsel]⟩
      intro s hs
      obtain ⟨k, rfl⟩ : ∃ k, s = k * config.layout.chunkTokens :=
        ⟨_, (Nat.div_mul_cancel hs.chunk).symm⟩
      exact hnone k ((selectable_iff hn').mpr hs)

/-- For every layout and catalog, every eligible request and every number of computed tokens, with
a free restore: the lookup returns the largest good span less the computed tokens and records its
key and span, or finds no good span, returns zero and records nothing. -/
theorem lookup_largest_good_span (config : ConnectorConfig) (st : SchedulerState)
    (request : Request) (r : PrefixRequest) (numComputedTokens : Nat)
    (hread : request.skipRead = false) (hr : request.prefixRequest config = some r)
    (hh : r.Hashable) (hcomputed : numComputedTokens ≤ r.tokens.length)
    (hbudget : RestoreBudget st request.requestId) :
    (∃ s, IsGreatest (GoodSpan config st.catalog r numComputedTokens) s ∧
      getNumNewMatchedTokens config st request (some numComputedTokens) =
        .ok (st.recordHit request.requestId
          (r.key config.layout.chunkTokens (s / config.layout.chunkTokens)) s
          (s - numComputedTokens), s - numComputedTokens)) ∨
    ((∀ s, ¬ GoodSpan config st.catalog r numComputedTokens s) ∧
      getNumNewMatchedTokens config st request (some numComputedTokens) = .ok (st, 0)) := by
  unfold getNumNewMatchedTokens
  rw [if_neg (by rw [hread]; decide)]
  cases hc : st.catalog with
  | none =>
    refine .inr ⟨?_, rfl⟩
    intro s hs
    obtain ⟨c, hc, -⟩ := hs.data 1 Nat.one_pos
      (by rw [Nat.one_mul]; exact (Nat.le_mul_of_pos_left _ (Nat.succ_pos _)).trans hs.first_le)
    cases hc
  | some c =>
    dsimp only
    rcases matchedPrefix_greatest (c := c) hr hh hcomputed with ⟨s, hs, hm⟩ | ⟨hnone, hm⟩
    · refine .inl ⟨s, hs, ?_⟩
      have habove := hs.1.above
      rw [hm, ok_bind]
      dsimp only
      rw [if_neg, if_neg]
      · rw [SchedulerState.recordHit, hc]
        rfl
      · rw [Option.getD_some, Int.toNat_natCast]
        omega
      · rintro ⟨hnot, hfull⟩
        rcases hbudget with hmem | hlt
        · exact hnot (List.mem_dedup.mpr hmem)
        · omega
    · refine .inr ⟨hnone, ?_⟩
      rw [hm]
      rfl

/-- One full group with pages of 256 tokens. -/
def lookupSample : ConnectorConfig := ⟨.ofNat 7, fullSampleLayout, []⟩

/-- A prompt of 257 tokens, and the request for it. -/
def lookupSamplePrefix : PrefixRequest := ⟨.ofNat 7, "", List.replicate 257 0, []⟩

/-- The request for that prompt. -/
def lookupSampleRequest : Request :=
  ⟨"r", .absent, false, false, some (List.replicate 257 0), false, false, .absent false⟩

/-- The catalog of one rank that holds the first chunk of the prompt. -/
def lookupSampleCatalog : QuorumCatalog :=
  { QuorumCatalog.fresh ⟨1, 1, 1, Nat.one_pos, Nat.le_refl 1, Nat.one_pos⟩ {0} with
    rankEntries := fun _ ↦ OrderedDict.empty.set (lookupSamplePrefix.key 256 1) ⟨256, by decide⟩
    entryRanks := OrderedDict.empty.set (lookupSamplePrefix.key 256 1) {0} }

/-- The tables at startup, with this catalog. -/
def lookupSampleState : SchedulerState :=
  { SchedulerState.initial with catalog := some lookupSampleCatalog }

/-- The sample has chunks of 256 tokens. -/
theorem chunkTokens_lookupSample : lookupSample.layout.chunkTokens = 256 := by decide +kernel

/-- One chunk of the sample prompt can be restored. -/
theorem goodSpan_lookupSample :
    GoodSpan lookupSample (some lookupSampleCatalog) lookupSamplePrefix 0 256 := by
  have hquorum : hasQuorumAt (some lookupSampleCatalog) (lookupSamplePrefix.key 256 1) 256 := by
    refine ⟨_, rfl, ?_⟩
    unfold QuorumCatalog.hasQuorum lookupSampleCatalog
    simp [QuorumCatalog.fresh, OrderedDict.get?_set]
  refine ⟨by decide +kernel, by decide +kernel, by decide, by decide +kernel, ?_, ?_⟩
  · intro i hi hle
    rw [chunkTokens_lookupSample] at hle ⊢
    obtain rfl : i = 1 := by omega
    exact hquorum
  · rintro ⟨g, hg, hfull⟩
    rw [List.mem_singleton.mp hg] at hfull
    exact absurd rfl hfull

/-- No longer span of the sample prompt can be restored. -/
theorem greatest_lookupSample {s : Nat}
    (h : IsGreatest (GoodSpan lookupSample (some lookupSampleCatalog) lookupSamplePrefix 0) s) :
    s = 256 := by
  have hle := h.1.below
  have hge := h.2 goodSpan_lookupSample
  have hlen : lookupSamplePrefix.tokens.length = 257 := List.length_replicate
  omega

/-- The lookup restores the first chunk. -/
theorem lookup_sample_hits :
    getNumNewMatchedTokens lookupSample lookupSampleState lookupSampleRequest (some (0 : Nat)) =
      .ok (lookupSampleState.recordHit "r" (lookupSamplePrefix.key 256 1) 256 256, 256) := by
  rcases lookup_largest_good_span lookupSample lookupSampleState lookupSampleRequest
    lookupSamplePrefix 0 rfl rfl (by decide +kernel) (Nat.zero_le _) (.inr (by decide)) with
    ⟨s, hs, h⟩ | ⟨hnone, -⟩
  · obtain rfl := greatest_lookupSample hs
    rw [h, chunkTokens_lookupSample]
    rfl
  · exact absurd goodSpan_lookupSample (hnone 256)

end

end SpoolCache.Connector

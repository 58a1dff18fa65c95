import SpoolCache.Prefix.Universe
import SpoolCache.Store.CommitSteps

/-!
# Chains of files that commits published

When every file of a root was published by a commit for one of some requests, and SHA-256 has no
collision among what is hashed for these requests, the parents on disk of a live key of a request
are the request's own earlier keys. If they are all live, and the state file is where the layout
needs one, the chain of the key is a hit with exactly its files.
-/

namespace SpoolCache.Store

open SpoolCache.Base SpoolCache.Layout SpoolCache.Prefix SpoolCache.Quorum
open PrefixRequest (Keyed KeyAt)

/-! ### Files of a request -/

/-- The parent of the data file of chunk `i`. -/
def parentKey (r : PrefixRequest) (chunk i : Nat) : Option Digest :=
  if i = 0 then none else some (r.key chunk i)

/-- The data file of chunk `i`. -/
def dataJob (r : PrefixRequest) (chunk i : Nat) : CommitJob :=
  ⟨r.key chunk (i + 1), .data, parentKey r chunk i, (i + 1) * chunk⟩

/-- A commit of the keys of a request writes its data files. -/
theorem dataJobs_keys (r : PrefixRequest) (chunk n : Nat) :
    dataJobs (r.keys chunk n) = (List.range n).map (dataJob r chunk) := by
  apply List.ext_getElem?
  intro i
  unfold dataJobs
  rw [List.getElem?_zipWith, List.getElem?_map]
  by_cases hi : i < n
  · have hk : (r.keys chunk n)[i]? = some ⟨(i + 1) * chunk, r.key chunk (i + 1)⟩ := by
      rw [PrefixRequest.keys, List.getElem?_map, List.getElem?_range hi]
      rfl
    rw [hk, List.getElem?_range hi]
    cases i with
    | zero => rfl
    | succ i =>
      have hp : (r.keys chunk n)[i]? = some ⟨(i + 1) * chunk, r.key chunk (i + 1)⟩ := by
        rw [PrefixRequest.keys, List.getElem?_map, List.getElem?_range (by omega)]
        rfl
      rw [List.getElem?_cons_succ, List.getElem?_map, hp]
      rfl
  · have hk : (r.keys chunk n)[i]? = none := by
      rw [List.getElem?_eq_none_iff, PrefixRequest.keys, List.length_map, List.length_range]
      omega
    have hr : (List.range n)[i]? = none := by
      rw [List.getElem?_eq_none_iff, List.length_range]
      omega
    rw [hk, hr]
    cases ((none : Option Digest) :: (r.keys chunk n).map fun p ↦ some p.digest)[i]? <;> rfl

section

variable {config : StoreConfig} {requests : List PrefixRequest}

/-- The file of a key is one that a commit for a request writes. -/
def Origin (chunk : Nat) (requests : List PrefixRequest) (job : CommitJob) : Prop :=
  ∃ r ∈ requests, ∃ n, Keyed r chunk n ∧ ∃ i < n,
    job = dataJob r chunk i ∨ job = stateJob ⟨(i + 1) * chunk, r.key chunk (i + 1)⟩

/-- A file that a commit published and nothing damaged. -/
def Published (config : StoreConfig) (requests : List PrefixRequest) (key : Digest)
    (file : TokenFile) : Prop :=
  file.authentic = true ∧ ∃ header segments, file.header = some header ∧
    headerPayload config key header = .ok segments ∧
    Origin config.layout.chunkTokens requests ⟨key, header⟩

/-- A job of a request publishes a file of that request. -/
theorem allowed_of_origin {job : CommitJob}
    (h : Origin config.layout.chunkTokens requests job) :
    Allowed (Published config requests) config job :=
  fun _ segments hp hh ha ↦ ⟨ha, job.header, segments, hh, hp, h⟩

/-- A touched file is still the published one. -/
theorem published_touched (key : Digest) (file : TokenFile) (time : Nat)
    (h : Published config requests key file) :
    Published config requests key { file with modified := time } := h

/-! ### Live files of a request -/

/-- The slices of a file. -/
def fileSlices (l : HMALayout) (span : Nat) (kind : FileKind) : List PageSlice :=
  l.groups.flatMap fun g ↦ g.slices l.chunkTokens span kind

/-- The descriptor of a file. -/
def describe (l : HMALayout) (job : CommitJob) : TokenFileDescriptor :=
  ⟨job.key, job.header.parent, job.header.spanTokens,
    fileSlices l job.header.spanTokens job.header.kind, job.header.kind⟩

/-- A live published file opens as the file of a commit with its key and span. -/
theorem openChunk_published {s : RankState} (hf : FilesOk (Published config requests) s)
    {key : Digest} {span : Nat} (hl : Live s key span) :
    ∃ job file, job.key = key ∧ job.header.spanTokens = span ∧
      s.files.get? key = some file ∧ file.authentic = true ∧
      Origin config.layout.chunkTokens requests job ∧
      config.layout.segments span job.header.kind =
        .ok (fileSlices config.layout span job.header.kind) ∧ span ≤ maxCounter ∧
      openChunk config s key false = .ok (describe config.layout job) := by
  obtain ⟨⟨file, header, hget, hh, hs⟩, hm⟩ := hl
  obtain ⟨ha, header', segments, hh', hp, ho⟩ := hf key file hget
  obtain rfl : header = header' := Option.some.inj (hh.symm.trans hh')
  have hseg := segments_of_headerPayload hp
  have heq := HMALayout.segments_eq hseg
  refine ⟨⟨key, header⟩, file, rfl, hs, hget, ha, ho, ?_, ?_, ?_⟩
  · rw [← hs, hseg, heq]
    rfl
  · rw [← hs]
    exact (span_of_headerPayload hp).2
  · unfold openChunk
    rw [if_neg (fun h ↦ hm h.2)]
    simp only [hget, hh, hp]
    rw [heq]
    rfl

/-- On disk the parent of a live key of a request is the request's own key before it. -/
theorem openChunk_data (hinj : NoCollisions (universeInputs config.layout.chunkTokens requests))
    {s : RankState} (hf : FilesOk (Published config requests) s) {r : PrefixRequest}
    (hr : r ∈ requests) {i : Nat} (hk : KeyAt r config.layout.chunkTokens i)
    (hl : Live s (r.key config.layout.chunkTokens (i + 1)) ((i + 1) * config.layout.chunkTokens)) :
    openChunk config s (r.key config.layout.chunkTokens (i + 1)) false =
      .ok (describe config.layout (dataJob r config.layout.chunkTokens i)) := by
  obtain ⟨job, file, hkey, hspan, -, -, ⟨r', hr', n, hn, j, hj, ho⟩, -, hmax, hopen⟩ :=
    openChunk_published hf hl
  have hk' := hn.keyAt hj
  rw [hopen]
  rcases ho with rfl | rfl
  · have hji : j = i := by
      have := Nat.eq_of_mul_eq_mul_right hk.pos hspan
      omega
    subst hji
    -- a second chunk only exists for chunks below `2 ^ 62`, since its span is a counter
    have hparent : parentKey r' config.layout.chunkTokens j =
        parentKey r config.layout.chunkTokens j := by
      unfold parentKey
      split
      · rfl
      · next hne =>
        have hlt : config.layout.chunkTokens < 2 ^ 62 := by
          have htwo : 2 * config.layout.chunkTokens ≤ (j + 1) * config.layout.chunkTokens :=
            Nat.mul_le_mul_right _ (by omega)
          have hmc : maxCounter = 2 ^ 63 - 1 := rfl
          omega
        rw [earlier_keys_eq hinj hlt hr' hr hk' hk hkey (Nat.le_succ j)]
    have hjob : dataJob r' config.layout.chunkTokens j =
        dataJob r config.layout.chunkTokens j := by
      unfold dataJob
      rw [hparent]
      exact congrArg (fun key ↦ (⟨key, _⟩ : CommitJob)) hkey
    rw [hjob]
  · exact absurd hkey.symm (key_ne_boundaryStateKey hinj hr hr' hk hk')

/-- A live state key of a request opens as the state file of its boundary. -/
theorem openChunk_state (hinj : NoCollisions (universeInputs config.layout.chunkTokens requests))
    {s : RankState} (hf : FilesOk (Published config requests) s) {r : PrefixRequest}
    (hr : r ∈ requests) {i : Nat} (hk : KeyAt r config.layout.chunkTokens i)
    (hl : Live s (boundaryStateKey (r.key config.layout.chunkTokens (i + 1)))
      ((i + 1) * config.layout.chunkTokens)) :
    openChunk config s (boundaryStateKey (r.key config.layout.chunkTokens (i + 1))) false =
        .ok (describe config.layout
          (stateJob ⟨(i + 1) * config.layout.chunkTokens,
            r.key config.layout.chunkTokens (i + 1)⟩)) ∧
      ∃ segments, config.layout.segments ((i + 1) * config.layout.chunkTokens) .state =
        .ok segments := by
  obtain ⟨job, file, hkey, hspan, -, -, ⟨r', hr', n, hn, j, hj, ho⟩, hseg, -, hopen⟩ :=
    openChunk_published hf hl
  have hk' := hn.keyAt hj
  rcases ho with rfl | rfl
  · exact absurd hkey (key_ne_boundaryStateKey hinj hr' hr hk' hk)
  · have hsame := boundaryStateKey_inj hinj hr' hr hk' hk hkey
    refine ⟨?_, _, hseg⟩
    rw [hopen]
    unfold stateJob
    rw [hsame, ← hspan]
    rfl

/-! ### The chain of a key -/

/-- The files of the first `n` chunks of a request, with the state file of the last boundary
where the layout has one. -/
def prefixJobs (l : HMALayout) (r : PrefixRequest) (n : Nat) : List CommitJob :=
  dataJobs (r.keys l.chunkTokens n) ++
    if l.hasBoundaryState then [stateJob ⟨n * l.chunkTokens, r.key l.chunkTokens n⟩] else []

/-- The snapshot of the first `n` chunks of a request. -/
def prefixSnapshot (l : HMALayout) (r : PrefixRequest) (n : Nat) : TokenSnapshot :=
  ⟨r.key l.chunkTokens n, n * l.chunkTokens, (prefixJobs l r n).map (describe l)⟩

/-- Every file of the first `n` chunks of a request is live. -/
structure PrefixLive (l : HMALayout) (s : RankState) (r : PrefixRequest) (n : Nat) : Prop where
  data : ∀ i < n, Live s (r.key l.chunkTokens (i + 1)) ((i + 1) * l.chunkTokens)
  state : l.hasBoundaryState = true →
    Live s (boundaryStateKey (r.key l.chunkTokens n)) (n * l.chunkTokens)

private theorem openNode_ok {hooked : Bool} {s : RankState} {key : Digest}
    {desc : TokenFileDescriptor}
    (h : openChunk config s key false = .ok desc) (hk : desc.kind = .data) :
    openNode config hooked s key = (s, .ok desc) := by
  unfold openNode
  simp only [h, hk, ne_eq, not_true_eq_false, if_false]

section

variable (hinj : NoCollisions (universeInputs config.layout.chunkTokens requests))
  {s : RankState} (hf : FilesOk (Published config requests) s) {r : PrefixRequest}
  (hr : r ∈ requests) {n : Nat}
  (hk : ∀ i < n, KeyAt r config.layout.chunkTokens i)

include hinj hf hr hk

private theorem openNode_data {hooked : Bool}
    (hl : ∀ i < n, Live s (r.key config.layout.chunkTokens (i + 1))
      ((i + 1) * config.layout.chunkTokens)) {i : Nat} (hi : i < n) :
    openNode config hooked s (r.key config.layout.chunkTokens (i + 1)) =
      (s, .ok (describe config.layout (dataJob r config.layout.chunkTokens i))) :=
  openNode_ok (openChunk_data hinj hf hr (hk i hi) (hl i hi)) rfl

/-- The walk from a key visits the request's own keys down to the first chunk. -/
theorem chainBelow_keys {hooked : Bool}
    (hl : ∀ i < n, Live s (r.key config.layout.chunkTokens (i + 1))
      ((i + 1) * config.layout.chunkTokens)) {m : Nat} (hm : m < n) :
    chainBelow config hooked (m + 1) s (r.key config.layout.chunkTokens (m + 1)) =
      (s, .ok (((List.range (m + 1)).map fun i ↦
        describe config.layout (dataJob r config.layout.chunkTokens i)).reverse)) := by
  induction m with
  | zero =>
    unfold chainBelow
    rw [openNode_data hinj hf hr hk hl hm]
    dsimp only
    rw [if_neg (by simp [describe, dataJob])]
    rfl
  | succ m ih =>
    unfold chainBelow
    rw [openNode_data hinj hf hr hk hl hm]
    dsimp only
    rw [if_neg (by simp [describe, dataJob])]
    have hp : (describe config.layout
        (dataJob r config.layout.chunkTokens (m + 1))).parent =
        some (r.key config.layout.chunkTokens (m + 1)) := rfl
    rw [hp]
    dsimp only
    rw [ih (by omega)]
    dsimp only
    rw [List.range_succ (n := m + 1), List.map_append, List.reverse_append]
    rfl

private theorem dataChain_keys {hooked : Bool}
    (hl : ∀ i < n, Live s (r.key config.layout.chunkTokens (i + 1))
      ((i + 1) * config.layout.chunkTokens)) {m : Nat} (hm : m < n) :
    dataChain config hooked s (r.key config.layout.chunkTokens (m + 1)) =
      (s, .ok (((List.range (m + 1)).map fun i ↦
        describe config.layout (dataJob r config.layout.chunkTokens i)).reverse)) := by
  unfold dataChain
  rw [openNode_data hinj hf hr hk hl hm]
  dsimp only
  cases m with
  | zero => rfl
  | succ m =>
    have hp : (describe config.layout
        (dataJob r config.layout.chunkTokens (m + 1))).parent =
        some (r.key config.layout.chunkTokens (m + 1)) := rfl
    have hs : (describe config.layout (dataJob r config.layout.chunkTokens (m + 1))).spanTokens /
        config.layout.chunkTokens - 1 = m + 1 := by
      change (m + 1 + 1) * config.layout.chunkTokens / config.layout.chunkTokens - 1 = m + 1
      rw [Nat.mul_div_cancel _ config.layout.chunkTokens_pos]
      rfl
    rw [hp, hs]
    dsimp only
    rw [chainBelow_keys hinj hf hr hk hl (by omega)]
    dsimp only
    rw [List.range_succ (n := m + 1), List.map_append, List.reverse_append]
    rfl

/-- The files of a key whose files are all live pass the coverage check. -/
theorem coveredSnapshot_of_prefixLive {m : Nat} (hn : n = m + 1)
    (hl : PrefixLive config.layout s r n) :
    coveredSnapshot config (r.key config.layout.chunkTokens n) (n * config.layout.chunkTokens)
      ((prefixJobs config.layout r n).map (describe config.layout)) =
        .ok (prefixSnapshot config.layout r n) := by
  subst hn
  have hslices : ((prefixJobs config.layout r (m + 1)).map (describe config.layout)).flatMap
      TokenFileDescriptor.segments = config.layout.chainSlices (m + 1) := by
    unfold prefixJobs HMALayout.chainSlices
    rw [dataJobs_keys, List.map_append, List.flatMap_append, List.map_map, List.flatMap_map]
    congr 1
    split
    · simp [describe, stateJob, fileSlices]
    · rfl
  have hstate : config.layout.hasBoundaryState = true →
      ∃ segments, config.layout.segments ((m + 1) * config.layout.chunkTokens) .state =
        .ok segments := fun hb ↦
    (openChunk_state hinj hf hr (hk m (Nat.lt_succ_self m)) (hl.state hb)).2
  obtain ⟨counts, hcounts⟩ := HMALayout.selectedPageCounts_ok (Nat.succ_pos m) hstate
  unfold coveredSnapshot
  rw [hslices, HMALayout.validateManifestCoverage_chain (Nat.succ_pos m) hcounts]
  rfl

/-- Every file of a key whose files are all live opens as its own. -/
theorem openChunk_of_prefixLive {m : Nat} (hn : n = m + 1) (hl : PrefixLive config.layout s r n)
    {job : CommitJob} (hj : job ∈ prefixJobs config.layout r n) :
    openChunk config s job.key false = .ok (describe config.layout job) := by
  subst hn
  rcases List.mem_append.mp hj with hd | hs
  · rw [dataJobs_keys] at hd
    obtain ⟨i, hi, rfl⟩ := List.mem_map.mp hd
    have hlt := List.mem_range.mp hi
    exact openChunk_data hinj hf hr (hk i hlt) (hl.data i hlt)
  · split at hs
    · next hb =>
      rw [List.mem_singleton.mp hs]
      exact (openChunk_state hinj hf hr (hk m (Nat.lt_succ_self m)) (hl.state hb)).1
    · cases hs

/-- The chain of a key whose files are all live is exactly these files. -/
theorem chain_of_prefixLive {hooked : Bool} {m : Nat} (hn : n = m + 1)
    (hl : PrefixLive config.layout s r n) :
    chain config hooked s (r.key config.layout.chunkTokens n) =
      (s, .ok (prefixSnapshot config.layout r n)) := by
  have hcovered := coveredSnapshot_of_prefixLive hinj hf hr hk hn hl
  subst hn
  have hdata : (dataJobs (r.keys config.layout.chunkTokens (m + 1))).map (describe config.layout) =
      (List.range (m + 1)).map fun i ↦
        describe config.layout (dataJob r config.layout.chunkTokens i) := by
    rw [dataJobs_keys, List.map_map]
    rfl
  unfold chain
  rw [dataChain_keys hinj hf hr hk hl.data (Nat.lt_succ_self m), ← hdata]
  have hlast : ((dataJobs (r.keys config.layout.chunkTokens (m + 1))).map
      (describe config.layout)).reverse.getLast? =
        some (describe config.layout (dataJob r config.layout.chunkTokens 0)) := by
    rw [List.getLast?_reverse, hdata, List.range_succ_eq_map]
    rfl
  have hhead : ((dataJobs (r.keys config.layout.chunkTokens (m + 1))).map
      (describe config.layout)).reverse.head? =
        some (describe config.layout (dataJob r config.layout.chunkTokens m)) := by
    rw [List.head?_reverse, hdata, List.range_succ, List.map_append, List.map_singleton,
      List.getLast?_concat]
  dsimp only
  rw [hlast, hhead]
  dsimp only
  rw [if_neg (by simp [describe, dataJob]), List.reverse_reverse]
  split
  · next hb =>
    have hopen := (openChunk_state hinj hf hr (hk m (Nat.lt_succ_self m)) (hl.state hb)).1
    have hfile : stateFile config hooked s (r.key config.layout.chunkTokens (m + 1))
        (describe config.layout (dataJob r config.layout.chunkTokens m)).spanTokens =
          (s, .ok (describe config.layout (stateJob ⟨(m + 1) * config.layout.chunkTokens,
            r.key config.layout.chunkTokens (m + 1)⟩))) := by
      unfold stateFile
      simp only [hopen]
      rw [if_neg (by simp [describe, stateJob, dataJob])]
    rw [hfile]
    dsimp only
    rw [← hcovered]
    unfold prefixJobs
    rw [if_pos hb, List.map_append]
    rfl
  · next hb =>
    rw [← hcovered]
    unfold prefixJobs
    rw [if_neg hb, List.append_nil]
    rfl

/-- Entering a restore view of such a key is a hit that pins exactly these files. -/
theorem restoreView_of_prefixLive {hooked : Bool} {m : Nat} (hn : n = m + 1)
    (hl : PrefixLive config.layout s r n) :
    restoreView config hooked s (r.key config.layout.chunkTokens n) =
      ({ s with pins := s.pins ++ [(prefixJobs config.layout r n).map CommitJob.key] },
        .ok (some (prefixSnapshot config.layout r n))) := by
  unfold restoreView lookup
  rw [chain_of_prefixLive hinj hf hr hk hn hl]
  dsimp only
  have hkeys : (prefixSnapshot config.layout r n).objects.map TokenFileDescriptor.key =
      (prefixJobs config.layout r n).map CommitJob.key := by
    unfold prefixSnapshot
    rw [List.map_map]
    rfl
  rw [hkeys]

end

end

end SpoolCache.Store

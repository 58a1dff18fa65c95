import Mathlib.Algebra.BigOperators.Group.List.Basic
import SpoolCache.Base.TrueDivision
import SpoolCache.Prefix.Span

/-!
# Page geometry

`hma.py:33–325`. A layout is the ordered list of the manager groups of vLLM's KV cache; each
group keeps pages of one logical width under one reuse policy. The checks of the dataclass
constructors are fields, so a layout that violates them cannot be built. The identities hashed
over a layout are taken as given where they are compared.
-/

namespace SpoolCache.Layout

open SpoolCache.Base

/-- `LayerGeometry`, `hma.py:33–43`. -/
structure LayerGeometry where
  name : String
  pageSizeBytes : Nat
  name_ne : name ≠ ""
  name_le : name.length ≤ 512
  pageSizeBytes_pos : 0 < pageSizeBytes

/-- Reuse policies with the data that only they may declare, `hma.py:86–105`. -/
inductive ReusePolicy where
  | full
  | sliding (window : Nat)
  | recurrentAlign (tailPages : Nat)
  | circularOne
  deriving DecidableEq

/-- `GroupGeometry`, `hma.py:46–109`. -/
structure GroupGeometry where
  groupIndex : Nat
  blockSize : Nat
  dcpShardCount : Nat
  logicalTokensPerPage : Nat
  reusePolicy : ReusePolicy
  layers : List LayerGeometry
  blockSize_pos : 0 < blockSize
  dcpShardCount_pos : 0 < dcpShardCount
  logical_eq : logicalTokensPerPage = blockSize * dcpShardCount
  window_gt : ∀ window, reusePolicy = .sliding window → 1 < window
  layers_sorted : (layers.map LayerGeometry.name).Pairwise (· < ·)

namespace GroupGeometry

/-- A page holds a token. -/
theorem logicalTokensPerPage_pos (g : GroupGeometry) : 0 < g.logicalTokensPerPage := by
  rw [g.logical_eq]
  exact Nat.mul_pos g.blockSize_pos g.dcpShardCount_pos

/-- Pages that cover a window behind a boundary, `hma.py:128–131`. -/
def windowPages (g : GroupGeometry) (window : Nat) : Except PyError Nat :=
  match ceilTrueDiv (window - 1) g.logicalTokensPerPage with
  | some pages => .ok pages
  | none => .error (.overflowError "integer division result too large for a float")

/-- `selected_page_count`, `hma.py:112–135`. -/
def selectedPageCount (g : GroupGeometry) (spanTokens : Nat) : Except PyError Nat :=
  if spanTokens = 0 then .error (.layoutError "HMA span must be positive")
  else if g.reusePolicy = .circularOne then .ok 1
  else if spanTokens % g.logicalTokensPerPage ≠ 0 then
    .error (.layoutError "HMA span is not aligned to every manager group")
  else
    let required := spanTokens / g.logicalTokensPerPage
    match g.reusePolicy with
    | .full => .ok required
    | .sliding window => do
      let windowPages ← g.windowPages window
      pure (min required windowPages)
    | .recurrentAlign _ => .ok 1
    | .circularOne => .ok 1

/-- The pages a policy names in a block table, `hma.py:144–166`. -/
def namedPages (g : GroupGeometry) (blockTable : List Nat) (selected boundaryPages : Nat) :
    Except PyError (List Nat) :=
  match g.reusePolicy with
  | .circularOne =>
    if blockTable.length ≠ 1 then
      .error (.layoutError "circular HMA group must expose exactly one page")
    else .ok blockTable
  | .recurrentAlign tailPages =>
    -- `active_index < boundary_pages`, where the index may be negative
    if blockTable.length < boundaryPages + 1 + tailPages then
      .error (.layoutError "recurrent HMA block table lacks the active running-state page")
    else .ok (blockTable[blockTable.length - 1 - tailPages]?).toList
  | _ =>
    if blockTable.length < boundaryPages then
      .error (.layoutError "request block table is shorter than the cache span")
    else .ok ((blockTable.take boundaryPages).drop (boundaryPages - selected))

/-- `select_physical_pages` of one group, `hma.py:137–174`, on normalised block identifiers. -/
def selectPhysicalPages (g : GroupGeometry) (blockTable : List Nat) (spanTokens : Nat) :
    Except PyError (List Nat) := do
  let selected ← g.selectedPageCount spanTokens
  let pages ← g.namedPages blockTable selected (spanTokens / g.logicalTokensPerPage)
  if 0 ∈ pages then
    throw (.layoutError "selected HMA page contains vLLM's null/invalid block")
  else if ¬ pages.Nodup then
    throw (.layoutError "selected HMA page range contains duplicates")
  else pure pages

end GroupGeometry

/-- `HMALayout`, `hma.py:177–199`. -/
structure HMALayout where
  groups : List GroupGeometry
  groupIndex_eq : groups.map GroupGeometry.groupIndex = List.range groups.length
  layers_ne : groups.flatMap GroupGeometry.layers ≠ []
  layers_nodup : ((groups.flatMap GroupGeometry.layers).map LayerGeometry.name).Nodup

namespace HMALayout

/-- Page widths that constrain a boundary. -/
def alignmentWidths (l : HMALayout) : List Nat :=
  (l.groups.filter fun g ↦ decide (g.reusePolicy ≠ .circularOne)).map
    GroupGeometry.logicalTokensPerPage

/-- `alignment_tokens`, `hma.py:295–302`. -/
def alignmentTokens (l : HMALayout) : Nat := l.alignmentWidths.foldr Nat.lcm 1

/-- `_chunk_tokens`, `connector.py:257–258`. -/
def chunkTokens (l : HMALayout) : Nat := alignedChunkTokens l.alignmentTokens

/-- `has_boundary_state`, `token_files.py:47–48`. -/
def hasBoundaryState (l : HMALayout) : Bool := l.groups.any fun g ↦ decide (g.reusePolicy ≠ .full)

/-- `_store_requires_exact_boundary`, `connector.py:1082–1095`. -/
def storeRequiresExactBoundary (l : HMALayout) : Bool :=
  l.groups.any fun g ↦
    match g.reusePolicy with
    | .recurrentAlign _ => true
    | .circularOne => true
    | _ => false

/-- `selected_page_counts`, `hma.py:304–305`. -/
def selectedPageCounts (l : HMALayout) (spanTokens : Nat) : Except PyError (List Nat) :=
  l.groups.mapM fun g ↦ g.selectedPageCount spanTokens

/-- `select_physical_pages`, `hma.py:307–318`. -/
def selectPhysicalPages (l : HMALayout) (blockTables : List (List Nat)) (spanTokens : Nat) :
    Except PyError (List (List Nat)) :=
  if blockTables.length ≠ l.groups.length then
    .error (.layoutError "request block tables disagree with HMA groups")
  else (l.groups.zip blockTables).mapM fun p ↦ p.1.selectPhysicalPages p.2 spanTokens

/-- `_safe_restore_span`, `connector.py:1538–1544`. -/
def safeRestoreSpan (l : HMALayout) (promptTokens : Nat) : Nat :=
  Prefix.alignedPrefixSpan promptTokens l.alignmentTokens l.chunkTokens l.chunkTokens none

/-- `_safe_store_span`, `connector.py:1546–1558`. -/
def safeStoreSpan (l : HMALayout) (promptTokens : Nat) : Nat :=
  Prefix.alignedPrefixSpan (promptTokens + 1) l.alignmentTokens l.chunkTokens l.chunkTokens none

private theorem foldr_lcm_pos {ws : List Nat} (h : ∀ w ∈ ws, 0 < w) : 0 < ws.foldr Nat.lcm 1 := by
  induction ws with
  | nil => exact Nat.one_pos
  | cons w ws ih =>
    exact Nat.lcm_pos (h w List.mem_cons_self) (ih fun v hv ↦ h v (List.mem_cons_of_mem _ hv))

private theorem dvd_foldr_lcm {ws : List Nat} {w : Nat} (h : w ∈ ws) : w ∣ ws.foldr Nat.lcm 1 := by
  induction ws with
  | nil => cases h
  | cons v ws ih =>
    rcases List.mem_cons.mp h with rfl | h
    · exact Nat.dvd_lcm_left _ _
    · exact (ih h).trans (Nat.dvd_lcm_right _ _)

private theorem alignmentTokens_pos (l : HMALayout) : 0 < l.alignmentTokens := by
  apply foldr_lcm_pos
  intro w hw
  obtain ⟨g, -, rfl⟩ := List.mem_map.mp hw
  exact g.logicalTokensPerPage_pos

/-- The alignment is made of whole pages of every group that is not circular. -/
theorem page_dvd_alignmentTokens {l : HMALayout} {g : GroupGeometry} (hg : g ∈ l.groups)
    (hp : g.reusePolicy ≠ .circularOne) : g.logicalTokensPerPage ∣ l.alignmentTokens := by
  apply dvd_foldr_lcm
  exact List.mem_map.mpr ⟨g, List.mem_filter.mpr ⟨hg, decide_eq_true hp⟩, rfl⟩

/-- A chunk is aligned. -/
theorem alignmentTokens_dvd_chunkTokens (l : HMALayout) : l.alignmentTokens ∣ l.chunkTokens :=
  Nat.dvd_mul_left _ _

/-- A chunk holds a token. -/
theorem chunkTokens_pos (l : HMALayout) : 0 < l.chunkTokens := by
  have hal := l.alignmentTokens_pos
  unfold chunkTokens alignedChunkTokens
  apply Nat.mul_pos _ hal
  rw [Nat.div_pos_iff]
  omega

end HMALayout

private theorem layer_ne_empty : "layer" ≠ "" := by decide

private theorem length_layer_le : "layer".length ≤ 512 := by decide

/-- A layer with pages of 64 bytes. -/
def sampleLayer : LayerGeometry := ⟨"layer", 64, layer_ne_empty, length_layer_le, Nat.succ_pos _⟩

/-- The sample layer is in order. -/
theorem sampleLayer_sorted : ([sampleLayer].map LayerGeometry.name).Pairwise (· < ·) :=
  List.pairwise_singleton _ _

/-- The sample group has a layer. -/
theorem sampleLayer_ne_nil : [sampleLayer] ≠ [] := List.cons_ne_nil _ _

/-- The name of the sample layer is its own. -/
theorem sampleLayer_nodup : ([sampleLayer].map LayerGeometry.name).Nodup := List.nodup_singleton _

/-- A full group of pages of 256 tokens. -/
def fullSampleGroup : GroupGeometry where
  groupIndex := 0
  blockSize := 256
  dcpShardCount := 1
  logicalTokensPerPage := 256
  reusePolicy := .full
  layers := [sampleLayer]
  blockSize_pos := Nat.succ_pos _
  dcpShardCount_pos := Nat.one_pos
  logical_eq := rfl
  window_gt := fun w h ↦ (by cases h)
  layers_sorted := sampleLayer_sorted

/-- A layout with this group only. -/
def fullSampleLayout : HMALayout :=
  ⟨[fullSampleGroup], rfl, sampleLayer_ne_nil, sampleLayer_nodup⟩

end SpoolCache.Layout

import Mathlib.Algebra.Order.BigOperators.Group.List
import SpoolCache.Layout.StoreSpan
import SpoolCache.Store.CommitSteps
import SpoolCache.Store.FileReader
import SpoolCache.Store.HeaderWidth
import SpoolCache.Store.Recency

/-!
# No size fails after a capture

`token_mover.py:19–51`, `token_files.py:175–237` and `hma.py:112–135`. A layout is checked at one
boundary, the largest window rounded up to whole chunks, and a commit at its last span. No state
file is larger than the one at that boundary, since every window has saturated there, and no data
header is longer than that of the last span. So neither the number of transfer blocks nor the
length of a header can stop a commit that passed these checks.
-/

namespace SpoolCache.Layout

open SpoolCache.Base

/-! ### Windows -/

/-- Windows below `2 ^ 53` whose pages the division of doubles counts exactly. -/
def HMALayout.ExactWindows (l : HMALayout) : Prop :=
  ∀ g ∈ l.groups, ∀ window, g.reusePolicy = .sliding window → window < 2 ^ 53 ∧
    g.windowPages window =
      .ok ((window - 1 + g.logicalTokensPerPage - 1) / g.logicalTokensPerPage)

/-- A double counts them exactly unless a page is so wide that the quotient underflows. -/
theorem HMALayout.exactWindows_of_lt {l : HMALayout}
    (h : ∀ g ∈ l.groups, ∀ window, g.reusePolicy = .sliding window →
      window < 2 ^ 53 ∧ g.logicalTokensPerPage.log2 ≤ 1074) : l.ExactWindows := by
  intro g hg window hw
  obtain ⟨hlt, hpage⟩ := h g hg window hw
  have hceil := ceilTrueDiv_eq (Nat.lt_of_le_of_lt (Nat.sub_le window 1) hlt)
    g.logicalTokensPerPage_pos hpage
  refine ⟨hlt, ?_⟩
  unfold GroupGeometry.windowPages
  rw [hceil]

end SpoolCache.Layout

namespace SpoolCache.Store

open SpoolCache.Base SpoolCache.Layout SpoolCache.Prefix SpoolCache.Quorum

variable {l : HMALayout} {g : GroupGeometry}

private theorem boundaryWindow_pos (g : GroupGeometry) : 0 < boundaryWindow g := by
  unfold boundaryWindow
  split
  · next window hw =>
    have := g.window_gt window hw
    omega
  · exact g.logicalTokensPerPage_pos

private theorem page_dvd_span (hg : g ∈ l.groups) (hp : g.reusePolicy ≠ .circularOne) (n : Nat) :
    g.logicalTokensPerPage ∣ n * l.chunkTokens :=
  ((HMALayout.page_dvd_alignmentTokens hg hp).trans l.alignmentTokens_dvd_chunkTokens).trans
    (Nat.dvd_mul_left _ _)

private theorem le_foldr_max {ws : List Nat} {w : Nat} (h : w ∈ ws) : w ≤ ws.foldr max 0 := by
  induction ws with
  | nil => cases h
  | cons v ws ih =>
    rw [List.foldr_cons]
    rcases List.mem_cons.mp h with rfl | h
    · exact Nat.le_max_left _ _
    · exact (ih h).trans (Nat.le_max_right _ _)

/-- The pages of a state file are positive, and at most those at a boundary that covers the
window. -/
theorem selectedPageCount_le (hexact : l.ExactWindows) (hg : g ∈ l.groups)
    (hfull : g.reusePolicy ≠ .full) {m n : Nat} (hm : boundaryWindow g ≤ m * l.chunkTokens)
    (hn : 0 < n) :
    ∃ c d, g.selectedPageCount (n * l.chunkTokens) = .ok c ∧
      g.selectedPageCount (m * l.chunkTokens) = .ok d ∧ 0 < c ∧ c ≤ d := by
  have hpage := g.logicalTokensPerPage_pos
  have hspan : n * l.chunkTokens ≠ 0 := (Nat.mul_pos hn l.chunkTokens_pos).ne'
  have hbound : m * l.chunkTokens ≠ 0 := by
    have := boundaryWindow_pos g
    omega
  unfold GroupGeometry.selectedPageCount
  rw [if_neg hspan, if_neg hbound]
  by_cases hcircular : g.reusePolicy = .circularOne
  · rw [if_pos hcircular, if_pos hcircular]
    exact ⟨1, 1, rfl, rfl, Nat.one_pos, Nat.le_refl _⟩
  · have hdvd := page_dvd_span hg hcircular
    rw [if_neg hcircular, if_neg hcircular, if_neg (not_not.mpr (Nat.mod_eq_zero_of_dvd (hdvd n))),
      if_neg (not_not.mpr (Nat.mod_eq_zero_of_dvd (hdvd m)))]
    cases hpolicy : g.reusePolicy with
    | full => exact absurd hpolicy hfull
    | circularOne => exact absurd hpolicy hcircular
    | recurrentAlign tailPages => exact ⟨1, 1, rfl, rfl, Nat.one_pos, Nat.le_refl _⟩
    | sliding window =>
      obtain ⟨-, hpages⟩ := hexact g hg window hpolicy
      have hwindow : window ≤ m * l.chunkTokens := by
        unfold boundaryWindow at hm
        rw [hpolicy] at hm
        exact hm
      have hgt := g.window_gt window hpolicy
      dsimp only
      rw [hpages, ok_bind, ok_bind]
      refine ⟨_, _, rfl, rfl, ?_, ?_⟩
      · have hsmall : 0 < n * l.chunkTokens / g.logicalTokensPerPage :=
          Nat.div_pos (Nat.le_of_dvd (by omega) (hdvd n)) hpage
        have hceil : 0 < (window - 1 + g.logicalTokensPerPage - 1) / g.logicalTokensPerPage :=
          Nat.div_pos (by omega) hpage
        omega
      · -- the window has saturated at the boundary
        have hsaturated : (window - 1 + g.logicalTokensPerPage - 1) / g.logicalTokensPerPage ≤
            m * l.chunkTokens / g.logicalTokensPerPage := by
          rw [← Nat.lt_add_one_iff, Nat.div_lt_iff_lt_mul hpage, Nat.add_mul,
            Nat.div_mul_cancel (hdvd m)]
          omega
        omega

/-! ### Bytes of files -/

/-- Bytes of the slices of a file. -/
def sliceBytes (segments : List PageSlice) : Nat := (segments.map PageSlice.byteLength).sum

/-- The slices of a group that is in a file. -/
theorem segments_of_range {chunk span start count : Nat} {kind : FileKind}
    (hkind : decide (g.reusePolicy = .full) = decide (kind = .data))
    (hrange : g.sliceRange chunk span kind = .ok (start, count)) (hcount : 0 < count) :
    g.segments chunk span kind = .ok (g.layers.map fun layer ↦
      ⟨g.groupIndex, layer.name, start, count, count * layer.pageSizeBytes⟩) := by
  unfold GroupGeometry.segments
  rw [if_neg (not_not.mpr hkind), hrange, ok_bind]
  apply mapM_eq_ok
  intro layer _
  have hbytes := Nat.mul_pos hcount layer.pageSizeBytes_pos
  unfold pageSlice
  rw [if_neg (by omega)]

/-- The state slices of a group have bytes, and no more than the layout check counts. -/
theorem stateSegments_le {config : StoreConfig} (hexact : config.layout.ExactWindows)
    (hg : g ∈ config.layout.groups) {m n : Nat}
    (hm : boundaryWindow g ≤ m * config.layout.chunkTokens) (hn : 0 < n) :
    ∃ slices total,
      g.segments config.layout.chunkTokens (n * config.layout.chunkTokens) .state = .ok slices ∧
      groupStateBytes (m * config.layout.chunkTokens) g = .ok total ∧
      sliceBytes slices ≤ total ∧ (0 < total → 0 < sliceBytes slices) := by
  by_cases hfull : g.reusePolicy = .full
  · refine ⟨[], 0, ?_, ?_, Nat.le_refl _, fun h ↦ h⟩
    · unfold GroupGeometry.segments
      rw [hfull]
      rfl
    · exact if_pos hfull
  · obtain ⟨c, d, hc, hd, hpos, hle⟩ := selectedPageCount_le hexact hg hfull hm hn
    have hkind : decide (g.reusePolicy = .full) = decide (FileKind.state = .data) := by
      rw [decide_eq_false hfull]
      rfl
    have hrange : g.sliceRange config.layout.chunkTokens (n * config.layout.chunkTokens) .state =
        .ok (0, c) := by
      unfold GroupGeometry.sliceRange
      rw [hc]
      rfl
    have hsizes : g.layers.mapM (fun layer ↦ do
        let count ← g.selectedPageCount (m * config.layout.chunkTokens)
        pure (count * layer.pageSizeBytes)) =
        .ok (g.layers.map fun layer ↦ d * layer.pageSizeBytes) := by
      apply mapM_eq_ok
      intro layer _
      rw [hd]
      rfl
    refine ⟨_, (g.layers.map fun layer ↦ d * layer.pageSizeBytes).sum,
      segments_of_range hkind hrange hpos, ?_, ?_, ?_⟩
    · unfold groupStateBytes
      rw [if_neg hfull, hsizes]
      rfl
    · unfold sliceBytes
      rw [List.map_map]
      exact List.sum_le_sum fun layer _ ↦ Nat.mul_le_mul_right _ hle
    · intro htotal
      unfold sliceBytes
      rw [List.map_map]
      cases hlayers : g.layers with
      | nil =>
        rw [hlayers] at htotal
        cases htotal
      | cons layer layers =>
        rw [List.map_cons, List.sum_cons]
        exact Nat.add_pos_left (Nat.mul_pos hpos layer.pageSizeBytes_pos) _

private theorem sliceBytes_flatten (slices : List (List PageSlice)) :
    sliceBytes slices.flatten = (slices.map sliceBytes).sum := by
  induction slices with
  | nil => rfl
  | cons part slices ih =>
    rw [List.map_cons, List.sum_cons, ← ih]
    unfold sliceBytes
    rw [List.flatten_cons, List.map_append, List.sum_append]

private theorem sum_of_forall₂ {slices : List (List PageSlice)} {totals : List Nat}
    (h : List.Forall₂ (fun part total ↦ sliceBytes part ≤ total ∧
      (0 < total → 0 < sliceBytes part)) slices totals) :
    sliceBytes slices.flatten ≤ totals.sum ∧ (0 < totals.sum → 0 < sliceBytes slices.flatten) := by
  rw [sliceBytes_flatten]
  induction h with
  | nil => exact ⟨Nat.le_refl _, fun h ↦ h⟩
  | cons hhead _ ih =>
    rw [List.map_cons, List.sum_cons, List.sum_cons]
    constructor
    · exact Nat.add_le_add hhead.1 ih.1
    · intro hpos
      rcases Nat.add_pos_iff_pos_or_pos.mp hpos with hpart | hrest
      · exact Nat.add_pos_left (hhead.2 hpart) _
      · exact Nat.add_pos_right _ (ih.2 hrest)

/-- The slices of a group in the data file of a chunk. -/
def dataSlices (chunk n : Nat) (g : GroupGeometry) : List PageSlice :=
  if g.reusePolicy = .full then
    g.layers.map fun layer ↦ ⟨g.groupIndex, layer.name,
      (n * chunk - chunk) / g.logicalTokensPerPage, chunk / g.logicalTokensPerPage,
      chunk / g.logicalTokensPerPage * layer.pageSizeBytes⟩
  else []

private theorem segments_data (l : HMALayout) (n : Nat) :
    l.segments (n * l.chunkTokens) .data =
      .ok ((l.groups.map (dataSlices l.chunkTokens n)).flatten) := by
  have hgroups : l.groups.mapM (fun g ↦ g.segments l.chunkTokens (n * l.chunkTokens) .data) =
      .ok (l.groups.map (dataSlices l.chunkTokens n)) := by
    apply mapM_eq_ok
    intro g hg
    unfold dataSlices
    split
    · next hfull =>
      have hdvd := page_dvd_span hg (by rw [hfull]; exact fun h ↦ (by cases h)) 1
      rw [Nat.one_mul] at hdvd
      exact segments_of_range (by rw [hfull]; rfl) rfl
        (Nat.div_pos (Nat.le_of_dvd l.chunkTokens_pos hdvd) g.logicalTokensPerPage_pos)
    · next hfull =>
      unfold GroupGeometry.segments
      rw [if_pos]
      rw [decide_eq_false hfull]
      exact Bool.false_ne_true
  unfold HMALayout.segments
  rw [hgroups]
  rfl

/-- Every data file has the bytes that the layout check counts. -/
theorem sliceBytes_data (config : StoreConfig) (n : Nat) :
    sliceBytes (config.layout.groups.map (dataSlices config.layout.chunkTokens n)).flatten =
      chunkBytes config := by
  rw [sliceBytes_flatten, List.map_map]
  unfold chunkBytes
  congr 1
  apply List.map_congr_left
  intro g _
  dsimp only [Function.comp_apply, dataSlices]
  split
  · unfold sliceBytes
    rw [List.map_map]
    rfl
  · rfl

/-! ### Transfer blocks -/

/-- What the layout check establishes. -/
theorem validateLayout_ok {config : StoreConfig} (h : validateLayout config = .ok ()) :
    0 < chunkBytes config ∧ chunkBytes config ≤ config.slotBytes * maxTransferBlocks ∧
      (config.layout.hasBoundaryState = true → ∃ m sizes,
        (∀ g ∈ config.layout.groups, boundaryWindow g ≤ m * config.layout.chunkTokens) ∧
        config.layout.groups.mapM (groupStateBytes (m * config.layout.chunkTokens)) = .ok sizes ∧
        0 < sizes.sum ∧ sizes.sum ≤ config.slotBytes * maxTransferBlocks) := by
  unfold validateLayout at h
  dsimp only at h
  split at h
  · cases h
  split at h
  · cases h
  next hdata =>
  refine ⟨by omega, by omega, fun hstate ↦ ?_⟩
  rw [if_pos hstate] at h
  obtain ⟨sizes, hsizes, h⟩ := bind_ok h
  split at h
  · cases h
  · next hbounds =>
    refine ⟨_, sizes, fun g hg ↦ ?_, hsizes, by omega, by omega⟩
    have hchunk := config.layout.chunkTokens_pos
    have hwindow := le_foldr_max (List.mem_map_of_mem (f := boundaryWindow) hg)
    have hdiv := Nat.div_add_mod ((config.layout.groups.map boundaryWindow).foldr max 0 +
      config.layout.chunkTokens - 1) config.layout.chunkTokens
    have hmod := Nat.mod_lt ((config.layout.groups.map boundaryWindow).foldr max 0 +
      config.layout.chunkTokens - 1) hchunk
    rw [Nat.mul_comm] at hdiv
    omega

private theorem stateSegments_bounds {config : StoreConfig}
    (hlayout : validateLayout config = .ok ())
    (hexact : config.layout.ExactWindows) (hstate : config.layout.hasBoundaryState = true)
    {n : Nat} (hn : 0 < n) :
    ∃ segments, config.layout.segments (n * config.layout.chunkTokens) .state = .ok segments ∧
      0 < sliceBytes segments ∧ sliceBytes segments ≤ config.slotBytes * maxTransferBlocks := by
  obtain ⟨-, -, hsizes⟩ := validateLayout_ok hlayout
  obtain ⟨m, sizes, hm, hsizes, hpos, hle⟩ := hsizes hstate
  obtain ⟨slices, totals, hslices, htotals, hall⟩ :=
    mapM_forall₂ fun g hg ↦ stateSegments_le hexact hg (hm g hg) hn
  rw [hsizes] at htotals
  cases htotals
  obtain ⟨hsum, hsumpos⟩ := sum_of_forall₂ hall
  refine ⟨slices.flatten, ?_, hsumpos hpos, hsum.trans hle⟩
  unfold HMALayout.segments
  rw [hslices]
  rfl

namespace TokenFileStore

variable {store : TokenFileStore}

private theorem transferBlocks_of_le {length : Nat} (hpos : 0 < length)
    (hle : length ≤ store.slotBytes * maxTransferBlocks) :
    1 ≤ store.transferBlocks length ∧ store.transferBlocks length ≤ maxTransferBlocks := by
  have hslot := store.slotBytes_pos
  unfold transferBlocks
  constructor
  · exact Nat.div_pos (by omega) hslot
  · rw [Nat.div_le_iff_le_mul_add_pred hslot]
    omega

/-- A file of a kind and span has between one transfer block and as many as its header holds. -/
def TransferBounded (store : TokenFileStore) (span : Nat) (kind : FileKind) : Prop :=
  ∃ segments, store.layout.segments span kind = .ok segments ∧
    1 ≤ store.transferBlocks (sliceBytes segments) ∧
    store.transferBlocks (sliceBytes segments) ≤ maxTransferBlocks

private theorem transferBounded_data (hlayout : validateLayout store.config = .ok ()) (n : Nat) :
    store.TransferBounded (n * store.layout.chunkTokens) .data := by
  obtain ⟨hpos, hle, -⟩ := validateLayout_ok hlayout
  have hbytes : sliceBytes (store.layout.groups.map (dataSlices store.layout.chunkTokens n)).flatten =
      chunkBytes store.config := sliceBytes_data store.config n
  refine ⟨_, segments_data store.layout n, ?_⟩
  rw [hbytes]
  exact transferBlocks_of_le hpos hle

private theorem transferBounded_state (hexact : store.layout.ExactWindows)
    (hlayout : validateLayout store.config = .ok ())
    (hstate : store.layout.hasBoundaryState = true) {n : Nat} (hn : 0 < n) :
    store.TransferBounded (n * store.layout.chunkTokens) .state := by
  obtain ⟨segments, hsegments, hpos, hle⟩ := stateSegments_bounds hlayout hexact hstate hn
  exact ⟨segments, hsegments, transferBlocks_of_le hpos hle⟩

/-! ### Headers -/

/-- Checksums as the geometry of a payload requires them, `token_files.py:197–206`. -/
def ChecksumsFit (store : TokenFileStore) (length : Nat) (digest : Digest)
    (blocks : Option (List Digest)) : Prop :=
  let table := blocks.getD (List.replicate (store.transferBlocks length) (.ofNat 0))
  table.length = store.transferBlocks length ∧
    (store.transferBlocks length = 1 → table.head? = some digest)

/-- `_header_payload` and `_encode_header` succeed with all checksums of this geometry. -/
def HeaderSucceeds (store : TokenFileStore) (key : Digest) (header : TokenHeader) : Prop :=
  ∃ segments, store.layout.segments header.spanTokens header.kind = .ok segments ∧
    ∀ digest blocks, store.ChecksumsFit (sliceBytes segments) digest blocks →
      ∃ p encoded, store.headerPayload key header digest blocks = .ok p ∧
        store.encodeHeader p = .ok encoded ∧
        (Json.canonicalJson (store.headerJson p)).length ≤ maxHeaderBytes

/-- The length that the operations on whole files use is the length of every header of that kind
and span. -/
theorem length_canonicalJson_headerPayload {key : Digest} {header : TokenHeader} {digest : Digest}
    {blocks : Option (List Digest)} {p : HeaderPayload}
    (h : store.headerPayload key header digest blocks = .ok p) :
    (Json.canonicalJson (store.headerJson p)).length = store.headerLength header := by
  obtain ⟨hsegments, -, hheader, -, hbytes, hblocks, -⟩ := headerPayload_ok h
  have hempty : (store.emptyPayload header).segments = p.segments := by
    obtain ⟨-, -, -, hslices, -⟩ := storeHeaderPayload_ok.mp hsegments
    unfold emptyPayload
    dsimp only
    rw [hslices]
  unfold headerLength
  refine store.length_canonicalJson_headerJson ?_ hempty.symm ?_ ?_
  · rw [hheader]
    rfl
  · rw [hbytes, ← hempty]
    rfl
  · rw [hblocks, hbytes, ← hempty]
    exact (List.length_replicate ..).symm

private theorem headerLength_pos (store : TokenFileStore) (header : TokenHeader) :
    0 < store.headerLength header := by
  have hbrace : Json.width ['{'] = 1 := by decide
  change 0 < Json.width (store.headerJson (store.emptyPayload header)).dumps
  unfold headerJson Json.dumps
  rw [Json.width_append, Json.width_cons]
  omega

/-- A header that the geometry accepts and whose text fits. -/
structure HeaderAccepted (store : TokenFileStore) (key : Digest) (header : TokenHeader) : Prop where
  geometry : ∃ segments, Store.headerPayload store.config key header = .ok segments
  length : store.headerLength header ≤ maxHeaderBytes

/-- An accepted header is computed without an error. -/
theorem HeaderAccepted.succeeds {key : Digest} {header : TokenHeader}
    (h : store.HeaderAccepted key header) : store.HeaderSucceeds key header := by
  obtain ⟨⟨segments, hheader⟩, hlength⟩ := h
  obtain ⟨-, -, -, hsegments, -⟩ := storeHeaderPayload_ok.mp hheader
  refine ⟨segments, hsegments, fun digest blocks hfit ↦ ?_⟩
  obtain ⟨hcount, hone⟩ := hfit
  obtain ⟨p, hp⟩ : ∃ p, store.headerPayload key header digest blocks = .ok p := by
    unfold headerPayload
    rw [hheader, ok_bind]
    dsimp only
    rw [if_neg]
    · exact ⟨_, rfl⟩
    · rw [not_or, not_not, not_and, not_not]
      exact ⟨hcount, hone⟩
  have hwidth := length_canonicalJson_headerPayload hp
  have hpos := store.headerLength_pos header
  refine ⟨p, frame (Json.canonicalJson (store.headerJson p)), hp, ?_, by omega⟩
  unfold encodeHeader
  dsimp only
  rw [if_neg (by omega)]

/-- Wider slices of the same bytes and a later span make a header longer. -/
theorem headerLength_le {header header' : TokenHeader} {segments segments' : List PageSlice}
    (h : store.layout.segments header.spanTokens header.kind = .ok segments)
    (h' : store.layout.segments header'.spanTokens header'.kind = .ok segments')
    (hkind : header.kind = header'.kind) (hparent : header'.parent = none → header.parent = none)
    (hspan : header.spanTokens ≤ header'.spanTokens)
    (hslices : List.Forall₂ SliceFits segments segments')
    (hbytes : sliceBytes segments = sliceBytes segments') :
    store.headerLength header ≤ store.headerLength header' := by
  apply store.fits_headerJson
  unfold emptyPayload
  dsimp only
  rw [h, h']
  have hlength : (segments.map PageSlice.byteLength).sum = (segments'.map PageSlice.byteLength).sum :=
    hbytes
  refine ⟨hkind, hparent, hspan, hslices, hlength.le, ?_⟩
  dsimp only
  rw [List.length_replicate, List.length_replicate, hlength]

private theorem sliceFits_data (l : HMALayout) {n m : Nat} (h : n ≤ m) :
    List.Forall₂ SliceFits (l.groups.map (dataSlices l.chunkTokens n)).flatten
      (l.groups.map (dataSlices l.chunkTokens m)).flatten := by
  apply List.rel_flatten
  rw [List.forall₂_map_left_iff, List.forall₂_map_right_iff, List.forall₂_same]
  intro g _
  unfold dataSlices
  split
  · rw [List.forall₂_map_left_iff, List.forall₂_map_right_iff, List.forall₂_same]
    intro layer _
    refine ⟨rfl, Nat.div_le_div_right (Nat.sub_le_sub_right ?_ _), Nat.le_refl _, Nat.le_refl _⟩
    exact Nat.mul_le_mul_right _ h
  · exact .nil

private theorem headerLength_config (store : TokenFileStore) :
    store.config.headerLength = store.headerLength := by
  unfold config
  dsimp only

/-- What the header check of a commit establishes. -/
theorem validatePrefixHeaders_ok {span : Nat}
    (h : validatePrefixHeaders store.config span = .ok ()) :
    (∃ segments, Store.headerPayload store.config (.ofNat 0) ⟨.data,
        if span = store.layout.chunkTokens then none else some (.ofNat 0), span⟩ = .ok segments) ∧
      store.headerLength ⟨.data,
        if span = store.layout.chunkTokens then none else some (.ofNat 0), span⟩ ≤ maxHeaderBytes ∧
      (store.layout.hasBoundaryState = true →
        (∃ segments, Store.headerPayload store.config (boundaryStateKey (.ofNat 0))
          ⟨.state, some (.ofNat 0), span⟩ = .ok segments) ∧
        store.headerLength ⟨.state, some (.ofNat 0), span⟩ ≤ maxHeaderBytes) := by
  have hencode : ∀ header, Store.encodeHeader store.config header = .ok () →
      store.headerLength header ≤ maxHeaderBytes := by
    intro header hok
    unfold Store.encodeHeader at hok
    rw [headerLength_config] at hok
    split at hok
    · cases hok
    · omega
  unfold validatePrefixHeaders at h
  obtain ⟨segments, hdata, h⟩ := bind_ok h
  obtain ⟨_, hlength, h⟩ := bind_ok h
  refine ⟨⟨segments, hdata⟩, hencode _ hlength, fun hstate ↦ ?_⟩
  rw [show store.config.layout.hasBoundaryState = true from hstate, if_pos rfl] at h
  obtain ⟨slices, hstate, h⟩ := bind_ok h
  exact ⟨⟨slices, hstate⟩, hencode _ h⟩

/-- An accepted header is encoded. -/
theorem HeaderAccepted.encodeHeader {key : Digest} {header : TokenHeader}
    (h : store.HeaderAccepted key header) : Store.encodeHeader store.config header = .ok () := by
  have hpos := store.headerLength_pos header
  have hle := h.length
  unfold Store.encodeHeader
  rw [headerLength_config, if_neg (by omega)]

private theorem span_of_validatePrefixHeaders {span : Nat}
    (h : validatePrefixHeaders store.config span = .ok ()) :
    0 < span ∧ span ≤ maxCounter ∧ span % store.layout.chunkTokens = 0 := by
  obtain ⟨⟨segments, hdata⟩, -⟩ := validatePrefixHeaders_ok h
  exact (storeHeaderPayload_ok.mp hdata).1

/-- Every data header up to a checked span is accepted. -/
theorem headerAccepted_data (hlayout : validateLayout store.config = .ok ()) {span : Nat}
    (hcheck : validatePrefixHeaders store.config span = .ok ()) {n : Nat} (hn : 0 < n)
    (hle : n * store.layout.chunkTokens ≤ span) (key : Digest) {parent : Option Digest}
    (hparent : parent = none ↔ n = 1) :
    store.HeaderAccepted key ⟨.data, parent, n * store.layout.chunkTokens⟩ := by
  have hchunk := store.layout.chunkTokens_pos
  obtain ⟨-, hlength, -⟩ := validatePrefixHeaders_ok hcheck
  obtain ⟨hpos, hmax, hmod⟩ := span_of_validatePrefixHeaders hcheck
  obtain ⟨m, rfl⟩ := dvd_iff_exists_eq_mul_left.mp (Nat.dvd_of_mod_eq_zero hmod)
  have hnm : n ≤ m := Nat.le_of_mul_le_mul_right hle hchunk
  have hspan : 0 < n * store.layout.chunkTokens := Nat.mul_pos hn hchunk
  have hfirst : n * store.layout.chunkTokens = store.layout.chunkTokens ↔ n = 1 := by
    rw [Nat.mul_eq_right hchunk.ne']
  constructor
  · obtain ⟨segments, hsegments, hone, hblocks⟩ := transferBounded_data hlayout n
    refine ⟨segments, storeHeaderPayload_ok.mpr ⟨⟨hspan, hle.trans hmax,
      Nat.mul_mod_left _ _⟩, ?_, ?_, hsegments, ?_⟩⟩
    · rintro ⟨hkind, -⟩
      cases hkind
    · rintro ⟨-, ⟨hone, hsome⟩ | ⟨hlater, hnone⟩⟩
      · exact hsome (hparent.mpr (hfirst.mp hone))
      · exact hlater.ne' (hfirst.mpr (hparent.mp hnone))
    · unfold sliceBytes at hone hblocks
      omega
  · refine Nat.le_trans ?_ hlength
    refine headerLength_le (segments_data store.layout n) (segments_data store.layout m) rfl ?_ hle
      (sliceFits_data store.layout hnm) ?_
    · intro hnone
      dsimp only at hnone
      split at hnone
      · next hone =>
        have hm : m = 1 := by
          rwa [Nat.mul_eq_right hchunk.ne'] at hone
        exact hparent.mpr (by omega)
      · cases hnone
    · exact (sliceBytes_data store.config n).trans (sliceBytes_data store.config m).symm

/-- Every state header at a checked span is accepted. -/
theorem headerAccepted_state {span : Nat}
    (hcheck : validatePrefixHeaders store.config span = .ok ())
    (hstate : store.layout.hasBoundaryState = true) (parent : Digest) :
    store.HeaderAccepted (boundaryStateKey parent) ⟨.state, some parent, span⟩ := by
  obtain ⟨-, -, hboundary⟩ := validatePrefixHeaders_ok hcheck
  obtain ⟨⟨segments, hheader⟩, hlength⟩ := hboundary hstate
  obtain ⟨hspan, hidentity, -, hsegments, hblocks⟩ := storeHeaderPayload_ok.mp hheader
  have halign : span % store.layout.alignmentTokens = 0 := by
    by_contra hne
    exact hidentity ⟨rfl, fun h ↦ hne h.2.2⟩
  constructor
  · refine ⟨segments, storeHeaderPayload_ok.mpr ⟨hspan, ?_, ?_, hsegments, hblocks⟩⟩
    · rintro ⟨-, hne⟩
      exact hne ⟨hstate, rfl, halign⟩
    · rintro ⟨hkind, -⟩
      cases hkind
  · refine Nat.le_trans ?_ hlength
    exact headerLength_le hsegments hsegments rfl (fun h ↦ (by cases h)) (Nat.le_refl _)
      (List.forall₂_same.mpr fun a _ ↦ SliceFits.refl a) rfl

end TokenFileStore

/-! ### Commits -/

/-- The errors of the two size checks. -/
def SizeError (e : PyError) : Prop :=
  e = .manifestError "invalid token file transfer block count" ∨
    e = .manifestError "invalid token file header length"

instance (e : PyError) : Decidable (SizeError e) := inferInstanceAs (Decidable (_ ∨ _))

private theorem not_sizeError_of_geometry {e : PyError} (h : GeometryError e) : ¬ SizeError e := by
  cases h with
  | layout message => rintro (h | h) <;> cases h
  | overflow message => rintro (h | h) <;> cases h
  | slice => decide

/-- No size check is what fails. -/
abbrev NoSizeError {α : Type} (x : Except PyError α) : Prop := OnlyRaises (fun e ↦ ¬ SizeError e) x

variable {config : StoreConfig}

private theorem noSizeError_layout {α : Type} (message : String) :
    NoSizeError (.error (.layoutError message) : Except PyError α) :=
  onlyRaises_error (not_sizeError_of_geometry (.layout message))

private theorem openChunk_noSizeError (s : RankState) (key : Digest) (allowWithdrawn : Bool) :
    NoSizeError (openChunk config s key allowWithdrawn) := by
  unfold openChunk
  split
  · exact onlyRaises_error (by decide)
  split
  · exact onlyRaises_error (by decide)
  split
  · exact onlyRaises_error (by decide)
  split
  · exact onlyRaises_error (by decide)
  · exact onlyRaises_ok _

private theorem selectPhysicalPages_noSizeError (l : HMALayout) (blockTables : List (List Nat))
    (span : Nat) : NoSizeError (l.selectPhysicalPages blockTables span) := by
  unfold HMALayout.selectPhysicalPages
  split
  · exact noSizeError_layout _
  refine onlyRaises_mapM fun p _ ↦ ?_
  unfold GroupGeometry.selectPhysicalPages
  refine OnlyRaises.bind ?_ fun selected _ ↦ OnlyRaises.bind ?_ fun pages _ ↦ ?_
  · exact (selectedPageCount_raises p.1 span).mono fun _ he ↦ not_sizeError_of_geometry he
  · unfold GroupGeometry.namedPages
    split
    · split
      · exact noSizeError_layout _
      · exact onlyRaises_ok _
    · split
      · exact noSizeError_layout _
      · exact onlyRaises_ok _
    · split
      · exact noSizeError_layout _
      · exact onlyRaises_ok _
  · split
    · exact noSizeError_layout _
    split
    · exact noSizeError_layout _
    · exact onlyRaises_ok _

private theorem validateManifestCoverage_noSizeError (l : HMALayout) (span : Nat)
    (slices : List PageSlice) : NoSizeError (l.validateManifestCoverage span slices) := by
  unfold HMALayout.validateManifestCoverage
  refine OnlyRaises.bind ?_ fun counts _ ↦ OnlyRaises.bind ?_ fun cursors _ ↦ ?_
  · refine onlyRaises_mapM fun g _ ↦ ?_
    exact (selectedPageCount_raises g span).mono fun _ he ↦ not_sizeError_of_geometry he
  · refine onlyRaises_foldlM (fun cursors slice _ ↦ ?_) _
    unfold coverSlice
    split
    · exact noSizeError_layout _
    split
    · exact noSizeError_layout _
    split
    · exact noSizeError_layout _
    · exact onlyRaises_ok _
  · split
    · exact noSizeError_layout _
    split
    · exact noSizeError_layout _
    · exact onlyRaises_ok _

private theorem touchAll_noSizeError (times : Nat → Nat) (s : RankState) (keys : List Digest) :
    NoSizeError (touchAll times s keys).2 := by
  induction keys generalizing s times with
  | nil => exact onlyRaises_ok _
  | cons key keys ih =>
    unfold touchAll
    split
    · exact onlyRaises_error (by decide)
    · exact ih _ _

private theorem finishCommit_noSizeError (times : Nat → Nat) (s : RankState) (tail : PrefixDigest)
    (objects : List TokenFileDescriptor) :
    NoSizeError (finishCommit config times s tail objects).2 := by
  have hcovered : NoSizeError (coveredSnapshot config tail.digest tail.spanTokens objects) :=
    (validateManifestCoverage_noSizeError _ _ _).bind fun _ _ ↦ onlyRaises_ok _
  have htouch := touchAll_noSizeError times s (objects.map TokenFileDescriptor.key).reverse
  unfold finishCommit touch
  split
  · next e he => exact onlyRaises_error (hcovered e he)
  · split
    · next heq =>
      rw [heq] at htouch
      exact onlyRaises_error (htouch _ rfl)
    · exact onlyRaises_ok _

variable {store : TokenFileStore}

/-- A publication whose header is accepted. -/
theorem publishChunk_noSizeError (hooked : Bool) (oracle : PublishOracle) (s : RankState)
    {key : Digest} {header : TokenHeader} (h : store.HeaderAccepted key header) :
    NoSizeError (publishChunk store.config hooked oracle s key header).2 := by
  obtain ⟨segments, hheader⟩ := h.geometry
  unfold publishChunk
  rw [hheader, ok_bind, h.encodeHeader]
  dsimp only
  split
  · exact onlyRaises_error (by decide)
  split
  · exact onlyRaises_error (by decide)
  · exact onlyRaises_error (by decide)
  · exact openChunk_noSizeError _ _ _

private theorem publishBatch_noSizeError (hooked : Bool) (oracle : CommitOracle)
    {jobs : List CommitJob}
    (h : ∀ job ∈ jobs, store.HeaderAccepted job.key job.header) (s : RankState)
    (resolved : OrderedDict Digest TokenFileDescriptor) :
    NoSizeError (publishBatch store.config hooked oracle s resolved jobs).2 := by
  induction jobs generalizing s resolved with
  | nil => exact onlyRaises_ok _
  | cons job jobs ih =>
    have hfirst := publishChunk_noSizeError hooked oracle.publish s (h job List.mem_cons_self)
    unfold publishBatch
    split
    · next heq =>
      rw [heq] at hfirst
      exact onlyRaises_error (hfirst _ rfl)
    · exact ih (fun other hm ↦ h other (List.mem_cons_of_mem job hm)) _ _

private theorem commitBatch_noSizeError (hooked : Bool) (oracle : CommitOracle)
    {jobs : List CommitJob}
    (h : ∀ job ∈ jobs, store.HeaderAccepted job.key job.header) (s : RankState) :
    NoSizeError (commitBatch store.config hooked oracle s jobs).2 := by
  unfold commitBatch
  rcases hprobe : probeBatch store.config hooked s .empty jobs with ⟨s', resolved, missing⟩
  have hsub := (probeBatch_files (fun _ _ hget ↦ (by cases hget)) hprobe).2.1.subset
  have hpublish := publishBatch_noSizeError hooked oracle (fun job hm ↦ h job (hsub hm)) s' resolved
  dsimp only
  split
  · next heq =>
    rw [heq] at hpublish
    exact onlyRaises_error (hpublish _ rfl)
  · exact onlyRaises_ok _

private theorem commitBatches_noSizeError (hooked : Bool) (oracle : CommitOracle)
    {batches : List (List CommitJob)}
    (h : ∀ jobs ∈ batches, ∀ job ∈ jobs, store.HeaderAccepted job.key job.header) (s : RankState) :
    NoSizeError (commitBatches store.config hooked oracle s batches).2 := by
  induction batches generalizing s with
  | nil => exact onlyRaises_ok _
  | cons jobs rest ih =>
    have hfirst := commitBatch_noSizeError hooked oracle (h jobs List.mem_cons_self) s
    have hrest := ih fun other hm ↦ h other (List.mem_cons_of_mem jobs hm)
    unfold commitBatches
    split
    · next heq =>
      rw [heq] at hfirst
      exact onlyRaises_error (hfirst _ rfl)
    · next s' objects heq =>
      split
      · next heq' =>
        have hlater := hrest s'
        rw [heq'] at hlater
        exact onlyRaises_error (hlater _ rfl)
      · exact onlyRaises_ok _

/-- The jobs of a commit up to a checked span have accepted headers. -/
theorem headerAccepted_commitPlan (hlayout : validateLayout store.config = .ok ())
    {prefixes : List PrefixDigest} {tail : PrefixDigest} (htail : prefixes.getLast? = some tail)
    (hspans : prefixes.map PrefixDigest.spanTokens =
      (List.range prefixes.length).map fun i ↦ (i + 1) * store.layout.chunkTokens)
    (hcheck : validatePrefixHeaders store.config tail.spanTokens = .ok ()) {batchCount : Nat}
    {jobs : List CommitJob} (hjobs : jobs ∈ commitPlan store.config batchCount prefixes)
    {job : CommitJob} (hjob : job ∈ jobs) : store.HeaderAccepted job.key job.header := by
  have hspan : ∀ (i : Nat) (p : PrefixDigest), prefixes[i]? = some p →
      p.spanTokens = (i + 1) * store.layout.chunkTokens := by
    intro i p hi
    have hlt := (List.getElem?_eq_some_iff.mp hi).1
    have he := congrArg (fun l ↦ l[i]?) hspans
    simpa only [List.getElem?_map, hi, List.getElem?_range hlt, Option.map_some,
      Option.some.injEq] using he
  rcases mem_commitPlan hjobs hjob with hdata | ⟨hstate, last, hlast, rfl⟩
  · obtain ⟨i, hi⟩ := List.mem_iff_getElem?.mp hdata
    rw [getElem?_dataJobs] at hi
    obtain ⟨p, hp, rfl⟩ := Option.map_eq_some_iff.mp hi
    have hlt := (List.getElem?_eq_some_iff.mp hp).1
    have hlast : tail.spanTokens = prefixes.length * store.layout.chunkTokens := by
      rw [List.getLast?_eq_getElem?] at htail
      rw [hspan _ _ htail]
      congr 1
      omega
    dsimp only
    rw [hspan i p hp]
    refine TokenFileStore.headerAccepted_data hlayout hcheck (Nat.succ_pos i) ?_ _ ?_
    · rw [hlast]
      exact Nat.mul_le_mul_right _ hlt
    · cases i with
      | zero => exact ⟨fun _ ↦ rfl, fun _ ↦ if_pos rfl⟩
      | succ i =>
        have hprev : prefixes[i + 1 - 1]? = some prefixes[i] := List.getElem?_eq_getElem (by omega)
        rw [if_neg (Nat.succ_ne_zero i), hprev]
        exact ⟨fun h ↦ (by cases h), fun h ↦ (by omega)⟩
  · rw [htail] at hlast
    cases hlast
    exact TokenFileStore.headerAccepted_state hcheck hstate tail.digest

private theorem commitKeys_noSizeError (hlayout : validateLayout store.config = .ok ())
    {prefixes : List PrefixDigest} {tail : PrefixDigest} (htail : prefixes.getLast? = some tail)
    (hspans : prefixes.map PrefixDigest.spanTokens =
      (List.range prefixes.length).map fun i ↦ (i + 1) * store.layout.chunkTokens)
    (hcheck : validatePrefixHeaders store.config tail.spanTokens = .ok ()) (hooked : Bool)
    (oracle : CommitOracle) (s : RankState) (blockTables : List (List Nat)) :
    NoSizeError (commitKeys store.config hooked oracle s prefixes blockTables).2 := by
  have hcount : NoSizeError (commitBatchCount store.config prefixes blockTables) := by
    unfold commitBatchCount
    rw [htail]
    dsimp only
    split
    · next hne => exact absurd hspans hne
    rw [hlayout, ok_bind, hcheck, ok_bind]
    refine (selectPhysicalPages_noSizeError _ _ _).bind fun _ _ ↦ OnlyRaises.bind ?_ fun _ _ ↦ ?_
    · exact (segments_raises _ _ _).mono fun _ he ↦ not_sizeError_of_geometry he
    · exact onlyRaises_ok _
  unfold commitKeys
  rw [htail]
  cases hbatch : commitBatchCount store.config prefixes blockTables with
  | error e => exact onlyRaises_error (hcount e hbatch)
  | ok batchCount =>
    have hbatches : NoSizeError (commitBatches store.config hooked oracle s
        (commitPlan store.config batchCount prefixes)).2 := by
      apply commitBatches_noSizeError
      intro jobs hjobs job hjob
      exact headerAccepted_commitPlan hlayout htail hspans hcheck hjobs hjob
    dsimp only
    split
    · next heq =>
      rw [heq] at hbatches
      exact onlyRaises_error (hbatches _ rfl)
    · exact finishCommit_noSizeError _ _ _ _

/-- Once a layout is accepted every file has a valid number of transfer blocks, and once a span is
checked no header up to it and no commit up to it fails on a size. -/
theorem accepted_layout_has_no_size_failure (store : TokenFileStore)
    (hexact : store.layout.ExactWindows) (hlayout : validateLayout store.config = .ok ()) :
    (∀ n, 0 < n → store.TransferBounded (n * store.layout.chunkTokens) .data ∧
      (store.layout.hasBoundaryState = true →
        store.TransferBounded (n * store.layout.chunkTokens) .state)) ∧
    ∀ span, validatePrefixHeaders store.config span = .ok () →
      (∀ n key parent, 0 < n → n * store.layout.chunkTokens ≤ span → (parent = none ↔ n = 1) →
        store.HeaderSucceeds key ⟨.data, parent, n * store.layout.chunkTokens⟩) ∧
      (store.layout.hasBoundaryState = true → ∀ parent,
        store.HeaderSucceeds (boundaryStateKey parent) ⟨.state, some parent, span⟩) ∧
      ∀ prefixes tail hooked oracle s blockTables e, prefixes.getLast? = some tail →
        tail.spanTokens = span →
        prefixes.map PrefixDigest.spanTokens =
          (List.range prefixes.length).map (fun i ↦ (i + 1) * store.layout.chunkTokens) →
        (commitKeys store.config hooked oracle s prefixes blockTables).2 = .error e →
        ¬ SizeError e := by
  refine ⟨fun n hn ↦ ⟨?_, fun hstate ↦ ?_⟩, fun span hcheck ↦ ⟨?_, ?_, ?_⟩⟩
  · exact TokenFileStore.transferBounded_data hlayout n
  · exact TokenFileStore.transferBounded_state hexact hlayout hstate hn
  · intro n key parent hn hle hparent
    exact (TokenFileStore.headerAccepted_data hlayout hcheck hn hle key hparent).succeeds
  · intro hstate parent
    exact (TokenFileStore.headerAccepted_state hcheck hstate parent).succeeds
  · intro prefixes tail hooked oracle s blockTables e htail hspan hspans he
    subst hspan
    exact commitKeys_noSizeError hlayout htail hspans hcheck hooked oracle s blockTables e he

/-- A full group of pages of 256 tokens and a sliding group of pages of 16 tokens, in transfer
blocks of 64 bytes. -/
def boundedSample : TokenFileStore where
  layout :=
    { groups := [fullSampleGroup,
        { HMALayout.slidingSampleGroup with
          groupIndex := 1
          layers := [⟨"window", 64, by decide, by decide, sampleLayer.pageSizeBytes_pos⟩]
          layers_sorted := List.pairwise_singleton _ _ }]
      groupIndex_eq := rfl
      layers_ne := List.cons_ne_nil _ _
      layers_nodup := by decide }
  slotBytes := 64
  identity := ⟨.ofNat 1, .ofNat 2, 0, .ofNat 3, "p", .ofNat 4⟩
  slotBytes_pos := sampleLayer.pageSizeBytes_pos

private theorem chunkTokens_boundedSample :
    boundedSample.layout.chunkTokens = 256 := by decide +kernel

/-- Every header of the bounded sample fits, for spans up to two chunks. -/
theorem headerLength_boundedSample {header : TokenHeader} {segments : List PageSlice}
    (h : boundedSample.layout.segments header.spanTokens header.kind = .ok segments)
    (hbytes : sliceBytes segments ≤ 576) (hspan : header.spanTokens ≤ 512)
    (hslices : (segments.map fun s ↦ Json.width (sliceJson s).dumps + 1).sum ≤ 1000) :
    boundedSample.headerLength header ≤ maxHeaderBytes := by
  have hwidth := boundedSample.width_headerJson_le (boundedSample.emptyPayload header)
  have hbinding : Json.width boundedSample.bindingJson.dumps ≤ 1000 :=
    boundedSample.width_bindingJson_le.trans (by decide +kernel)
  have hempty : (boundedSample.emptyPayload header).segments = segments := by
    unfold TokenFileStore.emptyPayload
    dsimp only
    rw [h]
  have hlength : (boundedSample.emptyPayload header).byteLength = sliceBytes segments := by
    rw [← hempty]
    rfl
  have hblocks : (boundedSample.emptyPayload header).blockSha256.length ≤ 9 := by
    have heq : (boundedSample.emptyPayload header).blockSha256.length =
        boundedSample.transferBlocks (boundedSample.emptyPayload header).byteLength :=
      List.length_replicate ..
    rw [heq, hlength]
    exact (Nat.div_le_iff_le_mul_add_pred (by decide)).mpr (by change _ + 64 - 1 ≤ 9 * 64 + (64 - 1); omega)
  have hnumber : ∀ {n : Nat}, n ≤ 576 → Json.width (Json.int n).dumps ≤ 3 := fun hn ↦
    Nat.le_trans (Json.fits_int hn) (by decide +kernel)
  have hbyteWidth := hnumber (hlength ▸ hbytes)
  have hspanWidth := hnumber (Nat.le_trans hspan (by decide : 512 ≤ 576))
  rw [hempty] at hwidth
  have hheader : (boundedSample.emptyPayload header).header = header := rfl
  rw [hheader] at hwidth
  change Json.width _ ≤ 64 * 1024
  omega

private theorem validatePrefixHeaders_boundedSample :
    validatePrefixHeaders boundedSample.config 512 = .ok () := by
  have hdata : boundedSample.HeaderAccepted (.ofNat 0) ⟨.data, some (.ofNat 0), 512⟩ := by
    have hsegments : boundedSample.layout.segments 512 .data = .ok [⟨0, "layer", 1, 1, 64⟩] := by
      decide +kernel
    exact ⟨⟨[⟨0, "layer", 1, 1, 64⟩], by decide +kernel⟩,
      headerLength_boundedSample hsegments (by decide) (by decide) (by decide +kernel)⟩
  have hboundary : boundedSample.layout.hasBoundaryState = true := by decide +kernel
  have hstate : boundedSample.HeaderAccepted (boundaryStateKey (.ofNat 0))
      ⟨.state, some (.ofNat 0), 512⟩ := by
    have hsegments : boundedSample.layout.segments 512 .state = .ok [⟨1, "window", 0, 8, 512⟩] := by
      decide +kernel
    have hkey : headerPayload boundedSample.config (boundaryStateKey (.ofNat 0))
        ⟨.state, some (.ofNat 0), 512⟩ = .ok [⟨1, "window", 0, 8, 512⟩] := by
      refine TokenFileStore.storeHeaderPayload_ok.mpr ⟨⟨by decide, by decide, by decide +kernel⟩,
        fun h ↦ h.2 ⟨hboundary, rfl, by decide +kernel⟩, ?_, hsegments, by decide +kernel⟩
      rintro ⟨hkind, -⟩
      cases hkind
    exact ⟨⟨_, hkey⟩,
      headerLength_boundedSample hsegments (by decide) (by decide) (by decide +kernel)⟩
  have hboundary : boundedSample.config.layout.hasBoundaryState = true := hboundary
  obtain ⟨dataSegments, hdataHeader⟩ := hdata.geometry
  obtain ⟨stateSegments, hstateHeader⟩ := hstate.geometry
  have hlater : (512 : Nat) ≠ boundedSample.config.layout.chunkTokens := by decide +kernel
  unfold validatePrefixHeaders
  dsimp only
  rw [if_neg hlater, hdataHeader, ok_bind, hdata.encodeHeader, ok_bind, hboundary, if_pos rfl,
    hstateHeader, ok_bind, hstate.encodeHeader]

/-- The bounded sample fits its windows, with a header of each kind. -/
theorem accepted_layout_boundedSample :
    boundedSample.TransferBounded 768 .state ∧
      boundedSample.HeaderSucceeds (.ofNat 9) ⟨.data, none, 256⟩ ∧
      boundedSample.HeaderSucceeds (boundaryStateKey (.ofNat 7)) ⟨.state, some (.ofNat 7), 512⟩ := by
  have hexact : boundedSample.layout.ExactWindows := by
    apply HMALayout.exactWindows_of_lt
    intro g hg window hw
    rcases List.mem_cons.mp hg with rfl | hg
    · cases hw
    · rw [List.mem_singleton.mp hg] at hw ⊢
      cases hw
      exact ⟨by decide, by decide⟩
  have hlayout : validateLayout boundedSample.config = .ok () := by decide +kernel
  have hcheck : validatePrefixHeaders boundedSample.config 512 = .ok () :=
    validatePrefixHeaders_boundedSample
  have hboundary : boundedSample.layout.hasBoundaryState = true := by decide +kernel
  obtain ⟨hblocks, hheaders⟩ := accepted_layout_has_no_size_failure boundedSample hexact hlayout
  obtain ⟨hdata, hstate, -⟩ := hheaders 512 hcheck
  rw [chunkTokens_boundedSample] at hblocks hdata
  refine ⟨(hblocks 3 (by decide)).2 hboundary, ?_, hstate hboundary _⟩
  exact hdata 1 (.ofNat 9) none (by decide) (by decide) ⟨fun _ ↦ rfl, fun _ ↦ rfl⟩

end SpoolCache.Store

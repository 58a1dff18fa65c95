import SpoolCache.Base.Except
import SpoolCache.Base.OrderedDict
import SpoolCache.Layout.Geometry

/-!
# Coverage of a snapshot

`manifest.py:11–88` and `hma.py:320–345`. A data file holds the pages of one chunk for every full
group, a state file the selected pages of every other group at its boundary. The coverage check
walks the slices of all files of a snapshot with one cursor per layer.
-/

namespace SpoolCache.Layout

open SpoolCache.Base

/-- What a token file holds. -/
inductive FileKind where
  | data
  | state
  deriving DecidableEq

/-- `PageSlice`, `manifest.py:11–20`, with its checked ranges. -/
structure PageSlice where
  groupIndex : Nat
  layerName : String
  pageStart : Nat
  pageCount : Nat
  byteLength : Nat
  deriving DecidableEq

/-- The layer a slice belongs to. -/
def PageSlice.layerKey (s : PageSlice) : Nat × String := (s.groupIndex, s.layerName)

/-- Construction of a slice, `manifest.py:21–33`. -/
def pageSlice (groupIndex : Nat) (layerName : String) (pageStart pageCount byteLength : Nat) :
    Except PyError PageSlice :=
  if pageCount = 0 ∨ byteLength = 0 then .error (.manifestError "page slice range is invalid")
  else .ok ⟨groupIndex, layerName, pageStart, pageCount, byteLength⟩

/-- First page and number of pages of a group in a file, `manifest.py:72–76`. -/
def GroupGeometry.sliceRange (g : GroupGeometry) (chunkTokens span : Nat) :
    FileKind → Except PyError (Nat × Nat)
  | .data => .ok ((span - chunkTokens) / g.logicalTokensPerPage,
      chunkTokens / g.logicalTokensPerPage)
  | .state => do
    let count ← g.selectedPageCount span
    pure (0, count)

/-- The slices of a group in a file, `manifest.py:68–79`. -/
def GroupGeometry.segments (g : GroupGeometry) (chunkTokens span : Nat) (kind : FileKind) :
    Except PyError (List PageSlice) :=
  if decide (g.reusePolicy = .full) ≠ decide (kind = .data) then .ok []
  else do
    let (start, count) ← g.sliceRange chunkTokens span kind
    g.layers.mapM fun layer ↦
      pageSlice g.groupIndex layer.name start count (count * layer.pageSizeBytes)

/-- `TokenSegments`, `manifest.py:53–79`. -/
def HMALayout.segments (l : HMALayout) (span : Nat) (kind : FileKind) :
    Except PyError (List PageSlice) := do
  let slices ← l.groups.mapM fun g ↦ g.segments l.chunkTokens span kind
  pure slices.flatten

/-- What the geometry of a span raises. -/
inductive GeometryError : PyError → Prop where
  | layout (message : String) : GeometryError (.layoutError message)
  | overflow (message : String) : GeometryError (.overflowError message)
  | slice : GeometryError (.manifestError "page slice range is invalid")

/-- The number of selected pages fails with an error about the geometry only. -/
theorem selectedPageCount_raises (g : GroupGeometry) (span : Nat) :
    OnlyRaises GeometryError (g.selectedPageCount span) := by
  unfold GroupGeometry.selectedPageCount
  split
  · exact onlyRaises_error (.layout _)
  split
  · exact onlyRaises_ok _
  split
  · exact onlyRaises_error (.layout _)
  · dsimp only
    split
    · exact onlyRaises_ok _
    · refine OnlyRaises.bind ?_ fun _ _ ↦ onlyRaises_ok _
      unfold GroupGeometry.windowPages
      split
      · exact onlyRaises_ok _
      · exact onlyRaises_error (.overflow _)
    · exact onlyRaises_ok _
    · exact onlyRaises_ok _

/-- The segments of a file fail with an error about the geometry only. -/
theorem segments_raises (l : HMALayout) (span : Nat) (kind : FileKind) :
    OnlyRaises GeometryError (l.segments span kind) := by
  unfold HMALayout.segments
  refine OnlyRaises.bind (onlyRaises_mapM fun g _ ↦ ?_) fun _ _ ↦ onlyRaises_ok _
  unfold GroupGeometry.segments
  split
  · exact onlyRaises_ok _
  · refine OnlyRaises.bind ?_ fun _ _ ↦ onlyRaises_mapM fun layer _ ↦ ?_
    · unfold GroupGeometry.sliceRange
      split
      · exact onlyRaises_ok _
      · exact (selectedPageCount_raises g span).bind fun _ _ ↦ onlyRaises_ok _
    · unfold pageSlice
      split
      · exact onlyRaises_error .slice
      · exact onlyRaises_ok _

/-! ### The coverage check -/

/-- Cursor of each layer. -/
abbrev Cursors := OrderedDict (Nat × String) Nat

/-- Page count and page size of each layer, `hma.py:327–332`. -/
def HMALayout.expectedLayers (l : HMALayout) (counts : List Nat) :
    OrderedDict (Nat × String) (Nat × Nat) :=
  .ofItems ((l.groups.zip counts).flatMap fun p ↦
    p.1.layers.map fun layer ↦ ((p.1.groupIndex, layer.name), (p.2, layer.pageSizeBytes)))

/-- One slice of the check, `hma.py:335–342`. -/
def coverSlice (expected : OrderedDict (Nat × String) (Nat × Nat)) (cursors : Cursors)
    (segment : PageSlice) : Except PyError Cursors :=
  match expected.get? segment.layerKey with
  | none => .error (.layoutError "manifest does not contain exactly every HMA layer")
  | some (_, pageSizeBytes) =>
    if segment.pageStart ≠ (cursors.get? segment.layerKey).getD 0 then
      .error (.layoutError "manifest HMA page ranges contain a gap")
    else if segment.byteLength ≠ segment.pageCount * pageSizeBytes then
      .error (.layoutError "manifest HMA object byte length differs")
    else .ok (cursors.set segment.layerKey (segment.pageStart + segment.pageCount))

/-- `validate_manifest_coverage`, `hma.py:320–345`, on the slices of a snapshot of this layout's
identity. -/
def HMALayout.validateManifestCoverage (l : HMALayout) (spanTokens : Nat)
    (slices : List PageSlice) : Except PyError Unit := do
  let counts ← l.selectedPageCounts spanTokens
  let expected := l.expectedLayers counts
  let cursors ← slices.foldlM (coverSlice expected) .empty
  if ¬ (cursors.keys ⊆ expected.keys ∧ expected.keys ⊆ cursors.keys) then
    throw (.layoutError "manifest does not contain exactly every HMA layer")
  else if ∃ e ∈ expected.items, cursors.get? e.1 ≠ some e.2.1 then
    throw (.layoutError "manifest HMA page coverage is incomplete")
  else pure ()

/-! ### Slices of a file -/

/-- The slices of a group, when its range exists. -/
def GroupGeometry.slices (g : GroupGeometry) (chunkTokens span : Nat) (kind : FileKind) :
    List PageSlice :=
  if decide (g.reusePolicy = .full) ≠ decide (kind = .data) then []
  else
    match g.sliceRange chunkTokens span kind with
    | .error _ => []
    | .ok (start, count) => g.layers.map fun layer ↦
        ⟨g.groupIndex, layer.name, start, count, count * layer.pageSizeBytes⟩

private theorem GroupGeometry.segments_eq {g : GroupGeometry} {chunk span : Nat} {kind : FileKind}
    {segments : List PageSlice} (h : g.segments chunk span kind = .ok segments) :
    segments = g.slices chunk span kind := by
  unfold GroupGeometry.segments at h
  unfold GroupGeometry.slices
  split at h
  · next hk =>
    cases h
    rw [if_pos hk]
  · next hk =>
    rw [if_neg hk]
    obtain ⟨⟨start, count⟩, hr, h⟩ := bind_ok h
    rw [hr]
    apply mapM_ok_eq_map _ h
    intro layer s hs
    unfold pageSlice at hs
    split at hs
    · cases hs
    · cases hs
      rfl

namespace HMALayout

variable {l : HMALayout}

/-- The segments of a file are the slices of its groups, in order. -/
theorem segments_eq {span : Nat} {kind : FileKind} {segments : List PageSlice}
    (h : l.segments span kind = .ok segments) :
    segments = l.groups.flatMap fun g ↦ g.slices l.chunkTokens span kind := by
  obtain ⟨slices, hs, h⟩ := bind_ok h
  cases h
  rw [mapM_ok_eq_map (fun g out hg ↦ GroupGeometry.segments_eq hg) hs, List.flatMap_def]

/-- An index belongs to one group. -/
theorem groupIndex_inj {g g' : GroupGeometry} (hg : g ∈ l.groups) (hg' : g' ∈ l.groups)
    (h : g.groupIndex = g'.groupIndex) : g = g' := by
  have hnd : (l.groups.map GroupGeometry.groupIndex).Nodup := by
    rw [l.groupIndex_eq]
    exact List.nodup_range
  exact List.inj_on_of_nodup_map hnd hg hg' h

/-- Every layer with its key, group by group. -/
def layerKeys (l : HMALayout) : List (Nat × String) :=
  l.groups.flatMap fun g ↦ g.layers.map fun layer ↦ (g.groupIndex, layer.name)

private theorem nodup_layerKeys (l : HMALayout) : l.layerKeys.Nodup := by
  have hmap : l.layerKeys.map Prod.snd =
      (l.groups.flatMap GroupGeometry.layers).map LayerGeometry.name := by
    rw [layerKeys, List.map_flatMap, List.map_flatMap]
    apply List.flatMap_congr
    intro g _
    rw [List.map_map]
    rfl
  apply List.Nodup.of_map Prod.snd
  rw [hmap]
  exact l.layers_nodup

/-- The layer keys are the pairs of a group and a layer of it. -/
theorem mem_layerKeys {k : Nat × String} :
    k ∈ l.layerKeys ↔ ∃ g ∈ l.groups, ∃ layer ∈ g.layers, (g.groupIndex, layer.name) = k := by
  rw [layerKeys, List.mem_flatMap]
  simp only [List.mem_map]

/-- A file has at most one slice of each layer. -/
theorem nodup_slices (l : HMALayout) (span : Nat) (kind : FileKind) :
    ((l.groups.flatMap fun g ↦ g.slices l.chunkTokens span kind).map PageSlice.layerKey).Nodup := by
  have hsub : ∀ gs : List GroupGeometry,
      ((gs.flatMap fun g ↦ g.slices l.chunkTokens span kind).map PageSlice.layerKey).Sublist
        (gs.flatMap fun g ↦ g.layers.map fun layer ↦ (g.groupIndex, layer.name)) := by
    intro gs
    induction gs with
    | nil => exact List.Sublist.refl _
    | cons g gs ih =>
      rw [List.flatMap_cons, List.flatMap_cons, List.map_append]
      refine List.Sublist.append ?_ ih
      unfold GroupGeometry.slices
      split
      · exact List.nil_sublist _
      · split
        · exact List.nil_sublist _
        · rw [List.map_map]
          exact List.Sublist.refl _
  exact l.nodup_layerKeys.sublist (hsub l.groups)

end HMALayout

/-! ### The check walks the slices -/

/-- Slices of distinct layers that continue their cursors advance exactly these. -/
theorem foldlM_coverSlice (expected : OrderedDict (Nat × String) (Nat × Nat))
    (cursors : Cursors) {slices : List PageSlice} (hnd : (slices.map PageSlice.layerKey).Nodup)
    (h : ∀ s ∈ slices, s.pageStart = (cursors.get? s.layerKey).getD 0 ∧
      ∃ count size, expected.get? s.layerKey = some (count, size) ∧
        s.byteLength = s.pageCount * size) :
    ∃ cursors', slices.foldlM (coverSlice expected) cursors = .ok cursors' ∧
      (∀ s ∈ slices, cursors'.get? s.layerKey = some (s.pageStart + s.pageCount)) ∧
      ∀ k ∉ slices.map PageSlice.layerKey, cursors'.get? k = cursors.get? k := by
  induction slices generalizing cursors with
  | nil => exact ⟨cursors, rfl, fun s hs ↦ (by cases hs), fun _ _ ↦ rfl⟩
  | cons s slices ih =>
    rw [List.map_cons, List.nodup_cons] at hnd
    obtain ⟨hstart, count, size, he, hlen⟩ := h s List.mem_cons_self
    have hround : coverSlice expected cursors s =
        .ok (cursors.set s.layerKey (s.pageStart + s.pageCount)) := by
      unfold coverSlice
      rw [he]
      dsimp only
      rw [if_neg (not_not.mpr hstart), if_neg (not_not.mpr hlen)]
    have hother : ∀ k, k ≠ s.layerKey →
        (cursors.set s.layerKey (s.pageStart + s.pageCount)).get? k = cursors.get? k := by
      intro k hk
      rw [OrderedDict.get?_set, if_neg hk]
    obtain ⟨cursors', hc, hin, hout⟩ := ih (cursors.set s.layerKey _) hnd.2 (by
      intro t ht
      rw [hother]
      · exact h t (List.mem_cons_of_mem _ ht)
      · intro hk
        exact hnd.1 (hk ▸ List.mem_map_of_mem ht))
    refine ⟨cursors', ?_, ?_, ?_⟩
    · rw [List.foldlM_cons, hround]
      exact hc
    · intro t ht
      rcases List.mem_cons.mp ht with rfl | ht
      · rw [hout _ hnd.1, OrderedDict.get?_set, if_pos rfl]
      · exact hin t ht
    · intro k hk
      rw [List.map_cons, List.mem_cons, not_or] at hk
      rw [hout k hk.2, hother k hk.1]

namespace HMALayout

variable {l : HMALayout}

/-- What the check expects of each layer. -/
theorem get?_expectedLayers {span : Nat} {counts : List Nat}
    (hc : l.selectedPageCounts span = .ok counts) :
    (∀ g ∈ l.groups, ∀ layer ∈ g.layers, ∃ count, g.selectedPageCount span = .ok count ∧
      (l.expectedLayers counts).get? (g.groupIndex, layer.name) =
        some (count, layer.pageSizeBytes)) ∧
      (l.expectedLayers counts).keys = l.layerKeys := by
  let count : GroupGeometry → Nat := fun g ↦ ((g.selectedPageCount span).toOption).getD 0
  have hcounts : counts = l.groups.map count := by
    apply mapM_ok_eq_map _ hc
    intro g n hn
    simp only [count, hn, Except.toOption, Option.getD_some]
  have hitems : ((l.groups.zip counts).flatMap fun p ↦
      p.1.layers.map fun layer ↦ ((p.1.groupIndex, layer.name), (p.2, layer.pageSizeBytes))) =
      l.groups.flatMap fun g ↦ g.layers.map fun layer ↦
        ((g.groupIndex, layer.name), (count g, layer.pageSizeBytes)) := by
    rw [hcounts, ← List.map_prod_left_eq_zip, List.flatMap_map]
  have hkeys : (l.groups.flatMap fun g ↦ g.layers.map fun layer ↦
      ((g.groupIndex, layer.name), (count g, layer.pageSizeBytes))).map Prod.fst =
      l.layerKeys := by
    rw [layerKeys, List.map_flatMap]
    apply List.flatMap_congr
    intro g _
    rw [List.map_map]
    rfl
  have hstored := OrderedDict.items_ofItems _ (by rw [hkeys]; exact l.nodup_layerKeys)
  unfold expectedLayers
  rw [hitems]
  refine ⟨?_, ?_⟩
  · intro g hg layer hlayer
    obtain ⟨n, hn⟩ := (exists_mapM_ok_iff _ _).mp ⟨counts, hc⟩ g hg
    refine ⟨n, hn, ?_⟩
    rw [OrderedDict.get?_eq_some_iff, hstored, List.mem_flatMap]
    refine ⟨g, hg, List.mem_map.mpr ⟨layer, hlayer, ?_⟩⟩
    simp only [count, hn, Except.toOption, Option.getD_some]
  · rw [OrderedDict.keys, hstored, hkeys]

/-- Cursors after the data files of the first `i` chunks. -/
def DataCursors (l : HMALayout) (i : Nat) (cursors : Cursors) : Prop :=
  (∀ g ∈ l.groups, ∀ layer ∈ g.layers, cursors.get? (g.groupIndex, layer.name) =
    if g.reusePolicy = .full ∧ 0 < i then
      some (i * (l.chunkTokens / g.logicalTokensPerPage)) else none) ∧
    ∀ k ∉ l.layerKeys, cursors.get? k = none

private theorem dataCursors_empty (l : HMALayout) : l.DataCursors 0 .empty := by
  refine ⟨?_, fun k _ ↦ rfl⟩
  intro g _ layer _
  rw [if_neg (fun h ↦ absurd h.2 (Nat.lt_irrefl 0))]
  rfl

private theorem mem_slices {span : Nat} {kind : FileKind} {s : PageSlice} :
    s ∈ (l.groups.flatMap fun g ↦ g.slices l.chunkTokens span kind) ↔
      ∃ g ∈ l.groups, ∃ layer ∈ g.layers, decide (g.reusePolicy = .full) = decide (kind = .data) ∧
        ∃ start count, g.sliceRange l.chunkTokens span kind = .ok (start, count) ∧
          s = ⟨g.groupIndex, layer.name, start, count, count * layer.pageSizeBytes⟩ := by
  rw [List.mem_flatMap]
  constructor
  · rintro ⟨g, hg, hs⟩
    unfold GroupGeometry.slices at hs
    split at hs
    · cases hs
    · next hk =>
      split at hs
      · cases hs
      · next start count hr =>
        obtain ⟨layer, hlayer, rfl⟩ := List.mem_map.mp hs
        exact ⟨g, hg, layer, hlayer, not_not.mp hk, start, count, hr, rfl⟩
  · rintro ⟨g, hg, layer, hlayer, hk, start, count, hr, rfl⟩
    refine ⟨g, hg, ?_⟩
    unfold GroupGeometry.slices
    rw [if_neg (not_not.mpr hk), hr]
    exact List.mem_map.mpr ⟨layer, hlayer, rfl⟩

/-- The layers of a file are those of its kind whose range exists. -/
theorem mem_slices_keys {span : Nat} {kind : FileKind} {g : GroupGeometry} (hg : g ∈ l.groups)
    {layer : LayerGeometry} (hlayer : layer ∈ g.layers) :
    (g.groupIndex, layer.name) ∈
        (l.groups.flatMap fun g ↦ g.slices l.chunkTokens span kind).map PageSlice.layerKey ↔
      decide (g.reusePolicy = .full) = decide (kind = .data) ∧
        ∃ start count, g.sliceRange l.chunkTokens span kind = .ok (start, count) := by
  rw [List.mem_map]
  constructor
  · rintro ⟨s, hs, hkey⟩
    obtain ⟨g', hg', layer', hlayer', hk, start, count, hr, rfl⟩ := mem_slices.mp hs
    have hgg := groupIndex_inj hg' hg (congrArg Prod.fst hkey)
    subst hgg
    exact ⟨hk, start, count, hr⟩
  · rintro ⟨hk, start, count, hr⟩
    exact ⟨_, mem_slices.mpr ⟨g, hg, layer, hlayer, hk, start, count, hr, rfl⟩, rfl⟩

/-- One more data file advances every full layer by a chunk. -/
theorem foldlM_data {counts : List Nat} {span i : Nat}
    (hc : l.selectedPageCounts span = .ok counts) {cursors : Cursors}
    (h : l.DataCursors i cursors) :
    ∃ cursors', (l.groups.flatMap fun g ↦
        g.slices l.chunkTokens ((i + 1) * l.chunkTokens) .data).foldlM
          (coverSlice (l.expectedLayers counts)) cursors = .ok cursors' ∧
      l.DataCursors (i + 1) cursors' := by
  have hrange : ∀ g ∈ l.groups, g.reusePolicy = .full →
      g.sliceRange l.chunkTokens ((i + 1) * l.chunkTokens) .data =
        .ok (i * (l.chunkTokens / g.logicalTokensPerPage),
          l.chunkTokens / g.logicalTokensPerPage) := by
    intro g hg hfull
    have hdvd : g.logicalTokensPerPage ∣ l.chunkTokens :=
      (page_dvd_alignmentTokens hg (by rw [hfull]; exact nofun)).trans
        l.alignmentTokens_dvd_chunkTokens
    rw [GroupGeometry.sliceRange, Nat.succ_mul, Nat.add_sub_cancel, Nat.mul_div_assoc _ hdvd]
  have hkind : ∀ g : GroupGeometry, decide (g.reusePolicy = .full) =
      decide (FileKind.data = FileKind.data) ↔ g.reusePolicy = .full := by
    intro g
    simp
  obtain ⟨cursors', hf, hin, hout⟩ := foldlM_coverSlice (l.expectedLayers counts) cursors
    (l.nodup_slices ((i + 1) * l.chunkTokens) .data) (by
      intro s hs
      obtain ⟨g, hg, layer, hlayer, hk, start, count, hr, rfl⟩ := mem_slices.mp hs
      have hfull := (hkind g).mp hk
      rw [hrange g hg hfull] at hr
      cases hr
      refine ⟨?_, ?_⟩
      · change _ = (cursors.get? (g.groupIndex, layer.name)).getD 0
        rw [h.1 g hg layer hlayer]
        by_cases hi : 0 < i
        · rw [if_pos ⟨hfull, hi⟩]
          rfl
        · rw [if_neg (fun hh ↦ hi hh.2)]
          have hi0 : i = 0 := by omega
          rw [hi0]
          exact Nat.zero_mul _
      · obtain ⟨n, -, he⟩ := (get?_expectedLayers hc).1 g hg layer hlayer
        exact ⟨n, layer.pageSizeBytes, he, rfl⟩)
  refine ⟨cursors', hf, ?_, ?_⟩
  · intro g hg layer hlayer
    by_cases hfull : g.reusePolicy = .full
    · rw [if_pos ⟨hfull, Nat.succ_pos i⟩]
      have hs := hin _ (mem_slices.mpr ⟨g, hg, layer, hlayer, (hkind g).mpr hfull, _, _,
        hrange g hg hfull, rfl⟩)
      rw [show (g.groupIndex, layer.name) = PageSlice.layerKey ⟨g.groupIndex, layer.name,
        i * (l.chunkTokens / g.logicalTokensPerPage), l.chunkTokens / g.logicalTokensPerPage,
        l.chunkTokens / g.logicalTokensPerPage * layer.pageSizeBytes⟩ from rfl, hs, Nat.succ_mul]
    · rw [if_neg (fun hh ↦ hfull hh.1), hout, h.1 g hg layer hlayer,
        if_neg (fun hh ↦ hfull hh.1)]
      rw [mem_slices_keys hg hlayer, hkind]
      exact fun hh ↦ hfull hh.1
  · intro k hk
    rw [hout, h.2 k hk]
    intro hmem
    obtain ⟨s, hs, rfl⟩ := List.mem_map.mp hmem
    obtain ⟨g, hg, layer, hlayer, -, start, count, -, rfl⟩ := mem_slices.mp hs
    exact hk (mem_layerKeys.mpr ⟨g, hg, layer, hlayer, rfl⟩)

private theorem foldlM_dataFiles {counts : List Nat} {span : Nat}
    (hc : l.selectedPageCounts span = .ok counts) (n : Nat) :
    ∃ cursors, ((List.range n).flatMap fun i ↦ l.groups.flatMap fun g ↦
        g.slices l.chunkTokens ((i + 1) * l.chunkTokens) .data).foldlM
          (coverSlice (l.expectedLayers counts)) .empty = .ok cursors ∧
      l.DataCursors n cursors := by
  induction n with
  | zero => exact ⟨.empty, rfl, l.dataCursors_empty⟩
  | succ n ih =>
    obtain ⟨cursors, hf, hcur⟩ := ih
    obtain ⟨cursors', hf', hcur'⟩ := foldlM_data hc hcur
    refine ⟨cursors', ?_, hcur'⟩
    rw [List.range_succ, List.flatMap_append, List.flatMap_singleton, List.foldlM_append, hf]
    exact hf'

/-- The state file adds the selected pages of every other layer. -/
theorem foldlM_state {counts : List Nat} {span i : Nat}
    (hc : l.selectedPageCounts span = .ok counts) {cursors : Cursors}
    (h : l.DataCursors i cursors) :
    ∃ cursors', (l.groups.flatMap fun g ↦ g.slices l.chunkTokens span .state).foldlM
          (coverSlice (l.expectedLayers counts)) cursors = .ok cursors' ∧
      (∀ g ∈ l.groups, ∀ layer ∈ g.layers, g.reusePolicy ≠ .full → ∀ count,
        g.selectedPageCount span = .ok count →
        cursors'.get? (g.groupIndex, layer.name) = some count) ∧
      (∀ g ∈ l.groups, ∀ layer ∈ g.layers, g.reusePolicy = .full →
        cursors'.get? (g.groupIndex, layer.name) = cursors.get? (g.groupIndex, layer.name)) ∧
      ∀ k ∉ l.layerKeys, cursors'.get? k = none := by
  have hkind : ∀ g : GroupGeometry, decide (g.reusePolicy = .full) =
      decide (FileKind.state = FileKind.data) ↔ g.reusePolicy ≠ .full := by
    intro g
    simp
  have hrange : ∀ (g : GroupGeometry) (start count : Nat),
      g.sliceRange l.chunkTokens span .state = .ok (start, count) ↔
        start = 0 ∧ g.selectedPageCount span = .ok count := by
    intro g start count
    unfold GroupGeometry.sliceRange
    cases g.selectedPageCount span with
    | error e => simp [bind, Except.bind]
    | ok m => simp [bind, Except.bind, pure, Except.pure, eq_comm]
  obtain ⟨cursors', hf, hin, hout⟩ := foldlM_coverSlice (l.expectedLayers counts) cursors
    (l.nodup_slices span .state) (by
      intro s hs
      obtain ⟨g, hg, layer, hlayer, hk, start, count, hr, rfl⟩ := mem_slices.mp hs
      refine ⟨?_, ?_⟩
      · change start = (cursors.get? (g.groupIndex, layer.name)).getD 0
        rw [h.1 g hg layer hlayer, if_neg (fun hh ↦ (hkind g).mp hk hh.1)]
        exact ((hrange g start count).mp hr).1
      · obtain ⟨n, -, he⟩ := (get?_expectedLayers hc).1 g hg layer hlayer
        exact ⟨n, layer.pageSizeBytes, he, rfl⟩)
  refine ⟨cursors', hf, ?_, ?_, ?_⟩
  · intro g hg layer hlayer hne count hcount
    have hs := hin _ (mem_slices.mpr ⟨g, hg, layer, hlayer, (hkind g).mpr hne, 0, count,
      (hrange g 0 count).mpr ⟨rfl, hcount⟩, rfl⟩)
    rw [show (g.groupIndex, layer.name) = PageSlice.layerKey ⟨g.groupIndex, layer.name, 0, count,
      count * layer.pageSizeBytes⟩ from rfl, hs, Nat.zero_add]
  · intro g hg layer hlayer hfull
    rw [hout]
    rw [mem_slices_keys hg hlayer, hkind]
    exact fun hh ↦ hh.1 hfull
  · intro k hk
    rw [hout, h.2 k hk]
    intro hmem
    obtain ⟨s, hs, rfl⟩ := List.mem_map.mp hmem
    obtain ⟨g, hg, layer, hlayer, -, start, count, -, rfl⟩ := mem_slices.mp hs
    exact hk (mem_layerKeys.mpr ⟨g, hg, layer, hlayer, rfl⟩)

/-- The slices of a whole chain: its data files in order, then its state file if there is one. -/
def chainSlices (l : HMALayout) (n : Nat) : List PageSlice :=
  ((List.range n).flatMap fun i ↦ l.groups.flatMap fun g ↦
    g.slices l.chunkTokens ((i + 1) * l.chunkTokens) .data) ++
  if l.hasBoundaryState then
    l.groups.flatMap fun g ↦ g.slices l.chunkTokens (n * l.chunkTokens) .state
  else []

/-- A full group needs every page below an aligned span. -/
theorem selectedPageCount_full {g : GroupGeometry} (hg : g ∈ l.groups)
    (hfull : g.reusePolicy = .full) {n count : Nat}
    (h : g.selectedPageCount (n * l.chunkTokens) = .ok count) :
    count = n * (l.chunkTokens / g.logicalTokensPerPage) := by
  have hdvd : g.logicalTokensPerPage ∣ l.chunkTokens :=
    (page_dvd_alignmentTokens hg (by rw [hfull]; exact nofun)).trans
      l.alignmentTokens_dvd_chunkTokens
  unfold GroupGeometry.selectedPageCount at h
  split at h
  · cases h
  · rw [hfull, if_neg (by simp)] at h
    split at h
    · cases h
    · cases h
      rw [Nat.mul_div_assoc _ hdvd]

/-- A span of whole chunks selects pages in every group when its state file can be cut. -/
theorem selectedPageCounts_ok {n : Nat} (hn : 0 < n)
    (hstate : l.hasBoundaryState = true →
      ∃ segments, l.segments (n * l.chunkTokens) .state = .ok segments) :
    ∃ counts, l.selectedPageCounts (n * l.chunkTokens) = .ok counts := by
  unfold selectedPageCounts
  rw [exists_mapM_ok_iff]
  intro g hg
  by_cases hfull : g.reusePolicy = .full
  · have hdvd : g.logicalTokensPerPage ∣ l.chunkTokens :=
      (page_dvd_alignmentTokens hg (by rw [hfull]; exact nofun)).trans
        l.alignmentTokens_dvd_chunkTokens
    have hspan : n * l.chunkTokens ≠ 0 := (Nat.mul_pos hn l.chunkTokens_pos).ne'
    have halign : n * l.chunkTokens % g.logicalTokensPerPage = 0 :=
      Nat.mod_eq_zero_of_dvd (hdvd.mul_left n)
    unfold GroupGeometry.selectedPageCount
    rw [if_neg hspan, hfull, if_neg (by simp), if_neg (by simpa using halign)]
    exact ⟨_, rfl⟩
  · have hb : l.hasBoundaryState = true := List.any_eq_true.mpr ⟨g, hg, decide_eq_true hfull⟩
    obtain ⟨segments, hs⟩ := hstate hb
    obtain ⟨slices, hslices, -⟩ := bind_ok hs
    obtain ⟨own, hown⟩ := (exists_mapM_ok_iff _ _).mp ⟨slices, hslices⟩ g hg
    unfold GroupGeometry.segments at hown
    rw [if_neg (by simp [hfull])] at hown
    obtain ⟨range, hrange, -⟩ := bind_ok hown
    obtain ⟨count, hcount, -⟩ := bind_ok hrange
    exact ⟨count, hcount⟩

/-- The coverage check accepts every whole chain. -/
theorem validateManifestCoverage_chain {n : Nat} (hn : 0 < n) {counts : List Nat}
    (hc : l.selectedPageCounts (n * l.chunkTokens) = .ok counts) :
    l.validateManifestCoverage (n * l.chunkTokens) (l.chainSlices n) = .ok () := by
  obtain ⟨hexpected, hkeys⟩ := get?_expectedLayers hc
  obtain ⟨cursors, hf, hdata⟩ := foldlM_dataFiles hc n
  -- the cursors end at the expected counts, on exactly the expected layers
  obtain ⟨final, hfinal, hcount, houter⟩ : ∃ final,
      (l.chainSlices n).foldlM (coverSlice (l.expectedLayers counts)) .empty = .ok final ∧
      (∀ g ∈ l.groups, ∀ layer ∈ g.layers, ∀ count,
        g.selectedPageCount (n * l.chunkTokens) = .ok count →
        final.get? (g.groupIndex, layer.name) = some count) ∧
      ∀ k ∉ l.layerKeys, final.get? k = none := by
    unfold chainSlices
    rw [List.foldlM_append, hf]
    by_cases hb : l.hasBoundaryState = true
    · rw [if_pos hb]
      obtain ⟨final, hfinal, hstate, hkeep, hnone⟩ := foldlM_state hc hdata
      refine ⟨final, hfinal, ?_, hnone⟩
      intro g hg layer hlayer count hcount
      by_cases hfull : g.reusePolicy = .full
      · rw [hkeep g hg layer hlayer hfull, hdata.1 g hg layer hlayer, if_pos ⟨hfull, hn⟩,
          selectedPageCount_full hg hfull hcount]
      · exact hstate g hg layer hlayer hfull count hcount
    · rw [if_neg hb]
      refine ⟨cursors, rfl, ?_, hdata.2⟩
      intro g hg layer hlayer count hcount
      have hfull : g.reusePolicy = .full := by
        by_contra hne
        exact hb (List.any_eq_true.mpr ⟨g, hg, decide_eq_true hne⟩)
      rw [hdata.1 g hg layer hlayer, if_pos ⟨hfull, hn⟩, selectedPageCount_full hg hfull hcount]
  have hall : ∀ k ∈ l.layerKeys, ∃ entry, (l.expectedLayers counts).get? k = some entry ∧
      final.get? k = some entry.1 := by
    intro k hk
    obtain ⟨g, hg, layer, hlayer, rfl⟩ := mem_layerKeys.mp hk
    obtain ⟨count, hcnt, he⟩ := hexpected g hg layer hlayer
    exact ⟨_, he, hcount g hg layer hlayer count hcnt⟩
  unfold validateManifestCoverage
  simp only [hc, hfinal, bind, Except.bind]
  rw [if_neg, if_neg]
  · rfl
  · rintro ⟨e, he, hne⟩
    have hk : e.1 ∈ l.layerKeys := by
      rw [← hkeys]
      exact List.mem_map_of_mem he
    obtain ⟨entry, hentry, hfin⟩ := hall e.1 hk
    have hsame : entry = e.2 := by
      have := (OrderedDict.get?_eq_some_iff _ e.1 e.2).mpr he
      rw [hentry] at this
      exact Option.some.inj this
    exact hne (by rw [hfin, hsame])
  · rw [not_not, hkeys]
    refine ⟨?_, ?_⟩
    · intro k hk
      by_contra hnot
      have := (OrderedDict.get?_eq_none_iff _ k).mp (houter k hnot)
      exact this hk
    · intro k hk
      obtain ⟨entry, -, hfin⟩ := hall k hk
      exact (OrderedDict.mem_keys_iff _ k).mpr ⟨_, hfin⟩

end HMALayout

end SpoolCache.Layout

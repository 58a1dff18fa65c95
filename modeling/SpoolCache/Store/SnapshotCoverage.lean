import SpoolCache.Base.Tiling
import SpoolCache.Store.TokenFiles

/-!
# The coverage check is exact

`validate_manifest_coverage`, `hma.py:320–345`. The check keeps one cursor per layer. A cursor that
every slice of a layer has met was moved over a row of page ranges from zero, so what the check
accepts covers every page of every layer once.
-/

namespace SpoolCache.Store

open SpoolCache.Base SpoolCache.Layout

/-! ### The check -/

/-- `profile` and `layout_digest`, of a snapshot or of a worker, `manifest.py:113–114` and
`hma.py:201–225`. -/
structure LayoutIdentity where
  profile : String
  layoutDigest : Digest
  deriving DecidableEq

/-- The checks of `PageSlice`, `manifest.py:21–33`, on numbers that are not negative. -/
structure CheckedSlice (s : PageSlice) : Prop where
  pageCount_pos : 0 < s.pageCount
  byteLength_pos : 0 < s.byteLength
  layerName_ne : s.layerName ≠ ""
  layerName_le : s.layerName.length ≤ 512

/-- The slices of a snapshot, in the order of its files. -/
def TokenSnapshot.slices (snapshot : TokenSnapshot) : List PageSlice :=
  snapshot.objects.flatMap TokenFileDescriptor.segments

/-- `validate_manifest_coverage`, `hma.py:320–345`, of a worker with this identity. -/
def validateManifestCoverage (l : HMALayout) (worker found : LayoutIdentity)
    (snapshot : TokenSnapshot) : Except PyError Unit :=
  if found.profile ≠ worker.profile ∨ found.layoutDigest ≠ worker.layoutDigest then
    .error (.layoutError "manifest layout identity differs from this worker")
  else l.validateManifestCoverage snapshot.spanTokens snapshot.slices

/-! ### Cursors and rows -/

/-- The page ranges of the slices that name a layer, in their order. -/
def ranges (key : Nat × String) (slices : List PageSlice) : List (Nat × Nat) :=
  (slices.filter fun s ↦ decide (s.layerKey = key)).map fun s ↦ (s.pageStart, s.pageCount)

private theorem ranges_cons_pos {key : Nat × String} {s : PageSlice} (h : s.layerKey = key)
    (slices : List PageSlice) :
    ranges key (s :: slices) = (s.pageStart, s.pageCount) :: ranges key slices := by
  unfold ranges
  rw [List.filter_cons_of_pos (by exact decide_eq_true h), List.map_cons]

private theorem ranges_cons_neg {key : Nat × String} {s : PageSlice} (h : s.layerKey ≠ key)
    (slices : List PageSlice) : ranges key (s :: slices) = ranges key slices := by
  unfold ranges
  rw [List.filter_cons_of_neg (by simpa using h)]

private theorem ranges_append (key : Nat × String) (a b : List PageSlice) :
    ranges key (a ++ b) = ranges key a ++ ranges key b := by
  unfold ranges
  rw [List.filter_append, List.map_append]

private theorem ranges_eq_nil_iff {key : Nat × String} {slices : List PageSlice} :
    ranges key slices = [] ↔ key ∉ slices.map PageSlice.layerKey := by
  unfold ranges
  rw [List.map_eq_nil_iff, List.filter_eq_nil_iff, List.mem_map]
  simp

private theorem ranges_perm {key : Nat × String} {a b : List PageSlice} (h : a.Perm b) :
    (ranges key a).Perm (ranges key b) := (h.filter _).map _

private theorem mem_ranges {key : Nat × String} {slices : List PageSlice} {i : Nat × Nat}
    (h : i ∈ ranges key slices) :
    ∃ s ∈ slices, s.layerKey = key ∧ i = (s.pageStart, s.pageCount) := by
  obtain ⟨s, hs, rfl⟩ := List.mem_map.mp h
  obtain ⟨hs, hkey⟩ := List.mem_filter.mp hs
  exact ⟨s, hs, of_decide_eq_true hkey, rfl⟩

private theorem mem_ranges_of_mem {key : Nat × String} {slices : List PageSlice} {s : PageSlice}
    (hs : s ∈ slices) (hkey : s.layerKey = key) :
    (s.pageStart, s.pageCount) ∈ ranges key slices :=
  List.mem_map.mpr ⟨s, List.mem_filter.mpr ⟨hs, decide_eq_true hkey⟩, rfl⟩

/-- A slice is as long as the check wants it for its layer. -/
def Sized (expected : OrderedDict (Nat × String) (Nat × Nat)) (s : PageSlice) : Prop :=
  ∃ count size, expected.get? s.layerKey = some (count, size) ∧ s.byteLength = s.pageCount * size

variable {expected : OrderedDict (Nat × String) (Nat × Nat)}

private theorem coverSlice_ok_iff {cursors cursors' : Cursors} {s : PageSlice} :
    coverSlice expected cursors s = .ok cursors' ↔
      Sized expected s ∧ s.pageStart = (cursors.get? s.layerKey).getD 0 ∧
        cursors' = cursors.set s.layerKey (s.pageStart + s.pageCount) := by
  unfold coverSlice Sized
  cases hexpected : expected.get? s.layerKey with
  | none => exact ⟨fun h ↦ (by cases h), fun ⟨⟨_, _, h, _⟩, _⟩ ↦ (by cases h)⟩
  | some entry =>
    obtain ⟨count, size⟩ := entry
    dsimp only
    constructor
    · intro h
      split at h
      · cases h
      split at h
      · cases h
      next hstart hlength =>
      cases h
      exact ⟨⟨count, size, rfl, not_not.mp hlength⟩, not_not.mp hstart, rfl⟩
    · rintro ⟨⟨count', size', hsame, hlength⟩, hstart, rfl⟩
      cases hsame
      rw [if_neg (not_not.mpr hstart), if_neg (not_not.mpr hlength)]

/-- What the walk has accepted are rows from the first cursors to the last ones. -/
theorem foldlM_coverSlice_ok {slices : List PageSlice} {cursors cursors' : Cursors}
    (h : slices.foldlM (coverSlice expected) cursors = .ok cursors') :
    (∀ s ∈ slices, Sized expected s) ∧
      (∀ key, Tiles ((cursors.get? key).getD 0) ((cursors'.get? key).getD 0)
        (ranges key slices)) ∧
      ∀ key, key ∈ cursors'.keys ↔ key ∈ cursors.keys ∨ key ∈ slices.map PageSlice.layerKey := by
  induction slices generalizing cursors with
  | nil =>
    cases h
    exact ⟨fun s hs ↦ (by cases hs), fun key ↦ rfl, fun key ↦ by simp⟩
  | cons s slices ih =>
    rw [List.foldlM_cons] at h
    obtain ⟨next, hnext, hrest⟩ := bind_ok h
    obtain ⟨hsized, hstart, rfl⟩ := coverSlice_ok_iff.mp hnext
    obtain ⟨hall, htiles, hkeys⟩ := ih hrest
    refine ⟨fun t ht ↦ ?_, fun key ↦ ?_, fun key ↦ ?_⟩
    · rcases List.mem_cons.mp ht with rfl | ht
      · exact hsized
      · exact hall t ht
    · have hrow := htiles key
      by_cases hkey : s.layerKey = key
      · rw [OrderedDict.get?_set, if_pos hkey.symm, Option.getD_some] at hrow
        rw [ranges_cons_pos hkey, ← hkey, ← hstart, hkey]
        exact ⟨rfl, hrow⟩
      · rw [OrderedDict.get?_set, if_neg (Ne.symm hkey)] at hrow
        rw [ranges_cons_neg hkey]
        exact hrow
    · rw [hkeys key, OrderedDict.mem_keys_set, List.map_cons, List.mem_cons]
      tauto

/-- Rows of sized slices make the walk return. -/
theorem foldlM_coverSlice_of_tiles {slices : List PageSlice} {cursors : Cursors}
    (hsized : ∀ s ∈ slices, Sized expected s)
    (htiles : ∀ key, ∃ b, Tiles ((cursors.get? key).getD 0) b (ranges key slices)) :
    ∃ cursors', slices.foldlM (coverSlice expected) cursors = .ok cursors' := by
  induction slices generalizing cursors with
  | nil => exact ⟨cursors, rfl⟩
  | cons s slices ih =>
    obtain ⟨b, hrow⟩ := htiles s.layerKey
    rw [ranges_cons_pos rfl] at hrow
    have hnext := coverSlice_ok_iff.mpr ⟨hsized s List.mem_cons_self, hrow.1, rfl⟩
    rw [List.foldlM_cons, hnext, ok_bind]
    refine ih (fun t ht ↦ hsized t (List.mem_cons_of_mem _ ht)) fun key ↦ ?_
    by_cases hkey : s.layerKey = key
    · subst hkey
      rw [OrderedDict.get?_set, if_pos rfl, Option.getD_some]
      obtain ⟨hstart, hrow⟩ := hrow
      have hstart : s.pageStart = (cursors.get? s.layerKey).getD 0 := hstart
      rw [hstart]
      exact ⟨b, hrow⟩
    · obtain ⟨b', hrow'⟩ := htiles key
      rw [ranges_cons_neg hkey] at hrow'
      rw [OrderedDict.get?_set, if_neg (Ne.symm hkey)]
      exact ⟨b', hrow'⟩

/-! ### What the check accepts -/

/-- Every slice names a layer, and the slices of each layer are a row over its selected pages, each
as long as its pages. -/
structure Covered (l : HMALayout) (snapshot : TokenSnapshot) : Prop where
  names : ∀ s ∈ snapshot.slices, ∃ g ∈ l.groups, ∃ layer ∈ g.layers,
    s.groupIndex = g.groupIndex ∧ s.layerName = layer.name
  tiles : ∀ g ∈ l.groups, ∀ layer ∈ g.layers, ∀ count,
    g.selectedPageCount snapshot.spanTokens = .ok count →
    Tiles 0 count (ranges (g.groupIndex, layer.name) snapshot.slices)
  sizes : ∀ g ∈ l.groups, ∀ layer ∈ g.layers, ∀ s ∈ snapshot.slices,
    s.layerKey = (g.groupIndex, layer.name) → s.byteLength = s.pageCount * layer.pageSizeBytes

/-- Every group that has layers selects a page. -/
def SelectsPages (l : HMALayout) (spanTokens : Nat) : Prop :=
  ∀ g ∈ l.groups, g.layers ≠ [] → ∀ count, g.selectedPageCount spanTokens = .ok count → 0 < count

variable {l : HMALayout} {snapshot : TokenSnapshot} {counts : List Nat}

private theorem names_iff {s : PageSlice} : s.layerKey ∈ l.layerKeys ↔
      ∃ g ∈ l.groups, ∃ layer ∈ g.layers,
    s.groupIndex = g.groupIndex ∧ s.layerName = layer.name := by
  rw [HMALayout.mem_layerKeys]
  constructor
  · rintro ⟨g, hg, layer, hlayer, hkey⟩
    exact ⟨g, hg, layer, hlayer, (congrArg Prod.fst hkey).symm, (congrArg Prod.snd hkey).symm⟩
  · rintro ⟨g, hg, layer, hlayer, hindex, hname⟩
    exact ⟨g, hg, layer, hlayer, Prod.ext hindex.symm hname.symm⟩

/-- The end of the check: the cursors have met the counts of exactly the layers. -/
theorem validateManifestCoverage_ok_iff {slices : List PageSlice} {span : Nat}
    (hc : l.selectedPageCounts span = .ok counts) :
    l.validateManifestCoverage span slices = .ok () ↔
      ∃ cursors, slices.foldlM (coverSlice (l.expectedLayers counts)) .empty = .ok cursors ∧
        (∀ key, key ∈ cursors.keys ↔ key ∈ l.layerKeys) ∧
        ∀ g ∈ l.groups, ∀ layer ∈ g.layers, ∀ count, g.selectedPageCount span = .ok count →
          cursors.get? (g.groupIndex, layer.name) = some count := by
  obtain ⟨hexpected, hkeys⟩ := HMALayout.get?_expectedLayers hc
  have hitems : ∀ cursors : Cursors, (∀ g ∈ l.groups, ∀ layer ∈ g.layers, ∀ count,
      g.selectedPageCount span = .ok count →
      cursors.get? (g.groupIndex, layer.name) = some count) ↔
      ¬ ∃ e ∈ (l.expectedLayers counts).items, cursors.get? e.1 ≠ some e.2.1 := by
    intro cursors
    constructor
    · rintro h ⟨e, he, hne⟩
      have hkey : e.1 ∈ l.layerKeys := hkeys ▸ List.mem_map_of_mem he
      obtain ⟨g, hg, layer, hlayer, hk⟩ := HMALayout.mem_layerKeys.mp hkey
      obtain ⟨count, hcount, hget⟩ := hexpected g hg layer hlayer
      have hsame := (OrderedDict.get?_eq_some_iff _ e.1 e.2).mpr he
      rw [← hk, hget] at hsame
      rw [← Option.some.inj hsame, ← hk] at hne
      exact hne (h g hg layer hlayer count hcount)
    · intro h g hg layer hlayer count hcount
      by_contra hne
      obtain ⟨count', hcount', hget⟩ := hexpected g hg layer hlayer
      rw [hcount] at hcount'
      cases hcount'
      exact h ⟨_, (OrderedDict.get?_eq_some_iff _ _ _).mp hget, hne⟩
  unfold HMALayout.validateManifestCoverage
  rw [hc, ok_bind]
  dsimp only
  constructor
  · intro h
    obtain ⟨cursors, hfold, h⟩ := bind_ok h
    split at h
    · cases h
    split at h
    · cases h
    next hsame hall =>
    rw [not_not, hkeys] at hsame
    exact ⟨cursors, hfold, fun key ↦ ⟨fun hk ↦ hsame.1 hk, fun hk ↦ hsame.2 hk⟩,
      (hitems cursors).mpr hall⟩
  · rintro ⟨cursors, hfold, hsame, hall⟩
    rw [hfold, ok_bind, if_neg, if_neg ((hitems cursors).mp hall)]
    · rfl
    · rw [not_not, hkeys]
      exact ⟨fun key hk ↦ (hsame key).mp hk, fun key hk ↦ (hsame key).mpr hk⟩

private theorem exists_count (hc : l.selectedPageCounts snapshot.spanTokens = .ok counts)
    {g : GroupGeometry} (hg : g ∈ l.groups) :
    ∃ count, g.selectedPageCount snapshot.spanTokens = .ok count :=
  (exists_mapM_ok_iff _ _).mp ⟨counts, hc⟩ g hg

/-- The check accepts exactly the covered slices, of layers that select pages. -/
theorem covered_iff (hc : l.selectedPageCounts snapshot.spanTokens = .ok counts)
    (hslices : ∀ s ∈ snapshot.slices, CheckedSlice s) :
    l.validateManifestCoverage snapshot.spanTokens snapshot.slices = .ok () ↔
      Covered l snapshot ∧ SelectsPages l snapshot.spanTokens := by
  obtain ⟨hexpected, hkeys⟩ := HMALayout.get?_expectedLayers hc
  rw [validateManifestCoverage_ok_iff hc]
  constructor
  · rintro ⟨cursors, hfold, hsame, hcount⟩
    obtain ⟨hsized, htiles, hmem⟩ := foldlM_coverSlice_ok hfold
    have hempty : ∀ key, ((OrderedDict.empty : Cursors).get? key).getD 0 = 0 := fun _ ↦ rfl
    have hnamed : ∀ key, key ∈ l.layerKeys ↔ key ∈ snapshot.slices.map PageSlice.layerKey := by
      intro key
      rw [← hsame key, hmem key, OrderedDict.keys_empty]
      simp
    have hrow : ∀ g ∈ l.groups, ∀ layer ∈ g.layers, ∀ count,
        g.selectedPageCount snapshot.spanTokens = .ok count →
        Tiles 0 count (ranges (g.groupIndex, layer.name) snapshot.slices) := by
      intro g hg layer hlayer count hn
      have hrow := htiles (g.groupIndex, layer.name)
      rwa [hempty, hcount g hg layer hlayer count hn] at hrow
    refine ⟨⟨fun s hs ↦ ?_, hrow, fun g hg layer hlayer s hs hkey ↦ ?_⟩,
      fun g hg hlayers count hn ↦ ?_⟩
    · exact names_iff.mp ((hnamed _).mpr (List.mem_map_of_mem hs))
    · obtain ⟨count, size, hget, hlength⟩ := hsized s hs
      obtain ⟨count', -, hget'⟩ := hexpected g hg layer hlayer
      rw [hkey, hget'] at hget
      cases hget
      exact hlength
    · obtain ⟨layer, hlayer⟩ := List.exists_mem_of_ne_nil _ hlayers
      have hkey := (hnamed (g.groupIndex, layer.name)).mp
        (HMALayout.mem_layerKeys.mpr ⟨g, hg, layer, hlayer, rfl⟩)
      obtain ⟨s, hs, hskey⟩ := List.mem_map.mp hkey
      have hbounds := (hrow g hg layer hlayer count hn).bounds (mem_ranges_of_mem hs hskey)
      have := (hslices s hs).pageCount_pos
      dsimp only at hbounds
      omega
  · rintro ⟨hcovered, hselects⟩
    have hsized : ∀ s ∈ snapshot.slices, Sized (l.expectedLayers counts) s := by
      intro s hs
      obtain ⟨g, hg, layer, hlayer, hindex, hname⟩ := hcovered.names s hs
      obtain ⟨count, -, hget⟩ := hexpected g hg layer hlayer
      have hkey : s.layerKey = (g.groupIndex, layer.name) := Prod.ext hindex hname
      exact ⟨count, layer.pageSizeBytes, hkey ▸ hget,
        hcovered.sizes g hg layer hlayer s hs hkey⟩
    have htiles : ∀ key, ∃ b, Tiles (((OrderedDict.empty : Cursors).get? key).getD 0) b
        (ranges key snapshot.slices) := by
      intro key
      by_cases hkey : key ∈ l.layerKeys
      · obtain ⟨g, hg, layer, hlayer, rfl⟩ := HMALayout.mem_layerKeys.mp hkey
        obtain ⟨count, hn⟩ := exists_count hc hg
        exact ⟨count, hcovered.tiles g hg layer hlayer count hn⟩
      · refine ⟨0, ?_⟩
        rw [ranges_eq_nil_iff.mpr]
        · rfl
        · intro hmem
          obtain ⟨s, hs, rfl⟩ := List.mem_map.mp hmem
          exact hkey (names_iff.mpr (hcovered.names s hs))
    obtain ⟨cursors, hfold⟩ := foldlM_coverSlice_of_tiles hsized htiles
    obtain ⟨-, hrows, hmem⟩ := foldlM_coverSlice_ok hfold
    have hmem' : ∀ key, key ∈ cursors.keys ↔ key ∈ snapshot.slices.map PageSlice.layerKey := by
      intro key
      rw [hmem key, OrderedDict.keys_empty]
      simp
    have hlayers : ∀ g ∈ l.groups, ∀ layer ∈ g.layers, ∀ count,
        g.selectedPageCount snapshot.spanTokens = .ok count →
        cursors.get? (g.groupIndex, layer.name) = some count := by
      intro g hg layer hlayer count hn
      have hrow := hcovered.tiles g hg layer hlayer count hn
      have hend := hrow.end_unique (hrows (g.groupIndex, layer.name))
      have hpos := hselects g hg (List.ne_nil_of_mem hlayer) count hn
      cases hget : cursors.get? (g.groupIndex, layer.name) with
      | none =>
        rw [hget, Option.getD_none] at hend
        omega
      | some b =>
        rw [hget, Option.getD_some] at hend
        rw [hend]
    refine ⟨cursors, hfold, fun key ↦ ⟨fun hk ↦ ?_, fun hk ↦ ?_⟩, hlayers⟩
    · obtain ⟨s, hs, rfl⟩ := List.mem_map.mp ((hmem' key).mp hk)
      exact names_iff.mpr (hcovered.names s hs)
    · obtain ⟨g, hg, layer, hlayer, rfl⟩ := HMALayout.mem_layerKeys.mp hk
      obtain ⟨count, hn⟩ := exists_count hc hg
      exact (OrderedDict.mem_keys_iff _ _).mpr ⟨count, hlayers g hg layer hlayer count hn⟩

/-! ### The whole check -/

private theorem validateManifestCoverage_iff {worker found : LayoutIdentity}
    (hc : l.selectedPageCounts snapshot.spanTokens = .ok counts)
    (hslices : ∀ s ∈ snapshot.slices, CheckedSlice s) :
    validateManifestCoverage l worker found snapshot = .ok () ↔
      found = worker ∧ Covered l snapshot ∧ SelectsPages l snapshot.spanTokens := by
  rw [← covered_iff hc hslices]
  unfold validateManifestCoverage
  split
  · next hdiffers =>
    refine ⟨fun h ↦ (by cases h), fun h ↦ ?_⟩
    rcases hdiffers with hne | hne
    · exact absurd (congrArg LayoutIdentity.profile h.1) hne
    · exact absurd (congrArg LayoutIdentity.layoutDigest h.1) hne
  · next hsame =>
    rw [not_or, not_not, not_not] at hsame
    obtain ⟨hprofile, hdigest⟩ := hsame
    have heq : found = worker := by
      cases found
      cases worker
      cases hprofile
      cases hdigest
      rfl
    exact ⟨fun h ↦ ⟨heq, h⟩, fun h ↦ h.2⟩

/-- The pages of a covered layer are in one slice each. -/
theorem Covered.once (h : Covered l snapshot) {g : GroupGeometry} (hg : g ∈ l.groups)
    {layer : LayerGeometry} (hlayer : layer ∈ g.layers) {count : Nat}
    (hn : g.selectedPageCount snapshot.spanTokens = .ok count) (page : Nat) :
    (ranges (g.groupIndex, layer.name) snapshot.slices).countP (covers page) =
      if page < count then 1 else 0 := by
  rw [(h.tiles g hg layer hlayer count hn).countP_covers page]
  simp

/-- With one more file that holds something, a covered snapshot is no longer covered. -/
theorem Covered.not_insert (hc : l.selectedPageCounts snapshot.spanTokens = .ok counts)
    (h : Covered l snapshot) {before after : List TokenFileDescriptor}
    (hobjects : snapshot.objects = before ++ after) {file : TokenFileDescriptor}
    (hfile : file.segments ≠ []) (hchecked : ∀ s ∈ file.segments, CheckedSlice s) :
    ¬ Covered l { snapshot with objects := before ++ file :: after } := by
  intro hmore
  obtain ⟨s, hs⟩ := List.exists_mem_of_ne_nil _ hfile
  have hslices : snapshot.slices = before.flatMap TokenFileDescriptor.segments ++
      after.flatMap TokenFileDescriptor.segments := by
    unfold TokenSnapshot.slices
    rw [hobjects, List.flatMap_append]
  have hslices' : ({ snapshot with objects := before ++ file :: after } : TokenSnapshot).slices =
      before.flatMap TokenFileDescriptor.segments ++
        (file.segments ++ after.flatMap TokenFileDescriptor.segments) := by
    unfold TokenSnapshot.slices
    dsimp only
    rw [List.flatMap_append, List.flatMap_cons]
  have hmem : s ∈ ({ snapshot with objects := before ++ file :: after } : TokenSnapshot).slices := by
    rw [hslices']
    exact List.mem_append_right _ (List.mem_append_left _ hs)
  obtain ⟨g, hg, layer, hlayer, hindex, hname⟩ := hmore.names s hmem
  obtain ⟨count, hn⟩ := exists_count hc hg
  have hone := h.once hg hlayer hn s.pageStart
  have hone' := hmore.once hg hlayer hn s.pageStart
  have hpos : 0 < (ranges (g.groupIndex, layer.name) file.segments).countP (covers s.pageStart) := by
    refine List.countP_pos_iff.mpr ⟨_, mem_ranges_of_mem hs (Prod.ext hindex hname), ?_⟩
    have := (hchecked s hs).pageCount_pos
    unfold covers
    exact decide_eq_true ⟨le_refl _, by dsimp only; omega⟩
  rw [hslices, ranges_append, List.countP_append] at hone
  rw [hslices', ranges_append, ranges_append, List.countP_append, List.countP_append] at hone'
  omega

/-- Covered snapshots of the same files have the slices of each layer in the same order. -/
theorem Covered.ranges_eq_of_perm (hc : l.selectedPageCounts snapshot.spanTokens = .ok counts)
    (hchecked : ∀ s ∈ snapshot.slices, CheckedSlice s) (h : Covered l snapshot)
    {objects : List TokenFileDescriptor} (hperm : snapshot.objects.Perm objects)
    (h' : Covered l { snapshot with objects := objects }) {g : GroupGeometry} (hg : g ∈ l.groups)
    {layer : LayerGeometry} (hlayer : layer ∈ g.layers) :
    ranges (g.groupIndex, layer.name) snapshot.slices =
      ranges (g.groupIndex, layer.name) (objects.flatMap TokenFileDescriptor.segments) := by
  obtain ⟨count, hn⟩ := exists_count hc hg
  refine (h.tiles g hg layer hlayer count hn).eq_of_perm (h'.tiles g hg layer hlayer count hn)
    (fun i hi ↦ ?_) (ranges_perm (hperm.flatMap_right _))
  obtain ⟨s, hs, -, rfl⟩ := mem_ranges hi
  exact (hchecked s hs).pageCount_pos

/-- On a span whose pages can be counted, and slices that pass their own checks, the coverage check
returns exactly when the identities match, the slices of each layer are a row over its selected
pages, each as long as its pages, and no layer has nothing selected. Then every page is in one
slice and no other page in any; one more file that holds something, or another order of the slices
of a layer, is refused. -/
theorem coverage_check_exact (l : HMALayout) (worker found : LayoutIdentity)
    (snapshot : TokenSnapshot) {counts : List Nat}
    (hc : l.selectedPageCounts snapshot.spanTokens = .ok counts)
    (hslices : ∀ s ∈ snapshot.slices, CheckedSlice s) :
    (validateManifestCoverage l worker found snapshot = .ok () ↔
      found = worker ∧ Covered l snapshot ∧ SelectsPages l snapshot.spanTokens) ∧
    (validateManifestCoverage l worker found snapshot = .ok () →
      (∀ g ∈ l.groups, ∀ layer ∈ g.layers, ∀ count,
        g.selectedPageCount snapshot.spanTokens = .ok count → ∀ page,
        (ranges (g.groupIndex, layer.name) snapshot.slices).countP (covers page) =
          if page < count then 1 else 0) ∧
      (∀ before after file, snapshot.objects = before ++ after → file.segments ≠ [] →
        (∀ s ∈ file.segments, CheckedSlice s) →
        validateManifestCoverage l worker found
          { snapshot with objects := before ++ file :: after } ≠ .ok ()) ∧
      ∀ objects, snapshot.objects.Perm objects →
        validateManifestCoverage l worker found { snapshot with objects := objects } = .ok () →
        ∀ g ∈ l.groups, ∀ layer ∈ g.layers,
          ranges (g.groupIndex, layer.name) snapshot.slices =
            ranges (g.groupIndex, layer.name) (objects.flatMap TokenFileDescriptor.segments)) := by
  have hiff := @validateManifestCoverage_iff l snapshot counts worker found hc hslices
  refine ⟨hiff, fun hok ↦ ?_⟩
  obtain ⟨-, hcovered, -⟩ := hiff.mp hok
  refine ⟨fun g hg layer hlayer count hn page ↦ hcovered.once hg hlayer hn page,
    fun before after file hobjects hfile hchecked hok' ↦ ?_,
    fun objects hperm hok' g hg layer hlayer ↦ ?_⟩
  · have hall : ∀ s ∈ ({ snapshot with objects := before ++ file :: after } : TokenSnapshot).slices,
        CheckedSlice s := by
      intro s hmem
      obtain ⟨f, hf, hs⟩ := List.mem_flatMap.mp hmem
      rcases List.mem_append.mp hf with hf | hf
      · exact hslices s (List.mem_flatMap.mpr ⟨f, hobjects ▸ List.mem_append_left _ hf, hs⟩)
      · rcases List.mem_cons.mp hf with rfl | hf
        · exact hchecked s hs
        · exact hslices s (List.mem_flatMap.mpr ⟨f, hobjects ▸ List.mem_append_right _ hf, hs⟩)
    have hmore := (@validateManifestCoverage_iff l { snapshot with
      objects := before ++ file :: after } counts worker found hc hall).mp hok'
    exact hcovered.not_insert hc hobjects hfile hchecked hmore.2.1
  · have hall : ∀ s ∈ ({ snapshot with objects := objects } : TokenSnapshot).slices,
        CheckedSlice s := fun s hs ↦
      hslices s ((hperm.flatMap_right TokenFileDescriptor.segments).mem_iff.mpr hs)
    have hother := (@validateManifestCoverage_iff l { snapshot with objects := objects } counts
      worker found hc hall).mp hok'
    exact hcovered.ranges_eq_of_perm hc hslices hperm hother.2.1 hg hlayer

/-- A second layer, with pages of 32 bytes. -/
def narrowLayer : LayerGeometry := ⟨"narrow", 32, by decide, by decide, Nat.succ_pos _⟩

private theorem pairLayers_sorted :
    ([sampleLayer, narrowLayer].map LayerGeometry.name).Pairwise (· < ·) := by
  decide

/-- A full group of both layers. -/
def pairGroup : GroupGeometry :=
  { fullSampleGroup with
    layers := [sampleLayer, narrowLayer]
    layers_sorted := pairLayers_sorted }

def pairLayout : HMALayout :=
  ⟨[pairGroup], rfl, List.cons_ne_nil _ _, by decide⟩

/-- A file with one page of each layer. -/
def pairFile (page : Nat) : TokenFileDescriptor :=
  ⟨.ofNat page, none, 256 * (page + 1), [⟨0, "layer", page, 1, 64⟩, ⟨0, "narrow", page, 1, 32⟩],
    .data⟩

/-- Two pages of both layers, in two files. -/
def pairSnapshot : TokenSnapshot := ⟨.ofNat 1, 512, [pairFile 0, pairFile 1]⟩

/-- The two files pass, each page of a layer is in one slice of theirs, and the first file may not
come again. -/
theorem coverage_check_exact_pair :
    validateManifestCoverage pairLayout ⟨"profile", .ofNat 7⟩ ⟨"profile", .ofNat 7⟩
        pairSnapshot = .ok () ∧
      Covered pairLayout pairSnapshot ∧
      (ranges (0, "narrow") pairSnapshot.slices).countP (covers 1) = 1 ∧
      validateManifestCoverage pairLayout ⟨"profile", .ofNat 7⟩ ⟨"profile", .ofNat 7⟩
        { pairSnapshot with objects := [pairFile 0, pairFile 0, pairFile 1] } ≠ .ok () := by
  have hok : validateManifestCoverage pairLayout ⟨"profile", .ofNat 7⟩ ⟨"profile", .ofNat 7⟩
      pairSnapshot = .ok () := by decide +kernel
  have hfile : ∀ page, ∀ s ∈ (pairFile page).segments, CheckedSlice s := by
    intro page s hs
    rcases List.mem_pair.mp hs with rfl | rfl
    · exact ⟨Nat.one_pos, Nat.succ_pos _, sampleLayer.name_ne, sampleLayer.name_le⟩
    · exact ⟨Nat.one_pos, Nat.succ_pos _, narrowLayer.name_ne, narrowLayer.name_le⟩
  have hchecked : ∀ s ∈ pairSnapshot.slices, CheckedSlice s := by
    intro s hs
    obtain ⟨file, hmem, hs⟩ := List.mem_flatMap.mp hs
    rcases List.mem_pair.mp hmem with rfl | rfl
    · exact hfile 0 s hs
    · exact hfile 1 s hs
  obtain ⟨hiff, hrest⟩ := @coverage_check_exact pairLayout ⟨"profile", .ofNat 7⟩
    ⟨"profile", .ofNat 7⟩ pairSnapshot [2] (by decide +kernel) hchecked
  obtain ⟨honce, hinsert, -⟩ := hrest hok
  refine ⟨hok, (hiff.mp hok).2.1, ?_, ?_⟩
  · exact honce pairGroup List.mem_cons_self narrowLayer (List.mem_pair.mpr (.inr rfl)) 2
      (by decide +kernel) 1
  · exact hinsert [pairFile 0] [pairFile 1] (pairFile 0) rfl (List.cons_ne_nil _ _) (hfile 0)

/-- Pages so wide that the quotient of the window underflows. -/
def underflowGroup : GroupGeometry where
  groupIndex := 0
  blockSize := 2 ^ 1080
  dcpShardCount := 1
  logicalTokensPerPage := 2 ^ 1080
  reusePolicy := .sliding 2
  layers := [sampleLayer]
  blockSize_pos := Nat.two_pow_pos _
  dcpShardCount_pos := Nat.one_pos
  logical_eq := (Nat.mul_one _).symm
  window_gt := fun w h ↦ (by cases h; decide)
  layers_sorted := sampleLayer_sorted

def underflowLayout : HMALayout :=
  ⟨[underflowGroup], rfl, sampleLayer_ne_nil, sampleLayer_nodup⟩

/-- A layer of which nothing is selected is covered by no file, but the check wants one. -/
theorem coverage_check_wants_every_layer :
    ¬ ∀ (l : HMALayout) (worker found : LayoutIdentity) (snapshot : TokenSnapshot)
      (counts : List Nat), l.selectedPageCounts snapshot.spanTokens = .ok counts →
      (∀ s ∈ snapshot.slices, CheckedSlice s) →
      (validateManifestCoverage l worker found snapshot = .ok () ↔
        found = worker ∧ Covered l snapshot) := by
  intro h
  have hcount : underflowGroup.selectedPageCount (2 ^ 1080) = .ok 0 := by decide +kernel
  have hok := (h underflowLayout ⟨"profile", .ofNat 7⟩ ⟨"profile", .ofNat 7⟩
    ⟨.ofNat 1, 2 ^ 1080, []⟩ [0] (by decide +kernel) (fun s hs ↦ (by cases hs))).mpr
    ⟨rfl, ⟨fun s hs ↦ (by cases hs), ?_, fun _ _ _ _ s hs ↦ (by cases hs)⟩⟩
  · revert hok
    decide +kernel
  · intro g hg layer hlayer count hn
    cases List.mem_singleton.mp hg
    rw [hcount] at hn
    cases hn
    rfl

end SpoolCache.Store

import SpoolCache.Layout.Coverage
import SpoolCache.Mover.PageTransfer

/-!
# Pages of an accepted snapshot

`hma.py:137–174` and `hma.py:320–345`. The segments of a snapshot that passes the coverage check
hold every byte of the selected pages of every layer once, and the pages a block table selects for
them are as many and distinct.
-/

namespace SpoolCache.Mover

open SpoolCache.Base SpoolCache.Layout

/-! ### The coverage check counts bytes once -/

section

variable {bound : BoundLayers} {expected : OrderedDict (Nat × String) (Nat × Nat)}

private theorem mem_segmentCoords {segment : PageSlice} {size : Nat}
    (hsize : boundPageBytes bound segment.layerKey = size) (hpos : 0 < size)
    (hbytes : segment.byteLength = segment.pageCount * size) {c : PageCoord} :
    c ∈ segmentCoords bound segment ↔ c.1 = segment.layerKey ∧ segment.pageStart ≤ c.2.1 ∧
      c.2.1 < segment.pageStart + segment.pageCount ∧ c.2.2 < size := by
  unfold segmentCoords
  rw [List.mem_map, hsize, hbytes]
  constructor
  · rintro ⟨j, hj, rfl⟩
    have hdiv := (Nat.div_lt_iff_lt_mul hpos).mpr (List.mem_range.mp hj)
    exact ⟨rfl, Nat.le_add_right _ _, Nat.add_lt_add_left hdiv _, Nat.mod_lt _ hpos⟩
  · obtain ⟨key, page, byte⟩ := c
    rintro ⟨rfl, hstart, hend, hbyte⟩
    dsimp only at hstart hend hbyte
    refine ⟨(page - segment.pageStart) * size + byte, List.mem_range.mpr ?_, ?_⟩
    · calc (page - segment.pageStart) * size + byte
          < (page - segment.pageStart) * size + size := Nat.add_lt_add_left hbyte _
        _ = (page - segment.pageStart + 1) * size := (Nat.succ_mul _ _).symm
        _ ≤ segment.pageCount * size := Nat.mul_le_mul_right _ (by omega)
    · rw [Nat.add_comm _ byte, Nat.add_mul_div_right _ _ hpos, Nat.add_mul_mod_self_right,
        Nat.div_eq_of_lt hbyte, Nat.mod_eq_of_lt hbyte, Nat.zero_add, Nat.add_sub_cancel' hstart]

private theorem nodup_segmentCoords (segment : PageSlice) :
    (segmentCoords bound segment).Nodup := by
  refine List.Nodup.map_on ?_ List.nodup_range
  intro i _ j _ h
  obtain ⟨hpage, hbyte⟩ := Prod.mk.inj (Prod.mk.inj h).2
  rw [← Nat.div_add_mod i (boundPageBytes bound segment.layerKey),
    ← Nat.div_add_mod j (boundPageBytes bound segment.layerKey), Nat.add_left_cancel hpage, hbyte]

/-- Every byte of the pages before the cursors, once. -/
structure CoveredOnce (bound : BoundLayers) (cursors : Cursors) (coords : List PageCoord) : Prop where
  nodup : coords.Nodup
  mem_iff : ∀ c, c ∈ coords ↔ ∃ n, cursors.get? c.1 = some n ∧ c.2.1 < n ∧
    c.2.2 < boundPageBytes bound c.1

private theorem coveredOnce_nil : CoveredOnce bound .empty [] :=
  ⟨List.nodup_nil, fun c ↦ ⟨fun h ↦ (by cases h), fun ⟨_, hn, _⟩ ↦ (by cases hn)⟩⟩

/-- The sizes the check expects are those of the bound layers. -/
def SizesBound (bound : BoundLayers) (expected : OrderedDict (Nat × String) (Nat × Nat)) : Prop :=
  ∀ key count size, expected.get? key = some (count, size) →
    ∃ layer, bound.get? key = some layer ∧ layer.pageSizeBytes = size

private theorem SizesBound.pageBytes (h : SizesBound bound expected) {key : Nat × String}
    {count size : Nat} (hkey : expected.get? key = some (count, size)) :
    boundPageBytes bound key = size ∧ 0 < size := by
  obtain ⟨layer, hlayer, hsize⟩ := h key count size hkey
  unfold boundPageBytes
  rw [hlayer]
  exact ⟨hsize, hsize ▸ layer.pageSizeBytes_pos⟩

/-- One slice of the check adds its bytes behind those before it. -/
theorem CoveredOnce.step (hbound : SizesBound bound expected) {cursors cursors' : Cursors}
    {segment : PageSlice} (h : coverSlice expected cursors segment = .ok cursors')
    {coords : List PageCoord} (hcovered : CoveredOnce bound cursors coords) :
    CoveredOnce bound cursors' (coords ++ segmentCoords bound segment) ∧
      cursors' = cursors.set segment.layerKey (segment.pageStart + segment.pageCount) ∧
      segment.pageStart = (cursors.get? segment.layerKey).getD 0 ∧
      ∃ count size, expected.get? segment.layerKey = some (count, size) ∧
        segment.byteLength = segment.pageCount * size := by
  unfold coverSlice at h
  split at h
  · cases h
  · next count size hexpected =>
    split at h
    · cases h
    · next hstart =>
      split at h
      · cases h
      · next hbytes =>
        cases h
        have hstart := not_not.mp hstart
        have hbytes := not_not.mp hbytes
        obtain ⟨hsize, hpos⟩ := hbound.pageBytes hexpected
        have hmem := fun c ↦ @mem_segmentCoords bound segment size hsize hpos hbytes c
        refine ⟨⟨?_, fun c ↦ ?_⟩, rfl, hstart, count, size, hexpected, hbytes⟩
        · refine List.nodup_append.mpr ⟨hcovered.nodup, nodup_segmentCoords segment, ?_⟩
          rintro c hc c' hc' rfl
          obtain ⟨n, hn, hpage, -⟩ := (hcovered.mem_iff c).mp hc
          obtain ⟨hkey, hge, -⟩ := (hmem c).mp hc'
          rw [← hkey, hn, Option.getD_some] at hstart
          omega
        · rw [List.mem_append, hcovered.mem_iff, hmem, OrderedDict.get?_set]
          by_cases hkey : c.1 = segment.layerKey
          · rw [if_pos hkey, hkey, hsize]
            cases hcursor : cursors.get? segment.layerKey with
            | none =>
              rw [hcursor, Option.getD_none] at hstart
              constructor
              · rintro (⟨n, hn, -⟩ | ⟨-, -, hend, hbyte⟩)
                · cases hn
                · exact ⟨_, rfl, hend, hbyte⟩
              · rintro ⟨n, hn, hpage, hbyte⟩
                cases hn
                exact .inr ⟨rfl, by omega, hpage, hbyte⟩
            | some n =>
              rw [hcursor, Option.getD_some] at hstart
              constructor
              · rintro (⟨n', hn, hpage, hbyte⟩ | ⟨-, -, hend, hbyte⟩)
                · cases hn
                  exact ⟨_, rfl, by omega, hbyte⟩
                · exact ⟨_, rfl, hend, hbyte⟩
              · rintro ⟨n', hn, hpage, hbyte⟩
                cases hn
                rcases Nat.lt_or_ge c.2.1 n with hlt | hge
                · exact .inl ⟨n, rfl, hlt, hbyte⟩
                · exact .inr ⟨rfl, by omega, hpage, hbyte⟩
          · rw [if_neg hkey]
            constructor
            · rintro (h | ⟨h, -⟩)
              · exact h
              · exact absurd h hkey
            · exact .inl

/-- A slice of the check, with the pages before it and its own below the cursor of its layer. -/
structure SliceOk (expected : OrderedDict (Nat × String) (Nat × Nat)) (cursors : Cursors)
    (segment : PageSlice) : Prop where
  below : ∃ n, cursors.get? segment.layerKey = some n ∧ segment.pageStart + segment.pageCount ≤ n
  expected : ∃ count size, expected.get? segment.layerKey = some (count, size) ∧
    segment.byteLength = segment.pageCount * size

private theorem CoveredOnce.run (hbound : SizesBound bound expected) {segments : List PageSlice}
    {cursors cursors' : Cursors} (h : segments.foldlM (coverSlice expected) cursors = .ok cursors')
    {coords : List PageCoord} (hcovered : CoveredOnce bound cursors coords) :
    CoveredOnce bound cursors' (coords ++ segments.flatMap (segmentCoords bound)) ∧
      (∀ s ∈ segments, SliceOk expected cursors' s) ∧
      ∀ key n, cursors.get? key = some n → ∃ n', cursors'.get? key = some n' ∧ n ≤ n' := by
  induction segments generalizing cursors coords with
  | nil =>
    cases h
    rw [List.flatMap_nil, List.append_nil]
    exact ⟨hcovered, fun s hs ↦ (by cases hs), fun key n hn ↦ ⟨n, hn, le_rfl⟩⟩
  | cons segment segments ih =>
    rw [List.foldlM_cons] at h
    obtain ⟨between, hone, hrest⟩ := bind_ok h
    obtain ⟨hstep, hset, hstart, hexpected⟩ := hcovered.step hbound hone
    obtain ⟨hrun, hslices, hmono⟩ := ih hrest hstep
    have hown : between.get? segment.layerKey = some (segment.pageStart + segment.pageCount) := by
      rw [hset, OrderedDict.get?_set, if_pos rfl]
    rw [List.flatMap_cons, ← List.append_assoc]
    refine ⟨hrun, fun s hs ↦ ?_, fun key n hn ↦ ?_⟩
    · rcases List.mem_cons.mp hs with rfl | hs
      · exact ⟨hmono _ _ hown, hexpected⟩
      · exact hslices s hs
    · by_cases hkey : key = segment.layerKey
      · obtain ⟨n', hn', hle⟩ := hmono _ _ hown
        subst hkey
        refine ⟨n', hn', ?_⟩
        rw [hn, Option.getD_some] at hstart
        omega
      · refine hmono key n ?_
        rw [hset, OrderedDict.get?_set, if_neg hkey]
        exact hn

end

/-! ### Selected pages -/

private theorem getElem?_mapM {ε α β : Type} {f : α → Except ε β} {as : List α} {bs : List β}
    (h : as.mapM f = .ok bs) {i : Nat} {a : α} (ha : as[i]? = some a) :
    ∃ b, f a = .ok b ∧ bs[i]? = some b := by
  induction as generalizing bs i with
  | nil => cases ha
  | cons a' as ih =>
    rw [List.mapM_cons] at h
    obtain ⟨b, hb, h⟩ := bind_ok h
    obtain ⟨rest, hrest, h⟩ := bind_ok h
    cases h
    cases i with
    | zero =>
      cases ha
      exact ⟨b, hb, rfl⟩
    | succ i => exact ih hrest ha

private theorem length_selectPhysicalPages {g : GroupGeometry} {table pages : List Nat} {span : Nat}
    (h : g.selectPhysicalPages table span = .ok pages) :
    g.selectedPageCount span = .ok pages.length ∧ pages.Nodup := by
  obtain ⟨selected, hselected, h⟩ := bind_ok h
  obtain ⟨named, hnamed, h⟩ := bind_ok h
  split at h
  · cases h
  · split at h
    · cases h
    · next hnodup =>
      cases h
      refine ⟨?_, not_not.mp hnodup⟩
      rw [hselected]
      congr 1
      unfold GroupGeometry.selectedPageCount at hselected
      unfold GroupGeometry.namedPages at hnamed
      generalize span / g.logicalTokensPerPage = boundary at hselected hnamed
      split at hselected
      · cases hselected
      · split at hselected
        · next hcircular =>
          cases hselected
          rw [hcircular] at hnamed
          dsimp only at hnamed
          split at hnamed
          · cases hnamed
          · next hone =>
            cases hnamed
            exact (not_not.mp hone).symm
        · next hpolicy =>
          split at hselected
          · cases hselected
          · dsimp only at hselected
            split at hselected
            · next hfull =>
              cases hselected
              rw [hfull] at hnamed
              dsimp only at hnamed
              split at hnamed
              · cases hnamed
              · cases hnamed
                rw [List.length_drop, List.length_take]
                omega
            · next window hsliding =>
              obtain ⟨covering, -, hmin⟩ := bind_ok hselected
              cases hmin
              rw [hsliding] at hnamed
              dsimp only at hnamed
              split at hnamed
              · cases hnamed
              · cases hnamed
                rw [List.length_drop, List.length_take]
                omega
            · next tail htail =>
              cases hselected
              rw [htail] at hnamed
              dsimp only at hnamed
              split at hnamed
              · cases hnamed
              · cases hnamed
                rw [List.getElem?_eq_getElem (by omega)]
                rfl
            · next hcircular => exact absurd hcircular hpolicy

/-- Block tables that select pages give each group of a layout as many distinct pages as the check
counts. -/
theorem selected_getElem? {l : HMALayout} {tables : List (List Nat)} {span : Nat}
    {selected : List (List Nat)} (h : l.selectPhysicalPages tables span = .ok selected)
    {g : GroupGeometry} (hg : g ∈ l.groups) :
    ∃ pages, selected[g.groupIndex]? = some pages ∧ pages ∈ selected ∧
      g.selectedPageCount span = .ok pages.length ∧ pages.Nodup := by
  unfold HMALayout.selectPhysicalPages at h
  split at h
  · cases h
  · next htables =>
    have htables := not_not.mp htables
    have hindex : l.groups[g.groupIndex]? = some g := by
      obtain ⟨i, hi⟩ := List.mem_iff_getElem?.mp hg
      have hmap : (l.groups.map GroupGeometry.groupIndex)[i]? = some g.groupIndex := by
        rw [List.getElem?_map, hi]
        rfl
      rw [l.groupIndex_eq] at hmap
      obtain ⟨hlt, hget⟩ := List.getElem?_eq_some_iff.mp hmap
      rw [List.getElem_range] at hget
      rw [← hget]
      exact hi
    have hlt : g.groupIndex < l.groups.length := (List.getElem?_eq_some_iff.mp hindex).1
    obtain ⟨table, htable⟩ : ∃ table, tables[g.groupIndex]? = some table :=
      ⟨_, List.getElem?_eq_getElem (htables ▸ hlt)⟩
    have hpair : (l.groups.zip tables)[g.groupIndex]? = some (g, table) :=
      List.getElem?_zip_eq_some.mpr ⟨hindex, htable⟩
    obtain ⟨pages, hpages, hget⟩ := getElem?_mapM h hpair
    obtain ⟨hcount, hnodup⟩ := length_selectPhysicalPages hpages
    exact ⟨pages, hget, List.mem_of_getElem? hget, hcount, hnodup⟩

/-! ### Snapshots of a layout -/

/-- The layers of a layout are bound with its page sizes and the pages of the manager,
`gpu.py:325–383`. -/
def BoundTo (l : HMALayout) (blocks : Nat) (bound : BoundLayers) : Prop :=
  ∀ g ∈ l.groups, ∀ layer ∈ g.layers, ∃ pages, bound.get? (g.groupIndex, layer.name) = some pages ∧
    pages.pageSizeBytes = layer.pageSizeBytes ∧ pages.blocks = blocks

/-- A byte of a page that a span selects. -/
def SelectedByte (l : HMALayout) (span : Nat) (c : PageCoord) : Prop :=
  ∃ g ∈ l.groups, ∃ layer ∈ g.layers, c.1 = (g.groupIndex, layer.name) ∧
    ∃ count, g.selectedPageCount span = .ok count ∧ c.2.1 < count ∧ c.2.2 < layer.pageSizeBytes

/-- What a block table selected for a layout, of the pages of the manager. -/
structure Selection (l : HMALayout) (blocks span : Nat) where
  tables : List (List Nat)
  pages : List (List Nat)
  selects : l.selectPhysicalPages tables span = .ok pages
  inside : ∀ ids ∈ pages, ∀ page ∈ ids, page < blocks

section

variable {l : HMALayout} {blocks span : Nat} {bound : BoundLayers} {segments : List PageSlice}

private theorem sizesBound_expected (hbound : BoundTo l blocks bound) {counts : List Nat}
    (hcounts : l.selectedPageCounts span = .ok counts) :
    SizesBound bound (l.expectedLayers counts) := by
  obtain ⟨hexpected, hkeys⟩ := HMALayout.get?_expectedLayers hcounts
  intro key count size hkey
  have hmem : key ∈ l.layerKeys := by
    rw [← hkeys]
    exact (OrderedDict.mem_keys_iff _ key).mpr ⟨_, hkey⟩
  obtain ⟨g, hg, layer, hlayer, rfl⟩ := HMALayout.mem_layerKeys.mp hmem
  obtain ⟨count', -, hget⟩ := hexpected g hg layer hlayer
  obtain ⟨pages, hpages, hsize, -⟩ := hbound g hg layer hlayer
  rw [hkey] at hget
  cases hget
  exact ⟨pages, hpages, hsize⟩

/-- The segments of an accepted snapshot hold every byte of the selected pages, once. -/
theorem coverage_coords (hbound : BoundTo l blocks bound)
    (h : l.validateManifestCoverage span segments = .ok ()) :
    (segments.flatMap (segmentCoords bound)).Nodup ∧
    (∀ c, c ∈ segments.flatMap (segmentCoords bound) ↔ SelectedByte l span c) ∧
    ∀ s ∈ segments, ∃ g ∈ l.groups, ∃ layer ∈ g.layers, s.layerKey = (g.groupIndex, layer.name) ∧
      s.byteLength = s.pageCount * layer.pageSizeBytes ∧
      ∃ count, g.selectedPageCount span = .ok count ∧ s.pageStart + s.pageCount ≤ count := by
  obtain ⟨counts, hcounts, h⟩ := bind_ok h
  obtain ⟨cursors, hfold, h⟩ := bind_ok h
  have hsizes := sizesBound_expected hbound hcounts
  obtain ⟨hexpected, hkeys⟩ := HMALayout.get?_expectedLayers hcounts
  obtain ⟨hcovered, hslices, -⟩ := coveredOnce_nil.run hsizes hfold
  rw [List.nil_append] at hcovered
  split at h
  · cases h
  · next hsame =>
    split at h
    · cases h
    · next hcount =>
      have hsame := not_not.mp hsame
      have hcursor : ∀ key count size, (l.expectedLayers counts).get? key = some (count, size) →
          cursors.get? key = some count := by
        intro key count size hkey
        by_contra hne
        exact hcount ⟨(key, count, size), (OrderedDict.get?_eq_some_iff _ _ _).mp hkey, hne⟩
      refine ⟨hcovered.nodup, fun c ↦ (hcovered.mem_iff c).trans ⟨?_, ?_⟩, fun s hs ↦ ?_⟩
      · rintro ⟨n, hn, hpage, hbyte⟩
        have hmem : c.1 ∈ l.layerKeys := by
          rw [← hkeys]
          exact hsame.1 ((OrderedDict.mem_keys_iff _ c.1).mpr ⟨n, hn⟩)
        obtain ⟨g, hg, layer, hlayer, hkey⟩ := HMALayout.mem_layerKeys.mp hmem
        obtain ⟨count, hselected, hget⟩ := hexpected g hg layer hlayer
        rw [hkey] at hget
        rw [hcursor _ _ _ hget] at hn
        cases hn
        rw [(hsizes.pageBytes hget).1] at hbyte
        exact ⟨g, hg, layer, hlayer, hkey.symm, n, hselected, hpage, hbyte⟩
      · rintro ⟨g, hg, layer, hlayer, hkey, count, hselected, hpage, hbyte⟩
        obtain ⟨count', hselected', hget⟩ := hexpected g hg layer hlayer
        rw [hselected] at hselected'
        cases hselected'
        rw [hkey]
        exact ⟨count, hcursor _ _ _ hget, hpage, (hsizes.pageBytes hget).1.symm ▸ hbyte⟩
      · obtain ⟨⟨n, hn, hle⟩, count, size, hget, hbytes⟩ := hslices s hs
        have hmem : s.layerKey ∈ l.layerKeys := by
          rw [← hkeys]
          exact (OrderedDict.mem_keys_iff _ _).mpr ⟨_, hget⟩
        obtain ⟨g, hg, layer, hlayer, hkey⟩ := HMALayout.mem_layerKeys.mp hmem
        obtain ⟨count', hselected, hget'⟩ := hexpected g hg layer hlayer
        rw [hkey, hget] at hget'
        cases hget'
        rw [hcursor _ _ _ hget] at hn
        cases hn
        exact ⟨g, hg, layer, hlayer, hkey.symm, hbytes, n, hselected, hle⟩

/-- The segments of an accepted snapshot can be transferred for every selection of pages. -/
theorem transferable_of_coverage (hbound : BoundTo l blocks bound)
    (h : l.validateManifestCoverage span segments = .ok ()) (sel : Selection l blocks span)
    {s : PageSlice} (hs : s ∈ segments) : Transferable bound sel.pages s := by
  obtain ⟨g, hg, layer, hlayer, hkey, hbytes, count, hselected, hle⟩ :=
    (coverage_coords hbound h).2.2 s hs
  obtain ⟨own, hown, hsize, hblocks⟩ := hbound g hg layer hlayer
  obtain ⟨pages, hpages, hmem, hcount, -⟩ := selected_getElem? sel.selects hg
  rw [hselected] at hcount
  cases hcount
  have hgroup : s.groupIndex = g.groupIndex := congrArg Prod.fst hkey
  refine ⟨own, pages, hkey ▸ hown, hgroup ▸ hpages, hle, hsize ▸ hbytes, fun page hpage ↦ ?_⟩
  rw [hblocks]
  exact sel.inside pages hmem page hpage

/-- The page of a selected byte. -/
theorem place_selected (sel : Selection l blocks span) {g : GroupGeometry} (hg : g ∈ l.groups)
    {name : String} {i byte count : Nat} (hcount : g.selectedPageCount span = .ok count)
    (hi : i < count) : ∃ pages page, sel.pages[g.groupIndex]? = some pages ∧ pages.Nodup ∧
      pages[i]? = some page ∧ place sel.pages ((g.groupIndex, name), (i, byte)) =
        ((g.groupIndex, name), (page, byte)) := by
  obtain ⟨pages, hpages, -, hlength, hnodup⟩ := selected_getElem? sel.selects hg
  rw [hcount] at hlength
  cases hlength
  refine ⟨pages, pages[i], hpages, hnodup, List.getElem?_eq_getElem hi, ?_⟩
  unfold place
  dsimp only
  rw [hpages, Option.getD_some, List.getD_eq_getElem?_getD, List.getElem?_eq_getElem hi,
    Option.getD_some]

/-- Different bytes have different places. -/
theorem place_inj (sel : Selection l blocks span) {c c' : PageCoord}
    (hc : SelectedByte l span c) (hc' : SelectedByte l span c')
    (h : place sel.pages c = place sel.pages c') : c = c' := by
  obtain ⟨key, page, byte⟩ := c
  obtain ⟨key', page', byte'⟩ := c'
  obtain ⟨g, hg, layer, -, rfl, count, hcount, hpage, -⟩ := hc
  obtain ⟨g', hg', layer', -, rfl, count', hcount', hpage', -⟩ := hc'
  dsimp only at hcount hpage hcount' hpage' h
  have hkey := congrArg Prod.fst h
  change (g.groupIndex, layer.name) = (g'.groupIndex, layer'.name) at hkey
  have hgroup := HMALayout.groupIndex_inj hg hg' (congrArg Prod.fst hkey)
  subst hgroup
  have hname := congrArg Prod.snd hkey
  dsimp only at hname
  obtain ⟨pages, id, hpages, hnodup, hid, hplace⟩ := place_selected sel hg hcount hpage
  obtain ⟨pages', id', hpages', -, hid', hplace'⟩ := place_selected sel hg' hcount' hpage'
  rw [hpages] at hpages'
  cases hpages'
  rw [hplace, hplace'] at h
  obtain ⟨-, hrest⟩ := Prod.mk.inj h
  obtain ⟨rfl, rfl⟩ := Prod.mk.inj hrest
  obtain ⟨hlt, hget⟩ := List.getElem?_eq_some_iff.mp hid
  obtain ⟨hlt', hget'⟩ := List.getElem?_eq_some_iff.mp hid'
  rw [hname, (hnodup.getElem_inj_iff).mp (hget.trans hget'.symm)]

end

end SpoolCache.Mover

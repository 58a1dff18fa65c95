import SpoolCache.Mover.CoveredPages
import SpoolCache.Store.FileHistory
import SpoolCache.Store.IntactStream

/-!
# Restored pages

`gpu.py:516–615` over `token_files.py:568–682`. A restore streams the files of an accepted snapshot
into receivers. What it leaves in the selected pages is what was stored for their keys, whatever
happened to the root since, and no other page changes.
-/

namespace SpoolCache.Store

open SpoolCache.Base SpoolCache.Layout SpoolCache.Mover SpoolCache.Base.Program
open TokenFileStore (Authentic Opened FileDescriptor)

/-! ### Receivers of a restore -/

section

variable (bound : BoundLayers) (selected : List (List Nat)) (slotBytes : Nat)

/-- The receivers of the files of a restore in order, `gpu.py:559–563`, each with the ranges it is
passed. -/
def receiveObjects : List (FileDescriptor × List Bytes) → BankMemory → Except PyError BankMemory
  | [], memory => .ok memory
  | (desc, chunks) :: rest, memory => do
    let memory ← receiveObject bound selected slotBytes desc.byteLength desc.segments memory chunks
    receiveObjects rest memory

end

/-- The bytes of the pages of a file. -/
def fileCoords (bound : BoundLayers) (desc : FileDescriptor) : List PageCoord :=
  desc.segments.flatMap (segmentCoords bound)

/-- The ranges of some files in a stream, with their payloads. -/
def fileRanges (store : TokenFileStore) (poolBytes : Nat) (files : List (FileDescriptor × Bytes)) :
    List (FileDescriptor × List Bytes) :=
  files.map fun x ↦ (x.1, partsOf store poolBytes x.1 x.2)

namespace TokenFileStore

private theorem length_of_mem_pieces {slotBytes : Nat} (hslot : 0 < slotBytes)
    {payload piece : Bytes}
    (h : piece ∈ pieces slotBytes payload) : 0 < piece.length ∧ piece.length ≤ slotBytes := by
  unfold pieces at h
  obtain ⟨i, hi, rfl⟩ := List.mem_map.mp h
  have hle := (Nat.le_div_iff_mul_le hslot).mp (List.mem_range.mp hi)
  rw [Nat.succ_mul] at hle
  rw [List.length_take, List.length_drop]
  omega

end TokenFileStore

section

variable {bound : BoundLayers} {store : TokenFileStore} {poolBytes : Nat}

/-- The ranges of a file make up its payload, and each fits the credit. -/
theorem partsOf_ok {desc : FileDescriptor} {payload : Bytes}
    (hslot : min desc.byteLength store.slotBytes ≤ poolBytes) (hpos : 0 < desc.byteLength)
    (hlength : payload.length = desc.byteLength) :
    (partsOf store poolBytes desc payload).flatten = payload ∧
      ∀ c ∈ partsOf store poolBytes desc payload, 0 < c.length ∧ c.length ≤ poolBytes := by
  unfold partsOf
  split
  · next hlarge =>
    refine ⟨flatten_pieces store.slotBytes_pos payload, fun c hc ↦ ?_⟩
    obtain ⟨hc, hle⟩ := TokenFileStore.length_of_mem_pieces store.slotBytes_pos hc
    omega
  · next hsmall =>
    refine ⟨List.flatten_singleton, fun c hc ↦ ?_⟩
    rw [List.mem_singleton.mp hc, hlength]
    omega

end

/-! ### What receivers leave -/

section

variable {bound : BoundLayers} {selected : List (List Nat)} {slotBytes : Nat}

/-- Receivers that are passed whole files write every byte of them to its page. -/
theorem receiveObjects_ok {files : List (FileDescriptor × List Bytes)}
    (htransfer : ∀ x ∈ files, ∀ s ∈ x.1.segments, Transferable bound selected s)
    (hlength : ∀ x ∈ files, x.1.byteLength = (x.1.segments.map PageSlice.byteLength).sum)
    (hranges : ∀ x ∈ files, x.2.flatten.length = x.1.byteLength ∧
      ∀ c ∈ x.2, 0 < c.length ∧ c.length ≤ slotBytes) (memory : BankMemory) :
    receiveObjects bound selected slotBytes files memory = .ok (write memory (files.flatMap fun x ↦
      ((fileCoords bound x.1).map (place selected)).zip x.2.flatten)) := by
  induction files generalizing memory with
  | nil => rfl
  | cons x rest ih =>
    obtain ⟨d, chunks⟩ := x
    have hbytes := hlength _ List.mem_cons_self
    obtain ⟨hwhole, hchunks⟩ := hranges _ List.mem_cons_self
    have hone := receiveObject_ok (htransfer _ List.mem_cons_self) hchunks (hwhole.trans hbytes) memory
    rw [← hbytes] at hone
    rw [List.flatMap_cons, write_append]
    unfold receiveObjects
    rw [hone, ok_bind]
    exact ih (fun x hx ↦ htransfer x (List.mem_cons_of_mem _ hx))
      (fun x hx ↦ hlength x (List.mem_cons_of_mem _ hx))
      (fun x hx ↦ hranges x (List.mem_cons_of_mem _ hx)) _

end

/-- The selected pages hold the payloads of the files that cover them, and other pages are as they
were. -/
structure Restored (l : HMALayout) (bound : BoundLayers) (span : Nat) (selected : List (List Nat))
    (files : List (FileDescriptor × Bytes)) (memory memory' : BankMemory) : Prop where
  held : ∀ x ∈ files, segmentBytes bound selected memory' x.1.segments = x.2
  whole : ∀ c, SelectedByte l span c → ∃ x ∈ files, c ∈ fileCoords bound x.1
  others : ∀ x, (∀ c, SelectedByte l span c → place selected c ≠ x) → memory' x = memory x

section

variable {l : HMALayout} {blocks span : Nat} {bound : BoundLayers}
  {files : List (FileDescriptor × Bytes)}

/-- Writing the payloads of the files of an accepted snapshot to their pages restores these. -/
theorem restored_write (hbound : BoundTo l blocks bound)
    (hcover : l.validateManifestCoverage span ((files.map Prod.fst).flatMap (·.segments)) = .ok ())
    (sel : Selection l blocks span)
    (hlength : ∀ x ∈ files, x.2.length = (fileCoords bound x.1).length) (memory : BankMemory) :
    Restored l bound span sel.pages files memory
      (write memory (files.flatMap fun x ↦ ((fileCoords bound x.1).map (place sel.pages)).zip x.2)) := by
  obtain ⟨hnodup, hmem, -⟩ := coverage_coords hbound hcover
  have hcoords : ((files.map Prod.fst).flatMap (·.segments)).flatMap (segmentCoords bound) =
      files.flatMap fun x ↦ fileCoords bound x.1 := by
    rw [List.flatMap_assoc, List.flatMap_map]
    rfl
  rw [hcoords] at hnodup hmem
  have hplaces : (files.flatMap fun x ↦
      ((fileCoords bound x.1).map (place sel.pages)).zip x.2).map Prod.fst =
      (files.flatMap fun x ↦ fileCoords bound x.1).map (place sel.pages) := by
    rw [List.map_flatMap, List.map_flatMap]
    refine List.flatMap_congr fun x hx ↦ List.map_fst_zip ?_
    rw [List.length_map, hlength x hx]
  have hdistinct : ((files.flatMap fun x ↦
      ((fileCoords bound x.1).map (place sel.pages)).zip x.2).map Prod.fst).Nodup := by
    rw [hplaces]
    exact hnodup.map_on fun c hc c' hc' h ↦ place_inj sel ((hmem c).mp hc) ((hmem c').mp hc') h
  refine ⟨fun x hx ↦ ?_, fun c hc ↦ ?_, fun y hy ↦ ?_⟩
  · have hlen := hlength x hx
    unfold segmentBytes
    refine List.ext_getElem ?_ fun i hi hi' ↦ ?_
    · rw [List.length_map, hlen]
      rfl
    · have hci : i < (fileCoords bound x.1).length := hlen ▸ hi'
      have hpair : (place sel.pages (fileCoords bound x.1)[i], x.2[i]) ∈
          ((fileCoords bound x.1).map (place sel.pages)).zip x.2 := by
        refine List.mem_iff_getElem.mpr ⟨i, ?_, ?_⟩
        · rw [List.length_zip, List.length_map, hlen, Nat.min_self]
          exact hci
        · rw [List.getElem_zip, List.getElem_map]
      rw [List.getElem_map]
      exact write_at memory hdistinct (List.mem_flatMap.mpr ⟨x, hx, hpair⟩)
  · exact List.mem_flatMap.mp ((hmem c).mpr hc)
  · refine write_frame memory fun p hp ↦ ?_
    have hfst := List.mem_map_of_mem (f := Prod.fst) hp
    rw [hplaces] at hfst
    obtain ⟨c, hc, heq⟩ := List.mem_map.mp hfst
    exact heq ▸ hy c ((hmem c).mp hc)

end

section

variable {store : TokenFileStore} {blocks span poolBytes : Nat} {bound : BoundLayers}
  {files : List (FileDescriptor × Bytes)}

/-- The receivers of an accepted snapshot, passed the payloads of its files in ranges, restore its
selected pages. -/
theorem receive_restores (hbound : BoundTo store.layout blocks bound)
    (hcover : store.layout.validateManifestCoverage span
      ((files.map Prod.fst).flatMap (·.segments)) = .ok ())
    (sel : Selection store.layout blocks span)
    (hopened : ∀ x ∈ files, Opened store x.1.key x.1 x.2 ∧
      x.1.byteLength = (x.1.segments.map PageSlice.byteLength).sum)
    (hslot : ∀ x ∈ files, min x.1.byteLength store.slotBytes ≤ poolBytes) (memory : BankMemory) :
    ∃ memory', receiveObjects bound sel.pages poolBytes (fileRanges store poolBytes files) memory =
      .ok memory' ∧ Restored store.layout bound span sel.pages files memory memory' := by
  have hparts : ∀ x ∈ files, (partsOf store poolBytes x.1 x.2).flatten = x.2 ∧
      ∀ c ∈ partsOf store poolBytes x.1 x.2, 0 < c.length ∧ c.length ≤ poolBytes := fun x hx ↦
    partsOf_ok (hslot x hx) (hopened x hx).1.length_pos (hopened x hx).1.length_rest
  have hmem : ∀ x ∈ files, ∀ s ∈ x.1.segments,
      s ∈ (files.map Prod.fst).flatMap (·.segments) := fun x hx s hs ↦
    List.mem_flatMap.mpr ⟨x.1, List.mem_map_of_mem hx, hs⟩
  have hreceive : receiveObjects bound sel.pages poolBytes (fileRanges store poolBytes files) memory =
      .ok (write memory ((fileRanges store poolBytes files).flatMap fun x ↦
        ((fileCoords bound x.1).map (place sel.pages)).zip x.2.flatten)) := by
    refine receiveObjects_ok ?_ ?_ ?_ memory
    · intro y hy s hs
      obtain ⟨x, hx, rfl⟩ := List.mem_map.mp hy
      exact transferable_of_coverage hbound hcover sel (hmem x hx s hs)
    · intro y hy
      obtain ⟨x, hx, rfl⟩ := List.mem_map.mp hy
      exact (hopened x hx).2
    · intro y hy
      obtain ⟨x, hx, rfl⟩ := List.mem_map.mp hy
      refine ⟨?_, (hparts x hx).2⟩
      rw [(hparts x hx).1]
      exact (hopened x hx).1.length_rest
  have hwrites : (fileRanges store poolBytes files).flatMap (fun x ↦
      ((fileCoords bound x.1).map (place sel.pages)).zip x.2.flatten) =
      files.flatMap fun x ↦ ((fileCoords bound x.1).map (place sel.pages)).zip x.2 := by
    unfold fileRanges
    rw [List.flatMap_map]
    refine List.flatMap_congr fun x hx ↦ ?_
    rw [(hparts x hx).1]
  rw [hwrites] at hreceive
  refine ⟨_, hreceive, restored_write hbound hcover sel (fun x hx ↦ ?_) memory⟩
  rw [(hopened x hx).1.length_rest, (hopened x hx).2]
  exact (length_flatMap_segmentCoords x.1.segments).symm

end

/-! ### A sample restore -/

/-- The pages of the layer of the sample. -/
def sampleBound : BoundLayers :=
  OrderedDict.empty.set (0, "layer") ⟨64, 4, true, 0, sampleLayer.pageSizeBytes_pos⟩

/-- The sample is bound to its own layers. -/
theorem boundTo_sampleBound : BoundTo fullSample.layout 4 sampleBound := by
  intro g hg layer hlayer
  rw [List.mem_singleton.mp hg] at hlayer ⊢
  rw [List.mem_singleton.mp hlayer]
  exact ⟨_, rfl, rfl, rfl⟩

/-- One page of the sample covers a chunk. -/
theorem coverage_fullSample :
    fullSample.layout.validateManifestCoverage 256 [⟨0, "layer", 0, 1, 64⟩] = .ok () := by
  decide +kernel

private theorem selects_one : fullSample.layout.selectPhysicalPages [[1]] 256 = .ok [[1]] := by
  decide +kernel

private theorem selects_three : fullSample.layout.selectPhysicalPages [[3]] 256 = .ok [[3]] := by
  decide +kernel

private theorem inside_one : ∀ ids ∈ [[1]], ∀ page ∈ ids, page < 4 := by decide

private theorem inside_three : ∀ ids ∈ [[3]], ∀ page ∈ ids, page < 4 := by decide

/-- The second page of the layer. -/
def sampleSource : Selection fullSample.layout 4 256 where
  tables := [[1]]
  pages := [[1]]
  selects := selects_one
  inside := inside_one

/-- The last page of the layer. -/
def sampleTarget : Selection fullSample.layout 4 256 where
  tables := [[3]]
  pages := [[3]]
  selects := selects_three
  inside := inside_three

/-- No selected byte goes to that place of the third page. -/
theorem place_sampleTarget (c : PageCoord) (hc : SelectedByte fullSample.layout 256 c) :
    place sampleTarget.pages c ≠ ((0, "layer"), (2, 5)) := by
  obtain ⟨key, i, byte⟩ := c
  obtain ⟨g, hg, layer, -, rfl, count, hcount, hi, -⟩ := hc
  obtain ⟨pages, page, hpages, -, hpage, hplace⟩ :=
    @place_selected _ _ _ sampleTarget g hg layer.name i byte count hcount hi
  have hmem := List.mem_of_getElem? hpages
  rw [List.mem_singleton.mp hmem] at hpage
  have hpage := List.mem_singleton.mp (List.mem_of_getElem? hpage)
  rw [hplace, hpage]
  intro heq
  cases congrArg (fun x ↦ x.2.1) heq

/-! ### Restores from any history -/

/-- What receivers are given of some ranges. -/
def passedRanges (ranges : List (FileDescriptor × List Bytes)) : List (Digest × Bytes) :=
  ranges.flatMap fun x ↦ x.2.map (x.1.key, ·)

section

variable {S : Digest → Bytes → Prop} {store : TokenFileStore} {poolBytes : Nat}

private theorem Delivered.files {descriptors : List FileDescriptor} {passed : List (Digest × Bytes)}
    (h : Delivered S store poolBytes descriptors passed) :
    ∃ files : List (FileDescriptor × Bytes), files.map Prod.fst = descriptors ∧
      (∀ x ∈ files, Genuine S store x.1 x.2) ∧
      passed = passedRanges (fileRanges store poolBytes files) := by
  induction h with
  | nil => exact ⟨[], rfl, fun x hx ↦ (by cases hx), rfl⟩
  | @cons desc payload _ _ hone _ ih =>
    obtain ⟨files, rfl, hfiles, rfl⟩ := ih
    refine ⟨(desc, payload) :: files, rfl, fun x hx ↦ ?_, rfl⟩
    rcases List.mem_cons.mp hx with rfl | hx
    · exact hone
    · exact hfiles x hx

private theorem Genuine.opened {desc : FileDescriptor} {payload : Bytes}
    (h : Genuine S store desc payload) : Opened store desc.key desc payload ∧
      desc.byteLength = (desc.segments.map PageSlice.byteLength).sum := by
  obtain ⟨data, -, hopen, rfl⟩ := h.source
  exact ⟨TokenFileStore.opened_of_openData hopen, (TokenFileStore.sliced_of_openData hopen).2⟩

/-- One of the operations committed these bytes under the key and header of a descriptor. -/
def CommittedBy (store : TokenFileStore) (ops : List DiskOp) (desc : FileDescriptor)
    (payload : Bytes) : Prop :=
  ∃ op ∈ ops, op.Commits store.slotBytes desc.key ⟨desc.kind, desc.parent, desc.spanTokens⟩ payload

/-- What lies at the paths of a root without files was published by the operations on it. -/
theorem sources_of_history {start : Disk} (hstart : ∀ key f, ¬ start.files.Possible key (some f))
    {ops : List DiskOp} {w : StreamWorld}
    (hworlds : ∀ d, d = w.disk ∨ d ∈ w.later →
      ∃ before, before ⊆ ops ∧ DiskHistory store start before d) :
    Sources (fun key data ↦ ∃ op ∈ ops, op.Publishes store key data) w := by
  intro d hd key f hf
  obtain ⟨before, hsub, hhistory⟩ := hworlds d hd
  have hsourced := hhistory.sourced fun key f h ↦ absurd h (hstart key f)
  obtain ⟨-, hold | ⟨op, hop, hp⟩⟩ := hsourced key f (.inl hf.symm)
  · exact absurd hold (hstart key f)
  · exact ⟨op, hsub hop, hp⟩

private theorem Genuine.committed {ops : List DiskOp} {desc : FileDescriptor} {payload : Bytes}
    (h : Genuine (fun key data ↦ ∃ op ∈ ops, op.Publishes store key data) store desc payload) :
    CommittedBy store ops desc payload := by
  obtain ⟨data, ⟨op, hop, hp⟩, hopen, rfl⟩ := h.source
  obtain ⟨header, payload, desc', hcommits, hopen', hparent, hspan, hkind, hdrop, -⟩ := hp.opens
  rw [hopen] at hopen'
  cases hopen'
  refine ⟨op, hop, ?_⟩
  rw [hparent, hspan, hkind, hdrop]
  exact hcommits

variable {blocks span : Nat} {bound : BoundLayers} {hooked : Bool} {busy : Digest → Bool}
  {lease : RestoreLease} {descriptors : List FileDescriptor}

/-- A restore that returns, on a root that began without files and whatever operations, failures,
cut-offs and crashes came before and between its opens, leaves in the selected pages the bytes that
were committed under the keys of the snapshot, with their headers. Every byte of these pages is
written, and no other page changes. -/
theorem restored_pages_were_committed (hbound : BoundTo store.layout blocks bound)
    (hcover : store.layout.validateManifestCoverage span (descriptors.flatMap (·.segments)) = .ok ())
    (sel : Selection store.layout blocks span)
    (hpinned : ∀ d ∈ descriptors, busy d.key = true)
    {start : Disk} (hstart : ∀ key f, ¬ start.files.Possible key (some f))
    {ops : List DiskOp} {w : StreamWorld}
    (hworlds : ∀ d, d = w.disk ∨ d ∈ w.later →
      ∃ before, before ⊆ ops ∧ DiskHistory store start before d)
    (hevents : w.events = []) {faults : List Fault} {m : Machine StreamWorld}
    (h : streamObjects store poolBytes hooked busy lease descriptors ⟨faults, w⟩ =
      (.returned (), m)) (memory : BankMemory) :
    ∃ (files : List (FileDescriptor × Bytes)) (memory' : BankMemory),
      files.map Prod.fst = descriptors ∧
      (∀ x ∈ files, Authentic store x.1 x.2 ∧ CommittedBy store ops x.1 x.2) ∧
      deliveries m.state.events = passedRanges (fileRanges store poolBytes files) ∧
      receiveObjects bound sel.pages poolBytes (fileRanges store poolBytes files) memory =
        .ok memory' ∧ Restored store.layout bound span sel.pages files memory memory' := by
  have hadmitted := admitted_of_returned (congrArg Prod.fst h)
  obtain ⟨-, hreturned, -, -⟩ := @under_streamObjects _ store poolBytes hooked busy lease descriptors
    (.fail ∉ faults) hadmitted hpinned w (sources_of_history hstart hworlds) hevents ⟨faults, w⟩
    ⟨id, rfl⟩
  rw [h] at hreturned
  obtain ⟨-, hdelivered⟩ := hreturned () rfl
  obtain ⟨files, rfl, hfiles, hpassed⟩ := hdelivered.files
  obtain ⟨memory', hreceive, hrestored⟩ := receive_restores hbound hcover sel
    (fun x hx ↦ (hfiles x hx).opened) (fun x hx ↦ hadmitted.credit x.1 (List.mem_map_of_mem hx)) memory
  exact ⟨files, memory', rfl, fun x hx ↦ ⟨(hfiles x hx).authentic, (hfiles x hx).committed⟩, hpassed,
    hreceive, hrestored⟩

/-- A streamed commit is restored to page 3, and page 2 is untouched. -/
theorem restored_pages_were_committed_fullSample :
    ∃ (desc : FileDescriptor) (payload : Bytes) (memory' : BankMemory),
      CommittedBy fullSample [.commitStream sampleEnv (.ofNat 9) ⟨.data, none, 256⟩
        ([sampleBlock].map .ok)] desc payload ∧
      segmentBytes sampleBound [[3]] memory' desc.segments = payload ∧
      memory' ((0, "layer"), (2, 5)) = 0 := by
  obtain ⟨desc, data, d', hrun, hfile, hmarker, hof, hopen, hkey, hsegments⟩ := commit_fullSample
  have hstart : DiskHistory fullSample emptyRoot [] emptyRoot := .start
  have hhistory := hstart.step
    (.commitStream sampleEnv (.ofNat 9) ⟨.data, none, 256⟩ ([sampleBlock].map .ok)) []
  unfold sampleInput at hrun
  rw [run_commitStream, hrun] at hhistory
  have hnone : ∀ key f, ¬ emptyRoot.files.Possible key (some f) := by
    intro key f h
    cases Directory.possible_durable.mp h
  rw [← hkey] at hof hopen hmarker hfile
  obtain ⟨payload, -, hintact⟩ := @FileOf.intact _ _ _ _ d' ⟨data, true⟩ hof hopen hmarker hfile
  obtain ⟨m, hreturned, -⟩ := @returns_streamObjects fullSample (fun _ ↦ payload) [desc] 64 false
    (fun _ ↦ true) (sampleLease desc) (admitted_sampleLease desc) d' [] (fun d hd desc' hdesc ↦ by
      rw [List.mem_singleton.mp hd, List.mem_singleton.mp hdesc]
      exact hintact)
  have hcover : fullSample.layout.validateManifestCoverage 256 ([desc].flatMap (·.segments)) =
      .ok () := by
    rw [List.flatMap_singleton, hsegments]
    exact coverage_fullSample
  obtain ⟨files, memory', hfiles, hall, -, -, hrestored⟩ :=
    restored_pages_were_committed boundTo_sampleBound hcover sampleTarget (fun _ _ ↦ rfl) hnone
      (fun d hd ↦ ⟨_, List.Subset.refl _, by
        rcases hd with rfl | hd
        · exact hhistory
        · cases hd⟩) rfl hreturned fun _ ↦ 0
  obtain ⟨x, rfl, hx⟩ := List.map_eq_singleton_iff.mp hfiles
  have hmem : x ∈ [x] := List.mem_singleton_self x
  refine ⟨x.1, x.2, memory', (hall x hmem).2, hrestored.held x hmem, ?_⟩
  exact hrestored.others _ place_sampleTarget

end

end SpoolCache.Store

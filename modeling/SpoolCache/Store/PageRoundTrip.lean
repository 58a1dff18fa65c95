import SpoolCache.Store.RestoredPages

/-!
# Pages through a root and back

`token_mover.py:97–177`, `token_files.py:353–452`, `token_files.py:568–682` and `gpu.py:459–615`.
Pages are captured into staging credits, published as files, streamed back and received into other
pages. Saves of different requests, at different times and with different block tables, may have
stored the files of one restore.
-/

namespace SpoolCache.Store

open SpoolCache.Base SpoolCache.Layout SpoolCache.Mover SpoolCache.Base.Program
open TokenFileStore (FileDescriptor)

/-! ### Saves -/

/-- What a save captures from: the segments of the files of a snapshot that its coverage check
accepts, the pages a block table selected for it, and what they hold. -/
structure Save (l : HMALayout) (blocks : Nat) where
  span : Nat
  files : List (List PageSlice)
  accepted : l.validateManifestCoverage span files.flatten = .ok ()
  sel : Selection l blocks span
  memory : BankMemory

section

variable {l : HMALayout} {blocks : Nat}

/-- The bytes a save finds in the pages of some segments. -/
def Save.bytes (bound : BoundLayers) (save : Save l blocks) (segments : List PageSlice) : Bytes :=
  segmentBytes bound save.sel.pages save.memory segments

/-- What a save gives to a commit for a file: its part of a batch, `token_mover.py:103–127` and
`token_mover.py:143–147`, or a stream of pieces, `token_mover.py:160–177`. Whatever else is in the
credits stays from before. -/
inductive CapturedInput (bound : BoundLayers) (creditBytes slotBytes : Nat) (save : Save l blocks)
    (parts : List PageSlice) : CommitInput → Prop where
  | batch {slot : Bytes} {files : List (List PageSlice)} {payloads : List Bytes} {i : Nat}
      {payload : Bytes} (hslot : slot.length = creditBytes) (hfiles : files ⊆ save.files)
      (h : captureBatch bound save.sel.pages creditBytes save.memory slot files = .ok payloads)
      (hparts : files[i]? = some parts) (hpayload : payloads[i]? = some payload) :
      CapturedInput bound creditBytes slotBytes save parts (.chunk payload)
  | streamed {slots : Nat → Bytes} {pieces : List Bytes}
      (hslots : ∀ i, (slots i).length = creditBytes) (hparts : parts ∈ save.files)
      (h : captureStreamed bound save.sel.pages creditBytes slotBytes save.memory slots parts =
        .ok pieces) : CapturedInput bound creditBytes slotBytes save parts (.stream (pieces.map .ok))

variable {bound : BoundLayers} {creditBytes slotBytes : Nat} {save : Save l blocks}
  {parts : List PageSlice}

private theorem Save.transferable (hbound : BoundTo l blocks bound) (hparts : parts ∈ save.files)
    {s : PageSlice} (hs : s ∈ parts) : Transferable bound save.sel.pages s :=
  transferable_of_coverage hbound save.accepted save.sel (List.mem_flatten.mpr ⟨parts, hparts, hs⟩)

/-- A captured batch fits its credit. -/
theorem captureBatch_range {slot : Bytes} {memory : BankMemory} {selected : List (List Nat)}
    {files : List (List PageSlice)} {payloads : List Bytes}
    (h : captureBatch bound selected creditBytes memory slot files = .ok payloads) :
    0 < (files.flatten.map PageSlice.byteLength).sum ∧
      (files.flatten.map PageSlice.byteLength).sum ≤ creditBytes := by
  obtain ⟨view, hview, -⟩ := bind_ok h
  unfold capturePacked at hview
  dsimp only at hview
  split at hview
  · cases hview
  · next hrange =>
    have hrange := not_not.mp hrange
    dsimp only [Option.elim] at hrange
    omega

private theorem captureStreamed_range {slots : Nat → Bytes} {memory : BankMemory}
    {selected : List (List Nat)} {pieces : List Bytes}
    (h : captureStreamed bound selected creditBytes slotBytes memory slots parts = .ok pieces) :
    slotBytes ≤ creditBytes := by
  unfold captureStreamed at h
  split at h
  · cases h
  · next hle => exact not_lt.mp hle

/-- A commit of a capture carries the bytes of the pages, whichever way it was captured. -/
theorem CapturedInput.carries (hbound : BoundTo l blocks bound) (hslot : 0 < slotBytes)
    {input : CommitInput} (h : CapturedInput bound creditBytes slotBytes save parts input) :
    input.Carries slotBytes (save.bytes bound parts) := by
  cases h with
  | batch hslot hfiles h hparts hpayload =>
    obtain ⟨hpos, hcredit⟩ := captureBatch_range h
    have hbatch := captureBatch_ok save.memory hslot
      (fun p hp s hs ↦ save.transferable hbound (hfiles hp) hs) hpos hcredit
    rw [h] at hbatch
    cases hbatch
    rw [List.getElem?_map, hparts] at hpayload
    cases hpayload
    rfl
  | streamed hslots hparts h =>
    have hpieces := captureStreamed_ok save.memory hslots hslot (captureStreamed_range h)
      fun s hs ↦ save.transferable hbound hparts hs
    rw [h] at hpieces
    cases hpieces
    rfl

/-- Captures do not depend on what is in the credits, and the ways to capture agree: a batch that
fits its credit gives each of its files what the save finds in its pages, one that does not fit is
refused, and a file that is streamed is cut into the transfer blocks of the same bytes. -/
theorem captures_agree (hbound : BoundTo l blocks bound) (hslot : 0 < slotBytes) {slot : Bytes}
    {slots : Nat → Bytes} (hlength : slot.length = creditBytes)
    (hlengths : ∀ i, (slots i).length = creditBytes) :
    (∀ files, files ⊆ save.files → ∀ payloads,
      captureBatch bound save.sel.pages creditBytes save.memory slot files = .ok payloads ↔
        0 < (files.flatten.map PageSlice.byteLength).sum ∧
          (files.flatten.map PageSlice.byteLength).sum ≤ creditBytes ∧
          payloads = files.map (save.bytes bound)) ∧
    ∀ parts ∈ save.files, ∀ pieces,
      captureStreamed bound save.sel.pages creditBytes slotBytes save.memory slots parts = .ok pieces ↔
        slotBytes ≤ creditBytes ∧ pieces = TokenFileStore.pieces slotBytes (save.bytes bound parts) := by
  refine ⟨fun files hfiles payloads ↦ ⟨fun h ↦ ?_, ?_⟩, fun parts hparts pieces ↦ ⟨fun h ↦ ?_, ?_⟩⟩
  · obtain ⟨hpos, hcredit⟩ := captureBatch_range h
    have hbatch := captureBatch_ok save.memory hlength
      (fun p hp s hs ↦ save.transferable hbound (hfiles hp) hs) hpos hcredit
    rw [h] at hbatch
    exact ⟨hpos, hcredit, Except.ok.inj hbatch⟩
  · rintro ⟨hpos, hcredit, rfl⟩
    exact captureBatch_ok save.memory hlength
      (fun p hp s hs ↦ save.transferable hbound (hfiles hp) hs) hpos hcredit
  · have hcredit := captureStreamed_range h
    have hpieces := captureStreamed_ok save.memory hlengths hslot hcredit
      fun s hs ↦ save.transferable hbound hparts hs
    rw [h] at hpieces
    exact ⟨hcredit, Except.ok.inj hpieces⟩
  · rintro ⟨hcredit, rfl⟩
    exact captureStreamed_ok save.memory hlengths hslot hcredit
      fun s hs ↦ save.transferable hbound hparts hs

/-- Two pages of the layer, the last one first. -/
def pairSource : Selection fullSample.layout 4 512 where
  tables := [[3, 1]]
  pages := [[3, 1]]
  selects := by decide +kernel
  inside := by decide

/-- A save of both pages in two files, each page full of its own number. -/
def pairSave : Save fullSample.layout 4 where
  span := 512
  files := [[⟨0, "layer", 0, 1, 64⟩], [⟨0, "layer", 1, 1, 64⟩]]
  accepted := by decide +kernel
  sel := pairSource
  memory := fun place ↦ UInt8.ofNat place.2.1

private theorem bytes_pairSave :
    pairSave.bytes sampleBound [⟨0, "layer", 0, 1, 64⟩] = List.replicate 64 3 ∧
      pairSave.bytes sampleBound [⟨0, "layer", 1, 1, 64⟩] = List.replicate 64 1 := by
  decide +kernel

/-- One credit takes both files of the batch, and the second file is streamed in two blocks. -/
theorem captures_agree_pair :
    captureBatch sampleBound [[3, 1]] 128 pairSave.memory (List.replicate 128 7)
        [[⟨0, "layer", 0, 1, 64⟩], [⟨0, "layer", 1, 1, 64⟩]] =
          .ok [List.replicate 64 3, List.replicate 64 1] ∧
      captureStreamed sampleBound [[3, 1]] 128 32 pairSave.memory (fun _ ↦ List.replicate 128 7)
        [⟨0, "layer", 1, 1, 64⟩] = .ok [List.replicate 32 1, List.replicate 32 1] := by
  have h := @captures_agree _ 4 sampleBound 128 32 pairSave boundTo_sampleBound (by decide)
    (List.replicate 128 7) (fun _ ↦ List.replicate 128 7) List.length_replicate
    fun _ ↦ List.length_replicate
  obtain ⟨hfirst, hsecond⟩ := bytes_pairSave
  constructor
  · refine (h.1 _ (List.Subset.refl _) _).mpr ⟨by decide, by decide, ?_⟩
    have hfiles : pairSave.files = [[⟨0, "layer", 0, 1, 64⟩], [⟨0, "layer", 1, 1, 64⟩]] := rfl
    rw [hfiles, List.map_cons, List.map_cons, List.map_nil, hfirst, hsecond]
  · refine (h.2 _ (List.mem_cons_of_mem _ List.mem_cons_self) _).mpr ⟨by decide, ?_⟩
    rw [hsecond]
    decide +kernel

private theorem carries_unique {payload payload' : Bytes} {input : CommitInput}
    (hslot : 0 < slotBytes)
    (h : input.Carries slotBytes payload) (h' : input.Carries slotBytes payload') :
    payload = payload' := by
  cases input with
  | chunk p => exact Eq.trans (Eq.symm h) h'
  | stream pieces => exact carries_stream_unique hslot h h'

end

/-! ### Saved files -/

section

variable {store : TokenFileStore} {blocks : Nat} {bound : BoundLayers} {creditBytes : Nat}

/-- At the path of a descriptor lies what a commit of a save published for it, and no marker
withdraws it. -/
structure SavedFile (store : TokenFileStore) (bound : BoundLayers) (creditBytes : Nat)
    (save : Save store.layout blocks) (desc : FileDescriptor) (d : Disk) : Prop where
  unmarked : d.markers.get? desc.key = none
  file : ∃ f header input, d.files.get? desc.key = some f ∧
    CapturedInput bound creditBytes store.slotBytes save desc.segments input ∧
    FileOf store desc.key header input f.data ∧ store.openData desc.key f.data = .ok desc

private theorem SavedFile.intact (hbound : BoundTo store.layout blocks bound)
    {save : Save store.layout blocks} {desc : FileDescriptor} {d : Disk}
    (h : SavedFile store bound creditBytes save desc d) :
    Intact store desc (save.bytes bound desc.segments) d := by
  obtain ⟨f, header, input, hf, hcaptured, hfile, hopen⟩ := h.file
  obtain ⟨payload, hcarries, hintact⟩ := hfile.intact hopen h.unmarked hf
  rw [carries_unique store.slotBytes_pos (hcaptured.carries hbound store.slotBytes_pos) hcarries]
  exact hintact

/-! ### Restores of intact files -/

variable {poolBytes : Nat} {payload : FileDescriptor → Bytes} {descriptors : List FileDescriptor}

private theorem passedRanges_eq_servedParts :
    passedRanges (fileRanges store poolBytes (descriptors.map fun d ↦ (d, payload d))) =
      servedParts store poolBytes payload descriptors := by
  unfold passedRanges fileRanges servedParts
  rw [List.map_map, List.flatMap_map]
  rfl

/-! ### The round trip -/

variable {span : Nat} {hooked : Bool} {busy : Digest → Bool} {lease : RestoreLease}

/-- What saves captured from pages and commits published for it, a restore that no call fails puts
back: it returns, its receivers take what it passes on, every byte of the pages it selects is then
the byte that the save of its file found in its own page, and no other page changes. -/
theorem pages_survive_round_trip (hbound : BoundTo store.layout blocks bound)
    (hcover : store.layout.validateManifestCoverage span (descriptors.flatMap (·.segments)) = .ok ())
    (sel : Selection store.layout blocks span)
    (howned : lease.owned = true) (hactive : lease.active = true)
    (hlease : lease.descriptors = descriptors)
    (hslot : ∀ d ∈ descriptors, min d.byteLength store.slotBytes ≤ poolBytes)
    {disk : Disk} {later : List Disk} {save : FileDescriptor → Save store.layout blocks}
    (hsaved : ∀ d ∈ disk :: later, ∀ desc ∈ descriptors,
      SavedFile store bound creditBytes (save desc) desc d) (memory : BankMemory) :
    ∃ m ranges memory',
      streamObjects store poolBytes hooked busy lease descriptors ⟨[], disk, later, none, []⟩ =
        (.returned (), m) ∧
      ranges.map Prod.fst = descriptors ∧ deliveries m.state.events = passedRanges ranges ∧
      receiveObjects bound sel.pages poolBytes ranges memory = .ok memory' ∧
      (∀ c, SelectedByte store.layout span c → ∃ desc ∈ descriptors, c ∈ fileCoords bound desc ∧
        memory' (place sel.pages c) = (save desc).memory (place (save desc).sel.pages c)) ∧
      ∀ x, (∀ c, SelectedByte store.layout span c → place sel.pages c ≠ x) → memory' x = memory x := by
  have hintact : ∀ d ∈ disk :: later, ∀ desc ∈ descriptors,
      Intact store desc ((save desc).bytes bound desc.segments) d := fun d hd desc hdesc ↦
    (hsaved d hd desc hdesc).intact hbound
  have hfiles : (descriptors.map fun d ↦ (d, (save d).bytes bound d.segments)).map Prod.fst =
      descriptors := by
    rw [List.map_map]
    exact List.map_id _
  obtain ⟨m, hreturned, hpassed⟩ := @returns_streamObjects store _ descriptors poolBytes hooked busy
    lease ⟨howned, hactive, hlease, hslot⟩ disk later hintact
  obtain ⟨memory', hreceive, hrestored⟩ := @receive_restores store blocks span poolBytes bound
    (descriptors.map fun d ↦ (d, (save d).bytes bound d.segments)) hbound (hfiles.symm ▸ hcover) sel
    (fun x hx ↦ by
      obtain ⟨d, hd, rfl⟩ := List.mem_map.mp hx
      have h := hintact disk List.mem_cons_self d hd
      obtain ⟨f, -, hopen, -⟩ := h.file
      exact ⟨h.opened, (TokenFileStore.sliced_of_openData hopen).2⟩)
    (fun x hx ↦ by
      obtain ⟨d, hd, rfl⟩ := List.mem_map.mp hx
      exact hslot d hd) memory
  refine ⟨m, _, memory', hreturned, ?_, ?_, hreceive, fun c hc ↦ ?_, hrestored.others⟩
  · unfold fileRanges
    rw [List.map_map]
    exact hfiles
  · rw [hpassed, passedRanges_eq_servedParts]
  · obtain ⟨x, hx, hcx⟩ := hrestored.whole c hc
    obtain ⟨desc, hdesc, rfl⟩ := List.mem_map.mp hx
    refine ⟨desc, hdesc, hcx, ?_⟩
    exact List.map_inj_left.mp (hrestored.held _ hx) c hcx

/-- A save of the second page of the layer, full of ones. -/
def sampleSave : Save fullSample.layout 4 where
  span := 256
  files := [[⟨0, "layer", 0, 1, 64⟩]]
  accepted := coverage_fullSample
  sel := sampleSource
  memory := fun _ ↦ 1

private theorem bytes_sampleSave : sampleSave.bytes sampleBound [⟨0, "layer", 0, 1, 64⟩] =
      sampleBlock := by
  decide +kernel

private theorem capturedInput_sampleSave :
    CapturedInput sampleBound 64 64 sampleSave [⟨0, "layer", 0, 1, 64⟩] sampleInput := by
  have hpieces := @captureStreamed_ok sampleBound sampleSave.sel.pages 64 64 sampleSave.memory
    (fun _ ↦ List.replicate 64 0) (fun _ ↦ List.length_replicate) (by decide) le_rfl
    [⟨0, "layer", 0, 1, 64⟩] fun s hs ↦
      sampleSave.transferable boundTo_sampleBound List.mem_cons_self hs
  have hone : (TokenFileStore.pieces 64 (sampleSave.bytes sampleBound
      [⟨0, "layer", 0, 1, 64⟩])) = [sampleBlock] := by
    rw [bytes_sampleSave]
    decide +kernel
  exact .streamed (fun _ ↦ List.length_replicate) List.mem_cons_self (hpieces.trans (congrArg _ hone))

/-- The bytes of page 1 are restored to page 3, and page 2 is untouched. -/
theorem pages_survive_round_trip_fullSample : ∃ (desc : FileDescriptor) (ranges : List _)
    (memory' : BankMemory), ranges.map Prod.fst = [desc] ∧
      receiveObjects sampleBound [[3]] 64 ranges (fun _ ↦ 0) = .ok memory' ∧
      memory' ((0, "layer"), (3, 5)) = 1 ∧ memory' ((0, "layer"), (2, 5)) = 0 := by
  obtain ⟨desc, data, d', -, hfile, hmarker, hof, hopen, hkey, hsegments⟩ := commit_fullSample
  rw [← hkey] at hof hopen hmarker hfile
  have hsaved : SavedFile fullSample sampleBound 64 sampleSave desc d' :=
    ⟨hmarker, ⟨data, true⟩, _, sampleInput, hfile, hsegments ▸ capturedInput_sampleSave, hof, hopen⟩
  have hcover : fullSample.layout.validateManifestCoverage 256 ([desc].flatMap (·.segments)) =
      .ok () := by
    rw [List.flatMap_singleton, hsegments]
    exact coverage_fullSample
  obtain ⟨m, ranges, memory', -, hranges, -, hreceive, hheld, hothers⟩ :=
    @pages_survive_round_trip fullSample 4 sampleBound 64 64 [desc] 256 false (fun _ ↦ true)
      (sampleLease desc) boundTo_sampleBound hcover sampleTarget rfl rfl rfl
      (fun d _ ↦ Nat.min_le_right _ _) d' [] (fun _ ↦ sampleSave) (fun d hd desc' hdesc ↦ by
        rw [List.mem_singleton.mp hd, List.mem_singleton.mp hdesc]
        exact hsaved) fun _ ↦ 0
  have hselected : SelectedByte fullSample.layout 256 ((0, "layer"), (0, 5)) :=
    ⟨fullSampleGroup, List.mem_cons_self, sampleLayer, List.mem_cons_self, rfl, 1, rfl, by decide,
      by decide⟩
  obtain ⟨desc', -, -, hone⟩ := hheld _ hselected
  exact ⟨desc, ranges, memory', hranges, hreceive, hone, hothers _ place_sampleTarget⟩

end

end SpoolCache.Store

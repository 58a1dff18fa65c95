import SpoolCache.Store.Delivery
import SpoolCache.Store.Steps

/-!
# Streams of intact files

`stream_objects` over files that lie whole at their paths, `token_files.py:568–682`. Without
failing calls it returns, and has passed on exactly the payloads of the files. What it passes on of
any files, with any failing calls, is authentic.
-/

namespace SpoolCache.Store

open SpoolCache.Base SpoolCache.Layout SpoolCache.Base.Program
open TokenFileStore (Authentic Opened FileDescriptor)

namespace TokenFileStore

/-- The segments and the length of a descriptor that an open gave. -/
theorem sliced_of_openData {store : TokenFileStore} {key : Digest} {data : Bytes}
    {desc : FileDescriptor} (h : store.openData key data = .ok desc) :
    store.layout.segments desc.spanTokens desc.kind = .ok desc.segments ∧
      desc.byteLength = (desc.segments.map PageSlice.byteLength).sum := by
  obtain ⟨⟨encoded, checksum⟩, -, h⟩ := bind_ok h
  obtain ⟨p, hp, h⟩ := bind_ok h
  have hheader : ∃ header digest blocks,
      store.headerPayload key header digest (some blocks) = .ok p := by
    unfold decodeHeader at hp
    split at hp
    · cases hp
    · split at hp
      · cases hp
      · split at hp
        · cases hp
        · next hheader =>
          split at hp
          · cases hp
          · cases hp
            exact ⟨_, _, _, hheader⟩
  obtain ⟨header, digest, blocks, hheader⟩ := hheader
  obtain ⟨hsegments, -, hp, -, hbytes, -⟩ := headerPayload_ok hheader
  have hslices := segments_of_headerPayload hsegments
  rw [← hp] at hslices
  split at h
  · cases h
  · split at h
    · cases h
    · cases h
      exact ⟨hslices, hbytes⟩

end TokenFileStore

/-- The file of a descriptor lies whole at its path, and its key is not withdrawn. -/
structure Intact (store : TokenFileStore) (desc : FileDescriptor) (payload : Bytes) (d : Disk) :
    Prop where
  unmarked : d.markers.get? desc.key = none
  file : ∃ f, d.files.get? desc.key = some f ∧ store.openData desc.key f.data = .ok desc ∧
    f.data.drop desc.payloadOffset = payload
  blocks : (TokenFileStore.pieces store.slotBytes payload).map sha256 = desc.blockSha256
  digest : sha256 payload = desc.digest

/-- An intact file opens. -/
theorem Intact.opened {store : TokenFileStore} {desc : FileDescriptor} {payload : Bytes} {d : Disk}
    (h : Intact store desc payload d) : Opened store desc.key desc payload := by
  obtain ⟨f, -, hopen, hrest⟩ := h.file
  rw [← hrest]
  exact TokenFileStore.opened_of_openData hopen

/-- The files lie whole at every open, no key is noted, and this much has been passed on. -/
structure Serving (store : TokenFileStore) (payload : FileDescriptor → Bytes)
    (descriptors : List FileDescriptor) (passed : List (Digest × Bytes)) (w : StreamWorld) :
    Prop where
  intact : ∀ d, d = w.disk ∨ d ∈ w.later → ∀ desc ∈ descriptors, Intact store desc (payload desc) d
  unnoted : w.failedKey = none
  passed_eq : deliveries w.events = passed

/-- What receivers get of intact files. -/
def servedParts (store : TokenFileStore) (poolBytes : Nat) (payload : FileDescriptor → Bytes)
    (descriptors : List FileDescriptor) : List (Digest × Bytes) :=
  descriptors.flatMap fun desc ↦ (partsOf store poolBytes desc (payload desc)).map (desc.key, ·)

/-- A published file that opens lies whole at its path. -/
theorem FileOf.intact {store : TokenFileStore} {desc : FileDescriptor} {header : TokenHeader}
    {input : CommitInput} {d : Disk} {f : DiskFile} (h : FileOf store desc.key header input f.data)
    (hopen : store.openData desc.key f.data = .ok desc) (hmarker : d.markers.get? desc.key = none)
    (hfile : d.files.get? desc.key = some f) :
    ∃ payload, input.Carries store.slotBytes payload ∧ Intact store desc payload d := by
  obtain ⟨payload, p, encoded, hcarries, hheader, hencode, hdata⟩ := h
  obtain ⟨htyped, hlength, hdigest, hblocks⟩ := TokenFileStore.commitHeader_ok hheader
  have hopen' := hopen
  rw [hdata, TokenFileStore.openData_encodeHeader htyped hencode hlength] at hopen'
  have hdesc : store.descriptor p = desc := Except.ok.inj hopen'
  refine ⟨payload, hcarries, hmarker, ⟨f, hfile, hopen, ?_⟩, ?_, ?_⟩
  · rw [hdata, ← hdesc]
    exact TokenFileStore.drop_payloadOffset hencode payload
  · rw [← hdesc]
    exact hblocks.symm
  · rw [← hdesc]
    exact hdigest.symm

section

variable {store : TokenFileStore} {payload : FileDescriptor → Bytes}
  {descriptors : List FileDescriptor} {passed : List (Digest × Bytes)} {poolBytes : Nat}

/-! ### Calls -/

private theorem verifyBlocks_of_eq {slotBytes : Nat} {blocks : List Digest} {index : Nat}
    {view : Bytes} (h : blocks = (List.range blocks.length).map fun i ↦
      sha256 ((view.drop ((index + i) * slotBytes)).take slotBytes)) :
    verifyBlocks slotBytes blocks index view = .ok () := by
  induction blocks generalizing index with
  | nil => rfl
  | cons expected rest ih =>
    rw [List.length_cons, List.range_succ_eq_map, List.map_cons, List.map_map, Nat.add_zero] at h
    obtain ⟨hexpected, hrest⟩ := List.cons.inj h
    unfold verifyBlocks
    rw [if_neg (not_not.mpr hexpected.symm)]
    refine ih (hrest.trans (List.map_congr_left fun i _ ↦ ?_))
    dsimp only [Function.comp]
    rw [Nat.add_right_comm, Nat.add_assoc]

/-- An intact payload passes `_verify_buffer`. -/
theorem verifyBuffer_of_intact {desc : FileDescriptor} {d : Disk} {data : Bytes}
    (h : Intact store desc data d) : verifyBuffer store desc data = .ok () := by
  have hblocks : verifyBlocks store.slotBytes desc.blockSha256 0 data = .ok () := by
    refine verifyBlocks_of_eq ?_
    rw [h.opened.count]
    unfold TokenFileStore.transferBlocks
    rw [← h.opened.length_rest, ← h.blocks]
    unfold TokenFileStore.pieces
    rw [List.map_map]
    refine List.map_congr_left fun i _ ↦ ?_
    rw [Nat.zero_add]
    rfl
  unfold verifyBuffer
  rw [hblocks, ok_bind, if_neg fun hne ↦ hne.2 h.digest]
  rfl

private theorem serving_recordEvent {e : StreamEvent} (he : deliveries [e] = []) :
    Returns (Serving store payload descriptors passed) (recordEvent e)
      fun _ ↦ Serving store payload descriptors passed := by
  refine returns_effect fun w h ↦ ⟨h.intact, h.unnoted, ?_⟩
  rw [deliveries_append, he, List.append_nil]
  exact h.passed_eq

private theorem serving_setFailedKey :
    Returns (Serving store payload descriptors passed) (setFailedKey none)
      fun _ ↦ Serving store payload descriptors passed :=
  returns_effect fun _ h ↦ ⟨h.intact, rfl, h.passed_eq⟩

private theorem serving_closeObject :
    Returns (Serving store payload descriptors passed) closeObject
      fun _ ↦ Serving store payload descriptors passed := returns_update fun _ h ↦ h

private theorem serving_borrowCredit :
    Returns (Serving store payload descriptors passed) borrowCredit
      fun _ ↦ Serving store payload descriptors passed := by
  refine returns_update fun w h ↦ ⟨h.intact, h.unnoted, ?_⟩
  rw [deliveries_append, deliveries_borrow, List.append_nil]
  exact h.passed_eq

private theorem serving_receive (key : Digest) (data : Bytes) :
    Returns (Serving store payload descriptors passed) (receive key data)
      fun _ ↦ Serving store payload descriptors (passed ++ [(key, data)]) := by
  refine returns_update fun w h ↦ ⟨h.intact, h.unnoted, ?_⟩
  rw [deliveries_append, deliveries_deliver, h.passed_eq]

private theorem serving_quarantineNoted {hooked : Bool} {busy : Digest → Bool} :
    Returns (Serving store payload descriptors passed) (quarantineNoted hooked busy)
      fun _ ↦ Serving store payload descriptors passed := by
  unfold quarantineNoted
  refine Returns.bind (X := fun failed w ↦ failed = none ∧
    Serving store payload descriptors passed w) (returns_observe fun w h ↦ ⟨h.unnoted, h⟩)
    fun failed ↦ returns_of_fact fun hfailed ↦ ?_
  rw [hfailed]
  exact returns_pure fun _ h ↦ h

/-- An open finds the file of the descriptor. -/
theorem serving_openObject {desc : FileDescriptor} (hdesc : desc ∈ descriptors) :
    Returns (Serving store payload descriptors passed) (openObject store desc.key)
      fun r w ↦ r = (desc, payload desc) ∧ Serving store payload descriptors passed w := by
  unfold openObject onDisk
  refine Returns.bind (X := fun _ ↦ Serving store payload descriptors passed)
    (returns_effect fun w h ↦ ⟨fun d hd ↦ h.intact d ?_, h.unnoted, h.passed_eq⟩) fun _ ↦ ?_
  · rcases hd with rfl | hd
    · cases w.later with
      | nil => exact .inl rfl
      | cons d later => exact .inr List.mem_cons_self
    · exact .inr (List.mem_of_mem_tail hd)
  · refine returns_zoom (Y := fun w r d ↦ d = w.disk ∧ r = (desc, payload desc)) (fun w h ↦ ?_)
      fun w r d h hr ↦ ⟨hr.2, ?_⟩
    · have hintact := h.intact _ (.inl rfl) desc hdesc
      obtain ⟨f, hf, hopen, hrest⟩ := hintact.file
      unfold openPath
      have hgate : Returns (fun d ↦ d = w.disk) (withdrawalGate desc.key false)
          fun withdrawn d ↦ withdrawn = false ∧ d = w.disk := by
        change Returns _ (inventoryIsWithdrawn desc.key) _
        refine returns_look fun d hd ↦ ⟨false, ?_, rfl, hd⟩
        rw [hd, hintact.unmarked]
        rfl
      refine hgate.bind fun withdrawn ↦ returns_of_fact fun hw ↦ ?_
      · rw [hw, if_neg Bool.false_ne_true]
        refine returns_look fun d hd ↦ ⟨(desc, payload desc), ?_, hd, rfl⟩
        rw [hd, hf]
        dsimp only
        rw [hopen]
        exact congrArg (fun rest ↦ Except.ok (desc, rest)) hrest
    · rw [hr.1]
      exact h

private theorem serving_readInto {key : Digest} {rest : Bytes} {length : Nat}
    (h : length ≤ rest.length) :
    Returns (Serving store payload descriptors passed) (readInto key rest length)
      fun view w ↦ view = rest.take length ∧ Serving store payload descriptors passed w := by
  unfold readInto
  refine (serving_recordEvent rfl).bind fun _ ↦ returns_look fun w hw ↦
    ⟨rest.take length, if_neg (not_lt.mpr h), rfl, hw⟩

/-! ### Files that share a credit -/

/-- A small intact file is passed on whole. -/
theorem serving_packedFile {desc : FileDescriptor} (hdesc : desc ∈ descriptors) {d : Disk}
    (hintact : Intact store desc (payload desc) d) {offset : Nat}
    (hfits : offset + desc.byteLength ≤ poolBytes) :
    Returns (Serving store payload descriptors passed) (packedFile store poolBytes desc offset)
      fun _ ↦ Serving store payload descriptors (passed ++ [(desc.key, payload desc)]) := by
  have hlength := hintact.opened.length_rest
  unfold packedFile noteFailure
  refine Returns.bind ((serving_openObject hdesc).handle _) ?_
  rintro ⟨current, rest⟩
  refine returns_of_fact fun hr ↦ ?_
  obtain ⟨rfl, rfl⟩ : current = desc ∧ rest = payload desc := Prod.mk.inj hr
  refine Returns.always (Returns.handle ?_ _) fun _ ↦ serving_closeObject
  rw [if_neg (not_not.mpr rfl), sliceLength_fits hfits]
  refine (serving_readInto hlength.ge).bind fun view ↦ returns_of_fact fun hview ↦ ?_
  rw [hview, List.take_of_length_le hlength.le, verifyBuffer_of_intact hintact]
  exact Returns.bind (returns_pure fun _ h ↦ h) fun _ ↦ serving_receive current.key (payload current)

private theorem serving_packedFiles {batch : List FileDescriptor} (hbatch : batch ⊆ descriptors)
    (hintact : ∀ desc ∈ batch, ∃ d, Intact store desc (payload desc) d) {offset : Nat}
    (hfits : offset + totalBytes batch ≤ poolBytes) :
    Returns (Serving store payload descriptors passed) (packedFiles store poolBytes batch offset)
      fun _ ↦ Serving store payload descriptors
        (passed ++ servedParts store poolBytes payload batch) := by
  induction batch generalizing offset passed with
  | nil =>
    refine returns_pure fun w h ↦ ?_
    rw [servedParts, List.flatMap_nil, List.append_nil]
    exact h
  | cons desc rest ih =>
    unfold totalBytes at hfits
    rw [List.map_cons, List.sum_cons] at hfits
    have hparts : servedParts store poolBytes payload (desc :: rest) =
        [(desc.key, payload desc)] ++ servedParts store poolBytes payload rest := by
      unfold servedParts
      rw [List.flatMap_cons, partsOf_small (by omega)]
      rfl
    obtain ⟨d, hd⟩ := hintact desc List.mem_cons_self
    unfold packedFiles
    rw [hparts, ← List.append_assoc]
    exact (serving_packedFile (hbatch List.mem_cons_self) hd (by omega)).bind fun _ ↦
      ih (fun x hx ↦ hbatch (List.mem_cons_of_mem _ hx))
        (fun x hx ↦ hintact x (List.mem_cons_of_mem _ hx)) (by unfold totalBytes; omega)

private theorem serving_streamBatch {hooked : Bool} {busy : Digest → Bool}
    {batch : List FileDescriptor}
    (hbatch : batch ⊆ descriptors) (hintact : ∀ desc ∈ batch, ∃ d, Intact store desc (payload desc) d)
    (hfits : totalBytes batch ≤ poolBytes) :
    Returns (Serving store payload descriptors passed)
      (streamBatch store poolBytes hooked busy batch)
      fun _ ↦ Serving store payload descriptors
        (passed ++ servedParts store poolBytes payload batch) := by
  unfold streamBatch
  refine serving_setFailedKey.bind fun _ ↦ Returns.always ?_ fun _ ↦ serving_quarantineNoted
  refine serving_borrowCredit.bind fun _ ↦ Returns.always (Returns.always ?_ fun _ ↦
    serving_recordEvent rfl) fun _ ↦ serving_recordEvent rfl
  exact serving_packedFiles hbatch hintact (by omega)

/-! ### Larger files -/

private theorem serving_streamBlock {key : Digest} {rest : Bytes} {length : Nat}
    (hfits : length ≤ poolBytes) (hlength : length ≤ rest.length) :
    Returns (Serving store payload descriptors passed)
      (streamBlock poolBytes key (sha256 (rest.take length)) length rest)
      fun view w ↦ view = rest.take length ∧
        Serving store payload descriptors (passed ++ [(key, rest.take length)]) w := by
  unfold streamBlock
  refine serving_borrowCredit.bind fun _ ↦ Returns.always
    (Y := fun view w ↦ view = rest.take length ∧
      Serving store payload descriptors (passed ++ [(key, rest.take length)]) w)
    (Returns.always (Y := fun view w ↦ view = rest.take length ∧
      Serving store payload descriptors (passed ++ [(key, rest.take length)]) w) ?_ fun view ↦
    returns_of_fact fun h ↦ ((serving_recordEvent rfl).mono fun _ _ hw ↦ ⟨h, hw⟩)) fun view ↦
    returns_of_fact fun h ↦ ((serving_recordEvent rfl).mono fun _ _ hw ↦ ⟨h, hw⟩)
  rw [sliceLength_fits (by omega : 0 + length ≤ poolBytes)]
  refine (serving_readInto hlength).bind fun view ↦ returns_of_fact fun hview ↦ ?_
  rw [hview, if_neg (not_not.mpr rfl)]
  exact (serving_receive key _).bind fun _ ↦ returns_pure fun _ h ↦ ⟨rfl, h⟩

/-- The blocks of an intact file are passed on one after the other. -/
theorem serving_streamBlocks {key : Digest} {blocks : List Digest} {rest sofar : Bytes}
    (hfits : store.slotBytes ≤ poolBytes)
    (hblocks : (TokenFileStore.pieces store.slotBytes rest).map sha256 = blocks) :
    Returns (Serving store payload descriptors passed)
      (streamBlocks store poolBytes key blocks rest.length rest sofar)
      fun r w ↦ r = (0, sofar ++ rest) ∧ Serving store payload descriptors
        (passed ++ (TokenFileStore.pieces store.slotBytes rest).map (key, ·)) w := by
  induction blocks generalizing rest sofar passed with
  | nil =>
    have hrest : rest = [] := by
      by_contra hne
      rw [TokenFileStore.pieces_cons store.slotBytes_pos hne] at hblocks
      cases hblocks
    subst hrest
    refine returns_pure fun w h ↦ ?_
    rw [TokenFileStore.pieces_nil, List.map_nil, List.append_nil, List.append_nil]
    exact ⟨rfl, h⟩
  | cons expected blocks ih =>
    have hne : rest ≠ [] := by
      rintro rfl
      rw [TokenFileStore.pieces_nil] at hblocks
      cases hblocks
    have hpieces := TokenFileStore.pieces_cons store.slotBytes_pos hne
    rw [hpieces, List.map_cons] at hblocks
    obtain ⟨hexpected, hrest⟩ := List.cons.inj hblocks
    have hview : rest.take (min rest.length store.slotBytes) = rest.take store.slotBytes := by
      rw [Nat.min_comm, ← List.take_eq_take_min]
    have hdrop : rest.drop (rest.take store.slotBytes).length = rest.drop store.slotBytes := by
      rw [List.length_take]
      exact List.drop_eq_drop_min.symm
    have hremaining : rest.length - min rest.length store.slotBytes =
        (rest.drop store.slotBytes).length := by
      rw [List.length_drop]
      omega
    unfold streamBlocks
    rw [← hexpected, ← hview]
    refine (serving_streamBlock (by omega) (by omega)).bind fun view ↦ returns_of_fact fun h ↦ ?_
    rw [h, hview, hdrop, hremaining]
    refine (ih hrest).mono fun r w hw ↦ ⟨?_, ?_⟩
    · rw [hw.1, List.append_assoc, List.take_append_drop]
    · rw [hpieces, List.map_cons, ← List.singleton_append, ← List.append_assoc]
      exact hw.2

/-- A larger intact file is passed on by its blocks. -/
theorem serving_streamLargeObject {hooked : Bool} {busy : Digest → Bool} {desc : FileDescriptor}
    (hdesc : desc ∈ descriptors) {d : Disk} (hintact : Intact store desc (payload desc) d)
    (hlarge : poolBytes < desc.byteLength) (hslot : store.slotBytes ≤ poolBytes) :
    Returns (Serving store payload descriptors passed)
      (streamLargeObject store poolBytes hooked busy desc)
      fun _ ↦ Serving store payload descriptors
        (passed ++ servedParts store poolBytes payload [desc]) := by
  have hparts : servedParts store poolBytes payload [desc] =
      (TokenFileStore.pieces store.slotBytes (payload desc)).map (desc.key, ·) := by
    unfold servedParts partsOf
    rw [List.flatMap_singleton, if_pos hlarge]
  unfold streamLargeObject noteFailure
  refine serving_setFailedKey.bind fun _ ↦
    Returns.bind (((serving_openObject hdesc).handle _).handle _) ?_
  rintro ⟨current, rest⟩
  refine returns_of_fact fun hr ↦ ?_
  obtain ⟨rfl, rfl⟩ : current = desc ∧ rest = payload desc := Prod.mk.inj hr
  refine Returns.always (Returns.handle ?_ _) fun _ ↦
    serving_closeObject.bind fun _ ↦ serving_quarantineNoted
  rw [if_neg (not_not.mpr rfl), ← hintact.opened.length_rest, hparts]
  refine Returns.bind (serving_streamBlocks hslot hintact.blocks) ?_
  rintro ⟨remaining, sofar⟩
  refine returns_of_fact fun hr ↦ ?_
  obtain ⟨rfl, rfl⟩ : remaining = 0 ∧ sofar = payload current := Prod.mk.inj hr
  dsimp only
  rw [if_neg (not_or.mpr ⟨not_not.mpr rfl, not_not.mpr hintact.digest⟩)]
  exact returns_pure fun _ h ↦ h

/-! ### All files -/

private theorem serving_streamFrom {hooked : Bool} {busy : Digest → Bool} {rounds : Nat}
    {left : List FileDescriptor} (hrounds : left.length ≤ rounds) (hleft : left ⊆ descriptors)
    (hintact : ∀ desc ∈ left, ∃ d, Intact store desc (payload desc) d)
    (hslot : ∀ d ∈ left, min d.byteLength store.slotBytes ≤ poolBytes) :
    Returns (Serving store payload descriptors passed)
      (streamFrom store poolBytes hooked busy rounds left)
      fun _ ↦ Serving store payload descriptors
        (passed ++ servedParts store poolBytes payload left) := by
  have hnil : ∀ {passed : List (Digest × Bytes)} {w : StreamWorld},
      Serving store payload descriptors passed w →
      Serving store payload descriptors (passed ++ servedParts store poolBytes payload []) w := by
    intro passed w h
    rw [servedParts, List.flatMap_nil, List.append_nil]
    exact h
  induction rounds generalizing left passed with
  | zero =>
    rw [List.length_eq_zero_iff.mp (Nat.le_zero.mp hrounds)]
    exact returns_pure fun _ h ↦ hnil h
  | succ rounds ih =>
    have hsplit : ∀ first others : List FileDescriptor, passed ++
        servedParts store poolBytes payload (first ++ others) =
        passed ++ servedParts store poolBytes payload first ++
          servedParts store poolBytes payload others := by
      intro first others
      unfold servedParts
      rw [List.flatMap_append, List.append_assoc]
    cases left with
    | nil => exact returns_pure fun _ h ↦ hnil h
    | cons desc rest =>
      unfold streamFrom
      split
      · next hlarge =>
        obtain ⟨d, hd⟩ := hintact desc List.mem_cons_self
        have hfits := hslot desc List.mem_cons_self
        rw [← List.singleton_append, hsplit]
        refine (serving_streamLargeObject (hleft List.mem_cons_self) hd hlarge (by omega)).bind
          fun _ ↦ ih (Nat.le_of_succ_le_succ hrounds) (fun x hx ↦ hleft (List.mem_cons_of_mem _ hx))
            (fun x hx ↦ hintact x (List.mem_cons_of_mem _ hx))
            fun x hx ↦ hslot x (List.mem_cons_of_mem _ hx)
      · next hsmall =>
        have happend := takeBatch_append poolBytes (desc :: rest) 0 0
        have hne := takeBatch_ne_nil poolBytes desc rest
        have hfits := takeBatch_fits (desc :: rest) (Nat.zero_le maxBatchChunks)
          (Nat.zero_le poolBytes) fun _ d hd ↦ by
            cases hd
            omega
        generalize takeBatch poolBytes (desc :: rest) 0 0 = taken at happend hne hfits
        obtain ⟨batch, others⟩ := taken
        dsimp only at happend hne hfits ⊢
        rw [← happend] at hrounds hleft hintact hslot ⊢
        have hlength : others.length ≤ rounds := by
          have := List.length_pos_of_ne_nil hne
          rw [List.length_append] at hrounds
          omega
        rw [hsplit]
        refine (serving_streamBatch (fun x hx ↦ hleft (List.mem_append_left _ hx))
          (fun x hx ↦ hintact x (List.mem_append_left _ hx)) (by omega)).bind fun _ ↦
          ih hlength (fun x hx ↦ hleft (List.mem_append_right _ hx))
            (fun x hx ↦ hintact x (List.mem_append_right _ hx))
            fun x hx ↦ hslot x (List.mem_append_right _ hx)

/-- Without failing calls, a restore of intact files passes each of them on. -/
theorem returns_streamObjects {hooked : Bool} {busy : Digest → Bool} {lease : RestoreLease}
    (hadmitted : Admitted store poolBytes lease descriptors) {disk : Disk} {later : List Disk}
    (hintact : ∀ d ∈ disk :: later, ∀ desc ∈ descriptors, Intact store desc (payload desc) d) :
    ∃ m, streamObjects store poolBytes hooked busy lease descriptors ⟨[], disk, later, none, []⟩ =
      (.returned (), m) ∧
      deliveries m.state.events = servedParts store poolBytes payload descriptors := by
  have hserving : Serving store payload descriptors [] ⟨disk, later, none, []⟩ :=
    ⟨fun d hd ↦ hintact d (List.mem_cons.mpr hd), rfl, rfl⟩
  obtain ⟨u, w, heq, hserved⟩ := @serving_streamFrom store payload descriptors [] poolBytes hooked
    busy _ _ le_rfl (List.Subset.refl _)
    (fun desc hdesc ↦ ⟨disk, hintact disk List.mem_cons_self desc hdesc⟩) hadmitted.credit _ hserving
  refine ⟨⟨[], w⟩, ?_, hserved.passed_eq⟩
  rw [streamObjects_of_admitted hadmitted]
  exact heq

end

/-! ### Streams of any files -/

section

variable {S : Digest → Bytes → Prop} {store : TokenFileStore} {poolBytes : Nat} {hooked : Bool}
  {busy : Digest → Bool} {lease : RestoreLease} {descriptors : List FileDescriptor}

/-- Whatever lies at the paths and whatever fails, a restore raises before it touches anything
exactly when its lease or its credits will not do. One that returns has passed on every file of its
lease once, in order, with its length and all its checksums; one that stops has passed on the files
before the one that failed, and of this only bytes with their checksums. Credits are back at the
pool after either, and unless a call failed the key is marked for good. -/
theorem stream_authenticates (hpinned : ∀ d ∈ descriptors, busy d.key = true) {w : StreamWorld}
    (hsources : Sources S w) (hevents : w.events = []) (faults : List Fault) :
    ∃ o m, streamObjects store poolBytes hooked busy lease descriptors ⟨faults, w⟩ = (o, m) ∧
      (¬ Admitted store poolBytes lease descriptors →
        m = ⟨faults, w⟩ ∧ ∃ message, o = .raised (.valueError message)) ∧
      (Admitted store poolBytes lease descriptors →
        (o = .returned () → Idle poolBytes m.state ∧
          Delivered S store poolBytes descriptors (deliveries m.state.events)) ∧
        (∀ e, o = .raised e → Idle poolBytes m.state ∧
          Stopped S store poolBytes descriptors [] (deliveries m.state.events)
            fun d part ↦ .fail ∉ faults → isStorageError e = true ∧
              (∀ v, m.state.disk.markers.Possible d.key v → v ≠ none) ∧
              (d.byteLength ≤ poolBytes → part = [])) ∧
        (o = .crashed → Stopped S store poolBytes descriptors [] (deliveries m.state.events)
          fun _ _ ↦ True)) := by
  by_cases hadmitted : Admitted store poolBytes lease descriptors
  · obtain ⟨-, hreturned, hraised, hcrashed⟩ := @under_streamObjects S store poolBytes hooked busy
      lease descriptors (.fail ∉ faults) hadmitted hpinned w hsources hevents ⟨faults, w⟩ ⟨id, rfl⟩
    refine ⟨_, _, rfl, fun hnot ↦ absurd hadmitted hnot, fun _ ↦ ⟨hreturned (), fun e h ↦ ?_,
      hcrashed⟩⟩
    have hfailed := hraised e h
    exact ⟨hfailed.idle, hfailed.stopped⟩
  · obtain ⟨message, heq⟩ := @streamObjects_of_not_admitted _ _ hooked busy _ _ hadmitted
    refine ⟨.raised (.valueError message), ⟨faults, w⟩, ?_, fun _ ↦ ⟨rfl, message, rfl⟩,
      fun h ↦ absurd h hadmitted⟩
    rw [heq]
    rfl

end

/-! ### A committed file -/

/-- A store of one full group of pages of 256 tokens. -/
def fullSample : TokenFileStore := { boundedSample with layout := fullSampleLayout }

private theorem segments_fullSample :
    fullSample.layout.segments 256 .data = .ok [⟨0, "layer", 0, 1, 64⟩] := by decide +kernel

private theorem emptyPayload_fullSample : fullSample.emptyPayload ⟨.data, none, 256⟩ =
    ⟨.ofNat 0, ⟨.data, none, 256⟩, [⟨0, "layer", 0, 1, 64⟩], 64, .ofNat 0, [.ofNat 0]⟩ := by
  unfold TokenFileStore.emptyPayload
  dsimp only
  rw [segments_fullSample]
  rfl

private theorem headerLength_eq_width (store : TokenFileStore) (header : TokenHeader) :
    store.headerLength header = Json.width (store.headerJson (store.emptyPayload header)).dumps := rfl

/-- The header of a file of one short segment and one block fits. -/
theorem width_headerJson_single {store : TokenFileStore} {p : HeaderPayload}
    {segment : PageSlice} (hblocks : p.blockSha256.length = 1) (hsegments : p.segments = [segment])
    (hbinding : Json.width store.bindingJson.dumps ≤ 1000)
    (hslice : Json.width (sliceJson segment).dumps ≤ 200)
    (hbytes : Json.width (Json.int p.byteLength).dumps ≤ 3)
    (hspan : Json.width (Json.int p.header.spanTokens).dumps ≤ 3) :
    Json.width (store.headerJson p).dumps ≤ maxHeaderBytes := by
  have hwidth := store.width_headerJson_le p
  rw [hblocks, hsegments, List.map_singleton, List.sum_singleton] at hwidth
  unfold maxHeaderBytes
  omega

private theorem headerLength_fullSample :
    fullSample.headerLength ⟨.data, none, 256⟩ ≤ maxHeaderBytes := by
  rw [headerLength_eq_width, emptyPayload_fullSample]
  exact width_headerJson_single rfl rfl (fullSample.width_bindingJson_le.trans (by decide +kernel))
    (by decide +kernel) (by decide +kernel) (by decide +kernel)

/-- A commit of one page to a root without files. -/
theorem commit_fullSample : ∃ desc data d', commit fullSample sampleEnv (.ofNat 9)
      ⟨.data, none, 256⟩ sampleInput ⟨[], emptyRoot⟩ = (.returned desc, ⟨[], d'⟩) ∧
    d'.files.get? (.ofNat 9) = some ⟨data, true⟩ ∧ d'.markers.get? (.ofNat 9) = none ∧
    FileOf fullSample (.ofNat 9) ⟨.data, none, 256⟩ sampleInput data ∧
    fullSample.openData (.ofNat 9) data = .ok desc ∧ desc.key = .ofNat 9 ∧
    desc.segments = [⟨0, "layer", 0, 1, 64⟩] := by
  have haccepted : fullSample.HeaderAccepted (.ofNat 9) ⟨.data, none, 256⟩ :=
    ⟨⟨[⟨0, "layer", 0, 1, 64⟩], by decide +kernel⟩, headerLength_fullSample⟩
  obtain ⟨segments, hslices, hall⟩ := haccepted.succeeds
  rw [segments_fullSample] at hslices
  cases hslices
  obtain ⟨p, encoded, hheader, hencode, -⟩ := hall (.ofNat 0) none ⟨rfl, fun _ ↦ rfl⟩
  have hbytes : p.byteLength = 64 := by
    obtain ⟨hp, -, -, -, hbytes, -⟩ := TokenFileStore.headerPayload_ok hheader
    have hgeometry : Store.headerPayload fullSample.config (.ofNat 9) ⟨.data, none, 256⟩ =
        .ok [⟨0, "layer", 0, 1, 64⟩] := by decide +kernel
    rw [hgeometry] at hp
    rw [hbytes, ← Except.ok.inj hp]
    rfl
  have hexact : ExactPieces fullSample.slotBytes p.byteLength [sampleBlock] := by
    refine ⟨0, 64, by decide, le_rfl, ?_, rfl⟩
    rw [hbytes, Nat.zero_mul, Nat.zero_add]
  have henv : sampleEnv.Progress :=
    ⟨fun _ h ↦ absurd h List.not_mem_nil, fun _ _ h ↦ absurd h List.not_mem_nil,
      fun _ h ↦ absurd h List.not_mem_nil⟩
  obtain ⟨desc, data, d', hrun, hfile, hof, hopen⟩ := @commit_stream_published fullSample _ _ _ henv
    p encoded hheader hencode emptyRoot ⟨rfl, rfl⟩ _ hexact
  have hrun : commit fullSample sampleEnv (.ofNat 9) ⟨.data, none, 256⟩ sampleInput ⟨[], emptyRoot⟩ =
      (.returned desc, ⟨[], d'⟩) := hrun
  obtain ⟨u, hu⟩ := unfenced_of_returned fullSample sampleEnv (.ofNat 9) ⟨.data, none, 256⟩
    sampleInput (congrArg Prod.fst hrun)
  obtain ⟨data', -, hvisible⟩ := released_of_returned fullSample sampleEnv (.ofNat 9)
    ⟨.data, none, 256⟩ sampleInput hu
  have hmarker := hvisible.unmarked
  rw [hrun] at hmarker
  obtain ⟨payload, desc', -, hopen', hkey, -, hspan, hkind, -, -⟩ := hof.opens
  rw [TokenFileStore.openBytes_eq_openData, hopen] at hopen'
  obtain rfl := Except.ok.inj hopen'
  have hsegments := (TokenFileStore.sliced_of_openData hopen).1
  rw [hspan, hkind, segments_fullSample] at hsegments
  exact ⟨desc, data, d', hrun, hfile, hmarker, hof, hopen, hkey, (Except.ok.inj hsegments).symm⟩

/-- A stream of the one file of the sample. -/
def sampleLease (desc : FileDescriptor) : RestoreLease := ⟨true, true, [desc]⟩

/-- The sample lease admits its file. -/
theorem admitted_sampleLease (desc : FileDescriptor) :
    Admitted fullSample 64 (sampleLease desc) [desc] :=
  ⟨rfl, rfl, rfl, fun _ _ ↦ Nat.min_le_right _ _⟩

/-- The file of a commit is passed on whole. -/
theorem stream_authenticates_fullSample : ∃ desc d m,
    commit fullSample sampleEnv (.ofNat 9) ⟨.data, none, 256⟩ sampleInput ⟨[], emptyRoot⟩ =
      (.returned desc, ⟨[], d⟩) ∧
    streamObjects fullSample 64 false (fun _ ↦ true) (sampleLease desc) [desc]
      ⟨[], d, [], none, []⟩ = (.returned (), m) ∧
    deliveries m.state.events = [(.ofNat 9, sampleBlock)] ∧ Idle 64 m.state ∧
    Delivered (fun key data ↦ ∃ f, d.files.get? key = some f ∧ f.data = data) fullSample 64 [desc]
      (deliveries m.state.events) := by
  obtain ⟨desc, data, d, hrun, hfile, hmarker, hof, hopen, hkey, -⟩ := commit_fullSample
  rw [← hkey] at hof hopen hmarker hfile
  obtain ⟨payload, hcarries, hintact⟩ := @FileOf.intact _ _ _ _ d ⟨data, true⟩ hof hopen hmarker hfile
  obtain ⟨m, hreturned, hpassed⟩ := @returns_streamObjects fullSample (fun _ ↦ payload) [desc] 64
    false (fun _ ↦ true) (sampleLease desc) (admitted_sampleLease desc) d [] (fun d' hd desc' hdesc ↦ by
      rw [List.mem_singleton.mp hd, List.mem_singleton.mp hdesc]
      exact hintact)
  obtain ⟨o, m', heq, -, hstream⟩ := @stream_authenticates
    (fun key data ↦ ∃ f, d.files.get? key = some f ∧ f.data = data) fullSample 64 false
    (fun _ ↦ true) (sampleLease desc) [desc] (fun _ _ ↦ rfl) ⟨d, [], none, []⟩
    (fun d' hd key f hf ↦ by
      rcases hd with rfl | hd
      · exact ⟨f, hf, rfl⟩
      · cases hd) rfl []
  rw [hreturned] at heq
  cases heq
  obtain ⟨hidle, hdelivered⟩ := (hstream (admitted_sampleLease desc)).1 rfl
  have hpieces : [sampleBlock] = TokenFileStore.pieces 64 payload :=
    List.map_injective_iff.mpr (fun _ _ h ↦ Except.ok.inj h) hcarries
  have hpayload : payload = sampleBlock := by
    rw [← flatten_pieces (by decide : 0 < 64) payload, ← hpieces]
    rfl
  have hsmall : ¬ 64 < desc.byteLength := by
    rw [← hintact.opened.length_rest, hpayload]
    decide
  refine ⟨desc, d, m, hrun, hreturned, ?_, hidle, hdelivered⟩
  rw [hpassed, servedParts, List.flatMap_singleton, partsOf, if_neg hsmall, hpayload, hkey]
  rfl

end SpoolCache.Store

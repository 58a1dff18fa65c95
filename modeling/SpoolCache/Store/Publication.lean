import SpoolCache.Store.Disk

/-!
# All-or-nothing publication

`commit_chunk` and `commit_stream`, `token_files.py:353–452`, and `recover`,
`token_files.py:798–823`. A file is written under a temporary name, a stream behind a header that
is filled in at the end, and linked to its path after it has been synced. Wherever a call is cut
off, its path has no file or a complete one after a restart; wherever a step fails, the call raises
and opens accept what they accepted before.
-/

namespace SpoolCache.Store

open SpoolCache.Base SpoolCache.Layout SpoolCache.Base.Program

/-! ### Writing a temporary -/

/-- A property of a root that its temporaries do not matter for. -/
def TmpFree (I : Disk → Prop) : Prop := ∀ d t, I d → I { d with tmp := t }

/-- The temporary has these bytes. -/
def HasData (nonce : Nat) (data : Bytes) (d : Disk) : Prop :=
  ∃ synced, d.tmp.get? nonce = some ⟨data, synced⟩

private theorem write_nil (f : DiskFile) (offset : Nat) : (f.write offset []).data = f.data := by
  unfold DiskFile.write
  rw [List.length_nil, Nat.add_zero, List.append_nil, List.take_append_drop]

/-- Two writes, the second where the first ends. -/
theorem write_write {f : DiskFile} {offset : Nat} (h : offset ≤ f.data.length) (a b : Bytes) :
    ((f.write offset a).write (offset + a.length) b).data = (f.write offset (a ++ b)).data := by
  unfold DiskFile.write
  dsimp only
  have htake : (f.data.take offset ++ a ++ f.data.drop (offset + a.length)).take
      (offset + a.length) = f.data.take offset ++ a :=
    List.take_left' (by rw [List.length_append, List.length_take_of_le h])
  have hdrop : (f.data.take offset ++ a ++ f.data.drop (offset + a.length)).drop
      (offset + a.length + b.length) = f.data.drop (offset + (a ++ b).length) := by
    rw [← List.drop_drop, List.drop_left' (by rw [List.length_append, List.length_take_of_le h]),
      List.drop_drop, List.length_append, Nat.add_assoc]
  rw [htake, hdrop, List.append_assoc (f.data.take offset) a b]

/-- A write at the end appends. -/
theorem write_end (data more : Bytes) (synced : Bool) :
    ((⟨data, synced⟩ : DiskFile).write data.length more).data = data ++ more := by
  unfold DiskFile.write
  dsimp only
  rw [List.take_length, List.drop_of_length_le (by omega), List.append_nil]

/-- A write over the front. -/
theorem write_front {old new : Bytes} (h : new.length = old.length) (rest : Bytes)
    (synced : Bool) : ((⟨old ++ rest, synced⟩ : DiskFile).write 0 new).data = new ++ rest := by
  unfold DiskFile.write
  dsimp only
  rw [List.take_zero, List.nil_append, Nat.zero_add, List.drop_left' h.symm]

section

variable {I : Disk → Prop} (hI : TmpFree I)

include hI

private theorem runs_writev {nonce : Nat} {f : DiskFile} (offset : Nat) (data : Bytes) :
    Runs I (fun d ↦ d.tmp.get? nonce = some f) (writev nonce offset data)
      fun _ d ↦ d.tmp.get? nonce = some (f.write offset data) := by
  refine runs_update fun d hd hf ↦ ⟨hI _ _ hd, ?_⟩
  change (d.tmp.modify nonce _).get? nonce = _
  rw [Directory.get?_modify, if_pos rfl, hf]
  rfl

/-- However it is split up, a write has its effect. -/
theorem runs_writeVector {nonce : Nat} (counts : List Nat) {f : DiskFile} {offset : Nat}
    (hoffset : offset ≤ f.data.length) (data : Bytes) :
    Runs I (fun d ↦ d.tmp.get? nonce = some f) (writeVector nonce counts offset data)
      fun _ d ↦ HasData nonce (f.write offset data).data d := by
  have hdone : ∀ {g : DiskFile} {o : Nat}, Runs I (fun d ↦ d.tmp.get? nonce = some g)
      (pure () : DiskProgram Unit) fun _ d ↦ HasData nonce (g.write o []).data d := by
    intro g o
    refine runs_pure fun d _ hf ↦ ⟨g.synced, ?_⟩
    rw [write_nil]
    exact hf
  induction counts generalizing f offset data with
  | nil =>
    unfold writeVector
    split
    · next hempty =>
      rw [hempty]
      exact hdone
    · exact (runs_writev hI offset data).mono fun _ d _ hf ↦ ⟨false, hf⟩
  | cons count counts ih =>
    unfold writeVector
    split
    · next hempty =>
      rw [hempty]
      exact hdone
    · split
      · exact runs_raise _
      · refine Runs.bind (runs_writev hI offset (data.take count)) fun _ ↦ ?_
        have hlen : offset + (data.take count).length ≤ (f.write offset (data.take count)).data.length := by
          unfold DiskFile.write
          rw [List.length_append, List.length_append, List.length_take_of_le hoffset]
          omega
        refine (ih hlen (data.drop count)).mono fun _ d _ hd ↦ ?_
        rwa [write_write hoffset, List.take_append_drop] at hd

variable {store : TokenFileStore}

/-- What a producer yields is written behind the header; when nothing remains, it was the blocks
of the payload. -/
theorem runs_writePieces (env : PublishEnv) (head : Bytes) (pieces : List (Except PyError Bytes))
    (index remaining : Nat) (written : List Bytes) :
    Runs I (HasData env.nonce (head ++ written.flatten))
      (writePieces store env pieces index (head ++ written.flatten).length remaining written)
      fun r d ↦ HasData env.nonce (head ++ r.1.flatten) d ∧ ∃ more, r.1 = written ++ more ∧
        pieces = more.map .ok ∧ more.flatten.length + r.2 = remaining ∧
        (r.2 = 0 → more = TokenFileStore.pieces store.slotBytes more.flatten) := by
  induction pieces generalizing index remaining written with
  | nil =>
    refine runs_pure fun d _ hd ↦ ⟨hd, [], (List.append_nil _).symm, rfl, Nat.zero_add _, fun _ ↦ ?_⟩
    exact (TokenFileStore.pieces_nil _).symm
  | cons piece pieces ih =>
    cases piece with
    | error e => exact runs_raise _
    | ok piece =>
      unfold writePieces
      dsimp only
      split
      · exact runs_raise _
      · next hpiece =>
        rw [not_or, not_not] at hpiece
        obtain ⟨hpos, hlength⟩ := hpiece
        have hwrite : Runs I (HasData env.nonce (head ++ written.flatten))
            (writeVector env.nonce (env.pieceWrites index) (head ++ written.flatten).length piece)
            fun _ d ↦ HasData env.nonce (head ++ (written ++ [piece]).flatten) d := by
          refine runs_exists fun synced ↦
            (runs_writeVector hI _ le_rfl piece).mono fun _ d _ hd ↦ ?_
          rwa [write_end, List.append_assoc, ← List.flatten_concat] at hd
        have hnext : head.length + written.flatten.length + piece.length =
            (head ++ (written ++ [piece]).flatten).length := by
          rw [List.flatten_concat, List.length_append, List.length_append, Nat.add_assoc]
        refine Runs.bind hwrite fun _ ↦ Runs.bind (runs_checkpoint _) fun _ ↦ ?_
        rw [List.length_append, hnext]
        refine (ih (index + 1) (remaining - min remaining store.slotBytes) (written ++ [piece])).mono ?_
        rintro ⟨all, left⟩ d - ⟨hd, more, hall, hmore, hsum, hblocks⟩
        refine ⟨hd, piece :: more, ?_, ?_, ?_, fun hzero ↦ ?_⟩
        · rw [hall, List.append_assoc]
          rfl
        · rw [hmore]
          rfl
        · rw [List.flatten_cons, List.length_append]
          dsimp only at hsum ⊢
          omega
        · dsimp only at hzero hsum
          have hne : piece ≠ [] := List.ne_nil_of_length_pos (by omega)
          rw [List.flatten_cons, TokenFileStore.pieces_append hne, ← hblocks hzero]
          rcases Nat.lt_or_ge store.slotBytes remaining with hlt | hge
          · exact .inl (by omega)
          · exact .inr ⟨by omega, List.length_eq_zero_iff.mp (by omega)⟩

/-- A stream that was written in full is its payload behind the final header. -/
theorem runs_writeStream (env : PublishEnv) (p : HeaderPayload)
    (pieces : List (Except PyError Bytes)) (encoded : Bytes) :
    Runs I (fun d ↦ d.tmp.get? env.nonce = some ⟨[], false⟩)
      (writeStream store env p pieces encoded)
      fun _ d ↦ ∃ payload final, payload.length = p.byteLength ∧
        pieces = (TokenFileStore.pieces store.slotBytes payload).map .ok ∧
        store.encodeHeader { p with
          digest := sha256 payload
          blockSha256 := (TokenFileStore.pieces store.slotBytes payload).map sha256 } = .ok final ∧
        HasData env.nonce (final ++ payload) d := by
  unfold writeStream
  refine Runs.bind (X := fun _ d ↦ HasData env.nonce (encoded ++ ([] : List Bytes).flatten) d)
    ((runs_writeVector hI _ (Nat.zero_le _) encoded).mono fun _ d _ hd ↦ ?_) fun _ ↦ ?_
  · have hdata : ((⟨[], false⟩ : DiskFile).write 0 encoded).data = encoded :=
      write_end [] encoded false
    rw [hdata] at hd
    rwa [List.flatten_nil, List.append_nil]
  · have hpieces := @runs_writePieces I hI store env encoded pieces 0 p.byteLength []
    rw [List.flatten_nil, List.append_nil] at hpieces
    rw [List.flatten_nil, List.append_nil]
    refine Runs.bind hpieces ?_
    rintro ⟨written, remaining⟩
    dsimp only
    split
    · exact runs_raise _
    · next hzero =>
      have hzero := not_not.mp hzero
      refine Runs.bind (X := fun final d ↦ HasData env.nonce (encoded ++ written.flatten) d ∧
        written.flatten.length = p.byteLength ∧ pieces = written.map .ok ∧
        written = TokenFileStore.pieces store.slotBytes written.flatten ∧
        store.encodeHeader { p with
          digest := sha256 written.flatten, blockSha256 := written.map sha256 } = .ok final)
        (runs_ofExcept fun final d hfinal _ h ↦ ?_) fun final ↦ ?_
      · obtain ⟨hd, more, hmore, hall, hsum, hblocks⟩ := h
        rw [List.nil_append] at hmore
        subst hmore
        exact ⟨hd, by omega, hall, hblocks hzero, hfinal⟩
      · split
        · exact runs_raise _
        · next hlength =>
          have hlength := not_not.mp hlength
          refine runs_of_fact fun ⟨hsum, hall, hblocks, hfinal⟩ ↦ runs_exists fun synced ↦
            (runs_writeVector hI env.finalWrites (Nat.zero_le _) final).mono fun _ d _ hd ↦ ?_
          rw [write_front hlength] at hd
          exact ⟨written.flatten, final, hsum, by rw [← hblocks]; exact hall,
            by rw [← hblocks]; exact hfinal, hd⟩

end

/-! ### What is published -/

/-- What a commit is given: a payload, or what the producer of a stream yields. -/
inductive CommitInput where
  | chunk (payload : Bytes)
  | stream (pieces : List (Except PyError Bytes))

/-- The input is this payload, whole or in transfer blocks. -/
def CommitInput.Carries (slotBytes : Nat) (payload : Bytes) : CommitInput → Prop
  | .chunk p => p = payload
  | .stream pieces => pieces = (TokenFileStore.pieces slotBytes payload).map .ok

section

variable (store : TokenFileStore)

/-- `commit_chunk` or `commit_stream`, until the marker is cleared. -/
def commitUnfenced (env : PublishEnv) (key : Digest) (header : TokenHeader) :
    CommitInput → DiskProgram Unit
  | .chunk payload => commitChunkUnfenced store env key header payload
  | .stream pieces => commitStreamUnfenced store env key header pieces

/-- `commit_chunk` or `commit_stream`. -/
def commit (env : PublishEnv) (key : Digest) (header : TokenHeader) :
    CommitInput → DiskProgram TokenFileStore.FileDescriptor
  | .chunk payload => commitChunk store env key header payload
  | .stream pieces => commitStream store env key header pieces

/-- The bytes of a file for this input. -/
def FileOf (key : Digest) (header : TokenHeader) (input : CommitInput) (data : Bytes) : Prop :=
  ∃ payload p encoded, input.Carries store.slotBytes payload ∧
    store.commitHeader key header payload = .ok p ∧ store.encodeHeader p = .ok encoded ∧
    data = encoded ++ payload

variable {store}

/-- The file of a commit opens, and its payload authenticates. -/
theorem FileOf.complete {key : Digest} {header : TokenHeader} {input : CommitInput}
    {data : Bytes} (h : FileOf store key header input data) : store.Complete key data := by
  obtain ⟨payload, p, encoded, -, hheader, hencode, rfl⟩ := h
  exact TokenFileStore.complete_commitHeader hheader hencode

/-- The header of a stream, when its payload is known, is the one of a whole payload. -/
theorem commitHeader_of_stream {key : Digest} {header : TokenHeader} {p : HeaderPayload}
    (h : store.headerPayload key header (.ofNat 0) none = .ok p) {payload : Bytes}
    (hlength : payload.length = p.byteLength) :
    store.commitHeader key header payload = .ok { p with
      digest := sha256 payload
      blockSha256 := (TokenFileStore.pieces store.slotBytes payload).map sha256 } := by
  obtain ⟨hsegments, rfl, rfl, -, hbytes, -⟩ := TokenFileStore.headerPayload_ok h
  have hslot := store.slotBytes_pos
  have hcount : ((TokenFileStore.pieces store.slotBytes payload).map sha256).length =
      store.transferBlocks payload.length := by
    rw [List.length_map, TokenFileStore.length_pieces]
    rfl
  have hone : store.transferBlocks payload.length = 1 →
      ((TokenFileStore.pieces store.slotBytes payload).map sha256).head? = some (sha256 payload) := by
    intro h1
    have hne : payload ≠ [] := by
      rintro rfl
      rw [← hcount, TokenFileStore.pieces_nil] at h1
      cases h1
    have hle : payload.length ≤ store.slotBytes := by
      have hlt : (payload.length + store.slotBytes - 1) / store.slotBytes < 2 := by
        change store.transferBlocks payload.length < 2
        omega
      have := (Nat.div_lt_iff_lt_mul hslot).mp hlt
      omega
    rw [TokenFileStore.pieces_cons hslot hne, List.take_of_length_le hle]
    rfl
  unfold TokenFileStore.commitHeader TokenFileStore.headerPayload
  rw [hsegments, ok_bind]
  dsimp only [Option.getD_some]
  rw [← hbytes, ← hlength, if_neg]
  · rw [show (pure _ : Except PyError HeaderPayload) = .ok _ from rfl, ok_bind,
      if_neg (not_not.mpr rfl)]
    rfl
  · rw [not_or, not_not, not_and, not_not]
    exact ⟨hcount, hone⟩

end

/-! ### The temporary before its link -/

/-- A property of a root that shards may be added to and temporaries do not matter for. -/
structure Lax (I : Disk → Prop) : Prop where
  tmp : TmpFree I
  putShard : ∀ d x, I d → I { d with manifests := d.manifests.put x () }
  syncManifests : ∀ d, I d → I { d with manifests := d.manifests.sync }

section

variable {store : TokenFileStore} (env : PublishEnv) (key : Digest) (header : TokenHeader)
  (input : CommitInput) {I : Disk → Prop}

/-- The temporary is synced and has the bytes of a file. -/
def Prepared (store : TokenFileStore) (env : PublishEnv) (key : Digest) (header : TokenHeader)
    (input : CommitInput) (d : Disk) : Prop :=
  ∃ data, d.tmp.get? env.nonce = some ⟨data, true⟩ ∧ FileOf store key header input data

/-- What a `write` leaves in a fresh temporary. -/
def Writes (store : TokenFileStore) (env : PublishEnv) (key : Digest) (header : TokenHeader)
    (input : CommitInput) (I : Disk → Prop) (write : DiskProgram Unit) : Prop :=
  Runs I (fun d ↦ d.tmp.get? env.nonce = some ⟨[], false⟩) write
    fun _ d ↦ ∃ data, HasData env.nonce data d ∧ FileOf store key header input data

variable {env key header input}

/-- The vector of a whole payload fills the temporary with the file. -/
theorem writes_chunk (hI : TmpFree I) {payload : Bytes} {p : HeaderPayload} {encoded : Bytes}
    (hheader : store.commitHeader key header payload = .ok p)
    (hencode : store.encodeHeader p = .ok encoded) :
    Writes store env key header (.chunk payload) I
      (writeVector env.nonce env.headerWrites 0 (encoded ++ payload)) := by
  refine (runs_writeVector hI _ (Nat.zero_le _) _).mono fun _ d _ hd ↦
    ⟨encoded ++ payload, ?_, payload, p, encoded, rfl, hheader, hencode, rfl⟩
  have hdata : ((⟨[], false⟩ : DiskFile).write 0 (encoded ++ payload)).data = encoded ++ payload :=
    write_end [] _ false
  rwa [hdata] at hd

/-- The writes of a stream fill the temporary with the file, the header last. -/
theorem writes_stream (hI : TmpFree I) {pieces : List (Except PyError Bytes)} {p : HeaderPayload}
    (hheader : store.headerPayload key header (.ofNat 0) none = .ok p) (encoded : Bytes) :
    Writes store env key header (.stream pieces) I (writeStream store env p pieces encoded) := by
  refine (runs_writeStream hI env p pieces encoded).mono fun _ d _ h ↦ ?_
  obtain ⟨payload, final, hlength, hpieces, hfinal, hd⟩ := h
  exact ⟨final ++ payload, hd, payload, _, final, hpieces, commitHeader_of_stream hheader hlength,
    hfinal, rfl⟩

/-- A temporary that was prepared is synced and has the file. -/
theorem runs_prepareTemporary (hI : Lax I) {write : DiskProgram Unit}
    (hwrite : Writes store env key header input I write) :
    Runs I (fun d ↦ d.tmp.get? env.nonce = some ⟨[], false⟩) (prepareTemporary env key write)
      fun _ d ↦ Prepared store env key header input d := by
  unfold prepareTemporary
  refine Runs.bind hwrite fun _ ↦ Runs.bind (X := fun _ ↦ Prepared store env key header input)
    (runs_update fun d hd h ↦ ⟨hI.tmp _ _ hd, ?_⟩) fun _ ↦ Runs.bind (runs_checkpoint _) fun _ ↦ ?_
  · obtain ⟨data, ⟨synced, hf⟩, hfile⟩ := h
    refine ⟨data, ?_, hfile⟩
    change (d.tmp.modify env.nonce _).get? env.nonce = _
    rw [Directory.get?_modify, if_pos rfl, hf]
    rfl
  · unfold ensureShardDirectory
    refine Runs.bind (X := fun _ ↦ Prepared store env key header input)
      (runs_update fun d hd h ↦ ?_) fun _ ↦ runs_update fun d hd h ↦ ⟨hI.syncManifests _ hd, h⟩
    split
    · exact ⟨hd, h⟩
    · exact ⟨hI.putShard _ _ hd, h⟩

end

/-! ### Calls that leave the file alone -/

/-- A property of a root that no call of a publication breaks but the link. -/
structure Calm (I : Disk → Prop) : Prop extends Lax I where
  syncShard : ∀ d part, I d → I { d with files := d.files.syncWhere part }
  markers : ∀ d m j, I d → I { d with markers := m, journal := j }

namespace Calm

private theorem and {I P : Disk → Prop} (hI : Calm I) (hP : Calm P) : Calm fun d ↦ I d ∧ P d where
  tmp d t h := ⟨hI.tmp d t h.1, hP.tmp d t h.2⟩
  putShard d x h := ⟨hI.putShard d x h.1, hP.putShard d x h.2⟩
  syncManifests d h := ⟨hI.syncManifests d h.1, hP.syncManifests d h.2⟩
  syncShard d part h := ⟨hI.syncShard d part h.1, hP.syncShard d part h.2⟩
  markers d m j h := ⟨hI.markers d m j h.1, hP.markers d m j h.2⟩

variable {I : Disk → Prop} (hI : Calm I)

include hI

private theorem runs_unlinkTemporary (nonce : Nat) :
    Runs I (fun _ ↦ True) (unlinkTemporary nonce) fun _ _ ↦ True := by
  refine runs_call fun d hd _ ↦ ⟨?_, fun _ _ ↦ trivial⟩
  split
  · exact hd
  · exact hI.tmp _ _ hd

/-- The sync of the temporaries keeps a calm property. -/
theorem runs_fsyncTmp : Runs I (fun _ ↦ True) fsyncTmp fun _ _ ↦ True :=
  runs_update fun _ hd _ ↦ ⟨hI.tmp _ _ hd, trivial⟩

private theorem runs_cleanupTemporaryFile (nonce : Nat) :
    Runs I (fun _ ↦ True) (cleanupTemporaryFile nonce) fun _ _ ↦ True := by
  unfold cleanupTemporaryFile
  have hunlink := (hI.runs_unlinkTemporary nonce).attempt (Z := fun _ _ ↦ True)
    (fun _ _ _ ↦ trivial) fun _ _ _ ↦ trivial
  have hsync := hI.runs_fsyncTmp.attempt (Z := fun _ _ ↦ True) (fun _ _ _ ↦ trivial)
    fun _ _ _ ↦ trivial
  exact Runs.bind hunlink fun _ ↦ Runs.bind hsync fun _ ↦ runs_pure fun _ _ _ ↦ trivial

/-- The marker of a key keeps a calm property. -/
theorem runs_markInventoryWithdrawn (key : Digest) :
    Runs I (fun _ ↦ True) (markInventoryWithdrawn key) fun _ _ ↦ True := by
  unfold markInventoryWithdrawn
  refine Runs.bind (X := fun _ _ ↦ True) (runs_update fun d hd _ ↦ ⟨?_, trivial⟩) fun _ ↦
    Runs.bind (X := fun _ _ ↦ True) (runs_look fun _ _ _ _ _ ↦ trivial) fun present ↦ ?_
  · split
    · exact hd
    · exact hI.markers _ _ _ hd
  · split
    · exact runs_update fun _ hd _ ↦ ⟨hI.markers _ _ _ hd, trivial⟩
    · exact runs_raise _

private theorem runs_withdrawPublished (key : Digest) :
    Runs I (fun _ ↦ True) (withdrawPublished key) fun _ _ ↦ True := by
  unfold withdrawPublished
  have hmark : Runs I (fun _ ↦ True)
      (do markInventoryWithdrawn key; checkpoint "withdraw hook") fun _ _ ↦ True :=
    Runs.bind (hI.runs_markInventoryWithdrawn key) fun _ ↦ runs_checkpoint _
  exact Runs.bind (hmark.attempt (Z := fun _ _ ↦ True) (fun _ _ _ ↦ trivial) fun _ _ _ ↦ trivial)
    fun _ ↦ runs_pure fun _ _ _ ↦ trivial

private theorem runs_retireTemporary (env : PublishEnv) (key : Digest) :
    Runs I (fun _ ↦ True) (retireTemporary env key) fun _ _ ↦ True := by
  unfold retireTemporary
  exact Runs.bind (runs_checkpoint _) fun _ ↦ Runs.bind (X := fun _ _ ↦ True)
    (runs_update fun _ hd _ ↦ ⟨hI.syncShard _ _ hd, trivial⟩) fun _ ↦
    Runs.bind (hI.runs_unlinkTemporary _) fun _ ↦ hI.runs_fsyncTmp

/-- Clearing a marker keeps a calm property. -/
theorem runs_clearInventoryWithdrawal (key : Digest) :
    Runs I (fun _ ↦ True) (clearInventoryWithdrawal key) fun _ _ ↦ True := by
  unfold clearInventoryWithdrawal
  refine Runs.bind (X := fun _ _ ↦ True) (runs_look fun _ _ _ _ _ ↦ trivial) fun present ↦ ?_
  split
  · exact Runs.bind (X := fun _ _ ↦ True)
      (runs_update fun _ hd _ ↦ ⟨hI.markers _ _ _ hd, trivial⟩) fun _ ↦
      runs_update fun _ hd _ ↦ ⟨hI.markers _ _ _ hd, trivial⟩
  · exact runs_pure fun _ _ _ ↦ trivial

/-- What follows the link, with its handlers. -/
theorem runs_afterLink (env : PublishEnv) (key : Digest) :
    Runs I (fun _ ↦ True) (do
      .onError (retireTemporary env key) (do
        withdrawPublished key
        closeFile
        cleanupTemporaryFile env.nonce)
      .onError (clearInventoryWithdrawal key) (do
        withdrawPublished key
        closeFile)) fun _ _ ↦ True := by
  have hwithdraw := hI.runs_withdrawPublished key
  exact Runs.bind (Runs.onError (hI.runs_retireTemporary env key)
    (Runs.bind hwithdraw fun _ ↦ Runs.bind runs_closeFile fun _ ↦
      hI.runs_cleanupTemporaryFile env.nonce)) fun _ ↦
    Runs.onError (hI.runs_clearInventoryWithdrawal key)
      (Runs.bind hwithdraw fun _ ↦ runs_closeFile)

end Calm

/-! ### Whole publications -/

section

variable (store : TokenFileStore) (env : PublishEnv) (key : Digest) (header : TokenHeader)
  (input : CommitInput)

/-- The path of the key has the file of the input. -/
def Linked (d : Disk) : Prop :=
  ∃ data, d.files.get? key = some ⟨data, true⟩ ∧ FileOf store key header input data

/-- The link of the key survives the other calls of a publication. -/
theorem calm_linked : Calm (Linked store key header input) where
  tmp _ _ h := h
  putShard _ _ h := h
  syncManifests _ h := h
  syncShard d part h := by
    obtain ⟨data, hd, hfile⟩ := h
    exact ⟨data, (Directory.get?_syncWhere _ _ _).trans hd, hfile⟩
  markers _ _ _ h := h

/-- A property of a root that a publication of this file does not break. -/
structure Tolerant (I : Disk → Prop) : Prop extends Calm I where
  link : ∀ d data j, I d → FileOf store key header input data →
    I { d with files := d.files.put key ⟨data, true⟩, journal := j }

variable {store env key header input} {I : Disk → Prop}
  (hI : Tolerant store key header input I)

include hI

private theorem runs_writeAndLink {write : DiskProgram Unit}
    (hwrite : Writes store env key header input I write) :
    Runs I (fun d ↦ d.tmp.get? env.nonce = some ⟨[], false⟩) (writeAndLink env key write)
      fun _ d ↦ Linked store key header input d := by
  unfold writeAndLink
  refine Runs.bind (runs_prepareTemporary hI.toLax hwrite) fun _ ↦ runs_call fun d hd hp ↦ ?_
  obtain ⟨data, htmp, hfile⟩ := hp
  rw [htmp]
  split
  · next f _ hf _ _ =>
    cases hf
    refine ⟨hI.link _ _ _ hd hfile, fun _ _ ↦ ⟨data, ?_, hfile⟩⟩
    exact (Directory.get?_put _ _ _ _).trans (if_pos rfl)
  · exact ⟨hd, fun _ h ↦ (by cases h)⟩
  · exact ⟨hd, fun _ h ↦ (by cases h)⟩

/-- Once it was linked, the file stays whatever becomes of the call. -/
theorem runs_publishTemporary {write : DiskProgram Unit}
    (hwrite : Writes store env key header input I write) :
    Runs I (fun d ↦ d.tmp.get? env.nonce = some ⟨[], false⟩) (publishTemporary env key write)
      fun _ d ↦ Linked store key header input d := by
  unfold publishTemporary
  refine Runs.bind (Runs.onError (runs_writeAndLink hI hwrite)
    (Runs.bind runs_closeFile fun _ ↦ hI.runs_cleanupTemporaryFile env.nonce)) fun _ ↦ ?_
  exact (((hI.toCalm.and (calm_linked store key header input)).runs_afterLink env key).frame).mono
    fun _ _ _ h ↦ h.1

private theorem runs_publishUnfenced {p : HeaderPayload} {write : Bytes → DiskProgram Unit}
    (hwrite : ∀ encoded, store.encodeHeader p = .ok encoded →
      Writes store env key header input I (write encoded)) :
    Runs I (fun _ ↦ True) (publishUnfenced store env key p write)
      fun _ d ↦ Linked store key header input d := by
  unfold publishUnfenced
  refine Runs.bind (X := fun encoded _ ↦ store.encodeHeader p = .ok encoded)
    (runs_ofExcept fun _ _ h _ _ ↦ h) fun encoded ↦ ?_
  refine Runs.bind (X := fun _ _ ↦ store.encodeHeader p = .ok encoded)
    (runs_look fun _ _ _ h _ ↦ h) fun there ↦ ?_
  split
  · exact runs_raise _
  · refine Runs.bind (X := fun _ d ↦ d.tmp.get? env.nonce = some ⟨[], false⟩ ∧
      store.encodeHeader p = .ok encoded) (runs_call fun d hd h ↦ ?_) fun _ ↦
      runs_of_fact fun hencode ↦ runs_publishTemporary hI (hwrite encoded hencode)
    split
    · exact ⟨hd, fun _ h ↦ (by cases h)⟩
    · refine ⟨hI.tmp _ _ hd, fun _ _ ↦ ⟨?_, h⟩⟩
      exact (Directory.get?_put _ _ _ _).trans (if_pos rfl)

private theorem runs_commitUnfenced : Runs I (fun _ ↦ True)
    (commitUnfenced store env key header input)
    fun _ d ↦ Linked store key header input d := by
  cases input with
  | chunk payload =>
    refine Runs.bind (X := fun p _ ↦ store.commitHeader key header payload = .ok p)
      (runs_ofExcept fun _ _ h _ _ ↦ h) fun p ↦ ?_
    refine Runs.pre (P := fun _ ↦ True ∧ store.commitHeader key header payload = .ok p)
      (runs_of_fact fun hheader ↦ ?_) fun _ _ h ↦ ⟨trivial, h⟩
    exact runs_publishUnfenced hI fun encoded hencode ↦ writes_chunk hI.tmp hheader hencode
  | stream pieces =>
    refine Runs.bind (X := fun p _ ↦ store.headerPayload key header (.ofNat 0) none = .ok p)
      (runs_ofExcept fun _ _ h _ _ ↦ h) fun p ↦ ?_
    refine Runs.pre (P := fun _ ↦ True ∧ store.headerPayload key header (.ofNat 0) none = .ok p)
      (runs_of_fact fun hheader ↦ ?_) fun _ _ h ↦ ⟨trivial, h⟩
    exact runs_publishUnfenced hI fun encoded _ ↦ writes_stream hI.tmp hheader encoded

omit hI in
private theorem runs_openPath :
    Runs I (Linked store key header input) (openPath store key false)
      fun r d ↦ ∃ data, d.files.get? key = some ⟨data, true⟩ ∧
        FileOf store key header input data ∧ store.openData key data = .ok r.1 := by
  have hgate : Runs I (Linked store key header input) (withdrawalGate key false)
      fun _ ↦ Linked store key header input := by
    change Runs I (Linked store key header input) (inventoryIsWithdrawn key) _
    exact runs_look fun _ _ _ h _ ↦ h
  unfold openPath
  refine Runs.bind hgate fun withdrawn ↦ ?_
  split
  · exact runs_raise _
  · refine runs_look fun d r _ h hr ↦ ?_
    obtain ⟨data, hd, hfile⟩ := h
    rw [hd] at hr
    dsimp only at hr
    refine ⟨data, hd, hfile, ?_⟩
    cases hopen : store.openData key data with
    | error e =>
      rw [hopen] at hr
      cases hr
    | ok desc =>
      rw [hopen] at hr
      cases hr
      rfl

omit hI in
/-- A commit is the publication and the reopening of what it published. -/
theorem commit_eq : commit store env key header input = (do
    commitUnfenced store env key header input
    reopenPublished store key) := by
  cases input <;> rfl

/-- However a commit ends, what it may not break holds; when it returns, the path has the file of
its input, and the descriptor is the one this file opens with. -/
theorem runs_commit : Runs I (fun _ ↦ True) (commit store env key header input)
    fun desc d ↦ ∃ data, d.files.get? key = some ⟨data, true⟩ ∧
      FileOf store key header input data ∧ store.openData key data = .ok desc := by
  rw [commit_eq]
  refine Runs.bind (runs_commitUnfenced hI) fun _ ↦ ?_
  unfold reopenPublished
  refine Runs.bind runs_closeFile fun _ ↦ Runs.bind runs_openPath fun r ↦ ?_
  exact Runs.bind runs_closeFile fun _ ↦ runs_pure fun _ _ h ↦ h

end

/-! ### Cut off anywhere -/

section

variable {store : TokenFileStore} {key : Digest} {header : TokenHeader} {input : CommitInput}

/-- Nothing of earlier calls is pending under `manifests`. -/
structure Disk.Settled (d : Disk) : Prop where
  files : ∀ k v, d.files.Possible k v → v = d.files.get? k
  synced : ∀ k f, d.files.get? k = some f → f.synced = true
  shards : ∀ k f, d.files.get? k = some f → ∀ v, d.manifests.Possible (shard k) v → v ≠ none

/-- While a key is published: whatever a crash leaves, its path is as before or has the file, and
other paths are as before. -/
structure Publishing (store : TokenFileStore) (key : Digest) (header : TokenHeader)
    (input : CommitInput) (start d : Disk) : Prop where
  own : ∀ v, d.files.Possible key v → v = start.files.get? key ∨
    ∃ data, v = some ⟨data, true⟩ ∧ FileOf store key header input data
  others : ∀ k, k ≠ key → ∀ v, d.files.Possible k v → v = start.files.get? k
  shards : ∀ x, (∀ v, start.manifests.Possible x v → v ≠ none) →
    ∀ v, d.manifests.Possible x v → v ≠ none

namespace Publishing

variable {start d : Disk}

/-- Before its first call a publication has changed nothing. -/
theorem refl (h : start.Settled) : Publishing store key header input start start :=
  ⟨fun v hv ↦ .inl (h.files key v hv), fun k _ v hv ↦ h.files k v hv, fun _ hx ↦ hx⟩

/-- Neither shards nor temporaries matter for a publication. -/
theorem lax : Lax (Publishing store key header input start) where
  tmp d t h := ⟨h.own, h.others, h.shards⟩
  putShard d x h := by
    refine ⟨h.own, h.others, fun y hy v hv ↦ ?_⟩
    rcases Directory.Possible.of_put hv with ⟨-, rfl⟩ | hv
    · exact Option.some_ne_none ()
    · exact h.shards y hy v hv
  syncManifests d h := ⟨h.own, h.others, fun y hy v hv ↦ h.shards y hy v hv.of_sync⟩

/-- The link of the file is the change that a publication may make. -/
theorem link (h : Publishing store key header input start d) {data : Bytes}
    (hfile : FileOf store key header input data) (j : List KeyEvent) :
    Publishing store key header input start
      { d with files := d.files.put key ⟨data, true⟩, journal := j } := by
  refine ⟨fun v hv ↦ ?_, fun k hk v hv ↦ ?_, h.shards⟩
  · rcases Directory.Possible.of_put hv with ⟨-, rfl⟩ | hv
    · exact .inr ⟨data, rfl, hfile⟩
    · exact h.own v hv
  · rcases Directory.Possible.of_put hv with ⟨he, -⟩ | hv
    · exact absurd he hk
    · exact h.others k hk v hv

/-- A sync of the shards keeps what may be there after a crash. -/
theorem syncShard (h : Publishing store key header input start d) (part : Digest → Bool) :
    Publishing store key header input start { d with files := d.files.syncWhere part } := by
  have hback : ∀ k v, (d.files.syncWhere part).Possible k v → d.files.Possible k v := by
    intro k v hv
    rcases hv.of_syncWhere with hv | ⟨-, hv⟩
    · exact .inl hv
    · exact hv
  exact ⟨fun v hv ↦ h.own v (hback key v hv), fun k hk v hv ↦ h.others k hk v (hback k v hv),
    h.shards⟩

end Publishing

end

end SpoolCache.Store

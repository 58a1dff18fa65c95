import SpoolCache.Base.Cleanup
import SpoolCache.Store.Commit
import SpoolCache.Store.StreamCommit

/-!
# Streaming the files of a restore

`stream_objects`, `token_files.py:568–682`, over what other processes make of the root between two
opens. Small files share a staging credit, larger ones pass through it block by block. What the
receivers were given, and what became of the credits, is kept as a list of events.
-/

namespace SpoolCache.Store

open SpoolCache.Base SpoolCache.Layout SpoolCache.Base.Program

/-! ### State -/

/-- What happens to a staging credit, and what a receiver is given. A batch is complete where
`on_batch_complete` is called. -/
inductive StreamEvent where
  | borrow
  | load (key : Digest) (bytes : Nat)
  | deliver (key : Digest) (data : Bytes)
  | complete
  | release
  | quarantine (key : Digest)
  deriving DecidableEq

/-- The root, with what it will be at each open to come, the variable `failed_key` and the events
so far. -/
structure StreamWorld where
  disk : Disk
  later : List Disk
  failedKey : Option Digest
  events : List StreamEvent

/-- A sequence of calls of a restore. -/
abbrev StreamProgram := Program PyError StreamWorld

/-- What receivers were given, with the keys. -/
def deliveries (events : List StreamEvent) : List (Digest × Bytes) :=
  events.filterMap fun e ↦
    match e with
    | .deliver key data => some (key, data)
    | _ => none

/-- `RestoreView`, `leases.py:97–101`, that `restore_view` gave, `token_files.py:541–566`. -/
structure RestoreLease where
  owned : Bool
  active : Bool
  descriptors : List TokenFileStore.FileDescriptor

/-- `except (OSError, ManifestError)`. -/
def isStorageError : PyError → Bool
  | .osError _ => true
  | .fileNotFound => true
  | .manifestError _ => true
  | _ => false

/-! ### Calls -/

/-- Note an event. -/
def recordEvent (e : StreamEvent) : StreamProgram Unit :=
  .effect fun w ↦ { w with events := w.events ++ [e] }

/-- Assign `failed_key`. -/
def setFailedKey (key : Option Digest) : StreamProgram Unit :=
  .effect fun w ↦ { w with failedKey := key }

/-- A call on the root. -/
def onDisk {α : Type} (x : DiskProgram α) : StreamProgram α :=
  .zoom StreamWorld.disk (fun d w ↦ { w with disk := d }) x

section

variable (store : TokenFileStore)

/-- `_open_chunk` on the root as it then is; the descriptor and what follows the header. -/
def openObject (key : Digest) : StreamProgram (TokenFileStore.FileDescriptor × Bytes) := do
  .effect fun w ↦ { w with disk := w.later.head?.getD w.disk, later := w.later.tail }
  onDisk (openPath store key false)

/-- `_read_into`, `token_files.py:90–97`, for a part of a staging credit; what is read of the rest
of a file. -/
def readInto (key : Digest) (rest : Bytes) (length : Nat) : StreamProgram Bytes := do
  recordEvent (.load key length)
  .look (.osError "readv") fun _ ↦
    if rest.length < length then .error (.manifestError "truncated token file")
    else .ok (rest.take length)

/-- The receiver of a file takes some bytes. -/
def receive (key : Digest) (data : Bytes) : StreamProgram Unit :=
  .update (.runtimeError "receiver") fun w ↦ { w with events := w.events ++ [.deliver key data] }

/-- `pool.acquire`. -/
def borrowCredit : StreamProgram Unit :=
  .update (.runtimeError "staging pool is closed") fun w ↦
    { w with events := w.events ++ [.borrow] }

/-- `os.close`. -/
def closeObject : StreamProgram Unit := .update (.osError "close") id

/-- The length of `full[offset : offset + length]`. -/
def sliceLength (poolBytes offset length : Nat) : Nat :=
  min (offset + length) poolBytes - min offset poolBytes

/-- The loop of `_verify_buffer`, `token_files.py:639–643`. -/
def verifyBlocks (slotBytes : Nat) : List Digest → Nat → Bytes → Except PyError Unit
  | [], _, _ => .ok ()
  | expected :: rest, index, view =>
    if sha256 ((view.drop (index * slotBytes)).take slotBytes) ≠ expected then
      .error (.manifestError "token transfer block checksum differs")
    else verifyBlocks slotBytes rest (index + 1) view

/-- `_verify_buffer`, `token_files.py:638–645`. -/
def verifyBuffer (desc : TokenFileStore.FileDescriptor) (view : Bytes) : Except PyError Unit := do
  verifyBlocks store.slotBytes desc.blockSha256 0 view
  if 1 < desc.blockSha256.length ∧ sha256 view ≠ desc.digest then
    throw (.manifestError "token payload checksum differs")
  else pure ()

/-- Note the key of a file when the error is one of the storage. -/
def noteKey (key : Digest) (e : PyError) : StreamProgram Unit :=
  if isStorageError e then setFailedKey (some key) else pure ()

/-- The handler that notes the key of a file, `token_files.py:618–620`. -/
def noteFailure {α : Type} (key : Digest) (x : StreamProgram α) : StreamProgram α :=
  .handle x fun e ↦ do
    noteKey key e
    .raise e

/-- `_quarantine_bad` of the key that was noted, `token_files.py:629–636`. -/
def quarantineNoted (hooked : Bool) (busy : Digest → Bool) : StreamProgram Unit := do
  let failed ← .observe StreamWorld.failedKey
  match failed with
  | none => pure ()
  | some key => do
    recordEvent (.quarantine key)
    onDisk (quarantineBadPath hooked (busy key) key)

/-! ### Files that share a credit -/

/-- Files from the front that share a credit, `token_files.py:592–598`, and the others. -/
def takeBatch (poolBytes : Nat) : List TokenFileStore.FileDescriptor → Nat → Nat →
    List TokenFileStore.FileDescriptor × List TokenFileStore.FileDescriptor
  | [], _, _ => ([], [])
  | desc :: rest, count, bytes =>
    if maxBatchChunks ≤ count ∨ 0 < count ∧ poolBytes < bytes + desc.byteLength then
      ([], desc :: rest)
    else
      let (batch, others) := takeBatch poolBytes rest (count + 1) (bytes + desc.byteLength)
      (desc :: batch, others)

/-- One file of a batch, `token_files.py:606–623`. -/
def packedFile (poolBytes : Nat) (desc : TokenFileStore.FileDescriptor) (offset : Nat) :
    StreamProgram Unit := do
  let (current, rest) ← noteFailure desc.key (openObject store desc.key)
  .always (noteFailure desc.key (do
    if current ≠ desc then .raise (.manifestError "pinned token metadata changed")
    else do
      let view ← readInto desc.key rest (sliceLength poolBytes offset desc.byteLength)
      .ofExcept (verifyBuffer store desc view)
      receive desc.key view)) closeObject

/-- The files of a batch in order. -/
def packedFiles (poolBytes : Nat) : List TokenFileStore.FileDescriptor → Nat → StreamProgram Unit
  | [], _ => pure ()
  | desc :: rest, offset => do
    packedFile store poolBytes desc offset
    packedFiles poolBytes rest (offset + desc.byteLength)

/-- A batch on one credit, `token_files.py:600–636`. -/
def streamBatch (poolBytes : Nat) (hooked : Bool) (busy : Digest → Bool)
    (batch : List TokenFileStore.FileDescriptor) : StreamProgram Unit := do
  setFailedKey none
  .always (do
    borrowCredit
    .always (.always (packedFiles store poolBytes batch 0) (recordEvent .complete))
      (recordEvent .release)) (quarantineNoted hooked busy)

/-! ### Larger files -/

/-- One block of a larger file on its credit, `token_files.py:656–668`. -/
def streamBlock (poolBytes : Nat) (key expected : Digest) (length : Nat) (rest : Bytes) :
    StreamProgram Bytes := do
  borrowCredit
  .always (.always (do
    let view ← readInto key rest (sliceLength poolBytes 0 length)
    if sha256 view ≠ expected then
      .raise (.manifestError "token transfer block checksum differs")
    else do
      receive key view
      pure view) (recordEvent .complete)) (recordEvent .release)

/-- The blocks of a larger file, `token_files.py:654–669`: what remains, and what was read. -/
def streamBlocks (poolBytes : Nat) (key : Digest) :
    List Digest → Nat → Bytes → Bytes → StreamProgram (Nat × Bytes)
  | [], remaining, _, sofar => pure (remaining, sofar)
  | expected :: blocks, remaining, rest, sofar => do
    let length := min remaining store.slotBytes
    let view ← streamBlock poolBytes key expected length rest
    streamBlocks poolBytes key blocks (remaining - length) (rest.drop view.length) (sofar ++ view)

/-- `_stream_large_object`, `token_files.py:647–682`. -/
def streamLargeObject (poolBytes : Nat) (hooked : Bool) (busy : Digest → Bool)
    (desc : TokenFileStore.FileDescriptor) : StreamProgram Unit := do
  setFailedKey none
  let (current, rest) ← .handle (noteFailure desc.key (openObject store desc.key)) fun e ↦ do
    quarantineNoted hooked busy
    .raise e
  .always (noteFailure desc.key (do
    if current ≠ desc then .raise (.manifestError "pinned token metadata changed")
    else do
      let (remaining, sofar) ←
        streamBlocks store poolBytes desc.key desc.blockSha256 desc.byteLength rest []
      if remaining ≠ 0 ∨ sha256 sofar ≠ desc.digest then
        .raise (.manifestError "token payload checksum differs")
      else pure ())) (do
    closeObject
    quarantineNoted hooked busy)

/-! ### All files -/

/-- The loop of `stream_objects`, `token_files.py:584–598`; each round takes a file, so that there
are no more rounds than files. -/
def streamFrom (poolBytes : Nat) (hooked : Bool) (busy : Digest → Bool) :
    Nat → List TokenFileStore.FileDescriptor → StreamProgram Unit
  | 0, _ => pure ()
  | _ + 1, [] => pure ()
  | rounds + 1, desc :: rest =>
    if poolBytes < desc.byteLength then do
      streamLargeObject store poolBytes hooked busy desc
      streamFrom poolBytes hooked busy rounds rest
    else do
      let (batch, others) := takeBatch poolBytes (desc :: rest) 0 0
      streamBatch store poolBytes hooked busy batch
      streamFrom poolBytes hooked busy rounds others

/-- `stream_objects`, `token_files.py:568–636`. -/
def streamObjects (poolBytes : Nat) (hooked : Bool) (busy : Digest → Bool) (lease : RestoreLease)
    (descriptors : List TokenFileStore.FileDescriptor) : StreamProgram Unit :=
  if ¬ lease.owned ∨ ¬ lease.active ∨ descriptors ≠ lease.descriptors then
    .raise (.valueError "token read requires its live, complete chain lease")
  else if ∃ d ∈ descriptors, poolBytes < min d.byteLength store.slotBytes then
    .raise (.valueError "read credit is smaller than the file authentication unit")
  else streamFrom store poolBytes hooked busy descriptors.length descriptors

end

/-! ### Authentic payloads -/

namespace TokenFileStore

/-- The bytes have the length, the block checksums and the checksum of the descriptor. -/
structure Authentic (store : TokenFileStore) (desc : FileDescriptor) (payload : Bytes) : Prop where
  length : payload.length = desc.byteLength
  blocks : (pieces store.slotBytes payload).map sha256 = desc.blockSha256
  digest : sha256 payload = desc.digest

/-- A descriptor that an open gave, with what followed the header. -/
structure Opened (store : TokenFileStore) (key : Digest) (desc : FileDescriptor) (rest : Bytes) :
    Prop where
  key_eq : desc.key = key
  length_pos : 0 < desc.byteLength
  length_rest : rest.length = desc.byteLength
  count : desc.blockSha256.length = store.transferBlocks desc.byteLength
  single : desc.blockSha256.length = 1 → desc.blockSha256.head? = some desc.digest

variable {store : TokenFileStore}

/-- The descriptor of a file that opens is right about the length of what follows the header. -/
theorem opened_of_openData {key : Digest} {data : Bytes} {desc : FileDescriptor}
    (h : store.openData key data = .ok desc) :
    Opened store key desc (data.drop desc.payloadOffset) := by
  obtain ⟨⟨encoded, checksum⟩, -, h⟩ := bind_ok h
  obtain ⟨p, hp, h⟩ := bind_ok h
  split at h
  · cases h
  · next hbounds =>
    split at h
    · cases h
    · next hlength =>
      cases h
      have hlength := not_not.mp hlength
      have hheader : ∃ header digest blocks,
          store.headerPayload key header digest (some blocks) = .ok p := by
        unfold decodeHeader at hp
        split at hp
        · cases hp
        · split at hp
          · cases hp
          · split at hp
            · cases hp
            · next hheader =>
              split at hp
              · cases hp
              · cases hp
                exact ⟨_, _, _, hheader⟩
      obtain ⟨header, digest, blocks, hheader⟩ := hheader
      obtain ⟨-, -, -, hdigest, -, hcount, -⟩ := headerPayload_ok hheader
      refine ⟨rfl, by dsimp only; omega, ?_, hcount, fun hone ↦ ?_⟩
      · rw [List.length_drop, hlength]
        dsimp only
        omega
      · dsimp only at hone ⊢
        obtain ⟨segments, -, hrest⟩ := bind_ok hheader
        dsimp only at hrest
        split at hrest
        · cases hrest
        · next hfit =>
          cases hrest
          dsimp only at hone hcount hdigest ⊢
          rw [not_or, not_and, not_not, not_not] at hfit
          exact hfit.2 (hfit.1 ▸ hone)

end TokenFileStore

open TokenFileStore (Authentic Opened)

section

variable {store : TokenFileStore}

private theorem verifyBlocks_ok {slotBytes : Nat} {blocks : List Digest} {index : Nat}
    {view : Bytes} (h : verifyBlocks slotBytes blocks index view = .ok ()) :
    blocks = (List.range blocks.length).map fun i ↦
      sha256 ((view.drop ((index + i) * slotBytes)).take slotBytes) := by
  induction blocks generalizing index with
  | nil => rfl
  | cons expected rest ih =>
    unfold verifyBlocks at h
    split at h
    · cases h
    · next hexpected =>
      have hrest := ih h
      rw [List.length_cons, List.range_succ_eq_map, List.map_cons, List.map_map, Nat.add_zero,
        not_not.mp hexpected]
      refine congrArg (expected :: ·) (hrest.trans (List.map_congr_left fun i _ ↦ ?_))
      dsimp only [Function.comp]
      rw [Nat.add_right_comm, Nat.add_assoc]

/-- What `_verify_buffer` lets pass is authentic. -/
theorem authentic_of_verifyBuffer {key : Digest} {desc : TokenFileStore.FileDescriptor}
    {rest view : Bytes} (hopened : Opened store key desc rest)
    (hlength : view.length = desc.byteLength) (h : verifyBuffer store desc view = .ok ()) :
    Authentic store desc view := by
  obtain ⟨u, hblocks, h⟩ := bind_ok h
  have hpieces : (TokenFileStore.pieces store.slotBytes view).map sha256 = desc.blockSha256 := by
    rw [verifyBlocks_ok hblocks, hopened.count]
    unfold TokenFileStore.pieces TokenFileStore.transferBlocks
    rw [List.map_map, hlength]
    refine List.map_congr_left fun i _ ↦ ?_
    rw [Nat.zero_add]
    rfl
  refine ⟨hlength, hpieces, ?_⟩
  split at h
  · cases h
  · next hwhole =>
    by_cases hone : desc.blockSha256.length = 1
    · have hhead := hopened.single hone
      have hpos : view ≠ [] := List.ne_nil_of_length_pos (hlength ▸ hopened.length_pos)
      have hle : view.length ≤ store.slotBytes := by
        have hblocks := hopened.count.symm.trans hone
        have hlt : (desc.byteLength + store.slotBytes - 1) / store.slotBytes < 2 := by
          change store.transferBlocks desc.byteLength < 2
          omega
        have := (Nat.div_lt_iff_lt_mul store.slotBytes_pos).mp hlt
        omega
      rw [← hpieces, TokenFileStore.pieces_cons store.slotBytes_pos hpos,
        List.take_of_length_le hle] at hhead
      exact Option.some.inj hhead
    · have hmany : 1 < desc.blockSha256.length := by
        have hpos : 0 < desc.blockSha256.length := by
          rw [hopened.count]
          exact Nat.div_pos (by have := hopened.length_pos; omega) store.slotBytes_pos
        omega
      by_contra hne
      exact hwhole ⟨hmany, hne⟩

end

end SpoolCache.Store

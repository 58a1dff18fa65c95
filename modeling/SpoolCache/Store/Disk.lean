import SpoolCache.Base.Durable
import SpoolCache.Base.Fallible
import SpoolCache.Store.FileFormat

/-!
# Directories of a rank root

Publication, removal and withdrawal as sequences of system calls: `token_files.py:346–452`,
`token_files.py:725–736`, `token_files.py:798–823`, `rank_store.py:618–836` and
`token_scrub.py:150–177`. Every call may fail or be the last one before a crash. An update of a
directory is durable once the directory has been synced, and the contents of a file once the file
has. Pins and the process memory of a reporter are not on disk: whether a key is busy is an
argument, and the withdrawal hook is a call without effect on disk.
-/

namespace SpoolCache.Store

open SpoolCache.Base SpoolCache.Layout

/-! ### State -/

/-- A file; `synced` says that its contents survive a crash. -/
structure DiskFile where
  data : Bytes
  synced : Bool
  deriving DecidableEq

/-- The contents of a file that was not synced are lost in a crash. -/
def DiskFile.Decays (old new : DiskFile) : Prop :=
  new.synced = true ∧ (old.synced = true → new.data = old.data)

/-- What became of a key: its marker was made durable, a publication linked its file, or the file
was authenticated in full. -/
inductive KeyEvent where
  | marked (key : Digest)
  | linked (key : Digest)
  | authenticated (key : Digest)
  deriving DecidableEq

/-- The directories `manifests`, its shards, `state/inventory-withdrawn` and `tmp` of a rank
root; the last with the names `token-{nonce}.part` only. `journal` is what happened to keys so
far. -/
structure Disk where
  manifests : Directory Nat Unit
  files : Directory Digest DiskFile
  markers : Directory Digest Unit
  tmp : Directory Nat DiskFile
  journal : List KeyEvent

/-- The shard of a key: the first two characters, `token_files.py:166–169`. -/
def shard (key : Digest) : Nat := key.toNat / 2 ^ 248

/-- What a crash may make of a root. A shard that is gone takes its files with it. -/
structure Disk.Crash (d d' : Disk) : Prop where
  manifests : d.manifests.Crash Eq d'.manifests
  markers : d.markers.Crash Eq d'.markers
  tmp : d.tmp.Crash DiskFile.Decays d'.tmp
  stale : ∀ key, d'.files.stale key = []
  files : ∀ key, d'.files.get? key = none ∧ d'.manifests.get? (shard key) = none ∨
    ∃ v, d.files.Possible key v ∧ Option.Rel DiskFile.Decays v (d'.files.get? key)
  gone : ∀ key, d'.manifests.get? (shard key) = none → d'.files.get? key = none
  journal : d'.journal = d.journal

/-- A sequence of calls on a root. -/
abbrev DiskProgram := Program PyError Disk

/-! ### System calls -/

/-- A point where a test may stop, or a hook is called. -/
def checkpoint (point : String) : DiskProgram Unit := .update (.runtimeError point) id

/-- `os.open` of a new temporary. -/
def createTemporary (nonce : Nat) : DiskProgram Unit :=
  .call (.osError "open") fun d ↦
    match d.tmp.get? nonce with
    | some _ => (.error (.osError "file exists"), d)
    | none => (.ok (), { d with tmp := d.tmp.put nonce ⟨[], false⟩ })

/-- Bytes written at an offset. -/
def DiskFile.write (f : DiskFile) (offset : Nat) (data : Bytes) : DiskFile :=
  ⟨f.data.take offset ++ data ++ f.data.drop (offset + data.length), false⟩

/-- `os.writev` of a temporary. -/
def writev (nonce offset : Nat) (data : Bytes) : DiskProgram Unit :=
  .update (.osError "writev") fun d ↦
    { d with tmp := d.tmp.modify nonce fun f ↦ f.write offset data }

/-- `os.fsync` of a temporary. -/
def fsyncTemporary (nonce : Nat) : DiskProgram Unit :=
  .update (.osError "fsync") fun d ↦
    { d with tmp := d.tmp.modify nonce fun f ↦ { f with synced := true } }

/-- `os.link` of a temporary to the path of a key. -/
def linkTemporary (nonce : Nat) (key : Digest) : DiskProgram Unit :=
  .call (.osError "link") fun d ↦
    match d.tmp.get? nonce, d.manifests.get? (shard key), d.files.get? key with
    | some f, some _, none =>
      (.ok (), { d with files := d.files.put key f, journal := d.journal ++ [.linked key] })
    | some _, some _, some _ => (.error (.osError "file exists"), d)
    | _, _, _ => (.error .fileNotFound, d)

/-- `unlink` of a temporary. -/
def unlinkTemporary (nonce : Nat) : DiskProgram Unit :=
  .call (.osError "unlink") fun d ↦
    match d.tmp.get? nonce with
    | none => (.error .fileNotFound, d)
    | some _ => (.ok (), { d with tmp := d.tmp.remove nonce })

/-- `unlink` of the path of a key, or `os.replace` of it into the quarantine. -/
def removePath (key : Digest) : DiskProgram Unit :=
  .call (.osError "unlink") fun d ↦
    match d.files.get? key with
    | none => (.error .fileNotFound, d)
    | some _ => (.ok (), { d with files := d.files.remove key })

/-- Whether the path of a key is there. -/
def pathExists (key : Digest) : DiskProgram Bool :=
  .look (.osError "stat") fun d ↦ .ok (d.files.get? key).isSome

/-- `os.close`. -/
def closeFile : DiskProgram Unit := .update (.osError "close") id

/-- `_fsync_directory` of a shard. -/
def fsyncShard (key : Digest) : DiskProgram Unit :=
  .update (.osError "fsync") fun d ↦
    { d with files := d.files.syncWhere fun k ↦ shard k = shard key }

/-- `_fsync_directory` of `manifests`. -/
def fsyncManifests : DiskProgram Unit :=
  .update (.osError "fsync") fun d ↦ { d with manifests := d.manifests.sync }

/-- `_fsync_directory` of `tmp`. -/
def fsyncTmp : DiskProgram Unit :=
  .update (.osError "fsync") fun d ↦ { d with tmp := d.tmp.sync }

/-- `_fsync_directory` of `quarantine`, which is not part of the state. -/
def fsyncQuarantine : DiskProgram Unit := .update (.osError "fsync") id

section

variable {I P : Disk → Prop}

/-- A test hook changes nothing. -/
theorem runs_checkpoint (point : String) : Program.Runs I P (checkpoint point) fun _ d ↦ P d :=
  Program.runs_update fun _ hi hp ↦ ⟨hi, hp⟩

/-- Closing a file changes nothing. -/
theorem runs_closeFile : Program.Runs I P closeFile fun _ d ↦ P d :=
  Program.runs_update fun _ hi hp ↦ ⟨hi, hp⟩

/-- The sync of the quarantine directory changes nothing in the model. -/
theorem runs_fsyncQuarantine : Program.Runs I P fsyncQuarantine fun _ d ↦ P d :=
  Program.runs_update fun _ hi hp ↦ ⟨hi, hp⟩

end

/-! ### Markers -/

/-- `_inventory_is_withdrawn`, `rank_store.py:656–660`. -/
def inventoryIsWithdrawn (key : Digest) : DiskProgram Bool :=
  .look (.osError "lstat") fun d ↦ .ok (d.markers.get? key).isSome

/-- `_mark_inventory_withdrawn`, `rank_store.py:635–648`; an existing marker is synced again. -/
def markInventoryWithdrawn (key : Digest) : DiskProgram Unit := do
  .update (.osError "mkdir") fun d ↦
    if (d.markers.get? key).isSome then d else { d with markers := d.markers.put key () }
  let present ← inventoryIsWithdrawn key
  if present then
    .update (.osError "fsync") fun d ↦
      { d with markers := d.markers.sync, journal := d.journal ++ [.marked key] }
  else .raise (.valueError "inventory-withdrawal marker is invalid")

/-- `_clear_inventory_withdrawal`, `rank_store.py:650–654`. -/
def clearInventoryWithdrawal (key : Digest) : DiskProgram Unit := do
  let present ← inventoryIsWithdrawn key
  if present then
    .update (.osError "rmdir") fun d ↦ { d with markers := d.markers.remove key }
    .update (.osError "fsync") fun d ↦ { d with markers := d.markers.sync }
  else pure ()

/-! ### Opening -/

section

variable (store : TokenFileStore)

/-- The withdrawal gate of `_open_chunk`, `token_files.py:241–242`. -/
def withdrawalGate (key : Digest) (allowWithdrawn : Bool) : DiskProgram Bool :=
  if allowWithdrawn then pure false else inventoryIsWithdrawn key

/-- `_open_chunk`, `token_files.py:239–302`: the descriptor, and what follows the header. -/
def openPath (key : Digest) (allowWithdrawn : Bool) :
    DiskProgram (TokenFileStore.FileDescriptor × Bytes) := do
  let withdrawn ← withdrawalGate key allowWithdrawn
  if withdrawn then .raise (.manifestError "token key withdrawn")
  else
    .look (.osError "open") fun d ↦
      match d.files.get? key with
      | none => .error .fileNotFound
      | some f => (store.openData key f.data).map fun desc ↦ (desc, f.data.drop desc.payloadOffset)

/-- A key that lookups open: it has no marker, and its file opens. -/
def Disk.Accepts (d : Disk) (key : Digest) : Prop :=
  d.markers.get? key = none ∧ ∃ f desc, d.files.get? key = some f ∧ store.openData key f.data = .ok desc

/-! ### Publication -/

/-- What the environment decides in a publication: the name it draws, and how much each `writev`
takes. -/
structure PublishEnv where
  nonce : Nat
  headerWrites : List Nat
  pieceWrites : Nat → List Nat
  finalWrites : List Nat

/-- `_write_vector`, `token_files.py:71–87`: parts are written until nothing is left. -/
def writeVector (nonce : Nat) : List Nat → Nat → Bytes → DiskProgram Unit
  | [], offset, data => if data = [] then pure () else writev nonce offset data
  | count :: counts, offset, data =>
    if data = [] then pure ()
    else if count = 0 then .raise (.osError "short token file write")
    else do
      writev nonce offset (data.take count)
      writeVector nonce counts (offset + (data.take count).length) (data.drop count)

/-- `_ensure_shard_directory`, `rank_store.py:773–783`. -/
def ensureShardDirectory (key : Digest) : DiskProgram Unit := do
  .update (.osError "mkdir") fun d ↦
    if (d.manifests.get? (shard key)).isSome then d
    else { d with manifests := d.manifests.put (shard key) () }
  fsyncManifests

/-- `_cleanup_temporary_file`, `rank_store.py:894–931`, while another error is raised: its own
errors are only noted. -/
def cleanupTemporaryFile (nonce : Nat) : DiskProgram Unit := do
  let _ ← Program.attempt (unlinkTemporary nonce)
  let _ ← Program.attempt fsyncTmp
  pure ()

/-- The withdrawal of a key whose publication failed, `token_files.py:437–442`. -/
def withdrawPublished (key : Digest) : DiskProgram Unit := do
  let _ ← Program.attempt (do
    markInventoryWithdrawn key
    checkpoint "withdraw hook")
  pure ()

/-- `_publish_chunk` before the link, `token_files.py:421–426`. -/
def prepareTemporary (env : PublishEnv) (key : Digest) (write : DiskProgram Unit) :
    DiskProgram Unit := do
  write
  fsyncTemporary env.nonce
  checkpoint "token_before_publish"
  ensureShardDirectory key

/-- `_publish_chunk` up to the link, `token_files.py:421–427`. -/
def writeAndLink (env : PublishEnv) (key : Digest) (write : DiskProgram Unit) :
    DiskProgram Unit := do
  prepareTemporary env key write
  linkTemporary env.nonce key

/-- From the link until the temporary is retired, `token_files.py:428–433`. -/
def retireTemporary (env : PublishEnv) (key : Digest) : DiskProgram Unit := do
  checkpoint "token_after_link"
  fsyncShard key
  unlinkTemporary env.nonce
  fsyncTmp

/-- The block of `_publish_chunk` with its handlers, `token_files.py:420–448`. What is done about
an error depends on how far the block came. -/
def publishTemporary (env : PublishEnv) (key : Digest) (write : DiskProgram Unit) :
    DiskProgram Unit := do
  .onError (writeAndLink env key write) (do
    closeFile
    cleanupTemporaryFile env.nonce)
  .onError (retireTemporary env key) (do
    withdrawPublished key
    closeFile
    cleanupTemporaryFile env.nonce)
  .onError (clearInventoryWithdrawal key) (do
    withdrawPublished key
    closeFile)

/-- `_publish_chunk` until the marker is cleared, `token_files.py:411–448`. -/
def publishUnfenced (env : PublishEnv) (key : Digest) (p : HeaderPayload)
    (write : Bytes → DiskProgram Unit) : DiskProgram Unit := do
  let header ← .ofExcept (store.encodeHeader p)
  let there ← pathExists key
  if there then .raise (.manifestError "capture requires an absent or quarantined key")
  else
    createTemporary env.nonce
    publishTemporary env key (write header)

/-- The end of `_publish_chunk`, `token_files.py:444` and `token_files.py:449–452`. -/
def reopenPublished (key : Digest) : DiskProgram TokenFileStore.FileDescriptor := do
  closeFile
  let (desc, _) ← openPath store key false
  closeFile
  pure desc

/-- `commit_chunk` until the marker is cleared, `token_files.py:353–374`. -/
def commitChunkUnfenced (env : PublishEnv) (key : Digest) (header : TokenHeader)
    (payload : Bytes) : DiskProgram Unit := do
  let p ← .ofExcept (store.commitHeader key header payload)
  publishUnfenced store env key p fun encoded ↦
    writeVector env.nonce env.headerWrites 0 (encoded ++ payload)

/-- `commit_chunk`, `token_files.py:353–374`. -/
def commitChunk (env : PublishEnv) (key : Digest) (header : TokenHeader) (payload : Bytes) :
    DiskProgram TokenFileStore.FileDescriptor := do
  commitChunkUnfenced store env key header payload
  reopenPublished store key

/-- The loop of `commit_stream` over what its producer yields, `token_files.py:386–399`. Returns
the pieces that were written and what remains. -/
def writePieces (env : PublishEnv) :
    List (Except PyError Bytes) → Nat → Nat → Nat → List Bytes → DiskProgram (List Bytes × Nat)
  | [], _, _, remaining, written => pure (written, remaining)
  | .error e :: _, _, _, _, _ => .raise e
  | .ok piece :: rest, index, offset, remaining, written =>
    let length := min remaining store.slotBytes
    if length = 0 ∨ piece.length ≠ length then
      .raise (.manifestError "captured transfer range differs from geometry")
    else do
      writeVector env.nonce (env.pieceWrites index) offset piece
      checkpoint "token_after_payload_block"
      writePieces env rest (index + 1) (offset + piece.length) (remaining - length)
        (written ++ [piece])

/-- `write` of `commit_stream`, `token_files.py:382–406`. -/
def writeStream (env : PublishEnv) (p : HeaderPayload) (pieces : List (Except PyError Bytes))
    (encoded : Bytes) : DiskProgram Unit := do
  writeVector env.nonce env.headerWrites 0 encoded
  let (written, remaining) ← writePieces store env pieces 0 encoded.length p.byteLength []
  if remaining ≠ 0 then .raise (.manifestError "captured token stream is incomplete")
  else do
    let final ← .ofExcept (store.encodeHeader
      { p with digest := sha256 written.flatten, blockSha256 := written.map sha256 })
    if final.length ≠ encoded.length then
      .raise (.manifestError "streamed token header changed length")
    else writeVector env.nonce env.finalWrites 0 final

/-- `commit_stream` until the marker is cleared, `token_files.py:376–408`. -/
def commitStreamUnfenced (env : PublishEnv) (key : Digest) (header : TokenHeader)
    (pieces : List (Except PyError Bytes)) : DiskProgram Unit := do
  let p ← .ofExcept (store.headerPayload key header (.ofNat 0) none)
  publishUnfenced store env key p (writeStream store env p pieces)

/-- `commit_stream`, `token_files.py:376–408`. -/
def commitStream (env : PublishEnv) (key : Digest) (header : TokenHeader)
    (pieces : List (Except PyError Bytes)) : DiskProgram TokenFileStore.FileDescriptor := do
  commitStreamUnfenced store env key header pieces
  reopenPublished store key

/-! ### Recovery -/

/-- Unlinking a batch; a name that is gone counts too. -/
def removeParts : List Nat → DiskProgram Unit
  | [] => pure ()
  | nonce :: rest => do
    .update (.osError "unlink") fun d ↦
      if (d.tmp.get? nonce).isSome then { d with tmp := d.tmp.remove nonce } else d
    removeParts rest

/-- The loop of `recover`, `token_files.py:802–821`, for some rounds; the number of names
removed. -/
def recoverRounds : Nat → DiskProgram Nat
  | 0 => pure 0
  | rounds + 1 => do
    let batch ← .look (.osError "scandir") fun d ↦ .ok (d.tmp.names.take 64)
    if batch = [] then pure 0
    else do
      removeParts batch
      let removed ← recoverRounds rounds
      pure (batch.length + removed)

/-- `recover`, `token_files.py:798–823`. Each round with names removes one, so that there are no
more rounds than names. -/
def recover : DiskProgram Nat := fun m ↦
  (do
    let removed ← recoverRounds (m.state.tmp.names.length + 1)
    if removed = 0 then pure 0
    else do
      fsyncTmp
      pure removed : DiskProgram Nat) m

/-! ### Removal -/

/-- `evict`, `token_files.py:725–736`. -/
def evictPath (busy : Bool) (key : Digest) : DiskProgram Bool := do
  if busy then pure false
  else do
    let there ← pathExists key
    if there then do
      markInventoryWithdrawn key
      checkpoint "withdraw hook"
      removePath key
      fsyncShard key
      pure true
    else pure false

/-- The end of a quarantine, `rank_store.py:826–834`: the marker stays when there is no hook. -/
def retireMarker (hooked : Bool) (key : Digest) : DiskProgram Unit :=
  if hooked then clearInventoryWithdrawal key else pure ()

/-- `_quarantine_manifest`, `rank_store.py:785–836`. -/
def quarantinePath (hooked : Bool) (key : Digest) : DiskProgram Bool := do
  let marking ← Program.attempt (markInventoryWithdrawn key)
  let hook ← Program.attempt (checkpoint "withdraw hook")
  let removing ← Program.attempt (removePath key)
  match removing with
  | some .fileNotFound => pure false
  | some e => .raise e
  | none => do
    let first ← Program.attempt (fsyncShard key)
    let second ← Program.attempt fsyncQuarantine
    match marking <|> hook <|> first <|> second with
    | some _ =>
      .raise (.runtimeError "manifest quarantine changed namespace without a complete receipt")
    | none => do
      retireMarker hooked key
      pure true

/-- `_quarantine_bad`, `token_files.py:346–351`. -/
def quarantineBadPath (hooked busy : Bool) (key : Digest) : DiskProgram Unit := do
  if busy then do
    markInventoryWithdrawn key
    checkpoint "withdraw hook"
  else do
    let _ ← quarantinePath hooked key
    pure ()

/-- `_fsync_manifest_absence_locked`, `rank_store.py:760–771`. -/
def fsyncManifestAbsence (key : Digest) : DiskProgram Unit := do
  let there ← .look (.osError "lstat") fun d ↦ .ok (d.manifests.get? (shard key)).isSome
  if there then fsyncShard key else fsyncManifests

/-- `acknowledge_absent_inventory_withdrawals`, `rank_store.py:724–758`. -/
def acknowledgeAbsent : List Digest → DiskProgram Unit
  | [] => pure ()
  | key :: keys => do
    let there ← pathExists key
    if there then acknowledgeAbsent keys
    else do
      fsyncManifestAbsence key
      let still ← pathExists key
      if still then acknowledgeAbsent keys
      else do
        clearInventoryWithdrawal key
        acknowledgeAbsent keys

/-- `_authenticate` of the file of a key, in full. -/
def authenticatePath (key : Digest) (desc : TokenFileStore.FileDescriptor) (payload : Bytes) :
    DiskProgram Unit :=
  .call (.osError "read") fun d ↦
    match store.authenticate desc payload with
    | .error e => (.error e, d)
    | .ok () => (.ok (), { d with journal := d.journal ++ [.authenticated key] })

/-- One key of a scrub step, `token_scrub.py:156–177`. -/
def scrubPath (hooked busy : Bool) (key : Digest) : DiskProgram Unit := do
  if busy then pure ()
  else
    .handle (do
        let (desc, payload) ← openPath store key true
        authenticatePath store key desc payload
        let withdrawn ← inventoryIsWithdrawn key
        if withdrawn then clearInventoryWithdrawal key else pure ()) fun e ↦
      match e with
      | .fileNotFound => pure ()
      | .osError _ => quarantineBadPath hooked busy key
      | .manifestError _ => quarantineBadPath hooked busy key
      | e => .raise e

/-! ### The root as operations on whole files see it -/

/-- A file with its header decoded and its payload authenticated. -/
def tokenFile (key : Digest) (f : DiskFile) (modified : Nat) : TokenFile :=
  match store.openData key f.data with
  | .error _ => ⟨none, false, modified, f.data.length, (sha256 f.data).toNat⟩
  | .ok desc =>
    ⟨some ⟨desc.kind, desc.parent, desc.spanTokens⟩,
      (store.authenticate desc (f.data.drop desc.payloadOffset)).isOk, modified, f.data.length,
      (sha256 f.data).toNat⟩

/-- The state of a rank whose root has these directories. -/
def Disk.rankState (d : Disk) (modified : Digest → Nat) (pins : List (List Digest))
    (reporter : Quorum.InventoryReporter) : RankState where
  files := d.files.entries.mapValues fun key f ↦ tokenFile store key f (modified key)
  markers := d.markers.entries
  pins := pins
  reporter := reporter

/-- A file that opens has the segments of its header, and the key it was opened for. -/
theorem openData_ok {key : Digest} {data : Bytes} {desc : TokenFileStore.FileDescriptor}
    (h : store.openData key data = .ok desc) :
    Store.headerPayload store.config key ⟨desc.kind, desc.parent, desc.spanTokens⟩ =
      .ok desc.segments ∧ desc.key = key := by
  obtain ⟨⟨encoded, checksum⟩, -, h⟩ := bind_ok h
  obtain ⟨p, hp, h⟩ := bind_ok h
  split at h
  · cases h
  · split at h
    · cases h
    · cases h
      unfold TokenFileStore.decodeHeader at hp
      split at hp
      · cases hp
      · split at hp
        · cases hp
        · split at hp
          · cases hp
          · next hheader =>
            split at hp
            · cases hp
            · cases hp
              obtain ⟨hsegments, -, hh, -⟩ := TokenFileStore.headerPayload_ok hheader
              exact ⟨by rw [hh]; exact hsegments, rfl⟩

/-- A key that the bytes on disk accept is one that whole-file operations open. -/
theorem accepts_iff (d : Disk) (modified : Digest → Nat) (pins : List (List Digest))
    (reporter : Quorum.InventoryReporter) (key : Digest) :
    d.Accepts store key ↔
      ∃ desc, openChunk store.config (d.rankState store modified pins reporter) key false = .ok desc := by
  have hfile : (d.rankState store modified pins reporter).files.get? key =
      (d.files.get? key).map fun f ↦ tokenFile store key f (modified key) :=
    OrderedDict.get?_mapValues _ _ _
  have hmarker : key ∈ (d.rankState store modified pins reporter).markers.keys ↔
      d.markers.get? key ≠ none := by
    rw [ne_eq, Directory.get?, OrderedDict.get?_eq_none_iff, not_not]
    rfl
  constructor
  · rintro ⟨hm, f, desc, hf, hopen⟩
    unfold openChunk
    rw [if_neg (by rw [hmarker]; exact fun h ↦ h.2 hm), hfile, hf]
    dsimp only [Option.map_some]
    unfold tokenFile
    rw [hopen]
    dsimp only
    rw [(openData_ok store hopen).1]
    exact ⟨_, rfl⟩
  · rintro ⟨desc, hopen⟩
    unfold openChunk at hopen
    split at hopen
    · cases hopen
    · next hm =>
      rw [hfile] at hopen
      refine ⟨by_contra fun hne ↦ hm ⟨rfl, hmarker.mpr hne⟩, ?_⟩
      cases hf : d.files.get? key with
      | none =>
        rw [hf] at hopen
        cases hopen
      | some f =>
        rw [hf] at hopen
        dsimp only [Option.map_some] at hopen
        unfold tokenFile at hopen
        cases ho : store.openData key f.data with
        | error e =>
          rw [ho] at hopen
          cases hopen
        | ok found => exact ⟨f, found, rfl, ho⟩

end

end SpoolCache.Store

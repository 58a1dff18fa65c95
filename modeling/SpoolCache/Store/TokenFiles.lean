import SpoolCache.Layout.Coverage
import SpoolCache.Prefix.Digests
import SpoolCache.Quorum.Reporter

/-!
# Token files of one rank

`token_files.py` and the marker part of `rank_store.py`, at the grain of the namespace lock: each
operation that holds the lock is one function on the state of a rank. A file is what its header
says after decoding, with a flag for whether its payload authenticates; the bytes themselves,
their durability and failing system calls are not part of this model, except that a publication
may fail on either side of its link.
-/

namespace SpoolCache.Store

open SpoolCache.Base SpoolCache.Layout SpoolCache.Prefix SpoolCache.Quorum

/-! ### State -/

/-- The fields of a header that differ between files of one store. -/
structure TokenHeader where
  kind : FileKind
  parent : Option Digest
  spanTokens : Nat
  deriving DecidableEq

/-- What a store is opened with: layout and authentication unit. The encoded length of a header
also depends on the identities bound to the store, so it is given. -/
structure StoreConfig where
  layout : HMALayout
  slotBytes : Nat
  headerLength : TokenHeader → Nat
  slotBytes_pos : 0 < slotBytes

/-- A token file. `header` is `none` when frame, checksum, binding or text of the header are not
those of this store; `authentic` says whether the payload matches its checksums. `inode` tells
files with different bytes apart. -/
structure TokenFile where
  header : Option TokenHeader
  authentic : Bool
  modified : Nat
  storedBytes : Nat
  inode : Nat
  deriving DecidableEq

/-- A rank root with the reporter of its worker: files under `manifests`, withdrawal markers, and
the keys pinned by live restore views of any process. -/
structure RankState where
  files : OrderedDict Digest TokenFile
  markers : OrderedDict Digest Unit
  pins : List (List Digest)
  reporter : InventoryReporter

/-- `TokenFileDescriptor`, `manifest.py:93–103`. -/
structure TokenFileDescriptor where
  key : Digest
  parent : Option Digest
  spanTokens : Nat
  segments : List PageSlice
  kind : FileKind
  deriving DecidableEq

/-- `TokenSnapshot`, `manifest.py:110–115`, of the store's own profile and layout. -/
structure TokenSnapshot where
  entryId : Digest
  spanTokens : Nat
  objects : List TokenFileDescriptor
  deriving DecidableEq

/-- `MAX_HEADER_BYTES`, `token_files.py:41`. -/
def maxHeaderBytes : Nat := 64 * 1024

/-- `MAX_TRANSFER_BLOCKS`, `token_files.py:42`. -/
def maxTransferBlocks : Nat := 512

section

variable (config : StoreConfig)

/-! ### Headers -/

/-- `_header_payload`, `token_files.py:175–218`: the slices of a valid header. -/
def headerPayload (key : Digest) (header : TokenHeader) : Except PyError (List PageSlice) :=
  if header.spanTokens = 0 ∨ maxCounter < header.spanTokens then
    .error (.manifestError "invalid token file span")
  else if header.spanTokens % config.layout.chunkTokens ≠ 0 then
    .error (.manifestError "token key/interval/hash is invalid")
  else if header.kind = .state ∧ ¬ (config.layout.hasBoundaryState = true ∧
      header.parent.map boundaryStateKey = some key ∧
      header.spanTokens % config.layout.alignmentTokens = 0) then
    .error (.manifestError "boundary state identity/alignment differs")
  else if header.kind = .data ∧
      (header.spanTokens = config.layout.chunkTokens ∧ header.parent ≠ none ∨
        config.layout.chunkTokens < header.spanTokens ∧ header.parent = none) then
    .error (.manifestError "token parent is invalid")
  else do
    let segments ← config.layout.segments header.spanTokens header.kind
    let length := (segments.map PageSlice.byteLength).sum
    let blocks := (length + config.slotBytes - 1) / config.slotBytes
    if blocks = 0 ∨ maxTransferBlocks < blocks then
      throw (.manifestError "invalid token file transfer block count")
    else pure segments

/-- `_encode_header`, `token_files.py:220–226`: the check on its length. -/
def encodeHeader (header : TokenHeader) : Except PyError Unit :=
  if config.headerLength header = 0 ∨ maxHeaderBytes < config.headerLength header then
    .error (.manifestError "invalid token file header length")
  else .ok ()

/-- `validate_prefix_headers`, `token_files.py:228–237`. -/
def validatePrefixHeaders (span : Nat) : Except PyError Unit := do
  let zero : Digest := .ofNat 0
  let data : TokenHeader :=
    ⟨.data, if span = config.layout.chunkTokens then none else some zero, span⟩
  let _ ← headerPayload config zero data
  encodeHeader config data
  if config.layout.hasBoundaryState then
    let state : TokenHeader := ⟨.state, some zero, span⟩
    let _ ← headerPayload config (boundaryStateKey zero) state
    encodeHeader config state
  else pure ()

/-- `_open_chunk`, `token_files.py:239–302`. -/
def openChunk (s : RankState) (key : Digest) (allowWithdrawn : Bool) :
    Except PyError TokenFileDescriptor :=
  if allowWithdrawn = false ∧ key ∈ s.markers.keys then
    .error (.manifestError "token key withdrawn")
  else
    match s.files.get? key with
    | none => .error .fileNotFound
    | some file =>
      match file.header with
      | none => .error (.manifestError "invalid token metadata")
      | some header =>
        match headerPayload config key header with
        | .error _ => .error (.manifestError "invalid token metadata")
        | .ok segments =>
          .ok ⟨key, header.parent, header.spanTokens, segments, header.kind⟩

/-! ### Pins and markers -/

/-- The byte a pin locks, `leases.py:26–36`: twice the low 62 bits of the first 16 characters. -/
def pinOffset (key : Digest) : Nat := key.toNat / 2 ^ 192 % 2 ^ 62 * 2

/-- `KeyPins.busy`, `leases.py:75–76`. -/
def busy (s : RankState) (key : Digest) : Bool :=
  s.pins.any fun keys ↦ keys.any fun pinned ↦ decide (pinOffset pinned = pinOffset key)

/-- `_mark_inventory_withdrawn`, `rank_store.py:662–666`. -/
def markWithdrawn (s : RankState) (key : Digest) : RankState :=
  { s with markers := s.markers.set key () }

/-- `_clear_inventory_withdrawal`, `rank_store.py:668–672`. -/
def clearWithdrawal (s : RankState) (key : Digest) : RankState :=
  { s with markers := s.markers.erase key }

/-- `_record_withdrawal`, `rank_store.py:226–236`; only the owning worker installs the hook. -/
def recordWithdrawal (hooked : Bool) (s : RankState) (key : Digest) : RankState :=
  if hooked then { s with reporter := s.reporter.remove key } else s

/-- `_quarantine_manifest`, `rank_store.py:785–836`. Without the hook the marker stays. -/
def quarantineManifest (hooked : Bool) (s : RankState) (key : Digest) : RankState :=
  let s := recordWithdrawal hooked (markWithdrawn s key) key
  if key ∉ s.files.keys then s
  else
    let s := { s with files := s.files.erase key }
    if hooked then clearWithdrawal s key else s

/-- `_quarantine_bad`, `token_files.py:346–351`. -/
def quarantineBad (hooked : Bool) (s : RankState) (key : Digest) : RankState :=
  if busy s key then recordWithdrawal hooked (markWithdrawn s key) key
  else quarantineManifest hooked s key

/-! ### Files -/

/-- `valid_chunk`, `token_files.py:323–344`. -/
def validChunk (hooked : Bool) (s : RankState) (key : Digest) (header : TokenHeader) :
    RankState × Option TokenFileDescriptor :=
  match openChunk config s key false with
  | .error .fileNotFound => (s, none)
  | .error _ => (quarantineBad hooked s key, none)
  | .ok desc =>
    if (desc.parent, desc.spanTokens, desc.kind) ≠
        (header.parent, header.spanTokens, header.kind) then (quarantineBad hooked s key, none)
    else if ((s.files.get? key).map TokenFile.authentic).getD false = false then
      (quarantineBad hooked s key, none)
    else (s, some desc)

/-- Where a publication fails, if it does. -/
inductive PublishOutcome where
  | published
  | failsBeforeLink
  | failsAfterLink
  deriving DecidableEq

/-- What the environment decides in a publication: where it fails, the time, the size and the
file. -/
structure PublishOracle where
  outcome : Digest → PublishOutcome
  modified : Digest → Nat
  storedBytes : Digest → Nat
  inode : Digest → Nat

/-- `_publish_chunk`, `token_files.py:410–452`, with the checks of `commit_chunk` and
`commit_stream`. -/
def publishChunk (hooked : Bool) (oracle : PublishOracle) (s : RankState) (key : Digest)
    (header : TokenHeader) : RankState × Except PyError TokenFileDescriptor :=
  match headerPayload config key header >>= fun _ ↦ encodeHeader config header with
  | .error e => (s, .error e)
  | .ok () =>
    if key ∈ s.files.keys then
      (s, .error (.manifestError "capture requires an absent or quarantined key"))
    else
      let file : TokenFile :=
        ⟨some header, true, oracle.modified key, oracle.storedBytes key, oracle.inode key⟩
      match oracle.outcome key with
      | .failsBeforeLink => (s, .error (.osError "publication failed before its link"))
      | .failsAfterLink =>
        (recordWithdrawal hooked
          (markWithdrawn { s with files := s.files.set key file } key) key,
          .error (.osError "publication failed after its link"))
      | .published =>
        let s := clearWithdrawal { s with files := s.files.set key file } key
        (s, openChunk config s key false)

/-- `os.utime` on keys in order; a missing file raises. `times` are the readings of the clock in
the order of the calls: each file takes two, its access time and then its modification time. -/
def touchAll : (Nat → Nat) → RankState → List Digest → RankState × Except PyError Unit
  | _, s, [] => (s, .ok ())
  | times, s, key :: keys =>
    match s.files.get? key with
    | none => (s, .error .fileNotFound)
    | some file =>
      let file := { file with modified := times 1 }
      touchAll (fun i ↦ times (i + 2)) { s with files := s.files.set key file } keys

/-- Touching files that are there succeeds. -/
theorem touchAll_eq_ok (times : Nat → Nat) {s : RankState} {touched : List Digest}
    (h : ∀ key ∈ touched, key ∈ s.files.keys) : (touchAll times s touched).2 = .ok () := by
  induction touched generalizing s times with
  | nil => rfl
  | cons key touched ih =>
    obtain ⟨file, hf⟩ := (OrderedDict.mem_keys_iff _ _).mp (h key List.mem_cons_self)
    unfold touchAll
    rw [hf]
    exact ih _ fun a ha ↦ (OrderedDict.mem_keys_set _ _ _ _).mpr
      (.inr (h a (List.mem_cons_of_mem _ ha)))

/-- `touch`, `token_files.py:529–538`: last key first. -/
def touch (times : Nat → Nat) (s : RankState) (keys : List Digest) :
    RankState × Except PyError Unit := touchAll times s keys.reverse

/-- `evict`, `token_files.py:725–736`. -/
def evict (hooked : Bool) (s : RankState) (key : Digest) : RankState × Bool :=
  if busy s key then (s, false)
  else if key ∉ s.files.keys then (s, false)
  else
    let s := recordWithdrawal hooked (markWithdrawn s key) key
    ({ s with files := s.files.erase key }, true)

/-! ### Chains -/

/-- Opening one node of a chain, `token_files.py:458–470`: a bad one is quarantined. -/
def openNode (hooked : Bool) (s : RankState) (key : Digest) :
    RankState × Except PyError TokenFileDescriptor :=
  match openChunk config s key false with
  | .error .fileNotFound => (s, .error .fileNotFound)
  | .error e => (quarantineBad hooked s key, .error e)
  | .ok desc =>
    if desc.kind ≠ .data then (s, .error (.manifestError "state file is not a token-chain node"))
    else (s, .ok desc)

/-- The chain below a node, `token_files.py:457–476`, newest first; `n` counts the chunks of the
expected span. -/
def chainBelow (hooked : Bool) :
    Nat → RankState → Digest → RankState × Except PyError (List TokenFileDescriptor)
  | n, s, key =>
    match openNode config hooked s key with
    | (s, .error e) => (s, .error e)
    | (s, .ok desc) =>
      match n with
      | 0 => (quarantineBad hooked s key, .error (.manifestError "token chain is not consecutive"))
      | m + 1 =>
        if desc.spanTokens ≠ (m + 1) * config.layout.chunkTokens then
          (quarantineBad hooked s key, .error (.manifestError "token chain is not consecutive"))
        else
          match desc.parent with
          | none => (s, .ok [desc])
          | some parent =>
            match chainBelow hooked m s parent with
            | (s, .error e) => (s, .error e)
            | (s, .ok rest) => (s, .ok (desc :: rest))

/-- The whole data chain of an entry, newest first. -/
def dataChain (hooked : Bool) (s : RankState) (entryId : Digest) :
    RankState × Except PyError (List TokenFileDescriptor) :=
  match openNode config hooked s entryId with
  | (s, .error e) => (s, .error e)
  | (s, .ok desc) =>
    match desc.parent with
    | none => (s, .ok [desc])
    | some parent =>
      match chainBelow config hooked (desc.spanTokens / config.layout.chunkTokens - 1) s parent with
      | (s, .error e) => (s, .error e)
      | (s, .ok rest) => (s, .ok (desc :: rest))

/-- The state file of an entry, `token_files.py:481–496`. -/
def stateFile (hooked : Bool) (s : RankState) (entryId : Digest) (span : Nat) :
    RankState × Except PyError TokenFileDescriptor :=
  let key := boundaryStateKey entryId
  match openChunk config s key false with
  | .error .fileNotFound => (s, .error .fileNotFound)
  | .error e => (quarantineBad hooked s key, .error e)
  | .ok state =>
    if (state.kind, state.parent, state.spanTokens) ≠ (.state, some entryId, span) then
      (quarantineBad hooked s key,
        .error (.manifestError "boundary state differs from token chain"))
    else (s, .ok state)

/-- A snapshot after its coverage check, `token_files.py:497–505`. -/
def coveredSnapshot (entryId : Digest) (span : Nat) (objects : List TokenFileDescriptor) :
    Except PyError TokenSnapshot := do
  config.layout.validateManifestCoverage span (objects.flatMap TokenFileDescriptor.segments)
  pure ⟨entryId, span, objects⟩

/-- `_chain`, `token_files.py:454–505`. -/
def chain (hooked : Bool) (s : RankState) (entryId : Digest) :
    RankState × Except PyError TokenSnapshot :=
  match dataChain config hooked s entryId with
  | (s, .error e) => (s, .error e)
  | (s, .ok descending) =>
    match descending.getLast?, descending.head? with
    | some first, some last =>
      if first.spanTokens ≠ config.layout.chunkTokens then
        (s, .error (.manifestError "token chain has no beginning"))
      else if config.layout.hasBoundaryState then
        match stateFile config hooked s entryId last.spanTokens with
        | (s, .error e) => (s, .error e)
        | (s, .ok state) =>
          (s, coveredSnapshot config entryId last.spanTokens (descending.reverse ++ [state]))
      else (s, coveredSnapshot config entryId last.spanTokens descending.reverse)
    | _, _ => (s, .error (.manifestError "token chain has no beginning"))

/-- `lookup` without payloads, `token_files.py:507–527`: a missing or bad file is a miss. -/
def lookup (hooked : Bool) (s : RankState) (entryId : Digest) :
    RankState × Except PyError (Option TokenSnapshot) :=
  match chain config hooked s entryId with
  | (s, .ok snapshot) => (s, .ok (some snapshot))
  | (s, .error .fileNotFound) => (s, .ok none)
  | (s, .error (.osError _)) => (s, .ok none)
  | (s, .error (.manifestError _)) => (s, .ok none)
  | (s, .error e) => (s, .error e)

/-- Entry of `restore_view`, `token_files.py:541–556`: a hit pins the keys of its chain. -/
def restoreView (hooked : Bool) (s : RankState) (entryId : Digest) :
    RankState × Except PyError (Option TokenSnapshot) :=
  match lookup config hooked s entryId with
  | (s, .error e) => (s, .error e)
  | (s, .ok none) => ({ s with pins := s.pins ++ [[]] }, .ok none)
  | (s, .ok (some snapshot)) =>
    ({ s with pins := s.pins ++ [snapshot.objects.map TokenFileDescriptor.key] },
      .ok (some snapshot))

/-- Exit of a restore view, `token_files.py:557–566`. -/
def exitRestore (times : Nat → Nat) (s : RankState) (view : Nat) (touched : Bool) :
    RankState :=
  let s := if touched then (touch times s (s.pins.getD view [])).1 else s
  { s with pins := s.pins.eraseIdx view }

/-! ### Inventory and capacity -/

/-- Offers of the scan, `token_files.py:707–717`. -/
def offers (s : RankState) : List (Digest × Nat) :=
  s.files.keys.filterMap fun key ↦
    match openChunk config s key false with
    | .error _ => none
    | .ok desc => some (desc.key, desc.spanTokens)

/-- `scan_offers`, `token_files.py:702–723`: the smallest by span and key. -/
def scanOffers (s : RankState) (limit : Nat) : List (Digest × Nat) :=
  ((offers config s).insertionSort fun a b ↦ a.2 < b.2 ∨ a.2 = b.2 ∧ a.1 ≤ b.1).take limit

/-- `disk_usage_bytes`, `token_files.py:785–786`. -/
def diskUsageBytes (s : RankState) : Nat := s.files.total TokenFile.storedBytes

/-- Eviction candidates, oldest first, `token_files.py:754–765`. -/
def evictionCandidates (s : RankState) : List Digest :=
  (((s.files.items.filter fun p ↦ !busy s p.1).insertionSort fun a b ↦
    a.2.modified < b.2.modified ∨ a.2.modified = b.2.modified ∧ a.1 ≤ b.1).take 4).map Prod.fst

/-- `CapacityBatchReport`: what the worker reads of it. -/
structure CapacityBatchReport where
  objectsRemoved : Nat
  candidatesAttempted : Nat
  candidatesRemaining : Nat
  deriving DecidableEq

/-- Evicting the selected keys in order, `token_files.py:767–770`. -/
def evictAll (hooked : Bool) : RankState → List Digest → RankState × Nat
  | s, [] => (s, 0)
  | s, key :: keys =>
    let (s, removed) := evict hooked s key
    let (s, count) := evictAll hooked s keys
    (s, count + if removed then 1 else 0)

/-- `maintain_capacity_batch`, `token_files.py:738–783`, with the lock held. -/
def maintainCapacityBatch (hooked : Bool) (s : RankState) (triggerBytes remaining : Nat) :
    RankState × CapacityBatchReport :=
  if remaining = 0 ∧ diskUsageBytes s < triggerBytes then (s, ⟨0, 0, 0⟩)
  else
    let selected := evictionCandidates s
    let quota := if remaining = 0 then max 1 (s.files.size / 5) else remaining
    let chosen := selected.take quota
    let (s, removed) := evictAll hooked s chosen
    (s, ⟨removed, chosen.length,
      if min 4 quota ≤ selected.length then quota - chosen.length else 0⟩)

end

end SpoolCache.Store

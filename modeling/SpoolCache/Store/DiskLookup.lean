import SpoolCache.Base.Cleanup
import SpoolCache.Store.Disk
import SpoolCache.Store.ObjectStream

/-!
# Lookups on a rank root

`valid_chunk`, `_chain` and `lookup`, `token_files.py:323–344` and `token_files.py:454–527`, as
calls on a root. A bad file on the way is quarantined before the error goes on. Which keys are
pinned is given.
-/

namespace SpoolCache.Store

open SpoolCache.Base SpoolCache.Layout SpoolCache.Prefix
open TokenFileStore (FileDescriptor)

/-- `TokenSnapshot`, `manifest.py:110–115`, with the whole descriptors. -/
structure FileSnapshot where
  entryId : Digest
  spanTokens : Nat
  objects : List FileDescriptor
  deriving DecidableEq

/-- A snapshot as operations on whole files see it. -/
def FileSnapshot.toTokenSnapshot (s : FileSnapshot) : TokenSnapshot :=
  ⟨s.entryId, s.spanTokens, s.objects.map (·.toTokenFileDescriptor)⟩

section

variable (store : TokenFileStore) (hooked : Bool) (busy : Digest → Bool)

/-! ### One file -/

/-- Quarantine of a key whose file was found bad; the error goes on. -/
def rejectPath {α : Type} (key : Digest) (e : PyError) : DiskProgram α := do
  quarantineBadPath hooked (busy key) key
  .raise e

/-- `except (OSError, ManifestError)` after `except FileNotFoundError: raise`,
`token_files.py:461–465`. -/
def rejectUnlessMissing {α : Type} (key : Digest) (e : PyError) : DiskProgram α :=
  if e = .fileNotFound then .raise e
  else if isStorageError e then rejectPath hooked busy key e
  else .raise e

/-- Opening a file and closing it again. -/
def openAndClose (key : Digest) : DiskProgram FileDescriptor := do
  let (desc, _) ← openPath store key false
  closeFile
  pure desc

/-- The body of `valid_chunk`, `token_files.py:326–339`. -/
def authenticateKey (key : Digest) (header : TokenHeader) :
    DiskProgram (Option FileDescriptor) := do
  let (desc, payload) ← openPath store key false
  .always (
      if (desc.parent, desc.spanTokens, desc.kind) ≠
          (header.parent, header.spanTokens, header.kind) then
        .raise (.manifestError "token chain differs")
      else authenticatePath store key desc payload) closeFile
  pure (some desc)

/-- `valid_chunk`, `token_files.py:323–344`. -/
def validPath (key : Digest) (header : TokenHeader) : DiskProgram (Option FileDescriptor) :=
  .handle (authenticateKey store key header) fun e ↦
    if e = .fileNotFound then pure none
    else if isStorageError e then do
      quarantineBadPath hooked (busy key) key
      pure none
    else .raise e

/-! ### Chains -/

/-- Opening one node of a chain, `token_files.py:458–470`. -/
def openNodePath (key : Digest) : DiskProgram FileDescriptor := do
  let desc ← .handle (openAndClose store key) (rejectUnlessMissing hooked busy key)
  if desc.kind ≠ .data then .raise (.manifestError "state file is not a token-chain node")
  else pure desc

/-- A node, and what is below it if it has a parent. -/
def linkParent (desc : FileDescriptor) (below : Digest → DiskProgram (List FileDescriptor)) :
    DiskProgram (List FileDescriptor) :=
  match desc.parent with
  | none => pure [desc]
  | some parent => do
    let rest ← below parent
    pure (desc :: rest)

/-- The chain below a node, `token_files.py:457–476`, newest first; `n` counts the chunks of the
expected span. -/
def chainBelowPath : Nat → Digest → DiskProgram (List FileDescriptor)
  | n, key => do
    let desc ← openNodePath store hooked busy key
    match n with
    | 0 => rejectPath hooked busy key (.manifestError "token chain is not consecutive")
    | m + 1 =>
      if desc.spanTokens ≠ (m + 1) * store.layout.chunkTokens then
        rejectPath hooked busy key (.manifestError "token chain is not consecutive")
      else linkParent desc fun parent ↦ chainBelowPath m parent

/-- The whole data chain of an entry, newest first, `token_files.py:455–476`. -/
def dataChainPath (entryId : Digest) : DiskProgram (List FileDescriptor) := do
  let desc ← openNodePath store hooked busy entryId
  linkParent desc
    (chainBelowPath store hooked busy (desc.spanTokens / store.layout.chunkTokens - 1))

/-- The state file of an entry, `token_files.py:481–496`. -/
def statePath (entryId : Digest) (span : Nat) : DiskProgram FileDescriptor :=
  let key := boundaryStateKey entryId
  .handle (do
      let state ← openAndClose store key
      if (state.kind, state.parent, state.spanTokens) ≠ (.state, some entryId, span) then
        .raise (.manifestError "boundary state differs from token chain")
      else pure state) (rejectUnlessMissing hooked busy key)

/-- The snapshot and its coverage check, `token_files.py:497–505`. -/
def snapshotPath (entryId : Digest) (span : Nat) (objects : List FileDescriptor) :
    DiskProgram FileSnapshot := do
  .ofExcept (store.layout.validateManifestCoverage span (objects.flatMap (·.segments)))
  pure ⟨entryId, span, objects⟩

/-- The end of `_chain` on its data chain, `token_files.py:477–505`. -/
def assemblePath (entryId : Digest) (descending : List FileDescriptor) :
    DiskProgram FileSnapshot :=
  match descending.getLast?, descending.head? with
  | some first, some last =>
    if first.spanTokens ≠ store.layout.chunkTokens then
      .raise (.manifestError "token chain has no beginning")
    else if store.layout.hasBoundaryState then do
      let state ← statePath store hooked busy entryId last.spanTokens
      snapshotPath store entryId last.spanTokens (descending.reverse ++ [state])
    else snapshotPath store entryId last.spanTokens descending.reverse
  | _, _ => .raise (.manifestError "token chain has no beginning")

/-- `_chain`, `token_files.py:454–505`. -/
def chainPath (entryId : Digest) : DiskProgram FileSnapshot := do
  let descending ← dataChainPath store hooked busy entryId
  assemblePath store hooked busy entryId descending

/-- `lookup` without payloads, `token_files.py:507–527`: a missing or bad file is a miss. -/
def lookupPath (entryId : Digest) : DiskProgram (Option FileSnapshot) :=
  .handle (do
      let snapshot ← chainPath store hooked busy entryId
      pure (some snapshot)) fun e ↦
    if isStorageError e then pure none else .raise e

end

end SpoolCache.Store

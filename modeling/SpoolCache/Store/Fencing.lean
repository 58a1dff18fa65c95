import SpoolCache.Store.Chains
import SpoolCache.Store.Disk

/-!
# Withdrawn keys stay hidden

A key whose marker was made durable is hidden from then on: after any crash its marker is there or
its file is not, until a publication links a new file for it or a scrub authenticates the one that
is there. Marker, file and quarantine lie in different directories with their own durability, so
the invariant speaks about every value that a name may have after a crash.
-/

namespace SpoolCache.Store

open SpoolCache.Base SpoolCache.Layout SpoolCache.Base.Program

/-! ### Fences -/

/-- The key of an event. -/
def KeyEvent.key : KeyEvent → Digest
  | .marked key => key
  | .linked key => key
  | .authenticated key => key

/-- The last thing that happened to the key is that it was marked. -/
def Fenced (journal : List KeyEvent) (key : Digest) : Prop :=
  (journal.filter fun e ↦ e.key = key).getLast? = some (.marked key)

private theorem fenced_append {journal : List KeyEvent} {e : KeyEvent} {key : Digest}
    (h : Fenced (journal ++ [e]) key) : e = .marked key ∨ e.key ≠ key ∧ Fenced journal key := by
  unfold Fenced at *
  rw [List.filter_append, List.filter_singleton] at h
  by_cases he : e.key = key
  · rw [decide_eq_true he, cond_true, List.getLast?_concat] at h
    exact .inl (Option.some.inj h)
  · rw [decide_eq_false he, cond_false, List.append_nil] at h
    exact .inr ⟨he, h⟩

private theorem not_fenced_linked (journal : List KeyEvent) (key : Digest) :
    ¬ Fenced (journal ++ [.linked key]) key := by
  intro h
  rcases fenced_append h with he | ⟨hne, -⟩
  · cases he
  · exact hne rfl

private theorem not_fenced_authenticated (journal : List KeyEvent) (key : Digest) :
    ¬ Fenced (journal ++ [.authenticated key]) key := by
  intro h
  rcases fenced_append h with he | ⟨hne, -⟩
  · cases he
  · exact hne rfl

/-- Whatever a crash leaves, the marker is there, or the file is not. -/
def Disk.Hidden (d : Disk) (key : Digest) : Prop :=
  (∀ v, d.markers.Possible key v → v ≠ none) ∨ ∀ v, d.files.Possible key v → v = none

/-- Fenced keys are hidden, and a shard that is missing has no files. -/
structure Disk.Sound (d : Disk) : Prop where
  hidden : ∀ key, Fenced d.journal key → d.Hidden key
  shards : ∀ key, d.manifests.get? (shard key) = none → ∀ v, d.files.Possible key v → v = none

namespace Disk.Sound

variable {d : Disk}

private theorem tmp (h : d.Sound) (t : Directory Nat DiskFile) : Sound { d with tmp := t } :=
  ⟨h.hidden, h.shards⟩

/-- A name that is taken away hides the key at most more. -/
theorem remove (h : d.Sound) (key : Digest) : Sound { d with files := d.files.remove key } := by
  constructor
  case hidden =>
    intro k hk
    refine (h.hidden k hk).imp id fun hfiles v hv ↦ ?_
    rcases Directory.Possible.of_remove hv with ⟨-, hnone⟩ | hv
    · exact hnone
    · exact hfiles v hv
  case shards =>
    intro k hk v hv
    rcases Directory.Possible.of_remove hv with ⟨-, hnone⟩ | hv
    · exact hnone
    · exact h.shards k hk v hv

private theorem syncShard (h : d.Sound) (part : Digest → Bool) :
    Sound { d with files := d.files.syncWhere part } := by
  have hback : ∀ k v, (d.files.syncWhere part).Possible k v → d.files.Possible k v := by
    intro k v hv
    rcases hv.of_syncWhere with hv | ⟨-, hv⟩
    · exact .inl hv
    · exact hv
  constructor
  case hidden =>
    intro k hk
    exact (h.hidden k hk).imp id fun hfiles v hv ↦ hfiles v (hback k v hv)
  case shards => exact fun k hk v hv ↦ h.shards k hk v (hback k v hv)

private theorem putShard (h : d.Sound) (x : Nat) : Sound
    { d with manifests := d.manifests.put x () } := by
  constructor
  case hidden => exact h.hidden
  case shards =>
    intro k hk
    apply h.shards k
    change (d.manifests.put x ()).get? (shard k) = none at hk
    rw [Directory.get?_put] at hk
    split at hk
    · cases hk
    · exact hk

private theorem syncManifests (h : d.Sound) : Sound { d with manifests := d.manifests.sync } :=
  ⟨h.hidden, h.shards⟩

private theorem putMarker (h : d.Sound) (key : Digest) :
    Sound { d with markers := d.markers.put key () } := by
  constructor
  case hidden =>
    intro k hk
    refine (h.hidden k hk).imp (fun hmarkers v hv ↦ ?_) id
    rcases Directory.Possible.of_put hv with ⟨-, rfl⟩ | hv
    · exact Option.some_ne_none ()
    · exact hmarkers v hv
  case shards => exact h.shards

private theorem syncMarkers (h : d.Sound) : Sound { d with markers := d.markers.sync } := by
  constructor
  case hidden =>
    intro k hk
    exact (h.hidden k hk).imp (fun hmarkers v hv ↦ hmarkers v hv.of_sync) id
  case shards => exact h.shards

/-- A marker that is there and synced fences its key. -/
theorem marked (h : d.Sound) {key : Digest} (hm : d.markers.get? key ≠ none) :
    Sound { d with markers := d.markers.sync, journal := d.journal ++ [.marked key] } := by
  constructor
  case hidden =>
    intro k hk
    rcases fenced_append hk with he | ⟨-, hk⟩
    · cases he
      refine .inl fun v hv ↦ ?_
      rw [Directory.possible_sync.mp hv]
      exact hm
    · exact h.syncMarkers.hidden k hk
  case shards => exact h.shards

/-- A marker may be removed when the key is not fenced or its file is gone for good. -/
theorem removeMarker (h : d.Sound) {key : Digest}
    (hkey : ¬ Fenced d.journal key ∨ ∀ v, d.files.Possible key v → v = none) :
    Sound { d with markers := d.markers.remove key } := by
  constructor
  case hidden =>
    intro k hk
    rcases h.hidden k hk with hmarkers | hfiles
    · by_cases he : k = key
      · subst he
        rcases hkey with hfence | hfiles
        · exact absurd hk hfence
        · exact .inr hfiles
      · refine .inl fun v hv ↦ ?_
        rcases Directory.Possible.of_remove hv with ⟨hkk, -⟩ | hv
        · exact absurd hkk he
        · exact hmarkers v hv
    · exact .inr hfiles
  case shards => exact h.shards

private theorem linked (h : d.Sound) (key : Digest) (f : DiskFile)
    (hshard : d.manifests.get? (shard key) ≠ none) :
    Sound { d with files := d.files.put key f, journal := d.journal ++ [.linked key] } := by
  constructor
  case hidden =>
    intro k hk
    rcases fenced_append hk with he | ⟨hne, hk⟩
    · cases he
    · refine (h.hidden k hk).imp id fun hfiles v hv ↦ ?_
      rcases Directory.Possible.of_put hv with ⟨hkk, -⟩ | hv
      · exact absurd hkk.symm hne
      · exact hfiles v hv
  case shards =>
    intro k hk v hv
    rcases Directory.Possible.of_put hv with ⟨rfl, -⟩ | hv
    · exact absurd hk hshard
    · exact h.shards k hk v hv

private theorem authenticated (h : d.Sound) (key : Digest) :
    Sound { d with journal := d.journal ++ [.authenticated key] } := by
  constructor
  case hidden =>
    intro k hk
    rcases fenced_append hk with he | ⟨-, hk⟩
    · cases he
    · exact h.hidden k hk
  case shards => exact h.shards

/-- Fences survive a crash. -/
theorem crash (h : d.Sound) {d' : Disk} (hc : d.Crash d') : d'.Sound := by
  constructor
  case hidden =>
    intro k hk
    rw [hc.journal] at hk
    rcases h.hidden k hk with hmarkers | hfiles
    · refine .inl fun v hv ↦ ?_
      obtain ⟨w, hw, hr⟩ := hc.markers.possible hv
      have hne := hmarkers w hw
      cases hr with
      | some _ => exact Option.some_ne_none _
      | none => exact absurd rfl hne
    · refine .inr fun v hv ↦ ?_
      rcases hv with rfl | hv
      · rcases hc.files k with ⟨hnone, -⟩ | ⟨w, hw, hr⟩
        · exact hnone
        · rw [hfiles w hw] at hr
          generalize d'.files.get? k = v at hr
          cases hr
          rfl
      · rw [hc.stale k] at hv
        cases hv
  case shards =>
    intro k hk v hv
    rcases hv with rfl | hv
    · exact hc.gone k hk
    · rw [hc.stale k] at hv
      cases hv

end Disk.Sound

/-! ### Calls -/

/-- A program keeps soundness, whatever happens. -/
def Keeps {α : Type} (x : DiskProgram α) : Prop :=
  Runs Disk.Sound (fun _ ↦ True) x fun _ _ ↦ True

private theorem Keeps.pre {α : Type} {x : DiskProgram α} (h : Keeps x) (P : Disk → Prop) :
    Runs Disk.Sound P x fun _ _ ↦ True := Runs.pre h fun _ _ _ ↦ trivial

private theorem keeps_pure {α : Type} (a : α) : Keeps (pure a) := runs_pure fun _ _ _ ↦ trivial

private theorem keeps_raise {α : Type} (e : PyError) : Keeps (raise e : DiskProgram α) :=
  runs_raise e

private theorem keeps_ofExcept {α : Type} (x : Except PyError α) : Keeps (ofExcept x) :=
  runs_ofExcept fun _ _ _ _ _ ↦ trivial

private theorem Keeps.bind {α β : Type} {x : DiskProgram α} {f : α → DiskProgram β} (hx : Keeps x)
    (hf : ∀ a, Keeps (f a)) : Keeps (x >>= f) := Runs.bind hx hf

private theorem Keeps.attempt {x : DiskProgram Unit} (hx : Keeps x) : Keeps (Program.attempt x) :=
  Runs.attempt hx (fun _ _ _ ↦ trivial) fun _ _ _ ↦ trivial

private theorem keeps_look {α : Type} (onFail : PyError) (f : Disk → Except PyError α) :
    Keeps (look onFail f) := runs_look fun _ _ _ _ _ ↦ trivial

private theorem keeps_checkpoint (point : String) : Keeps (checkpoint point) :=
  runs_checkpoint point

private theorem keeps_closeFile : Keeps closeFile := runs_closeFile

private theorem keeps_createTemporary (nonce : Nat) : Keeps (createTemporary nonce) := by
  refine runs_call fun d hd _ ↦ ⟨?_, fun _ _ ↦ trivial⟩
  split
  · exact hd
  · exact hd.tmp _

private theorem keeps_writev (nonce offset : Nat) (data : Bytes) : Keeps
    (writev nonce offset data) :=
  runs_update fun _ hd _ ↦ ⟨hd.tmp _, trivial⟩

private theorem keeps_fsyncTemporary (nonce : Nat) : Keeps (fsyncTemporary nonce) :=
  runs_update fun _ hd _ ↦ ⟨hd.tmp _, trivial⟩

private theorem runs_unlinkTemporary {Q : List KeyEvent → Prop} (nonce : Nat) :
    Runs Disk.Sound (fun d ↦ Q d.journal) (unlinkTemporary nonce) fun _ d ↦ Q d.journal := by
  refine runs_call fun d hd hq ↦ ?_
  split
  · exact ⟨hd, fun _ _ ↦ hq⟩
  · exact ⟨hd.tmp _, fun _ _ ↦ hq⟩

private theorem runs_fsyncTmp {Q : List KeyEvent → Prop} :
    Runs Disk.Sound (fun d ↦ Q d.journal) fsyncTmp fun _ d ↦ Q d.journal :=
  runs_update fun _ hd hq ↦ ⟨hd.tmp _, hq⟩

private theorem runs_linkTemporary (nonce : Nat) (key : Digest) :
    Runs Disk.Sound (fun _ ↦ True) (linkTemporary nonce key) fun _ d ↦ ¬ Fenced d.journal key := by
  refine runs_call fun d hd _ ↦ ?_
  split
  · next hshard _ =>
    exact ⟨hd.linked key _ (by rw [hshard]; simp), fun _ _ ↦ not_fenced_linked _ _⟩
  · exact ⟨hd, fun _ h ↦ (by cases h)⟩
  · exact ⟨hd, fun _ h ↦ (by cases h)⟩

private theorem runs_removePath (key : Digest) :
    Runs Disk.Sound (fun _ ↦ True) (removePath key) fun _ d ↦ d.files.get? key = none := by
  refine runs_call fun d hd _ ↦ ?_
  split
  · exact ⟨hd, fun _ h ↦ (by cases h)⟩
  · refine ⟨hd.remove key, fun _ _ ↦ ?_⟩
    exact (Directory.get?_remove _ _ _).trans (if_pos rfl)

private theorem runs_fsyncShard {Q : List KeyEvent → Prop} (key : Digest) :
    Runs Disk.Sound (fun d ↦ Q d.journal) (fsyncShard key) fun _ d ↦ Q d.journal :=
  runs_update fun _ hd hq ↦ ⟨hd.syncShard _, hq⟩

/-- A name that is gone is gone for good once its shard is synced. -/
theorem runs_fsyncShard_absent (key : Digest) :
    Runs Disk.Sound (fun d ↦ d.files.get? key = none) (fsyncShard key)
      fun _ d ↦ ∀ v, d.files.Possible key v → v = none := by
  refine runs_update fun d hd hnone ↦ ⟨hd.syncShard _, fun v hv ↦ ?_⟩
  rcases Directory.Possible.of_syncWhere hv with hv | ⟨hpart, -⟩
  · exact hv.trans hnone
  · simp at hpart

private theorem keeps_fsyncManifests : Keeps fsyncManifests :=
  runs_update fun _ hd _ ↦ ⟨hd.syncManifests, trivial⟩

/-! ### Markers -/

private theorem keeps_markInventoryWithdrawn (key : Digest) :
    Keeps (markInventoryWithdrawn key) := by
  unfold markInventoryWithdrawn
  refine Runs.bind (X := fun _ d ↦ d.markers.get? key ≠ none) (runs_update fun d hd _ ↦ ?_) ?_
  · split
    · next hm => exact ⟨hd, Option.isSome_iff_ne_none.mp hm⟩
    · refine ⟨hd.putMarker key, ?_⟩
      change (d.markers.put key ()).get? key ≠ none
      rw [Directory.get?_put, if_pos rfl]
      simp
  · intro _
    refine Runs.bind (X := fun _ d ↦ d.markers.get? key ≠ none) (runs_look fun d _ _ hm _ ↦ hm) ?_
    intro present
    split
    · exact runs_update fun d hd hm ↦ ⟨hd.marked hm, trivial⟩
    · exact runs_raise _

/-- A marker is cleared when its key is not fenced, or its file is gone for good. -/
theorem runs_clearInventoryWithdrawal (key : Digest) :
    Runs Disk.Sound
      (fun d ↦ ¬ Fenced d.journal key ∨ ∀ v, d.files.Possible key v → v = none)
      (clearInventoryWithdrawal key) fun _ _ ↦ True := by
  unfold clearInventoryWithdrawal
  refine Runs.bind (runs_look fun d _ _ hp _ ↦ hp) fun present ↦ ?_
  split
  · refine Runs.bind (X := fun _ _ ↦ True) (runs_update fun d hd hp ↦ ⟨hd.removeMarker hp, trivial⟩) ?_
    intro _
    exact runs_update fun d hd _ ↦ ⟨hd.syncMarkers, trivial⟩
  · exact runs_pure fun _ _ _ ↦ trivial

/-! ### Operations -/

section

variable (store : TokenFileStore)

private theorem keeps_openPath (key : Digest) (allowWithdrawn : Bool) :
    Keeps (openPath store key allowWithdrawn) := by
  unfold openPath
  have hmarker : Keeps (withdrawalGate key allowWithdrawn) := by
    unfold withdrawalGate
    split
    · exact keeps_pure _
    · exact keeps_look _ _
  refine hmarker.bind fun withdrawn ↦ ?_
  split
  · exact keeps_raise _
  · exact keeps_look _ _

private theorem keeps_writeVector (nonce : Nat) (counts : List Nat) (offset : Nat) (data : Bytes) :
    Keeps (writeVector nonce counts offset data) := by
  induction counts generalizing offset data with
  | nil =>
    unfold writeVector
    split
    · exact keeps_pure _
    · exact keeps_writev _ _ _
  | cons count counts ih =>
    unfold writeVector
    split
    · exact keeps_pure _
    · split
      · exact keeps_raise _
      · exact (keeps_writev _ _ _).bind fun _ ↦ ih _ _

private theorem keeps_ensureShardDirectory (key : Digest) : Keeps (ensureShardDirectory key) := by
  unfold ensureShardDirectory
  refine Keeps.bind (runs_update fun d hd _ ↦ ?_) fun _ ↦ keeps_fsyncManifests
  split
  · exact ⟨hd, trivial⟩
  · exact ⟨hd.putShard _, trivial⟩

private theorem keeps_cleanupTemporaryFile (nonce : Nat) : Keeps (cleanupTemporaryFile nonce) := by
  unfold cleanupTemporaryFile
  have hunlink : Keeps (unlinkTemporary nonce) := runs_unlinkTemporary (Q := fun _ ↦ True) nonce
  have hsync : Keeps fsyncTmp := runs_fsyncTmp (Q := fun _ ↦ True)
  exact hunlink.attempt.bind fun _ ↦ hsync.attempt.bind fun _ ↦ keeps_pure _

private theorem keeps_withdrawPublished (key : Digest) : Keeps (withdrawPublished key) := by
  unfold withdrawPublished
  have hmark : Keeps (do markInventoryWithdrawn key; checkpoint "withdraw hook") :=
    (keeps_markInventoryWithdrawn key).bind fun _ ↦ keeps_checkpoint _
  exact hmark.attempt.bind fun _ ↦ keeps_pure _

/-- The link ends the fence, and the marker is cleared after it. -/
theorem keeps_publishTemporary (env : PublishEnv) (key : Digest) {write : DiskProgram Unit}
    (hwrite : Keeps write) : Keeps (publishTemporary env key write) := by
  have hlink : Runs Disk.Sound (fun _ ↦ True) (writeAndLink env key write)
      fun _ d ↦ ¬ Fenced d.journal key := by
    have hprepare : Keeps (prepareTemporary env key write) :=
      hwrite.bind fun _ ↦ (keeps_fsyncTemporary _).bind fun _ ↦ (keeps_checkpoint _).bind fun _ ↦
        keeps_ensureShardDirectory key
    exact Runs.bind hprepare fun _ ↦ runs_linkTemporary _ _
  have hretire : Runs Disk.Sound (fun d ↦ ¬ Fenced d.journal key) (retireTemporary env key)
      fun _ d ↦ ¬ Fenced d.journal key := by
    unfold retireTemporary
    exact Runs.bind (runs_checkpoint _) fun _ ↦
      Runs.bind (runs_fsyncShard (Q := fun j ↦ ¬ Fenced j key) key) fun _ ↦
      Runs.bind (runs_unlinkTemporary (Q := fun j ↦ ¬ Fenced j key) _) fun _ ↦
      runs_fsyncTmp (Q := fun j ↦ ¬ Fenced j key)
  have hclose : Keeps (do closeFile; cleanupTemporaryFile env.nonce) :=
    keeps_closeFile.bind fun _ ↦ keeps_cleanupTemporaryFile _
  have hwithdraw : Keeps (do withdrawPublished key; closeFile; cleanupTemporaryFile env.nonce) :=
    (keeps_withdrawPublished key).bind fun _ ↦ hclose
  have hfence : Keeps (do withdrawPublished key; closeFile) :=
    (keeps_withdrawPublished key).bind fun _ ↦ keeps_closeFile
  have hclear : Runs Disk.Sound (fun d ↦ ¬ Fenced d.journal key) (clearInventoryWithdrawal key)
      fun _ _ ↦ True := (runs_clearInventoryWithdrawal key).pre fun _ _ h ↦ .inl h
  unfold publishTemporary
  exact Runs.bind (Runs.onError hlink hclose) fun _ ↦
    Runs.bind (Runs.onError hretire hwithdraw) fun _ ↦ Runs.onError hclear hfence

private theorem keeps_publishUnfenced (env : PublishEnv) (key : Digest) (p : HeaderPayload)
    {write : Bytes → DiskProgram Unit} (hwrite : ∀ encoded, Keeps (write encoded)) :
    Keeps (publishUnfenced store env key p write) := by
  unfold publishUnfenced
  refine (keeps_ofExcept _).bind fun header ↦ ?_
  have hexists : Keeps (pathExists key) := keeps_look _ _
  refine hexists.bind fun there ↦ ?_
  split
  · exact keeps_raise _
  · exact (keeps_createTemporary _).bind fun _ ↦ keeps_publishTemporary env key (hwrite header)

private theorem keeps_reopenPublished (key : Digest) : Keeps (reopenPublished store key) := by
  unfold reopenPublished
  exact keeps_closeFile.bind fun _ ↦ (keeps_openPath store key false).bind fun _ ↦
    keeps_closeFile.bind fun _ ↦ keeps_pure _

private theorem keeps_commitChunk (env : PublishEnv) (key : Digest) (header : TokenHeader)
    (payload : Bytes) : Keeps (commitChunk store env key header payload) := by
  unfold commitChunk commitChunkUnfenced
  refine Keeps.bind ((keeps_ofExcept _).bind fun p ↦ ?_) fun _ ↦ keeps_reopenPublished store key
  exact keeps_publishUnfenced store env key p fun _ ↦ keeps_writeVector _ _ _ _

private theorem keeps_writePieces (env : PublishEnv) (pieces : List (Except PyError Bytes))
    (index offset remaining : Nat) (written : List Bytes) :
    Keeps (writePieces store env pieces index offset remaining written) := by
  induction pieces generalizing index offset remaining written with
  | nil => exact keeps_pure _
  | cons piece pieces ih =>
    cases piece with
    | error e => exact keeps_raise _
    | ok piece =>
      unfold writePieces
      dsimp only
      split
      · exact keeps_raise _
      · exact (keeps_writeVector _ _ _ _).bind fun _ ↦ (keeps_checkpoint _).bind fun _ ↦
          ih _ _ _ _

private theorem keeps_writeStream (env : PublishEnv) (p : HeaderPayload)
    (pieces : List (Except PyError Bytes)) (encoded : Bytes) :
    Keeps (writeStream store env p pieces encoded) := by
  unfold writeStream
  refine (keeps_writeVector _ _ _ _).bind fun _ ↦ (keeps_writePieces store env _ _ _ _ _).bind ?_
  rintro ⟨written, remaining⟩
  dsimp only
  split
  · exact keeps_raise _
  · refine (keeps_ofExcept _).bind fun final ↦ ?_
    split
    · exact keeps_raise _
    · exact keeps_writeVector _ _ _ _

private theorem keeps_commitStream (env : PublishEnv) (key : Digest) (header : TokenHeader)
    (pieces : List (Except PyError Bytes)) : Keeps (commitStream store env key header pieces) := by
  unfold commitStream commitStreamUnfenced
  refine Keeps.bind ((keeps_ofExcept _).bind fun p ↦ ?_) fun _ ↦ keeps_reopenPublished store key
  exact keeps_publishUnfenced store env key p fun _ ↦ keeps_writeStream store env p pieces _

private theorem keeps_removeParts (nonces : List Nat) : Keeps (removeParts nonces) := by
  induction nonces with
  | nil => exact keeps_pure _
  | cons nonce rest ih =>
    refine Keeps.bind (runs_update fun d hd _ ↦ ?_) fun _ ↦ ih
    split
    · exact ⟨hd.tmp _, trivial⟩
    · exact ⟨hd, trivial⟩

private theorem keeps_recoverRounds (rounds : Nat) : Keeps (recoverRounds rounds) := by
  induction rounds with
  | zero => exact keeps_pure _
  | succ rounds ih =>
    unfold recoverRounds
    refine (keeps_look _ _).bind fun batch ↦ ?_
    split
    · exact keeps_pure _
    · exact (keeps_removeParts _).bind fun _ ↦ ih.bind fun _ ↦ keeps_pure _

private theorem keeps_recover : Keeps recover := by
  intro m hm
  unfold recover
  refine Keeps.bind (keeps_recoverRounds _) (fun removed ↦ ?_) m hm
  have hsync : Keeps fsyncTmp := runs_fsyncTmp (Q := fun _ ↦ True)
  split
  · exact keeps_pure _
  · exact hsync.bind fun _ ↦ keeps_pure _

private theorem keeps_evictPath (busy : Bool) (key : Digest) : Keeps (evictPath busy key) := by
  unfold evictPath
  split
  · exact keeps_pure _
  · have hexists : Keeps (pathExists key) := keeps_look _ _
    refine hexists.bind fun there ↦ ?_
    split
    · refine (keeps_markInventoryWithdrawn key).bind fun _ ↦ (keeps_checkpoint _).bind fun _ ↦ ?_
      refine Runs.bind (runs_removePath key) fun _ ↦ Runs.bind (runs_fsyncShard_absent key) ?_
      exact fun _ ↦ runs_pure fun _ _ _ ↦ trivial
    · exact keeps_pure _

/-- The marker of a quarantined key is cleared when its absence is durable. -/
theorem keeps_quarantinePath (hooked : Bool) (key : Digest) :
    Keeps (quarantinePath hooked key) := by
  unfold quarantinePath
  refine (keeps_markInventoryWithdrawn key).attempt.bind fun marking ↦
    (keeps_checkpoint _).attempt.bind fun hook ↦ ?_
  refine Runs.bind (X := fun r d ↦ r = none → d.files.get? key = none)
    (Runs.attempt (runs_removePath key) (fun _ _ h _ ↦ h) fun _ _ _ h ↦ (by cases h)) ?_
  intro removing
  split
  · exact runs_pure fun _ _ _ ↦ trivial
  · exact runs_raise _
  · refine Runs.bind (X := fun r d ↦ r = none → ∀ v, d.files.Possible key v → v = none)
      (Runs.attempt ((runs_fsyncShard_absent key).pre fun _ _ h ↦ h rfl) (fun _ _ h _ ↦ h)
        fun _ _ _ h ↦ (by cases h)) ?_
    intro first
    refine Runs.bind
      (X := fun r d ↦ r = none → first = none → ∀ v, d.files.Possible key v → v = none)
      (Runs.attempt runs_fsyncQuarantine (fun _ _ h _ ↦ h) fun _ _ _ h ↦ (by cases h)) ?_
    intro second
    split
    · exact runs_raise _
    · next hall =>
      have hnone : first = none ∧ second = none := by
        cases marking <;> cases hook <;> cases first <;> cases second <;> simp at hall ⊢
      have hclear : Runs Disk.Sound
          (fun d ↦ second = none → first = none → ∀ v, d.files.Possible key v → v = none)
          (retireMarker hooked key) fun _ _ ↦ True := by
        unfold retireMarker
        split
        · exact (runs_clearInventoryWithdrawal key).pre fun _ _ h ↦ .inr (h hnone.2 hnone.1)
        · exact runs_pure fun _ _ _ ↦ trivial
      exact Runs.bind hclear fun _ ↦ runs_pure fun _ _ _ ↦ trivial

private theorem keeps_quarantineBadPath (hooked busy : Bool) (key : Digest) :
    Keeps (quarantineBadPath hooked busy key) := by
  unfold quarantineBadPath
  split
  · exact (keeps_markInventoryWithdrawn key).bind fun _ ↦ keeps_checkpoint _
  · exact (keeps_quarantinePath hooked key).bind fun _ ↦ keeps_pure _

/-- Absence is durable before a marker is cleared for it. -/
theorem runs_fsyncManifestAbsence (key : Digest) :
    Runs Disk.Sound (fun d ↦ d.files.get? key = none) (fsyncManifestAbsence key)
      fun _ d ↦ ∀ v, d.files.Possible key v → v = none := by
  unfold fsyncManifestAbsence
  refine Runs.bind (X := fun there d ↦ d.files.get? key = none ∧
    there = (d.manifests.get? (shard key)).isSome) (runs_look fun d there _ h he ↦ ?_) ?_
  · exact ⟨h, (Except.ok.inj he).symm⟩
  · intro there
    split
    · exact (runs_fsyncShard_absent key).pre fun _ _ h ↦ h.1
    · next hthere =>
      refine runs_update fun d hd h ↦ ⟨hd.syncManifests, ?_⟩
      apply hd.shards key
      rw [← Option.not_isSome_iff_eq_none, ← h.2]
      exact hthere

private theorem keeps_acknowledgeAbsent (keys : List Digest) : Keeps (acknowledgeAbsent keys) := by
  induction keys with
  | nil => exact keeps_pure _
  | cons key keys ih =>
    unfold acknowledgeAbsent
    refine Runs.bind (X := fun there d ↦ there = (d.files.get? key).isSome)
      (runs_look fun d there _ _ he ↦ (Except.ok.inj he).symm) ?_
    intro there
    split
    · exact ih.pre _
    · next hthere =>
      refine Runs.bind ((runs_fsyncManifestAbsence key).pre fun d _ h ↦ ?_) fun _ ↦ ?_
      · rw [← Option.not_isSome_iff_eq_none, ← h]
        exact hthere
      · refine Runs.bind (X := fun _ d ↦ ∀ v, d.files.Possible key v → v = none)
          (runs_look fun d _ _ h _ ↦ h) fun still ↦ ?_
        split
        · exact ih.pre _
        · refine Runs.bind ((runs_clearInventoryWithdrawal key).pre fun _ _ h ↦ .inr h) ?_
          exact fun _ ↦ ih

/-- A file that authenticates in full ends the fence, and its marker is cleared after that. -/
theorem keeps_scrubPath (hooked busy : Bool) (key : Digest) :
    Keeps (scrubPath store hooked busy key) := by
  unfold scrubPath
  split
  · exact keeps_pure _
  · refine Runs.handle ?_ fun e ↦ ?_
    · refine Runs.bind (keeps_openPath store key true) ?_
      rintro ⟨desc, payload⟩
      refine Runs.bind (X := fun _ d ↦ ¬ Fenced d.journal key) (runs_call fun d hd _ ↦ ?_) ?_
      · split
        · exact ⟨hd, fun _ h ↦ (by cases h)⟩
        · exact ⟨hd.authenticated key, fun _ _ ↦ not_fenced_authenticated _ _⟩
      · intro _
        refine Runs.bind (X := fun _ d ↦ ¬ Fenced d.journal key) (runs_look fun d _ _ h _ ↦ h) ?_
        intro withdrawn
        split
        · exact (runs_clearInventoryWithdrawal key).pre fun _ _ h ↦ .inl h
        · exact runs_pure fun _ _ _ ↦ trivial
    · split
      · exact keeps_pure _
      · exact keeps_quarantineBadPath hooked busy key
      · exact keeps_quarantineBadPath hooked busy key
      · exact keeps_raise _

/-! ### Runs -/

/-- What may be done to a root under the namespace lock. -/
inductive DiskOp where
  | commitChunk (env : PublishEnv) (key : Digest) (header : TokenHeader) (payload : Bytes)
  | commitStream (env : PublishEnv) (key : Digest) (header : TokenHeader)
      (pieces : List (Except PyError Bytes))
  | evict (busy : Bool) (key : Digest)
  | quarantineBad (hooked busy : Bool) (key : Digest)
  | acknowledgeAbsent (keys : List Digest)
  | scrub (hooked busy : Bool) (key : Digest)
  | recover

/-- The root after an operation, or where it was cut off. -/
def DiskOp.run (faults : List Fault) (d : Disk) : DiskOp → Disk
  | .commitChunk env key header payload =>
    (Store.commitChunk store env key header payload ⟨faults, d⟩).2.state
  | .commitStream env key header pieces =>
    (Store.commitStream store env key header pieces ⟨faults, d⟩).2.state
  | .evict busy key => (evictPath busy key ⟨faults, d⟩).2.state
  | .quarantineBad hooked busy key => (quarantineBadPath hooked busy key ⟨faults, d⟩).2.state
  | .acknowledgeAbsent keys => (Store.acknowledgeAbsent keys ⟨faults, d⟩).2.state
  | .scrub hooked busy key => (scrubPath store hooked busy key ⟨faults, d⟩).2.state
  | .recover => (Store.recover ⟨faults, d⟩).2.state

/-- Roots that operations and crashes lead to, from any root on which no key has been marked
yet. -/
inductive DiskRun : Disk → Prop where
  | start {d : Disk} (hjournal : d.journal = [])
      (hshards : ∀ key, d.manifests.get? (shard key) = none →
        ∀ v, d.files.Possible key v → v = none) : DiskRun d
  | step {d : Disk} (h : DiskRun d) (op : DiskOp) (faults : List Fault) :
      DiskRun (op.run store faults d)
  | crash {d d' : Disk} (h : DiskRun d) (hc : d.Crash d') : DiskRun d'

variable {store}

/-- Every root that runs of operations leave is sound. -/
theorem DiskRun.sound {d : Disk} (h : DiskRun store d) : d.Sound := by
  induction h with
  | start hjournal hshards =>
    refine ⟨fun key hf ↦ ?_, hshards⟩
    rw [hjournal] at hf
    cases hf
  | step _ op faults ih =>
    cases op with
    | commitChunk env key header payload =>
      exact (keeps_commitChunk store env key header payload ⟨faults, _⟩ ⟨ih, trivial⟩).1
    | commitStream env key header pieces =>
      exact (keeps_commitStream store env key header pieces ⟨faults, _⟩ ⟨ih, trivial⟩).1
    | evict busy key => exact (keeps_evictPath busy key ⟨faults, _⟩ ⟨ih, trivial⟩).1
    | quarantineBad hooked busy key =>
      exact (keeps_quarantineBadPath hooked busy key ⟨faults, _⟩ ⟨ih, trivial⟩).1
    | acknowledgeAbsent keys => exact (keeps_acknowledgeAbsent keys ⟨faults, _⟩ ⟨ih, trivial⟩).1
    | scrub hooked busy key =>
      exact (keeps_scrubPath store hooked busy key ⟨faults, _⟩ ⟨ih, trivial⟩).1
    | recover => exact (keeps_recover ⟨faults, _⟩ ⟨ih, trivial⟩).1
  | crash _ hc ih => exact ih.crash hc

/-! ### What lookups return -/

private theorem Disk.Hidden.now {d : Disk} {key : Digest} (h : d.Hidden key) :
    d.markers.get? key ≠ none ∨ d.files.get? key = none :=
  h.imp (fun hm ↦ hm _ (d.markers.possible_get? key)) fun hf ↦ hf _ (d.files.possible_get? key)

private theorem not_accepts_of_hidden {d : Disk} {key : Digest}
    (h : d.markers.get? key ≠ none ∨ d.files.get? key = none) : ¬ d.Accepts store key := by
  rintro ⟨hm, f, desc, hf, -⟩
  rcases h with hm' | hf'
  · exact hm' hm
  · rw [hf'] at hf
    cases hf

section

variable {d : Disk} {modified : Digest → Nat} {pins : List (List Digest)}
  {reporter : Quorum.InventoryReporter} {key : Digest} (hkey : ¬ d.Accepts store key)

include hkey

private theorem not_opens_of_not_accepts (desc : TokenFileDescriptor) :
    openChunk store.config (d.rankState store modified pins reporter) key false ≠ .ok desc :=
  fun h ↦ hkey ((accepts_iff store d modified pins reporter key).mpr ⟨desc, h⟩)

private theorem validChunk_of_not_accepts (hooked : Bool) (header : TokenHeader) :
    (validChunk store.config hooked (d.rankState store modified pins reporter) key header).2 =
      none := by
  unfold validChunk
  split
  · rfl
  · rfl
  · next desc ho => exact absurd ho (not_opens_of_not_accepts hkey desc)

private theorem scanOffers_of_not_accepts (limit : Nat) :
    key ∉ (scanOffers store.config (d.rankState store modified pins reporter) limit).map Prod.fst := by
  intro hmem
  obtain ⟨⟨k, span⟩, hoffer, rfl⟩ := List.mem_map.mp hmem
  have hoffers := (List.mem_insertionSort _).mp (List.mem_of_mem_take hoffer)
  obtain ⟨name, -, hname⟩ := List.mem_filterMap.mp hoffers
  split at hname
  · cases hname
  · next desc ho =>
    cases hname
    rw [(parent_of_openChunk ho).1] at hkey
    exact not_opens_of_not_accepts hkey desc ho

private theorem chainOf_of_not_accepts {entryId : Digest} {n : Nat}
    {objects : List TokenFileDescriptor}
    (h : ChainOf store.config (d.rankState store modified pins reporter) entryId n objects) :
    key ∉ objects.map TokenFileDescriptor.key := by
  intro hmem
  obtain ⟨desc, hdesc, rfl⟩ := List.mem_map.mp hmem
  exact not_opens_of_not_accepts hkey desc (h.open_of_mem hdesc)

end

/-- A withdrawn key never resurfaces. In every state of a run, with operations cut off or failing
anywhere and crashes at any time, and in every state that a crash may leave then: when a key was
marked and since then no publication linked its file and no scrub authenticated it, its marker is
there or its file is not, and no lookup, scan, probe or restore view returns it. -/
theorem withdrawn_stays_hidden {d : Disk} (h : DiskRun store d) {key : Digest}
    (hfenced : Fenced d.journal key) {d' : Disk} (hnow : d' = d ∨ d.Crash d')
    (modified : Digest → Nat) (pins : List (List Digest)) (reporter : Quorum.InventoryReporter)
    (hooked : Bool) :
    let s := d'.rankState store modified pins reporter
    (d'.markers.get? key ≠ none ∨ d'.files.get? key = none) ∧
    (∀ entryId snapshot, (lookup store.config hooked s entryId).2 = .ok (some snapshot) →
      key ∉ snapshot.objects.map TokenFileDescriptor.key) ∧
    (∀ limit, key ∉ (scanOffers store.config s limit).map Prod.fst) ∧
    (∀ header, (validChunk store.config hooked s key header).2 = none) ∧
    ∀ entryId snapshot, (restoreView store.config hooked s entryId).2 = .ok (some snapshot) →
      key ∉ snapshot.objects.map TokenFileDescriptor.key := by
  intro s
  have hsound : d'.Sound ∧ Fenced d'.journal key := by
    rcases hnow with rfl | hc
    · exact ⟨h.sound, hfenced⟩
    · exact ⟨h.sound.crash hc, hc.journal ▸ hfenced⟩
  have hhidden := (hsound.1.hidden key hsound.2).now
  have hkey : ¬ d'.Accepts store key := not_accepts_of_hidden hhidden
  refine ⟨hhidden, fun entryId snapshot hl ↦ ?_, scanOffers_of_not_accepts hkey,
    validChunk_of_not_accepts hkey hooked, fun entryId snapshot hr ↦ ?_⟩
  · obtain ⟨-, -, n, hchain, -⟩ := lookup_hit (Prod.ext rfl hl)
    exact chainOf_of_not_accepts hkey hchain
  · obtain ⟨-, -, n, hchain, -⟩ := restoreView_hit (Prod.ext rfl hr)
    exact chainOf_of_not_accepts hkey hchain

end

/-! ### A sample run -/

/-- A store with one full group. -/
def fencingStore : TokenFileStore :=
  ⟨Layout.fullSampleLayout, 64, ⟨.ofNat 1, .ofNat 2, 0, .ofNat 3, "p", .ofNat 4⟩,
    Layout.sampleLayer.pageSizeBytes_pos⟩

/-- A root with one file. -/
def fencingStart : Disk :=
  ⟨.durable (OrderedDict.empty.set 0 ()), .durable (OrderedDict.empty.set (.ofNat 5) ⟨[1], true⟩),
    .durable .empty, .durable .empty, []⟩

/-- The file is evicted, up to the sync of its shard. -/
def fencingEvicted : Disk :=
  DiskOp.run fencingStore (List.replicate 6 .none ++ [.crash]) fencingStart (.evict false (.ofNat 5))

/-- The unlink is lost in the crash. -/
def fencingCrashed : Disk :=
  ⟨.durable (OrderedDict.empty.set 0 ()), .durable (OrderedDict.empty.set (.ofNat 5) ⟨[1], true⟩),
    .durable (OrderedDict.empty.set (.ofNat 5) ()), .durable .empty, [.marked (.ofNat 5)]⟩

private theorem crash_fencingEvicted : fencingEvicted.Crash fencingCrashed := by
  have hkey : shard (.ofNat 5) = 0 := by decide +kernel
  have hfiles : ∀ key, fencingCrashed.files.get? key = fencingStart.files.get? key := fun _ ↦ rfl
  have hone : ∀ key, fencingStart.files.get? key =
      if key = .ofNat 5 then some ⟨[1], true⟩ else none := fun key ↦ OrderedDict.get?_set _ _ _ _
  have heq : fencingEvicted = { fencingStart with
      files := fencingStart.files.remove (.ofNat 5)
      markers := (fencingStart.markers.put (.ofNat 5) ()).sync
      journal := [.marked (.ofNat 5)] } := rfl
  have hrel : ∀ v : Option Unit, Option.Rel Eq v v := fun v ↦ by
    cases v
    · exact .none
    · exact .some rfl
  rw [heq]
  constructor
  case manifests => exact ⟨fun _ ↦ rfl, fun k ↦ ⟨_, .inl rfl, hrel _⟩⟩
  case markers => exact ⟨fun _ ↦ rfl, fun k ↦ ⟨_, .inl rfl, hrel _⟩⟩
  case tmp => exact ⟨fun _ ↦ rfl, fun k ↦ ⟨none, .inl rfl, .none⟩⟩
  case stale => exact fun _ ↦ rfl
  case files =>
    intro key
    refine .inr ⟨fencingStart.files.get? key, ?_, ?_⟩
    · by_cases hk : key = .ofNat 5
      · subst hk
        exact .inr (by decide +kernel)
      · refine .inl ?_
        change _ = (fencingStart.files.remove (.ofNat 5)).get? key
        rw [Directory.get?_remove, if_neg hk]
    · rw [hfiles key, hone key]
      split
      · exact .some ⟨rfl, fun _ ↦ rfl⟩
      · exact .none
  case gone =>
    intro key hgone
    rw [hfiles key, hone key]
    split
    · next hk =>
      rw [hk, hkey] at hgone
      cases hgone
    · rfl
  case journal => rfl

/-- After the crash the marker is there with the file. -/
theorem withdrawn_stays_hidden_crashed :
    fencingCrashed.files.get? (.ofNat 5) ≠ none ∧ fencingCrashed.markers.get? (.ofNat 5) ≠ none := by
  have hkey : shard (.ofNat 5) = 0 := by decide +kernel
  have hstart : DiskRun fencingStore fencingStart := by
    refine .start rfl fun key hgone v hv ↦ ?_
    rw [Directory.possible_durable.mp hv, OrderedDict.get?_set]
    split
    · next hk =>
      rw [hk, hkey] at hgone
      cases hgone
    · rfl
  have hrun : DiskRun fencingStore fencingEvicted := hstart.step (.evict false (.ofNat 5)) _
  have hfenced : Fenced fencingEvicted.journal (.ofNat 5) := by
    unfold Fenced
    decide +kernel
  have hthere : fencingCrashed.files.get? (.ofNat 5) ≠ none := by decide +kernel
  obtain ⟨hnow, -⟩ := withdrawn_stays_hidden hrun hfenced (.inr crash_fencingEvicted) (fun _ ↦ 0) []
    (.create ⟨0, "g", 1, ⟨1, 4, 2, by decide, by decide, by decide⟩, by decide, by decide, by decide,
      by decide⟩) true
  exact ⟨hthere, hnow.resolve_right hthere⟩

end SpoolCache.Store

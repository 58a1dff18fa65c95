import SpoolCache.Base.Simulation
import SpoolCache.Store.CrashRecovery
import SpoolCache.Store.DiskLookup
import SpoolCache.Store.FileReader
import SpoolCache.Store.Scrub

/-!
# Calls on a root refine operations on whole files

Every operation that holds the namespace lock exists twice: as calls on the directories of a root,
and as one function on decoded files and markers. Undisturbed, the calls do what the function does,
with the same answer; a publication does so also when one of its calls fails, where the function
has an outcome for it.
-/

namespace SpoolCache.Store

open SpoolCache.Base SpoolCache.Layout SpoolCache.Prefix SpoolCache.Base.Program
open TokenFileStore (FileDescriptor)

/-! ### The relation -/

/-- A file of the model shows the bytes of a file; its time of change is not on disk. -/
def Shows (store : TokenFileStore) (key : Digest) (f : DiskFile) (file : TokenFile) : Prop :=
  ∃ modified, file = tokenFile store key f modified

/-- A root has the files and markers of a rank state, in whatever order, and its restore views pin
these keys. -/
structure Refines (store : TokenFileStore) (pins : List (List Digest)) (d : Disk) (s : RankState) :
    Prop where
  files : ∀ key, Option.Rel (Shows store key) (d.files.get? key) (s.files.get? key)
  markers : ∀ key, d.markers.get? key = s.markers.get? key
  pins : s.pins = pins

/-- Errors of an open, on a root and on whole files; texts may differ. -/
inductive OpenErrors : PyError → PyError → Prop where
  | missing : OpenErrors .fileNotFound .fileNotFound
  | invalid (message message' : String) :
      OpenErrors (.manifestError message) (.manifestError message')

/-- Errors that handlers treat alike. -/
def Alike (e e' : PyError) : Prop := e = e' ∨ OpenErrors e e'

private theorem Alike.missing_iff {e e' : PyError} (h : Alike e e') :
    e = .fileNotFound ↔ e' = .fileNotFound := by
  rcases h with rfl | h
  · exact Iff.rfl
  · cases h with
    | missing => exact Iff.rfl
    | invalid m m' => exact ⟨fun h ↦ (by cases h), fun h ↦ (by cases h)⟩

private theorem Alike.storage_eq {e e' : PyError} (h : Alike e e') :
    isStorageError e = isStorageError e' := by
  rcases h with rfl | h
  · rfl
  · cases h <;> rfl

/-- A descriptor as operations on whole files see it. -/
def SameDescriptor (desc : FileDescriptor) (b : TokenFileDescriptor) : Prop :=
  desc.toTokenFileDescriptor = b

def SameDescriptors (descs : List FileDescriptor) (bs : List TokenFileDescriptor) : Prop :=
  descs.map (·.toTokenFileDescriptor) = bs

def SameSnapshot (snapshot : FileSnapshot) (t : TokenSnapshot) : Prop :=
  snapshot.toTokenSnapshot = t

def SameHit (hit : Option FileSnapshot) (t : Option TokenSnapshot) : Prop :=
  hit.map FileSnapshot.toTokenSnapshot = t

/-- Whether one of these restore views pins the key. -/
def pinned (pins : List (List Digest)) (key : Digest) : Bool :=
  pins.any fun keys ↦ keys.any fun other ↦ decide (pinOffset other = pinOffset key)

section

variable {store : TokenFileStore} {pins : List (List Digest)} {d d' : Disk} {s : RankState}
  {key : Digest}

private theorem Refines.busy_eq (h : Refines store pins d s) (key : Digest) :
    busy s key = pinned pins key := by rw [← h.pins]; rfl

private theorem Refines.of_views (h : Refines store pins d s)
    (hf : ∀ k, d'.files.get? k = d.files.get? k) (hm : ∀ k, d'.markers.get? k = d.markers.get? k) :
    Refines store pins d' s :=
  ⟨fun k ↦ hf k ▸ h.files k, fun k ↦ (hm k).trans (h.markers k), h.pins⟩

private theorem Refines.record (h : Refines store pins d s) (hooked : Bool) (key : Digest) :
    Refines store pins d (recordWithdrawal hooked s key) := by
  unfold recordWithdrawal
  split
  · exact ⟨h.files, h.markers, h.pins⟩
  · exact h

private theorem Refines.mark (h : Refines store pins d s)
    (hf : ∀ k, d'.files.get? k = d.files.get? k)
    (hm : ∀ k, d'.markers.get? k = if k = key then some () else d.markers.get? k) :
    Refines store pins d' (markWithdrawn s key) := by
  refine ⟨fun k ↦ hf k ▸ h.files k, fun k ↦ ?_, h.pins⟩
  change _ = (s.markers.set key ()).get? k
  rw [OrderedDict.get?_set, hm k, h.markers k]

private theorem Refines.clear (h : Refines store pins d s)
    (hf : ∀ k, d'.files.get? k = d.files.get? k)
    (hm : ∀ k, d'.markers.get? k = if k = key then none else d.markers.get? k) :
    Refines store pins d' (clearWithdrawal s key) := by
  refine ⟨fun k ↦ hf k ▸ h.files k, fun k ↦ ?_, h.pins⟩
  change _ = (s.markers.erase key).get? k
  rw [OrderedDict.get?_erase, hm k, h.markers k]

private theorem Refines.erase (h : Refines store pins d s)
    (hf : ∀ k, d'.files.get? k = if k = key then none else d.files.get? k)
    (hm : ∀ k, d'.markers.get? k = d.markers.get? k) :
    Refines store pins d' { s with files := s.files.erase key } := by
  refine ⟨fun k ↦ ?_, fun k ↦ (hm k).trans (h.markers k), h.pins⟩
  change Option.Rel _ _ ((s.files.erase key).get? k)
  rw [OrderedDict.get?_erase, hf k]
  split
  · exact .none
  · exact h.files k

private theorem Refines.mem_markers (h : Refines store pins d s) (key : Digest) :
    key ∈ s.markers.keys ↔ (d.markers.get? key).isSome = true := by
  rw [h.markers key, Option.isSome_iff_ne_none, ne_eq, OrderedDict.get?_eq_none_iff, not_not]

private theorem Refines.mem_files (h : Refines store pins d s) (key : Digest) :
    key ∈ s.files.keys ↔ (d.files.get? key).isSome = true := by
  have hrel := h.files key
  rw [Option.isSome_iff_ne_none, OrderedDict.mem_keys_iff]
  generalize d.files.get? key = v at hrel ⊢
  generalize s.files.get? key = v' at hrel ⊢
  cases hrel with
  | some _ => exact ⟨fun _ h ↦ (by cases h), fun _ ↦ ⟨_, rfl⟩⟩
  | none => exact ⟨fun ⟨_, h⟩ ↦ (by cases h), fun h ↦ absurd rfl h⟩

/-! ### Markers and removals -/

variable {hooked : Bool}

private theorem returns_mark (key : Digest) :
    Returns (fun d ↦ Refines store pins d s) (markInventoryWithdrawn key)
      fun _ d ↦ Refines store pins d (markWithdrawn s key) := by
  unfold markInventoryWithdrawn
  refine Returns.bind (X := fun _ d ↦ d.markers.get? key = some () ∧
    Refines store pins d (markWithdrawn s key)) (returns_update fun d h ↦ ?_) fun _ ↦
    Returns.bind (X := fun present d ↦ present = true ∧
      Refines store pins d (markWithdrawn s key)) (returns_look fun d h ↦ ?_) fun present ↦
    returns_of_fact fun hpresent ↦ ?_
  · split
    · next hsome =>
      obtain ⟨u, hu⟩ := Option.isSome_iff_exists.mp hsome
      refine ⟨hu, h.mark (fun _ ↦ rfl) fun k ↦ ?_⟩
      split
      · next hk => rw [hk, hu]
      · rfl
    · refine ⟨(Directory.get?_put _ _ _ _).trans (if_pos rfl), h.mark (fun _ ↦ rfl) fun k ↦ ?_⟩
      exact Directory.get?_put _ _ _ _
  · refine ⟨true, ?_, rfl, h.2⟩
    rw [h.1]
    rfl
  · rw [if_pos hpresent]
    exact returns_update fun d h ↦ h.of_views (fun _ ↦ rfl) fun _ ↦ rfl

private theorem returns_hook (hooked : Bool) (key : Digest) :
    Returns (fun d ↦ Refines store pins d s) (checkpoint "withdraw hook")
      fun _ d ↦ Refines store pins d (recordWithdrawal hooked s key) :=
  returns_update fun _ h ↦ h.record hooked key

/-- Clearing a marker on the disk clears it in the rank. -/
theorem returns_clear (key : Digest) :
    Returns (fun d ↦ Refines store pins d s) (clearInventoryWithdrawal key)
      fun _ d ↦ Refines store pins d (clearWithdrawal s key) := by
  unfold clearInventoryWithdrawal
  refine Returns.bind (X := fun present d ↦ present = (d.markers.get? key).isSome ∧
    Refines store pins d s) (returns_look fun d h ↦ ⟨_, rfl, rfl, h⟩) fun present ↦ ?_
  split
  · refine Returns.bind (X := fun _ d ↦ Refines store pins d (clearWithdrawal s key))
      (returns_update fun d h ↦ h.2.clear (fun _ ↦ rfl) fun k ↦ Directory.get?_remove _ _ _) fun _ ↦
      returns_update fun d h ↦ h.of_views (fun _ ↦ rfl) fun _ ↦ rfl
  · next hno =>
    refine returns_pure fun d h ↦ h.2.clear (fun _ ↦ rfl) fun k ↦ ?_
    split
    · next hk =>
      rw [hk]
      exact Option.not_isSome_iff_eq_none.mp (h.1 ▸ hno)
    · rfl

/-- A path exists exactly when the rank has the file. -/
theorem returns_pathExists (key : Digest) :
    Returns (fun d ↦ Refines store pins d s) (pathExists key)
      fun there d ↦ there = decide (key ∈ s.files.keys) ∧ Refines store pins d s := by
  refine returns_look fun d h ↦ ⟨_, rfl, ?_, h⟩
  rw [Bool.eq_iff_iff, decide_eq_true_iff]
  exact (h.mem_files key).symm

/-- A path that has a file is removed. -/
theorem returns_removePath (hthere : key ∈ s.files.keys) :
    Returns (fun d ↦ Refines store pins d s) (removePath key)
      fun _ d ↦ Refines store pins d { s with files := s.files.erase key } := by
  refine returns_call fun d h ↦ ⟨(), { d with files := d.files.remove key }, ?_,
    h.erase (fun k ↦ Directory.get?_remove _ _ _) fun _ ↦ rfl⟩
  obtain ⟨f, hf⟩ := Option.isSome_iff_exists.mp ((h.mem_files key).mp hthere)
  rw [hf]

private theorem returns_fsyncShard (key : Digest) :
    Returns (fun d ↦ Refines store pins d s) (fsyncShard key) fun _ d ↦ Refines store pins d s :=
  returns_update fun _ h ↦ h.of_views (fun _ ↦ Directory.get?_syncWhere _ _ _) fun _ ↦ rfl

/-- `evict` on a root is `evict` on whole files. -/
theorem returns_evictPath (key : Digest) :
    Returns (fun d ↦ Refines store pins d s) (evictPath (pinned pins key) key)
      fun removed d ↦ removed = (evict hooked s key).2 ∧
        Refines store pins d (evict hooked s key).1 := by
  by_cases hpins : s.pins = pins
  · have hbusy : pinned pins key = busy s key := by rw [← hpins]; rfl
    unfold evictPath evict
    rw [hbusy]
    split
    · exact returns_pure fun d h ↦ ⟨rfl, h⟩
    · refine Returns.bind (returns_pathExists key) fun there ↦ returns_of_fact fun hthere ↦ ?_
      by_cases hmem : key ∈ s.files.keys
      · rw [if_neg (not_not.mpr hmem), hthere, decide_eq_true hmem, if_pos rfl]
        refine Returns.bind (returns_mark key) fun _ ↦ Returns.bind (returns_hook hooked key)
          fun _ ↦ Returns.bind (returns_removePath ?_) fun _ ↦ Returns.bind (returns_fsyncShard key)
          fun _ ↦ returns_pure fun d h ↦ ⟨rfl, h⟩
        rw [files_recordWithdrawal]
        exact hmem
      · rw [if_pos hmem, hthere, decide_eq_false hmem, if_neg (Bool.false_ne_true)]
        exact returns_pure fun d h ↦ ⟨rfl, h⟩
  · exact fun d h ↦ absurd h.pins hpins

private theorem returns_retireMarker (key : Digest) :
    Returns (fun d ↦ Refines store pins d s) (retireMarker hooked key)
      fun _ d ↦ Refines store pins d (if hooked then clearWithdrawal s key else s) := by
  unfold retireMarker
  split
  · exact returns_clear key
  · exact returns_pure fun _ h ↦ h

/-- `_quarantine_manifest` on a root is that on whole files. -/
theorem returns_quarantinePath (key : Digest) :
    Returns (fun d ↦ Refines store pins d s) (quarantinePath hooked key)
      fun _ d ↦ Refines store pins d (quarantineManifest hooked s key) := by
  unfold quarantinePath quarantineManifest
  set marked := recordWithdrawal hooked (markWithdrawn s key) key with hmarked
  refine Returns.bind
    (X := fun marking d ↦ marking = none ∧ Refines store pins d (markWithdrawn s key))
    ((returns_mark key).attempted) fun marking ↦ returns_of_fact fun hmarking ↦ ?_
  refine Returns.bind (X := fun hook d ↦ hook = none ∧ Refines store pins d marked)
    ((returns_hook hooked key).attempted) fun hook ↦ returns_of_fact fun hhook ↦ ?_
  rw [hmarking, hhook]
  by_cases hmem : key ∈ marked.files.keys
  · rw [if_neg (not_not.mpr hmem)]
    refine Returns.bind (X := fun removing d ↦ removing = none ∧
      Refines store pins d { marked with files := marked.files.erase key })
      (returns_removePath hmem).attempted fun removing ↦ returns_of_fact fun hremoving ↦ ?_
    rw [hremoving]
    refine Returns.bind (X := fun first d ↦ first = none ∧
      Refines store pins d { marked with files := marked.files.erase key })
      (returns_fsyncShard key).attempted fun first ↦ returns_of_fact fun hfirst ↦
      Returns.bind (X := fun second d ↦ second = none ∧
        Refines store pins d { marked with files := marked.files.erase key })
      (Returns.attempted (returns_update fun _ h ↦ h)) fun second ↦ returns_of_fact fun hsecond ↦ ?_
    rw [hfirst, hsecond]
    exact Returns.bind (returns_retireMarker key) fun _ ↦ returns_pure fun _ h ↦ h
  · rw [if_pos hmem]
    refine Returns.bind (X := fun removing d ↦ removing = some .fileNotFound ∧
      Refines store pins d marked) ?_ fun removing ↦ returns_of_fact fun hremoving ↦ ?_
    · refine Refuses.attempted fun d h ↦ ⟨.fileNotFound, d, ?_, rfl, h⟩
      have hnone : d.files.get? key = none :=
        Option.not_isSome_iff_eq_none.mp fun hsome ↦ hmem ((h.mem_files key).mpr hsome)
      unfold removePath call
      dsimp only
      rw [hnone]
      rfl
    · rw [hremoving]
      exact returns_pure fun _ h ↦ h

/-- `_quarantine_bad` on a root is that on whole files. -/
theorem returns_quarantineBadPath (key : Digest) :
    Returns (fun d ↦ Refines store pins d s) (quarantineBadPath hooked (pinned pins key) key)
      fun _ d ↦ Refines store pins d (quarantineBad hooked s key) := by
  by_cases hpins : s.pins = pins
  · have hbusy : pinned pins key = busy s key := by rw [← hpins]; rfl
    unfold quarantineBadPath quarantineBad
    rw [hbusy]
    split
    · exact Returns.bind (returns_mark key) fun _ ↦ returns_hook hooked key
    · exact Returns.bind (returns_quarantinePath key) fun _ ↦ returns_pure fun _ h ↦ h
  · exact fun d h ↦ absurd h.pins hpins

/-! ### Opens -/

private theorem returns_withdrawalGate (h : Refines store pins d s) (allowWithdrawn : Bool) :
    Returns (fun d' ↦ d' = d) (withdrawalGate key allowWithdrawn)
      fun withdrawn d' ↦ (withdrawn = true ↔ allowWithdrawn = false ∧ key ∈ s.markers.keys) ∧
        d' = d := by
  unfold withdrawalGate
  cases allowWithdrawn with
  | true =>
    rw [if_pos rfl]
    exact returns_pure fun d' hd ↦ ⟨⟨fun h ↦ (by cases h), fun h ↦ (by cases h.1)⟩, hd⟩
  | false =>
    rw [if_neg Bool.false_ne_true]
    refine returns_look fun d' hd ↦ ⟨_, rfl, ?_, hd⟩
    rw [hd, h.mem_markers]
    exact ⟨fun h ↦ ⟨rfl, h⟩, And.right⟩

/-- A file that opens has the header that the model shows, and the model knows whether its payload
authenticates. -/
theorem openChunk_of_openData (h : Refines store pins d s) {allowWithdrawn : Bool}
    (hgate : ¬ (allowWithdrawn = false ∧ key ∈ s.markers.keys)) {f : DiskFile}
    (hf : d.files.get? key = some f) {desc : FileDescriptor}
    (hopen : store.openData key f.data = .ok desc) :
    openChunk store.config s key allowWithdrawn = .ok desc.toTokenFileDescriptor ∧
      ((s.files.get? key).map TokenFile.authentic).getD false =
        (store.authenticate desc (f.data.drop desc.payloadOffset)).isOk := by
  have hrel := h.files key
  rw [hf] at hrel
  unfold openChunk
  rw [if_neg hgate]
  generalize s.files.get? key = v at hrel ⊢
  cases hrel with
  | some hshows =>
    obtain ⟨modified, rfl⟩ := hshows
    obtain ⟨hheader, hkey⟩ := openData_ok store hopen
    dsimp only [Option.map_some, Option.getD_some]
    unfold tokenFile
    rw [hopen]
    dsimp only
    rw [hheader]
    refine ⟨?_, rfl⟩
    rw [← hkey]

private theorem settles_openPath (h : Refines store pins d s) (key : Digest)
    (allowWithdrawn : Bool) :
    Settles (fun d' ↦ d' = d) (openPath store key allowWithdrawn)
      (fun r d' ↦ d' = d ∧
        (∃ f, d.files.get? key = some f ∧ store.openData key f.data = .ok r.1) ∧
        openChunk store.config s key allowWithdrawn = .ok r.1.toTokenFileDescriptor ∧
        ((s.files.get? key).map TokenFile.authentic).getD false = (store.authenticate r.1 r.2).isOk)
      fun e d' ↦ d' = d ∧
        ∃ e', openChunk store.config s key allowWithdrawn = .error e' ∧ OpenErrors e e' := by
  unfold openPath
  refine Settles.bind (returns_withdrawalGate h allowWithdrawn).settles fun withdrawn ↦ ?_
  split
  · next hyes =>
    refine settles_raise ?_
    rintro d' ⟨hgate, hd⟩
    refine ⟨hd, _, ?_, .invalid _ "token key withdrawn"⟩
    unfold openChunk
    rw [if_pos (hgate.mp hyes)]
  · next hno =>
    refine settles_call ?_
    rintro d' ⟨hgate, rfl⟩
    have hopens : ¬ (allowWithdrawn = false ∧ key ∈ s.markers.keys) := fun h ↦ hno (hgate.mpr h)
    dsimp only
    cases hf : d'.files.get? key with
    | none =>
      refine ⟨fun _ h ↦ (by cases h), fun e he ↦ ?_⟩
      cases he
      refine ⟨rfl, _, ?_, .missing⟩
      have hnone : s.files.get? key = none := by
        have hrel := h.files key
        rw [hf] at hrel
        generalize s.files.get? key = v at hrel ⊢
        cases hrel
        rfl
      unfold openChunk
      rw [if_neg hopens, hnone]
    | some f =>
      dsimp only
      cases hopen : store.openData key f.data with
      | ok desc =>
        refine ⟨fun r hr ↦ ?_, fun _ h ↦ (by cases h)⟩
        cases hr
        exact ⟨rfl, ⟨f, rfl, hopen⟩, openChunk_of_openData h hopens hf hopen⟩
      | error e =>
        refine ⟨fun _ h ↦ (by cases h), fun e' he ↦ ?_⟩
        cases he
        obtain ⟨message, rfl⟩ := store.openBytes_raises key f.data e
          ((TokenFileStore.openBytes_eq_openData store key f.data).trans hopen)
        refine ⟨rfl, _, ?_, .invalid _ "invalid token metadata"⟩
        have hrel := h.files key
        rw [hf] at hrel
        unfold openChunk
        rw [if_neg hopens]
        generalize s.files.get? key = v at hrel ⊢
        cases hrel with
        | some hshows =>
          obtain ⟨modified, rfl⟩ := hshows
          unfold tokenFile
          rw [hopen]

/-- A root accepts the keys that the model opens. -/
theorem Refines.accepts_iff (h : Refines store pins d s) (key : Digest) :
    d.Accepts store key ↔ ∃ desc, openChunk store.config s key false = .ok desc := by
  constructor
  · rintro ⟨hmarker, f, desc, hf, hopen⟩
    have hgate : ¬ (false = false ∧ key ∈ s.markers.keys) := by
      rw [h.mem_markers, hmarker]
      exact fun h ↦ Bool.false_ne_true h.2
    exact ⟨_, (openChunk_of_openData h hgate hf hopen).1⟩
  · rintro ⟨desc, hdesc⟩
    have hgate : ¬ (false = false ∧ key ∈ s.markers.keys) := by
      intro hgate
      unfold openChunk at hdesc
      rw [if_pos hgate] at hdesc
      cases hdesc
    rcases settles_openPath h key false d rfl with
      ⟨r, d', -, -, ⟨f, hf, hopen⟩, -⟩ | ⟨e, d', -, -, e', he, -⟩
    · refine ⟨Option.not_isSome_iff_eq_none.mp fun hsome ↦ ?_, f, r.1, hf, hopen⟩
      exact hgate ⟨rfl, (h.mem_markers key).mpr hsome⟩
    · rw [he] at hdesc
      cases hdesc

/-- `_open_chunk` on a root is that on whole files. -/
theorem follows_openPath (key : Digest) (allowWithdrawn : Bool) :
    Follows (Refines store pins) (fun r ↦ SameDescriptor r.1) Alike
      (openPath store key allowWithdrawn)
      fun s ↦ (s, openChunk store.config s key allowWithdrawn) := by
  intro s d h
  refine (settles_openPath h key allowWithdrawn).mono (fun _ hd ↦ hd) ?_ ?_ d rfl
  · rintro r d' ⟨rfl, -, hopen, -⟩
    exact ⟨_, hopen, rfl, h⟩
  · rintro e d' ⟨rfl, e', hopen, herrors⟩
    exact ⟨e', hopen, .inr herrors, h⟩

private theorem settles_authenticatePath (desc : FileDescriptor) (payload : Bytes) :
    Settles (fun d ↦ Refines store pins d s) (authenticatePath store key desc payload)
      (fun _ d ↦ (store.authenticate desc payload).isOk = true ∧ Refines store pins d s)
      fun e d ↦ (store.authenticate desc payload).isOk = false ∧ (∃ m, e = .manifestError m) ∧
        Refines store pins d s := by
  refine settles_call fun d h ↦ ?_
  cases hauth : store.authenticate desc payload with
  | ok u =>
    refine ⟨fun _ _ ↦ ⟨rfl, h.of_views (fun _ ↦ rfl) fun _ ↦ rfl⟩, fun _ h ↦ (by cases h)⟩
  | error e =>
    refine ⟨fun _ h ↦ (by cases h), fun e' he ↦ ?_⟩
    cases he
    exact ⟨rfl, store.authenticate_raises desc payload e hauth, h⟩

/-! ### One key at a time -/

private theorem returns_inventoryIsWithdrawn (key : Digest) :
    Returns (fun d ↦ Refines store pins d s) (inventoryIsWithdrawn key)
      fun withdrawn d ↦ withdrawn = decide (key ∈ s.markers.keys) ∧ Refines store pins d s := by
  refine returns_look fun d h ↦ ⟨_, rfl, ?_, h⟩
  rw [Bool.eq_iff_iff, decide_eq_true_iff]
  exact (h.mem_markers key).symm

/-- A key of a scrub step on whole files. -/
def scrubFile (config : StoreConfig) (hooked : Bool) (s : RankState) (key : Digest) : RankState :=
  if busy s key then s else (scrubAttempt config hooked false s key).store

/-- The work of a scrub on a file that opens. -/
def clearIfAuthentic (store : TokenFileStore) (key : Digest) (desc : FileDescriptor)
    (payload : Bytes) : DiskProgram Unit := do
  authenticatePath store key desc payload
  let withdrawn ← inventoryIsWithdrawn key
  if withdrawn then clearInventoryWithdrawal key else pure ()

private theorem settles_clearIfAuthentic (desc : FileDescriptor) (payload : Bytes) :
    Settles (fun d ↦ Refines store pins d s) (clearIfAuthentic store key desc payload)
      (fun _ d ↦ (store.authenticate desc payload).isOk = true ∧
        Refines store pins d (if key ∈ s.markers.keys then clearWithdrawal s key else s))
      fun e d ↦ (store.authenticate desc payload).isOk = false ∧ (∃ m, e = .manifestError m) ∧
        Refines store pins d s := by
  unfold clearIfAuthentic
  refine Settles.bind (settles_authenticatePath desc payload) fun _ d ⟨hauth, h⟩ ↦ ?_
  refine Returns.settles (Returns.mono (Returns.bind (returns_inventoryIsWithdrawn key)
    fun withdrawn ↦ returns_of_fact fun hwithdrawn ↦ ?_) fun _ _ h ↦ ⟨hauth, h⟩) d h
  rw [hwithdrawn]
  split
  · next hyes =>
    rw [if_pos (of_decide_eq_true hyes)]
    exact returns_clear key
  · next hno =>
    rw [if_neg fun h ↦ hno (decide_eq_true h)]
    exact returns_pure fun _ h ↦ h

/-- What a scrub attempts on a key that no view pins: it ends as the attempt on whole files does,
and where it raises, nothing has changed and that attempt does nothing or quarantines. -/
theorem settles_scrubAttempt (h : Refines store pins d s) (key : Digest) :
    Settles (fun d' ↦ d' = d)
      (openPath store key true >>= fun r ↦ clearIfAuthentic store key r.1 r.2)
      (fun _ d' ↦ Refines store pins d' (scrubAttempt store.config hooked false s key).store)
      fun e d' ↦ Refines store pins d' s ∧
        (e = .fileNotFound ∧ (scrubAttempt store.config hooked false s key).store = s ∨
          (∃ m, e = .manifestError m) ∧
            (scrubAttempt store.config hooked false s key).store = quarantineBad hooked s key) := by
  refine Settles.bind ((settles_openPath h key true).mono (fun _ hd ↦ hd) (fun _ _ h ↦ h) ?_)
    fun r d' ⟨hd, _, hopen, hauth⟩ ↦ ?_
  · rintro e d' ⟨rfl, e', hopen, herrors⟩
    refine ⟨h, ?_⟩
    unfold scrubAttempt
    rw [hopen]
    cases herrors with
    | missing => exact .inl ⟨rfl, rfl⟩
    | invalid m m' => exact .inr ⟨⟨m, rfl⟩, rfl⟩
  · refine (settles_clearIfAuthentic r.1 r.2).mono (fun _ h ↦ h) ?_ ?_ d' (hd ▸ h)
    · rintro _ d'' ⟨hyes, h'⟩
      unfold scrubAttempt
      rw [hopen]
      dsimp only
      rw [if_neg (by rw [hauth, hyes]; simp)]
      split
      · next hmem =>
        rw [if_pos hmem] at h'
        exact h'
      · next hmem =>
        rw [if_neg hmem] at h'
        exact h'
    · rintro e d'' ⟨hno, hmanifest, h'⟩
      refine ⟨h', .inr ⟨hmanifest, ?_⟩⟩
      unfold scrubAttempt
      rw [hopen]
      dsimp only
      rw [if_pos (.inr (hauth.trans hno))]

/-- A scrub of a key on a root is that on whole files. -/
theorem returns_scrubPath (key : Digest) :
    Returns (fun d ↦ Refines store pins d s) (scrubPath store hooked (pinned pins key) key)
      fun _ d ↦ Refines store pins d (scrubFile store.config hooked s key) := by
  intro d h
  unfold scrubPath scrubFile
  rw [h.busy_eq key]
  split
  · exact ⟨(), d, rfl, h⟩
  · refine Settles.returns ((settles_scrubAttempt h key).handle fun e ↦ ?_) d rfl
    rintro d' ⟨h', hresult⟩
    rcases hresult with ⟨rfl, hresult⟩ | ⟨⟨m, rfl⟩, hresult⟩
    · refine .inl ⟨(), d', rfl, ?_⟩
      rw [hresult]
      exact h'
    · rw [hresult]
      exact (returns_quarantineBadPath key).settles d' h'

/-! ### Lookups -/

/-- Opens fail with two kinds of errors. -/
theorem openChunk_raises {config : StoreConfig} {allowWithdrawn : Bool} {e : PyError}
    (h : openChunk config s key allowWithdrawn = .error e) :
    e = .fileNotFound ∨ ∃ m, e = .manifestError m := by
  unfold openChunk at h
  split at h
  · cases h
    exact .inr ⟨_, rfl⟩
  · split at h
    · cases h
      exact .inl rfl
    · split at h
      · cases h
        exact .inr ⟨_, rfl⟩
      · split at h
        · cases h
          exact .inr ⟨_, rfl⟩
        · cases h

private theorem follows_openAndClose (key : Digest) :
    Follows (Refines store pins) SameDescriptor Alike
      (openAndClose store key) fun s ↦ (s, openChunk store.config s key false) := by
  have hclose : ∀ (r : FileDescriptor × Bytes) (b : TokenFileDescriptor),
      SameDescriptor r.1 b → Follows (Refines store pins)
        SameDescriptor Alike
        (do
          closeFile
          pure r.1 : DiskProgram FileDescriptor) fun s ↦ (s, .ok b) := fun r b hr ↦
    follows_of_returns (f := id) fun s ↦ Returns.bind (returns_update fun _ h ↦ h) fun _ ↦
      returns_pure fun _ h ↦ ⟨hr, h⟩
  refine ((follows_openPath key false).bind hclose).congr fun s ↦ ?_
  unfold Model.andThen
  dsimp only
  cases openChunk store.config s key false <;> rfl

/-- An error after a quarantine. -/
theorem follows_rejectPath {α β : Type} {A : α → β → Prop} (key : Digest) {e e' : PyError}
    (h : Alike e e') :
    Follows (Refines store pins) A Alike (rejectPath hooked (pinned pins) key e : DiskProgram α)
      fun s ↦ (quarantineBad hooked s key, .error e') := by
  intro s
  refine Settles.bind (returns_quarantineBadPath key).settles fun _ ↦ settles_raise fun d hd ↦ ?_
  exact ⟨e', rfl, h, hd⟩

/-- A model of `rejectUnlessMissing`. -/
def rejectModel {β : Type} (hooked : Bool) (key : Digest) (e : PyError) :
    Model RankState PyError β := fun s ↦
  if e = .fileNotFound then (s, .error e)
  else if isStorageError e then (quarantineBad hooked s key, .error e)
  else (s, .error e)

private theorem follows_rejectUnlessMissing {α β : Type} {A : α → β → Prop} (key : Digest)
    {e e' : PyError} (h : Alike e e') :
    Follows (Refines store pins) A Alike
      (rejectUnlessMissing hooked (pinned pins) key e : DiskProgram α)
      (rejectModel hooked key e') := by
  unfold rejectUnlessMissing rejectModel
  simp only [h.missing_iff, h.storage_eq]
  split
  · exact follows_raise h
  · split
    · exact follows_rejectPath key h
    · exact follows_raise h

/-- The model of a rejection, on errors of opens. -/
theorem rejectModel_of_openChunk {β : Type} {allowWithdrawn : Bool} {config : StoreConfig}
    {e : PyError} (h : openChunk config s key allowWithdrawn = .error e) :
    rejectModel hooked key e s = ((if e = .fileNotFound then s else quarantineBad hooked s key,
      .error e) : RankState × Except PyError β) := by
  unfold rejectModel
  rcases openChunk_raises h with rfl | ⟨m, rfl⟩
  · rfl
  · rfl

private theorem follows_openNodePath (key : Digest) :
    Follows (Refines store pins) SameDescriptor Alike
      (openNodePath store hooked (pinned pins) key) fun s ↦ openNode store.config hooked s key := by
  have hkind : ∀ (desc : FileDescriptor) (b : TokenFileDescriptor),
      SameDescriptor desc b → Follows (Refines store pins)
        SameDescriptor Alike
        (if desc.kind ≠ .data then
            .raise (.manifestError "state file is not a token-chain node")
          else pure desc : DiskProgram FileDescriptor)
        fun s ↦ (s, if b.kind ≠ .data then
          .error (.manifestError "state file is not a token-chain node") else .ok b) := by
    rintro desc _ rfl
    split
    · exact follows_raise (.inl rfl)
    · exact follows_pure rfl
  refine (((follows_openAndClose key).handle fun e e' h ↦
    follows_rejectUnlessMissing key h).bind hkind).congr fun s ↦ ?_
  unfold Model.andThen Model.orElse openNode
  dsimp only
  cases hopen : openChunk store.config s key false with
  | ok desc =>
    dsimp only
    split <;> rfl
  | error e =>
    dsimp only
    rw [rejectModel_of_openChunk hopen]
    rcases openChunk_raises hopen with rfl | ⟨m, rfl⟩ <;> rfl

/-- A model of `linkParent`. -/
def linkModel (b : TokenFileDescriptor)
    (below : Digest → Model RankState PyError (List TokenFileDescriptor)) :
    Model RankState PyError (List TokenFileDescriptor) := fun s ↦
  match b.parent with
  | none => (s, .ok [b])
  | some parent =>
    match below parent s with
    | (s, .error e) => (s, .error e)
    | (s, .ok rest) => (s, .ok (b :: rest))

private theorem follows_linkParent {below : Digest → DiskProgram (List FileDescriptor)}
    {f : Digest → Model RankState PyError (List TokenFileDescriptor)}
    (h : ∀ parent, Follows (Refines store pins) SameDescriptors Alike (below parent) (f parent))
    {desc : FileDescriptor} {b : TokenFileDescriptor} (hdesc : SameDescriptor desc b) :
    Follows (Refines store pins) SameDescriptors Alike (linkParent desc below) (linkModel b f) := by
  subst hdesc
  have hcons : ∀ (descs : List FileDescriptor) (bs : List TokenFileDescriptor),
      SameDescriptors descs bs → Follows (Refines store pins) SameDescriptors Alike
        (pure (desc :: descs) : DiskProgram (List FileDescriptor))
        fun s ↦ (s, .ok (desc.toTokenFileDescriptor :: bs)) :=
    fun _ _ hs ↦ follows_pure (congrArg (desc.toTokenFileDescriptor :: ·) hs)
  unfold linkParent linkModel
  cases desc.parent with
  | none => exact follows_pure rfl
  | some parent =>
    refine ((h parent).bind hcons).congr fun s ↦ ?_
    unfold Model.andThen
    dsimp only
    rcases f parent s with ⟨s', _ | bs⟩ <;> rfl

/-- The chain below a node on a root is that on whole files. -/
theorem follows_chainBelowPath (n : Nat) (key : Digest) :
    Follows (Refines store pins) SameDescriptors Alike
      (chainBelowPath store hooked (pinned pins) n key)
      fun s ↦ chainBelow store.config hooked n s key := by
  induction n generalizing key with
  | zero =>
    unfold chainBelowPath
    have hnext : ∀ (desc : FileDescriptor) (b : TokenFileDescriptor), SameDescriptor desc b →
        Follows (Refines store pins) SameDescriptors Alike
          (rejectPath hooked (pinned pins) key (.manifestError "token chain is not consecutive"))
          fun s ↦ (quarantineBad hooked s key,
            .error (.manifestError "token chain is not consecutive")) :=
      fun _ _ _ ↦ follows_rejectPath key (.inl rfl)
    refine ((follows_openNodePath key).bind hnext).congr fun s ↦ ?_
    unfold Model.andThen chainBelow
    dsimp only
    rcases openNode store.config hooked s key with ⟨s', _ | b⟩ <;> rfl
  | succ m ih =>
    unfold chainBelowPath
    have hnext : ∀ (desc : FileDescriptor) (b : TokenFileDescriptor), SameDescriptor desc b →
        Follows (Refines store pins) SameDescriptors Alike
          (if desc.spanTokens ≠ (m + 1) * store.layout.chunkTokens then
            rejectPath hooked (pinned pins) key (.manifestError "token chain is not consecutive")
          else linkParent desc fun parent ↦ chainBelowPath store hooked (pinned pins) m parent)
          fun s ↦
            if b.spanTokens ≠ (m + 1) * store.layout.chunkTokens then
              (quarantineBad hooked s key,
                .error (.manifestError "token chain is not consecutive"))
            else linkModel b (fun parent s ↦ chainBelow store.config hooked m s parent) s := by
      rintro desc b rfl
      split
      · exact follows_rejectPath key (.inl rfl)
      · exact follows_linkParent ih rfl
    refine ((follows_openNodePath key).bind hnext).congr fun s ↦ ?_
    unfold Model.andThen
    rw [chainBelow]
    dsimp only
    rcases openNode store.config hooked s key with ⟨s', _ | b⟩ <;> rfl

/-- The data chain of an entry on a root is that on whole files. -/
theorem follows_dataChainPath (entryId : Digest) :
    Follows (Refines store pins) SameDescriptors Alike
      (dataChainPath store hooked (pinned pins) entryId)
      fun s ↦ dataChain store.config hooked s entryId := by
  have hnext : ∀ (desc : FileDescriptor) (b : TokenFileDescriptor), SameDescriptor desc b →
      Follows (Refines store pins) SameDescriptors Alike
        (linkParent desc (chainBelowPath store hooked (pinned pins)
          (desc.spanTokens / store.layout.chunkTokens - 1)))
        (linkModel b fun parent s ↦ chainBelow store.config hooked
          (b.spanTokens / store.layout.chunkTokens - 1) s parent) := by
    rintro desc b rfl
    exact follows_linkParent (fun parent ↦ follows_chainBelowPath _ parent) rfl
  unfold dataChainPath
  refine ((follows_openNodePath entryId).bind hnext).congr fun s ↦ ?_
  unfold Model.andThen dataChain
  dsimp only
  rcases openNode store.config hooked s entryId with ⟨s', _ | b⟩ <;> rfl

private theorem follows_statePath (entryId : Digest) (span : Nat) :
    Follows (Refines store pins) SameDescriptor Alike
      (statePath store hooked (pinned pins) entryId span)
      fun s ↦ stateFile store.config hooked s entryId span := by
  have hnext : ∀ (desc : FileDescriptor) (b : TokenFileDescriptor), SameDescriptor desc b →
      Follows (Refines store pins) SameDescriptor Alike
        (if (desc.kind, desc.parent, desc.spanTokens) ≠ (.state, some entryId, span) then
            .raise (.manifestError "boundary state differs from token chain")
          else pure desc : DiskProgram FileDescriptor)
        fun s ↦ (s, if (b.kind, b.parent, b.spanTokens) ≠ (.state, some entryId, span) then
          .error (.manifestError "boundary state differs from token chain") else .ok b) := by
    rintro desc _ rfl
    split
    · exact follows_raise (.inl rfl)
    · exact follows_pure rfl
  unfold statePath
  refine (((follows_openAndClose (boundaryStateKey entryId)).bind hnext).handle fun e e' h ↦
    follows_rejectUnlessMissing (boundaryStateKey entryId) h).congr fun s ↦ ?_
  unfold Model.orElse Model.andThen stateFile
  dsimp only
  cases hopen : openChunk store.config s (boundaryStateKey entryId) false with
  | ok desc =>
    dsimp only
    by_cases hstate : (desc.kind, desc.parent, desc.spanTokens) ≠ (.state, some entryId, span)
    · simp only [if_pos hstate]
      rfl
    · simp only [if_neg hstate]
  | error e =>
    dsimp only
    rw [rejectModel_of_openChunk hopen]
    rcases openChunk_raises hopen with rfl | ⟨m, rfl⟩ <;> rfl

private theorem follows_snapshotPath (entryId : Digest) (span : Nat) {descs : List FileDescriptor}
    {bs : List TokenFileDescriptor} (h : SameDescriptors descs bs) :
    Follows (Refines store pins) SameSnapshot Alike (snapshotPath store entryId span descs)
      fun s ↦ (s, coveredSnapshot store.config entryId span bs) := by
  subst h
  unfold snapshotPath coveredSnapshot
  rw [List.flatMap_map]
  change Follows _ _ _ (ofExcept (store.layout.validateManifestCoverage span
    (descs.flatMap (·.segments))) >>= _) fun s ↦ (s, store.layout.validateManifestCoverage span
      (descs.flatMap (·.segments)) >>= _)
  cases store.layout.validateManifestCoverage span (descs.flatMap (·.segments)) with
  | ok u => exact follows_pure rfl
  | error e => exact follows_raise (.inl rfl)

/-- A model of `assemblePath`. -/
def assembleModel (store : TokenFileStore) (hooked : Bool) (entryId : Digest)
    (bs : List TokenFileDescriptor) : Model RankState PyError TokenSnapshot := fun s ↦
  match bs.getLast?, bs.head? with
  | some first, some last =>
    if first.spanTokens ≠ store.layout.chunkTokens then
      (s, .error (.manifestError "token chain has no beginning"))
    else if store.layout.hasBoundaryState then
      match stateFile store.config hooked s entryId last.spanTokens with
      | (s, .error e) => (s, .error e)
      | (s, .ok state) =>
        (s, coveredSnapshot store.config entryId last.spanTokens (bs.reverse ++ [state]))
    else (s, coveredSnapshot store.config entryId last.spanTokens bs.reverse)
  | _, _ => (s, .error (.manifestError "token chain has no beginning"))

private theorem follows_assemblePath (entryId : Digest) (descs : List FileDescriptor)
    (bs : List TokenFileDescriptor) (h : SameDescriptors descs bs) :
    Follows (Refines store pins) SameSnapshot Alike
      (assemblePath store hooked (pinned pins) entryId descs)
      (assembleModel store hooked entryId bs) := by
  subst h
  unfold assemblePath assembleModel
  rw [List.getLast?_map, List.head?_map]
  cases descs.getLast? with
  | none => exact follows_raise (.inl rfl)
  | some first =>
    cases descs.head? with
    | none => exact follows_raise (.inl rfl)
    | some last =>
      dsimp only [Option.map_some]
      split
      · exact follows_raise (.inl rfl)
      · split
        · have hwhole : ∀ (state : FileDescriptor) (b : TokenFileDescriptor),
              SameDescriptor state b → SameDescriptors (descs.reverse ++ [state])
                ((descs.map (·.toTokenFileDescriptor)).reverse ++ [b]) := by
            intro state b hstate
            unfold SameDescriptors
            rw [List.map_append, List.map_reverse, List.map_singleton, hstate]
          refine ((follows_statePath entryId last.spanTokens).bind fun state b hstate ↦
            follows_snapshotPath entryId last.spanTokens (hwhole state b hstate)).congr fun s ↦ ?_
          unfold Model.andThen
          dsimp only
          rcases stateFile store.config hooked s entryId last.spanTokens with ⟨s', _ | b⟩ <;> rfl
        · refine follows_snapshotPath entryId last.spanTokens ?_
          exact List.map_reverse

/-- `_chain` on a root is that on whole files. -/
theorem follows_chainPath (entryId : Digest) :
    Follows (Refines store pins) SameSnapshot Alike
      (chainPath store hooked (pinned pins) entryId)
      fun s ↦ chain store.config hooked s entryId := by
  unfold chainPath
  refine ((follows_dataChainPath entryId).bind (follows_assemblePath entryId)).congr fun s ↦ ?_
  unfold Model.andThen chain
  dsimp only
  rcases dataChain store.config hooked s entryId with ⟨s', _ | bs⟩ <;> rfl

/-- `lookup` on a root is that on whole files. -/
theorem follows_lookupPath (entryId : Digest) :
    Follows (Refines store pins) SameHit Alike (lookupPath store hooked (pinned pins) entryId)
      fun s ↦ lookup store.config hooked s entryId := by
  have hmiss : ∀ e e', Alike e e' → Follows (Refines store pins) SameHit Alike
      (if isStorageError e then pure none else .raise e : DiskProgram (Option FileSnapshot))
      fun s ↦ if isStorageError e' then (s, .ok none) else (s, .error e') := by
    intro e e' h
    rw [h.storage_eq]
    split
    · exact follows_pure rfl
    · exact follows_raise h
  have hfound : ∀ (snapshot : FileSnapshot) (t : TokenSnapshot), SameSnapshot snapshot t →
      Follows (Refines store pins) SameHit Alike
        (pure (some snapshot) : DiskProgram (Option FileSnapshot)) fun s ↦ (s, .ok (some t)) :=
    fun _ _ h ↦ follows_pure (congrArg some h)
  unfold lookupPath
  refine (((follows_chainPath entryId).bind hfound).handle hmiss).congr fun s ↦ ?_
  unfold Model.orElse Model.andThen lookup
  dsimp only
  rcases chain store.config hooked s entryId with ⟨s', e | t⟩
  · cases e <;> rfl
  · rfl

/-! ### Checked captures -/

/-- The body of `valid_chunk` returns a descriptor where the model does, and raises where the model
rejects the file. -/
theorem settles_authenticateKey (hooked : Bool) (h : Refines store pins d s) (key : Digest)
    (header : TokenHeader) :
    Settles (fun d' ↦ d' = d) (authenticateKey store key header)
      (fun r d' ↦ r.map (·.toTokenFileDescriptor) =
          (validChunk store.config hooked s key header).2 ∧
        Refines store pins d' (validChunk store.config hooked s key header).1)
      fun e d' ↦ Refines store pins d' s ∧
        (e = .fileNotFound ∧ validChunk store.config hooked s key header = (s, none) ∨
          (∃ m, e = .manifestError m) ∧
            validChunk store.config hooked s key header = (quarantineBad hooked s key, none)) := by
  unfold authenticateKey
  refine Settles.bind ((settles_openPath h key false).mono (fun _ hd ↦ hd) (fun _ _ h ↦ h) ?_)
    fun r d' ⟨hd, _, hopen, hauth⟩ ↦ ?_
  · rintro e d' ⟨rfl, e', hopen, herrors⟩
    refine ⟨h, ?_⟩
    unfold validChunk
    rw [hopen]
    cases herrors with
    | missing => exact .inl ⟨rfl, rfl⟩
    | invalid m m' => exact .inr ⟨⟨m, rfl⟩, rfl⟩
  · refine Settles.bind (P := fun d ↦ Refines store pins d s) (X := fun _ d' ↦
      some r.1.toTokenFileDescriptor = (validChunk store.config hooked s key header).2 ∧
        Refines store pins d' (validChunk store.config hooked s key header).1) ?_
      (fun _ ↦ settles_pure fun _ h ↦ h) d' (hd ▸ h)
    refine Settles.always ?_ (fun _ ↦ returns_update fun _ h ↦ h) fun _ ↦ returns_update fun _ h ↦ h
    split
    · next hdiffers =>
      refine settles_raise fun d'' h' ↦ ⟨h', .inr ⟨⟨_, rfl⟩, ?_⟩⟩
      unfold validChunk
      rw [hopen]
      dsimp only
      rw [if_pos hdiffers]
    · next hsame =>
      refine (settles_authenticatePath r.1 r.2).mono (fun _ h ↦ h) ?_ ?_
      · rintro _ d'' ⟨hyes, h'⟩
        unfold validChunk
        rw [hopen]
        dsimp only
        rw [if_neg hsame, hauth, hyes, if_neg Bool.true_eq_false_eq_False]
        exact ⟨rfl, h'⟩
      · rintro e d'' ⟨hno, hmanifest, h'⟩
        refine ⟨h', .inr ⟨hmanifest, ?_⟩⟩
        unfold validChunk
        rw [hopen]
        dsimp only
        rw [if_neg hsame, hauth, hno, if_pos rfl]

/-- `valid_chunk` on a root is that on whole files. -/
theorem returns_validPath (key : Digest) (header : TokenHeader) :
    Returns (fun d ↦ Refines store pins d s) (validPath store hooked (pinned pins) key header)
      fun r d ↦ r.map (·.toTokenFileDescriptor) = (validChunk store.config hooked s key header).2 ∧
        Refines store pins d (validChunk store.config hooked s key header).1 := by
  intro d h
  refine Settles.returns ((settles_authenticateKey hooked h key header).handle fun e ↦ ?_) d rfl
  rintro d' ⟨h', hvalid⟩
  rcases hvalid with ⟨rfl, hvalid⟩ | ⟨⟨m, rfl⟩, hvalid⟩
  · refine .inl ⟨none, d', rfl, ?_⟩
    rw [hvalid]
    exact ⟨rfl, h'⟩
  · rw [hvalid]
    exact (Returns.bind (returns_quarantineBadPath key) fun _ ↦
      returns_pure fun _ h ↦ ⟨rfl, h⟩).settles d' h'

/-! ### Absent keys and recovery -/

/-- A sync of the directory changes nothing in the rank. -/
theorem returns_fsyncManifestAbsence (key : Digest) :
    Returns (fun d ↦ Refines store pins d s) (fsyncManifestAbsence key)
      fun _ d ↦ Refines store pins d s := by
  unfold fsyncManifestAbsence
  refine Returns.bind (X := fun _ d ↦ Refines store pins d s)
    (returns_look fun d h ↦ ⟨_, rfl, h⟩) fun there ↦ ?_
  split
  · exact returns_fsyncShard key
  · exact returns_update fun _ h ↦ h.of_views (fun _ ↦ rfl) fun _ ↦ rfl

/-- `recover` changes nothing that operations on whole files see. -/
theorem returns_recover :
    Returns (fun d ↦ Refines store pins d s) recover fun _ d ↦ Refines store pins d s := by
  intro d h
  obtain ⟨t, hrun, -⟩ := recover_run d
  exact ⟨_, _, hrun, h.of_views (fun _ ↦ rfl) fun _ ↦ rfl⟩

/-! ### Publications -/

private theorem Refines.set (h : Refines store pins d s) {f : DiskFile} {file : TokenFile}
    (hf : ∀ k, d'.files.get? k = if k = key then some f else d.files.get? k)
    (hshows : Shows store key f file) (hm : ∀ k, d'.markers.get? k = d.markers.get? k) :
    Refines store pins d' { s with files := s.files.set key file } := by
  refine ⟨fun k ↦ ?_, fun k ↦ (hm k).trans (h.markers k), h.pins⟩
  change Option.Rel _ _ ((s.files.set key file).get? k)
  rw [OrderedDict.get?_set, hf k]
  split
  · next hk => exact .some (hk ▸ hshows)
  · exact h.files k

variable {header : TokenHeader} {input : CommitInput} {data : Bytes}

/-- The checks of a publication pass for every file that was published. -/
theorem headerChecks_of_file (h : FileOf store key header input data) :
    (Store.headerPayload store.config key header >>= fun _ ↦
      Store.encodeHeader store.config header) = .ok () := by
  obtain ⟨payload, p, encoded, -, hheader, hencode, -⟩ := h
  have hp := (TokenFileStore.commitHeader_ok hheader).1
  have hsegments := (TokenFileStore.headerPayload_ok hp).1
  have hwidth := TokenFileStore.length_canonicalJson_headerPayload hp
  unfold TokenFileStore.encodeHeader at hencode
  dsimp only at hencode
  split at hencode
  · cases hencode
  · next hfits =>
    have haccepted : store.HeaderAccepted key header := ⟨⟨_, hsegments⟩, by omega⟩
    rw [hsegments, ok_bind]
    exact haccepted.encodeHeader

/-- A file of these bytes in the model. -/
def publishedFile (header : TokenHeader) (data : Bytes) : TokenFile :=
  ⟨some header, true, 0, data.length, (sha256 data).toNat⟩

/-- A state with this file at the path of a key. -/
def RankState.withFile (s : RankState) (key : Digest) (header : TokenHeader) (data : Bytes) :
    RankState := { s with files := s.files.set key (publishedFile header data) }

/-- What the environment decides in a publication of these bytes. -/
def oracleOf (outcome : PublishOutcome) (data : Bytes) : PublishOracle :=
  ⟨fun _ ↦ outcome, fun _ ↦ 0, fun _ ↦ data.length, fun _ ↦ (sha256 data).toNat⟩

private theorem shows_of_file (h : FileOf store key header input data) :
    Shows store key ⟨data, true⟩ (publishedFile header data) := by
  obtain ⟨payload, desc, -, hopen, -, hparent, hspan, hkind, hdrop, hauth⟩ := h.opens
  rw [TokenFileStore.openBytes_eq_openData] at hopen
  refine ⟨0, ?_⟩
  unfold tokenFile
  rw [hopen]
  dsimp only
  rw [hdrop, hauth, hparent, hspan, hkind]
  rfl

private theorem Refines.landed (h : Refines store pins d s) (hlanded : Landed d key data d')
    (hfile : FileOf store key header input data) :
    Refines store pins { d' with markers := d.markers } (s.withFile key header data) :=
  h.set hlanded.files (shows_of_file hfile) fun _ ↦ rfl

/-- A root on which a publication has made its key visible shows the file without a marker. -/
theorem Refines.visible (h : Refines store pins d s) (hvisible : Visible d key data d')
    (hfile : FileOf store key header input data) :
    Refines store pins d' (clearWithdrawal (s.withFile key header data) key) := by
  refine (h.landed hvisible.toLanded hfile).clear (fun _ ↦ rfl) fun k ↦ ?_
  split
  · next hk =>
    rw [hk]
    exact hvisible.unmarked
  · next hk => exact hvisible.markers k hk

private theorem Refines.free (h : Refines store pins d s) (hlanded : Landed d key data d') :
    key ∉ s.files.keys := by
  rw [h.mem_files, hlanded.free]
  exact Bool.false_ne_true

private theorem publishChunk_published (hooked : Bool) (hfile : FileOf store key header input data)
    (hfree : key ∉ s.files.keys) :
    publishChunk store.config hooked (oracleOf .published data) s key header =
      (clearWithdrawal (s.withFile key header data) key,
        openChunk store.config (clearWithdrawal (s.withFile key header data) key) key false) := by
  unfold publishChunk
  rw [headerChecks_of_file hfile]
  dsimp only
  rw [if_neg hfree]
  rfl

private theorem publishChunk_failed (hooked : Bool) (hfile : FileOf store key header input data)
    (hfree : key ∉ s.files.keys) :
    ∃ e, publishChunk store.config hooked (oracleOf .failsAfterLink data) s key header =
      (recordWithdrawal hooked (markWithdrawn (s.withFile key header data) key) key, .error e) := by
  unfold publishChunk
  rw [headerChecks_of_file hfile]
  dsimp only
  rw [if_neg hfree]
  exact ⟨_, rfl⟩

/-- A publication of the model that fails before its link changes nothing. -/
theorem publishChunk_unlinked (config : StoreConfig) (hooked : Bool) (data : Bytes) (s : RankState)
    (key : Digest) (header : TokenHeader) :
    ∃ e, publishChunk config hooked (oracleOf .failsBeforeLink data) s key header =
      (s, .error e) := by
  unfold publishChunk
  split
  · exact ⟨_, rfl⟩
  · split
    · exact ⟨_, rfl⟩
    · exact ⟨_, rfl⟩

/-- What an error leaves of a publication is what the model makes of it. -/
theorem Undone.refines (hundone : Undone store key header input d d')
    (h : Refines store pins d s) (hooked : Bool) :
    ∃ oracle e s', publishChunk store.config hooked oracle s key header = (s', .error e) ∧
      Refines store pins d' s' := by
  rcases hundone with ⟨hfiles, hmarkers⟩ | ⟨data, hfile, hlanded, hmarked⟩
  · obtain ⟨e, he⟩ := publishChunk_unlinked store.config hooked [] s key header
    exact ⟨_, e, s, he, h.of_views (fun _ ↦ by rw [hfiles]) fun _ ↦ by rw [hmarkers]⟩
  · obtain ⟨e, he⟩ := publishChunk_failed hooked hfile (h.free hlanded)
    have hmark : Refines store pins d' (markWithdrawn (s.withFile key header data) key) := by
      refine (h.landed hlanded hfile).mark (fun _ ↦ rfl) fun k ↦ ?_
      split
      · next hk =>
        rw [hk]
        exact Option.ne_none_iff_exists'.mp hmarked |>.elim fun _ h ↦ h
      · next hk => exact hlanded.markers k hk
    exact ⟨_, e, _, he, hmark.record hooked key⟩

/-- What a commit ends with, beside the answer of the model. A call that fails after the marker has
been cleared makes the commit raise, but its key is published. -/
def CommitAnswers (faults : List Fault) (r : Except PyError TokenFileDescriptor) :
    Outcome PyError FileDescriptor → Prop
  | .returned desc => r = .ok desc.toTokenFileDescriptor
  | .raised _ => (∃ e, r = .error e) ∨ .fail ∈ faults
  | .crashed => False

private theorem under_reopenPublished {calm : Prop} {f : DiskFile} {desc : FileDescriptor}
    (hmarker : d.markers.get? key = none) (hfile : d.files.get? key = some f)
    (hopen : store.openData key f.data = .ok desc) :
    Under calm (fun d' ↦ d' = d) (reopenPublished store key) (fun r _ ↦ r = desc)
      (fun _ _ ↦ ¬ calm) fun _ ↦ True := by
  have hgate : Under calm (fun d' ↦ d' = d) (withdrawalGate key false)
      (fun withdrawn d' ↦ withdrawn = false ∧ d' = d) (fun _ _ ↦ ¬ calm) fun _ ↦ True := by
    change Under calm _ (inventoryIsWithdrawn key) _ _ _
    refine under_look (fun d' withdrawn hd hw ↦ ⟨?_, hd⟩) (fun _ e _ h ↦ by cases h)
      (fun _ _ h ↦ h) fun _ _ ↦ trivial
    rw [hd, hmarker] at hw
    cases hw
    rfl
  have hclose : Under calm (fun d' ↦ d' = d) closeFile (fun _ d' ↦ d' = d) (fun _ _ ↦ ¬ calm)
      fun _ ↦ True := under_update (fun _ h ↦ h) (fun _ _ h ↦ h) fun _ _ ↦ trivial
  unfold reopenPublished openPath
  refine hclose.bind fun _ ↦ Under.bind (X := fun r d' ↦ r.1 = desc ∧ d' = d) (hgate.bind
    fun withdrawn ↦ under_of_fact fun hwithdrawn ↦ ?_) fun r ↦ under_of_fact fun hr ↦
    hclose.bind fun _ ↦ under_pure fun _ _ ↦ hr
  rw [hwithdrawn, if_neg Bool.false_ne_true]
  refine under_look (fun d' r hd hr ↦ ?_) (fun d' e hd he ↦ ?_) (fun _ _ h ↦ h) fun _ _ ↦ trivial
  · rw [hd, hfile] at hr
    dsimp only at hr
    rw [hopen] at hr
    cases hr
    exact ⟨rfl, hd⟩
  · rw [hd, hfile] at he
    dsimp only at he
    rw [hopen] at he
    cases he

/-- A commit in which at most one call fails does what the model does for some choice of its
environment. -/
theorem commit_refines (h : Refines store pins d s) (hooked : Bool) (env : PublishEnv)
    {faults : List Fault} (hone : faults.count .fail ≤ 1)
    (hends : (commit store env key header input ⟨faults, d⟩).1 ≠ .crashed) :
    ∃ oracle,
      Refines store pins (commit store env key header input ⟨faults, d⟩).2.state
        (publishChunk store.config hooked oracle s key header).1 ∧
      CommitAnswers faults (publishChunk store.config hooked oracle s key header).2
        (commit store env key header input ⟨faults, d⟩).1 := by
  have hunfenced : Ends (fun m' ↦ m'.fails = faults.count .fail ∧ Untouched d m'.state)
      (commitUnfenced store env key header input)
      (fun _ m' ↦ Released store key header input d m'.state)
      fun m' ↦ faults.count .fail ≤ 1 → Undone store key header input d m'.state :=
    ends_commitUnfenced
  have hstages := hunfenced ⟨faults, d⟩ ⟨rfl, rfl, rfl⟩
  have hstrict := @strict_commitUnfenced store env key header input (faults.count .fail)
    ⟨faults, d⟩ rfl
  rw [commit_eq] at hends ⊢
  generalize hrun : commitUnfenced store env key header input ⟨faults, d⟩ = out at hstages hstrict
  obtain ⟨o, m⟩ := out
  cases o with
  | returned u =>
    obtain ⟨data, hfile, hvisible⟩ := hstages.1 u rfl
    have hcount : m.fails = faults.count .fail := hstrict.1 u rfl
    obtain ⟨payload, desc, -, hopen, -⟩ := hfile.opens
    rw [TokenFileStore.openBytes_eq_openData] at hopen
    have hthere : m.state.files.get? key = some ⟨data, true⟩ :=
      (hvisible.files key).trans (if_pos rfl)
    have hpublished := h.visible hvisible hfile
    have hgate : ¬ (false = false ∧
        key ∈ (clearWithdrawal (s.withFile key header data) key).markers.keys) := by
      rw [hpublished.mem_markers, hvisible.unmarked]
      exact fun h ↦ absurd h.2 Bool.false_ne_true
    have hanswer := (openChunk_of_openData hpublished hgate hthere hopen).1
    have hcalm : .fail ∉ faults → .fail ∉ m.faults := fun hcalm ↦
      List.count_eq_zero.mp (hcount.trans (List.count_eq_zero.mpr hcalm))
    obtain ⟨-, hreturn, hraise, -⟩ := @under_reopenPublished store m.state key (.fail ∉ faults) _ _
      hvisible.unmarked hthere hopen m ⟨hcalm, rfl⟩
    rw [bind_of_returned hrun] at hends ⊢
    refine ⟨oracleOf .published data, ?_⟩
    rw [publishChunk_published hooked hfile (h.free hvisible.toLanded), state_reopenPublished]
    refine ⟨hpublished, ?_⟩
    dsimp only
    rw [hanswer]
    generalize (reopenPublished store key m).1 = o at hends hreturn hraise
    cases o with
    | returned r =>
      rw [hreturn r rfl]
      rfl
    | raised e => exact .inr (not_not.mp (hraise e rfl))
    | crashed => exact absurd rfl hends
  | raised e =>
    obtain ⟨oracle, e', s', hmodel, hrefines⟩ := (hstages.2 e rfl hone).refines h hooked
    rw [bind_of_raised hrun]
    refine ⟨oracle, ?_⟩
    rw [hmodel]
    exact ⟨hrefines, .inl ⟨e', rfl⟩⟩
  | crashed =>
    refine absurd ?_ hends
    change (andThen (commitUnfenced store env key header input) _ _).1 = _
    unfold andThen
    rw [hrun]

end

end SpoolCache.Store

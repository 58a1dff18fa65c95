import SpoolCache.Store.Fencing
import SpoolCache.Store.HeaderBounds
import SpoolCache.Store.StreamCommit

/-!
# Publications cut off or failed

`commit_chunk` and `commit_stream`, `token_files.py:353–452`, followed by a crash and `recover`,
`token_files.py:798–823`. A path has its old file or a complete one, a commit that returned is
durable, and one error before the marker has been cleared leaves opens what they were.
-/

namespace SpoolCache.Store

open SpoolCache.Base SpoolCache.Layout SpoolCache.Base.Program

/-! ### Recovery -/

/-- The root, but for its temporaries, of which these are left. -/
def Swept (start : Disk) (names : List Nat) (d : Disk) : Prop :=
  ∃ t, d = { start with tmp := t } ∧ t.names = names

private theorem names_remove {t : Directory Nat DiskFile} {nonce : Nat} {rest : List Nat}
    (h : t.names = nonce :: rest) : (t.remove nonce).names = rest := by
  have hnodup : (nonce :: rest).Nodup := h ▸ t.entries.nodup_keys
  change (t.entries.erase nonce).keys = rest
  rw [OrderedDict.keys_erase]
  change (t.names.filter fun a ↦ decide (a ≠ nonce)) = rest
  rw [h, List.filter_cons_of_neg (by simp)]
  apply List.filter_eq_self.mpr
  intro a ha
  have hne : a ≠ nonce := by
    rintro rfl
    exact (List.nodup_cons.mp hnodup).1 ha
  simpa using hne

private theorem returns_removeParts (start : Disk) (nonces rest : List Nat) :
    Returns (Swept start (nonces ++ rest)) (removeParts nonces) fun _ ↦ Swept start rest := by
  induction nonces with
  | nil => exact returns_pure fun _ h ↦ h
  | cons nonce nonces ih =>
    refine Returns.bind (X := fun _ ↦ Swept start (nonces ++ rest)) (returns_update ?_) fun _ ↦ ih
    rintro d ⟨t, rfl, hnames⟩
    have hmem : nonce ∈ t.entries.keys := by
      change nonce ∈ t.names
      rw [hnames]
      exact List.mem_cons_self
    obtain ⟨f, hf⟩ := (OrderedDict.mem_keys_iff _ _).mp hmem
    have hsome : (t.get? nonce).isSome := by
      rw [Directory.get?, hf]
      rfl
    rw [if_pos hsome]
    exact ⟨t.remove nonce, rfl, names_remove hnames⟩

/-- Each round takes some of the names that are left, so that rounds suffice. -/
theorem returns_recoverRounds (start : Disk) (rounds : Nat) {names : List Nat}
    (h : names.length < rounds) :
    Returns (Swept start names) (recoverRounds rounds)
      fun removed d ↦ removed = names.length ∧ Swept start [] d := by
  induction rounds generalizing names with
  | zero => exact absurd h (Nat.not_lt_zero _)
  | succ rounds ih =>
    unfold recoverRounds
    refine Returns.bind (X := fun batch d ↦ batch = names.take 64 ∧ Swept start names d)
      (returns_call ?_) fun batch ↦ ?_
    · rintro d ⟨t, rfl, hnames⟩
      refine ⟨names.take 64, { start with tmp := t }, ?_, rfl, t, rfl, hnames⟩
      change (Except.ok (t.names.take 64), _) = _
      rw [hnames]
    · split
      · next hempty =>
        refine returns_pure fun d hd ↦ ?_
        have hnil : names = [] := by
          rw [hempty] at hd
          have := congrArg List.length hd.1
          rw [List.length_take, List.length_nil] at this
          exact List.length_eq_zero_iff.mp (by omega)
        rw [hnil] at hd ⊢
        exact ⟨rfl, hd.2⟩
      · next hne =>
        have hbatch : ∀ d, batch = names.take 64 ∧ Swept start names d →
            Swept start (batch ++ names.drop 64) d ∧ batch = names.take 64 := by
          rintro d ⟨hb, hd⟩
          rw [hb, List.take_append_drop]
          exact ⟨hd, rfl⟩
        intro d hd
        obtain ⟨hd, hb⟩ := hbatch d hd
        have hpos : 0 < batch.length := List.length_pos_iff.mpr hne
        have hlen : batch.length = min 64 names.length := by rw [hb, List.length_take]
        have hrest : (names.drop 64).length < rounds := by
          rw [List.length_drop]
          omega
        refine Returns.bind (returns_removeParts start batch (names.drop 64)) (fun _ ↦
          Returns.bind (ih hrest) fun removed ↦ returns_pure fun d h ↦ ?_) d hd
        refine ⟨?_, h.2⟩
        rw [h.1, hlen, List.length_drop]
        omega

/-- Undisturbed, `recover` takes away every temporary and nothing else, and counts them. -/
theorem recover_run (d : Disk) : ∃ t, recover ⟨[], d⟩ =
    (.returned d.tmp.names.length, ⟨[], { d with tmp := t }⟩) ∧ t.names = [] := by
  have hrounds := returns_recoverRounds d (d.tmp.names.length + 1) (Nat.lt_succ_self _)
  have hall : Returns (Swept d d.tmp.names) (do
      let removed ← recoverRounds (d.tmp.names.length + 1)
      if removed = 0 then pure 0
      else do
        fsyncTmp
        pure removed : DiskProgram Nat)
      fun removed d' ↦ removed = d.tmp.names.length ∧ Swept d [] d' := by
    refine Returns.bind hrounds fun removed ↦ ?_
    split
    · next hzero => exact returns_pure fun d' h ↦ ⟨hzero ▸ h.1, h.2⟩
    · refine Returns.bind (X := fun _ d' ↦ removed = d.tmp.names.length ∧ Swept d [] d')
        (returns_update ?_) fun _ ↦ returns_pure fun _ h ↦ h
      rintro d' ⟨hremoved, t, rfl, hnames⟩
      exact ⟨hremoved, t.sync, rfl, hnames⟩
  obtain ⟨removed, d', hrun, rfl, t, rfl, hnames⟩ := hall d ⟨d.tmp, rfl, rfl⟩
  exact ⟨t, hrun, hnames⟩

/-! ### What a crash leaves of a publication -/

section

variable {store : TokenFileStore} {key : Digest} {header : TokenHeader} {input : CommitInput}

private theorem tolerant_publishing (start : Disk) :
    Tolerant store key header input (Publishing store key header input start) where
  toLax := Publishing.lax
  syncShard _ part h := h.syncShard part
  markers _ _ _ h := ⟨h.own, h.others, h.shards⟩
  link _ _ j h hfile := h.link hfile j

/-- A synced file survives a crash as it is. -/
theorem decays_synced {f : DiskFile} (hf : f.synced = true) {v : Option DiskFile}
    (h : Option.Rel DiskFile.Decays (some f) v) : v = some f := by
  cases h with
  | some hdecay =>
    obtain ⟨hsynced, hdata⟩ := hdecay
    exact congrArg some (DiskFile.mk.injEq _ _ _ _ |>.mpr ⟨hdata hf, hsynced.trans hf.symm⟩)

private theorem decays_none {v : Option DiskFile} (h : Option.Rel DiskFile.Decays none v) : v =
      none := by
  cases h
  rfl

/-- Whatever a crash leaves, the shard of the key is there. -/
def ShardKept (key : Digest) (d : Disk) : Prop := ∀ v, d.manifests.Possible (shard key) v → v ≠ none

private theorem ShardKept.crash {d d' : Disk} {k : Digest} (h : ShardKept k d) (hc : d.Crash d') :
    d'.manifests.get? (shard k) ≠ none := by
  intro hgone
  obtain ⟨v, hv, hrel⟩ := hc.manifests.2 (shard k)
  rw [hgone] at hrel
  cases v with
  | some _ => cases hrel
  | none => exact h _ hv rfl

/-- A path that had a file from before still has it. -/
theorem crash_settled {start d d' : Disk} (hstart : start.Settled) (hc : d.Crash d') {k : Digest}
    (hfiles : ∀ v, d.files.Possible k v → v = start.files.get? k)
    (hshards : ∀ x, (∀ v, start.manifests.Possible x v → v ≠ none) →
      ∀ v, d.manifests.Possible x v → v ≠ none) :
    d'.files.get? k = start.files.get? k := by
  cases hk : start.files.get? k with
  | none =>
    rcases hc.files k with ⟨hnone, -⟩ | ⟨v, hv, hdecay⟩
    · exact hnone
    · rw [hfiles v hv, hk] at hdecay
      exact decays_none hdecay
  | some f =>
    rcases hc.files k with ⟨-, hgone⟩ | ⟨v, hv, hdecay⟩
    · have hkept : ShardKept k d := hshards _ (hstart.shards k f hk)
      exact absurd hgone (hkept.crash hc)
    · rw [hfiles v hv, hk] at hdecay
      exact decays_synced (hstart.synced k f hk) hdecay

/-- After a crash the path of the key is as before or has the file, and other paths are as
before. -/
theorem Publishing.crash {start d d' : Disk} (hstart : start.Settled)
    (h : Publishing store key header input start d) (hc : d.Crash d') :
    (d'.files.get? key = start.files.get? key ∨ Linked store key header input d') ∧
      ∀ k, k ≠ key → d'.files.get? k = start.files.get? k := by
  refine ⟨?_, fun k hk ↦ crash_settled hstart hc (h.others k hk) h.shards⟩
  by_cases hold : ∀ v, d.files.Possible key v → v = start.files.get? key
  · exact .inl (crash_settled hstart hc hold h.shards)
  · rcases hc.files key with ⟨hnone, hgone⟩ | ⟨v, hv, hdecay⟩
    · refine .inl ?_
      cases hk : start.files.get? key with
      | none => exact hnone
      | some f =>
        have hkept : ShardKept key d := h.shards _ (hstart.shards key f hk)
        exact absurd hgone (hkept.crash hc)
    · rcases h.own v hv with rfl | ⟨data, rfl, hfile⟩
      · refine .inl ?_
        cases hk : start.files.get? key with
        | none =>
          rw [hk] at hdecay
          exact decays_none hdecay
        | some f =>
          rw [hk] at hdecay
          exact decays_synced (hstart.synced key f hk) hdecay
      · exact .inr ⟨data, decays_synced rfl hdecay, hfile⟩

end

/-! ### Stages of a publication -/

/-- Before the link: only temporaries and shards have changed. -/
def Untouched (start d : Disk) : Prop := d.files = start.files ∧ d.markers = start.markers

/-- After the link: the path of the key, which was free, has the file. -/
structure Landed (start : Disk) (key : Digest) (data : Bytes) (d : Disk) : Prop where
  free : start.files.get? key = none
  files : ∀ k, d.files.get? k = if k = key then some ⟨data, true⟩ else start.files.get? k
  markers : ∀ k, k ≠ key → d.markers.get? k = start.markers.get? k
  shard : ShardKept key d

/-- The link is durable, and no marker has changed. -/
structure Sealed (start : Disk) (key : Digest) (data : Bytes) (d : Disk) : Prop
    extends Landed start key data d where
  durable : ∀ v, d.files.Possible key v → v = some ⟨data, true⟩
  unchanged : d.markers = start.markers

/-- The key is published: its path has the file for good, and its marker is gone. -/
structure Visible (start : Disk) (key : Digest) (data : Bytes) (d : Disk) : Prop
    extends Landed start key data d where
  durable : ∀ v, d.files.Possible key v → v = some ⟨data, true⟩
  unmarked : d.markers.get? key = none
  cleared : (∀ v, start.markers.Possible key v → v = start.markers.get? key) →
    ∀ v, d.markers.Possible key v → v = none

section

variable {start : Disk} {key : Digest} {data : Bytes}

private theorem lax_untouched (start : Disk) : Lax (Untouched start) where
  tmp _ _ h := h
  putShard _ _ h := h
  syncManifests _ h := h

private theorem Landed.tmp {d : Disk} (h : Landed start key data d) (t : Directory Nat DiskFile) :
    Landed start key data { d with tmp := t } := ⟨h.free, h.files, h.markers, h.shard⟩

private theorem Landed.syncShard {d : Disk} (h : Landed start key data d) (part : Digest → Bool) :
    Landed start key data { d with files := d.files.syncWhere part } :=
  ⟨h.free, fun k ↦ (Directory.get?_syncWhere _ _ _).trans (h.files k), h.markers, h.shard⟩

/-- The marker of the key itself may change. -/
theorem Landed.marker {d : Disk} (h : Landed start key data d) {m : Directory Digest Unit}
    (hm : ∀ k, k ≠ key → m.get? k = d.markers.get? k) (j : List KeyEvent) :
    Landed start key data { d with markers := m, journal := j } :=
  ⟨h.free, h.files, fun k hk ↦ (hm k hk).trans (h.markers k hk), h.shard⟩

/-! ### What opens accept -/

variable {store : TokenFileStore}

private theorem accepts_of_untouched {d : Disk} (h : Untouched start d) (k : Digest) :
    d.Accepts store k ↔ start.Accepts store k := by
  unfold Disk.Accepts
  rw [h.1, h.2]

/-- A file that its marker hides leaves opens what they were. -/
theorem accepts_of_marked {d : Disk} (h : Landed start key data d)
    (hm : d.markers.get? key ≠ none) (k : Digest) :
    d.Accepts store k ↔ start.Accepts store k := by
  unfold Disk.Accepts
  by_cases hk : k = key
  · subst hk
    rw [h.free]
    exact ⟨fun ha ↦ absurd ha.1 hm, fun ⟨_, _, _, ha, _⟩ ↦ by cases ha⟩
  · rw [h.files, if_neg hk, h.markers k hk]

/-- A published key is accepted besides those that were. -/
theorem accepts_of_visible {d : Disk} (h : Visible start key data d)
    (hfile : store.Complete key data) (k : Digest) :
    d.Accepts store k ↔ k = key ∨ start.Accepts store k := by
  unfold Disk.Accepts
  by_cases hk : k = key
  · subst hk
    obtain ⟨desc, hopen, -⟩ := hfile
    rw [h.files, if_pos rfl]
    exact ⟨fun _ ↦ .inl rfl, fun _ ↦ ⟨h.unmarked, ⟨data, true⟩, desc, rfl, hopen⟩⟩
  · rw [h.files, if_neg hk, h.markers k hk]
    exact ⟨.inr, fun ha ↦ ha.resolve_left hk⟩

end

/-! ### Programs that return met no failing call -/

section

variable {store : TokenFileStore}

private theorem strict_writeVector (nonce : Nat) (counts : List Nat) (offset : Nat) (data : Bytes) :
    Strict (writeVector nonce counts offset data) := by
  induction counts generalizing offset data with
  | nil =>
    unfold writeVector
    split
    · exact strict_pure _
    · exact strict_call _ _
  | cons count counts ih =>
    unfold writeVector
    split
    · exact strict_pure _
    · split
      · exact strict_raise _
      · exact Strict.bind (strict_call _ _) fun _ ↦ ih _ _

private theorem strict_writePieces (env : PublishEnv) (pieces : List (Except PyError Bytes))
    (index offset remaining : Nat) (written : List Bytes) :
    Strict (writePieces store env pieces index offset remaining written) := by
  induction pieces generalizing index offset remaining written with
  | nil => exact strict_pure _
  | cons piece pieces ih =>
    cases piece with
    | error e => exact strict_raise _
    | ok piece =>
      unfold writePieces
      dsimp only
      split
      · exact strict_raise _
      · exact Strict.bind (strict_writeVector _ _ _ _) fun _ ↦
          Strict.bind (strict_call _ _) fun _ ↦ ih _ _ _ _

private theorem strict_writeStream (env : PublishEnv) (p : HeaderPayload)
    (pieces : List (Except PyError Bytes)) (encoded : Bytes) :
    Strict (writeStream store env p pieces encoded) := by
  unfold writeStream
  refine Strict.bind (strict_writeVector _ _ _ _) fun _ ↦
    Strict.bind (strict_writePieces env _ _ _ _ _) ?_
  rintro ⟨written, remaining⟩
  dsimp only
  split
  · exact strict_raise _
  · refine Strict.bind (strict_ofExcept _) fun final ↦ ?_
    split
    · exact strict_raise _
    · exact strict_writeVector _ _ _ _

private theorem strict_prepareTemporary (env : PublishEnv) (key : Digest) {write : DiskProgram Unit}
    (hwrite : Strict write) : Strict (prepareTemporary env key write) := by
  unfold prepareTemporary ensureShardDirectory
  exact Strict.bind hwrite fun _ ↦ Strict.bind (strict_call _ _) fun _ ↦
    Strict.bind (strict_call _ _) fun _ ↦ Strict.bind (strict_call _ _) fun _ ↦ strict_call _ _

private theorem strict_inventoryIsWithdrawn (key : Digest) : Strict (inventoryIsWithdrawn key) :=
  strict_call _ _

private theorem strict_publishTemporary (env : PublishEnv) (key : Digest) {write : DiskProgram Unit}
    (hwrite : Strict write) : Strict (publishTemporary env key write) := by
  have hlink : Strict (writeAndLink env key write) :=
    Strict.bind (strict_prepareTemporary env key hwrite) fun _ ↦ strict_call _ _
  have hretire : Strict (retireTemporary env key) :=
    Strict.bind (strict_call _ _) fun _ ↦ Strict.bind (strict_call _ _) fun _ ↦
      Strict.bind (strict_call _ _) fun _ ↦ strict_call _ _
  have hclear : Strict (clearInventoryWithdrawal key) := by
    refine Strict.bind (strict_inventoryIsWithdrawn key) fun present ↦ ?_
    split
    · exact Strict.bind (strict_call _ _) fun _ ↦ strict_call _ _
    · exact strict_pure _
  unfold publishTemporary
  exact Strict.bind (hlink.onError _) fun _ ↦ Strict.bind (hretire.onError _) fun _ ↦
    hclear.onError _

private theorem strict_publishUnfenced (env : PublishEnv) (key : Digest) (p : HeaderPayload)
    {write : Bytes → DiskProgram Unit} (hwrite : ∀ encoded, Strict (write encoded)) :
    Strict (publishUnfenced store env key p write) := by
  unfold publishUnfenced
  refine Strict.bind (strict_ofExcept _) fun encoded ↦ ?_
  refine Strict.bind (x := pathExists key) (strict_call _ _) fun there ↦ ?_
  split
  · exact strict_raise _
  · exact Strict.bind (strict_call _ _) fun _ ↦ strict_publishTemporary env key (hwrite encoded)

private theorem strict_reopenPublished (key : Digest) : Strict (reopenPublished store key) := by
  have hopen : Strict (openPath store key false) := by
    refine Strict.bind (strict_inventoryIsWithdrawn key) fun withdrawn ↦ ?_
    split
    · exact strict_raise _
    · exact strict_call _ _
  exact Strict.bind (strict_call _ _) fun _ ↦ Strict.bind hopen fun _ ↦
    Strict.bind (strict_call _ _) fun _ ↦ strict_pure _

/-- A publication that returns has met no failing call. -/
theorem strict_commitUnfenced (env : PublishEnv) (key : Digest) (header : TokenHeader)
    (input : CommitInput) : Strict (commitUnfenced store env key header input) := by
  cases input with
  | chunk payload =>
    exact Strict.bind (strict_ofExcept _) fun p ↦
      strict_publishUnfenced env key p fun encoded ↦ strict_writeVector _ _ _ _
  | stream pieces =>
    exact Strict.bind (strict_ofExcept _) fun p ↦
      strict_publishUnfenced env key p (strict_writeStream env p pieces)

private theorem strict_commit (env : PublishEnv) (key : Digest) (header : TokenHeader)
    (input : CommitInput) : Strict (commit store env key header input) := by
  rw [commit_eq]
  exact Strict.bind (strict_commitUnfenced env key header input) fun _ ↦ strict_reopenPublished key

end

/-! ### Stage by stage -/

section

variable {store : TokenFileStore} {env : PublishEnv} {key : Digest} {header : TokenHeader}
  {input : CommitInput} {start : Disk}

/-- The shard of the key is durable before the link. -/
theorem runs_prepareTemporary_shard (env : PublishEnv) (key : Digest) (write : DiskProgram Unit) :
    Runs (fun _ ↦ True) (fun _ ↦ True) (prepareTemporary env key write)
      fun _ ↦ ShardKept key := by
  have hany : ∀ x : DiskProgram Unit, Runs (fun _ ↦ True) (fun _ ↦ True) x fun _ _ ↦ True :=
    fun _ _ _ ↦ ⟨trivial, fun _ _ ↦ trivial⟩
  unfold prepareTemporary ensureShardDirectory
  refine Runs.bind (hany _) fun _ ↦ Runs.bind (hany _) fun _ ↦ Runs.bind (hany _) fun _ ↦
    Runs.bind (X := fun _ d ↦ d.manifests.get? (shard key) ≠ none)
      (runs_update fun d _ _ ↦ ⟨trivial, ?_⟩) fun _ ↦ runs_update fun d _ h ↦ ⟨trivial, ?_⟩
  · split
    · next hsome => exact Option.isSome_iff_ne_none.mp hsome
    · change (d.manifests.put (shard key) ()).get? (shard key) ≠ none
      rw [Directory.get?_put, if_pos rfl]
      exact Option.some_ne_none ()
  · intro v hv
    rw [Directory.possible_sync.mp hv]
    exact h

/-- The file is linked and its temporary is there; no marker has changed. -/
def Linking (env : PublishEnv) (key : Digest) (start : Disk) (data : Bytes) (d : Disk) : Prop :=
  Landed start key data d ∧ d.markers = start.markers ∧
    d.tmp.get? env.nonce = some ⟨data, true⟩

private theorem ends_linkTemporary {n : Nat} :
    Ends (fun m ↦ m.fails = n ∧ Prepared store env key header input m.state ∧
        Untouched start m.state ∧ ShardKept key m.state)
      (linkTemporary env.nonce key)
      (fun _ m ↦ m.fails = n ∧ ∃ data, FileOf store key header input data ∧
        Linking env key start data m.state)
      fun m ↦ Untouched start m.state := by
  refine ends_call (fun rest s h ↦ h.2.2.1) (fun m a s' h hcount hf ↦ ?_)
    fun m e s' h hcount hf ↦ ?_
  · obtain ⟨hn, ⟨data, htmp, hfile⟩, ⟨hfiles, hmarkers⟩, hshard⟩ := h
    rw [htmp] at hf
    split at hf
    · next f _ hfirst _ hfree =>
      cases hfirst
      cases hf
      refine ⟨hcount.trans hn, data, hfile, ⟨?_, ?_, ?_, hshard⟩, hmarkers, htmp⟩
      · rw [← hfiles]
        exact hfree
      · intro k
        change (m.state.files.put key ⟨data, true⟩).get? k = _
        rw [Directory.get?_put, hfiles]
      · intro k _
        change m.state.markers.get? k = _
        rw [hmarkers]
    · cases hf
    · cases hf
  · split at hf
    · cases hf
    · cases hf
      exact h.2.2.1
    · cases hf
      exact h.2.2.1

private theorem ends_writeAndLink {n : Nat} {write : DiskProgram Unit} (hstrict : Strict write)
    (hwrite : Writes store env key header input (Untouched start) write) :
    Ends (fun m ↦ m.fails = n ∧ Untouched start m.state ∧
        m.state.tmp.get? env.nonce = some ⟨[], false⟩)
      (writeAndLink env key write)
      (fun _ m ↦ m.fails = n ∧ ∃ data, FileOf store key header input data ∧
        Linking env key start data m.state)
      fun m ↦ Untouched start m.state := by
  have hprepare := (runs_prepareTemporary (lax_untouched start) hwrite).ends
  have hshard := (runs_prepareTemporary_shard env key write).ends
  have hcount := strict_prepareTemporary env key hstrict n
  unfold writeAndLink
  refine Ends.bind (((hcount.and hprepare).and hshard).mono ?_ ?_ ?_) fun _ ↦ ends_linkTemporary
  · exact fun m h ↦ ⟨⟨h.1, h.2⟩, trivial, trivial⟩
  · exact fun _ m h ↦ ⟨h.1.1, h.1.2.2, h.1.2.1, h.2.2⟩
  · exact fun m h ↦ h.1.2

/-- Only the environment makes the retirement of the temporary fail. -/
theorem robust_retireTemporary {data : Bytes} :
    Robust (Linking env key start data) (retireTemporary env key)
      (fun _ ↦ Sealed start key data) (Landed start key data) := by
  have hsync : ∀ d, Linking env key start data d →
      Linking env key start data { d with files := d.files.syncWhere fun k ↦ shard k = shard key } ∧
      Sealed start key data { d with files := d.files.syncWhere fun k ↦ shard k = shard key } := by
    intro d h
    refine ⟨⟨h.1.syncShard _, h.2⟩, h.1.syncShard _, fun v hv ↦ ?_, h.2.1⟩
    rcases hv.of_syncWhere with rfl | ⟨hpart, -⟩
    · rw [h.1.files, if_pos rfl]
    · simp at hpart
  unfold retireTemporary
  refine Robust.bind (X := fun _ ↦ Linking env key start data)
    (robust_update (fun d h ↦ h) fun d h ↦ h.1) fun _ ↦ ?_
  refine Robust.bind (X := fun _ d ↦ Linking env key start data d ∧ Sealed start key data d)
    (robust_update (fun d h ↦ hsync d h) fun d h ↦ h.1) fun _ ↦ ?_
  refine Robust.bind (X := fun _ ↦ Sealed start key data)
    (robust_call (fun d h ↦ ?_) fun d h ↦ h.1.1) fun _ ↦ ?_
  · refine ⟨(), { d with tmp := d.tmp.remove env.nonce }, ?_, ?_⟩
    · rw [h.1.2.2]
    · exact ⟨h.2.toLanded.tmp _, h.2.durable, h.2.unchanged⟩
  · exact robust_update (fun d h ↦ ⟨h.toLanded.tmp _, h.durable, h.unchanged⟩) fun d h ↦ h.toLanded

/-- Only the environment makes the marker stay. -/
theorem robust_clearInventoryWithdrawal {data : Bytes} :
    Robust (Sealed start key data) (clearInventoryWithdrawal key)
      (fun _ ↦ Visible start key data) (Landed start key data) := by
  unfold clearInventoryWithdrawal
  refine Robust.bind (X := fun present d ↦ Sealed start key data d ∧
    present = (d.markers.get? key).isSome) ?_ fun present ↦ ?_
  · unfold inventoryIsWithdrawn look
    exact robust_call (fun d h ↦ ⟨_, d, rfl, h, rfl⟩) fun d h ↦ h.toLanded
  split
  · refine Robust.bind (X := fun _ d ↦ Landed start key data d ∧
      (∀ v, d.files.Possible key v → v = some ⟨data, true⟩) ∧ d.markers.get? key = none)
      (robust_update (fun d h ↦ ⟨h.1.toLanded.marker (fun k hk ↦ ?_) _, h.1.durable, ?_⟩)
        fun d h ↦ h.1.toLanded) fun _ ↦ ?_
    · rw [Directory.get?_remove, if_neg hk]
    · exact (Directory.get?_remove _ _ _).trans (if_pos rfl)
    · refine robust_update (fun d h ↦ ?_) fun d h ↦ h.1
      refine ⟨h.1.marker (m := d.markers.sync) (fun _ _ ↦ rfl) _, h.2.1, h.2.2, fun _ v hv ↦ ?_⟩
      rw [Directory.possible_sync.mp hv]
      exact h.2.2
  · next hno =>
    refine robust_pure fun d h ↦ ?_
    have hnone : d.markers.get? key = none := by
      rw [← Option.not_isSome_iff_eq_none, ← h.2]
      exact hno
    refine ⟨h.1.toLanded, h.1.durable, hnone, fun hsettled v hv ↦ ?_⟩
    rw [h.1.unchanged] at hv hnone
    exact (hsettled v hv).trans hnone

end

/-! ### The handlers of a publication -/

/-- The file is there, and its marker hides it. -/
def Marked (start : Disk) (key : Digest) (data : Bytes) (d : Disk) : Prop :=
  Landed start key data d ∧ d.markers.get? key ≠ none

/-- A clean-up of temporaries breaks nothing that they do not matter for. -/
theorem TmpFree.runs_cleanup {I : Disk → Prop} (hI : TmpFree I) (nonce : Nat) :
    Runs I (fun _ ↦ True) (do closeFile; cleanupTemporaryFile nonce) fun _ _ ↦ True := by
  have hunlink : Runs I (fun _ ↦ True) (unlinkTemporary nonce) fun _ _ ↦ True := by
    refine runs_call fun d hd _ ↦ ⟨?_, fun _ _ ↦ trivial⟩
    split
    · exact hd
    · exact hI _ _ hd
  have hsync : Runs I (fun _ ↦ True) fsyncTmp fun _ _ ↦ True :=
    runs_update fun d hd _ ↦ ⟨hI _ _ hd, trivial⟩
  unfold cleanupTemporaryFile
  refine Runs.bind runs_closeFile fun _ ↦ Runs.bind (X := fun _ _ ↦ True)
    (hunlink.attempt (fun _ _ _ ↦ trivial) fun _ _ _ ↦ trivial) fun _ ↦
    Runs.bind (X := fun _ _ ↦ True) (hsync.attempt (fun _ _ _ ↦ trivial) fun _ _ _ ↦ trivial)
      fun _ ↦ runs_pure fun _ _ _ ↦ trivial

section

variable {env : PublishEnv} {key : Digest} {start : Disk} {data : Bytes}

private theorem robust_markInventoryWithdrawn :
    Robust (Landed start key data) (markInventoryWithdrawn key)
      (fun _ ↦ Marked start key data) fun _ ↦ True := by
  unfold markInventoryWithdrawn
  refine Robust.bind (X := fun _ ↦ Marked start key data) (robust_update (fun d h ↦ ?_)
    fun _ _ ↦ trivial) fun _ ↦ Robust.bind (X := fun present d ↦ Marked start key data d ∧
      present = true) ?_ fun present ↦ ?_
  · split
    · next hsome => exact ⟨h, Option.isSome_iff_ne_none.mp hsome⟩
    · refine ⟨h.marker (fun k hk ↦ ?_) _, ?_⟩
      · rw [Directory.get?_put, if_neg hk]
      · change (d.markers.put key ()).get? key ≠ none
        rw [Directory.get?_put, if_pos rfl]
        exact Option.some_ne_none ()
  · unfold inventoryIsWithdrawn look
    refine robust_call (fun d h ↦ ⟨true, d, ?_, h, rfl⟩) fun _ _ ↦ trivial
    change (Except.ok (d.markers.get? key).isSome, d) = _
    rw [Option.isSome_iff_ne_none.mpr h.2]
  · split
    · exact robust_update (fun d h ↦ ⟨h.1.1.marker (m := d.markers.sync) (fun _ _ ↦ rfl) _, h.1.2⟩)
        fun _ _ ↦ trivial
    · next hno => exact fun n ↦ ends_raise fun m h ↦ absurd h.2.2 hno

/-- With no failing call left, the marker of a published key is written. -/
theorem ends_withdrawPublished :
    Ends (fun m ↦ m.fails = 0 ∧ Landed start key data m.state) (withdrawPublished key)
      (fun _ m ↦ Marked start key data m.state) fun m ↦ Marked start key data m.state := by
  have hmark : Robust (Landed start key data)
      (do markInventoryWithdrawn key; checkpoint "withdraw hook")
      (fun _ ↦ Marked start key data) fun _ ↦ True :=
    Robust.bind robust_markInventoryWithdrawn fun _ ↦
      robust_update (fun _ h ↦ h) fun _ _ ↦ trivial
  unfold withdrawPublished
  refine Ends.bind (X := fun _ m ↦ Marked start key data m.state)
    ((hmark 0).attempt (fun m h ↦ h.2) fun e m h ↦ absurd h.1 (Nat.not_lt_zero _)) fun _ ↦ ?_
  exact ends_pure fun m h ↦ h

private theorem tmpFree_marked : TmpFree (Marked start key data) := fun _ t h ↦ ⟨h.1.tmp t, h.2⟩

/-- After an error that used up a failing call, the handlers write the marker, unless another
call fails. -/
theorem ends_withdraw {n : Nat} {cleanup : DiskProgram Unit}
    (hcleanup : Runs (Marked start key data) (fun _ ↦ True) cleanup fun _ _ ↦ True) :
    Ends (fun m ↦ m.fails < n ∧ Landed start key data m.state)
      (do withdrawPublished key; cleanup)
      (fun _ m ↦ n ≤ 1 → Marked start key data m.state)
      fun m ↦ n ≤ 1 → Marked start key data m.state := by
  by_cases hn : n ≤ 1
  · have hall : Ends (fun m ↦ m.fails = 0 ∧ Landed start key data m.state)
        (do withdrawPublished key; cleanup) (fun _ m ↦ Marked start key data m.state)
        fun m ↦ Marked start key data m.state :=
      Ends.bind ends_withdrawPublished fun _ ↦
        hcleanup.ends.mono (fun m h ↦ ⟨h, trivial⟩) (fun _ m h ↦ h.1) fun m h ↦ h
    exact hall.mono (fun m h ↦ ⟨by omega, h.2⟩) (fun _ m h _ ↦ h) fun m h _ ↦ h
  · exact fun m _ ↦ ⟨fun _ _ hle ↦ absurd hle hn, fun _ _ hle ↦ absurd hle hn⟩

/-- From the link on, the key is published, or one error leaves it marked. -/
theorem ends_afterLink {n : Nat} :
    Ends (fun m ↦ m.fails = n ∧ Linking env key start data m.state)
      (do
        .onError (retireTemporary env key) (do
          withdrawPublished key
          closeFile
          cleanupTemporaryFile env.nonce)
        .onError (clearInventoryWithdrawal key) (do
          withdrawPublished key
          closeFile) : DiskProgram Unit)
      (fun _ m ↦ Visible start key data m.state)
      fun m ↦ n ≤ 1 → Marked start key data m.state := by
  refine Ends.bind ((robust_retireTemporary n).onError
    (ends_withdraw (tmpFree_marked.runs_cleanup env.nonce))) fun _ ↦ ?_
  refine Ends.onError (E := fun m ↦ m.fails < n ∧ Landed start key data m.state) ?_
    (ends_withdraw runs_closeFile)
  exact (robust_clearInventoryWithdrawal n).mono (fun m h ↦ h) (fun _ m h ↦ h.2) fun m h ↦ h

end

/-! ### Whole publications -/

section

variable {store : TokenFileStore} {env : PublishEnv} {key : Digest} {header : TokenHeader}
  {input : CommitInput} {start : Disk}

/-- The key is published with a file of the input. -/
def Released (store : TokenFileStore) (key : Digest) (header : TokenHeader) (input : CommitInput)
    (start d : Disk) : Prop :=
  ∃ data, FileOf store key header input data ∧ Visible start key data d

/-- What an error leaves: nothing of the publication, or its file hidden by a marker. -/
def Undone (store : TokenFileStore) (key : Digest) (header : TokenHeader) (input : CommitInput)
    (start d : Disk) : Prop :=
  Untouched start d ∨ ∃ data, FileOf store key header input data ∧ Marked start key data d

/-- Opens accept what they accepted. -/
theorem Undone.accepts {d : Disk} (h : Undone store key header input start d) (k : Digest) :
    d.Accepts store k ↔ start.Accepts store k := by
  rcases h with h | ⟨data, -, h⟩
  · exact accepts_of_untouched h k
  · exact accepts_of_marked h.1 h.2 k

private theorem ends_publishTemporary {n : Nat} {write : DiskProgram Unit} (hstrict : Strict write)
    (hwrite : Writes store env key header input (Untouched start) write) :
    Ends (fun m ↦ m.fails = n ∧ Untouched start m.state ∧
        m.state.tmp.get? env.nonce = some ⟨[], false⟩)
      (publishTemporary env key write)
      (fun _ m ↦ Released store key header input start m.state)
      fun m ↦ n ≤ 1 → Undone store key header input start m.state := by
  have htmp : TmpFree (Untouched start) := (lax_untouched start).tmp
  have hcleanup : Ends (fun m ↦ Untouched start m.state)
      (do closeFile; cleanupTemporaryFile env.nonce) (fun _ m ↦ Untouched start m.state)
      fun m ↦ Untouched start m.state :=
    (htmp.runs_cleanup env.nonce).ends.mono (fun m h ↦ ⟨h, trivial⟩) (fun _ m h ↦ h.1) fun m h ↦ h
  unfold publishTemporary
  refine Ends.bind (((ends_writeAndLink (n := n) hstrict hwrite).onError hcleanup).mono
    (fun m h ↦ h) (fun _ m h ↦ h) fun m h _ ↦ .inl h)
    fun _ m ⟨hn, data, hfile, hlinking⟩ ↦ ?_
  obtain ⟨hreturn, hraise⟩ := ends_afterLink m ⟨hn, hlinking⟩
  refine ⟨fun u hu ↦ ⟨data, hfile, hreturn u hu⟩, fun e he hone ↦ ?_⟩
  exact .inr ⟨data, hfile, hraise e he hone⟩

private theorem ends_publishUnfenced {n : Nat} {p : HeaderPayload}
    {write : Bytes → DiskProgram Unit} (hstrict : ∀ encoded, Strict (write encoded))
    (hwrite : ∀ encoded, store.encodeHeader p = .ok encoded →
      Writes store env key header input (Untouched start) (write encoded)) :
    Ends (fun m ↦ m.fails = n ∧ Untouched start m.state) (publishUnfenced store env key p write)
      (fun _ m ↦ Released store key header input start m.state)
      fun m ↦ n ≤ 1 → Undone store key header input start m.state := by
  have hundone : ∀ m : Machine Disk, Untouched start m.state →
      n ≤ 1 → Undone store key header input start m.state := fun m h _ ↦ .inl h
  unfold publishUnfenced
  refine Ends.bind (X := fun encoded m ↦ store.encodeHeader p = .ok encoded ∧ m.fails = n ∧
    Untouched start m.state) (ends_ofExcept (fun encoded m hok h ↦ ⟨hok, h⟩) fun m h ↦ hundone m h.2)
    fun encoded ↦ ?_
  refine Ends.bind (X := fun _ m ↦ store.encodeHeader p = .ok encoded ∧ m.fails = n ∧
    Untouched start m.state) ?_ fun there ↦ ?_
  · unfold pathExists look
    refine ends_call (fun rest s h ↦ hundone ⟨rest, s⟩ h.2.2) (fun m a s' h hcount hf ↦ ?_)
      fun m e s' h hcount hf ↦ ?_
    · cases hf
      exact ⟨h.1, hcount.trans h.2.1, h.2.2⟩
    · cases hf
  · split
    · exact ends_raise fun m h ↦ hundone m h.2.2
    · refine Ends.bind (X := fun _ m ↦ store.encodeHeader p = .ok encoded ∧ m.fails = n ∧
        Untouched start m.state ∧ m.state.tmp.get? env.nonce = some ⟨[], false⟩) ?_ fun _ ↦ ?_
      · unfold createTemporary
        refine ends_call (fun rest s h ↦ hundone ⟨rest, s⟩ h.2.2) (fun m a s' h hcount hf ↦ ?_)
          fun m e s' h hcount hf ↦ ?_
        · split at hf
          · cases hf
          · cases hf
            refine ⟨h.1, hcount.trans h.2.1, h.2.2, ?_⟩
            exact (Directory.get?_put _ _ _ _).trans (if_pos rfl)
        · split at hf
          · cases hf
            exact hundone m h.2.2
          · cases hf
      · intro m h
        exact ends_publishTemporary (hstrict encoded) (hwrite encoded h.1) m h.2

/-- Until the marker is cleared: the key is published, or one error leaves opens what they were. -/
theorem ends_commitUnfenced {n : Nat} :
    Ends (fun m ↦ m.fails = n ∧ Untouched start m.state)
      (commitUnfenced store env key header input)
      (fun _ m ↦ Released store key header input start m.state)
      fun m ↦ n ≤ 1 → Undone store key header input start m.state := by
  have hI := lax_untouched start
  cases input with
  | chunk payload =>
    change Ends _ (commitChunkUnfenced store env key header payload) _ _
    unfold commitChunkUnfenced
    refine Ends.bind (X := fun p m ↦ store.commitHeader key header payload = .ok p ∧ m.fails = n ∧
      Untouched start m.state) (ends_ofExcept (fun p m hok h ↦ ⟨hok, h⟩) fun m h _ ↦ .inl h.2)
      fun p m h ↦ ?_
    exact ends_publishUnfenced (fun encoded ↦ strict_writeVector _ _ _ _)
      (fun encoded hencode ↦ writes_chunk hI.tmp h.1 hencode) m h.2
  | stream pieces =>
    change Ends _ (commitStreamUnfenced store env key header pieces) _ _
    unfold commitStreamUnfenced
    refine Ends.bind (X := fun p m ↦ store.headerPayload key header (.ofNat 0) none = .ok p ∧
      m.fails = n ∧ Untouched start m.state)
      (ends_ofExcept (fun p m hok h ↦ ⟨hok, h⟩) fun m h _ ↦ .inl h.2) fun p m h ↦ ?_
    have hpublish : Ends (fun m ↦ m.fails = n ∧ Untouched start m.state)
        (publishUnfenced store env key p (writeStream store env p pieces))
        (fun _ m ↦ Released store key header (.stream pieces) start m.state)
        fun m ↦ n ≤ 1 → Undone store key header (.stream pieces) start m.state :=
      ends_publishUnfenced (strict_writeStream env p pieces)
        fun encoded _ ↦ writes_stream hI.tmp h.1 encoded
    exact hpublish m h.2

/-- Closing and opening the published file changes nothing. -/
theorem state_reopenPublished (m : Machine Disk) :
    (reopenPublished store key m).2.state = m.state := by
  have hgate : Runs (fun d ↦ d = m.state) (fun _ ↦ True) (withdrawalGate key false)
      fun _ _ ↦ True := by
    change Runs _ _ (inventoryIsWithdrawn key) _
    exact runs_look fun _ _ _ _ _ ↦ trivial
  have hopen : Runs (fun d ↦ d = m.state) (fun _ ↦ True) (openPath store key false)
      fun _ _ ↦ True := by
    unfold openPath
    refine Runs.bind hgate fun withdrawn ↦ ?_
    split
    · exact runs_raise _
    · exact runs_look fun _ _ _ _ _ ↦ trivial
  have hall : Runs (fun d ↦ d = m.state) (fun _ ↦ True) (reopenPublished store key)
      fun _ _ ↦ True := by
    unfold reopenPublished
    exact Runs.bind runs_closeFile fun _ ↦ Runs.bind hopen fun _ ↦ Runs.bind runs_closeFile
      fun _ ↦ runs_pure fun _ _ _ ↦ trivial
  exact (hall m ⟨rfl, trivial⟩).1

end

/-! ### A sample publication -/

/-- What a crash leaves that keeps every update. -/
def Disk.survived (d : Disk) : Disk where
  manifests := .durable d.manifests.entries
  files := .durable (d.files.entries.mapValues fun _ f ↦ ⟨f.data, true⟩)
  markers := .durable d.markers.entries
  tmp := .durable (d.tmp.entries.mapValues fun _ f ↦ ⟨f.data, true⟩)
  journal := d.journal

private theorem crash_survived {d : Disk}
    (hshards : ∀ k, d.manifests.get? (shard k) = none → d.files.get? k = none) :
    d.Crash d.survived := by
  have hsame : ∀ v : Option Unit, Option.Rel Eq v v := fun v ↦ by
    cases v
    · exact .none
    · exact .some rfl
  have hdecay : ∀ v : Option DiskFile,
      Option.Rel DiskFile.Decays v (v.map fun f ↦ ⟨f.data, true⟩) := fun v ↦ by
    cases v
    · exact .none
    · exact .some ⟨rfl, fun _ ↦ rfl⟩
  have hfiles : ∀ k, d.survived.files.get? k = (d.files.get? k).map fun f ↦ ⟨f.data, true⟩ :=
    fun k ↦ OrderedDict.get?_mapValues _ _ _
  have htmp : ∀ k, d.survived.tmp.get? k = (d.tmp.get? k).map fun f ↦ ⟨f.data, true⟩ :=
    fun k ↦ OrderedDict.get?_mapValues _ _ _
  constructor
  case manifests => exact ⟨fun _ ↦ rfl, fun k ↦ ⟨_, .inl rfl, hsame _⟩⟩
  case markers => exact ⟨fun _ ↦ rfl, fun k ↦ ⟨_, .inl rfl, hsame _⟩⟩
  case tmp => exact ⟨fun _ ↦ rfl, fun k ↦ ⟨_, .inl rfl, htmp k ▸ hdecay _⟩⟩
  case stale => exact fun _ ↦ rfl
  case files => exact fun k ↦ .inr ⟨_, .inl rfl, hfiles k ▸ hdecay _⟩
  case gone =>
    intro k hgone
    rw [hfiles, hshards k hgone]
    rfl
  case journal => rfl

/-- A root without files. -/
def emptyRoot : Disk := ⟨.durable .empty, .durable .empty, .durable .empty, .durable .empty, []⟩

private theorem settled_emptyRoot : emptyRoot.Settled where
  files _ _ h := Directory.possible_durable.mp h
  synced _ _ h := by cases h
  shards _ _ h := by cases h

/-- A streamed commit leaves the root that the program does. -/
theorem run_commitStream (store : TokenFileStore) (env : PublishEnv) (key : Digest)
    (header : TokenHeader) (pieces : List (Except PyError Bytes)) (faults : List Fault) (d : Disk) :
    DiskOp.run store faults d (.commitStream env key header pieces) =
      (commit store env key header (.stream pieces) ⟨faults, d⟩).2.state := rfl

/-- The bytes of one transfer block. -/
def sampleBlock : Bytes := List.replicate 64 1

/-- A stream of one piece. -/
def sampleInput : CommitInput := .stream ([sampleBlock].map .ok)

/-- Every write takes what it is given. -/
def sampleEnv : PublishEnv := ⟨7, [], fun _ ↦ [], []⟩

/-- A file of one block has a header, whatever its checksums. -/
theorem headerPayload_emptyRoot (digest : Digest) {blocks : Option (List Digest)}
    (hfit : boundedSample.ChecksumsFit 64 digest blocks) : ∃ p encoded,
    boundedSample.headerPayload (.ofNat 9) ⟨.data, none, 256⟩ digest blocks = .ok p ∧
      boundedSample.encodeHeader p = .ok encoded ∧ p.byteLength = 64 := by
  have hsegments : boundedSample.layout.segments 256 .data = .ok [⟨0, "layer", 0, 1, 64⟩] := by
    decide +kernel
  have haccepted : boundedSample.HeaderAccepted (.ofNat 9) ⟨.data, none, 256⟩ :=
    ⟨⟨[⟨0, "layer", 0, 1, 64⟩], by decide +kernel⟩,
      headerLength_boundedSample hsegments (by decide) (by decide) (by decide +kernel)⟩
  obtain ⟨segments, hslices, hall⟩ := haccepted.succeeds
  rw [hsegments] at hslices
  cases hslices
  obtain ⟨p, encoded, hheader, hencode, -⟩ := hall digest blocks hfit
  refine ⟨p, encoded, hheader, hencode, ?_⟩
  obtain ⟨hp, -, -, -, hbytes, -⟩ := TokenFileStore.headerPayload_ok hheader
  have hgeometry : Store.headerPayload boundedSample.config (.ofNat 9) ⟨.data, none, 256⟩ =
      .ok [⟨0, "layer", 0, 1, 64⟩] := by decide +kernel
  rw [hgeometry] at hp
  rw [hbytes, ← Except.ok.inj hp]
  rfl

/-- On an empty root the sample is published, and a crash may leave the root as it is. -/
theorem commit_emptyRoot : ∃ desc data d', commit boundedSample sampleEnv (.ofNat 9)
      ⟨.data, none, 256⟩ sampleInput ⟨[], emptyRoot⟩ = (.returned desc, ⟨[], d'⟩) ∧
    d'.files.get? (.ofNat 9) = some ⟨data, true⟩ ∧ d'.Crash d'.survived := by
  obtain ⟨p, encoded, hheader, hencode, hbytes⟩ := @headerPayload_emptyRoot (.ofNat 0) none
    ⟨rfl, fun _ ↦ rfl⟩
  have hexact : ExactPieces boundedSample.slotBytes p.byteLength [sampleBlock] := by
    refine ⟨0, 64, by decide, le_rfl, ?_, rfl⟩
    rw [hbytes, Nat.zero_mul, Nat.zero_add]
  have henv : sampleEnv.Progress :=
    ⟨fun _ h ↦ absurd h List.not_mem_nil, fun _ _ h ↦ absurd h List.not_mem_nil,
      fun _ h ↦ absurd h List.not_mem_nil⟩
  obtain ⟨desc, data, d', hrun, hfile, -⟩ := commit_stream_published henv hheader hencode
    (d := emptyRoot) ⟨rfl, rfl⟩ hexact
  have hstart : DiskRun boundedSample emptyRoot :=
    .start rfl fun key _ v hv ↦ Directory.possible_durable.mp hv
  have hsound := (hstart.step (.commitStream sampleEnv (.ofNat 9) ⟨.data, none, 256⟩
    ([sampleBlock].map .ok)) []).sound
  rw [run_commitStream, hrun] at hsound
  exact ⟨desc, data, d', hrun, hfile, crash_survived fun k hk ↦
    hsound.shards k hk _ (d'.files.possible_get? k)⟩

/-! ### Crashes and single errors -/

section

variable (store : TokenFileStore) (env : PublishEnv) (key : Digest) (header : TokenHeader)
  (input : CommitInput)

/-- A commit whose publication returned has released its file; what it does after that changes
nothing. -/
theorem released_of_returned {m : Machine Disk} {u : Unit}
    (h : (commitUnfenced store env key header input m).1 = .returned u) :
    Released store key header input m.state (commit store env key header input m).2.state := by
  have hends : Ends (fun m' ↦ m'.fails = m.fails ∧ Untouched m.state m'.state)
      (commitUnfenced store env key header input)
      (fun _ m' ↦ Released store key header input m.state m'.state) _ := ends_commitUnfenced
  have hreleased := (hends m ⟨rfl, rfl, rfl⟩).1 u h
  have hrun : commitUnfenced store env key header input m =
      (.returned u, (commitUnfenced store env key header input m).2) := Prod.ext h rfl
  rw [commit_eq, bind_of_returned hrun, state_reopenPublished]
  exact hreleased

/-- A commit that returns has published without an error. -/
theorem unfenced_of_returned {m : Machine Disk} {desc : TokenFileStore.FileDescriptor}
    (h : (commit store env key header input m).1 = .returned desc) :
    ∃ u, (commitUnfenced store env key header input m).1 = .returned u := by
  rw [commit_eq] at h
  change (andThen (commitUnfenced store env key header input) _ m).1 = _ at h
  unfold andThen at h
  generalize commitUnfenced store env key header input m = out at h ⊢
  obtain ⟨o, m'⟩ := out
  cases o with
  | returned u => exact ⟨u, rfl⟩
  | raised e => cases h
  | crashed => cases h

/-- Wherever a commit is cut off, whatever failed in it before, and whichever updates the crash
keeps: `recover` takes away every temporary and nothing else, the path of the key is as before or
has a complete file of the input, which opens and authenticates, and other paths are as before. -/
theorem publication_crash_atomic (faults : List Fault) {start d' : Disk} (hstart : start.Settled)
    (hc : (commit store env key header input ⟨faults, start⟩).2.state.Crash d') :
    (∃ t, recover ⟨[], d'⟩ = (.returned d'.tmp.names.length, ⟨[], { d' with tmp := t }⟩) ∧
      t.names = []) ∧
    (d'.files.get? key = start.files.get? key ∨
      ∃ data, d'.files.get? key = some ⟨data, true⟩ ∧ FileOf store key header input data ∧
        store.Complete key data) ∧
    ∀ k, k ≠ key → d'.files.get? k = start.files.get? k := by
  have htolerant : Tolerant store key header input (Publishing store key header input start) :=
    tolerant_publishing start
  have hruns := @runs_commit store env key header input _ htolerant ⟨faults, start⟩
    ⟨Publishing.refl hstart, trivial⟩
  obtain ⟨hown, hothers⟩ := Publishing.crash hstart hruns.1 hc
  refine ⟨recover_run d', hown.imp_right ?_, hothers⟩
  rintro ⟨data, hdata, hfile⟩
  exact ⟨data, hdata, hfile, hfile.complete⟩

/-- The file of a commit on an empty root survives a crash and the recovery. -/
theorem publication_crash_atomic_emptyRoot : ∃ d' data t,
    recover ⟨[], d'⟩ = (.returned d'.tmp.names.length, ⟨[], { d' with tmp := t }⟩) ∧
      t.names = [] ∧ d'.files.get? (.ofNat 9) = some ⟨data, true⟩ ∧
      boundedSample.Complete (.ofNat 9) data := by
  obtain ⟨desc, data, d', hrun, hfile, hcrash⟩ := commit_emptyRoot
  have hc : (commit boundedSample sampleEnv (.ofNat 9) ⟨.data, none, 256⟩ sampleInput
      ⟨[], emptyRoot⟩).2.state.Crash d'.survived := by
    rw [hrun]
    exact hcrash
  have hthere : d'.survived.files.get? (.ofNat 9) = some ⟨data, true⟩ := by
    change (OrderedDict.mapValues _ _).get? _ = _
    rw [OrderedDict.get?_mapValues]
    change (d'.files.get? (.ofNat 9)).map _ = _
    rw [hfile]
    rfl
  obtain ⟨⟨t, hrecover, hnames⟩, hown, -⟩ := publication_crash_atomic boundedSample sampleEnv
    (.ofNat 9) ⟨.data, none, 256⟩ sampleInput [] settled_emptyRoot hc
  rcases hown with hold | ⟨data', hdata', -, hcomplete⟩
  · rw [hthere] at hold
    cases hold
  · exact ⟨_, data', t, hrecover, hnames, hdata', hcomplete⟩

/-- A commit that returned is durable: after any crash its key is accepted, with the descriptor
that was returned, on a file of the input that authenticates. Removals of its marker that were
still pending before are excepted. -/
theorem returned_commit_durable (faults : List Fault) {start d' : Disk}
    (hmarker : ∀ v, start.markers.Possible key v → v = start.markers.get? key)
    {desc : TokenFileStore.FileDescriptor}
    (h : (commit store env key header input ⟨faults, start⟩).1 = .returned desc)
    (hc : (commit store env key header input ⟨faults, start⟩).2.state.Crash d') :
    d'.Accepts store key ∧ ∃ data, d'.files.get? key = some ⟨data, true⟩ ∧
      FileOf store key header input data ∧ store.openData key data = .ok desc ∧
      store.authenticate desc (data.drop desc.payloadOffset) = .ok () := by
  obtain ⟨u, hu⟩ := unfenced_of_returned store env key header input h
  obtain ⟨data, hfile, hvisible⟩ := released_of_returned store env key header input hu
  have hopen : store.openData key data = .ok desc := by
    have htolerant : Tolerant store key header input fun _ ↦ True :=
      { tmp := fun _ _ _ ↦ trivial, putShard := fun _ _ _ ↦ trivial
        syncManifests := fun _ _ ↦ trivial, syncShard := fun _ _ _ ↦ trivial
        markers := fun _ _ _ _ ↦ trivial, link := fun _ _ _ _ _ ↦ trivial }
    obtain ⟨data', hdata', -, hopen⟩ :=
      (@runs_commit store env key header input _ htolerant ⟨faults, start⟩ ⟨trivial, trivial⟩).2 desc h
    rw [hvisible.files, if_pos rfl] at hdata'
    cases hdata'
    exact hopen
  have hdata : d'.files.get? key = some ⟨data, true⟩ := by
    rcases hc.files key with ⟨-, hgone⟩ | ⟨v, hv, hdecay⟩
    · exact absurd hgone (hvisible.shard.crash hc)
    · rw [hvisible.durable v hv] at hdecay
      exact decays_synced rfl hdecay
  have hmark : d'.markers.get? key = none := by
    obtain ⟨v, hv, hrel⟩ := hc.markers.2 key
    rw [hvisible.cleared hmarker v hv] at hrel
    generalize d'.markers.get? key = w at hrel ⊢
    cases hrel
    rfl
  obtain ⟨desc', hopen', hauthentic⟩ := hfile.complete
  rw [hopen] at hopen'
  cases hopen'
  exact ⟨⟨hmark, _, desc, hdata, hopen⟩, data, hdata, hfile, hopen, hauthentic⟩

/-- The file of a commit on an empty root is accepted after a crash. -/
theorem returned_commit_durable_emptyRoot : ∃ d' : Disk, d'.Accepts boundedSample (.ofNat 9) := by
  obtain ⟨desc, data, d', hrun, hfile, hcrash⟩ := commit_emptyRoot
  have hc : (commit boundedSample sampleEnv (.ofNat 9) ⟨.data, none, 256⟩ sampleInput
      ⟨[], emptyRoot⟩).2.state.Crash d'.survived := by
    rw [hrun]
    exact hcrash
  exact ⟨_, (returned_commit_durable boundedSample sampleEnv (.ofNat 9) ⟨.data, none, 256⟩
    sampleInput [] (fun _ h ↦ Directory.possible_durable.mp h) (congrArg Prod.fst hrun) hc).1⟩

/-- A commit returns only when no call has failed. When at most one call fails, a commit that
raises before its marker has been cleared leaves exactly the keys accepted that were, and from then
on, however it ends, its own key is accepted besides them. -/
theorem failed_commit_accepts_nothing (m : Machine Disk) :
    (∀ desc, (commit store env key header input m).1 = .returned desc →
      (commit store env key header input m).2.fails = m.fails) ∧
    (m.fails ≤ 1 →
      (∀ e, (commitUnfenced store env key header input m).1 = .raised e →
        (commit store env key header input m).1 = .raised e ∧
          ∀ k, (commit store env key header input m).2.state.Accepts store k ↔
            m.state.Accepts store k) ∧
      ∀ u, (commitUnfenced store env key header input m).1 = .returned u →
        ¬ m.state.Accepts store key ∧
          ∀ k, (commit store env key header input m).2.state.Accepts store k ↔
            k = key ∨ m.state.Accepts store k) := by
  have hends : Ends (fun m' ↦ m'.fails = m.fails ∧ Untouched m.state m'.state)
      (commitUnfenced store env key header input)
      (fun _ m' ↦ Released store key header input m.state m'.state)
      fun m' ↦ m.fails ≤ 1 → Undone store key header input m.state m'.state := ends_commitUnfenced
  refine ⟨fun desc h ↦ (strict_commit env key header input m.fails m rfl).1 desc h,
    fun hone ↦ ⟨fun e he ↦ ?_, fun u hu ↦ ?_⟩⟩
  · have hundone := (hends m ⟨rfl, rfl, rfl⟩).2 e he hone
    have hrun : commitUnfenced store env key header input m =
        (.raised e, (commitUnfenced store env key header input m).2) := Prod.ext he rfl
    rw [commit_eq, bind_of_raised hrun]
    exact ⟨rfl, hundone.accepts⟩
  · obtain ⟨data, hfile, hvisible⟩ := released_of_returned store env key header input hu
    refine ⟨fun ha ↦ ?_, accepts_of_visible hvisible hfile.complete⟩
    obtain ⟨-, f, -, hf, -⟩ := ha
    rw [hvisible.free] at hf
    cases hf

end

/-! ### A commit whose `fsync` fails -/

/-- Up to the block of `_publish_chunk`, when its first two calls succeed. -/
theorem run_commitUnfenced_chunk {store : TokenFileStore} {key : Digest} {header : TokenHeader}
    {payload : Bytes} {p : HeaderPayload} {encoded : Bytes} (env : PublishEnv)
    (hheader : store.commitHeader key header payload = .ok p)
    (hencode : store.encodeHeader p = .ok encoded) {d : Disk} (habsent : d.files.get? key = none)
    (hnew : d.tmp.get? env.nonce = none) (faults : List Fault) :
    commitUnfenced store env key header (.chunk payload) ⟨.none :: .none :: faults, d⟩ =
      publishTemporary env key (writeVector env.nonce env.headerWrites 0 (encoded ++ payload))
        ⟨faults, { d with tmp := d.tmp.put env.nonce ⟨[], false⟩ }⟩ := by
  have hexists : pathExists key ⟨.none :: .none :: faults, d⟩ =
      (.returned false, ⟨.none :: faults, d⟩) := by
    unfold pathExists Program.look Program.call
    dsimp only
    rw [habsent]
    rfl
  have hcreate : createTemporary env.nonce ⟨.none :: faults, d⟩ =
      (.returned (), ⟨faults, { d with tmp := d.tmp.put env.nonce ⟨[], false⟩ }⟩) := by
    unfold createTemporary Program.call
    dsimp only
    rw [hnew]
    rfl
  have hok : ∀ {α : Type} (a : α) (m : Machine Disk),
      (ofExcept (.ok a) : DiskProgram α) m = (.returned a, m) := fun _ _ ↦ rfl
  have hunfenced : commitUnfenced store env key header (.chunk payload) =
      commitChunkUnfenced store env key header payload := rfl
  rw [hunfenced, commitChunkUnfenced, hheader, bind_of_returned (hok p _), publishUnfenced, hencode,
    bind_of_returned (hok encoded _), bind_of_returned hexists, if_neg Bool.false_ne_true,
    bind_of_returned hcreate]

/-- The block of `_publish_chunk`, with a failing `fsync` of the shard after the link. -/
theorem run_publishTemporary_failing (data : Bytes) : ∃ d,
    publishTemporary sampleEnv (.ofNat 9) (writev 7 0 data)
        ⟨List.replicate 7 .none ++ [.fail], { emptyRoot with tmp := emptyRoot.tmp.put 7 ⟨[], false⟩ }⟩ =
      (.raised (.osError "fsync"), ⟨[], d⟩) ∧
    (d.files.get? (.ofNat 9)).isSome ∧ (d.markers.get? (.ofNat 9)).isSome :=
  ⟨_, rfl, rfl, rfl⟩

/-- The faults of a commit whose `fsync` of the shard fails. -/
def failingSync : List Fault := .none :: .none :: (List.replicate 7 .none ++ [.fail])

/-- When the sync of the shard fails, the commit fails with the file linked and its marker left. -/
theorem commit_failingSync : ∃ d, commitUnfenced boundedSample sampleEnv (.ofNat 9)
      ⟨.data, none, 256⟩ (.chunk sampleBlock) ⟨failingSync, emptyRoot⟩ =
        (.raised (.osError "fsync"), ⟨[], d⟩) ∧
    commit boundedSample sampleEnv (.ofNat 9) ⟨.data, none, 256⟩ (.chunk sampleBlock)
      ⟨failingSync, emptyRoot⟩ = (.raised (.osError "fsync"), ⟨[], d⟩) ∧
    (d.files.get? (.ofNat 9)).isSome ∧ (d.markers.get? (.ofNat 9)).isSome := by
  have hpieces : TokenFileStore.pieces boundedSample.slotBytes sampleBlock = [sampleBlock] := by
    decide
  obtain ⟨p, encoded, hpayload, hencode, hbytes⟩ := @headerPayload_emptyRoot (sha256 sampleBlock)
    (some ([sampleBlock].map sha256)) ⟨rfl, fun _ ↦ rfl⟩
  have hheader : boundedSample.commitHeader (.ofNat 9) ⟨.data, none, 256⟩ sampleBlock = .ok p := by
    unfold TokenFileStore.commitHeader
    rw [hpieces, hpayload, ok_bind, hbytes]
    rfl
  have hwrite : writeVector sampleEnv.nonce sampleEnv.headerWrites 0 (encoded ++ sampleBlock) =
      writev 7 0 (encoded ++ sampleBlock) :=
    if_neg (List.append_ne_nil_of_right_ne_nil _ (List.cons_ne_nil _ _))
  obtain ⟨d, hrun, hfile, hmarker⟩ := run_publishTemporary_failing (encoded ++ sampleBlock)
  have hunfenced : commitUnfenced boundedSample sampleEnv (.ofNat 9) ⟨.data, none, 256⟩
      (.chunk sampleBlock) ⟨failingSync, emptyRoot⟩ = (.raised (.osError "fsync"), ⟨[], d⟩) := by
    rw [failingSync, run_commitUnfenced_chunk sampleEnv hheader hencode rfl rfl, hwrite]
    exact hrun
  refine ⟨d, hunfenced, ?_, hfile, hmarker⟩
  rw [commit_eq, bind_of_raised hunfenced]

/-- The commit that fails leaves its file under a marker, and no key is accepted; the one without
failures is the only key accepted. -/
theorem failed_commit_accepts_nothing_emptyRoot :
    (∃ d, commit boundedSample sampleEnv (.ofNat 9) ⟨.data, none, 256⟩ (.chunk sampleBlock)
        ⟨failingSync, emptyRoot⟩ = (.raised (.osError "fsync"), ⟨[], d⟩) ∧
      (d.files.get? (.ofNat 9)).isSome ∧ (d.markers.get? (.ofNat 9)).isSome ∧
      ∀ k, d.Accepts boundedSample k ↔ emptyRoot.Accepts boundedSample k) ∧
    ¬ emptyRoot.Accepts boundedSample (.ofNat 9) ∧
      ∃ d : Disk, ∀ k, d.Accepts boundedSample k ↔
        k = .ofNat 9 ∨ emptyRoot.Accepts boundedSample k := by
  constructor
  · obtain ⟨d, hunfenced, hcommit, hfile, hmarker⟩ := commit_failingSync
    obtain ⟨-, hone⟩ := failed_commit_accepts_nothing boundedSample sampleEnv (.ofNat 9)
      ⟨.data, none, 256⟩ (.chunk sampleBlock) ⟨failingSync, emptyRoot⟩
    obtain ⟨hraised, -⟩ := hone (by decide)
    obtain ⟨-, haccepts⟩ := hraised _ (congrArg Prod.fst hunfenced)
    rw [hcommit] at haccepts
    exact ⟨d, hcommit, hfile, hmarker, haccepts⟩
  · obtain ⟨desc, data, d', hrun, -, -⟩ := commit_emptyRoot
    obtain ⟨u, hu⟩ := unfenced_of_returned boundedSample sampleEnv (.ofNat 9) ⟨.data, none, 256⟩
      sampleInput (congrArg Prod.fst hrun)
    obtain ⟨-, hone⟩ := failed_commit_accepts_nothing boundedSample sampleEnv (.ofNat 9)
      ⟨.data, none, 256⟩ sampleInput ⟨[], emptyRoot⟩
    obtain ⟨-, hreturned⟩ := hone (Nat.zero_le _)
    exact ⟨(hreturned u hu).1, _, (hreturned u hu).2⟩

end SpoolCache.Store

import SpoolCache.Store.CrashRecovery

/-!
# Where the files of a root come from

Any run of the operations on a rank root, `token_files.py:346–452`, `token_files.py:725–736`,
`token_files.py:798–823`, `rank_store.py:724–836` and `token_scrub.py:150–177`, with calls that
fail, operations that are cut off and crashes at any time. A path never has other bytes than those
it had at the start or those of one publication in full.
-/

namespace SpoolCache.Store

open SpoolCache.Base SpoolCache.Layout SpoolCache.Base.Program

/-! ### Calls that publish nothing -/

/-- A property of a root that every call of an operation keeps, but the link of a publication. -/
structure Quiet (I : Disk → Prop) : Prop extends Calm I where
  remove : ∀ d key, I d → I { d with files := d.files.remove key }

namespace Quiet

variable {I : Disk → Prop} (hI : Quiet I)

/-- A program keeps the property, whatever happens. -/
def Holds {α : Type} (I : Disk → Prop) (x : DiskProgram α) : Prop :=
  Runs I (fun _ ↦ True) x fun _ _ ↦ True

private theorem Holds.bind {α β : Type} {x : DiskProgram α} {f : α → DiskProgram β} (hx : Holds I x)
    (hf : ∀ a, Holds I (f a)) : Holds I (x >>= f) := Runs.bind hx hf

private theorem Holds.attempt {x : DiskProgram Unit} (hx : Holds I x) : Holds I
    (Program.attempt x) :=
  Runs.attempt hx (fun _ _ _ ↦ trivial) fun _ _ _ ↦ trivial

private theorem holds_pure {α : Type} (a : α) : Holds I (pure a : DiskProgram α) :=
  runs_pure fun _ _ _ ↦ trivial

private theorem holds_raise {α : Type} (e : PyError) : Holds I (raise e : DiskProgram α) :=
  runs_raise e

private theorem holds_look {α : Type} (onFail : PyError) (f : Disk → Except PyError α) :
    Holds I (look onFail f) := runs_look fun _ _ _ _ _ ↦ trivial

private theorem holds_checkpoint (point : String) : Holds I (checkpoint point) :=
  runs_checkpoint point

private theorem holds_fsyncQuarantine : Holds I fsyncQuarantine := runs_fsyncQuarantine

include hI

private theorem holds_removePath (key : Digest) : Holds I (removePath key) := by
  refine runs_call fun d hd _ ↦ ⟨?_, fun _ _ ↦ trivial⟩
  split
  · exact hd
  · exact hI.remove _ _ hd

private theorem holds_fsyncShard (key : Digest) : Holds I (fsyncShard key) :=
  runs_update fun _ hd _ ↦ ⟨hI.syncShard _ _ hd, trivial⟩

private theorem holds_fsyncManifests : Holds I fsyncManifests :=
  runs_update fun _ hd _ ↦ ⟨hI.syncManifests _ hd, trivial⟩

private theorem holds_removeParts (nonces : List Nat) : Holds I (removeParts nonces) := by
  induction nonces with
  | nil => exact holds_pure _
  | cons nonce rest ih =>
    refine Holds.bind (runs_update fun d hd _ ↦ ?_) fun _ ↦ ih
    split
    · exact ⟨hI.tmp _ _ hd, trivial⟩
    · exact ⟨hd, trivial⟩

private theorem holds_recoverRounds (rounds : Nat) : Holds I (recoverRounds rounds) := by
  induction rounds with
  | zero => exact holds_pure _
  | succ rounds ih =>
    unfold recoverRounds
    refine Holds.bind (holds_look _ _) fun batch ↦ ?_
    split
    · exact holds_pure _
    · exact (hI.holds_removeParts _).bind fun _ ↦ ih.bind fun _ ↦ holds_pure _

private theorem holds_recover : Holds I recover := by
  intro m hm
  unfold recover
  refine Holds.bind (hI.holds_recoverRounds _) (fun removed ↦ ?_) m hm
  split
  · exact holds_pure _
  · exact Holds.bind hI.runs_fsyncTmp fun _ ↦ holds_pure _

private theorem holds_evictPath (busy : Bool) (key : Digest) : Holds I (evictPath busy key) := by
  unfold evictPath
  split
  · exact holds_pure _
  · refine Holds.bind (holds_look _ _) fun there ↦ ?_
    split
    · exact Holds.bind (hI.runs_markInventoryWithdrawn key) fun _ ↦
        (holds_checkpoint _).bind fun _ ↦ (hI.holds_removePath key).bind fun _ ↦
        (hI.holds_fsyncShard key).bind fun _ ↦ holds_pure _
    · exact holds_pure _

private theorem holds_quarantinePath (hooked : Bool) (key : Digest) :
    Holds I (quarantinePath hooked key) := by
  have hmark : Holds I (markInventoryWithdrawn key) := hI.runs_markInventoryWithdrawn key
  unfold quarantinePath
  refine hmark.attempt.bind fun marking ↦ (holds_checkpoint _).attempt.bind fun hook ↦
    (hI.holds_removePath key).attempt.bind fun removing ↦ ?_
  split
  · exact holds_pure _
  · exact holds_raise _
  · refine (hI.holds_fsyncShard key).attempt.bind fun first ↦
      holds_fsyncQuarantine.attempt.bind fun second ↦ ?_
    split
    · exact holds_raise _
    · have hretire : Holds I (retireMarker hooked key) := by
        unfold retireMarker
        split
        · exact hI.runs_clearInventoryWithdrawal key
        · exact holds_pure _
      exact hretire.bind fun _ ↦ holds_pure _

private theorem holds_quarantineBadPath (hooked busy : Bool) (key : Digest) :
    Holds I (quarantineBadPath hooked busy key) := by
  unfold quarantineBadPath
  split
  · exact Holds.bind (hI.runs_markInventoryWithdrawn key) fun _ ↦ holds_checkpoint _
  · exact (hI.holds_quarantinePath hooked key).bind fun _ ↦ holds_pure _

private theorem holds_acknowledgeAbsent (keys : List Digest) :
    Holds I (acknowledgeAbsent keys) := by
  induction keys with
  | nil => exact holds_pure _
  | cons key keys ih =>
    have habsence : Holds I (fsyncManifestAbsence key) := by
      unfold fsyncManifestAbsence
      refine Holds.bind (holds_look _ _) fun there ↦ ?_
      split
      · exact hI.holds_fsyncShard key
      · exact hI.holds_fsyncManifests
    unfold acknowledgeAbsent
    refine Holds.bind (holds_look _ _) fun there ↦ ?_
    split
    · exact ih
    · refine habsence.bind fun _ ↦ Holds.bind (holds_look _ _) fun still ↦ ?_
      split
      · exact ih
      · exact Holds.bind (hI.runs_clearInventoryWithdrawal key) fun _ ↦ ih

private theorem holds_scrubPath (store : TokenFileStore) (hooked busy : Bool) (key : Digest) :
    Holds I (scrubPath store hooked busy key) := by
  have hauthenticate : ∀ desc payload, Holds I (authenticatePath store key desc payload) := by
    intro desc payload
    refine runs_call fun d hd _ ↦ ⟨?_, fun _ _ ↦ trivial⟩
    split
    · exact hd
    · exact hI.markers d d.markers _ hd
  have hopen : Holds I (openPath store key true) := by
    unfold openPath withdrawalGate
    refine Holds.bind (holds_pure _) fun withdrawn ↦ ?_
    split
    · exact holds_raise _
    · exact holds_look _ _
  unfold scrubPath
  split
  · exact holds_pure _
  · refine Runs.handle ?_ fun e ↦ ?_
    · refine Holds.bind hopen ?_
      rintro ⟨desc, payload⟩
      refine (hauthenticate desc payload).bind fun _ ↦ Holds.bind (holds_look _ _) fun withdrawn ↦ ?_
      split
      · exact hI.runs_clearInventoryWithdrawal key
      · exact holds_pure _
    · split
      · exact holds_pure _
      · exact hI.holds_quarantineBadPath hooked busy key
      · exact hI.holds_quarantineBadPath hooked busy key
      · exact holds_raise _

end Quiet

/-! ### Runs -/

section

variable (store : TokenFileStore)

/-- The operation publishes these bytes for the key. -/
def DiskOp.Publishes (key : Digest) (data : Bytes) : DiskOp → Prop
  | .commitChunk _ k header payload => k = key ∧ FileOf store k header (.chunk payload) data
  | .commitStream _ k header pieces => k = key ∧ FileOf store k header (.stream pieces) data
  | _ => False

/-- Roots that these operations, in order, and crashes lead to. -/
inductive DiskHistory (start : Disk) : List DiskOp → Disk → Prop where
  | start : DiskHistory start [] start
  | step {ops : List DiskOp} {d : Disk} (h : DiskHistory start ops d) (op : DiskOp)
      (faults : List Fault) : DiskHistory start (ops ++ [op]) (op.run store faults d)
  | crash {ops : List DiskOp} {d d' : Disk} (h : DiskHistory start ops d) (hc : d.Crash d') :
      DiskHistory start ops d'

/-- Whatever a crash leaves, a path has a synced file that it had at the start or that one of
these operations published. -/
def Sourced (start : Disk) (ops : List DiskOp) (d : Disk) : Prop :=
  ∀ key f, d.files.Possible key (some f) → f.synced = true ∧
    (start.files.Possible key (some f) ∨ ∃ op ∈ ops, op.Publishes store key f.data)

variable {store} {start : Disk} {ops : List DiskOp}

private theorem quiet_sourced : Quiet (Sourced store start ops) where
  tmp _ _ h := h
  putShard _ _ h := h
  syncManifests _ h := h
  syncShard d part h key f hf := by
    rcases hf.of_syncWhere with hf | ⟨-, hf⟩
    · exact h key f (.inl hf)
    · exact h key f hf
  markers _ _ _ h := h
  remove d k h key f hf := by
    rcases Directory.Possible.of_remove hf with ⟨-, hnone⟩ | hf
    · cases hnone
    · exact h key f hf

private theorem tolerant_sourced {key : Digest} {header : TokenHeader} {input : CommitInput}
    {op : DiskOp} (hop : op ∈ ops) (hpublishes : ∀ data, FileOf store key header input data →
      op.Publishes store key data) :
    Tolerant store key header input (Sourced store start ops) where
  toCalm := quiet_sourced.toCalm
  link d data j h hfile k f hf := by
    rcases Directory.Possible.of_put hf with ⟨rfl, hdata⟩ | hf
    · cases hdata
      exact ⟨rfl, .inr ⟨op, hop, hpublishes data hfile⟩⟩
    · exact h k f hf

private theorem Sourced.mono {ops' : List DiskOp} {d : Disk} (h : Sourced store start ops d)
    (hsub : ops ⊆ ops') : Sourced store start ops' d := fun key f hf ↦
  ⟨(h key f hf).1, (h key f hf).2.imp_right fun ⟨op, hop, hp⟩ ↦ ⟨op, hsub hop, hp⟩⟩

private theorem Sourced.crash {d d' : Disk} (h : Sourced store start ops d) (hc : d.Crash d') :
    Sourced store start ops d' := by
  intro key f hf
  rcases hf with hf | hf
  · rcases hc.files key with ⟨hnone, -⟩ | ⟨v, hv, hdecay⟩
    · rw [hnone] at hf
      cases hf
    · rw [← hf] at hdecay
      cases v with
      | none => cases hdecay
      | some g =>
        have hg := h key g hv
        cases decays_synced hg.1 hdecay
        exact hg
  · rw [hc.stale key] at hf
    cases hf

/-- One operation, wherever it fails or is cut off. -/
theorem Sourced.step {d : Disk} (h : Sourced store start ops d) (op : DiskOp)
    (faults : List Fault) : Sourced store start (ops ++ [op]) (op.run store faults d) := by
  have hd : Sourced store start (ops ++ [op]) d := h.mono (List.subset_append_left _ _)
  have hop : op ∈ ops ++ [op] := List.mem_append_right _ (List.mem_singleton.mpr rfl)
  have hquiet : Quiet (Sourced store start (ops ++ [op])) := quiet_sourced
  cases op with
  | commitChunk env key header payload =>
    have htolerant : Tolerant store key header (.chunk payload) (Sourced store start _) :=
      tolerant_sourced hop fun data hfile ↦ ⟨rfl, hfile⟩
    exact (@runs_commit store env key header _ _ htolerant ⟨faults, d⟩ ⟨hd, trivial⟩).1
  | commitStream env key header pieces =>
    have htolerant : Tolerant store key header (.stream pieces) (Sourced store start _) :=
      tolerant_sourced hop fun data hfile ↦ ⟨rfl, hfile⟩
    exact (@runs_commit store env key header _ _ htolerant ⟨faults, d⟩ ⟨hd, trivial⟩).1
  | evict busy key => exact (hquiet.holds_evictPath busy key ⟨faults, d⟩ ⟨hd, trivial⟩).1
  | quarantineBad hooked busy key =>
    exact (hquiet.holds_quarantineBadPath hooked busy key ⟨faults, d⟩ ⟨hd, trivial⟩).1
  | acknowledgeAbsent keys =>
    exact (hquiet.holds_acknowledgeAbsent keys ⟨faults, d⟩ ⟨hd, trivial⟩).1
  | scrub hooked busy key =>
    exact (hquiet.holds_scrubPath store hooked busy key ⟨faults, d⟩ ⟨hd, trivial⟩).1
  | recover => exact (hquiet.holds_recover ⟨faults, d⟩ ⟨hd, trivial⟩).1

/-- Every file that may survive comes from the start or from a commit. -/
theorem DiskHistory.sourced {d : Disk} (h : DiskHistory store start ops d)
    (hstart : ∀ key f, start.files.Possible key (some f) → f.synced = true) :
    Sourced store start ops d := by
  induction h with
  | start => exact fun key f hf ↦ ⟨hstart key f hf, .inl hf⟩
  | step _ op faults ih => exact ih.step op faults
  | crash _ hc ih => exact ih.crash hc

end

/-! ### What is read was committed -/

section

variable {store : TokenFileStore}

/-- The operation commits this payload under the key. -/
def DiskOp.Commits (slotBytes : Nat) (key : Digest) (header : TokenHeader) (payload : Bytes) :
    DiskOp → Prop
  | .commitChunk _ k h p => k = key ∧ h = header ∧ (CommitInput.chunk p).Carries slotBytes payload
  | .commitStream _ k h pieces =>
    k = key ∧ h = header ∧ (CommitInput.stream pieces).Carries slotBytes payload
  | _ => False

/-- Bytes that an operation publishes open as what it commits. -/
theorem DiskOp.Publishes.opens {key : Digest} {data : Bytes} {op : DiskOp}
    (h : op.Publishes store key data) :
    ∃ header payload desc, op.Commits store.slotBytes key header payload ∧
      store.openData key data = .ok desc ∧ desc.parent = header.parent ∧
      desc.spanTokens = header.spanTokens ∧ desc.kind = header.kind ∧
      data.drop desc.payloadOffset = payload ∧ store.authenticate desc payload = .ok () := by
  have hfile : ∀ {k : Digest} {header : TokenHeader} {input : CommitInput},
      FileOf store k header input data → ∃ payload desc, input.Carries store.slotBytes payload ∧
        store.openData k data = .ok desc ∧ desc.parent = header.parent ∧
        desc.spanTokens = header.spanTokens ∧ desc.kind = header.kind ∧
        data.drop desc.payloadOffset = payload ∧ store.authenticate desc payload = .ok () := by
    intro k header input h
    obtain ⟨payload, desc, hcarries, hopen, -, hrest⟩ := h.opens
    rw [TokenFileStore.openBytes_eq_openData] at hopen
    exact ⟨payload, desc, hcarries, hopen, hrest⟩
  cases op with
  | commitChunk env k header payload =>
    obtain ⟨rfl, hof⟩ := h
    obtain ⟨payload', desc, hcarries, hrest⟩ := hfile hof
    exact ⟨header, payload', desc, ⟨rfl, rfl, hcarries⟩, hrest⟩
  | commitStream env k header pieces =>
    obtain ⟨rfl, hof⟩ := h
    obtain ⟨payload', desc, hcarries, hrest⟩ := hfile hof
    exact ⟨header, payload', desc, ⟨rfl, rfl, hcarries⟩, hrest⟩
  | evict _ _ => exact h.elim
  | quarantineBad _ _ _ => exact h.elim
  | acknowledgeAbsent _ => exact h.elim
  | scrub _ _ _ => exact h.elim
  | recover => exact h.elim

/-- An open that returns has read the file of its key. -/
theorem openPath_returned {key : Digest} {allowWithdrawn : Bool} {m : Machine Disk}
    {desc : TokenFileStore.FileDescriptor} {payload : Bytes}
    (h : (openPath store key allowWithdrawn m).1 = .returned (desc, payload)) :
    ∃ f, m.state.files.get? key = some f ∧ store.openData key f.data = .ok desc ∧
      payload = f.data.drop desc.payloadOffset := by
  have hgate : Runs (fun d ↦ d = m.state) (fun _ ↦ True) (withdrawalGate key allowWithdrawn)
      fun _ _ ↦ True := by
    unfold withdrawalGate
    split
    · exact runs_pure fun _ _ _ ↦ trivial
    · exact runs_look fun _ _ _ _ _ ↦ trivial
  have hopen : Runs (fun d ↦ d = m.state) (fun _ ↦ True) (openPath store key allowWithdrawn)
      fun r _ ↦ ∃ f, m.state.files.get? key = some f ∧ store.openData key f.data = .ok r.1 ∧
        r.2 = f.data.drop r.1.payloadOffset := by
    unfold openPath
    refine Runs.bind hgate fun withdrawn ↦ ?_
    split
    · exact runs_raise _
    · refine runs_look fun d r hd _ hr ↦ ?_
      rw [hd] at hr
      split at hr
      · cases hr
      · next f hf =>
        cases hdata : store.openData key f.data with
        | error e =>
          rw [hdata] at hr
          cases hr
        | ok found =>
          rw [hdata] at hr
          cases hr
          exact ⟨f, hf, hdata, rfl⟩
  exact (hopen m ⟨rfl, trivial⟩).2 _ h

/-- In every state of a run, with calls that fail, operations that are cut off and crashes at any
time, and in every state that a crash may leave then: a path has a file that was there at the
start, or a complete one that an operation of the run published for its key. So whatever an open
returns, under faults of its own and with withdrawn keys or without, is a payload that was
committed under this key, with the header it was committed with, and it authenticates. -/
theorem opened_bytes_were_committed {start d d' : Disk} {ops : List DiskOp}
    (h : DiskHistory store start ops d)
    (hstart : ∀ key f, start.files.Possible key (some f) → f.synced = true)
    (hnow : d' = d ∨ d.Crash d') (key : Digest) :
    (∀ f, d'.files.get? key = some f → f.synced = true ∧ (start.files.Possible key (some f) ∨
      ∃ op ∈ ops, op.Publishes store key f.data ∧ store.Complete key f.data)) ∧
    ∀ faults allowWithdrawn desc payload,
      (openPath store key allowWithdrawn ⟨faults, d'⟩).1 = .returned (desc, payload) →
      (∃ f, start.files.Possible key (some f) ∧ d'.files.get? key = some f) ∨
      ∃ op ∈ ops, ∃ header, op.Commits store.slotBytes key header payload ∧
        desc.parent = header.parent ∧ desc.spanTokens = header.spanTokens ∧
        desc.kind = header.kind ∧ store.authenticate desc payload = .ok () := by
  have hsourced : Sourced store start ops d' := by
    rcases hnow with rfl | hc
    · exact h.sourced hstart
    · exact (h.sourced hstart).crash hc
  have hcomplete : ∀ {f : DiskFile} {op : DiskOp}, op.Publishes store key f.data →
      store.Complete key f.data := by
    intro f op hp
    obtain ⟨header, payload, desc, -, hopen, -, -, -, hdrop, hauthentic⟩ := hp.opens
    exact ⟨desc, hopen, hdrop ▸ hauthentic⟩
  refine ⟨fun f hf ↦ ?_, fun faults allowWithdrawn desc payload hreturned ↦ ?_⟩
  · obtain ⟨hsynced, hsource⟩ := hsourced key f (.inl hf.symm)
    exact ⟨hsynced, hsource.imp_right fun ⟨op, hop, hp⟩ ↦ ⟨op, hop, hp, hcomplete hp⟩⟩
  · obtain ⟨f, hf, hopen, rfl⟩ := openPath_returned hreturned
    change d'.files.get? key = some f at hf
    obtain ⟨-, hsource⟩ := hsourced key f (.inl hf.symm)
    rcases hsource with hold | ⟨op, hop, hp⟩
    · exact .inl ⟨f, hold, hf⟩
    · refine .inr ⟨op, hop, ?_⟩
      obtain ⟨header, payload, desc', hcommits, hopen', hparent, hspan, hkind, hdrop, hauthentic⟩ :=
        hp.opens
      rw [hopen] at hopen'
      cases hopen'
      subst hdrop
      exact ⟨header, hcommits, hparent, hspan, hkind, hauthentic⟩

/-- A file on the disk after a commit on an empty root is complete. -/
theorem opened_bytes_were_committed_emptyRoot : ∃ d' : Disk, ∃ f : DiskFile,
    d'.files.get? (.ofNat 9) = some f ∧ boundedSample.Complete (.ofNat 9) f.data := by
  obtain ⟨desc, data, d', hrun, hfile, -⟩ := commit_emptyRoot
  have hempty : DiskHistory boundedSample emptyRoot [] emptyRoot := .start
  have hhistory := hempty.step
    (.commitStream sampleEnv (.ofNat 9) ⟨.data, none, 256⟩ ([sampleBlock].map .ok)) []
  unfold sampleInput at hrun
  rw [run_commitStream, hrun] at hhistory
  have hnone : ∀ key f, ¬ emptyRoot.files.Possible key (some f) := by
    intro key f h
    cases Directory.possible_durable.mp h
  obtain ⟨hfiles, -⟩ := opened_bytes_were_committed hhistory
    (fun key f h ↦ absurd h (hnone key f)) (.inl rfl) (.ofNat 9)
  rcases (hfiles _ hfile).2 with hold | ⟨op, -, -, hcomplete⟩
  · exact absurd hold (hnone _ _)
  · exact ⟨d', _, hfile, hcomplete⟩

end

end SpoolCache.Store

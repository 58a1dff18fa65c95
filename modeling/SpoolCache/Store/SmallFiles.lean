import SpoolCache.Base.Durable
import SpoolCache.Base.Fallible
import SpoolCache.Base.Json
import SpoolCache.Core.Values

/-!
# Small state files

`_atomic_small_write`, `_read_small_json` and `_cleanup_atomic_write_temporaries` of
`rank_store.py` on the `state` directory of a rank root. Every system call may fail, and the
process may end at any of them. A file is written under a temporary name, synced, and renamed
onto its target, so a target only ever has whole contents; the rename is durable when the
directory has been synced.
-/

namespace SpoolCache.Store

open SpoolCache.Base

/-- A file of the state directory; `synced` says that its contents survive a crash. -/
structure SmallFile where
  regular : Bool
  bytes : Bytes
  synced : Bool
  deriving DecidableEq

/-- The contents of a file that was not synced are lost in a crash. -/
def SmallFile.Decays (old new : SmallFile) : Prop :=
  new.regular = old.regular ∧ new.synced = true ∧ (old.synced = true → new.bytes = old.bytes)

/-- The names of a directory of small files: targets, and temporaries `.{target}.{nonce}.tmp`. -/
inductive SmallName (τ : Type) where
  | target (t : τ)
  | temporary (t : τ) (nonce : Nat)
  deriving DecidableEq

/-- A directory of small files. -/
abbrev SmallDirectory (τ : Type) := Directory (SmallName τ) SmallFile

/-- A program on a directory of small files. -/
abbrev SmallProgram (τ : Type) := Program PyError (SmallDirectory τ)

section

variable {τ : Type} [DecidableEq τ]

/-! ### System calls -/

/-- `os.open` with `O_CREAT | O_EXCL`. -/
def createExclusive (name : SmallName τ) : SmallProgram τ Unit :=
  .call (.osError "open") fun d ↦
    match d.get? name with
    | some _ => (.error (.osError "file exists"), d)
    | none => (.ok (), d.put name ⟨true, [], false⟩)

/-- `_write_all`. -/
def writeAll (name : SmallName τ) (payload : Bytes) : SmallProgram τ Unit :=
  .update (.osError "write") fun d ↦ d.modify name fun f ↦ { f with bytes := payload, synced := false }

/-- `os.fsync` of a file. -/
def fsyncFile (name : SmallName τ) : SmallProgram τ Unit :=
  .update (.osError "fsync") fun d ↦ d.modify name fun f ↦ { f with synced := true }

/-- `os.unlink`. -/
def unlink (name : SmallName τ) : SmallProgram τ Unit :=
  .call (.osError "unlink") fun d ↦
    match d.get? name with
    | none => (.error .fileNotFound, d)
    | some _ => (.ok (), d.remove name)

/-- `os.replace`. -/
def replace (source target : SmallName τ) : SmallProgram τ Unit :=
  .call (.osError "rename") fun d ↦
    match d.get? source with
    | none => (.error .fileNotFound, d)
    | some f => (.ok (), d.rename source target f)

/-- `_fsync_directory`. -/
def fsyncDirectory : SmallProgram τ Unit := .update (.osError "fsync") Directory.sync

/-! ### Functions of the source -/

/-- Unlinking a temporary that may be gone. -/
def unlinkMissingOk (name : SmallName τ) : SmallProgram τ Unit :=
  .handle (unlink name) fun e ↦ if e = .fileNotFound then pure () else .raise e

/-- `_atomic_small_write`, `rank_store.py:447–475`, with the nonce it draws. -/
def atomicSmallWrite (t : τ) (nonce : Nat) (payload : Bytes) : SmallProgram τ Unit := do
  createExclusive (.temporary t nonce)
  .onError (do
      writeAll (.temporary t nonce) payload
      fsyncFile (.temporary t nonce))
    (unlinkMissingOk (.temporary t nonce))
  .onError (replace (.temporary t nonce) (.target t)) (unlinkMissingOk (.temporary t nonce))
  fsyncDirectory

/-- `_read_small_json`, `rank_store.py:943–952`, on a file that is there. -/
def readSmallJson (maximum : Nat) (f : SmallFile) : Except PyError Json :=
  if f.regular = false ∨ f.bytes.length = 0 ∨ maximum < f.bytes.length then
    .error (.valueError "small JSON file size is invalid")
  else
    match Json.loads f.bytes with
    | none => .error (.valueError "not a JSON text")
    | some v => .ok v

/-- The nonces of the temporaries of a target. -/
def temporaries (t : τ) (d : SmallDirectory τ) : List Nat :=
  d.names.filterMap fun
    | .temporary t' nonce => if t' = t then some nonce else none
    | .target _ => none

/-- Removing the listed temporaries; the number of those removed. -/
def removeTemporaries (t : τ) : List Nat → SmallProgram τ Nat
  | [] => pure 0
  | nonce :: rest => do
    let metadata ← .look (.osError "stat") fun d ↦ .ok (d.get? (.temporary t nonce))
    match metadata with
    | none => removeTemporaries t rest
    | some f =>
      if f.regular = false then
        .raise (.valueError "inventory generation temporary is not a regular file")
      else
        let removed ← .handle (do unlink (.temporary t nonce); pure 1) fun e ↦
          if e = .fileNotFound then pure 0 else .raise e
        let count ← removeTemporaries t rest
        pure (removed + count)

/-- `_cleanup_atomic_write_temporaries`, `rank_store.py:955–984`. -/
def cleanupAtomicWriteTemporaries (t : τ) : SmallProgram τ Unit := do
  let nonces ← .look (.osError "scandir") fun d ↦ .ok (temporaries t d)
  let removed ← removeTemporaries t nonces
  if removed = 0 then pure () else fsyncDirectory

end

/-! ### What a write does -/

section

variable {τ : Type} [DecidableEq τ] (Good : τ → Option SmallFile → Prop)

/-- What every target may be after a crash. -/
def Targets (d : SmallDirectory τ) : Prop := ∀ t v, d.Possible (.target t) v → Good t v

variable {Good}

/-- Writing a temporary changes no target. -/
theorem Targets.put_temporary {d : SmallDirectory τ} (h : Targets Good d) (t : τ) (nonce : Nat)
    (f : SmallFile) : Targets Good (d.put (.temporary t nonce) f) := by
  intro t' v hv
  rcases hv.of_put with ⟨he, -⟩ | hv
  · cases he
  · exact h t' v hv

/-- Removing a temporary changes no target. -/
theorem Targets.remove_temporary {d : SmallDirectory τ} (h : Targets Good d) (t : τ)
    (nonce : Nat) : Targets Good (d.remove (.temporary t nonce)) := by
  intro t' v hv
  rcases hv.of_remove with ⟨he, -⟩ | hv
  · cases he
  · exact h t' v hv

/-- Changing a temporary changes no target. -/
theorem Targets.modify_temporary {d : SmallDirectory τ} (h : Targets Good d) (t : τ)
    (nonce : Nat) (f : SmallFile → SmallFile) :
    Targets Good (d.modify (.temporary t nonce) f) := by
  intro t' v hv
  rcases hv.of_modify with ⟨he, -⟩ | hv
  · cases he
  · exact h t' v hv

/-- A sync makes no bad target possible. -/
theorem Targets.sync {d : SmallDirectory τ} (h : Targets Good d) : Targets Good d.sync := by
  intro t v hv
  rw [Directory.possible_sync.mp hv]
  exact h t _ (d.possible_get? _)

/-- Unlinking a temporary keeps the targets good. -/
theorem runs_unlinkMissingOk (t : τ) (nonce : Nat) :
    Program.Runs (Targets Good) (fun _ ↦ True) (unlinkMissingOk (.temporary t nonce))
      fun _ _ ↦ True := by
  refine Program.Runs.handle (Program.runs_call ?_) ?_
  · intro d hd _
    refine ⟨?_, fun _ _ ↦ trivial⟩
    split
    · exact hd
    · exact hd.remove_temporary t nonce
  · intro e
    split
    · exact Program.runs_pure fun _ _ _ ↦ trivial
    · exact Program.runs_raise e

/-- A write changes its target to the whole payload or not at all; once it has returned, the
target has the payload for good. -/
theorem runs_atomicSmallWrite (t : τ) (nonce : Nat) (payload : Bytes)
    (hg : Good t (some ⟨true, payload, true⟩)) :
    Program.Runs (Targets Good) (fun _ ↦ True) (atomicSmallWrite t nonce payload)
      fun _ d ↦ ∀ v, d.Possible (.target t) v → v = some ⟨true, payload, true⟩ := by
  have hget : ∀ (d : SmallDirectory τ) name f g, d.get? name = some f →
      (d.modify name g).get? name = some (g f) := by
    intro d name f g hd
    unfold Directory.modify
    rw [hd]
    exact (OrderedDict.get?_set _ _ _ _).trans (if_pos rfl)
  unfold atomicSmallWrite
  refine Program.Runs.bind (X := fun _ d ↦ d.get? (.temporary t nonce) = some ⟨true, [], false⟩)
    (Program.runs_call ?_) fun _ ↦ ?_
  · intro d hd _
    split
    · exact ⟨hd, fun _ h ↦ (by cases h)⟩
    · refine ⟨hd.put_temporary t nonce _, fun _ _ ↦ ?_⟩
      exact (d.get?_put _ _ _).trans (if_pos rfl)
  refine Program.Runs.bind
    (X := fun _ d ↦ d.get? (.temporary t nonce) = some ⟨true, payload, true⟩) ?_ fun _ ↦ ?_
  · refine Program.Runs.onError (Program.Runs.bind
      (X := fun _ d ↦ d.get? (.temporary t nonce) = some ⟨true, payload, false⟩)
      (Program.runs_update ?_) fun _ ↦ Program.runs_update ?_) (runs_unlinkMissingOk t nonce)
    · intro d hd hf
      exact ⟨hd.modify_temporary t nonce _, hget d _ _ _ hf⟩
    · intro d hd hf
      exact ⟨hd.modify_temporary t nonce _, hget d _ _ _ hf⟩
  refine Program.Runs.bind (X := fun _ d ↦ d.get? (.target t) = some ⟨true, payload, true⟩)
    (Program.Runs.onError (Program.runs_call ?_) (runs_unlinkMissingOk t nonce))
    fun _ ↦ Program.runs_update ?_
  · intro d hd hf
    rw [hf]
    refine ⟨?_, fun _ _ ↦ ?_⟩
    · intro t' v hv
      rcases hv.of_rename with ⟨he, rfl⟩ | ⟨he, -⟩ | hv
      · cases he
        exact hg
      · cases he
      · exact hd t' v hv
    · exact (Directory.get?_put _ _ _ _).trans (if_pos rfl)
  · intro d hd hf
    refine ⟨hd.sync, ?_⟩
    intro v hv
    rw [Directory.possible_sync.mp hv, hf]

/-- What cleaning up temporaries does not break. -/
structure Settled (P : SmallDirectory τ → Prop) : Prop where
  remove : ∀ d t nonce, P d → P (d.remove (.temporary t nonce))
  sync : ∀ d, P d → P d.sync

/-- What is known of the targets does not depend on the temporaries. -/
theorem settled_targets : Settled (Targets Good) :=
  ⟨fun _ t nonce h ↦ h.remove_temporary t nonce, fun _ h ↦ h.sync⟩

/-- Two properties that do not depend on the temporaries, together. -/
theorem Settled.and {P Q : SmallDirectory τ → Prop} (hp : Settled P) (hq : Settled Q) :
    Settled fun d ↦ P d ∧ Q d :=
  ⟨fun d t nonce h ↦ ⟨hp.remove d t nonce h.1, hq.remove d t nonce h.2⟩,
    fun d h ↦ ⟨hp.sync d h.1, hq.sync d h.2⟩⟩

private theorem runs_removeTemporaries {P : SmallDirectory τ → Prop} (hp : Settled P) (t : τ)
    (nonces : List Nat) :
    Program.Runs P (fun _ ↦ True) (removeTemporaries t nonces) fun _ _ ↦ True := by
  induction nonces with
  | nil => exact Program.runs_pure fun _ _ _ ↦ trivial
  | cons nonce rest ih =>
    refine Program.Runs.bind (Program.runs_look fun _ _ _ _ _ ↦ trivial) fun f ↦ ?_
    cases f with
    | none => exact ih
    | some f =>
      dsimp only
      split
      · exact Program.runs_raise _
      refine Program.Runs.bind (Program.Runs.handle (Program.Runs.bind (X := fun _ _ ↦ True)
        (Program.runs_call ?_) fun _ ↦ Program.runs_pure fun _ _ _ ↦ trivial) fun e ↦ ?_)
        fun removed ↦ Program.Runs.bind ih fun count ↦ Program.runs_pure fun _ _ _ ↦ trivial
      · intro d hd _
        refine ⟨?_, fun _ _ ↦ trivial⟩
        split
        · exact hd
        · exact hp.remove d t nonce hd
      · split
        · exact Program.runs_pure fun _ _ _ ↦ trivial
        · exact Program.runs_raise e

/-- Removing the temporaries keeps every property that does not depend on them. -/
theorem runs_cleanup {P : SmallDirectory τ → Prop} (hp : Settled P) (t : τ) :
    Program.Runs P (fun _ ↦ True) (cleanupAtomicWriteTemporaries t) fun _ _ ↦ True := by
  refine Program.Runs.bind (Program.runs_look fun _ _ _ _ _ ↦ trivial) fun nonces ↦ ?_
  refine Program.Runs.bind (runs_removeTemporaries hp t nonces) fun removed ↦ ?_
  split
  · exact Program.runs_pure fun _ _ _ ↦ trivial
  · exact Program.runs_update fun d hd _ ↦ ⟨hp.sync d hd, trivial⟩

end

/-! ### Writes that are not cut off -/

section

variable {τ : Type} [DecidableEq τ]

private theorem uncut_unlinkMissingOk (name : SmallName τ) : (unlinkMissingOk name).Uncut := by
  refine Program.Uncut.handle (Program.uncut_call _ _) fun e ↦ ?_
  split
  · exact Program.uncut_pure ()
  · exact Program.uncut_raise e

/-- A small write ends by itself. -/
theorem uncut_atomicSmallWrite (t : τ) (nonce : Nat) (payload : Bytes) :
    (atomicSmallWrite t nonce payload).Uncut := by
  refine Program.Uncut.bind (Program.uncut_call _ _) fun _ ↦ ?_
  refine Program.Uncut.bind (Program.Uncut.onError (Program.Uncut.bind (Program.uncut_call _ _)
    fun _ ↦ Program.uncut_call _ _) (uncut_unlinkMissingOk _)) fun _ ↦ ?_
  exact Program.Uncut.bind (Program.Uncut.onError (Program.uncut_call _ _)
    (uncut_unlinkMissingOk _)) fun _ ↦ Program.uncut_call _ _

private theorem uncut_removeTemporaries (t : τ) (nonces : List Nat) :
    (removeTemporaries t nonces).Uncut := by
  induction nonces with
  | nil => exact Program.uncut_pure 0
  | cons nonce rest ih =>
    refine Program.Uncut.bind (Program.uncut_call _ _) fun f ↦ ?_
    cases f with
    | none => exact ih
    | some f =>
      dsimp only
      split
      · exact Program.uncut_raise _
      refine Program.Uncut.bind (Program.Uncut.handle (Program.Uncut.bind (Program.uncut_call _ _)
        fun _ ↦ Program.uncut_pure _) fun e ↦ ?_)
        fun removed ↦ Program.Uncut.bind ih fun count ↦ Program.uncut_pure _
      split
      · exact Program.uncut_pure _
      · exact Program.uncut_raise e

/-- Removing the temporaries ends by itself. -/
theorem uncut_cleanup (t : τ) : (cleanupAtomicWriteTemporaries t).Uncut := by
  refine Program.Uncut.bind (Program.uncut_call _ _) fun nonces ↦ ?_
  refine Program.Uncut.bind (uncut_removeTemporaries t nonces) fun removed ↦ ?_
  split
  · exact Program.uncut_pure ()
  · exact Program.uncut_call _ _

end

end SpoolCache.Store

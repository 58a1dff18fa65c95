import SpoolCache.Base.Locking

/-!
# The namespace lock and the staging credits

`token_files.py:323–683`, `token_mover.py:60–177`, `token_scrub.py:117–210`, `gpu.py:459–492`. The
threads of one rank share the namespace lock, the store's own buffer pool and the mover's pinned
pool. Each function is given by where it takes the lock and borrows credits; everything else is
local work that may raise, and `return` and `break` end an `alt` or a `loop` early.
-/

namespace SpoolCache.Store

open SpoolCache.Base

/-- The pool of `RankStore` and the pool of `TorchPageMover`. -/
inductive Pool where
  | store
  | mover
  deriving DecidableEq

namespace Locks

/-- `_quarantine_bad`, `token_files.py:346–351`; `_quarantine_manifest` takes the lock. -/
def quarantineBad : Code Pool := .alt .work (.withLock .work)

/-- `valid_chunk`, `token_files.py:323–344`. -/
def validChunk : Code Pool :=
  .withLock (.tryExcept
    (.seq .work (.tryFinally (.seq .work (.withCredit .store .work)) .work))
    (.alt .work quarantineBad))

/-! ### Readers -/

/-- `_chain`, `token_files.py:453–505`. -/
def chain : Code Pool :=
  .seq
    (.loop (.seq (.tryExcept .work (.alt .raise (.seq quarantineBad .raise)))
      (.alt .work (.seq (.alt .work quarantineBad) .raise))))
    (.seq (.alt .work (.tryExcept .work (.alt .raise (.seq quarantineBad .raise)))) .work)

/-- `lookup`, `token_files.py:507–526`. -/
def lookup : Code Pool :=
  .withLock (.seq .work (.tryExcept (.seq chain (.loop validChunk)) .work))

/-- `touch`, `token_files.py:528–538`. -/
def touch : Code Pool := .withLock .work

/-- `restore_view`, `token_files.py:540–566`, around the code of its caller. -/
def restoreView (body : Code Pool) : Code Pool :=
  .seq .work (.tryFinally
    (.seq (.withLock (.seq lookup .work)) (.seq body (.alt .work touch)))
    (.seq (.alt .work (.withLock .work)) .work))

/-- `_stream_large_object`, `token_files.py:647–682`. -/
def streamLargeObject (pool : Pool) : Code Pool :=
  .tryFinally
    (.tryExcept
      (.seq .work (.seq (.loop (.seq (.withCredit pool (.tryFinally .work .work)) .work)) .work))
      .raise)
    (.seq .work (.alt .work (.withLock quarantineBad)))

/-- One batch of `stream_objects`, `token_files.py:591–636`. -/
def streamBatch (pool : Pool) : Code Pool :=
  .tryFinally
    (.withCredit pool
      (.tryFinally (.loop (.tryFinally (.tryExcept .work (.seq .work .raise)) .work)) .work))
    (.alt .work (.withLock quarantineBad))

/-- `stream_objects`, `token_files.py:568–636`. -/
def streamObjects (pool : Pool) : Code Pool :=
  .seq .work (.loop (.alt (streamLargeObject pool) (streamBatch pool)))

/-- `restore_entry`, `gpu.py:494–575`, and a caller that streams through the store's own pool. -/
def restoreEntry (pool : Pool) : Code Pool :=
  .tryExcept (restoreView (.tryExcept (.seq .work (.tryFinally (streamObjects pool) .work)) .raise))
    .raise

/-! ### Scrubbers -/

/-- `step` of the scrubber, `token_scrub.py:117–210`. -/
def scrubStep : Code Pool :=
  .seq (.withLock .work)
    (.seq
      (.loop (.seq
        (.withLock (.seq .work (.alt .work (.seq
          (.tryExcept (.seq .work (.seq (.tryFinally (.withCredit .store .work) .work) .work))
            (.alt .work quarantineBad))
          .work))))
        .work))
      (.seq (.alt .work (.withLock .work)) .work))

/-! ### Committers -/

/-- `_publish_chunk`, `token_files.py:407–451`, with the code that writes the file. -/
def publishChunk (write : Code Pool) : Code Pool :=
  .seq .work (.seq
    (.tryFinally
      (.tryExcept (.seq write .work) (.seq (.alt .work (.tryExcept .work .work)) .raise))
      .work)
    .work)

/-- `commit_chunk`, `token_files.py:353–370`. -/
def commitChunk : Code Pool := .withLock (.seq .work (publishChunk .work))

/-- `commit_stream`, `token_files.py:372–405`, over pieces that are captured on demand. -/
def commitStream : Code Pool :=
  .withLock (.seq .work (publishChunk
    (.seq .work (.seq (.loop (.seq (.next .mover) .work)) (.seq (.next .mover) .work)))))

/-- `_commit_streamed`, `token_mover.py:160–177`. Each call of `next` returns the credit of the
range before it and borrows one for its own. -/
def commitStreamed : Code Pool := .seq .work (.closing .mover commitStream)

/-- The missing chunks of a batch, `token_mover.py:97–128`. -/
def commitMissing : Code Pool :=
  .alt commitStreamed (.closing .mover (.seq (.next .mover) (.seq (.loop commitChunk) .work)))

/-- The missing state of a boundary, `token_mover.py:134–148`. -/
def commitState : Code Pool :=
  .alt commitStreamed (.closing .mover (.seq (.next .mover) commitChunk))

/-- `commit_keys`, `token_mover.py:60–158`. -/
def commitKeys : Code Pool :=
  .seq .work (.seq
    (.loop (.withLock (.seq (.loop validChunk) (.seq (.alt .work commitMissing) .work))))
    (.seq (.alt .work (.withLock (.seq validChunk (.seq (.alt .work commitState) .work))))
      (.seq .work touch)))

/-! ### Threads -/

/-- What a thread of the rank does, any number of times. -/
inductive Role where
  | reader (pool : Pool)
  | authenticator
  | scrubber
  | committer

/-- The program of a thread. -/
def Role.program : Role → Code Pool
  | .reader pool => .loop (restoreEntry pool)
  | .authenticator => .loop validChunk
  | .scrubber => .loop scrubStep
  | .committer => .loop commitKeys

private theorem safe_program (role : Role) : role.program.safe false .none = true := by
  cases role with
  | reader pool => cases pool <;> decide
  | authenticator => decide
  | scrubber => decide
  | committer => decide

/-- In every state of every run of any number of threads: no thread that holds a credit is blocked
on the namespace lock, no thread waits for itself through others, and some thread moves as long as
one has something to do. -/
theorem no_deadlock {ι : Type} [DecidableEq ι] (role : ι → Role) (capacity : Pool → Nat)
    (s : LockSystem ι Pool) (h : s.Reachable capacity fun i ↦ (role i).program) :
    (∀ i, (s.thread i).credits ≠ [] → ¬ s.BlockedOnLock i) ∧
    (∀ i, ¬ Relation.TransGen (s.WaitsFor capacity) i i) ∧
    ((∀ p, 0 < capacity p) → (∃ i, (s.thread i).rest ≠ []) → ∃ s', LockStep capacity s s') := by
  have hs := lockInv_of_reachable (fun i ↦ safe_program (role i)) h
  refine ⟨fun i hi hblocked ↦ hi (hs.credits_of_blockedOnLock hblocked), hs.acyclic, ?_⟩
  rintro hcapacity ⟨i, hi⟩
  exact hs.progress hcapacity hi

private theorem runs_lookup : Runs lookup false [.lock, .unlock] false false :=
  .withLock (.seq (.work _ _) (.tryDone (.seq
    (.seq (.loopDone _) (.seq (.left (.work _ _)) (.work _ _))) (.loopDone _))))

/-- A batch whose file is corrupt. -/
theorem runs_streamBatch :
    Runs (streamBatch .store) false [.take .store, .give .store, .lock, .unlock] false true :=
  .tryFinally
    (.withCredit (.tryFinally
      (.loopRaise (.tryFinally (.tryCaught (.work _ true) (.seq (.work _ _) (.raise _)))
        (.work _ false)))
      (.work _ false)))
    (.right (.withLock (.left (.work _ false))))

private theorem runs_reader :
    Runs (Role.program (.reader .store)) false
      [.lock, .lock, .unlock, .unlock, .take .store, .give .store, .lock, .unlock, .lock, .unlock]
      false true :=
  .loopRaise (.tryPass (.seq (.work _ _) (.tryFinally
    (.seq (.withLock (.seq runs_lookup (.work _ false)))
      (.seqRaise (.tryPass (.seq (.work _ _) (.tryFinally
        (.seq (.work _ _) (.loopRaise (.right runs_streamBatch))) (.work _ false))))))
    (.seq (.right (.withLock (.work _ false))) (.work _ false)))))

private theorem runs_authenticator :
    Runs (Role.program .authenticator) false [.lock, .take .store, .give .store, .unlock] false
      false :=
  .loopStep (.withLock (.tryDone (.seq (.work _ _)
    (.tryFinally (.seq (.work _ _) (.withCredit (.work _ false))) (.work _ false)))))
    (.loopDone _)

/-- A reader of a corrupt file and an authenticator over one credit. -/
def reviewRole (reader : Bool) : Role := if reader then .reader .store else .authenticator

/-- The authenticator owns the lock and waits for the credit; the reader holds the credit and is
not blocked on the lock. -/
theorem reader_not_blocked : ∃ s : LockSystem Bool Pool,
    s.Reachable (fun _ ↦ 1) (fun i ↦ (reviewRole i).program) ∧
    (s.thread true).credits = [.store] ∧ 0 < (s.thread false).depth ∧
    s.BlockedOnPool (fun _ ↦ 1) false .store ∧ ¬ s.BlockedOnLock true := by
  let s₀ : LockSystem Bool Pool :=
    ⟨fun reader ↦ if reader then
        ⟨[.lock, .lock, .unlock, .unlock, .take .store, .give .store, .lock, .unlock, .lock,
          .unlock], 0, []⟩
      else ⟨[.lock, .take .store, .give .store, .unlock], 0, []⟩, fun _ ↦ []⟩
  have hstart : s₀.starts fun i ↦ (reviewRole i).program := by
    refine ⟨fun i ↦ ?_, fun _ ↦ rfl⟩
    cases i with
    | false => exact ⟨_, _, runs_authenticator, rfl⟩
    | true => exact ⟨_, _, runs_reader, rfl⟩
  have hother : ∀ {s : LockSystem Bool Pool}, (s.thread false).depth = 0 →
      ∀ j, j ≠ true → (s.thread j).depth = 0 := by
    intro s hs j hj
    rw [Bool.not_eq_true j |>.mp hj]
    exact hs
  have hreach : Relation.ReflTransGen (LockStep fun _ ↦ 1) s₀ _ :=
    .single (.lock (i := true) rfl (hother rfl))
  have hreach := hreach.tail (.lock (i := true) rfl (hother rfl))
  have hreach := hreach.tail (.unlock (i := true) rfl)
  have hreach := hreach.tail (.unlock (i := true) rfl)
  have hreach := hreach.tail (.take (i := true) rfl Nat.one_pos)
  have hreach := hreach.tail (.lock (i := false) rfl (by
    intro j hj
    rw [Bool.not_eq_false j |>.mp hj]
    rfl))
  have h : LockSystem.Reachable (fun _ ↦ 1) (fun i ↦ (reviewRole i).program) _ :=
    ⟨s₀, hstart, hreach⟩
  exact ⟨_, h, rfl, Nat.one_pos, ⟨⟨_, rfl⟩, Nat.le_refl _⟩,
    (no_deadlock reviewRole (fun _ ↦ 1) _ h).1 true (List.cons_ne_nil _ _)⟩

end Locks

end SpoolCache.Store

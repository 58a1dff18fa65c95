import Mathlib.Data.List.Basic
import Mathlib.Data.List.Perm.Basic
import Mathlib.Logic.Function.Basic
import Mathlib.Tactic.Common
import SpoolCache.Core.Values

/-!
# Staging slots and the stream that uses them

`gpu.py:74–183`, `gpu.py:459–492`, `gpu.py:553–621` and `token_files.py:600–675`. A slot is borrowed
from a queue, copies are submitted from or to it on one CUDA stream, and an event that is recorded
behind them guards its next use. One thread runs the mover: a capture is a generator that is left
suspended while its view is in use, and between its resumptions the thread may begin other captures
and restores. A copy is in flight until an event recorded behind it, or the stream, has been
synchronized.
-/

namespace SpoolCache.Mover

/-- `_PinnedSlot`, `gpu.py:26–34`. `recorded` is the number of copies that were submitted before the
last recording of `completion_event`. -/
structure PinnedSlot where
  pending : Bool
  recordFailed : Bool
  recorded : Nat

/-- A copy from or to a slot, and the borrow during which it was submitted. -/
structure SlotCopy where
  slot : Nat
  borrow : Nat

/-- The copies of the stream in the order of their submission. The first `done` have completed. -/
structure CopyStream where
  copies : List SlotCopy
  done : Nat

/-- A copy that has not completed. -/
def CopyStream.InFlight (stream : CopyStream) (copy : SlotCopy) : Prop :=
  ∃ i, stream.done ≤ i ∧ stream.copies[i]? = some copy

/-- `wait_until_reusable`, `gpu.py:74–79`; whether the event can be synchronized is given. -/
def PinnedSlot.waitUntilReusable (slot : PinnedSlot) (stream : CopyStream) (synchronizes : Bool) :
    Except PyError Unit × PinnedSlot × CopyStream :=
  if slot.recordFailed then
    (.error (.runtimeError "CUDA staging event recording failed; terminal drain required"),
      slot, stream)
  else if slot.pending then
    if synchronizes then
      (.ok (), { slot with pending := false },
        { stream with done := max stream.done slot.recorded })
    else (.error (.runtimeError "CUDA error"), slot, stream)
  else (.ok (), slot, stream)

/-- `record_use`, `gpu.py:81–87`; whether the event can be recorded is given. -/
def PinnedSlot.recordUse (slot : PinnedSlot) (stream : CopyStream) (records : Bool) :
    Except PyError Unit × PinnedSlot :=
  if slot.pending then
    (.error (.runtimeError "pinned staging slot is still owned by CUDA"), slot)
  else if records then (.ok (), ⟨true, false, stream.copies.length⟩)
  else (.error (.runtimeError "CUDA error"), { slot with pending := true, recordFailed := true })

/-- The flags of a slot guard copy `i` of the stream. -/
def PinnedSlot.Guards (slot : PinnedSlot) (i : Nat) : Prop :=
  slot.recordFailed = true ∨ slot.pending = true ∧ i < slot.recorded

/-- Who borrows: `_capture_packed`, or a credit of `stream_objects`. -/
inductive Borrower where
  | capture
  | restore
  deriving DecidableEq

/-- Where a borrow stands. -/
inductive BorrowPhase where
  /-- Taken from the queue, before `wait_until_reusable`. -/
  | acquired
  /-- Yielded by `acquire`; `submitted` is the flag of `_capture_packed`. -/
  | yielded (submitted : Bool)
  /-- In the `finally` that records the use of the slot; whether the body ended well. -/
  | recording (ok : Bool)
  /-- In the same `finally` of a capture, behind `record_use`. -/
  | settling (ok : Bool)
  /-- In the `finally` of `acquire`. -/
  | leaving (ok : Bool)

/-- A borrow of a slot, with its number. -/
structure SlotBorrow where
  slot : Nat
  number : Nat
  borrower : Borrower
  phase : BorrowPhase

/-- What the thread runs. -/
inductive MoverThread where
  | idle
  /-- In `stream_objects`, between two credits. -/
  | streaming
  | borrowing (borrow : SlotBorrow)
  /-- Before `stream.synchronize()`, `gpu.py:612`. -/
  | draining
  /-- Between `stream.synchronize()` and `mark_stream_synchronized()`. -/
  | drained

/-- The pool, the stream and the thread of a mover. `suspended` are the captures whose views are in
use, and `borrows` numbers the borrows. -/
structure MoverState where
  slots : Nat → PinnedSlot
  available : List Nat
  borrowed : Nat
  stream : CopyStream
  thread : MoverThread
  suspended : List SlotBorrow
  borrows : Nat

/-- `PinnedTensorPool.__init__`, `gpu.py:97–124`. -/
def MoverState.initial (slotCount : Nat) : MoverState :=
  { slots := fun _ ↦ ⟨false, false, 0⟩, available := List.range slotCount, borrowed := 0,
    stream := ⟨[], 0⟩, thread := .idle, suspended := [], borrows := 0 }

/-- What a step can be seen to do. -/
inductive PoolEvent where
  /-- `acquire` yields a slot. -/
  | yields (slot borrow : Nat)
  /-- `record_use` is called and finds `pending`. -/
  | records (slot : Nat) (pending : Bool)
  /-- The recording of an event fails. -/
  | recordFails (slot : Nat)
  /-- The stream has been synchronized. -/
  | synchronized
  /-- `mark_stream_synchronized` has run. -/
  | marked
  deriving DecidableEq

/-- The steps of the thread, with the outcomes that the device and the bodies decide. -/
inductive MoverAction where
  | beginCapture
  | beginRestore
  | beginCredit
  | wait (synchronizes : Bool)
  /-- `submitted = True`, `gpu.py:476`. -/
  | fragment
  | submit
  | finish (ok : Bool)
  | record (records : Bool)
  | settle (synchronizes : Bool)
  | closeCapture (index : Nat)
  | leave
  | endStream
  | synchronize (ok : Bool)
  | mark

namespace MoverState

/-- `acquire` up to its `try`, `gpu.py:142–156`. -/
def acquire (s : MoverState) (borrower : Borrower) : Option (MoverState × List PoolEvent) :=
  match s.available with
  | [] => none
  | slot :: rest => some ({ s with
      available := rest, borrowed := s.borrowed + 1, borrows := s.borrows + 1,
      thread := .borrowing ⟨slot, s.borrows, borrower, .acquired⟩ }, [])

/-- `mark_stream_synchronized`, `gpu.py:163–171`. -/
def markStreamSynchronized (s : MoverState) : Except PyError MoverState :=
  if s.borrowed ≠ 0 then .error (.runtimeError "cannot clear events while a slot is borrowed")
  else .ok { s with
    slots := fun i ↦ { s.slots i with pending := false, recordFailed := false } }

/-- A borrow goes on in another phase. -/
def goto (s : MoverState) (borrow : SlotBorrow) (phase : BorrowPhase) : MoverState :=
  { s with thread := .borrowing { borrow with phase } }

/-- A slot and the stream have changed. -/
def withSlot (s : MoverState) (index : Nat) (slot : PinnedSlot) (stream : CopyStream) :
    MoverState :=
  { s with slots := Function.update s.slots index slot, stream }

/-- The view of a capture is handed out, `gpu.py:490`. -/
def suspend (s : MoverState) (borrow : SlotBorrow) : MoverState :=
  { s with thread := .idle, suspended := borrow :: s.suspended }

/-- `slot.wait_until_reusable()` in `acquire`, `gpu.py:157–158`. -/
def waitStep (s : MoverState) (borrow : SlotBorrow) (synchronizes : Bool) :
    MoverState × List PoolEvent :=
  let out := (s.slots borrow.slot).waitUntilReusable s.stream synchronizes
  let s := s.withSlot borrow.slot out.2.1 out.2.2
  match out.1 with
  | .ok _ => (s.goto borrow (.yielded false), [.yields borrow.slot borrow.number])
  | .error _ => (s.goto borrow (.leaving false), [])

/-- The body of a borrow ends, `gpu.py:482–486` and `token_files.py:624–628`. -/
def finishStep (s : MoverState) (borrow : SlotBorrow) (submitted ok : Bool) : MoverState :=
  match borrow.borrower with
  | .restore => s.goto borrow (.recording ok)
  | .capture =>
    if submitted then s.goto borrow (.recording ok)
    else if ok then s.suspend borrow
    else s.goto borrow (.leaving false)

/-- `slot.record_use(stream)`, `gpu.py:486` and `token_files.py:628`. -/
def recordStep (s : MoverState) (borrow : SlotBorrow) (ok records : Bool) :
    MoverState × List PoolEvent :=
  let slot := s.slots borrow.slot
  let out := slot.recordUse s.stream records
  let s := s.withSlot borrow.slot out.2 s.stream
  let found : PoolEvent := .records borrow.slot slot.pending
  match out.1, borrow.borrower with
  | .ok _, .capture => (s.goto borrow (.settling ok), [found])
  | .ok _, .restore => (s.goto borrow (.leaving ok), [found])
  | .error _, _ =>
    (s.goto borrow (.leaving false),
      if slot.pending then [found] else [found, .recordFails borrow.slot])

/-- `slot.wait_until_reusable()` of a capture, `gpu.py:487`. -/
def settleStep (s : MoverState) (borrow : SlotBorrow) (ok synchronizes : Bool) : MoverState :=
  let out := (s.slots borrow.slot).waitUntilReusable s.stream synchronizes
  let s := s.withSlot borrow.slot out.2.1 out.2.2
  match out.1 with
  | .ok _ => if ok then s.suspend borrow else s.goto borrow (.leaving false)
  | .error _ => s.goto borrow (.leaving false)

/-- The `finally` of `acquire`, `gpu.py:159–162`. A failed credit ends `stream_objects`. -/
def leaveStep (s : MoverState) (borrow : SlotBorrow) (ok : Bool) : MoverState :=
  { s with
    borrowed := s.borrowed - 1, available := s.available ++ [borrow.slot],
    thread := match borrow.borrower with
      | .capture => .idle
      | .restore => if ok then .streaming else .draining }

/-- A step of the thread. -/
def step (s : MoverState) (action : MoverAction) : Option (MoverState × List PoolEvent) :=
  match s.thread, action with
  | .idle, .beginCapture => s.acquire .capture
  | .idle, .beginRestore => some ({ s with thread := .streaming }, [])
  | .idle, .closeCapture index =>
    match s.suspended[index]? with
    | none => none
    | some borrow =>
      some ({ s with suspended := s.suspended.eraseIdx index }.goto borrow (.leaving true), [])
  | .streaming, .beginCredit => s.acquire .restore
  | .streaming, .endStream => some ({ s with thread := .draining }, [])
  | .draining, .synchronize true =>
    some ({ s with
      stream := { s.stream with done := s.stream.copies.length }, thread := .drained },
      [.synchronized])
  | .draining, .synchronize false => some ({ s with thread := .idle }, [])
  | .drained, .mark =>
    match s.markStreamSynchronized with
    | .ok s => some ({ s with thread := .idle }, [.marked])
    | .error _ => some ({ s with thread := .idle }, [])
  | .borrowing borrow, action =>
    match borrow.phase, action with
    | .acquired, .wait synchronizes => some (s.waitStep borrow synchronizes)
    | .yielded _, .fragment => some (s.goto borrow (.yielded true), [])
    | .yielded true, .submit =>
      some ({ s with stream := { s.stream with
        copies := s.stream.copies ++ [⟨borrow.slot, borrow.number⟩] } }, [])
    | .yielded submitted, .finish ok => some (s.finishStep borrow submitted ok, [])
    | .recording ok, .record records => some (s.recordStep borrow ok records)
    | .settling ok, .settle synchronizes => some (s.settleStep borrow ok synchronizes, [])
    | .leaving ok, .leave => some (s.leaveStep borrow ok, [])
    | _, _ => none
  | _, _ => none

/-- A run of the mover, with what can be seen of it. -/
inductive Runs : MoverState → List PoolEvent → MoverState → Prop where
  | refl (s : MoverState) : Runs s [] s
  | step {s s' s'' : MoverState} {events events' : List PoolEvent} {action : MoverAction} :
    Runs s events s' → s'.step action = some (s'', events') → Runs s (events ++ events') s''

/-! ### What is held, and what guards a copy -/

/-- The borrows whose slots have not been put back. -/
def held (s : MoverState) : List SlotBorrow :=
  match s.thread with
  | .borrowing borrow => borrow :: s.suspended
  | _ => s.suspended

/-- The slot of a borrow that has been yielded and whose use has not been recorded. -/
def openSlot (s : MoverState) : Option Nat :=
  match s.thread with
  | .borrowing ⟨slot, _, _, .yielded _⟩ => some slot
  | .borrowing ⟨slot, _, _, .recording _⟩ => some slot
  | _ => none

/-- The slot and the number of a borrow whose copies no event covers yet. -/
def filling (s : MoverState) : Option (Nat × Nat) :=
  match s.thread with
  | .borrowing ⟨slot, number, _, .yielded true⟩ => some (slot, number)
  | .borrowing ⟨slot, number, _, .recording _⟩ => some (slot, number)
  | _ => none

/-- Every slot is in the queue or held, and the counter counts the held ones. -/
structure Credits (slotCount : Nat) (s : MoverState) : Prop where
  slots : (s.available ++ s.held.map SlotBorrow.slot).Perm (List.range slotCount)
  borrowed : s.borrowed = s.held.length

/-- Every copy in flight is guarded, or is of the borrow that is being filled. -/
structure Safe (s : MoverState) : Prop where
  unused : ∀ slot, s.openSlot = some slot →
    (s.slots slot).pending = false ∧ (s.slots slot).recordFailed = false
  guarded : ∀ i copy, s.stream.done ≤ i → s.stream.copies[i]? = some copy →
    (s.slots copy.slot).Guards i ∨ s.filling = some (copy.slot, copy.borrow)
  drained : s.thread = .drained → s.stream.copies.length ≤ s.stream.done

private theorem credits_initial (slotCount : Nat) : Credits slotCount (initial slotCount) := by
  refine ⟨?_, rfl⟩
  show (List.range slotCount ++ []).Perm (List.range slotCount)
  rw [List.append_nil]

private theorem safe_initial (slotCount : Nat) : Safe (initial slotCount) where
  unused _ h := by cases h
  guarded _ _ _ h := by cases h
  drained h := by cases h

/-- The available and the held slots add up. -/
theorem Credits.available_add_borrowed {slotCount : Nat} {s : MoverState}
    (h : Credits slotCount s) : s.available.length + s.borrowed = slotCount := by
  have hlength := h.slots.length_eq
  rw [List.length_append, List.length_map, List.length_range] at hlength
  rw [h.borrowed, hlength]

/-! ### Credits -/

section

variable {slotCount : Nat} {s s' : MoverState} {borrow : SlotBorrow} {events : List PoolEvent}

private theorem Credits.acquire (h : Credits slotCount s) (hheld : s.held = s.suspended)
    {borrower : Borrower} (hstep : s.acquire borrower = some (s', events)) :
    Credits slotCount s' := by
  unfold MoverState.acquire at hstep
  split at hstep
  · cases hstep
  · next slot rest havailable =>
    cases hstep
    have hslots := h.slots
    rw [havailable, hheld] at hslots
    refine ⟨List.perm_middle.trans hslots, ?_⟩
    show s.borrowed + 1 = s.suspended.length + 1
    rw [h.borrowed, hheld]

/-- Steps that neither take a slot nor put one back. -/
theorem Credits.of_eq (h : Credits slotCount s) (havailable : s'.available = s.available)
    (hborrowed : s'.borrowed = s.borrowed)
    (hheld : s'.held.map SlotBorrow.slot = s.held.map SlotBorrow.slot) : Credits slotCount s' := by
  refine ⟨?_, ?_⟩
  · rw [havailable, hheld]
    exact h.slots
  · have hlength := congrArg List.length hheld
    rw [List.length_map, List.length_map] at hlength
    rw [hborrowed, h.borrowed, hlength]

private theorem held_of_borrowing (hthread : s.thread = .borrowing borrow) :
    s.held = borrow :: s.suspended := by
  unfold held
  rw [hthread]

private theorem Credits.goto (h : Credits slotCount s) (hthread : s.thread = .borrowing borrow)
    (index : Nat) (slot : PinnedSlot) (stream : CopyStream) (phase : BorrowPhase) :
    Credits slotCount ((s.withSlot index slot stream).goto borrow phase) := by
  refine h.of_eq rfl rfl ?_
  rw [held_of_borrowing hthread]
  rfl

private theorem Credits.suspend (h : Credits slotCount s) (hthread : s.thread = .borrowing borrow)
    (index : Nat) (slot : PinnedSlot) (stream : CopyStream) :
    Credits slotCount ((s.withSlot index slot stream).suspend borrow) := by
  refine h.of_eq rfl rfl ?_
  rw [held_of_borrowing hthread]
  rfl

private theorem Credits.leave (h : Credits slotCount s) (hthread : s.thread = .borrowing borrow)
    (ok : Bool) : Credits slotCount (s.leaveStep borrow ok) := by
  have hheld := held_of_borrowing hthread
  have hheld' : (s.leaveStep borrow ok).held = s.suspended := by
    unfold leaveStep held
    cases borrow.borrower <;> cases ok <;> rfl
  refine ⟨?_, ?_⟩
  · rw [hheld']
    have hslots := h.slots
    rw [hheld] at hslots
    show (s.available ++ [borrow.slot] ++ s.suspended.map SlotBorrow.slot).Perm _
    rw [List.append_assoc]
    exact hslots
  · rw [hheld']
    show s.borrowed - 1 = s.suspended.length
    rw [h.borrowed, hheld, List.length_cons, Nat.add_sub_cancel]

private theorem Credits.closeCapture (h : Credits slotCount s) (hheld : s.held = s.suspended)
    {index : Nat} (hborrow : s.suspended[index]? = some borrow) (phase : BorrowPhase) :
    Credits slotCount
      ({ s with suspended := s.suspended.eraseIdx index }.goto borrow phase) := by
  have hperm : (borrow :: s.suspended.eraseIdx index).Perm s.suspended := by
    obtain ⟨hlt, hget⟩ := List.getElem?_eq_some_iff.mp hborrow
    rw [← hget]
    exact List.getElem_cons_eraseIdx_perm hlt
  refine ⟨?_, ?_⟩
  · have hslots := h.slots
    rw [hheld] at hslots
    exact ((hperm.map SlotBorrow.slot).append_left s.available).trans hslots
  · show s.borrowed = (borrow :: s.suspended.eraseIdx index).length
    rw [h.borrowed, hheld, hperm.length_eq]

end

/-! ### Copies in flight -/

section

variable {s s' : MoverState} {borrow : SlotBorrow} {events : List PoolEvent}

/-- A wait fails and changes nothing, or no copy that its slot guarded is in flight any more. -/
theorem waitUntilReusable_spec (slot : PinnedSlot) (stream : CopyStream) (synchronizes : Bool) :
    (∃ e, slot.waitUntilReusable stream synchronizes = (.error e, slot, stream)) ∨
    slot.recordFailed = false ∧ ∃ done, stream.done ≤ done ∧
      (∀ i, done ≤ i → ¬ slot.Guards i) ∧
      slot.waitUntilReusable stream synchronizes =
        (.ok (), { slot with pending := false }, ⟨stream.copies, done⟩) := by
  unfold PinnedSlot.waitUntilReusable
  split
  · exact .inl ⟨_, rfl⟩
  · next hfailed =>
    have hfailed : slot.recordFailed = false := eq_false_of_ne_true hfailed
    split
    · split
      · refine .inr ⟨hfailed, _, Nat.le_max_left _ _, ?_, rfl⟩
        intro i hi hguards
        rcases hguards with hf | ⟨_, hlt⟩
        · rw [hfailed] at hf
          cases hf
        · omega
      · exact .inl ⟨_, rfl⟩
    · next hpending =>
      have hpending : slot.pending = false := eq_false_of_ne_true hpending
      refine .inr ⟨hfailed, stream.done, Nat.le_refl _, ?_, ?_⟩
      · intro i _ hguards
        rcases hguards with hf | ⟨hp, _⟩
        · rw [hfailed] at hf
          cases hf
        · rw [hpending] at hp
          cases hp
      · rw [← hpending]

/-- The use of a slot that is not pending is recorded, or the slot is marked as failed; either way
every copy submitted so far is guarded. -/
theorem recordUse_spec {slot : PinnedSlot} (h : slot.pending = false) (stream : CopyStream)
    (records : Bool) :
    (slot.recordUse stream records).2.pending = true ∧
    (∀ i < stream.copies.length, (slot.recordUse stream records).2.Guards i) ∧
    ∀ e, (slot.recordUse stream records).1 = .error e →
      (slot.recordUse stream records).2.recordFailed = true := by
  unfold PinnedSlot.recordUse
  rw [h, if_neg Bool.false_ne_true]
  split
  · refine ⟨rfl, fun i hi ↦ .inr ⟨rfl, hi⟩, ?_⟩
    intro e he
    cases he
  · exact ⟨rfl, fun i _ ↦ .inl rfl, fun _ _ ↦ rfl⟩

private theorem Safe.acquire (h : Safe s) (hfilling : s.filling = none) {borrower : Borrower}
    (hstep : s.acquire borrower = some (s', events)) : Safe s' ∧ events = [] := by
  unfold MoverState.acquire at hstep
  split at hstep
  · cases hstep
  · cases hstep
    refine ⟨⟨?_, ?_, ?_⟩, rfl⟩
    · intro slot hopen
      cases hopen
    · intro i copy hi hcopy
      rcases h.guarded i copy hi hcopy with hguards | hfill
      · exact .inl hguards
      · rw [hfilling] at hfill
        cases hfill
    · intro hdrained
      cases hdrained

/-- A wait that fails leaves everything as it was, and one that succeeds leaves no copy of its slot
in flight. -/
theorem Safe.waited (h : Safe s) (hfilling : s.filling = none) {index : Nat} {synchronizes : Bool}
    {out : Except PyError Unit × PinnedSlot × CopyStream}
    (hout : (s.slots index).waitUntilReusable s.stream synchronizes = out) :
    out.2.2.copies = s.stream.copies ∧
    (∀ slot, (Function.update s.slots index out.2.1 slot).recordFailed =
      (s.slots slot).recordFailed) ∧
    (∀ i copy, out.2.2.done ≤ i → s.stream.copies[i]? = some copy →
      (Function.update s.slots index out.2.1 copy.slot).Guards i) ∧
    (out.1 = .ok () → out.2.1.pending = false ∧ out.2.1.recordFailed = false ∧
      ∀ i copy, out.2.2.done ≤ i → s.stream.copies[i]? = some copy → copy.slot ≠ index) := by
  have hguards : ∀ i copy, s.stream.done ≤ i → s.stream.copies[i]? = some copy →
      (s.slots copy.slot).Guards i := by
    intro i copy hi hcopy
    rcases h.guarded i copy hi hcopy with hguards | hfill
    · exact hguards
    · rw [hfilling] at hfill
      cases hfill
  rcases waitUntilReusable_spec (s.slots index) s.stream synchronizes with
    ⟨e, he⟩ | ⟨hfailed, done, hdone, hnone, hok⟩
  · rw [← hout, he]
    dsimp only
    rw [Function.update_eq_self]
    exact ⟨rfl, fun _ ↦ rfl, hguards, fun hc ↦ by cases hc⟩
  · rw [← hout, hok]
    have hne : ∀ i copy, done ≤ i → s.stream.copies[i]? = some copy → copy.slot ≠ index := by
      intro i copy hi hcopy heq
      have hguarded := hguards i copy (Nat.le_trans hdone hi) hcopy
      rw [heq] at hguarded
      exact hnone i hi hguarded
    refine ⟨rfl, ?_, ?_, fun _ ↦ ⟨rfl, hfailed, hne⟩⟩
    · intro slot
      by_cases hslot : slot = index
      · rw [hslot, Function.update_self]
      · rw [Function.update_of_ne hslot]
    · intro i copy hi hcopy
      rw [Function.update_of_ne (hne i copy hi hcopy)]
      exact hguards i copy (Nat.le_trans hdone hi) hcopy

/-- What the events of a step say about it. -/
structure Seen (s s' : MoverState) (events : List PoolEvent) : Prop where
  yields : ∀ slot n, .yields slot n ∈ events → events = [.yields slot n] ∧
    (s.slots slot).recordFailed = false ∧ ∀ copy, s'.stream.InFlight copy → copy.slot ≠ slot
  records : ∀ slot pending, .records slot pending ∈ events → pending = false
  recordFails : ∀ slot, .recordFails slot ∈ events → (s'.slots slot).recordFailed = true
  failed : .marked ∉ events → ∀ slot, (s.slots slot).recordFailed = true →
    (s'.slots slot).recordFailed = true
  marked : .marked ∈ events → events = [.marked] ∧ s.thread = .drained
  drained : s'.thread = .drained → events = [.synchronized]

/-- Nothing is seen of a step that keeps the flag of every failed slot. -/
theorem seen_nil (h : ∀ slot, (s.slots slot).recordFailed = true →
    (s'.slots slot).recordFailed = true) (hthread : s'.thread ≠ .drained) : Seen s s' [] where
  yields _ _ h := by cases h
  records _ _ h := by cases h
  recordFails _ h := by cases h
  failed _ := h
  marked h := by cases h
  drained h := absurd h hthread

private theorem filling_eq_none {phase : BorrowPhase} (hthread : s.thread = .borrowing borrow)
    (hphase : borrow.phase = phase)
    (h : phase ≠ .yielded true ∧ ∀ ok, phase ≠ .recording ok) : s.filling = none := by
  unfold filling
  rw [hthread]
  obtain ⟨slot, number, borrower, phase'⟩ := borrow
  cases hphase
  split
  · next heq =>
    cases heq
    exact absurd rfl h.1
  · next heq =>
    cases heq
    exact absurd rfl (h.2 _)
  · rfl

/-- Every copy in flight is guarded once nothing is being filled. -/
theorem safe_of_guarded (hcopies : s'.stream.copies = s.stream.copies)
    (hopen : ∀ slot, s'.openSlot = some slot →
      (s'.slots slot).pending = false ∧ (s'.slots slot).recordFailed = false)
    (hguarded : ∀ i copy, s'.stream.done ≤ i → s.stream.copies[i]? = some copy →
      (s'.slots copy.slot).Guards i ∨ s'.filling = some (copy.slot, copy.borrow))
    (hdrained : s'.thread = .drained → s'.stream.copies.length ≤ s'.stream.done) : Safe s' := by
  refine ⟨hopen, ?_, hdrained⟩
  rw [hcopies]
  exact hguarded

/-- The thread leaves the part in which the slot is filled. -/
theorem safe_settled {slots : Nat → PinnedSlot} {stream : CopyStream}
    (hcopies : stream.copies = s.stream.copies)
    (hguards : ∀ i copy, stream.done ≤ i → s.stream.copies[i]? = some copy →
      (slots copy.slot).Guards i) {thread : MoverThread}
    (hopen : { s with thread }.openSlot = none) (hdrained : thread ≠ .drained)
    (suspended : List SlotBorrow) (available : List Nat) (borrowed : Nat) :
    Safe { s with slots, stream, thread, suspended, available, borrowed } := by
  refine safe_of_guarded hcopies ?_ ?_ fun hc ↦ absurd hc hdrained
  · intro slot hslot
    exact absurd (hopen.symm.trans hslot) (by simp)
  · intro i copy hi hcopy
    exact .inl (hguards i copy hi hcopy)

private theorem Safe.waitStep (h : Safe s) (hthread : s.thread = .borrowing borrow)
    (hphase : borrow.phase = .acquired) (synchronizes : Bool) :
    Safe (s.waitStep borrow synchronizes).1 ∧
      Seen s (s.waitStep borrow synchronizes).1 (s.waitStep borrow synchronizes).2 := by
  have hfilling := filling_eq_none hthread hphase (by simp)
  unfold MoverState.waitStep
  generalize hout : (s.slots borrow.slot).waitUntilReusable s.stream synchronizes = out
  obtain ⟨hcopies, hfailed, hguards, hok⟩ := h.waited hfilling hout
  dsimp only
  split
  · next heq =>
    obtain ⟨hpending, hnofail, hnone⟩ := hok heq
    have hself : (Function.update s.slots borrow.slot out.2.1) borrow.slot = out.2.1 :=
      Function.update_self _ _ _
    refine ⟨safe_of_guarded hcopies ?_ ?_ ?_, ?_, ?_, ?_, ?_, ?_, ?_⟩
    · intro slot hopen
      cases hopen
      show (Function.update s.slots borrow.slot out.2.1 borrow.slot).pending = false ∧ _
      rw [hself]
      exact ⟨hpending, (congrArg PinnedSlot.recordFailed hself).trans hnofail⟩
    · intro i copy hi hcopy
      exact .inl (hguards i copy hi hcopy)
    · intro hdrained
      cases hdrained
    · intro slot n hmem
      cases List.mem_singleton.mp hmem
      refine ⟨rfl, ?_, ?_⟩
      · rw [← hfailed borrow.slot, hself, hnofail]
      · intro copy hflight
        obtain ⟨i, hi, hcopy⟩ := hflight
        have hcopy : out.2.2.copies[i]? = some copy := hcopy
        rw [hcopies] at hcopy
        exact hnone i copy hi hcopy
    · intro slot pending hmem
      cases List.mem_singleton.mp hmem
    · intro slot hmem
      cases List.mem_singleton.mp hmem
    · intro _ slot hslot
      exact (hfailed slot).trans hslot
    · intro hmem
      cases List.mem_singleton.mp hmem
    · intro hdrained
      cases hdrained
  · refine ⟨safe_settled hcopies hguards rfl (by simp) _ _ _, seen_nil ?_ (by simp [goto])⟩
    intro slot hslot
    exact (hfailed slot).trans hslot

private theorem Safe.settleStep (h : Safe s) (hthread : s.thread = .borrowing borrow) {ok : Bool}
    (hphase : borrow.phase = .settling ok) (synchronizes : Bool) :
    Safe (s.settleStep borrow ok synchronizes) ∧
      Seen s (s.settleStep borrow ok synchronizes) [] := by
  have hfilling := filling_eq_none hthread hphase (by simp)
  unfold MoverState.settleStep
  generalize hout : (s.slots borrow.slot).waitUntilReusable s.stream synchronizes = out
  obtain ⟨hcopies, hfailed, hguards, -⟩ := h.waited hfilling hout
  have hkept : ∀ slot, (s.slots slot).recordFailed = true →
      (Function.update s.slots borrow.slot out.2.1 slot).recordFailed = true := by
    intro slot hslot
    exact (hfailed slot).trans hslot
  have hleaving : Safe ((s.withSlot borrow.slot out.2.1 out.2.2).goto borrow (.leaving false)) ∧
      Seen s ((s.withSlot borrow.slot out.2.1 out.2.2).goto borrow (.leaving false)) [] :=
    ⟨safe_settled hcopies hguards rfl (by simp) _ _ _, seen_nil hkept (by simp [goto])⟩
  dsimp only
  split
  · split
    · exact ⟨safe_settled hcopies hguards rfl (by simp) _ _ _, seen_nil hkept (by simp [suspend])⟩
    · exact hleaving
  · exact hleaving

/-- Copies stay guarded while nothing is being filled. -/
theorem Safe.guards (h : Safe s) (hfilling : s.filling = none) (i : Nat) (copy : SlotCopy)
    (hi : s.stream.done ≤ i) (hcopy : s.stream.copies[i]? = some copy) :
    (s.slots copy.slot).Guards i := by
  rcases h.guarded i copy hi hcopy with hguards | hfill
  · exact hguards
  · rw [hfilling] at hfill
    cases hfill

private theorem Safe.recordStep (h : Safe s) (hthread : s.thread = .borrowing borrow) {ok : Bool}
    (hphase : borrow.phase = .recording ok) (records : Bool) :
    Safe (s.recordStep borrow ok records).1 ∧
      Seen s (s.recordStep borrow ok records).1 (s.recordStep borrow ok records).2 := by
  obtain ⟨hopen, hfilling⟩ : s.openSlot = some borrow.slot ∧
      s.filling = some (borrow.slot, borrow.number) := by
    unfold openSlot filling
    rw [hthread]
    obtain ⟨slot, number, borrower, phase⟩ := borrow
    cases hphase
    exact ⟨rfl, rfl⟩
  obtain ⟨hpending, hnofail⟩ := h.unused borrow.slot hopen
  obtain ⟨hset, hall, herror⟩ := recordUse_spec hpending s.stream records
  have hguards : ∀ i copy, s.stream.done ≤ i → s.stream.copies[i]? = some copy →
      (Function.update s.slots borrow.slot ((s.slots borrow.slot).recordUse s.stream records).2
        copy.slot).Guards i := by
    intro i copy hi hcopy
    by_cases hslot : copy.slot = borrow.slot
    · rw [hslot, Function.update_self]
      exact hall i (List.getElem?_eq_some_iff.mp hcopy).1
    · rw [Function.update_of_ne hslot]
      rcases h.guarded i copy hi hcopy with hguards | hfill
      · exact hguards
      · rw [hfilling] at hfill
        exact absurd (Prod.mk.inj (Option.some.inj hfill)).1.symm hslot
  have hkept : ∀ slot, (s.slots slot).recordFailed = true → (Function.update s.slots borrow.slot
      ((s.slots borrow.slot).recordUse s.stream records).2 slot).recordFailed = true := by
    intro slot hslot
    have hne : slot ≠ borrow.slot := by
      rintro rfl
      rw [hnofail] at hslot
      cases hslot
    rw [Function.update_of_ne hne]
    exact hslot
  have hthen : ∀ phase events, { s with thread := .borrowing { borrow with phase } }.openSlot = none →
      (∀ slot pending, .records slot pending ∈ events → pending = false) →
      (∀ slot n, .yields slot n ∉ events) → (.marked ∉ events) → 
      (∀ slot, .recordFails slot ∈ events → (Function.update s.slots borrow.slot
        ((s.slots borrow.slot).recordUse s.stream records).2 slot).recordFailed = true) →
      Safe ((s.withSlot borrow.slot ((s.slots borrow.slot).recordUse s.stream records).2
        s.stream).goto borrow phase) ∧
      Seen s ((s.withSlot borrow.slot ((s.slots borrow.slot).recordUse s.stream records).2
        s.stream).goto borrow phase) events := by
    intro phase events hopen hrecords hyields hmarked hfails
    refine ⟨safe_settled rfl hguards hopen (by simp) _ _ _, ?_, hrecords, hfails, fun _ ↦ hkept,
      ?_, ?_⟩
    · intro slot n hmem
      exact absurd hmem (hyields slot n)
    · intro hmem
      exact absurd hmem hmarked
    · intro hdrained
      cases hdrained
  unfold MoverState.recordStep
  dsimp only
  rw [hpending]
  split
  · exact hthen _ _ rfl (by simp) (by simp) (by simp) (by simp)
  · exact hthen _ _ rfl (by simp) (by simp) (by simp) (by simp)
  · next e heq =>
    refine hthen _ _ rfl (by simp) (by simp) (by simp) ?_
    intro slot hmem
    have hslot : slot = borrow.slot := by simpa using hmem
    rw [hslot, Function.update_self]
    exact herror e heq

private theorem openSlot_of_yielded (hthread : s.thread = .borrowing borrow) {submitted : Bool}
    (hphase : borrow.phase = .yielded submitted) : s.openSlot = some borrow.slot := by
  unfold openSlot
  rw [hthread]
  obtain ⟨slot, number, borrower, phase⟩ := borrow
  cases hphase
  rfl

/-- A yielded slot is used, or its use is about to be recorded. -/
theorem Safe.filling (h : Safe s) (hthread : s.thread = .borrowing borrow) {submitted : Bool}
    (hphase : borrow.phase = .yielded submitted) {p : BorrowPhase}
    (hnext : p = .yielded true ∨ ∃ ok, p = .recording ok) :
    Safe (s.goto borrow p) ∧ Seen s (s.goto borrow p) [] := by
  have hunused := h.unused borrow.slot (openSlot_of_yielded hthread hphase)
  obtain ⟨hopen, hfilling⟩ : (s.goto borrow p).openSlot = some borrow.slot ∧
      (s.goto borrow p).filling = some (borrow.slot, borrow.number) := by
    rcases hnext with rfl | ⟨ok, rfl⟩
    · exact ⟨rfl, rfl⟩
    · exact ⟨rfl, rfl⟩
  refine ⟨safe_of_guarded rfl ?_ ?_ ?_, seen_nil (fun _ hslot ↦ hslot) (by simp [goto])⟩
  · intro slot hslot
    rw [hopen] at hslot
    cases hslot
    exact hunused
  · intro i copy hi hcopy
    rcases h.guarded i copy hi hcopy with hguards | hfill
    · exact .inl hguards
    · -- only a borrow that has submitted is being filled, and it goes on
      refine .inr ?_
      rw [hfilling, ← hfill]
      unfold MoverState.filling
      rw [hthread]
      obtain ⟨slot, number, borrower, phase'⟩ := borrow
      cases hphase
      cases submitted with
      | true => rfl
      | false =>
        rw [filling_eq_none hthread rfl (by simp)] at hfill
        cases hfill
  · intro hdrained
    cases hdrained

private theorem Safe.finishStep (h : Safe s) (hthread : s.thread = .borrowing borrow)
    {submitted : Bool} (hphase : borrow.phase = .yielded submitted) (ok : Bool) :
    Safe (s.finishStep borrow submitted ok) ∧ Seen s (s.finishStep borrow submitted ok) [] := by
  have hrecording := h.filling hthread hphase (p := .recording ok) (.inr ⟨ok, rfl⟩)
  unfold MoverState.finishStep
  split
  · exact hrecording
  · split
    · exact hrecording
    · next hsubmitted =>
      -- nothing has been submitted, so the slot needs no event
      rw [Bool.not_eq_true] at hsubmitted
      subst hsubmitted
      have hguards := h.guards (filling_eq_none hthread hphase (by simp))
      split
      · exact ⟨safe_settled rfl hguards rfl (by simp) _ _ _,
          seen_nil (fun _ hslot ↦ hslot) (by simp [suspend])⟩
      · exact ⟨safe_settled rfl hguards rfl (by simp) _ _ _,
          seen_nil (fun _ hslot ↦ hslot) (by simp [goto])⟩

private theorem Safe.submit (h : Safe s) (hthread : s.thread = .borrowing borrow)
    (hphase : borrow.phase = .yielded true) :
    Safe { s with stream := { s.stream with
      copies := s.stream.copies ++ [⟨borrow.slot, borrow.number⟩] } } := by
  have hfilling : s.filling = some (borrow.slot, borrow.number) := by
    unfold MoverState.filling
    rw [hthread]
    obtain ⟨slot, number, borrower, phase⟩ := borrow
    cases hphase
    rfl
  refine ⟨h.unused, ?_, ?_⟩
  · intro i copy hi hcopy
    rcases Nat.lt_or_ge i s.stream.copies.length with hlt | hge
    · have hcopy : (s.stream.copies ++ [⟨borrow.slot, borrow.number⟩])[i]? = some copy := hcopy
      rw [List.getElem?_append_left hlt] at hcopy
      exact h.guarded i copy hi hcopy
    · have hcopy : (s.stream.copies ++ [⟨borrow.slot, borrow.number⟩])[i]? = some copy := hcopy
      rw [List.getElem?_append_right hge] at hcopy
      have hmem := List.mem_of_getElem? hcopy
      cases List.mem_singleton.mp hmem
      exact .inr hfilling
  · intro hdrained
    have hdrained : s.thread = .drained := hdrained
    rw [hthread] at hdrained
    cases hdrained

private theorem Safe.leaveStep (h : Safe s) (hthread : s.thread = .borrowing borrow) {ok : Bool}
    (hphase : borrow.phase = .leaving ok) :
    Safe (s.leaveStep borrow ok) ∧ Seen s (s.leaveStep borrow ok) [] := by
  have hguards := h.guards (filling_eq_none hthread hphase (by simp))
  unfold MoverState.leaveStep
  cases borrow.borrower <;> cases ok <;>
    exact ⟨safe_settled rfl hguards rfl (by simp) _ _ _,
      seen_nil (fun _ hslot ↦ hslot) (by simp)⟩

/-- Steps of a thread that holds no slot. -/
theorem Safe.goThread (h : Safe s) (hfilling : s.filling = none) {thread : MoverThread}
    (hthread : thread = .idle ∨ thread = .streaming ∨ thread = .draining) :
    Safe { s with thread } ∧ Seen s { s with thread } [] := by
  have hguards := h.guards hfilling
  rcases hthread with rfl | rfl | rfl <;>
    exact ⟨safe_settled rfl hguards rfl (by simp) _ _ _,
      seen_nil (fun _ hslot ↦ hslot) (by simp)⟩

private theorem safe_synchronize (s : MoverState) :
    Safe { s with stream := { s.stream with done := s.stream.copies.length }, thread := .drained } ∧
    Seen s { s with stream := { s.stream with done := s.stream.copies.length }, thread := .drained }
      [.synchronized] := by
  refine ⟨safe_of_guarded rfl (fun _ hc ↦ (by cases hc)) ?_
    fun _ ↦ Nat.le_refl _, by simp, by simp, by simp, fun _ _ hslot ↦ hslot, by simp, fun _ ↦ rfl⟩
  intro i copy hi hcopy
  rw [List.getElem?_eq_none hi] at hcopy
  cases hcopy

private theorem Safe.mark (h : Safe s) (hthread : s.thread = .drained)
    (hmark : s.markStreamSynchronized = .ok s') :
    Safe { s' with thread := .idle } ∧ Seen s { s' with thread := .idle } [.marked] := by
  unfold markStreamSynchronized at hmark
  split at hmark
  · cases hmark
  · cases hmark
    have hdone := h.drained hthread
    refine ⟨safe_of_guarded rfl (fun _ hc ↦ (by cases hc)) ?_
      (fun hc ↦ (by cases hc)), by simp, by simp, by simp, by simp, fun _ ↦ ⟨rfl, hthread⟩, by simp⟩
    intro i copy hi hcopy
    have hi : s.stream.done ≤ i := hi
    rw [List.getElem?_eq_none (Nat.le_trans hdone hi)] at hcopy
    cases hcopy

/-! ### Runs -/

private theorem filling_of_thread (h : ∀ borrow, s.thread ≠ .borrowing borrow) :
    s.filling = none ∧ s.held = s.suspended := by
  unfold MoverState.filling held
  cases hthread : s.thread with
  | borrowing borrow => exact absurd hthread (h borrow)
  | idle => exact ⟨rfl, rfl⟩
  | streaming => exact ⟨rfl, rfl⟩
  | draining => exact ⟨rfl, rfl⟩
  | drained => exact ⟨rfl, rfl⟩

/-- A step of a thread that holds a slot. -/
theorem step_borrowing {slotCount : Nat} (hcredits : Credits slotCount s) (h : Safe s)
    (hthread : s.thread = .borrowing borrow) {action : MoverAction}
    (hstep : s.step action = some (s', events)) :
    Credits slotCount s' ∧ Safe s' ∧ Seen s s' events := by
  unfold MoverState.step at hstep
  rw [hthread] at hstep
  have hsame : ∀ phase, Credits slotCount (s.goto borrow phase) := fun phase ↦
    hcredits.of_eq rfl rfl (by rw [held_of_borrowing hthread]; rfl)
  simp only at hstep
  split at hstep
  · next synchronizes hphase =>
    obtain ⟨rfl, rfl⟩ := Prod.ext_iff.mp (Option.some.inj hstep)
    refine ⟨?_, h.waitStep hthread hphase synchronizes⟩
    unfold MoverState.waitStep
    dsimp only
    split
    · exact hcredits.goto hthread _ _ _ _
    · exact hcredits.goto hthread _ _ _ _
  · next submitted hphase =>
    cases hstep
    exact ⟨hsame _, h.filling hthread hphase (.inl rfl)⟩
  · next hphase =>
    cases hstep
    have hsafe := h.submit hthread hphase
    rw [hthread] at hsafe
    exact ⟨hcredits.of_eq rfl rfl (by rw [held_of_borrowing hthread]; rfl), hsafe,
      seen_nil (fun _ hslot ↦ hslot) (by simp)⟩
  · next submitted ok hphase =>
    cases hstep
    refine ⟨?_, h.finishStep hthread hphase ok⟩
    have hsuspend : Credits slotCount (s.suspend borrow) :=
      hcredits.of_eq rfl rfl (by rw [held_of_borrowing hthread]; rfl)
    unfold MoverState.finishStep
    split
    · exact hsame _
    · split
      · exact hsame _
      · split
        · exact hsuspend
        · exact hsame _
  · next ok records hphase =>
    obtain ⟨rfl, rfl⟩ := Prod.ext_iff.mp (Option.some.inj hstep)
    refine ⟨?_, h.recordStep hthread hphase records⟩
    unfold MoverState.recordStep
    dsimp only
    split
    · exact hcredits.goto hthread _ _ _ _
    · exact hcredits.goto hthread _ _ _ _
    · exact hcredits.goto hthread _ _ _ _
  · next ok synchronizes hphase =>
    cases hstep
    refine ⟨?_, h.settleStep hthread hphase synchronizes⟩
    unfold MoverState.settleStep
    dsimp only
    split
    · split
      · exact hcredits.suspend hthread _ _ _
      · exact hcredits.goto hthread _ _ _ _
    · exact hcredits.goto hthread _ _ _ _
  · next ok hphase =>
    cases hstep
    exact ⟨hcredits.leave hthread ok, h.leaveStep hthread hphase⟩
  · cases hstep

/-- A step keeps every slot accounted for and every copy in flight guarded. -/
theorem step_safe {slotCount : Nat} (hcredits : Credits slotCount s) (h : Safe s)
    {action : MoverAction} (hstep : s.step action = some (s', events)) :
    Credits slotCount s' ∧ Safe s' ∧ Seen s s' events := by
  by_cases hborrowing : ∃ borrow, s.thread = .borrowing borrow
  · obtain ⟨borrow, hthread⟩ := hborrowing
    exact step_borrowing hcredits h hthread hstep
  · obtain ⟨hfilling, hheld⟩ := filling_of_thread (not_exists.mp hborrowing)
    have hguards := h.guards hfilling
    have hacquire : ∀ borrower, s.acquire borrower = some (s', events) →
        Credits slotCount s' ∧ Safe s' ∧ Seen s s' events := by
      intro borrower hacquire
      obtain ⟨hsafe, rfl⟩ := h.acquire hfilling hacquire
      refine ⟨hcredits.acquire hheld hacquire, hsafe, ?_⟩
      unfold MoverState.acquire at hacquire
      split at hacquire
      · cases hacquire
      · cases hacquire
        exact seen_nil (fun _ hslot ↦ hslot) (by simp)
    have hgo : ∀ thread, (thread = .idle ∨ thread = .streaming ∨ thread = .draining) →
        Credits slotCount { s with thread } := by
      intro thread hthread
      refine hcredits.of_eq rfl rfl ?_
      rw [hheld]
      rcases hthread with rfl | rfl | rfl <;> rfl
    unfold MoverState.step at hstep
    split at hstep
    · exact hacquire _ hstep
    · cases hstep
      exact ⟨hgo _ (by simp), h.goThread hfilling (by simp)⟩
    · split at hstep
      · cases hstep
      · next borrow hborrow =>
        cases hstep
        exact ⟨hcredits.closeCapture hheld hborrow _, safe_settled rfl hguards rfl (by simp) _ _ _,
          seen_nil (fun _ hslot ↦ hslot) (by simp [goto])⟩
    · exact hacquire _ hstep
    · cases hstep
      exact ⟨hgo _ (by simp), h.goThread hfilling (by simp)⟩
    · cases hstep
      refine ⟨hcredits.of_eq rfl rfl ?_, safe_synchronize s⟩
      rw [hheld]
      rfl
    · cases hstep
      exact ⟨hgo _ (by simp), h.goThread hfilling (by simp)⟩
    · next hthread =>
      split at hstep
      · next t hmark =>
        cases hstep
        refine ⟨?_, h.mark hthread hmark⟩
        unfold markStreamSynchronized at hmark
        split at hmark
        · cases hmark
        · cases hmark
          exact hcredits.of_eq rfl rfl (by rw [hheld]; rfl)
      · cases hstep
        exact ⟨hgo _ (by simp), h.goThread hfilling (by simp)⟩
    · next borrow hthread =>
      exact absurd ⟨borrow, hthread⟩ hborrowing
    · cases hstep

/-- A failed slot stays failed until the stream has been synchronized and its flags cleared. -/
structure History (s : MoverState) (events : List PoolEvent) : Prop where
  failed : ∀ before after slot, events = before ++ .recordFails slot :: after →
    ¬ [.synchronized, .marked] <:+: after → (s.slots slot).recordFailed = true
  reused : ∀ before between after slot n,
    events = before ++ .recordFails slot :: between ++ .yields slot n :: after →
      [.synchronized, .marked] <:+: between
  drained : s.thread = .drained → ∃ before, events = before ++ [.synchronized]

private theorem history_nil (s : MoverState) (h : s.thread ≠ .drained) : History s [] where
  failed before after slot heq := by simp at heq
  reused before between after slot n heq := by simp at heq
  drained hdrained := absurd hdrained h

private theorem History.step {events' : List PoolEvent} (h : History s events)
    (hseen : Seen s s' events') : History s' (events ++ events') := by
  -- a slot that failed before the step and is yielded by it
  have hyields : ∀ before between after slot n,
      events = before ++ .recordFails slot :: between → events' = .yields slot n :: after →
      [.synchronized, .marked] <:+: between := by
    intro before between after slot n hevents hevents'
    obtain ⟨-, hnofail, -⟩ := hseen.yields slot n (hevents' ▸ List.mem_cons_self)
    by_contra hno
    rw [h.failed before between slot hevents hno] at hnofail
    cases hnofail
  refine ⟨?_, ?_, ?_⟩
  · intro before after slot heq hno
    have hthis : ∀ l, events' = l ++ .recordFails slot :: after →
        (s'.slots slot).recordFailed = true := by
      intro l hevents
      apply hseen.recordFails
      rw [hevents]
      exact List.mem_append_right l List.mem_cons_self
    rcases List.append_eq_append_iff.mp heq with ⟨l, _, hevents⟩ | ⟨l, hevents, hafter⟩
    · exact hthis l hevents
    · cases l with
      | nil => exact hthis [] hafter.symm
      | cons e l =>
        obtain ⟨rfl, rfl⟩ := List.cons.inj hafter
        have hl : ¬ [.synchronized, .marked] <:+: l := fun hin ↦
          hno (hin.trans (List.prefix_append l events').isInfix)
        have hfailed := h.failed before l slot hevents hl
        refine hseen.failed (fun hm ↦ ?_) slot hfailed
        -- the step clears the flags, and the event before it is the synchronization
        obtain ⟨hmarked, hthread⟩ := hseen.marked hm
        obtain ⟨front, hfront⟩ := h.drained hthread
        rw [hevents] at hfront
        rcases List.eq_nil_or_concat l with rfl | ⟨init, last, rfl⟩
        · cases (List.append_inj' hfront rfl).2
        · rw [List.concat_eq_append, ← List.cons_append, ← List.append_assoc] at hfront
          cases (List.append_inj' hfront rfl).2
          apply hno
          rw [hmarked, List.concat_eq_append]
          show _ <:+: init ++ [.synchronized] ++ [.marked]
          rw [List.append_assoc]
          exact (List.suffix_append init _).isInfix
  · intro before between after slot n heq
    rcases List.append_eq_append_iff.mp heq with ⟨l, hbefore, hevents⟩ | ⟨l, hevents, hafter⟩
    · obtain ⟨hsingle, -⟩ := hseen.yields slot n (hevents ▸ by simp)
      have hnil : l = [] := by
        rw [hsingle] at hevents
        cases l with
        | nil => rfl
        | cons e l => simp at hevents
      subst hnil
      rw [List.append_nil] at hbefore
      exact hyields before between after slot n hbefore.symm hevents
    · cases l with
      | nil =>
        rw [List.append_nil] at hevents
        exact hyields before between after slot n hevents hafter.symm
      | cons e l =>
        obtain ⟨rfl, rfl⟩ := List.cons.inj hafter
        exact h.reused before between l slot n hevents
  · intro hdrained
    rw [hseen.drained hdrained]
    exact ⟨events, rfl⟩

private theorem runs_safe {slotCount : Nat} (h : Runs (initial slotCount) events s) :
    Credits slotCount s ∧ Safe s ∧ History s events := by
  induction h with
  | refl =>
    exact ⟨credits_initial slotCount, safe_initial slotCount, history_nil _ (by simp [initial])⟩
  | step _ hstep ih =>
    obtain ⟨hcredits, hsafe, hhistory⟩ := ih
    obtain ⟨hcredits', hsafe', hseen⟩ := step_safe hcredits hsafe hstep
    exact ⟨hcredits', hsafe', hhistory.step hseen⟩

/-- In every run the slots in the queue and the borrowed ones add up; `acquire` yields no slot with
a copy in flight; `record_use` never finds a slot pending; and a slot whose recording failed is
yielded again only after the stream has been synchronized and the flags have been cleared. -/
theorem slots_never_reused_in_flight (slotCount : Nat) {events : List PoolEvent} {s : MoverState}
    (h : Runs (initial slotCount) events s) :
    (s.available.length + s.borrowed = slotCount ∧ s.borrowed = s.held.length ∧
      (s.available ++ s.held.map SlotBorrow.slot).Perm (List.range slotCount)) ∧
    (∀ action s' events', s.step action = some (s', events') →
      (∀ slot n, .yields slot n ∈ events' →
        ∀ copy, s'.stream.InFlight copy → copy.slot ≠ slot) ∧
      ∀ slot pending, .records slot pending ∈ events' → pending = false) ∧
    ∀ before between after slot n,
      events = before ++ .recordFails slot :: between ++ .yields slot n :: after →
        [.synchronized, .marked] <:+: between := by
  obtain ⟨hcredits, hsafe, hhistory⟩ := runs_safe h
  refine ⟨⟨hcredits.available_add_borrowed, hcredits.borrowed, hcredits.slots⟩, ?_,
    hhistory.reused⟩
  intro action s' events' hstep
  obtain ⟨-, -, hseen⟩ := step_safe hcredits hsafe hstep
  exact ⟨fun slot n hmem ↦ (hseen.yields slot n hmem).2.2, hseen.records⟩

end

/-- The steps of a list of actions. -/
def run (s : MoverState) : List MoverAction → Option (MoverState × List PoolEvent)
  | [] => some (s, [])
  | action :: actions =>
    match s.step action with
    | none => none
    | some (s', events) =>
      match s'.run actions with
      | none => none
      | some (s'', events') => some (s'', events ++ events')

private theorem Runs.run {start s s' : MoverState} {events events' : List PoolEvent}
    {actions : List MoverAction} (h : Runs start events s)
    (hrun : s.run actions = some (s', events')) : Runs start (events ++ events') s' := by
  induction actions generalizing s events events' with
  | nil =>
    cases hrun
    rw [List.append_nil]
    exact h
  | cons action actions ih =>
    unfold MoverState.run at hrun
    split at hrun
    · cases hrun
    · next hstep =>
      split at hrun
      · cases hrun
      · next hrest =>
        cases hrun
        rw [← List.append_assoc]
        exact ih (h.step hstep) hrest

/-- The recording of a capture fails, a restore drains the stream, and the slot is used again. -/
theorem failed_slot_reused_after_drain :
    ∃ s, Runs (initial 1) [.yields 0 0, .records 0 false, .recordFails 0, .synchronized, .marked,
        .yields 0 1] s ∧
      s.available.length + s.borrowed = 1 ∧
      [.synchronized, .marked] <:+: [PoolEvent.synchronized, .marked] := by
  have hrun := Runs.run (Runs.refl (initial 1)) (show (initial 1).run [.beginCapture, .wait true,
    .fragment, .submit, .finish true, .record false, .leave, .beginRestore, .endStream,
    .synchronize true, .mark, .beginCapture, .wait true] = some (_, _) from rfl)
  obtain ⟨⟨hslots, -, -⟩, -, hreused⟩ := slots_never_reused_in_flight 1 hrun
  exact ⟨_, hrun, hslots, hreused [.yields 0 0, .records 0 false] _ [] 0 1 rfl⟩

end MoverState

end SpoolCache.Mover

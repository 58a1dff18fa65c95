import SpoolCache.Base.Paging
import SpoolCache.Quorum.Catalog

/-!
# Worker inventory reporter

`quorum.py:59–250`. The reporter keeps the entries the worker holds (`held`) and the image it
has told the scheduler about (`observed`). A report carries one page of a rolling checkpoint of
`observed` and one retained delta. Removals are told at once: in the next delta, or, when they
do not fit a report, by a deliberate gap in the sequence numbers.
-/

namespace SpoolCache.Quorum

open SpoolCache.Base
open QuorumCatalog (updatedImage pushBounded)

/-- Identity and bounds a reporter is built with; the constructor rejects other values
(`quorum.py:62–92`). -/
structure ReporterConfig where
  rank : Nat
  generation : String
  generationEpoch : Nat
  bounds : InventoryBounds
  rank_lt : rank < maxInventoryReports
  generation_ne : generation ≠ ""
  generation_le : generation.length ≤ maxGenerationLength
  epoch_le : generationEpoch ≤ maxCounter

/-- The sample generation has a name. -/
theorem generation_ne_empty : "g" ≠ "" := by decide

/-- The name of the sample generation is short enough. -/
theorem length_generation_le : "g".length ≤ maxGenerationLength := by decide

/-- A reporter may keep a report. -/
theorem maxInventoryReports_pos : 0 < maxInventoryReports := by decide

/-- The first epoch is within the counter. -/
theorem one_le_maxCounter : 1 ≤ maxCounter := by decide

/-- Room for four entries, and two entries a report. -/
def sampleBounds : InventoryBounds := ⟨1, 4, 2, Nat.one_pos, Nat.succ_pos _, Nat.two_pos⟩

/-- A reporter of rank 0 with these bounds. -/
def sampleReporterConfig : ReporterConfig :=
  ⟨0, "g", 1, sampleBounds, maxInventoryReports_pos, generation_ne_empty, length_generation_le,
    one_le_maxCounter⟩

/-- Process identity of the reporter. -/
def ReporterConfig.identity (config : ReporterConfig) : Identity :=
  (config.generation, config.generationEpoch)

/-- State of `InventoryReporter`, `quorum.py:93–106`. -/
structure InventoryReporter where
  config : ReporterConfig
  held : Image
  observed : Image
  dirty : Bool
  sequence : Nat
  history : List InventoryDelta
  deltaCursor : Nat
  checkpointItems : List Entry
  checkpointSequence : Nat
  checkpointCycle : Nat
  checkpointIndex : Nat

namespace InventoryReporter

/-- Initial state, `quorum.py:93–106`. -/
def create (config : ReporterConfig) : InventoryReporter where
  config := config
  held := .empty
  observed := .empty
  dirty := false
  sequence := 0
  history := []
  deltaCursor := 0
  checkpointItems := []
  checkpointSequence := 0
  checkpointCycle := 0
  checkpointIndex := 0

/-! ### Local inventory -/

/-- The items `replace` keeps: it stops before the one that would pass the bound,
`quorum.py:114–118`. -/
def selectEntries (bounds : InventoryBounds) : Nat → List RawEntry → List RawEntry
  | _, [] => []
  | count, item :: items =>
    if bounds.overBound (count + 1) then [] else item :: selectEntries bounds (count + 1) items

/-- `replace`, `quorum.py:108–121`. -/
def replace (r : InventoryReporter) (entries : List RawEntry) :
    Except PyError InventoryReporter := do
  let selected ← validateEntries (selectEntries r.config.bounds 0 entries)
  pure { r with held := .ofItems selected.reverse, dirty := true }

/-- `_held.pop(next(iter(_held)))`. -/
def popOldest (held : Image) : Image :=
  match held.keys with
  | [] => held
  | k :: _ => held.erase k

/-- `add`, `quorum.py:123–130`. -/
def add (r : InventoryReporter) (entryId : Option Digest) (span : PyInt) :
    Except PyError InventoryReporter := do
  let (k, s) ← validateEntry (.pair entryId span)
  let previous := r.held.get? k
  let held := r.held.erase k
  let held := if r.config.bounds.overBound (held.size + 1) then popOldest held else held
  pure { r with
    held := held.set k s
    dirty := r.dirty || decide (previous ≠ some s) }

/-- `remove`, `quorum.py:132–134`. A text that is no digest is never held. -/
def remove (r : InventoryReporter) (entryId : Digest) : InventoryReporter :=
  { r with
    held := r.held.erase entryId
    dirty := r.dirty || (r.held.get? entryId).isSome }

/-- `startup`: the whole held image, now observed, `quorum.py:142–151`. -/
def startup (r : InventoryReporter) : List Entry × InventoryReporter :=
  (r.held.sortedItems,
    { r with
      observed := r.held
      dirty := false
      checkpointItems := r.held.sortedItems
      checkpointSequence := r.sequence })

/-! ### Reports -/

/-- Length of the retained delta history, `quorum.py:98`. -/
def historyLimit : Nat := 64

/-- Observed keys whose value is not held any more, sorted, `quorum.py:166–169`. -/
def removedKeys (r : InventoryReporter) : List Digest :=
  ((r.observed.items.filter fun e ↦ decide (r.held.get? e.1 ≠ some e.2)).map
    Prod.fst).insertionSort (· ≤ ·)

/-- The first `limit` held entries with unobserved keys, sorted, `quorum.py:172–175`. -/
def addedEntries (r : InventoryReporter) (limit : Nat) : List Entry :=
  ((r.held.items.filter fun e ↦ decide (e.1 ∉ r.observed.keys)).insertionSort
    fun p q ↦ p.1 ≤ q.1).take limit

/-- The delta that tells the removals and as many additions as fit, `quorum.py:171–185`. -/
def deltaOf (r : InventoryReporter) (batch : Nat) : InventoryDelta where
  sequence := r.sequence + 1
  baseSequence := r.sequence
  added := r.addedEntries (batch - r.removedKeys.length)
  removed := r.removedKeys

/-- The empty delta that skips a sequence number, `quorum.py:190–196`. -/
def gapDelta (r : InventoryReporter) : InventoryDelta where
  sequence := r.sequence + 2
  baseSequence := r.sequence + 1
  added := []
  removed := []

/-- Tell a mutation: advance the observed image, `quorum.py:170–199`. -/
def advance (r : InventoryReporter) (batch : Nat) : InventoryReporter :=
  if r.removedKeys.length ≤ batch then
    { r with
      sequence := r.sequence + 1
      observed := updatedImage r.observed (r.deltaOf batch)
      history := pushBounded historyLimit r.history (r.deltaOf batch) }
  else
    { r with
      sequence := r.sequence + 2
      observed := r.held
      history := [r.gapDelta] }

/-- Restart the rolling checkpoint at the newest delta, `quorum.py:207–213`. -/
def restartCheckpoint (r : InventoryReporter) : InventoryReporter :=
  { r with
    deltaCursor := r.history.length - 1
    checkpointItems := r.observed.sortedItems
    checkpointSequence := r.sequence
    checkpointCycle := r.checkpointCycle + 1
    checkpointIndex := 0 }

/-- First half of `next_report`, `quorum.py:161–218`. -/
def observe (r : InventoryReporter) (batch : Nat) : InventoryReporter :=
  let r :=
    if r.dirty = true ∧ OrderedDict.sameItems r.held r.observed = false then
      (r.advance batch).restartCheckpoint
    else r
  { r with dirty := decide (r.held.size ≠ r.observed.size) }

/-- The checkpoint page a report carries, `quorum.py:220–233`. -/
def checkpointPage (r : InventoryReporter) (batch : Nat) : InventoryCheckpoint where
  sequence := r.checkpointSequence
  cycle := r.checkpointCycle
  index := r.checkpointIndex
  count := pageCount batch r.checkpointItems.length
  heldCount := r.checkpointItems.length
  entries := page batch r.checkpointIndex r.checkpointItems

/-- The retained delta a report carries, `quorum.py:238–241`. -/
def nextDelta (r : InventoryReporter) : Option InventoryDelta :=
  r.history[r.deltaCursor % r.history.length]?

/-- Cursors after a report, `quorum.py:234–242`. -/
def advanceCursors (r : InventoryReporter) (batch : Nat) : InventoryReporter :=
  let count := pageCount batch r.checkpointItems.length
  let wrapped := count ≤ r.checkpointIndex + 1
  { r with
    checkpointIndex := if wrapped then 0 else r.checkpointIndex + 1
    checkpointCycle := if wrapped then r.checkpointCycle + 1 else r.checkpointCycle
    deltaCursor :=
      if r.history = [] then r.deltaCursor else (r.deltaCursor + 1) % r.history.length }

/-- `next_report`, `quorum.py:153–250`. -/
def nextReport (r : InventoryReporter) (batchSize : PyInt) :
    Except PyError (WorkerInventoryReport × InventoryReporter) :=
  match batchSize with
  | none => .error (.valueError "inventory batch size exceeds its fixed bound")
  | some n =>
    if n ≤ 0 ∨ (r.config.bounds.maxReportEntries : Int) < n then
      .error (.valueError "inventory batch size exceeds its fixed bound")
    else
      let batch := n.toNat
      let r := r.observe batch
      .ok (⟨r.config.rank, r.config.generation, r.config.generationEpoch,
          r.checkpointPage batch, r.nextDelta⟩,
        r.advanceCursors batch)

/-! ### Runs of one worker -/

/-- Changes of the local inventory. -/
inductive Mutation where
  | replace (entries : List RawEntry)
  | add (entryId : Option Digest) (span : PyInt)
  | remove (entryId : Digest)

/-- The reporter after a mutation; one that raises changes nothing. -/
def mutate (r : InventoryReporter) : Mutation → InventoryReporter
  | .replace entries =>
    match r.replace entries with
    | .ok r' => r'
    | .error _ => r
  | .add entryId span =>
    match r.add entryId span with
    | .ok r' => r'
    | .error _ => r
  | .remove entryId => r.remove entryId

/-- What a worker does after its startup: mutations and reports. -/
inductive Op where
  | mutate (m : Mutation)
  | report

/-- A report with the held image and the observed image at the moment it was produced. -/
structure Emission where
  report : WorkerInventoryReport
  held : Image
  observed : Image

/-- One operation, with a constant batch size. -/
def step (batchSize : PyInt) (r : InventoryReporter) : Op → InventoryReporter × Option Emission
  | .mutate m => (r.mutate m, none)
  | .report =>
    match r.nextReport batchSize with
    | .ok (report, r') => (r', some ⟨report, r'.held, r'.observed⟩)
    | .error _ => (r, none)

/-- Reports of a run, in order. -/
def emissions (batchSize : PyInt) : InventoryReporter → List Op → List Emission
  | _, [] => []
  | r, op :: ops =>
    (r.step batchSize op).2.toList ++ emissions batchSize (r.step batchSize op).1 ops

/-- The observed image at each point of a run, with its sequence number. -/
def emittedImages (batchSize : PyInt) : InventoryReporter → List Op → List (Nat × Image)
  | r, [] => [(r.sequence, r.observed)]
  | r, op :: ops =>
    (r.sequence, r.observed) :: emittedImages batchSize (r.step batchSize op).1 ops

end InventoryReporter
end SpoolCache.Quorum

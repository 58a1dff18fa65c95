import Mathlib.Data.Finset.Card
import Mathlib.Data.Finset.Image
import Mathlib.Data.Finset.Range
import SpoolCache.Base.OrderedDict
import SpoolCache.Quorum.Report

/-!
# Scheduler quorum catalog

`quorum.py:253–639`. The catalog keeps one image per expected rank, the inverted index from
entries to ranks, an LRU order over the indexed entries, one pending rolling checkpoint per
rank, and the adopted process identity of each rank. A call returns the next state together
with the exception it raises, if any: several calls raise after the state has changed.
Per-rank dictionaries are functions of the rank, with the value a missing key reads as.
-/

namespace SpoolCache.Quorum

open SpoolCache.Base

/-- `_PendingCheckpoint`, `quorum.py:253–261`. -/
structure PendingCheckpoint where
  sequence : Nat
  cycle : Nat
  count : Nat
  heldCount : Nat
  pages : OrderedDict Nat (List Entry)
  entryCount : Nat

/-- An image: the entries one rank holds. -/
abbrev Image := OrderedDict Digest Span

/-- State of `QuorumCatalog`, `quorum.py:302–320`. `boundEvictions` is a history variable: it
counts the entries `_enforce_bound` has dropped, and no operation reads it. -/
structure QuorumCatalog where
  expectedRanks : Finset Nat
  bounds : InventoryBounds
  generation : Nat → Option Identity
  generationHistory : Nat → List Identity
  sequences : Nat → Nat
  rankEntries : Nat → Image
  entryRanks : OrderedDict Digest (Finset Nat)
  pending : Nat → Option PendingCheckpoint
  desynchronized : Finset Nat
  generationConflicts : Finset Nat
  recency : OrderedDict Digest Unit
  generationChangesTotal : Nat
  quorumCount : Option Nat
  boundEvictions : Nat

namespace QuorumCatalog

/-- The rank set the constructor accepts, `quorum.py:275–284`: `0, …, n - 1`, not empty, at
most `MAX_INVENTORY_REPORTS`. -/
def expectedRanksOf (ranks : List PyInt) : Except PyError (Finset Nat) :=
  let materialized := ranks.take (maxInventoryReports + 1)
  if materialized ≠ [] ∧ (∀ r ∈ materialized, ∃ n ∈ List.range materialized.length,
        r = some (n : Int)) ∧ materialized.Nodup ∧
      materialized.length ≤ maxInventoryReports then
    .ok (Finset.range materialized.length)
  else .error (.valueError "expected ranks are invalid")

/-- Initial state over a rank set, `quorum.py:302–320`. -/
def fresh (bounds : InventoryBounds) (expectedRanks : Finset Nat) : QuorumCatalog where
  expectedRanks := expectedRanks
  bounds := bounds
  generation := fun _ ↦ none
  generationHistory := fun _ ↦ []
  sequences := fun _ ↦ 0
  rankEntries := fun _ ↦ .empty
  entryRanks := .empty
  pending := fun _ ↦ none
  desynchronized := expectedRanks
  generationConflicts := ∅
  recency := .empty
  generationChangesTotal := 0
  quorumCount := none
  boundEvictions := 0

/-- The constructor, `quorum.py:267–320`. -/
def create (ranks : List PyInt) (bounds : InventoryBounds) : Except PyError QuorumCatalog :=
  (expectedRanksOf ranks).map (fresh bounds)

/-! ### Index maintenance -/

/-- `ranks.discard(rank)` on one indexed entry, dropping an entry nobody holds. -/
def discardHolder (rank : Nat) (c : QuorumCatalog) (entryId : Digest) : QuorumCatalog :=
  match c.entryRanks.get? entryId with
  | none => c
  | some ranks =>
    if ranks.erase rank = ∅ then
      { c with
        entryRanks := c.entryRanks.erase entryId
        recency := c.recency.erase entryId }
    else { c with entryRanks := c.entryRanks.set entryId (ranks.erase rank) }

/-- `_withdraw_rank`, `quorum.py:322–331`. -/
def withdrawRank (c : QuorumCatalog) (rank : Nat) : QuorumCatalog :=
  let c' := (c.rankEntries rank).keys.foldl (discardHolder rank) { c with quorumCount := none }
  { c' with rankEntries := Function.update c'.rankEntries rank .empty }

/-- `_touch`: make one entry the most recent, `quorum.py:343–345`. -/
def touch (c : QuorumCatalog) (entryId : Digest) : QuorumCatalog :=
  { c with recency := (c.recency.erase entryId).set entryId () }

/-- Index one held entry: `setdefault(entry_id, set()).add(rank)` and `_touch`. -/
def addHolder (rank : Nat) (c : QuorumCatalog) (entryId : Digest) : QuorumCatalog :=
  let ranks := (c.entryRanks.get? entryId).getD ∅
  { c with entryRanks := c.entryRanks.set entryId (insert rank ranks) }.touch entryId

/-- One round of the `_enforce_bound` loop: drop the least recent entry everywhere. -/
def dropOldest (c : QuorumCatalog) (entryId : Digest) : QuorumCatalog :=
  let ranks := (c.entryRanks.get? entryId).getD ∅
  { c with
    quorumCount := none
    recency := c.recency.erase entryId
    entryRanks := c.entryRanks.erase entryId
    rankEntries := fun r ↦
      if r ∈ ranks then (c.rankEntries r).erase entryId else c.rankEntries r
    boundEvictions := c.boundEvictions + 1 }

/-- The loop of `_enforce_bound`, over the recency order from the oldest entry. -/
def enforceBoundFrom : List Digest → QuorumCatalog → QuorumCatalog
  | [], c => c
  | entryId :: rest, c =>
    if c.bounds.overBound c.entryRanks.size then enforceBoundFrom rest (c.dropOldest entryId)
    else c

/-- `_enforce_bound`, `quorum.py:347–353`. -/
def enforceBound (c : QuorumCatalog) : QuorumCatalog := enforceBoundFrom c.recency.keys c

/-- `_replace_rank`, `quorum.py:333–341`. The entries are valid by their type, so the
validation that opens the source function cannot raise. -/
def replaceRank (c : QuorumCatalog) (rank : Nat) (entries : Image) : QuorumCatalog :=
  let c := c.withdrawRank rank
  let c := { c with rankEntries := Function.update c.rankEntries rank entries }
  let c := entries.keys.foldl (addHolder rank) c
  { c with desynchronized := c.desynchronized.erase rank }.enforceBound

/-- `_withdraw_rank(rank)` followed by `_desynchronized.add(rank)`. -/
def desynchronize (c : QuorumCatalog) (rank : Nat) : QuorumCatalog :=
  let c := c.withdrawRank rank
  { c with desynchronized := insert rank c.desynchronized }

/-- `_pending.pop(rank, None)`. -/
def dropPending (c : QuorumCatalog) (rank : Nat) : QuorumCatalog :=
  { c with pending := Function.update c.pending rank none }

/-! ### Process generations -/

/-- `_GENERATION_HISTORY_LIMIT`, `quorum.py:19`. -/
def generationHistoryLimit : Nat := 64

/-- Outcomes of `_generation_disposition`. -/
inductive Disposition where
  | initial
  | stale
  | conflict
  | newer
  | current
  deriving DecidableEq, Repr

/-- `_generation_disposition`, `quorum.py:368–395`. -/
def generationDisposition (c : QuorumCatalog) (rank : Nat) (identity : Identity) : Disposition :=
  match c.generation rank with
  | none => .initial
  | some previous =>
    if identity.2 < previous.2 then
      if identity ∈ c.generationHistory rank then .stale else .conflict
    else if previous.2 < identity.2 then .newer
    else if identity.1 ≠ previous.1 ∨ rank ∈ c.generationConflicts then .conflict
    else .current

/-- Append to a bounded deque: beyond the limit the oldest item falls out. -/
def pushBounded {α : Type} (limit : Nat) (l : List α) (a : α) : List α :=
  let l := l ++ [a]
  l.drop (l.length - limit)

/-- Remember the superseded identity, `quorum.py:404–409`. -/
def rememberGeneration (c : QuorumCatalog) (rank : Nat) (identity : Identity) : QuorumCatalog :=
  match c.generation rank with
  | none => c
  | some previous =>
    if previous = identity then c
    else
      let history := c.generationHistory rank
      { c with
        generationChangesTotal := c.generationChangesTotal + 1
        generationHistory := Function.update c.generationHistory rank
          (if previous ∈ history then history
            else pushBounded generationHistoryLimit history previous) }

/-- `_adopt_generation`, `quorum.py:397–415`. -/
def adoptGeneration (c : QuorumCatalog) (rank : Nat) (identity : Identity) : QuorumCatalog :=
  let c := (c.rememberGeneration rank identity).withdrawRank rank
  { c with
    generation := Function.update c.generation rank (some identity)
    sequences := Function.update c.sequences rank 0
    pending := Function.update c.pending rank none
    desynchronized := insert rank c.desynchronized
    generationConflicts := c.generationConflicts.erase rank }

/-- `_mark_generation_conflict`, `quorum.py:417–423`. -/
def markGenerationConflict (c : QuorumCatalog) (rank : Nat) : QuorumCatalog :=
  let c := if rank ∈ c.generationConflicts then c
    else { c with generationChangesTotal := c.generationChangesTotal + 1 }
  let c := (c.withdrawRank rank).dropPending rank
  { c with
    desynchronized := insert rank c.desynchronized
    generationConflicts := insert rank c.generationConflicts }

/-! ### Startup images -/

/-- The argument `rank` as an expected rank, `quorum.py:433–438`. -/
def expectedRank? (expectedRanks : Finset Nat) (rank : PyInt) : Option Nat :=
  match rank with
  | some n => if 0 ≤ n ∧ n.toNat ∈ expectedRanks then some n.toNat else none
  | none => none

/-- `tuple(itertools.islice(entries, limit))`. -/
def EntryStream.takeItems (s : EntryStream) (limit : Nat) : Except PyError (List RawEntry) :=
  if limit ≤ s.items.length then .ok (s.items.take limit)
  else
    match s.failure with
    | some e => .error e
    | none => .ok s.items

/-- Startup entries after the identity checks, `quorum.py:458–466`. -/
def startupEntries (bounds : InventoryBounds) (entries : EntryStream) : Except PyError Image := do
  let items ← EntryStream.takeItems entries (bounds.inventoryCapacity + 1)
  let items ← validateEntries items
  if bounds.overBound items.length then
    .error (.manifestError "startup inventory exceeds the catalog bound")
  else
    let materialized := OrderedDict.ofItems items
    if materialized.size ≠ items.length then
      .error (.manifestError "startup inventory contains duplicate entry IDs")
    else .ok materialized

/-- A startup image holds entries that were offered. -/
theorem mem_items_of_startupEntries {bounds : InventoryBounds} {entries : EntryStream}
    {image : Image} (h : startupEntries bounds entries = .ok image) {k : Digest} {s : Span}
    (hk : image.get? k = some s) : rawEntry (k, s) ∈ entries.items := by
  unfold startupEntries at h
  cases ht : EntryStream.takeItems entries (bounds.inventoryCapacity + 1) with
  | error e =>
    rw [ht] at h
    cases h
  | ok items =>
    cases hv : validateEntries items with
    | error e => simp [ht, hv, bind, Except.bind] at h
    | ok es =>
      simp only [ht, hv, bind, Except.bind] at h
      split at h
      · cases h
      · split at h
        · cases h
        · cases h
          have hm := OrderedDict.mem_of_mem_ofItems _ ((OrderedDict.get?_eq_some_iff _ k s).mp hk)
          have hraw : rawEntry (k, s) ∈ es.map rawEntry := List.mem_map_of_mem hm
          rw [← eq_map_rawEntry_of_validateEntries hv] at hraw
          unfold EntryStream.takeItems at ht
          split at ht
          · cases ht
            exact List.mem_of_mem_take hraw
          · split at ht
            · cases ht
            · cases ht
              exact hraw

/-- A startup image of typed entries is accepted whole or not at all. -/
theorem startupEntries_rawEntry {bounds : InventoryBounds} {es : List Entry} {image : Image}
    (h : startupEntries bounds ⟨es.map rawEntry, none⟩ = .ok image) :
    image = OrderedDict.ofItems es := by
  unfold startupEntries EntryStream.takeItems at h
  simp only [List.length_map] at h
  split at h
  · next hl =>
    simp only [bind, Except.bind, ← List.map_take, validateEntries_rawEntry] at h
    have ho : bounds.overBound (es.take (bounds.inventoryCapacity + 1)).length = true := by
      rw [bounds.overBound_iff, List.length_take]
      omega
    rw [if_pos ho] at h
    cases h
  · simp only [bind, Except.bind, validateEntries_rawEntry] at h
    split at h
    · cases h
    · split at h
      · cases h
      · cases h
        rfl

/-- Install a startup image for an adopted generation, or raise. -/
def installStartup (c : QuorumCatalog) (rank : Nat) (entries : EntryStream) :
    QuorumCatalog × Option PyError :=
  match startupEntries c.bounds entries with
  | .error e => (c, some e)
  | .ok image => (c.replaceRank rank image, none)

/-- Error of both entry points for a rank outside the topology. -/
def unexpectedRank : PyError := .valueError "inventory report came from an unexpected rank"

/-- `apply_startup`, `quorum.py:425–466`. -/
def applyStartup (c : QuorumCatalog) (rank : PyInt) (generation : Option String)
    (generationEpoch : PyInt) (entries : EntryStream) : QuorumCatalog × Option PyError :=
  match expectedRank? c.expectedRanks rank with
  | none => (c, some unexpectedRank)
  | some rank =>
    match validateGenerationIdentity generation generationEpoch with
    | .error e => (c.markGenerationConflict rank, some e)
    | .ok identity =>
      match c.generationDisposition rank identity with
      | .stale => (c, none)
      | .conflict => (c.markGenerationConflict rank, none)
      | .current => (c, none)
      | .initial => (c.adoptGeneration rank identity).installStartup rank entries
      | .newer => (c.adoptGeneration rank identity).installStartup rank entries

/-! ### Reports -/

/-- The image after a delta: removals first, then additions in order. -/
def updatedImage (image : Image) (d : InventoryDelta) : Image :=
  d.added.foldl (fun m e ↦ m.set e.1 e.2) (d.removed.foldl (fun m k ↦ m.erase k) image)

/-- Delta part of `apply_report`, `quorum.py:515–531`. -/
def applyDelta (c : QuorumCatalog) (rank : Nat) (delta : Option InventoryDelta) :
    QuorumCatalog :=
  match delta with
  | none => c
  | some d =>
    if rank ∈ c.desynchronized then c
    else
      let current := c.sequences rank
      if d.baseSequence = current ∧ d.sequence = current + 1 then
        let updated := updatedImage (c.rankEntries rank) d
        { c with sequences := Function.update c.sequences rank d.sequence }.replaceRank
          rank updated
      else if current < d.sequence then c.desynchronize rank
      else c

/-- A checkpoint ahead of the recorded sequence withdraws the rank, `quorum.py:533–543`. -/
def checkSequence (c : QuorumCatalog) (rank : Nat) (checkpoint : InventoryCheckpoint) :
    QuorumCatalog :=
  if rank ∉ c.desynchronized ∧ c.sequences rank < checkpoint.sequence then c.desynchronize rank
  else c

/-- The pending checkpoint this page belongs to, or a fresh one, `quorum.py:544–557`. -/
def pendingFor (pending : Option PendingCheckpoint) (checkpoint : InventoryCheckpoint) :
    PendingCheckpoint :=
  let fresh : PendingCheckpoint :=
    ⟨checkpoint.sequence, checkpoint.cycle, checkpoint.count, checkpoint.heldCount, .empty, 0⟩
  match pending with
  | none => fresh
  | some p =>
    if p.cycle ≠ checkpoint.cycle ∨ p.sequence ≠ checkpoint.sequence then fresh else p

/-- `tuple(item for index in range(count) for item in pages[index])`. -/
def flattenedPages (p : PendingCheckpoint) : List Entry :=
  (List.range p.count).flatMap fun i ↦ (p.pages.get? i).getD []

/-- A complete checkpoint: ignored when superseded, rejected when inconsistent, otherwise
installed, `quorum.py:578–594`. -/
def completeCheckpoint (c : QuorumCatalog) (rank : Nat) (p : PendingCheckpoint) :
    QuorumCatalog :=
  let flattened := flattenedPages p
  let current := c.sequences rank
  let c :=
    if p.sequence < current then c
    else if flattened.length ≠ p.heldCount ∨
        (OrderedDict.ofItems flattened).size ≠ flattened.length then c.desynchronize rank
    else { c with sequences := Function.update c.sequences rank p.sequence }.replaceRank
      rank (OrderedDict.ofItems flattened)
  c.dropPending rank

/-- `_pending.pop`, `_withdraw_rank` and `_desynchronized.add`: an inconsistent report. -/
def rejectPending (c : QuorumCatalog) (rank : Nat) : QuorumCatalog :=
  (c.dropPending rank).desynchronize rank

/-- The pending checkpoint with one page stored. -/
def storePage (p : PendingCheckpoint) (checkpoint : InventoryCheckpoint) : PendingCheckpoint :=
  { p with
    pages := p.pages.set checkpoint.index checkpoint.entries
    entryCount := p.entryCount - ((p.pages.get? checkpoint.index).getD []).length +
      checkpoint.entries.length }

/-- Checkpoint page of `apply_report` once its pending record is chosen,
`quorum.py:557–594`. -/
def storeCheckpoint (c : QuorumCatalog) (rank : Nat) (checkpoint : InventoryCheckpoint)
    (p : PendingCheckpoint) : QuorumCatalog :=
  if checkpoint.count = 0 ∨ ¬ checkpoint.index < checkpoint.count ∨
      checkpoint.count ≠ p.count ∨ checkpoint.heldCount ≠ p.heldCount then
    c.rejectPending rank
  else
    let stored := storePage p checkpoint
    if p.heldCount < stored.entryCount then c.rejectPending rank
    else
      let c := { c with pending := Function.update c.pending rank (some stored) }
      if stored.pages.size = stored.count then c.completeCheckpoint rank stored else c

/-- Checkpoint part of `apply_report`, `quorum.py:533–594`. -/
def applyCheckpoint (c : QuorumCatalog) (rank : Nat) (checkpoint : InventoryCheckpoint) :
    QuorumCatalog :=
  let c := c.checkSequence rank checkpoint
  c.storeCheckpoint rank checkpoint (pendingFor (c.pending rank) checkpoint)

/-- `apply_report` after the identity checks, `quorum.py:501–594`. -/
def applyBody (c : QuorumCatalog) (rank : Nat) (report : RawReport) : QuorumCatalog :=
  match validateInventoryReport c.bounds report with
  | .error _ => c.rejectPending rank
  | .ok valid => (c.applyDelta rank valid.delta).applyCheckpoint rank valid.checkpoint

/-- `apply_report`, `quorum.py:468–594`. -/
def applyReport (c : QuorumCatalog) (report : RawReport) : QuorumCatalog × Option PyError :=
  match expectedRank? c.expectedRanks report.rank with
  | none => (c, some unexpectedRank)
  | some rank =>
    match validateGenerationIdentity report.generation report.generationEpoch with
    | .error e => (c.markGenerationConflict rank, some e)
    | .ok identity =>
      match c.generationDisposition rank identity with
      | .stale => (c, none)
      | .conflict => (c.markGenerationConflict rank, none)
      | .initial => ((c.adoptGeneration rank identity).applyBody rank report, none)
      | .newer => ((c.adoptGeneration rank identity).applyBody rank report, none)
      | .current => (c.applyBody rank report, none)

/-! ### Queries -/

/-- `has_quorum`, `quorum.py:596–604`. -/
def hasQuorum (c : QuorumCatalog) (entryId : Digest) (spanTokens : Option Nat) : Bool :=
  let ranks := (c.entryRanks.get? entryId).getD ∅
  if ranks ≠ c.expectedRanks then false
  else
    let spans := ranks.image fun r ↦ (c.rankEntries r).get? entryId
    if spans.card ≠ 1 then false
    else
      match spanTokens with
      | some s => decide (∃ only ∈ spans, only.map Subtype.val = some s)
      | none => decide (∃ only ∈ spans, only ≠ none)

/-- Order of `sorted(candidates, reverse=True)` on pairs. -/
def candidateGe (a b : Nat × Digest) : Prop := b.1 < a.1 ∨ (b.1 = a.1 ∧ b.2 ≤ a.2)

instance : DecidableRel candidateGe := fun a b ↦
  inferInstanceAs (Decidable (b.1 < a.1 ∨ (b.1 = a.1 ∧ b.2 ≤ a.2)))

/-- `longest`: the first candidate with quorum in descending order becomes most recent,
`quorum.py:606–611`. -/
def longest (c : QuorumCatalog) (candidates : List (Nat × Digest)) :
    QuorumCatalog × Option (Nat × Digest) :=
  match (candidates.insertionSort candidateGe).find? fun p ↦ c.hasQuorum p.2 (some p.1) with
  | some p => (c.touch p.2, some p)
  | none => (c, none)

/-- `sum(self.has_quorum(entry_id) for entry_id in self._entry_ranks)`. -/
def countQuorum (c : QuorumCatalog) : Nat :=
  c.entryRanks.keys.countP fun entryId ↦ c.hasQuorum entryId none

/-- The property `quorum_count`, which caches its answer, `quorum.py:613–619`. -/
def readQuorumCount (c : QuorumCatalog) : QuorumCatalog × Nat :=
  match c.quorumCount with
  | some n => (c, n)
  | none => ({ c with quorumCount := some c.countQuorum }, c.countQuorum)

/-- `has_all_rank_identities`, `quorum.py:633–635`. -/
def hasAllRankIdentities (c : QuorumCatalog) : Prop := ∀ r ∈ c.expectedRanks, c.generation r ≠ none

/-- `is_ready`, `quorum.py:637–639`. -/
def isReady (c : QuorumCatalog) : Prop := c.hasAllRankIdentities ∧ c.desynchronized = ∅

/-! ### Runs -/

/-- Calls that reach the catalog from outside. -/
inductive Call where
  | startup (rank : PyInt) (generation : Option String) (generationEpoch : PyInt)
      (entries : EntryStream)
  | report (report : RawReport)
  | longest (candidates : List (Nat × Digest))
  | readQuorumCount
  deriving DecidableEq

/-- The expected rank a call is about, if any. -/
def Call.rank? (expectedRanks : Finset Nat) : Call → Option Nat
  | .startup rank _ _ _ => expectedRank? expectedRanks rank
  | .report raw => expectedRank? expectedRanks raw.rank
  | .longest _ => none
  | .readQuorumCount => none

/-- A rank that is recognised is an expected one. -/
theorem mem_of_expectedRank? {ranks : Finset Nat} {rank : PyInt} {q : Nat}
    (h : expectedRank? ranks rank = some q) : q ∈ ranks := by
  unfold expectedRank? at h
  split at h
  · split at h
    · next hr =>
      cases h
      exact hr.2
    · cases h
  · cases h

/-- A call is only about expected ranks. -/
theorem Call.mem_of_rank? {ranks : Finset Nat} {m : Call} {q : Nat}
    (h : m.rank? ranks = some q) : q ∈ ranks := by
  cases m with
  | startup rank generation epoch entries => exact mem_of_expectedRank? h
  | report raw => exact mem_of_expectedRank? h
  | longest candidates => cases h
  | readQuorumCount => cases h

/-- State after a call, whether or not the call raised. -/
def call (c : QuorumCatalog) : Call → QuorumCatalog
  | .startup rank generation epoch entries => (c.applyStartup rank generation epoch entries).1
  | .report report => (c.applyReport report).1
  | .longest candidates => (c.longest candidates).1
  | .readQuorumCount => c.readQuorumCount.1

/-- State after a sequence of calls. -/
def run (c : QuorumCatalog) (calls : List Call) : QuorumCatalog := calls.foldl call c

/-- No call changes nothing. -/
@[simp] theorem run_nil (c : QuorumCatalog) : c.run [] = c := rfl

/-- The first call is received before the rest. -/
@[simp] theorem run_cons (c : QuorumCatalog) (m : Call) (calls : List Call) :
    c.run (m :: calls) = (c.call m).run calls := rfl

/-- Calls are received one after the other. -/
theorem run_append (c : QuorumCatalog) (a b : List Call) : c.run (a ++ b) = (c.run a).run b :=
  List.foldl_append

end QuorumCatalog
end SpoolCache.Quorum
